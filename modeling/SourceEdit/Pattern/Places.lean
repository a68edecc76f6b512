import SourceEdit.Pattern.Node
import SourceEdit.Unicode.Property

/-!
# Matching

A set of places of a text is a number: place `i` is in it when bit `i` is set. An expression maps
the set of places where a match may begin to the set of places where it may end. A leaf moves
every place on whose right a fitting character stands one to the right, sequencing is composition,
choice is union, and unbounded repetition adds places until none is new, which happens after at
most as many rounds as the text has places.
-/

namespace SourceEdit.Pattern

/-- The word characters of Unicode: letters, marks, decimal digits, connectors and joiners. -/
def wordSet : Unicode.CodeSet :=
  ["alphabetic", "joinc"].foldl (fun acc n => acc.union ((Unicode.property? n).getD ∅))
    (["m", "nd", "pc"].foldl (fun acc n => acc.union ((Unicode.category? n).getD ∅)) ∅)

def asciiWordSet : Unicode.CodeSet :=
  .ofRanges [(48, 57), (65, 90), (95, 95), (97, 122)]

def isWordChar (ascii : Bool) (c : Char) : Bool :=
  if c.toNat < 128 then asciiWordSet.contains c else !ascii && wordSet.contains c

/-- Whether an anchor holds between the two neighbours of a place. -/
def Anchor.holds (before after : Option Char) : Anchor → Bool
  | .textStart => before.isNone
  | .textEnd => after.isNone
  | .lineStart false => before.isNone || before == some '\n'
  | .lineEnd false => after.isNone || after == some '\n'
  | .lineStart true =>
    before.isNone || before == some '\n' || (before == some '\r' && after != some '\n')
  | .lineEnd true =>
    after.isNone || after == some '\r' || (after == some '\n' && before != some '\r')
  | .wordEdge a => before.any (isWordChar a) != after.any (isWordChar a)
  | .notWordEdge a => before.any (isWordChar a) == after.any (isWordChar a)
  | .wordStart a => !before.any (isWordChar a) && after.any (isWordChar a)
  | .wordEnd a => before.any (isWordChar a) && !after.any (isWordChar a)
  | .wordStartHalf a => !before.any (isWordChar a)
  | .wordEndHalf a => !after.any (isWordChar a)

/-! ## Places as bits -/

/-- The bits at `i, i + 1, ...` given by a list. -/
def bitsFrom (i : Nat) : List Bool → Nat
  | [] => 0
  | b :: bs => (if b then 1 <<< i else 0) ||| bitsFrom (i + 1) bs

/-- The places with a fitting element on their right. -/
def placesBefore (fits : α → Bool) (text : List α) : Nat :=
  bitsFrom 0 (text.map fits)

/-- For each place of the text, from the left, its two neighbours. -/
def neighbours (before : Option Char) : List Char → List (Option Char × Option Char)
  | [] => [(before, none)]
  | c :: cs => (before, some c) :: neighbours (some c) cs

def placesAt (text : List Char) (anchor : Anchor) : Nat :=
  bitsFrom 0 ((neighbours none text).map fun (b, a) => anchor.holds b a)

/-- A place set grown by `step` until nothing is new; `fuel` bounds the rounds. -/
def grow (step : Nat → Nat) : Nat → Nat → Nat → Nat
  | 0, seen, _ => seen
  | fuel + 1, seen, frontier =>
    let reached := step frontier
    let fresh := reached ^^^ (reached &&& seen)
    if fresh = 0 then seen else grow step fuel (seen ||| fresh) fresh

/-- `step` done exactly `n` times; an empty set stays empty. -/
def iterate (step : Nat → Nat) : Nat → Nat → Nat
  | 0, places => places
  | n + 1, places => if places = 0 then 0 else iterate step n (step places)

/-- Where matches that begin at `starts` may end. The leaves hold the places before a fitting
character, and `anchors` those where an anchor holds. -/
def ends (anchors : Anchor → Nat) (size : Nat) : Node Nat → Nat → Nat
  | .empty, starts => starts
  | .leaf places, starts => (starts &&& places) <<< 1
  | .anchor a, starts => starts &&& anchors a
  | .seq a b, starts => ends anchors size b (ends anchors size a starts)
  | .alt a b, starts => ends anchors size a starts ||| ends anchors size b starts
  | .times lo hi body, starts =>
    let first := iterate (ends anchors size body) lo starts
    let rounds := match hi with
      | none => size + 1
      | some hi => min (hi - lo) (size + 1)
    grow (ends anchors size body) rounds first first

/-- Where matches that begin at `starts` may end in a text of any elements, given which of them fit
a leaf. -/
def endsIn (fits : α → β → Bool) (anchors : Anchor → Nat) (node : Node α) (text : List β)
    (starts : Nat) : Nat :=
  ends anchors text.length (node.map fun a => placesBefore (fits a) text) starts

/-- Whether a match of the expression begins at the start of the text and ends at its end. -/
def matchesWhole (fits : α → β → Bool) (anchors : Anchor → Nat) (node : Node α) (text : List β) :
    Bool :=
  (endsIn fits anchors node text 1).testBit text.length

/-- Whether the expression matches somewhere in the text. -/
def matchesWithin (fits : α → β → Bool) (anchors : Anchor → Nat) (node : Node α)
    (text : List β) : Bool :=
  endsIn fits anchors node text (1 <<< (text.length + 1) - 1) != 0

end SourceEdit.Pattern
