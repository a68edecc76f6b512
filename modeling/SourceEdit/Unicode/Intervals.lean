/-!
# Sets of code points

A set of code points is a list of closed intervals, kept sorted and apart. The larger sets are
stored as text: the numbers of the text alternate between the gap before an interval and its
length less one, so that a set of some hundred intervals takes a few lines.
-/

namespace SourceEdit.Unicode

/-- A set of code points as closed intervals, in ascending order and with a gap between any two. -/
structure CodeSet where
  ranges : List (Nat × Nat)
  deriving Repr, DecidableEq

def lastCode : Nat := 0x10FFFF

theorem toNat_le_lastCode (c : Char) : c.toNat ≤ lastCode := by
  have hvalid : c.toNat < 0xD800 ∨ 0xDFFF < c.toNat ∧ c.toNat < 0x110000 := c.valid
  rw [lastCode]
  omega

namespace CodeSet

def empty : CodeSet := ⟨[]⟩

instance : EmptyCollection CodeSet := ⟨empty⟩

def range (lo hi : Nat) : CodeSet := ⟨[(lo, hi)]⟩

def full : CodeSet := range 0 lastCode

/-- Joins intervals that overlap or touch, in a list sorted by lower ends; `lo` and `hi` are the
interval being built. -/
def joinFrom (lo hi : Nat) : List (Nat × Nat) → List (Nat × Nat)
  | [] => [(lo, hi)]
  | (lo', hi') :: rest =>
    if lo' ≤ hi + 1 then joinFrom lo (max hi hi') rest else (lo, hi) :: joinFrom lo' hi' rest

def joinTouching : List (Nat × Nat) → List (Nat × Nat)
  | [] => []
  | (lo, hi) :: rest => joinFrom lo hi rest

/-- Puts an interval in front of the first one that starts later, or at the same place. -/
def insertRange (r : Nat × Nat) : List (Nat × Nat) → List (Nat × Nat)
  | [] => [r]
  | s :: rest => if r.1 ≤ s.1 then r :: s :: rest else s :: insertRange r rest

/-- The set of the members of some intervals, given in any order. -/
def ofRanges (ranges : List (Nat × Nat)) : CodeSet :=
  ⟨joinTouching (ranges.foldr insertRange [])⟩

def ofChars (cs : List Char) : CodeSet :=
  ofRanges (cs.map fun c => (c.toNat, c.toNat))

def hasCode (s : CodeSet) (n : Nat) : Bool :=
  s.ranges.any fun (lo, hi) => lo ≤ n && n ≤ hi

def contains (s : CodeSet) (c : Char) : Bool :=
  s.hasCode c.toNat

def union (s t : CodeSet) : CodeSet :=
  ofRanges (s.ranges ++ t.ranges)

/-- The gaps of a sorted list of intervals, from `next` on. -/
def gapsFrom (next : Nat) : List (Nat × Nat) → List (Nat × Nat)
  | [] => if next ≤ lastCode then [(next, lastCode)] else []
  | (lo, hi) :: rest =>
    if next < lo then (next, lo - 1) :: gapsFrom (hi + 1) rest else gapsFrom (hi + 1) rest

def compl (s : CodeSet) : CodeSet :=
  ⟨gapsFrom 0 s.ranges⟩

def inter (s t : CodeSet) : CodeSet :=
  (s.compl.union t.compl).compl

def diff (s t : CodeSet) : CodeSet :=
  s.inter t.compl

def symmDiff (s t : CodeSet) : CodeSet :=
  (s.diff t).union (t.diff s)

def isAscii (s : CodeSet) : Bool :=
  s.ranges.all fun (_, hi) => hi < 128

end CodeSet

/-! ## Sets as text -/

/-- The value of a digit and whether it ends its number: the last digit of a number is a capital
letter or one of `0` to `5`, all others are small letters or one of `6` to `9`, `+` and `/`. -/
def digitOf (c : Char) : Nat × Bool :=
  let n := c.toNat
  if 65 ≤ n && n ≤ 90 then (n - 65, true)
  else if 48 ≤ n && n ≤ 53 then (n - 48 + 26, true)
  else if 97 ≤ n && n ≤ 122 then (n - 97, false)
  else if 54 ≤ n && n ≤ 57 then (n - 54 + 26, false)
  else if n == 43 then (30, false)
  else (31, false)

def numbersFrom (acc : Nat) : List Char → List Nat
  | [] => []
  | c :: cs =>
    let (d, last) := digitOf c
    if last then (acc * 32 + d) :: numbersFrom 0 cs else numbersFrom (acc * 32 + d) cs

def numbersOfLines (lines : List String) : List Nat :=
  numbersFrom 0 (lines.flatMap String.toList)

/-- The intervals that alternating gaps and lengths describe, from `next` on. -/
def rangesOfGaps (next : Nat) : List Nat → List (Nat × Nat)
  | gap :: more :: rest =>
    (next + gap, next + gap + more) :: rangesOfGaps (next + gap + more + 1) rest
  | _ => []

def CodeSet.ofLines (lines : List String) : CodeSet :=
  ⟨rangesOfGaps 0 (numbersOfLines lines)⟩

end SourceEdit.Unicode
