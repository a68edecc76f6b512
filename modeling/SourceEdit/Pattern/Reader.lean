import SourceEdit.Pattern.Bracket

/-!
# Reading regular expressions

The reader keeps a stack of open groups. Each group holds the branches already finished and the
items of the branch being read, the latest first, so that a repetition finds its operand on top.
An expression may nest at most `maxDepth` levels and may take at most `maxSpace` once its bounded
repetitions are written out.
-/

namespace SourceEdit.Pattern

open Unicode (CodeSet)

structure Item where
  node : Node CodeSet
  depth : Nat
  /-- Setting flags inside a group is an item that cannot be repeated. -/
  repeatable : Bool := true

structure OpenGroup where
  /-- The flags to return to when the group closes. -/
  outerFlags : Flags
  /-- Finished branches with their depths, the latest first. -/
  branches : List (Node CodeSet × Nat) := []
  /-- Items of the current branch, the latest first. -/
  items : List Item := []

def OpenGroup.push (g : OpenGroup) (item : Item) : OpenGroup :=
  { g with items := item :: g.items }

def OpenGroup.branch (g : OpenGroup) : Node CodeSet × Nat :=
  let items := g.items.reverse
  let depth := items.foldl (fun d i => max d i.depth) 0
  (Node.seqOf (items.map (·.node)), if items.length ≤ 1 then depth else depth + 1)

def OpenGroup.nextBranch (g : OpenGroup) : OpenGroup :=
  { g with branches := g.branch :: g.branches, items := [] }

def OpenGroup.close (g : OpenGroup) : Node CodeSet × Nat :=
  match g.branches with
  | [] => g.branch
  | bs =>
    let all := (g.branch :: bs).reverse
    (Node.altOf (all.map (·.1)), all.foldl (fun d b => max d b.2) 0 + 1)

/-! ## Repetition -/

def maxCount : Nat := 4294967295

def countDigits (f : Flags) : Nat → List Char → List Char × List Char
  | 0, cs => ([], cs)
  | fuel + 1, cs =>
    match cs with
    | c :: rest =>
      if c.isDigit then
        let (ds, rest) := countDigits f fuel (f.skip rest)
        (c :: ds, rest)
      else ([], cs)
    | [] => ([], [])

/-- Reads a count; blanks around it never matter. -/
def count? (f : Flags) (cs : List Char) : Option (Nat × List Char) :=
  let cs := cs.dropWhile Text.isBlank
  let (ds, rest) := countDigits f (cs.length + 1) cs
  let n := ds.foldl (fun acc c => acc * 10 + (c.toNat - 48)) 0
  if ds.isEmpty || n > maxCount then none
  else some (n, f.skip (rest.dropWhile Text.isBlank))

/-- Reads the bounds of a counted repetition after its opening brace. -/
def bounds? (f : Flags) (cs : List Char) : Option (Nat × Option Nat × List Char) := do
  let (lo, rest) ← count? f (f.skip cs)
  match rest with
  | '}' :: rest => some (lo, some lo, rest)
  | ',' :: rest =>
    match f.skip rest with
    | '}' :: rest => some (lo, none, rest)
    | rest =>
      match ← count? f rest with
      | (hi, '}' :: rest) => if lo ≤ hi then some (lo, some hi, rest) else none
      | _ => none
  | _ => none

/-- A question mark after a repetition changes its preference, which does not matter here. -/
def dropPreference : List Char → List Char
  | '?' :: rest => rest
  | cs => cs

def OpenGroup.repeatLast? (g : OpenGroup) (lo : Nat) (hi : Option Nat) : Option OpenGroup :=
  match g.items with
  | item :: items =>
    if item.repeatable then
      some { g with items := { node := .times lo hi item.node, depth := item.depth + 1 } :: items }
    else none
  | [] => none

/-! ## Groups -/

def isNameChar (first : Bool) (c : Char) : Bool :=
  let alphabetic := ((Unicode.property? "alphabetic").getD ∅).contains c
  if first then c == '_' || alphabetic
  else c == '_' || c == '.' || c == '[' || c == ']' || alphabetic ||
    ((Unicode.category? "n").getD ∅).contains c

/-- Reads the name of a group to its closing angle bracket. -/
def groupName? (cs : List Char) : Option (String × List Char) :=
  match splitProperty ['>'] cs with
  | some (c :: name, rest) =>
    if isNameChar true c && name.all (isNameChar false) then some (String.ofList (c :: name), rest)
    else none
  | _ => none

/-- Reads flags up to a colon or a closing parenthesis. Each flag may stand once, and so may the
hyphen, which has to be followed by a flag. -/
def flags? (seen : List Char) (on : Bool) (f : Flags) : List Char → Option (Flags × List Char)
  | [] => none
  | c :: cs =>
    if c == ':' || c == ')' then
      if seen.head? == some '-' then none else some (f, c :: cs)
    else if seen.contains c then none
    else if c == '-' then flags? (c :: seen) false f cs
    else do
      let f' ← f.set? c on
      flags? (c :: seen) on f' cs

inductive GroupStart where
  /-- A group under the given flags, possibly named. -/
  | group (flags : Flags) (name : Option String)
  /-- No group: the flags hold for the rest of the enclosing group. -/
  | setFlags (flags : Flags)

/-- Reads the start of a group after its parenthesis. Looking ahead or behind is not offered. -/
def groupStart? (f : Flags) (cs : List Char) : Option (GroupStart × List Char) :=
  match f.skip cs with
  | '?' :: 'P' :: '<' :: rest => (groupName? rest).map fun (n, rest) => (.group f (some n), rest)
  | '?' :: '<' :: rest => (groupName? rest).map fun (n, rest) => (.group f (some n), rest)
  | '?' :: rest =>
    match flags? [] true f rest with
    | some (f', ':' :: more) => some (.group f' none, more)
    | some (f', ')' :: more) => if rest.head? == some ')' then none else some (.setFlags f', more)
    | _ => none
  | rest => some (.group f none, rest)

/-! ## The reader -/

/-- Everything that the reader knows: the flags in force, the group being read, those around it,
and the names of groups so far. -/
structure ReaderState where
  flags : Flags
  current : OpenGroup
  outer : List OpenGroup := []
  names : List String := []

def ReaderState.push (s : ReaderState) (node : Node CodeSet) (depth : Nat) : ReaderState :=
  { s with current := s.current.push { node, depth } }

def ReaderState.step? (s : ReaderState) : List Char → Option (ReaderState × List Char)
  | [] => none
  | c :: cs =>
    let f := s.flags
    let repeated := fun lo hi rest =>
      (s.current.repeatLast? lo hi).map fun g =>
        ({ s with current := g }, dropPreference rest)
    match c with
    | '(' => do
      match ← groupStart? f cs with
      | (.setFlags f', rest) =>
        let item : Item := { node := .empty, depth := 0, repeatable := false }
        some ({ s with flags := f', current := s.current.push item }, rest)
      | (.group f' name, rest) =>
        if name.any s.names.contains then none
        else some ({ flags := f', current := { outerFlags := f }, outer := s.current :: s.outer,
                     names := name.toList ++ s.names }, rest)
    | ')' =>
      match s.outer with
      | [] => none
      | parent :: outer =>
        let (node, depth) := s.current.close
        some ({ s with flags := s.current.outerFlags, outer,
                       current := parent.push { node, depth := depth + 1 } }, cs)
    | '|' => some ({ s with current := s.current.nextBranch }, cs)
    | '[' => do
      let (set, depth, rest) ← bracket? f cs
      some (s.push (.leaf set) depth, rest)
    | '?' => repeated 0 (some 1) cs
    | '*' => repeated 0 none cs
    | '+' => repeated 1 none cs
    | '{' => do
      let (lo, hi, rest) ← bounds? f cs
      repeated lo hi (f.skip rest)
    | '\\' => do
      match ← escape? f cs with
      | (.literal c isByte, rest) => some (s.push (← f.literal? c isByte) 0, rest)
      | (.set set, rest) => some (s.push (.leaf set) 0, rest)
      | (.anchor a, rest) => some (s.push (.anchor a) 0, rest)
    | '.' => f.dot?.map fun n => (s.push n 0, cs)
    | '^' => some (s.push (.anchor f.lineStart) 0, cs)
    | '$' => some (s.push (.anchor f.lineEnd) 0, cs)
    | _ => do
      let leaf ← f.literal? c false
      some (s.push leaf 0, cs)

/-- Reads to the end of the expression. Every step takes at least one character, so the length of
the text bounds their number. -/
def readLoop : Nat → ReaderState → List Char → Option (Node CodeSet × Nat)
  | 0, _, _ => none
  | fuel + 1, s, cs =>
    match s.flags.skip cs with
    | [] => if s.outer.isEmpty then some s.current.close else none
    | cs => do
      let (s', rest) ← s.step? cs
      readLoop fuel s' rest

def maxDepth : Nat := 250

/-- The most that an expression may take with its repetitions written out. -/
def maxSpace : Nat := 10 * 1024 * 1024

/-- The space of a leaf: a character takes as much as its encoding, a class grows with the number
of its intervals. -/
def leafSpace (set : CodeSet) : Nat :=
  match set.ranges with
  | [(lo, hi)] => if lo = hi then 32 * (if lo < 0x80 then 1 else if lo < 0x800 then 2 else
      if lo < 0x10000 then 3 else 4) else if hi < 0x80 then 32 else 72
  | rs => if set.isAscii then 32 + 8 * rs.length else 72 * rs.length

/-- The tree of an expression, or none if the text is no expression or a limit is exceeded. -/
def read? (text : List Char) : Option (Node CodeSet) := do
  let start : ReaderState := { flags := {}, current := { outerFlags := {} } }
  let (node, depth) ← readLoop (text.length + 1) start text
  if depth ≤ maxDepth && node.space leafSpace ≤ maxSpace then some node else none

end SourceEdit.Pattern
