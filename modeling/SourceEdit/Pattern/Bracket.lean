import SourceEdit.Pattern.Escape

/-!
# Bracketed classes

A class in brackets is a union of characters, ranges, escapes, named ASCII classes and nested
classes; `&&`, `--` and `~~` between such unions intersect, subtract and take the symmetric
difference, all of one precedence and from the left.
-/

namespace SourceEdit.Pattern

open Unicode (CodeSet)

inductive ClassOp where
  | inter | diff | symmDiff
  deriving Repr, DecidableEq

/-- The result of an operation; without regard to case, both operands are closed first. -/
def ClassOp.apply (f : Flags) (op : ClassOp) (left right : CodeSet) : CodeSet :=
  let l := f.fold left
  let r := f.fold right
  match op with
  | .inter => l.inter r
  | .diff => l.diff r
  | .symmDiff => l.symmDiff r

/-- A class in the making: what was read since its bracket or its last operator. -/
structure OpenClass where
  negated : Bool
  /-- The operand on the left of a pending operator. -/
  pending : Option (ClassOp × CodeSet) := none
  /-- The union being read. -/
  union : CodeSet := ∅
  /-- How many items the union has, and how deep they nest. -/
  count : Nat := 0
  depth : Nat := 0

def OpenClass.add (c : OpenClass) (set : CodeSet) (depth : Nat) : OpenClass :=
  { c with union := c.union.union set, count := c.count + 1, depth := max c.depth depth }

/-- The depth of the union read so far, which is a level of its own if it joins several items. -/
def OpenClass.level (c : OpenClass) : Nat :=
  if c.count = 1 then c.depth else c.depth + 1

def OpenClass.value (f : Flags) (c : OpenClass) : CodeSet :=
  match c.pending with
  | none => c.union
  | some (op, left) => op.apply f left c.union

def OpenClass.operator (f : Flags) (c : OpenClass) (op : ClassOp) : OpenClass :=
  { negated := c.negated, pending := some (op, c.value f), depth := c.level + 1 }

/-- The class that a closing bracket completes. Without Unicode, one within another class has to
stay within ASCII as well, whatever the outer one makes of it. -/
def OpenClass.close? (f : Flags) (c : OpenClass) : Option CodeSet :=
  f.admit? (f.foldNegate c.negated (c.value f))

/-- A member of a class before it is known whether it starts a range. -/
inductive ClassItem where
  | char (c : Char)
  | set (s : CodeSet)

def classItem? (f : Flags) : List Char → Option (ClassItem × List Char)
  | [] => none
  | '\\' :: cs =>
    match escape? f cs with
    | some (.literal c _, rest) => some (.char c, rest)
    | some (.set s, rest) => some (.set s, rest)
    | _ => none
  | c :: cs => some (.char c, cs)

/-- Without Unicode, a class holds bytes, and those above ASCII are parts of characters. -/
def classChar? (f : Flags) (c : Char) : Option Nat :=
  if f.unicode || c.toNat < 128 then some c.toNat else none

def classRange? (f : Flags) (cs : List Char) : Option (CodeSet × List Char) := do
  let (item, rest) ← classItem? f cs
  let rest := f.skip rest
  let single : Option (CodeSet × List Char) := match item with
    | .char c => (classChar? f c).map fun n => (.range n n, rest)
    | .set s => some (s, rest)
  match rest with
  | [] => none
  | '-' :: more =>
    match f.skip more with
    | ']' :: _ => single
    | '-' :: _ => single
    | [] => none
    | next =>
      match item, ← classItem? f next with
      | .char a, (.char b, rest) =>
        let lo ← classChar? f a
        let hi ← classChar? f b
        if lo ≤ hi then some (.range lo hi, rest) else none
      | _, _ => none
  | _ => single

/-- A named ASCII class such as `[:alpha:]`, given the text after its first bracket. -/
def namedAscii? (f : Flags) : List Char → Option (CodeSet × List Char)
  | ':' :: cs =>
    let (negated, cs) := match cs with
      | '^' :: more => (true, more)
      | _ => (false, cs)
    match splitProperty [':'] cs with
    | some (name, ']' :: rest) =>
      (asciiClass? (String.ofList name)).map fun set => (f.foldNegate negated set, rest)
    | _ => none
  | _ => none

/-- Hyphens directly after the opening bracket stand for themselves. -/
def leadingHyphens (f : Flags) (c : OpenClass) : Nat → List Char → OpenClass × List Char
  | 0, cs => (c, cs)
  | fuel + 1, cs =>
    match cs with
    | '-' :: rest => leadingHyphens f (c.add (.range 45 45) 0) fuel (f.skip rest)
    | _ => (c, cs)

/-- Starts a class, after its opening bracket: a caret negates it, and a bracket that would close
it at once stands for itself. -/
def openClass (f : Flags) (cs : List Char) : OpenClass × List Char :=
  let cs := f.skip cs
  let (negated, cs) := match cs with
    | '^' :: rest => (true, f.skip rest)
    | _ => (false, cs)
  let (c, cs) := leadingHyphens f { negated } cs.length cs
  match cs with
  | ']' :: rest => if c.count = 0 then (c.add (.range 93 93) 0, f.skip rest) else (c, cs)
  | _ => (c, cs)

/-- Reads a class to its closing bracket; `outer` holds the classes around the current one. The
result carries the depth to which classes nest. -/
def classLoop (f : Flags) : Nat → List OpenClass → OpenClass → List Char →
    Option (CodeSet × Nat × List Char)
  | 0, _, _, _ => none
  | fuel + 1, outer, current, cs =>
    match f.skip cs with
    | [] => none
    | '[' :: rest =>
      match namedAscii? f rest with
      | some (set, rest) => do classLoop f fuel outer (current.add (← f.admit? set) 0) rest
      | none =>
        let (inner, rest) := openClass f rest
        classLoop f fuel (current :: outer) inner rest
    | ']' :: rest =>
      let depth := current.level + 1
      match current.close? f, outer with
      | none, _ => none
      | some set, [] => some (set, depth, rest)
      | some set, parent :: outer => classLoop f fuel outer (parent.add set depth) rest
    | '&' :: '&' :: rest => classLoop f fuel outer (current.operator f .inter) rest
    | '-' :: '-' :: rest => classLoop f fuel outer (current.operator f .diff) rest
    | '~' :: '~' :: rest => classLoop f fuel outer (current.operator f .symmDiff) rest
    | cs =>
      match classRange? f cs with
      | some (set, rest) => classLoop f fuel outer (current.add set 0) rest
      | none => none

def bracket? (f : Flags) (cs : List Char) : Option (CodeSet × Nat × List Char) :=
  let (c, rest) := openClass f cs
  classLoop f (rest.length + 1) [] c rest

end SourceEdit.Pattern
