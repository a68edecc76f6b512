/-!
# Reading globs

A glob is a pattern for paths. `?` stands for one byte, `*` for any number of them, brackets hold
a class and braces hold alternatives, which may nest; a backslash makes the next character
literal. `**` alone between slashes, or at either end, stands for any number of directories.
-/

namespace SourceEdit.Glob

inductive Token where
  | literal (c : Char)
  /-- One byte. -/
  | any
  /-- Any number of bytes. -/
  | star
  /-- `**` at the start: any directories, or none. -/
  | leadingDirs
  /-- `**` at the end: everything below. -/
  | trailingDirs
  /-- `**` in the middle: any directories, or none. -/
  | innerDirs
  | cls (negated : Bool) (ranges : List (Char × Char))
  | alternates (branches : List (List Token))
  deriving Repr, Inhabited

inductive Fault where
  | unclosedClass
  | invalidRange (lo hi : Char)
  | unopenedAlternates
  | unclosedAlternates
  | danglingEscape
  deriving Repr, DecidableEq

def Fault.message : Fault → String
  | .unclosedClass => "unclosed character class; missing ']'"
  | .invalidRange lo hi =>
    "invalid range; '" ++ String.singleton lo ++ "' > '" ++ String.singleton hi ++ "'"
  | .unopenedAlternates =>
    "unopened alternate group; missing '\x7b' (maybe escape '\x7d' with '[\x7d]'?)"
  | .unclosedAlternates =>
    "unclosed alternate group; missing '\x7d' (maybe escape '\x7b' with '[\x7b]'?)"
  | .danglingEscape => "dangling '\\'"

/-! ## Classes -/

/-- The ranges of a class in the making, the latest first. -/
structure ClassState where
  ranges : List (Char × Char) := []
  first : Bool := true
  /-- A hyphen was read that may continue the latest range. -/
  inRange : Bool := false

def ClassState.extend (s : ClassState) (c : Char) : Except Fault ClassState :=
  match s.ranges with
  | (lo, _) :: rest =>
    if c < lo then .error (.invalidRange lo c)
    else .ok { ranges := (lo, c) :: rest, first := false }
  | [] => .ok { s with first := false, inRange := false }

def ClassState.add (s : ClassState) (c : Char) : ClassState :=
  { ranges := (c, c) :: s.ranges, first := false }

/-- Takes one character of a class that does not close it. -/
def ClassState.take (s : ClassState) (c : Char) : Except Fault ClassState :=
  if s.inRange then s.extend c
  else if c == '-' && !s.first then .ok { s with first := false, inRange := true }
  else .ok (s.add c)

/-- Reads a class up to its closing bracket; a bracket directly after the start is a member. -/
def classRanges (s : ClassState) :
    List Char → Except Fault (List (Char × Char) × List Char)
  | [] => .error .unclosedClass
  | c :: cs =>
    if c == ']' && !s.first then
      .ok (((if s.inRange then s.add '-' else s).ranges.reverse), cs)
    else
      match s.take c with
      | .ok s => classRanges s cs
      | .error e => .error e

def readClass (cs : List Char) : Except Fault (Token × List Char) := do
  let (negated, cs) := match cs with
    | '!' :: rest | '^' :: rest => (true, rest)
    | _ => (false, cs)
  let (ranges, rest) ← classRanges {} cs
  return (.cls negated ranges, rest)

/-! ## Globs -/

/-- Alternatives in the making: those finished, and the one being read, all with the latest
first. -/
structure Branches where
  finished : List (List Token) := []
  current : List Token := []

/-- What the reader knows: the innermost alternatives, those around them, the character read last,
and whether brackets stand for themselves from here on. -/
structure ReaderState where
  inner : Branches := {}
  outer : List Branches := []
  last : Option Char := none
  literalBrackets : Bool := false

namespace ReaderState

def push (s : ReaderState) (t : Token) : ReaderState :=
  { s with inner := { s.inner with current := t :: s.inner.current } }

/-- Puts `t` in place of the latest token, unless that is `**` itself at an end. -/
def absorb (s : ReaderState) (t : Token) : ReaderState :=
  match s.inner.current with
  | .leadingDirs :: _ => s
  | .trailingDirs :: _ => s
  | _ :: rest => { s with inner := { s.inner with current := t :: rest } }
  | [] => s.push t

/-- Reads what follows two stars; `before` is the character in front of them. -/
def doubleStar (s : ReaderState) (before : Option Char) (cs : List Char) :
    ReaderState × List Char :=
  let grouped := !s.outer.isEmpty
  let plain := ((s.push .star).push .star, cs)
  if s.inner.current.isEmpty then
    match cs with
    | [] => (s.push .leadingDirs, cs)
    | '/' :: rest => ({ s.push .leadingDirs with last := some '/' }, rest)
    | _ => plain
  else if before != some '/' && !(grouped && (before == some ',' || before == some '\x7b')) then
    plain
  else
    match cs with
    | [] => (s.absorb .trailingDirs, cs)
    | '/' :: rest => ({ s.absorb .innerDirs with last := some '/' }, rest)
    | c :: _ => if grouped && (c == ',' || c == '\x7d') then (s.absorb .trailingDirs, cs) else plain

/-- Reads one token at `c`. With `lenient`, a bracket that is never closed stands for itself. -/
def step (lenient : Bool) (s : ReaderState) (c : Char) (cs : List Char) :
    Except Fault (ReaderState × List Char) :=
  let before := s.last
  let s := { s with last := some c }
  match c with
  | '?' => .ok (s.push .any, cs)
  | '*' =>
    match cs with
    | '*' :: rest => .ok (s.doubleStar before rest)
    | _ => .ok (s.push .star, cs)
  | '[' =>
    if s.literalBrackets then .ok (s.push (.literal '['), cs)
    else
      match readClass cs with
      | .ok (t, rest) => .ok ({ s.push t with last := some ']' }, rest)
      | .error .unclosedClass =>
        if lenient then .ok ({ s.push (.literal '[') with literalBrackets := true }, cs)
        else .error .unclosedClass
      | .error e => .error e
  | '\x7b' => .ok ({ s with inner := {}, outer := s.inner :: s.outer }, cs)
  | '\x7d' =>
    match s.outer with
    | [] => .error .unopenedAlternates
    | parent :: outer =>
      let branches := (s.inner.current :: s.inner.finished).reverse.map List.reverse
      .ok ({ s with inner := parent, outer }.push (.alternates branches), cs)
  | ',' =>
    if s.outer.isEmpty then .ok (s.push (.literal ','), cs)
    else .ok ({ s with inner := { finished := s.inner.current :: s.inner.finished } }, cs)
  | '\\' =>
    match cs with
    | [] => .error .danglingEscape
    | c :: rest => .ok ({ s.push (.literal c) with last := some c }, rest)
  | c => .ok (s.push (.literal c), cs)

/-- Reads to the end of the text, which bounds the number of steps. -/
def run (lenient : Bool) : Nat → ReaderState → List Char → Except Fault (List Token)
  | _, s, [] =>
    if s.outer.isEmpty then .ok s.inner.current.reverse else .error .unclosedAlternates
  | 0, _, _ :: _ => .error .unclosedAlternates
  | fuel + 1, s, c :: cs => do
    let (s, rest) ← s.step lenient c cs
    run lenient fuel s rest

end ReaderState

def readTokens (lenient : Bool) (text : List Char) : Except Fault (List Token) :=
  ReaderState.run lenient text.length {} text

end SourceEdit.Glob
