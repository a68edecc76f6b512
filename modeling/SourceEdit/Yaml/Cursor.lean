/-!
# Places in a document

The characters that structure a YAML text, and the place that a reader has reached in one: what
remains of the text, with the number of characters read, of lines ended, and of characters since
the last line end.
-/

namespace SourceEdit.Yaml

def isBreak (c : Char) : Bool :=
  c == '\n' || c == '\r' || c == '\u0085' || c == '\u2028' || c == '\u2029'

def isBlank (c : Char) : Bool :=
  c == ' ' || c == '\t'

def isBlankOrEnd : Option Char → Bool
  | none => true
  | some c => isBlank c || isBreak c

def isBreakOrEnd : Option Char → Bool
  | none => true
  | some c => isBreak c

/-- Characters of names: anchors, directives and tag handles. -/
def isNameChar (c : Char) : Bool :=
  c.isAlphanum || c == '_' || c == '-'

/-- Characters that a text may hold at all: no control characters but tab and line ends. -/
def isAllowed (c : Char) : Bool :=
  let n := c.toNat
  n == 9 || n == 10 || n == 13 || (32 ≤ n && n ≤ 126) || n == 0x85 ||
    (0xA0 ≤ n && n ≤ 0xFFFD) || 0x10000 ≤ n

structure Cursor where
  rest : List Char
  index : Nat := 0
  line : Nat := 0
  column : Nat := 0

namespace Cursor

def peek (c : Cursor) : Option Char := c.rest.head?

def peekAt (c : Cursor) (n : Nat) : Option Char := c.rest[n]?

def skip (c : Cursor) : Cursor :=
  match c.rest with
  | [] => c
  | _ :: rest => { c with rest, index := c.index + 1, column := c.column + 1 }

def skipMany (c : Cursor) : Nat → Cursor
  | 0 => c
  | n + 1 => c.skip.skipMany n

/-- Steps over one line end, which may be a carriage return with a line feed. -/
def skipBreak (c : Cursor) : Cursor :=
  match c.rest with
  | '\r' :: '\n' :: rest => { rest, index := c.index + 2, line := c.line + 1, column := 0 }
  | x :: rest =>
    if isBreak x then { rest, index := c.index + 1, line := c.line + 1, column := 0 } else c
  | [] => c

/-- The text that a line end contributes to a scalar: the wide separators stand for themselves,
all others for a line feed. -/
def breakText (c : Cursor) : List Char :=
  match c.rest with
  | x :: _ => if x == '\u2028' || x == '\u2029' then [x] else if isBreak x then ['\n'] else []
  | [] => []

def skipWhile (p : Char → Bool) (c : Cursor) : Cursor :=
  let run := c.rest.takeWhile p
  { c with
    rest := c.rest.drop run.length
    index := c.index + run.length
    column := c.column + run.length }

def spanText (p : Char → Bool) (c : Cursor) : List Char :=
  c.rest.takeWhile p

/-- Whether three equal characters that mark a document stand at the start of a line here. -/
def atMarker (c : Cursor) (mark : Char) : Bool :=
  c.column == 0 && c.peek == some mark && c.peekAt 1 == some mark && c.peekAt 2 == some mark &&
    isBlankOrEnd (c.peekAt 3)

def atDocumentMarker (c : Cursor) : Bool :=
  c.atMarker '-' || c.atMarker '.'

def skipComment (c : Cursor) : Cursor :=
  if c.peek == some '#' then c.skipWhile (fun x => !isBreak x) else c

/-- Steps over blanks, a comment and the end of the line; nothing else may stand there. -/
def finishLine? (c : Cursor) : Option Cursor :=
  let c := (c.skipWhile isBlank).skipComment
  if isBreakOrEnd c.peek then some c.skipBreak else none

end Cursor

end SourceEdit.Yaml
