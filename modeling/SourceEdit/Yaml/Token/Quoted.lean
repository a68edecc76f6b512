import SourceEdit.Text.Digit
import SourceEdit.Yaml.Cursor

/-!
# Scalars in quotes

Within quotes, a single line end folds into a blank, and of several the first is dropped. In
single quotes a quote is written twice; in double quotes a backslash starts an escape, and one at
the end of a line joins the lines.
-/

namespace SourceEdit.Yaml

open Text (charOf? digit?)

def simpleEscape? (c : Char) : Option Char :=
  match c with
  | '0' => some '\x00'
  | 'a' => some '\x07'
  | 'b' => some '\x08'
  | 't' | '\t' => some '\t'
  | 'n' => some '\n'
  | 'v' => some '\x0b'
  | 'f' => some '\x0c'
  | 'r' => some '\r'
  | 'e' => some '\x1b'
  | ' ' => some ' '
  | '"' => some '"'
  | '/' => some '/'
  | '\\' => some '\\'
  | 'N' => some '\u0085'
  | '_' => some '\u00a0'
  | 'L' => some '\u2028'
  | 'P' => some '\u2029'
  | _ => none

def hexEscapeLength? (c : Char) : Option Nat :=
  match c with
  | 'x' => some 2
  | 'u' => some 4
  | 'U' => some 8
  | _ => none

/-- The number that `count` leading hexadecimal digits stand for. -/
def hexRun? (acc : Nat) : Nat → List Char → Option Nat
  | 0, _ => some acc
  | _ + 1, [] => none
  | n + 1, c :: cs => do hexRun? (acc * 16 + (← digit? 16 c)) n cs

def escapeAt? (c : Cursor) : Option (Char × Cursor) := do
  let letter ← c.peekAt 1
  match simpleEscape? letter with
  | some x => some (x, c.skipMany 2)
  | none =>
    let count ← hexEscapeLength? letter
    let x ← charOf? (← hexRun? 0 count (c.rest.drop 2))
    some (x, c.skipMany (2 + count))

/-- Text read so far, with the blanks and line ends that await their fate: blanks at the end of a
line are dropped, and line ends fold. -/
structure Folding where
  /-- The text, the latest character first. -/
  text : List Char := []
  blanks : List Char := []
  /-- Whether a line has ended since the last character. -/
  broken : Bool := false
  /-- The first line end and those after it, the latest character first. -/
  firstBreak : List Char := []
  otherBreaks : List Char := []

/-- Settles pending blanks and line ends: one line end becomes a blank, of more the first is
dropped, and the wide separators are all kept. -/
def Folding.settle (f : Folding) : Folding :=
  if f.broken then
    if f.firstBreak == ['\n'] then
      if f.otherBreaks.isEmpty then { text := ' ' :: f.text }
      else { text := f.otherBreaks ++ f.text }
    else { text := f.otherBreaks ++ f.firstBreak ++ f.text }
  else { text := f.blanks ++ f.text }

def Folding.add (f : Folding) (c : Char) : Folding :=
  { f with text := c :: f.text }

def Folding.take (f : Folding) (c : Cursor) : Folding × Cursor :=
  match c.peek with
  | some x =>
    if isBlank x then
      if f.broken then (f, c.skip) else ({ f with blanks := x :: f.blanks }, c.skip)
    else if f.broken then
      ({ f with otherBreaks := c.breakText.reverse ++ f.otherBreaks }, c.skipBreak)
    else ({ f with blanks := [], broken := true, firstBreak := c.breakText.reverse }, c.skipBreak)
  | none => (f, c)

def Folding.takeAll (f : Folding) : Nat → Cursor → Folding × Cursor
  | 0, c => (f, c)
  | fuel + 1, c =>
    match c.peek with
    | some x =>
      if isBlank x || isBreak x then
        let (f, c) := f.take c
        f.takeAll fuel c
      else (f, c)
    | none => (f, c)

/-- Reads characters up to a blank, a line end or the closing quote. -/
def quotedRun (single : Bool) (f : Folding) : Nat → Cursor → Option (Folding × Cursor)
  | 0, _ => none
  | fuel + 1, c =>
    match c.peek with
    | none => some (f, c)
    | some x =>
      if isBlank x || isBreak x then some (f, c)
      else if single then
        if x == '\'' then
          if c.peekAt 1 == some '\'' then quotedRun single (f.add '\'') fuel (c.skipMany 2)
          else some (f, c)
        else quotedRun single (f.add x) fuel c.skip
      else if x == '"' then some (f, c)
      else if x == '\\' then
        if (c.peekAt 1).any isBreak then some ({ f with broken := true }, c.skip.skipBreak)
        else do
          let (y, c) ← escapeAt? c
          quotedRun single (f.add y) fuel c
      else quotedRun single (f.add x) fuel c.skip

/-- Reads the rest of a quoted scalar. A marker of a document may not stand within it. -/
def quotedLoop (single : Bool) (f : Folding) : Nat → Cursor → Option (String × Cursor)
  | 0, _ => none
  | fuel + 1, c => do
    if c.atDocumentMarker || c.peek.isNone then none
    let (f, c) ← quotedRun single f (c.rest.length + 1) c
    if c.peek == some (if single then '\'' else '"') then
      some (String.ofList f.text.reverse, c.skip)
    else
      let (f, c) := f.takeAll (c.rest.length + 1) c
      quotedLoop single f.settle fuel c

def quoted? (single : Bool) (c : Cursor) : Option (String × Cursor) :=
  quotedLoop single {} (c.rest.length + 1) c.skip

end SourceEdit.Yaml
