import SourceEdit.Pattern.Flags
import SourceEdit.Text.Digit

/-!
# Escapes

What may follow a backslash: a character by its number, a class, an anchor, or a character that
would else have a meaning of its own. Each reader takes the text after what it has recognised and
returns what remains; it fails where the escape is unknown or cut short.
-/

namespace SourceEdit.Pattern

open Text (charOf? digit? natural?)
open Unicode (CodeSet)

inductive Escape where
  | literal (c : Char) (isByte : Bool)
  | set (s : CodeSet)
  | anchor (a : Anchor)

def isMeta (c : Char) : Bool :=
  "\\.+*?()|[]\x7b\x7d^$#&-~".toList.contains c

/-- Characters that a backslash may make literal: the ASCII ones but letters, digits and angle
brackets. -/
def isEscapable (c : Char) : Bool :=
  isMeta c || (c.toNat < 128 && !c.isAlphanum && c != '<' && c != '>')

/-- Reads exactly `count` hexadecimal digits; blanks between them are skipped where the flags
say so. -/
def fixedHex? (f : Flags) (acc : Nat) : Nat → List Char → Option (Nat × List Char)
  | 0, cs => some (acc, cs)
  | _ + 1, [] => none
  | count + 1, c :: cs => do
    let d ← digit? 16 c
    let rest := if count = 0 then cs else f.skip cs
    fixedHex? f (acc * 16 + d) count rest

/-- Splits at the first closing brace, skipping blanks where the flags say so. -/
def bracedText? (f : Flags) : Nat → List Char → Option (List Char × List Char)
  | 0, _ => none
  | fuel + 1, cs =>
    match f.skip cs with
    | [] => none
    | '}' :: rest => some ([], rest)
    | c :: rest => do
      let (inner, rest) ← bracedText? f fuel rest
      some (c :: inner, rest)

/-- A character by its number, after `\x`, `\u` or `\U`. -/
def hexEscape? (f : Flags) (digits : Nat) (cs : List Char) : Option (Escape × List Char) :=
  match f.skip cs with
  | '{' :: rest => do
    let (inner, rest) ← bracedText? f (rest.length + 1) rest
    let c ← charOf? (← natural? 16 inner)
    some (.literal c false, f.skip rest)
  | cs => do
    let (n, rest) ← fixedHex? f 0 digits cs
    let c ← charOf? n
    some (.literal c (digits == 2), f.skip rest)

def splitProperty (mark : List Char) : List Char → Option (List Char × List Char)
  | [] => none
  | c :: cs =>
    if mark.isPrefixOf (c :: cs) then some ([], (c :: cs).drop mark.length)
    else (splitProperty mark cs).map fun (a, b) => (c :: a, b)

def namedClass? (name : List Char) : Option (CodeSet × Bool) :=
  let valued := fun (pair : List Char × List Char) =>
    Unicode.valued? (String.ofList pair.1) (String.ofList pair.2)
  match splitProperty ['!', '='] name with
  | some pair => (valued pair).map (·, true)
  | none =>
    match splitProperty [':'] name with
    | some pair => (valued pair).map (·, false)
    | none =>
      match splitProperty ['='] name with
      | some pair => (valued pair).map (·, false)
      | none => (Unicode.named? (String.ofList name)).map (·, false)

/-- A class by the name of a property, after `\p` or `\P`. -/
def propertyEscape? (f : Flags) (negated : Bool) (cs : List Char) :
    Option (Escape × List Char) := do
  if !f.unicode then none
  match f.skip cs with
  | [] => none
  | '{' :: rest =>
    let (inner, rest) ← bracedText? f (rest.length + 1) rest
    let (set, differs) ← namedClass? inner
    some (.set (f.foldNegate (negated != differs) set), rest)
  | '\\' :: _ => none
  | c :: rest =>
    let set ← Unicode.named? (String.singleton c)
    some (.set (f.foldNegate negated set), f.skip rest)

def isEdgeNameChar (c : Char) : Bool :=
  c.isAlpha || c == '-'

def edgeName (f : Flags) : Nat → List Char → List Char × List Char
  | 0, cs => ([], cs)
  | fuel + 1, cs =>
    match cs with
    | c :: rest =>
      if isEdgeNameChar c then
        let (name, rest) := edgeName f fuel (f.skip rest)
        (c :: name, rest)
      else ([], cs)
    | [] => ([], [])

/-- After `\b`: a kind of word edge in braces, or nothing, in which case a brace is left for a
repetition. -/
def wordEdge? (f : Flags) (cs : List Char) : Option (Anchor × List Char) :=
  let ascii := !f.unicode
  match cs with
  | '{' :: rest =>
    match f.skip rest with
    | [] => none
    | c :: more =>
      if isEdgeNameChar c then
        match edgeName f (more.length + 1) (c :: more) with
        | (name, '}' :: rest) =>
          match String.ofList name with
          | "start" => some (.wordStart ascii, rest)
          | "end" => some (.wordEnd ascii, rest)
          | "start-half" => some (.wordStartHalf ascii, rest)
          | "end-half" => some (.wordEndHalf ascii, rest)
          | _ => none
        | _ => none
      else some (.wordEdge ascii, cs)
  | _ => some (.wordEdge ascii, cs)

def escape? (f : Flags) : List Char → Option (Escape × List Char)
  | [] => none
  | c :: cs =>
    match c with
    | 'x' => hexEscape? f 2 cs
    | 'u' => hexEscape? f 4 cs
    | 'U' => hexEscape? f 8 cs
    | 'p' => propertyEscape? f false cs
    | 'P' => propertyEscape? f true cs
    | 'd' | 's' | 'w' | 'D' | 'S' | 'W' => (f.letterClass? c).map (.set ·, cs)
    | 'a' => some (.literal '\x07' false, cs)
    | 'f' => some (.literal '\x0c' false, cs)
    | 't' => some (.literal '\t' false, cs)
    | 'n' => some (.literal '\n' false, cs)
    | 'r' => some (.literal '\r' false, cs)
    | 'v' => some (.literal '\x0b' false, cs)
    | 'A' => some (.anchor .textStart, cs)
    | 'z' => some (.anchor .textEnd, cs)
    | 'b' => (wordEdge? f cs).map fun (a, rest) => (.anchor a, rest)
    | 'B' => some (.anchor (.notWordEdge !f.unicode), cs)
    | '<' => some (.anchor (.wordStart !f.unicode), cs)
    | '>' => some (.anchor (.wordEnd !f.unicode), cs)
    | _ => if isEscapable c then some (.literal c false, cs) else none

end SourceEdit.Pattern
