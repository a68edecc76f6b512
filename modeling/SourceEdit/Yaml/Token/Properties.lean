import SourceEdit.Yaml.Token.Quoted
import SourceEdit.Yaml.Token

/-!
# Anchors, tags and directives

The properties that may precede a node, and the lines that may precede a document.
-/

namespace SourceEdit.Yaml

def anchorName? (c : Cursor) : Option (String × Cursor) :=
  let c := c.skip
  let name := c.spanText isNameChar
  let c := c.skipWhile isNameChar
  let ends := isBlankOrEnd c.peek || c.peek.any (fun x => "?:,]\x7d%@`".toList.contains x)
  if name.isEmpty || !ends then none else some (String.ofList name, c)

/-- Characters of tags; `verbatim` tags may hold flow indicators too. -/
def isTagChar (verbatim : Bool) (c : Char) : Bool :=
  isNameChar c || ";/?:@&=+$.%!~*'()".toList.contains c ||
    (verbatim && (c == ',' || c == '[' || c == ']'))

/-- The length of the encoding that a first byte announces. -/
def encodedLength? (b : Nat) : Option Nat :=
  if b < 0x80 then some 1
  else if 0xC0 ≤ b && b < 0xE0 then some 2
  else if 0xE0 ≤ b && b < 0xF0 then some 3
  else if 0xF0 ≤ b && b < 0xF8 then some 4
  else none

/-- Reads bytes of an encoded character, each as a percent sign and two hexadecimal digits. -/
def percentBytes? : Nat → List Char → Option (List Nat × List Char)
  | 0, cs => some ([], cs)
  | n + 1, '%' :: a :: b :: cs => do
    let byte := (← Text.digit? 16 a) * 16 + (← Text.digit? 16 b)
    let (more, rest) ← percentBytes? n cs
    some (byte :: more, rest)
  | _, _ => none

def percentChar? (cs : List Char) : Option (List Char × List Char) := do
  let (first, _) ← percentBytes? 1 cs
  let n ← encodedLength? (first.headD 0)
  let (bytes, rest) ← percentBytes? n cs
  if bytes.tail.all (fun b => 0x80 ≤ b && b < 0xC0) then
    let text := String.fromUTF8? (ByteArray.mk (bytes.map (·.toUInt8)).toArray)
    some ((text.getD "\ufffd").toList, rest)
  else none

def tagText? (verbatim : Bool) : Nat → Cursor → Option (List Char × Cursor)
  | 0, _ => none
  | fuel + 1, c =>
    match c.peek with
    | some x =>
      if isTagChar verbatim x then
        if x == '%' then do
          let (chars, rest) ← percentChar? c.rest
          let c := c.skipMany (c.rest.length - rest.length)
          let (more, c) ← tagText? verbatim fuel c
          some (chars ++ more, c)
        else do
          let (more, c) ← tagText? verbatim fuel c.skip
          some (x :: more, c)
      else some ([], c)
    | none => some ([], c)

/-- Reads a handle: an exclamation mark, or a name between two of them. The second may be missing,
in which case what was read is no handle but the start of a tag. -/
def tagHandle? (c : Cursor) : Option (List Char × Cursor) :=
  if c.peek != some '!' then none
  else
    let c := c.skip
    let name := c.spanText isNameChar
    let c := c.skipWhile isNameChar
    if c.peek == some '!' then some ('!' :: name ++ ['!'], c.skip) else some ('!' :: name, c)

def tag? (flow : Bool) (c : Cursor) : Option (Token × Cursor) := do
  let ended := fun (c : Cursor) => isBlankOrEnd c.peek || (flow && c.peek == some ',')
  if c.peekAt 1 == some '<' then
    let (text, c) ← tagText? true (c.rest.length + 1) (c.skipMany 2)
    if text.isEmpty || c.peek != some '>' || !ended c.skip then none
    else some (.tag "" (String.ofList text), c.skip)
  else
    let (handle, c) ← tagHandle? c
    let (text, c) ← tagText? false (c.rest.length + 1) c
    if !ended c then none
    else if handle.length > 1 && handle.getLast? == some '!' then
      if text.isEmpty then none
      else some (.tag (String.ofList handle) (String.ofList text), c)
    else
      let suffix := handle.tail ++ text
      if suffix.isEmpty then some (.tag "" "!", c) else some (.tag "!" (String.ofList suffix), c)

/-- Reads a number of a version: one to nine digits. -/
def versionNumber? (c : Cursor) : Option (Nat × Cursor) :=
  let digits := c.spanText Char.isDigit
  if digits.isEmpty || digits.length > 9 then none
  else some (digits.foldl (fun n d => n * 10 + (d.toNat - 48)) 0, c.skipWhile Char.isDigit)

/-- Reads a directive at its percent sign, to the end of its line. -/
def directive? (c : Cursor) : Option (Token × Cursor) := do
  let c := c.skip
  let name := String.ofList (c.spanText isNameChar)
  let c := c.skipWhile isNameChar
  if !isBlankOrEnd c.peek then none
  let c := c.skipWhile isBlank
  match name with
  | "YAML" =>
    let (major, c) ← versionNumber? c
    if c.peek != some '.' then none
    let (minor, c) ← versionNumber? c.skip
    some (.version major minor, ← c.finishLine?)
  | "TAG" =>
    let (handle, c) ← tagHandle? c
    if handle.length > 1 && handle.getLast? != some '!' then none
    if !c.peek.any isBlank then none
    let c := c.skipWhile isBlank
    let (text, c) ← tagText? true (c.rest.length + 1) c
    if text.isEmpty || !isBlankOrEnd c.peek then none
    some (.tagDirective (String.ofList handle) (String.ofList text), ← c.finishLine?)
  | _ => none

end SourceEdit.Yaml
