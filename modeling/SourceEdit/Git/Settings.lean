/-!
# Settings of repositories

Settings are lines of a key and a value below the header of a section, which may have a
subsection. Sections and keys are the same in large and small letters. A value may be quoted in
part, and goes on where a line ends in a backslash.
-/

namespace SourceEdit.Git

/-- One line of settings under its header, with section and key in small letters. -/
structure Setting where
  group : String
  subsection : Option String
  key : String
  /-- A key without an equals sign has no value. -/
  value : Option String
  deriving Repr, DecidableEq

namespace Settings

def isBlank (c : Char) : Bool := c == ' ' || c == '\t'

/-- Blanks and breaks, which do not count at the end of a value. -/
def isSpace (c : Char) : Bool :=
  c == ' ' || c == '\t' || c == '\n' || c == '\r' || c == '\x0c'

def lower (cs : List Char) : String := String.ofList (cs.map Char.toLower)

def isSectionChar (c : Char) : Bool := c.isAlphanum || c == '-' || c == '.'

def isKeyChar (c : Char) : Bool := c.isAlphanum || c == '-'

/-! ## Headers -/

/-- The rest of a quoted subsection, and what follows its quote. -/
def subsection? : List Char → Option (List Char × List Char)
  | [] => none
  | '"' :: rest => some ([], rest)
  | '\\' :: c :: rest =>
    if c = '\n' then none else (subsection? rest).map fun (s, r) => (c :: s, r)
  | c :: rest =>
    if c = '\n' ∨ c = '\\' ∨ c = '\x00' then none
    else (subsection? rest).map fun (s, r) => (c :: s, r)

abbrev Header := String × Option String

/-- A name in brackets; after the last dot in it stands a subsection. -/
def dottedHeader? (name : List Char) : Option Header :=
  let after := (name.reverse.takeWhile (· != '.')).reverse
  match name.reverse.dropWhile (· != '.') with
  | [] => some (lower name, none)
  | _ :: before =>
    if before.isEmpty then none else some (lower before.reverse, some (String.ofList after))

/-- A header; its opening bracket has been read. -/
def header? (cs : List Char) : Option (Header × List Char) :=
  let name := cs.takeWhile isSectionChar
  if name.isEmpty then none
  else
    match cs.drop name.length with
    | ']' :: rest => (dottedHeader? name).map (·, rest)
    | c :: rest =>
      if !isBlank c then none
      else
        match rest.dropWhile isBlank with
        | '"' :: rest =>
          match subsection? rest with
          | some (sub, ']' :: rest) => some ((lower name, some (String.ofList sub)), rest)
          | _ => none
        | _ => none
    | [] => none

/-! ## Values -/

def onFirst (c : Char) : List (List Char) → List (List Char)
  | [] => [[c]]
  | p :: ps => (c :: p) :: ps

/-- The stretches of a value on successive lines as they are written, and what follows the value.
The first argument says whether a quote is open; it must be closed on its line. -/
def stretches? : Bool → List Char → Option (List (List Char) × List Char)
  | quoted, [] => if quoted then none else some ([[]], [])
  | quoted, '\\' :: '\n' :: cs => (stretches? quoted cs).map fun (ps, r) => ([] :: ps, r)
  | quoted, '\\' :: '\r' :: '\n' :: cs => (stretches? quoted cs).map fun (ps, r) => ([] :: ps, r)
  | quoted, '\\' :: c :: cs =>
    if c = 'n' ∨ c = 't' ∨ c = 'b' ∨ c = '\\' ∨ c = '"' then
      (stretches? quoted cs).map fun (ps, r) => (onFirst '\\' (onFirst c ps), r)
    else none
  | quoted, c :: cs =>
    if c = '\n' then if quoted then none else some ([[]], c :: cs)
    else if (c = ';' ∨ c = '#') ∧ !quoted then some ([[]], c :: cs)
    else if c = '\\' then none
    else
      (stretches? (if c = '"' then !quoted else quoted) cs).map fun (ps, r) => (onFirst c ps, r)

/-- What a written value means, in reverse: quotes go, and escapes stand for a line feed, a tab, a
character less, or themselves. -/
def meaning (acc : List Char) : List Char → List Char
  | [] => acc
  | '\\' :: 'n' :: cs => meaning ('\n' :: acc) cs
  | '\\' :: 't' :: cs => meaning ('\t' :: acc) cs
  | '\\' :: 'b' :: cs => meaning acc.tail cs
  | '\\' :: c :: cs => meaning (c :: acc) cs
  | '"' :: cs => meaning acc cs
  | c :: cs => meaning (c :: acc) cs

def value? (cs : List Char) : Option (String × List Char) := do
  let (stretches, rest) ← stretches? false (cs.dropWhile isBlank)
  let last := ((stretches.getLastD []).reverse.dropWhile isSpace).reverse
  let written := stretches.dropLast.flatten ++ last
  return (String.ofList (meaning [] written).reverse, rest)

/-! ## Files -/

/-- Reads settings below a header; the length of the text bounds the number of steps. -/
def settingsFrom? (header : Option Header) : Nat → List Char → Option (List Setting)
  | _, [] => some []
  | 0, _ => none
  | fuel + 1, c :: cs =>
    if isBlank c ∨ c = '\n' then settingsFrom? header fuel cs
    else if c = '\r' then
      match cs with
      | '\n' :: cs => settingsFrom? header fuel cs
      | _ => none
    else if c = '#' ∨ c = ';' then settingsFrom? header fuel (cs.dropWhile (· != '\n'))
    else if c = '[' then
      match header? cs with
      | some (header, rest) => settingsFrom? (some header) fuel rest
      | none => none
    else
      match header with
      | none => none
      | some (group, subsection) =>
        if !c.isAlpha then none
        else
          let key := c :: cs.takeWhile isKeyChar
          match (cs.drop (key.length - 1)).dropWhile isBlank with
          | '=' :: rest => do
            let (value, rest) ← value? rest
            let others ← settingsFrom? header fuel rest
            return { group, subsection, key := lower key, value := some value } :: others
          | rest => do
            let others ← settingsFrom? header fuel rest
            return { group, subsection, key := lower key, value := none } :: others

/-- Reads the settings in a file. A byte order mark may open it. -/
def ofText? (text : String) : Option (List Setting) :=
  let cs := text.toList
  let cs := if cs.head? = some '\uFEFF' then cs.tail else cs
  settingsFrom? none cs.length cs

def last? (settings : List Setting) (group : String) (subsection : Option String)
    (key : String) : Option String :=
  (settings.reverse.find? fun s =>
    s.group = group && s.subsection = subsection && s.key = key && s.value.isSome).bind
      (·.value)

end Settings

end SourceEdit.Git
