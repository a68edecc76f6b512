import SourceEdit.Toml.Number
import SourceEdit.Toml.Table

/-!
# TOML

A document is a sequence of lines: comments, assignments to keys, and headers of tables. It is
read into plain data, or not at all.
-/

namespace SourceEdit.Toml

/-- How deep values may nest, and how many parts a key may have. -/
def depthLimit : Nat := 80

def skipBlanks (cs : List Char) : List Char := cs.dropWhile isBlank

def isBareKeyChar (c : Char) : Bool :=
  c.isAlphanum || c == '_' || c == '-'

def keyPart? (cs : List Char) : Option (String × List Char) :=
  match cs with
  | '"' :: cs => (lineText cs.length cs).map fun (t, r) => (String.ofList t, r)
  | '\'' :: cs => (literalText cs).map fun (t, r) => (String.ofList t, r)
  | cs =>
    let text := cs.takeWhile isBareKeyChar
    if text.isEmpty then none else some (String.ofList text, cs.drop text.length)

/-- The parts of a key, and what follows the blanks after it. Blanks may stand around each part;
the first argument bounds the number of parts. -/
def keyFrom? : Nat → List Char → Option (List String × List Char)
  | 0, _ => none
  | fuel + 1, cs => do
    let (part, cs) ← keyPart? (skipBlanks cs)
    match skipBlanks cs with
    | '.' :: cs =>
      let (parts, cs) ← keyFrom? fuel cs
      return (part :: parts, cs)
    | cs => return ([part], cs)

def key? (cs : List Char) : Option (List String × List Char) :=
  keyFrom? (depthLimit - 1) cs

/-- The rest of a line without a comment; none if the comment holds a control character. -/
def skipComment? (cs : List Char) : Option (List Char) :=
  match cs with
  | '#' :: cs =>
    let rest := cs.dropWhile isPlain
    if rest.isEmpty || (lineEnd? rest).isSome then some rest else none
  | cs => some cs

/-- What follows the end of the line; only blanks and a comment may stand before it. -/
def finishLine? (cs : List Char) : Option (List Char) := do
  let cs ← skipComment? (skipBlanks cs)
  if cs.isEmpty then some [] else lineEnd? cs

def skipLines? : Nat → List Char → Option (List Char)
  | 0, cs => some cs
  | fuel + 1, cs => do
    let cs := skipBlanks cs
    match cs with
    | '#' :: _ => skipLines? fuel (← skipComment? cs)
    | _ =>
      match lineEnd? cs with
      | some rest => skipLines? fuel rest
      | none => some cs

def skipAll? (cs : List Char) : Option (List Char) :=
  skipLines? (cs.length + 1) cs

/-! ## Values -/

abbrev ValueReader := List Char → Option (Data × List Char)

/-- The elements of an array up to its bracket. A comma may stand after the last one. -/
def elements? (value? : ValueReader) : Nat → List Char → Option (List Data × List Char)
  | 0, _ => none
  | fuel + 1, cs => do
    match ← skipAll? cs with
    | ']' :: rest => return ([], rest)
    | cs =>
      let (value, cs) ← value? cs
      match ← skipAll? cs with
      | ',' :: cs =>
        let (values, rest) ← elements? value? fuel cs
        return (value :: values, rest)
      | ']' :: rest => return ([value], rest)
      | _ => none

def assignment? (value? : ValueReader) (cs : List Char) :
    Option ((List String × Data) × List Char) := do
  let (key, cs) ← key? cs
  let cs ← expect? '=' cs
  let (value, rest) ← value? (skipBlanks cs)
  return ((key, value), rest)

/-- The assignments of an inline table up to its brace; there is at least one. -/
def members? (value? : ValueReader) :
    Nat → List Char → Option (List (List String × Data) × List Char)
  | 0, _ => none
  | fuel + 1, cs => do
    let (first, cs) ← assignment? value? cs
    match skipBlanks cs with
    | ',' :: cs =>
      let (others, rest) ← members? value? fuel cs
      return (first :: others, rest)
    | '\x7d' :: rest => return ([first], rest)
    | _ => none

/-- An inline table; its opening brace has been read. -/
def inlineTable? (value? : ValueReader) (cs : List Char) : Option (Data × List Char) :=
  match skipBlanks cs with
  | '\x7d' :: rest => some (.record [], rest)
  | cs => do
    let (values, rest) ← members? value? cs.length cs
    return (← dataOf? values [], rest)

/-- Reads a value; the first argument bounds how deep it may nest. -/
def value? : Nat → ValueReader
  | 0, _ => none
  | depth + 1, cs =>
    match cs with
    | '[' :: cs =>
      if depth = 0 then none
      else (elements? (value? depth) (cs.length + 1) cs).map fun (vs, rest) => (.list vs, rest)
    | '\x7b' :: cs => if depth = 0 then none else inlineTable? (value? depth) cs
    | 't' :: 'r' :: 'u' :: 'e' :: rest => some (.boolean true, rest)
    | 'f' :: 'a' :: 'l' :: 's' :: 'e' :: rest => some (.boolean false, rest)
    | cs => ((text? cs).map fun (t, rest) => (.text t, rest)) <|> number? cs

/-! ## Documents -/

inductive Statement where
  | assign (key : List String) (value : Data)
  | header (inArray : Bool) (path : List String)

def statement? (cs : List Char) : Option (Statement × List Char) :=
  match cs with
  | '[' :: '[' :: cs => do
    let (path, cs) ← key? cs
    return (.header true path, ← expect? ']' (← expect? ']' cs))
  | '[' :: cs => do
    let (path, cs) ← key? cs
    return (.header false path, ← expect? ']' cs)
  | cs => do
    let ((key, value), rest) ← assignment? (value? depthLimit) cs
    return (.assign key value, rest)

def statements? : Nat → List Char → Option (List Statement)
  | 0, _ => none
  | fuel + 1, cs => do
    match ← skipAll? cs with
    | [] => return []
    | cs =>
      let (first, cs) ← statement? cs
      return first :: (← statements? fuel (← finishLine? cs))

/-- The assignments before the first header, and the sections. -/
def sectionsOf : List Statement → List (List String × Data) × List Section
  | [] => ([], [])
  | .assign key value :: rest =>
    let (values, sections) := sectionsOf rest
    ((key, value) :: values, sections)
  | .header inArray path :: rest =>
    let (values, sections) := sectionsOf rest
    ([], { inArray, path, values } :: sections)

/-- Reads a document. A byte order mark may open it. -/
def read? (text : String) : Option Data := do
  let cs := text.toList
  let cs := if cs.head? = some '\uFEFF' then cs.tail else cs
  let (values, sections) := sectionsOf (← statements? (cs.length + 1) cs)
  dataOf? values sections

end SourceEdit.Toml
