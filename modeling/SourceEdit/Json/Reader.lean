import SourceEdit.Data
import SourceEdit.Json.Quoted

/-!
# Reading JSON

A JSON text is read into plain data, or not at all.
-/

namespace SourceEdit.Json

def depthLimit : Nat := 128

def skipBlanks (cs : List Char) : List Char :=
  cs.dropWhile fun c => c == ' ' || c == '\t' || c == '\n' || c == '\r'

abbrev ValueReader := List Char → Option (Data × List Char)

/-! ## Numbers -/

def digits? (cs : List Char) : Option (List Char × List Char) :=
  let ds := cs.takeWhile Char.isDigit
  if ds.isEmpty then none else some (ds, cs.drop ds.length)

/-- Digits that start with a zero only if there is no other. -/
def wholeDigits? : List Char → Option (List Char × List Char)
  | '0' :: rest => some (['0'], rest)
  | cs => digits? cs

/-- What follows a fraction, if one stands here, or the same place. None if its digits are
missing. -/
def skipFraction? : List Char → Option (List Char)
  | '.' :: cs => (digits? cs).map (·.2)
  | cs => some cs

/-- What follows an exponent, if one stands here, or the same place. None if its digits are
missing. -/
def skipExponent? : List Char → Option (List Char)
  | c :: cs =>
    if c = 'e' ∨ c = 'E' then
      match cs with
      | '+' :: cs | '-' :: cs => (digits? cs).map (·.2)
      | cs => (digits? cs).map (·.2)
    else some (c :: cs)
  | [] => some []

def number? (cs : List Char) : Option (Data × List Char) := do
  let (negative, cs) := match cs with
    | '-' :: cs => (true, cs)
    | cs => (false, cs)
  let (ds, rest) ← wholeDigits? cs
  let value : Int := ds.foldl (fun v d => v * 10 + (d.toNat - '0'.toNat)) 0
  let after ← skipExponent? (← skipFraction? rest)
  if after.length = rest.length then
    return (.integer (if negative then -value else value), rest)
  else return (.fraction, after)

/-! ## Lists and records -/

/-- The elements of a list up to its bracket; there is at least one. -/
def elements? (value? : ValueReader) : Nat → List Char → Option (List Data × List Char)
  | 0, _ => none
  | fuel + 1, cs => do
    let (first, cs) ← value? (skipBlanks cs)
    match skipBlanks cs with
    | ',' :: cs => do
      let (others, rest) ← elements? value? fuel cs
      return (first :: others, rest)
    | ']' :: rest => return ([first], rest)
    | _ => none

/-- The fields of a record up to its brace; there is at least one. -/
def fields? (value? : ValueReader) :
    Nat → List Char → Option (List (String × Data) × List Char)
  | 0, _ => none
  | fuel + 1, cs =>
    match skipBlanks cs with
    | '"' :: cs => do
      let (name, cs) ← unescape cs
      match skipBlanks cs with
      | ':' :: cs => do
        let (value, cs) ← value? (skipBlanks cs)
        let first := (String.ofList name, value)
        match skipBlanks cs with
        | ',' :: cs => do
          let (others, rest) ← fields? value? fuel cs
          return (first :: others, rest)
        | '\x7d' :: rest => return ([first], rest)
        | _ => none
      | _ => none
    | _ => none

/-- Reads a value; the first argument bounds how deep it may nest. -/
def value? : Nat → ValueReader
  | 0, _ => none
  | depth + 1, cs =>
    match cs with
    | 'n' :: 'u' :: 'l' :: 'l' :: rest => some (.null, rest)
    | 't' :: 'r' :: 'u' :: 'e' :: rest => some (.boolean true, rest)
    | 'f' :: 'a' :: 'l' :: 's' :: 'e' :: rest => some (.boolean false, rest)
    | '"' :: cs => (unescape cs).map fun (t, rest) => (.text (String.ofList t), rest)
    | '[' :: cs =>
      match skipBlanks cs with
      | ']' :: rest => some (.list [], rest)
      | cs => (elements? (value? depth) cs.length cs).map fun (vs, rest) => (.list vs, rest)
    | '\x7b' :: cs =>
      match skipBlanks cs with
      | '\x7d' :: rest => some (.record [], rest)
      | cs => (fields? (value? depth) cs.length cs).map fun (fs, rest) => (.record fs, rest)
    | cs => number? cs

def read? (text : String) : Option Data := do
  let (value, rest) ← value? depthLimit (skipBlanks text.toList)
  if (skipBlanks rest).isEmpty then some value else none

end SourceEdit.Json
