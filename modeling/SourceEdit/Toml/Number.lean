import SourceEdit.Data
import SourceEdit.Decimal.Binary64
import SourceEdit.Toml.Text

/-!
# Numbers and dates of TOML

Integers fit 64 bits with a sign. An underscore may stand between two digits. Dates and times are
checked against the calendar; as data, one is a record with its text under a reserved name.
-/

namespace SourceEdit.Toml

open Text (digit?)

def digitsFrom (base : Nat) : List Char → List Nat × List Char
  | [] => ([], [])
  | '_' :: d :: cs =>
    match digit? base d with
    | some n => let (ns, rest) := digitsFrom base cs; (n :: ns, rest)
    | none => ([], '_' :: d :: cs)
  | d :: cs =>
    match digit? base d with
    | some n => let (ns, rest) := digitsFrom base cs; (n :: ns, rest)
    | none => ([], d :: cs)

def digits? (base : Nat) : List Char → Option (List Nat × List Char)
  | [] => none
  | d :: cs => do
    let n ← digit? base d
    let (ns, rest) := digitsFrom base cs
    return (n :: ns, rest)

def valueOf (base : Nat) (digits : List Nat) : Nat :=
  digits.foldl (fun v d => v * base + d) 0

/-- Decimal digits that start with a zero only if there is no other. -/
def wholeDigits? (cs : List Char) : Option (List Nat × List Char) :=
  match cs with
  | '0' :: rest => some ([0], rest)
  | _ => digits? 10 cs

/-- Whether a sign stands here and is a minus, and what follows it. -/
def sign : List Char → Bool × List Char
  | '+' :: rest => (false, rest)
  | '-' :: rest => (true, rest)
  | cs => (false, cs)

def inRange? (value : Int) : Option Data :=
  let bound : Nat := 1 <<< 63
  if -(bound : Int) ≤ value ∧ value < bound then some (.integer value) else none

def integer? (cs : List Char) : Option (Data × List Char) :=
  let inBase := fun (base : Nat) (cs : List Char) => do
    let (ds, rest) ← digits? base cs
    return (← inRange? (valueOf base ds), rest)
  match cs with
  | '0' :: 'x' :: cs => inBase 16 cs
  | '0' :: 'o' :: cs => inBase 8 cs
  | '0' :: 'b' :: cs => inBase 2 cs
  | cs => do
    let (negative, cs) := sign cs
    let (ds, rest) ← wholeDigits? cs
    let value : Int := valueOf 10 ds
    return (← inRange? (if negative then -value else value), rest)

def fractionDigits? : List Char → Option (List Nat × List Char)
  | '.' :: cs => digits? 10 cs
  | _ => none

def exponent? : List Char → Option (Int × List Char)
  | c :: cs =>
    if c = 'e' ∨ c = 'E' then do
      let (negative, cs) := sign cs
      let (ds, rest) ← digits? 10 cs
      let value : Int := valueOf 10 ds
      return (if negative then -value else value, rest)
    else none
  | [] => none

/-- A number with a fraction or an exponent. A positive one that is too large for the format of
64 bits is refused. -/
def fraction? (cs : List Char) : Option (Data × List Char) := do
  let (negative, cs) := sign cs
  match cs with
  | 'i' :: 'n' :: 'f' :: rest => return (.fraction, rest)
  | 'n' :: 'a' :: 'n' :: rest => return (.fraction, rest)
  | _ =>
    let (whole, cs) ← wholeDigits? cs
    let (fraction, exponent, rest) ← do
      match fractionDigits? cs with
      | some (ds, cs) =>
        match exponent? cs with
        | some (e, rest) => pure (ds, e, rest)
        | none => pure (ds, 0, cs)
      | none =>
        let (e, rest) ← exponent? cs
        pure ([], e, rest)
    let mantissa := valueOf 10 (whole ++ fraction)
    let tooLarge := (Decimal.Binary64.ofDecimal? mantissa (exponent - fraction.length)).isNone
    if tooLarge && !negative then none else return (.fraction, rest)

/-! ## Dates and times -/

/-- A number of exactly `n` decimal digits between two bounds: its text and value. -/
def fixed? (n lo hi : Nat) (cs : List Char) : Option (List Char × Nat × List Char) := do
  let text := cs.take n
  let ds ← text.mapM (digit? 10)
  let value := valueOf 10 ds
  if ds.length = n ∧ lo ≤ value ∧ value ≤ hi then some (text, value, cs.drop n) else none

def expect? (c : Char) : List Char → Option (List Char)
  | x :: rest => if x = c then some rest else none
  | [] => none

def daysOf (year month : Nat) : Nat :=
  if month = 2 then
    if year % 4 = 0 ∧ (year % 100 ≠ 0 ∨ year % 400 = 0) then 29 else 28
  else if month = 4 ∨ month = 6 ∨ month = 9 ∨ month = 11 then 30
  else 31

def date? (cs : List Char) : Option (List Char × List Char) := do
  let (yearText, year, cs) ← fixed? 4 0 9999 cs
  let cs ← expect? '-' cs
  let (monthText, month, cs) ← fixed? 2 1 12 cs
  let cs ← expect? '-' cs
  let (dayText, _, cs) ← fixed? 2 1 (daysOf year month) cs
  return (yearText ++ '-' :: monthText ++ '-' :: dayText, cs)

/-- The fraction of a second to nine places, without zeros at its end. -/
def secondFraction (cs : List Char) : List Char × List Char :=
  match cs with
  | '.' :: digits =>
    let text := digits.takeWhile Char.isDigit
    if text.isEmpty then ([], cs)
    else
      let kept := ((text.take 9).reverse.dropWhile (· == '0')).reverse
      (if kept.isEmpty then [] else '.' :: kept, digits.drop text.length)
  | _ => ([], cs)

def time? (cs : List Char) : Option (List Char × List Char) := do
  let (hour, _, cs) ← fixed? 2 0 23 cs
  let cs ← expect? ':' cs
  let (minute, _, cs) ← fixed? 2 0 59 cs
  let cs ← expect? ':' cs
  let (second, _, cs) ← fixed? 2 0 60 cs
  let (fraction, cs) := secondFraction cs
  return (hour ++ ':' :: minute ++ ':' :: second ++ fraction, cs)

/-- The distance from universal time. A distance of nothing has a plus sign. -/
def offset? : List Char → Option (List Char × List Char)
  | 'Z' :: rest | 'z' :: rest => some (['Z'], rest)
  | c :: cs =>
    if c = '+' ∨ c = '-' then do
      let (hour, h, cs) ← fixed? 2 0 23 cs
      let cs ← expect? ':' cs
      let (minute, m, cs) ← fixed? 2 0 59 cs
      let shown := if h = 0 ∧ m = 0 then '+' else c
      return (shown :: hour ++ ':' :: minute, cs)
    else none
  | [] => none

def timeOfDay? : List Char → Option (List Char × List Char)
  | c :: cs =>
    if c = 'T' ∨ c = 't' ∨ c = ' ' then do
      let (time, cs) ← time? cs
      let (offset, cs) := (offset? cs).getD ([], cs)
      return ('T' :: time ++ offset, cs)
    else none
  | [] => none

/-- A date, a time, or both, in their common text. -/
def moment? (cs : List Char) : Option (List Char × List Char) :=
  match date? cs with
  | some (date, cs) =>
    let (time, cs) := (timeOfDay? cs).getD ([], cs)
    some (date ++ time, cs)
  | none => time? cs

/-- The name under which the text of a date or time stands in a record. -/
def momentField : String := "$__toml_private_datetime"

def momentData? (cs : List Char) : Option (Data × List Char) :=
  (moment? cs).map fun (text, rest) =>
    (.record [(momentField, .text (String.ofList text))], rest)

def number? (cs : List Char) : Option (Data × List Char) :=
  momentData? cs <|> fraction? cs <|> integer? cs

end SourceEdit.Toml
