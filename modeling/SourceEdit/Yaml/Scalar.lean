import SourceEdit.Decimal.Binary64
import SourceEdit.Text.Digit

/-!
# What plain scalars mean

A plain scalar is null, a truth value, a number or else text. Digits after a leading zero are text,
as are words such as `yes` and numbers with separators.
-/

namespace SourceEdit.Yaml

open Text (natural?)

/-- A number that is no integer. -/
inductive Real where
  | finite (negative : Bool) (value : Decimal.Binary64)
  | infinity (negative : Bool)
  | notANumber
  deriving Repr, DecidableEq, Inhabited

inductive Meaning where
  | null
  | flag (b : Bool)
  | integer (n : Int)
  /-- An integer too large for 64 bits but not for 128. -/
  | wideInteger
  | real (r : Real)
  | text
  deriving Repr, DecidableEq, Inhabited

def isNull (s : String) : Bool :=
  s == "null" || s == "Null" || s == "NULL" || s == "~"

def flag? (s : String) : Option Bool :=
  if s == "true" || s == "True" || s == "TRUE" then some true
  else if s == "false" || s == "False" || s == "FALSE" then some false
  else none

def isSign (c : Char) : Bool := c == '+' || c == '-'

/-- Whether the text is digits after a leading zero, with or without a sign. -/
def isZeroLed (cs : List Char) : Bool :=
  let unsigned := match cs with
    | c :: rest => if isSign c then rest else cs
    | [] => []
  match unsigned with
  | '0' :: c :: rest => (c :: rest).all Char.isDigit
  | _ => false

/-- The digits after a mark for base sixteen, eight or two. -/
def marked? (cs : List Char) : Option Nat :=
  match cs with
  | '0' :: 'x' :: rest => natural? 16 rest
  | '0' :: 'o' :: rest => natural? 8 rest
  | '0' :: 'b' :: rest => natural? 2 rest
  | _ => none

/-- The integer that a text stands for: with an optional sign, in decimal, or marked as of another
base. -/
def integer? (cs : List Char) : Option Int :=
  let decimal := fun (digits : List Char) => if isZeroLed cs then none else natural? 10 digits
  match cs with
  | '-' :: rest => ((marked? rest <|> decimal rest).map fun n => -(n : Int))
  | '+' :: rest => (marked? rest <|> decimal rest).map fun n => (n : Int)
  | _ => (marked? cs <|> decimal cs).map fun n => (n : Int)

/-- The exponent part of a decimal: nothing, or a letter with an integer. -/
def exponent? (cs : List Char) : Option Int :=
  match cs with
  | [] => some 0
  | e :: rest =>
    if e == 'e' || e == 'E' then
      match rest with
      | '-' :: ds => (natural? 10 ds).map fun n => -(n : Int)
      | '+' :: ds => (natural? 10 ds).map fun n => (n : Int)
      | ds => (natural? 10 ds).map fun n => (n : Int)
    else none

/-- A decimal without sign: digits with at most one point and at least one digit, and perhaps an
exponent. -/
def decimal? (cs : List Char) : Option Decimal.Binary64 :=
  let whole := cs.takeWhile Char.isDigit
  let afterWhole := cs.dropWhile Char.isDigit
  let (fraction, afterFraction) := match afterWhole with
    | '.' :: rest => (rest.takeWhile Char.isDigit, rest.dropWhile Char.isDigit)
    | _ => ([], afterWhole)
  if whole.isEmpty && fraction.isEmpty then none
  else do
    let e ← exponent? afterFraction
    let digits := (whole ++ fraction).foldl (fun n c => n * 10 + (c.toNat - 48)) 0
    Decimal.Binary64.ofDecimal? digits (e - fraction.length)

def real? (cs : List Char) : Option Real :=
  match String.ofList cs with
  | ".inf" | ".Inf" | ".INF" | "+.inf" | "+.Inf" | "+.INF" => some (.infinity false)
  | "-.inf" | "-.Inf" | "-.INF" => some (.infinity true)
  | ".nan" | ".NaN" | ".NAN" => some .notANumber
  | _ =>
    match cs with
    | '-' :: rest => (decimal? rest).map (.finite true)
    | '+' :: rest => (decimal? rest).map (.finite false)
    | _ => (decimal? cs).map (.finite false)

/-- Whether a number fits a signed word whose sign bit has this position, or the unsigned word of
the same width. -/
def isWithin (signBit : Nat) (n : Int) : Bool :=
  -((1 <<< signBit : Nat) : Int) ≤ n && n < ((1 <<< (signBit + 1) : Nat) : Int)

def meaning (text : String) : Meaning :=
  let cs := text.toList
  if cs.isEmpty || isNull text then .null
  else
    match flag? text with
    | some b => .flag b
    | none =>
      match integer? cs with
      | some n =>
        if isWithin 63 n then .integer n
        else if isWithin 127 n then .wideInteger
        else ((real? cs).map .real).getD .text
      | none => if isZeroLed cs then .text else ((real? cs).map .real).getD .text

def Real.render : Real → String
  | .finite negative value => value.render negative
  | .infinity negative => if negative then "-.inf" else ".inf"
  | .notANumber => ".nan"

end SourceEdit.Yaml
