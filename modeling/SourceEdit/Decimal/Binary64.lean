/-!
# Decimals and binary fractions

Numbers of double precision as mantissa and exponent, in exact arithmetic: a decimal is rounded to
the nearest of them, and one of them is written with the fewest digits that are rounded back to
it.
-/

namespace SourceEdit.Decimal

/-- The finite number `mantissa * 2 ^ exponent`, with at most 53 bits of mantissa and an exponent
of at least -1074. Below 53 bits, the exponent is the least one. -/
structure Binary64 where
  mantissa : Nat
  exponent : Int
  deriving Repr, DecidableEq, Inhabited

structure Fraction where
  num : Nat
  den : Nat
  deriving Repr, DecidableEq

def Fraction.scale (f : Fraction) (base : Nat) (e : Int) : Fraction :=
  match e with
  | .ofNat n => { f with num := f.num * base.pow n }
  | .negSucc n => { f with den := f.den * base.pow (n + 1) }

/-- The nearest natural number; of two equally near ones, the even one. -/
def Fraction.round (f : Fraction) : Nat :=
  let q := f.num / f.den
  let r := 2 * (f.num % f.den)
  if r < f.den then q else if r > f.den then q + 1 else q + q % 2

/-- The largest `e` with `2 ^ e` at most the fraction. -/
def Fraction.log2 (f : Fraction) : Int :=
  let e : Int := (f.num.log2 : Int) - f.den.log2
  let power := Fraction.scale ⟨1, 1⟩ 2 e
  if power.num * f.den ≤ f.num * power.den then e else e - 1

namespace Binary64

def zero : Binary64 := ⟨0, -1074⟩

def digitCount (n : Nat) : Nat := (Nat.toDigits 10 n).length

/-- The number nearest to `digits * 10 ^ exponent`, or none if that is too large to be one. -/
def ofDecimal? (digits : Nat) (exponent : Int) : Option Binary64 :=
  let magnitude : Int := exponent + digitCount digits
  if digits = 0 || magnitude < -330 then some zero
  else if magnitude > 310 then none
  else
    let f := Fraction.scale ⟨digits, 1⟩ 10 exponent
    let q := max (f.log2 - 52) (-1074)
    let m := (f.scale 2 (-q)).round
    let (m, q) := if m = 1 <<< 53 then (1 <<< 52, q + 1) else (m, q)
    if q > 971 then none else some ⟨m, q⟩

/-! ## Shortest decimals -/

/-- The fractions that are rounded to a number: all between the two, and these themselves if
`closed` says so. -/
structure Interval where
  lower : Fraction
  upper : Fraction
  closed : Bool

def Fraction.lt (a b : Fraction) : Bool := a.num * b.den < b.num * a.den

def Interval.contains (i : Interval) (f : Fraction) : Bool :=
  if i.closed then !Fraction.lt f i.lower && !Fraction.lt i.upper f
  else Fraction.lt i.lower f && Fraction.lt f i.upper

def value (b : Binary64) : Fraction :=
  Fraction.scale ⟨b.mantissa, 1⟩ 2 b.exponent

/-- The fractions nearest to a number. Below a power of two the neighbour is half as far. -/
def interval (b : Binary64) : Interval :=
  let lower :=
    if b.mantissa = 1 <<< 52 && b.exponent > -1074 then
      Fraction.scale ⟨4 * b.mantissa - 1, 1⟩ 2 (b.exponent - 2)
    else Fraction.scale ⟨2 * b.mantissa - 1, 1⟩ 2 (b.exponent - 1)
  { lower
    upper := Fraction.scale ⟨2 * b.mantissa + 1, 1⟩ 2 (b.exponent - 1)
    closed := b.mantissa % 2 = 0 }

def distance (a b : Fraction) : Fraction :=
  let x := a.num * b.den
  let y := b.num * a.den
  ⟨max x y - min x y, a.den * b.den⟩

/-- The point of the grid of step `10 ^ p` that is nearest to the number among those that are
rounded to it, as a multiple of the step. -/
def onGrid? (b : Binary64) (p : Int) : Option Nat :=
  let v := b.value
  let scaled := v.scale 10 (-p)
  let below := scaled.num / scaled.den
  let point := fun n => Fraction.scale ⟨n, 1⟩ 10 p
  let hit := fun n => b.interval.contains (point n)
  match hit below, hit (below + 1) with
  | true, true =>
    let d := distance v (point below)
    let d' := distance v (point (below + 1))
    if Fraction.lt d' d then some (below + 1)
    else if Fraction.lt d d' then some below
    else some (below + below % 2)
  | true, false => some below
  | false, true => some (below + 1)
  | false, false => none

/-- The first grid with a point, from steps of `10 ^ p` downwards. -/
def firstGrid (b : Binary64) : Nat → Int → Nat × Int
  | 0, p => (b.value.num, p)
  | fuel + 1, p =>
    match b.onGrid? p with
    | some n => if n = 0 then firstGrid b fuel (p - 1) else (n, p)
    | none => firstGrid b fuel (p - 1)

/-- Moves zeros at the end of the digits into the exponent. -/
def stripZeros : Nat → Nat → Int → Nat × Int
  | 0, n, p => (n, p)
  | fuel + 1, n, p => if n ≠ 0 ∧ n % 10 = 0 then stripZeros fuel (n / 10) (p + 1) else (n, p)

/-- The fewest digits, with an exponent of ten, that are rounded back to a number; of those, the
nearest to it. -/
def shortest (b : Binary64) : Nat × Int :=
  if b.mantissa = 0 then (0, 0)
  else
    let v := b.value
    let top : Int := (digitCount v.num : Int) - digitCount v.den + 1
    let (n, p) := firstGrid b 25 top
    stripZeros 25 n p

end Binary64

/-! ## Layout -/

/-- A positive decimal in positions while its point lies at most 16 digits to the right or 5 to the
left of its first digit, and with an exponent otherwise. A number without fraction ends in a zero
after the point. -/
def layout (digits : Nat) (exponent : Int) : String :=
  let ds := toString digits
  let point : Int := ds.length + exponent
  let zeros := fun (n : Int) => String.ofList (List.replicate n.toNat '0')
  if 0 ≤ exponent && point ≤ 16 then ds ++ zeros exponent ++ ".0"
  else if 0 < point && point ≤ 16 then
    String.ofList (ds.toList.take point.toNat) ++ "." ++ String.ofList (ds.toList.drop point.toNat)
  else if -5 < point && point ≤ 0 then "0." ++ zeros (-point) ++ ds
  else
    let mark := "e" ++ toString (point - 1)
    match ds.toList with
    | [d] => String.singleton d ++ mark
    | d :: more => String.singleton d ++ "." ++ String.ofList more ++ mark
    | [] => mark

def Binary64.render (negative : Bool) (b : Binary64) : String :=
  let (n, p) := b.shortest
  let text := if n = 0 then "0.0" else layout n p
  if negative then "-" ++ text else text

end SourceEdit.Decimal
