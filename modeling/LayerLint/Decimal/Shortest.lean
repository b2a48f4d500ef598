import LayerLint.Decimal.Binary

/-!
# The shortest decimal text of a floating-point number

The text has the fewest digits that still read back as the same number, and of those the ones
nearest to it. Exponents from -4 to 15 are written positionally, all others with an `e`.
-/

namespace LayerLint.Decimal

/-- The largest `k` with `10 ^ k ≤ num / den`, for a positive quotient. -/
def leadingExponent (num den : Nat) : Int :=
  if den ≤ num then ((Nat.toDigits 10 (num / den)).length : Int) - 1
  else
    -- A first guess from the number of digits is at most one too small.
    let guess := (Nat.toDigits 10 (den / num)).length - 1
    if den ≤ num * Nat.pow 10 guess then -(guess : Int) else -((guess + 1 : Nat) : Int)

/-- Compares `digits · 10 ^ exponent` with `num / den`. -/
def compareDecimal (digits : Nat) (exponent : Int) (num den : Nat) : Ordering :=
  if 0 ≤ exponent then compare (digits * Nat.pow 10 exponent.toNat * den) num
  else compare (digits * den) (num * Nat.pow 10 (-exponent).toNat)

/-- The integer part of `num / den / 10 ^ exponent`. -/
def gridFloor (num den : Nat) (exponent : Int) : Nat :=
  if 0 ≤ exponent then num / (den * Nat.pow 10 exponent.toNat)
  else num * Nat.pow 10 (-exponent).toNat / den

/-- The interval of reals that round to a positive number, with the number itself in the middle, all
over one denominator. -/
structure Rounding where
  low : Nat
  value : Nat
  high : Nat
  den : Nat
  closed : Bool

def Rounding.ofBinary (b : Binary) : Rounding :=
  -- Below a power of two the gap to the next number is half as wide.
  let below := if b.mantissa = Nat.pow 2 52 ∧ -1074 < b.exponent then 1 else 2
  let scale := b.exponent - 2
  let factor := if 0 ≤ scale then Nat.pow 2 scale.toNat else 1
  { low := (4 * b.mantissa - below) * factor
    value := 4 * b.mantissa * factor
    high := (4 * b.mantissa + 2) * factor
    den := if 0 ≤ scale then 1 else Nat.pow 2 (-scale).toNat
    closed := b.mantissa % 2 = 0 }

def Rounding.contains (r : Rounding) (digits : Nat) (exponent : Int) : Bool :=
  match compareDecimal digits exponent r.low r.den, compareDecimal digits exponent r.high r.den with
  | .gt, .lt => true
  | .eq, _ => r.closed
  | _, .eq => r.closed
  | _, _ => false

/-- The points of a decimal grid on either side of a number that read back as it, nearest first. -/
def Rounding.onGrid? (r : Rounding) (exponent : Int) : Option Nat :=
  let t := gridFloor r.value r.den exponent
  match r.contains t exponent, r.contains (t + 1) exponent with
  | true, true =>
      -- Twice the number against the sum of both neighbours.
      match compareDecimal (2 * t + 1) exponent (2 * r.value) r.den with
      | .gt => some t
      | .lt => some (t + 1)
      | .eq => some (if t % 2 = 0 then t else t + 1)
  | true, false => some t
  | false, true => some (t + 1)
  | false, false => none

/-- Tries grids of more and more digits. Seventeen digits always suffice. -/
def Rounding.search (r : Rounding) (lead : Int) : Nat → Nat → Nat × Int
  | 0, digits => (gridFloor r.value r.den (lead - digits + 1), lead - digits + 1)
  | fuel + 1, digits =>
      match r.onGrid? (lead - digits + 1) with
      | some t => (t, lead - digits + 1)
      | none => r.search lead fuel (digits + 1)

/-- The decimal digits and the exponent of the last one, for a positive number. -/
def shortest (b : Binary) : Nat × Int :=
  let r := Rounding.ofBinary b
  r.search (leadingExponent r.value r.den) 17 1

/-- Digits without zeros at the end, and the position of the point counted from their left. -/
def normalDigits (digits : Nat) (exponent : Int) : List Char × Int :=
  let text := Nat.toDigits 10 digits
  ((text.reverse.dropWhile (· == '0')).reverse, text.length + exponent)

/-- At least two digits, after a sign. -/
def exponentText (e : Int) : List Char :=
  let digits := Nat.toDigits 10 e.natAbs
  (if e < 0 then '-' else '+') :: (if digits.length < 2 then '0' :: digits else digits)

def layOut (digits : List Char) (point : Int) : List Char :=
  if -4 < point ∧ point ≤ 16 then
    if point ≤ 0 then "0.".toList ++ List.replicate (-point).toNat '0' ++ digits
    else if (digits.length : Int) ≤ point then
      digits ++ List.replicate (point.toNat - digits.length) '0' ++ ".0".toList
    else digits.take point.toNat ++ '.' :: digits.drop point.toNat
  else
    match digits with
    | [] => []
    | [d] => d :: 'e' :: exponentText (point - 1)
    | d :: others => d :: '.' :: others ++ 'e' :: exponentText (point - 1)

def floatText (x : Float) : String :=
  match Binary.ofFloat? x with
  | none => if x.isNaN then "nan" else if x < 0 then "-inf" else "inf"
  | some b =>
      let magnitude :=
        if b.mantissa = 0 then "0.0".toList
        else
          let (digits, exponent) := shortest b
          let (digits, point) := normalDigits digits exponent
          layOut digits point
      String.ofList (if b.negative then '-' :: magnitude else magnitude)

/-- The text of a number with two places, a half going to the even neighbour. -/
def twoPlaces (x : Float) : String :=
  match Binary.ofFloat? x with
  | none => if x.isNaN then "nan" else if x < 0 then "-inf" else "inf"
  | some b =>
      let (num, den) := b.quotient
      let cents := roundDiv (num * 100) den
      let digits := Nat.toDigits 10 (cents % 100)
      let places := if digits.length < 2 then '0' :: digits else digits
      String.ofList ((if b.negative then ['-'] else []) ++ Nat.toDigits 10 (cents / 100)
        ++ '.' :: places)

end LayerLint.Decimal
