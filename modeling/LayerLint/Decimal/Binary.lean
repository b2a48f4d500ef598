/-!
# Floating-point numbers as integers times powers of two
-/

namespace LayerLint.Decimal

/-- A finite number, `mantissa · 2 ^ exponent` with a sign. -/
structure Binary where
  negative : Bool
  mantissa : Nat
  exponent : Int

/-- The parts of a finite number; nothing for the infinities and for what is not a number. -/
def Binary.ofFloat? (x : Float) : Option Binary :=
  let bits := x.toBits.toNat
  let negative := bits / Nat.pow 2 63 = 1
  let exponent : Nat := bits / Nat.pow 2 52 % Nat.pow 2 11
  let fraction := bits % Nat.pow 2 52
  if exponent = Nat.pow 2 11 - 1 then none
  else if exponent = 0 then some ⟨negative, fraction, -1074⟩
  else some ⟨negative, fraction + Nat.pow 2 52, (exponent : Int) - 1075⟩

def Binary.quotient (b : Binary) : Nat × Nat :=
  if 0 ≤ b.exponent then (b.mantissa * Nat.pow 2 b.exponent.toNat, 1)
  else (b.mantissa, Nat.pow 2 (-b.exponent).toNat)

/-- The integer part, rounded toward zero. -/
def Binary.truncate (b : Binary) : Int :=
  let (num, den) := b.quotient
  if b.negative then -((num / den : Nat) : Int) else ((num / den : Nat) : Int)

/-- A quotient rounded to the nearest integer, a half to the even neighbour. -/
def roundDiv (num den : Nat) : Nat :=
  let q := num / den
  let r := num % den
  if 2 * r < den then q else if den < 2 * r then q + 1 else if q % 2 = 0 then q else q + 1

end LayerLint.Decimal
