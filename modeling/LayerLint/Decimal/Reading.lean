import LayerLint.Text.Blank
import LayerLint.Text.Digit

/-!
# Reading numbers

Numbers as people type them: blanks around them, a sign, digits of any script, and single
underscores between digits. `readInt?` reads integers, `readFloat?` also fractions, exponents and
the names of the infinities and of what is not a number.
-/

namespace LayerLint.Decimal

/-- Rounds `mantissa · 10 ^ exponent`. Exponents far outside the range of the type are not
multiplied out. -/
def ofDecimal (negative : Bool) (mantissa : Nat) (exponent : Int) : Float :=
  let digits : Int := (Nat.toDigits 10 mantissa).length
  let magnitude : Float :=
    if mantissa = 0 then 0.0
    else if 400 < digits + exponent then 1.0 / 0.0
    else if digits + exponent < -400 then 0.0
    else if 0 ≤ exponent then Float.ofScientific mantissa false exponent.toNat
    else Float.ofScientific mantissa true (-exponent).toNat
  if negative then -magnitude else magnitude

/-- Blanks that may surround a number: all but the separators from U+001C to U+001F. -/
def isMargin (c : Char) : Bool :=
  Text.isBlank c && !(0x1c ≤ c.toNat && c.toNat ≤ 0x1f)

def trimMargins (cs : List Char) : List Char :=
  ((cs.dropWhile isMargin).reverse.dropWhile isMargin).reverse

/-- A sign, if there is one, and the text after it. -/
def readSign : List Char → Bool × List Char
  | '-' :: cs => (true, cs)
  | '+' :: cs => (false, cs)
  | cs => (false, cs)

/-- Digits at the front of a text; `inside` says that a digit stands before it, so that an
underscore may follow. -/
def readDigitsFrom : Bool → List Char → List Nat × List Char
  | _, [] => ([], [])
  | inside, c :: cs =>
      match Text.digitValue? c with
      | some d =>
          let (ds, rest) := readDigitsFrom true cs
          (d :: ds, rest)
      | none =>
          if inside && c == '_' && (cs.head?.bind Text.digitValue?).isSome then
            readDigitsFrom false cs
          else ([], c :: cs)

/-- The digits at the front of a text, single underscores between them, and the text after them. -/
def readDigits (cs : List Char) : List Nat × List Char :=
  readDigitsFrom false cs

def ofDigits (ds : List Nat) : Nat :=
  ds.foldl (fun n d => n * 10 + d) 0

inductive IntFault where
  | malformed
  /-- More digits than are converted. -/
  | tooLong (digits : Nat)

/-- The number of digits that an integer may be read or written with. -/
def maxDigits : Nat := 4300

/-- Whether an integer has few enough digits to be written. -/
def isWritable (n : Int) : Bool :=
  n.natAbs < Nat.pow 10 maxDigits

/-- Reads an integer. The digits are counted before what follows them is looked at, unless that is
an underscore out of place. -/
def readInt? (text : List Char) : Except IntFault Int :=
  let (negative, cs) := readSign (trimMargins text)
  match readDigits cs with
  | ([], _) => .error .malformed
  | (ds, rest) =>
      if rest.head? = some '_' then .error .malformed
      else if maxDigits < ds.length then .error (.tooLong ds.length)
      else if rest = [] then .ok (if negative then -(ofDigits ds : Int) else (ofDigits ds : Int))
      else .error .malformed

/-- The exponent at the end of a number; an absent one is zero. -/
def readExponent? : List Char → Option Int
  | [] => some 0
  | c :: cs =>
      if c = 'e' ∨ c = 'E' then
        let (negative, rest) := readSign cs
        match readDigits rest with
        | ([], _) => none
        | (ds, []) => some (if negative then -(ofDigits ds : Int) else (ofDigits ds : Int))
        | (_, _ :: _) => none
      else none

/-- Reads digits with an optional point and an optional exponent. -/
def readUnsigned? (negative : Bool) (cs : List Char) : Option Float :=
  let (whole, rest) := readDigits cs
  let (fraction, rest) :=
    match rest with
    | '.' :: rest => readDigits rest
    | rest => ([], rest)
  if whole.isEmpty && fraction.isEmpty then none
  else
    (readExponent? rest).map fun e =>
      ofDecimal negative (ofDigits (whole ++ fraction)) (e - fraction.length)

def readFloat? (text : List Char) : Option Float :=
  let (negative, cs) := readSign (trimMargins text)
  let name := String.ofList (cs.map Char.toLower)
  if name = "inf" ∨ name = "infinity" then some (if negative then -(1.0 / 0.0) else 1.0 / 0.0)
  else if name = "nan" then some (0.0 / 0.0)
  else readUnsigned? negative cs

end LayerLint.Decimal
