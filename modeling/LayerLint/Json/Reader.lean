import LayerLint.Decimal.Reading
import LayerLint.Json.Writer
import LayerLint.Text.Split

/-!
# Reading JSON

`read?` accepts one value with white space around it. Numbers without a point and without an
exponent are integers of any size; all others are floating-point numbers. A string is read as UTF-16
units first, so that a pair of surrogates becomes one character.
-/

namespace LayerLint.Json

def isSpace (c : Char) : Bool :=
  c = ' ' || c = '\n' || c = '\r' || c = '\t'

def hexValue? (c : Char) : Option Nat :=
  if '0' ≤ c ∧ c ≤ '9' then some (c.toNat - 48)
  else if 'a' ≤ c ∧ c ≤ 'f' then some (c.toNat - 87)
  else if 'A' ≤ c ∧ c ≤ 'F' then some (c.toNat - 55)
  else none

def unit? (a b c d : Char) : Option Nat := do
  let a ← hexValue? a
  let b ← hexValue? b
  let c ← hexValue? c
  let d ← hexValue? d
  return ((a * 16 + b) * 16 + c) * 16 + d

def shortEscape? : Char → Option Nat
  | '"' => some 0x22
  | '\\' => some 0x5c
  | '/' => some 0x2f
  | 'b' => some 0x08
  | 'f' => some 0x0c
  | 'n' => some 0x0a
  | 'r' => some 0x0d
  | 't' => some 0x09
  | _ => none

/-- Reads a string whose opening quote has been read; `found` holds the units so far, latest first.
-/
def readUnits? (found : List Nat) : List Char → Option (List Nat × List Char)
  | '\\' :: 'u' :: a :: b :: c :: d :: cs =>
      match unit? a b c d with
      | some n => readUnits? (n :: found) cs
      | none => none
  | '\\' :: c :: cs =>
      match shortEscape? c with
      | some n => readUnits? (n :: found) cs
      | none => none
  | '"' :: cs => some (found.reverse, cs)
  | c :: cs => if c = '\\' then none else readUnits? ((units c).reverse ++ found) cs
  | [] => none

/-- The character that a unit outside a pair stands for. -/
def lone (n : Nat) : Char :=
  if 0xd800 ≤ n ∧ n < 0xe000 then Char.ofNat 0xfffd else Char.ofNat n

/-- Joins surrogate pairs. -/
def ofUnits : List Nat → List Char
  | [] => []
  | [n] => [lone n]
  | n :: m :: rest =>
      if 0xd800 ≤ n ∧ n < 0xdc00 ∧ 0xdc00 ≤ m ∧ m < 0xe000 then
        Char.ofNat (0x10000 + (n - 0xd800) * 0x400 + (m - 0xdc00)) :: ofUnits rest
      else lone n :: ofUnits (m :: rest)

/-- Reads a string whose opening quote has been read. -/
def readString? (cs : List Char) : Option (String × List Char) :=
  (readUnits? [] cs).map fun (found, rest) => (String.ofList (ofUnits found), rest)

def readMagnitude? (negative : Bool) (cs : List Char) : Option (Value × List Char) :=
  let whole := cs.takeWhile Char.isDigit
  let rest := cs.dropWhile Char.isDigit
  let (fraction, rest) :=
    match rest with
    | '.' :: after =>
        if (after.takeWhile Char.isDigit).isEmpty then ([], rest)
        else (after.takeWhile Char.isDigit, after.dropWhile Char.isDigit)
    | _ => ([], rest)
  let (exponent, rest) : Option Int × List Char :=
    match rest with
    | c :: after =>
        if c = 'e' ∨ c = 'E' then
          let (down, digits) := Decimal.readSign after
          let shown := digits.takeWhile Char.isDigit
          if shown.isEmpty then (none, rest)
          else
            let n : Int := Decimal.ofDigits (shown.map (·.toNat - 48))
            (some (if down then -n else n), digits.dropWhile Char.isDigit)
        else (none, rest)
    | [] => (none, rest)
  let mantissa := Decimal.ofDigits ((whole ++ fraction).map (·.toNat - 48))
  if whole.isEmpty then none
  else if fraction.isEmpty && exponent.isNone then
    some (.int (if negative then -(mantissa : Int) else (mantissa : Int)), rest)
  else
    some (.float (Decimal.ofDecimal negative mantissa (exponent.getD 0 - fraction.length)), rest)

def readScalar? (cs : List Char) : Option (Value × List Char) :=
  let words : List (String × Value) :=
    [("null", .null), ("true", .bool true), ("false", .bool false), ("NaN", .float (0.0 / 0.0)),
     ("Infinity", .float (1.0 / 0.0)), ("-Infinity", .float (-(1.0 / 0.0)))]
  match words.findSome? fun (word, v) => (Text.dropFront? word.toList cs).map (v, ·) with
  | some found => some found
  | none =>
      match cs with
      | '-' :: rest => readMagnitude? true rest
      | _ => readMagnitude? false cs

mutual

/-- Reads a value. Every nested value takes one from `fuel`. -/
def readValue? : Nat → List Char → Option (Value × List Char)
  | 0, _ => none
  | fuel + 1, cs =>
      match cs.dropWhile isSpace with
      | '"' :: rest => (readString? rest).map fun (s, rest) => (.str s, rest)
      | '[' :: rest =>
          match rest.dropWhile isSpace with
          | ']' :: rest => some (.list [], rest)
          | _ => (readItems? fuel [] rest).map fun (items, rest) => (.list items, rest)
      | '\x7b' :: rest =>
          match rest.dropWhile isSpace with
          | '\x7d' :: rest => some (.dict [], rest)
          | _ => (readEntries? fuel [] rest).map fun (entries, rest) => (.dict entries, rest)
      | rest => readScalar? rest

/-- Reads the items of a list up to its closing bracket; `found` holds those so far, latest first.
-/
def readItems? : Nat → List Value → List Char → Option (List Value × List Char)
  | 0, _, _ => none
  | fuel + 1, found, cs =>
      match readValue? fuel cs with
      | none => none
      | some (v, rest) =>
          match rest.dropWhile isSpace with
          | ',' :: rest => readItems? fuel (v :: found) rest
          | ']' :: rest => some ((v :: found).reverse, rest)
          | _ => none

/-- Reads the entries of a table up to its closing brace. -/
def readEntries? : Nat → List (String × Value) → List Char →
    Option (List (String × Value) × List Char)
  | 0, _, _ => none
  | fuel + 1, found, cs =>
      match cs.dropWhile isSpace with
      | '"' :: rest =>
          match readString? rest with
          | none => none
          | some (key, rest) =>
              match rest.dropWhile isSpace with
              | ':' :: rest =>
                  match readValue? fuel rest with
                  | none => none
                  | some (v, rest) =>
                      match rest.dropWhile isSpace with
                      | ',' :: rest => readEntries? fuel (Table.set found key v) rest
                      | '\x7d' :: rest => some (Table.set found key v, rest)
                      | _ => none
              | _ => none
      | _ => none

end

def read? (text : String) : Option Value :=
  let cs := text.toList
  match readValue? (cs.length + 1) cs with
  | some (v, rest) => if rest.all isSpace then some v else none
  | none => none

end LayerLint.Json
