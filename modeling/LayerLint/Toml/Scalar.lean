import LayerLint.Decimal.Reading
import LayerLint.Toml.Key
import LayerLint.Value

/-!
# Numbers, dates and times of settings files
-/

namespace LayerLint.Toml

/-! ## Digits -/

/-- The digits at the front of a text, with single underscores between them. -/
def takeDigits (isDigit : Char → Bool) : List Char → List Char × List Char
  | [] => ([], [])
  | [c] => if isDigit c then ([c], []) else ([], [c])
  | c :: d :: cs =>
      if isDigit c then
        if isDigit d then
          let (ds, rest) := takeDigits isDigit (d :: cs)
          (c :: ds, rest)
        else if d = '_' then
          match takeDigits isDigit cs with
          | ([], _) => ([c], d :: cs)
          | (ds, rest) => (c :: ds, rest)
        else ([c], d :: cs)
      else ([], c :: d :: cs)
termination_by cs => cs.length

def readFixed? (width : Nat) (cs : List Char) : Option (Nat × List Char) :=
  let digits := cs.take width
  if digits.length = width ∧ digits.all Char.isDigit then
    some (Decimal.ofDigits (digits.map (·.toNat - 48)), cs.drop width)
  else none

def readBetween? (low high : Nat) (cs : List Char) : Option (Nat × List Char) :=
  (readFixed? 2 cs).bind fun (n, rest) => if low ≤ n ∧ n ≤ high then some (n, rest) else none

/-! ## Dates and times -/

def isLeap (year : Nat) : Bool :=
  year % 4 = 0 && (year % 100 != 0 || year % 400 = 0)

def daysIn (year month : Nat) : Nat :=
  if month = 2 then if isLeap year then 29 else 28
  else if month = 4 ∨ month = 6 ∨ month = 9 ∨ month = 11 then 30
  else 31

def isDate (d : Date) : Bool :=
  1 ≤ d.year && d.day ≤ daysIn d.year d.month

/-- The fraction of a second in microseconds; further digits are dropped. -/
def readFraction : List Char → Nat × List Char
  | '.' :: cs =>
      match cs.takeWhile Char.isDigit with
      | [] => (0, '.' :: cs)
      | digits =>
          let six := (digits ++ List.replicate 6 '0').take 6
          (Decimal.ofDigits (six.map (·.toNat - 48)), cs.dropWhile Char.isDigit)
  | cs => (0, cs)

def readTime? (cs : List Char) : Option (TimeOfDay × List Char) := do
  let (hour, cs) ← readBetween? 0 23 cs
  let cs ← Text.dropFront? [':'] cs
  let (minute, cs) ← readBetween? 0 59 cs
  let cs ← Text.dropFront? [':'] cs
  let (second, cs) ← readBetween? 0 59 cs
  let (micros, cs) := readFraction cs
  return (⟨hour, minute, second, micros⟩, cs)

/-- An offset from universal time in minutes, if one is written. -/
def readOffset : List Char → Option Int × List Char
  | [] => (none, [])
  | c :: cs =>
      if c = 'Z' ∨ c = 'z' then (some 0, cs)
      else if c = '+' ∨ c = '-' then
        let offset := do
          let (hours, cs) ← readBetween? 0 23 cs
          let cs ← Text.dropFront? [':'] cs
          let (minutes, cs) ← readBetween? 0 59 cs
          let total : Int := hours * 60 + minutes
          return (if c = '-' then -total else total, cs)
        match offset with
        | some (total, rest) => (some total, rest)
        | none => (none, c :: cs)
      else (none, c :: cs)

def readDate? (cs : List Char) : Option (Date × List Char) := do
  let (year, cs) ← readFixed? 4 cs
  let cs ← Text.dropFront? ['-'] cs
  let (month, cs) ← readBetween? 1 12 cs
  let cs ← Text.dropFront? ['-'] cs
  let (day, cs) ← readBetween? 1 31 cs
  return (⟨year, month, day⟩, cs)

/-- The time behind a date, with what stands between them. -/
def readTimeBehind? : List Char → Option (TimeOfDay × List Char)
  | [] => none
  | c :: cs => if c = 'T' ∨ c = 't' ∨ c = ' ' then readTime? cs else none

/-- A date, a date with a time, or a time. Nothing if the text has another form. -/
def readMoment? (cs : List Char) : Option (Parse Moment) :=
  match readDate? cs with
  | some (date, rest) =>
      some <|
        if isDate date then
          match readTimeBehind? rest with
          | some (time, rest) =>
              let (offset, rest) := readOffset rest
              .ok (.dateTime date time offset, rest)
          | none => .ok (.date date, rest)
        else .error .malformed
  | none => (readTime? cs).map fun (time, rest) => .ok (.time time, rest)

/-! ## Numbers -/

def ofBase (base : Nat) (digits : List Char) : Nat :=
  digits.foldl (fun n c => n * base + (hexDigit? c).getD 0) 0

def readBased? : List Char → Option (Nat × List Char)
  | '0' :: mark :: cs =>
      let read (base : Nat) (isDigit : Char → Bool) : Option (Nat × List Char) :=
        match takeDigits isDigit cs with
        | ([], _) => none
        | (digits, rest) => some (ofBase base digits, rest)
      if mark = 'x' then read 16 fun c => (hexDigit? c).isSome
      else if mark = 'b' then read 2 fun c => c = '0' || c = '1'
      else if mark = 'o' then read 8 fun c => '0' ≤ c && c ≤ '7'
      else none
  | _ => none

/-- The digits before the point: a zero by itself, or digits that start with none. -/
def takeWhole : List Char → List Char × List Char
  | '0' :: cs => (['0'], cs)
  | cs => takeDigits Char.isDigit cs

/-- The digits behind a point, if there are some. -/
def takeFraction : List Char → List Char × List Char
  | '.' :: cs =>
      match takeDigits Char.isDigit cs with
      | ([], _) => ([], '.' :: cs)
      | found => found
  | cs => ([], cs)

/-- The exponent of a number, if there is one. -/
def takeExponent : List Char → Option Int × List Char
  | [] => (none, [])
  | c :: cs =>
      if c = 'e' ∨ c = 'E' then
        let (negative, rest) := Decimal.readSign cs
        match takeDigits Char.isDigit rest with
        | ([], _) => (none, c :: cs)
        | (digits, rest) =>
            let n : Int := ofBase 10 digits
            (some (if negative then -n else n), rest)
      else (none, c :: cs)

/-- A decimal number. Nothing if the text has another form. -/
def readDecimal? (cs : List Char) : Option (Parse Value) :=
  let (negative, cs) := Decimal.readSign cs
  match takeWhole cs with
  | ([], _) => none
  | (whole, rest) =>
      let (fraction, rest) := takeFraction rest
      let (exponent, rest) := takeExponent rest
      some <|
        if fraction.isEmpty && exponent.isNone then
          if Decimal.maxDigits < whole.length then .error (.tooManyDigits whole.length)
          else
            let n : Int := ofBase 10 whole
            .ok (.int (if negative then -n else n), rest)
        else
          .ok (.float (Decimal.ofDecimal negative (ofBase 10 (whole ++ fraction))
            (exponent.getD 0 - fraction.length)), rest)

def specialNumbers : List (String × Float) :=
  [("inf", 1.0 / 0.0), ("nan", 0.0 / 0.0), ("-inf", -(1.0 / 0.0)), ("+inf", 1.0 / 0.0),
   ("-nan", 0.0 / 0.0), ("+nan", 0.0 / 0.0)]

def readSpecial? (cs : List Char) : Option (Float × List Char) :=
  specialNumbers.findSome? fun (name, x) =>
    (Text.dropFront? name.toList cs).map fun rest => (x, rest)

/-- A number, a date or a time. -/
def readScalar (cs : List Char) : Parse Value :=
  match readMoment? cs with
  | some (.ok (moment, rest)) => .ok (.moment moment, rest)
  | some (.error fault) => .error fault
  | none =>
      match readBased? cs with
      | some (n, rest) => .ok (.int n, rest)
      | none =>
          match readDecimal? cs with
          | some result => result
          | none =>
              match readSpecial? cs with
              | some (x, rest) => .ok (.float x, rest)
              | none => .error .malformed

end LayerLint.Toml
