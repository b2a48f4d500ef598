/-!
# Dates and times

Calendar values as they occur in settings files. They are never meaningful settings; what matters is
how they are shown in a message, plainly (`text`) or inside a list (`literal`).
-/

namespace LayerLint

structure Date where
  year : Nat
  month : Nat
  day : Nat
  deriving DecidableEq, Repr

structure TimeOfDay where
  hour : Nat
  minute : Nat
  second : Nat
  micros : Nat
  deriving DecidableEq, Repr

/-- A date, a time of day, or both, the latter perhaps with an offset in minutes. -/
inductive Moment where
  | date (d : Date)
  | time (t : TimeOfDay)
  | dateTime (d : Date) (t : TimeOfDay) (offset : Option Int)
  deriving DecidableEq, Repr

namespace Moment

/-- `n` with at least `width` digits. -/
def padded (width n : Nat) : String :=
  let digits := Nat.toDigits 10 n
  String.ofList (List.replicate (width - digits.length) '0' ++ digits)

def dateText (d : Date) : String :=
  padded 4 d.year ++ "-" ++ padded 2 d.month ++ "-" ++ padded 2 d.day

def timeText (t : TimeOfDay) : String :=
  padded 2 t.hour ++ ":" ++ padded 2 t.minute ++ ":" ++ padded 2 t.second
    ++ (if t.micros = 0 then "" else "." ++ padded 6 t.micros)

def offsetText (minutes : Int) : String :=
  (if minutes < 0 then "-" else "+") ++ padded 2 (minutes.natAbs / 60) ++ ":"
    ++ padded 2 (minutes.natAbs % 60)

def text : Moment → String
  | .date d => dateText d
  | .time t => timeText t
  | .dateTime d t offset => dateText d ++ " " ++ timeText t ++ (offset.map offsetText).getD ""

/-- The parts of a time; seconds and microseconds are left out where all that follows is zero. -/
def timeParts (t : TimeOfDay) : List Nat :=
  if t.micros ≠ 0 then [t.hour, t.minute, t.second, t.micros]
  else if t.second ≠ 0 then [t.hour, t.minute, t.second]
  else [t.hour, t.minute]

def commaSeparated (parts : List Nat) : String :=
  ", ".intercalate (parts.map toString)

/-- An offset as days and seconds, the seconds never negative. -/
def offsetLiteral (minutes : Int) : String :=
  if minutes = 0 then "datetime.timezone.utc"
  else
    let seconds := minutes * 60
    let days := if seconds < 0 then "days=-1, " else ""
    let rest := if seconds < 0 then seconds + 86400 else seconds
    "datetime.timezone(datetime.timedelta(" ++ days ++ "seconds=" ++ toString rest ++ "))"

def literal : Moment → String
  | .date d => "datetime.date(" ++ commaSeparated [d.year, d.month, d.day] ++ ")"
  | .time t => "datetime.time(" ++ commaSeparated (timeParts t) ++ ")"
  | .dateTime d t offset =>
      "datetime.datetime(" ++ commaSeparated ([d.year, d.month, d.day] ++ timeParts t)
        ++ (offset.map fun o => ", tzinfo=" ++ offsetLiteral o).getD "" ++ ")"

end Moment

end LayerLint
