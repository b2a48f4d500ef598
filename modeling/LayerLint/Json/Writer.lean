import LayerLint.Text.Quoted
import LayerLint.Value

/-!
# Writing JSON

`render` lays a value out over several lines, two blanks of indentation for each level, and
`compact` writes it on one line. Both use plain characters only: everything outside the printable
ones of the first 128 is written as UTF-16 units in hexadecimal.
-/

namespace LayerLint.Json

def units (c : Char) : List Nat :=
  if c.toNat < 0x10000 then [c.toNat]
  else [0xd800 + (c.toNat - 0x10000) / 0x400, 0xdc00 + (c.toNat - 0x10000) % 0x400]

def escapeUnit (n : Nat) : List Char :=
  '\\' :: 'u' :: Text.hex 4 n

def escapeChar (c : Char) : List Char :=
  if c = '"' then ['\\', '"']
  else if c = '\\' then ['\\', '\\']
  else if c = '\n' then ['\\', 'n']
  else if c = '\r' then ['\\', 'r']
  else if c = '\t' then ['\\', 't']
  else if c = Char.ofNat 0x0c then ['\\', 'f']
  else if c = Char.ofNat 0x08 then ['\\', 'b']
  else if 0x20 ≤ c.toNat ∧ c.toNat ≤ 0x7e then [c]
  else (units c).flatMap escapeUnit

def renderString (s : String) : List Char :=
  '"' :: s.toList.flatMap escapeChar ++ ['"']

def renderFloat (x : Float) : List Char :=
  if x.isNaN then "NaN".toList
  else if x.isInf then (if x < 0 then "-Infinity" else "Infinity").toList
  else (Decimal.floatText x).toList

def newLine (level : Nat) : List Char :=
  '\n' :: List.replicate (2 * level) ' '

mutual

/-- A value over several lines, its own lines indented by `level`. -/
def renderAt (level : Nat) : Value → List Char
  | .null => "null".toList
  | .bool b => (if b then "true" else "false").toList
  | .int n => (toString n).toList
  | .float x => renderFloat x
  | .str s => renderString s
  | .moment m => renderString m.text
  | .list [] => "[]".toList
  | .list (v :: vs) =>
      '[' :: newLine (level + 1) ++ renderAt (level + 1) v ++ renderItems (level + 1) vs
        ++ newLine level ++ [']']
  | .dict [] => "\x7b\x7d".toList
  | .dict ((key, v) :: entries) =>
      '\x7b' :: newLine (level + 1) ++ renderString key ++ ": ".toList ++ renderAt (level + 1) v
        ++ renderEntries (level + 1) entries ++ newLine level ++ ['\x7d']

def renderItems (level : Nat) : List Value → List Char
  | [] => []
  | v :: vs => ',' :: newLine level ++ renderAt level v ++ renderItems level vs

def renderEntries (level : Nat) : List (String × Value) → List Char
  | [] => []
  | (key, v) :: entries =>
      ',' :: newLine level ++ renderString key ++ ": ".toList ++ renderAt level v
        ++ renderEntries level entries

end

def render (v : Value) : String :=
  String.ofList (renderAt 0 v)

mutual

/-- A value on one line, put in front of `rest`. -/
def compactOnto (rest : List Char) : Value → List Char
  | .list [] => '[' :: ']' :: rest
  | .list (v :: vs) => '[' :: compactOnto (compactItems (']' :: rest) vs) v
  | .dict [] => '\x7b' :: '\x7d' :: rest
  | .dict ((key, v) :: entries) =>
      '\x7b' :: renderString key ++ ':' :: compactOnto (compactEntries ('\x7d' :: rest) entries) v
  | .null => "null".toList ++ rest
  | .bool b => (if b then "true" else "false").toList ++ rest
  | .int n => (toString n).toList ++ rest
  | .float x => renderFloat x ++ rest
  | .str s => renderString s ++ rest
  | .moment m => renderString m.text ++ rest

def compactItems (rest : List Char) : List Value → List Char
  | [] => rest
  | v :: vs => ',' :: compactOnto (compactItems rest vs) v

def compactEntries (rest : List Char) : List (String × Value) → List Char
  | [] => rest
  | (key, v) :: entries =>
      ',' :: renderString key ++ ':' :: compactOnto (compactEntries rest entries) v

end

def compact (v : Value) : String :=
  String.ofList (compactOnto [] v)

end LayerLint.Json
