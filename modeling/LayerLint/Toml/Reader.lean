import LayerLint.Toml.Document
import LayerLint.Toml.Scalar

/-!
# Reading settings files

`read` reads a whole file into a table.
-/

namespace LayerLint.Toml

/-! ## Values -/

/-- Skips blanks, line breaks and comments, starting inside a comment or not. -/
def skipLines (inComment : Bool) : List Char → Except Fault (List Char)
  | [] => .ok []
  | c :: cs =>
      if c = '\n' then skipLines false cs
      else if inComment then if isPlain c then skipLines true cs else .error .malformed
      else if isSpace c then skipLines false cs
      else if c = '#' then skipLines true cs
      else .ok (c :: cs)

def skipAll (cs : List Char) : Except Fault (List Char) := skipLines false cs

/-- An inline table as far as it has been read: its entries, and the keys that are closed. -/
abbrev Inline := Table × List Key

def addInline? (inline : Inline) (key : Key) (v : Value) : Option Inline :=
  if inline.2.any (·.isPrefixOf key) then none
  else
    (changeTable? false (addNew? (key.getLast?.getD "") v) key.dropLast inline.1).map fun table =>
      (table, if Document.isWhole v then inline.2 ++ [key] else inline.2)

/-- How much room there is for lists and tables inside each other. -/
def startRoom : Nat := 982

/-- The room that a list takes for what lies in it. -/
def listRoom : Nat := 2

/-- The room that an inline table takes for what lies in it. -/
def tableRoom : Nat := 3

mutual

/-- Reads a value with at most `fuel` steps, where there is `room` for lists and tables. -/
def readValue (room : Nat) : Nat → List Char → Parse Value
  | 0, _ => .error .malformed
  | fuel + 1, cs =>
      match cs with
      | '"' :: '"' :: '"' :: rest => (readMultiline false rest).map fun (s, rest) => (.str s, rest)
      | '"' :: rest => (readBasic false rest).map fun (s, rest) => (.str s, rest)
      | '\'' :: '\'' :: '\'' :: rest =>
          (readMultiline true rest).map fun (s, rest) => (.str s, rest)
      | '\'' :: rest => (readLiteral rest).map fun (s, rest) => (.str s, rest)
      | 't' :: 'r' :: 'u' :: 'e' :: rest => .ok (.bool true, rest)
      | 'f' :: 'a' :: 'l' :: 's' :: 'e' :: rest => .ok (.bool false, rest)
      | '[' :: rest =>
          if room < listRoom then .error .tooDeep else readItems (room - listRoom) fuel [] rest
      | '\x7b' :: rest =>
          match skipSpaces rest with
          | '\x7d' :: rest => .ok (.dict [], rest)
          | rest =>
              if room < tableRoom then .error .tooDeep
              else readEntries (room - tableRoom) fuel ([], []) rest
      | _ => readScalar cs

/-- Reads the items of a list up to its end; `found` holds those before, latest first. -/
def readItems (room : Nat) : Nat → List Value → List Char → Parse Value
  | 0, _, _ => .error .malformed
  | fuel + 1, found, cs =>
      match skipAll cs with
      | .error fault => .error fault
      | .ok (']' :: rest) => .ok (.list found.reverse, rest)
      | .ok cs =>
          match readValue room fuel cs with
          | .error fault => .error fault
          | .ok (v, rest) =>
              match skipAll rest with
              | .error fault => .error fault
              | .ok (',' :: rest) => readItems room fuel (v :: found) rest
              | .ok (']' :: rest) => .ok (.list (v :: found).reverse, rest)
              | .ok _ => .error .malformed

/-- Reads the entries of an inline table, at least one, up to its end. -/
def readEntries (room : Nat) : Nat → Inline → List Char → Parse Value
  | 0, _, _ => .error .malformed
  | fuel + 1, inline, cs =>
      match readKey cs with
      | .error fault => .error fault
      | .ok (key, '=' :: rest) =>
          match readValue room fuel (skipSpaces rest) with
          | .error fault => .error fault
          | .ok (v, rest) =>
              match addInline? inline key v with
              | none => .error .malformed
              | some inline =>
                  match skipSpaces rest with
                  | '\x7d' :: rest => .ok (.dict inline.1, rest)
                  | ',' :: rest => readEntries room fuel inline (skipSpaces rest)
                  | _ => .error .malformed
      | .ok _ => .error .malformed

end

/-! ## Statements -/

def orMalformed {α : Type} : Option α → Except Fault α
  | some a => .ok a
  | none => .error .malformed

/-- Reads a key with its value in a text of `size` characters. -/
def readSetting (size : Nat) (doc : Document) (cs : List Char) : Parse Document :=
  match readKey cs with
  | .error fault => .error fault
  | .ok (key, '=' :: rest) =>
      match readValue startRoom (2 * size + 2) (skipSpaces rest) with
      | .error fault => .error fault
      | .ok (v, rest) => (orMalformed (doc.add? key v)).map fun doc => (doc, rest)
  | .ok _ => .error .malformed

/-- Reads a header whose first bracket has been read. -/
def readHeader (doc : Document) : List Char → Parse Document
  | '[' :: cs =>
      match readKey (skipSpaces cs) with
      | .ok (key, ']' :: ']' :: rest) =>
          (orMalformed (doc.openListItem? key)).map fun doc => (doc, rest)
      | .ok _ => .error .malformed
      | .error fault => .error fault
  | cs =>
      match readKey (skipSpaces cs) with
      | .ok (key, ']' :: rest) => (orMalformed (doc.openTable? key)).map fun doc => (doc, rest)
      | .ok _ => .error .malformed
      | .error fault => .error fault

/-- Reads one statement. A comment, or nothing, is one too. -/
def readStatement (size : Nat) (doc : Document) : List Char → Parse Document
  | [] => .ok (doc, [])
  | c :: cs =>
      if isBare c || c = '"' || c = '\'' then readSetting size doc (c :: cs)
      else if c = '[' then readHeader doc.endSection cs
      else .ok (doc, c :: cs)

/-- Reads statements, at most `fuel`, each of which ends its line. -/
def readStatements (size : Nat) : Nat → Document → List Char → Except Fault Document
  | 0, _, _ => .error .malformed
  | fuel + 1, doc, cs =>
      match readStatement size doc (skipSpaces cs) with
      | .error fault => .error fault
      | .ok (doc, rest) =>
          match skipComment (skipSpaces rest) with
          | .error fault => .error fault
          | .ok [] => .ok doc
          | .ok ('\n' :: rest) => readStatements size fuel doc rest
          | .ok _ => .error .malformed

/-- Line breaks of two characters count as one. -/
def singleBreaks : List Char → List Char
  | '\r' :: '\n' :: cs => '\n' :: singleBreaks cs
  | c :: cs => c :: singleBreaks cs
  | [] => []

def read (text : List Char) : Except Fault Table :=
  let cs := singleBreaks text
  (readStatements cs.length (cs.length + 1) .empty cs).map (·.table)

end LayerLint.Toml
