import LayerLint.Toml.Key
import LayerLint.Value

/-!
# Tables that grow while a settings file is read

A table may be opened once by its header, and keys with dots open tables on the way. Values that are
written out in one piece, lists and inline tables, are closed for good.
-/

namespace LayerLint.Toml

/-- Changes the table behind a key. Tables that are missing are made. Of a list of tables the last
one counts, unless `lists` is false. Nothing if something else stands in the way. -/
def changeTable? (lists : Bool) (f : Table → Option Table) : Key → Table → Option Table
  | [], table => f table
  | part :: parts, table =>
      match table.lookup part with
      | none => (changeTable? lists f parts []).map fun inner => table.set part (.dict inner)
      | some (.dict inner) =>
          (changeTable? lists f parts inner).map fun inner => table.set part (.dict inner)
      | some (.list items) =>
          if lists then
            match items.getLast? with
            | some (.dict inner) =>
                (changeTable? lists f parts inner).map fun inner =>
                  table.set part (.list (items.dropLast ++ [.dict inner]))
            | _ => none
          else none
      | some _ => none

/-- Gives a name in a table its value, which it must not have yet. -/
def addNew? (name : String) (v : Value) (table : Table) : Option Table :=
  match table.lookup name with
  | none => some (table.set name v)
  | some _ => none

def addTable? (name : String) (table : Table) : Option Table :=
  match table.lookup name with
  | none => some (table.set name (.list [.dict []]))
  | some (.list items) => some (table.set name (.list (items ++ [.dict []])))
  | some _ => none

structure Document where
  table : Table
  /-- The table that keys belong to. -/
  header : Key
  /-- Keys that no header may open again. -/
  opened : List Key
  /-- Keys that the next header adds to `opened`. -/
  pending : List Key
  /-- Keys below which nothing may change. -/
  closed : List Key

namespace Document

def empty : Document := ⟨[], [], [], [], []⟩

def isClosed (doc : Document) (key : Key) : Bool :=
  doc.closed.any (·.isPrefixOf key)

def isOpened (doc : Document) (key : Key) : Bool :=
  doc.opened.contains key

/-- A header ends the section before it. -/
def endSection (doc : Document) : Document :=
  { doc with opened := doc.opened ++ doc.pending, pending := [] }

def openTable? (doc : Document) (key : Key) : Option Document :=
  if doc.isOpened key || doc.isClosed key then none
  else
    (changeTable? true some key doc.table).map fun table =>
      { doc with table := table, header := key, opened := doc.opened ++ [key] }

/-- Opens one more table of a list by its header. What is known about earlier ones is forgotten. -/
def openListItem? (doc : Document) (key : Key) : Option Document :=
  if doc.isClosed key then none
  else
    (changeTable? true (addTable? (key.getLast?.getD "")) key.dropLast doc.table).map fun table =>
      { doc with
        table := table
        header := key
        opened := doc.opened.filter (!key.isPrefixOf ·) ++ [key]
        closed := doc.closed.filter (!key.isPrefixOf ·) }

/-- The keys of the tables that a key with dots passes through. -/
def passedTables (header key : Key) : List Key :=
  (List.range (key.length - 1)).map fun i => header ++ key.take (i + 1)

/-- Whether a value is written out in one piece. -/
def isWhole : Value → Bool
  | .list _ => true
  | .dict _ => true
  | _ => false

def add? (doc : Document) (key : Key) (v : Value) : Option Document :=
  let passed := passedTables doc.header key
  if passed.any doc.isOpened || doc.isClosed (doc.header ++ key.dropLast) then none
  else
    (changeTable? true (addNew? (key.getLast?.getD "") v) (doc.header ++ key.dropLast)
        doc.table).map fun table =>
      { doc with
        table := table
        pending := doc.pending ++ passed
        closed := if isWhole v then doc.closed ++ [doc.header ++ key] else doc.closed }

end Document

end LayerLint.Toml
