import LayerLint.Decimal.Reading
import LayerLint.Decimal.Shortest
import LayerLint.Moment
import LayerLint.Text.Quoted

/-!
# Values

Settings and hand-written rules carry values of any kind, checked late or never. `Value` is such a
value; the entries of a table keep their order. `text` is a value as messages show it, `literal` the
same value inside a list, where texts are quoted.
-/

namespace LayerLint

inductive Value where
  | null
  | bool (b : Bool)
  | int (n : Int)
  | float (x : Float)
  | str (s : String)
  | moment (m : Moment)
  | list (items : List Value)
  | dict (entries : List (String × Value))
  deriving Inhabited

/-- Named values in order, each name once. -/
abbrev Table := List (String × Value)

/-- Gives a name a value. A name that is there already keeps its place. -/
def Table.set : Table → String → Value → Table
  | [], key, v => [(key, v)]
  | (k, old) :: entries, key, v =>
      if k = key then (k, v) :: entries else (k, old) :: Table.set entries key v

/-- The first table with the entries of the second on top. -/
def Table.update (t changes : Table) : Table :=
  changes.foldl (fun t (key, v) => t.set key v) t

namespace Value

mutual

def literal : Value → String
  | .null => "None"
  | .bool b => if b then "True" else "False"
  | .int n => toString n
  | .float x => Decimal.floatText x
  | .str s => Text.quoted s
  | .moment m => m.literal
  | .list items => "[" ++ ", ".intercalate (literals items) ++ "]"
  | .dict entries => "\x7b" ++ ", ".intercalate (entryLiterals entries) ++ "\x7d"

def literals : List Value → List String
  | [] => []
  | v :: rest => literal v :: literals rest

def entryLiterals : List (String × Value) → List String
  | [] => []
  | (key, v) :: rest => (Text.quoted key ++ ": " ++ literal v) :: entryLiterals rest

end

mutual

/-- Whether all integers in a value have few enough digits to be written. -/
def isWritable : Value → Bool
  | .int n => Decimal.isWritable n
  | .list items => allWritable items
  | .dict entries => allEntriesWritable entries
  | _ => true

def allWritable : List Value → Bool
  | [] => true
  | v :: rest => isWritable v && allWritable rest

def allEntriesWritable : List (String × Value) → Bool
  | [] => true
  | (_, v) :: rest => isWritable v && allEntriesWritable rest

end

mutual

def depth : Value → Nat
  | .list items => depthOfItems items + 1
  | .dict entries => depthOfEntries entries + 1
  | _ => 0

def depthOfItems : List Value → Nat
  | [] => 0
  | v :: rest => max (depth v) (depthOfItems rest)

def depthOfEntries : List (String × Value) → Nat
  | [] => 0
  | (_, v) :: rest => max (depth v) (depthOfEntries rest)

end

def text : Value → String
  | .str s => s
  | .moment m => m.text
  | v => literal v

def kind : Value → String
  | .null => "NoneType"
  | .bool _ => "bool"
  | .int _ => "int"
  | .float _ => "float"
  | .str _ => "str"
  | .moment (.date _) => "date"
  | .moment (.time _) => "time"
  | .moment (.dateTime ..) => "datetime"
  | .list _ => "list"
  | .dict _ => "dict"

/-- Whether a value counts as true: not if it is nothing, false, zero or empty. -/
def isTrue : Value → Bool
  | .null => false
  | .bool b => b
  | .int n => n != 0
  | .float x => x != 0.0
  | .str s => !s.isEmpty
  | .moment _ => true
  | .list items => !items.isEmpty
  | .dict entries => !entries.isEmpty

def string? : Value → Option String
  | .str s => some s
  | _ => none

def get? (v : Value) (key : String) : Option Value :=
  match v with
  | .dict entries => entries.lookup key
  | _ => none

/-! ## Numbers -/

/-- A number as it takes part in a comparison: exact, or floating. -/
inductive Number where
  | exact (n : Int)
  | floating (x : Float)

/-- Truth values count as one and zero. -/
def number? : Value → Option Number
  | .bool b => some (.exact (if b then 1 else 0))
  | .int n => some (.exact n)
  | .float x => some (.floating x)
  | _ => none

/-- Whether a number is below an integer. What is not a number is below nothing. -/
def Number.below (limit : Int) : Number → Bool
  | .exact n => n < limit
  | .floating x => x < Float.ofInt limit

def Number.above (limit : Int) : Number → Bool
  | .exact n => limit < n
  | .floating x => Float.ofInt limit < x

def Number.atMost (limit : Int) : Number → Bool
  | .exact n => n ≤ limit
  | .floating x => x ≤ Float.ofInt limit

end Value

end LayerLint
