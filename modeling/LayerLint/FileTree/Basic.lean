import LayerLint.PathName

/-!
# File trees

A file tree is a finite map from locations to files, folders and links. A location is the list of
names on the way from the root, without links in between. The root itself is always a folder.

What is opened stays open when it is removed, and something new at its location is not the same. So
a tree remembers which locations things were removed from, and a handle tells how often that had
happened.
-/

namespace LayerLint

/-- The names on the way from the root. -/
abbrev Location := List String

inductive Entry where
  | file (bytes : List UInt8)
  | folder
  | link (target : String)
  deriving DecidableEq, Repr

def Entry.isLink : Entry → Bool
  | .link _ => true
  | _ => false

structure FileTree where
  entries : List (Location × Entry)
  /-- The locations that something was removed from, once for each time. -/
  removed : List Location
  deriving Repr

/-- A file or folder that somebody holds open. -/
structure Handle where
  location : Location
  /-- How often something had been removed from the location before. -/
  generation : Nat
  deriving DecidableEq, Repr

def Location.text (location : Location) : String :=
  "/" ++ "/".intercalate location

namespace FileTree

def empty : FileTree := ⟨[], []⟩

/-- What stands at a location; a link is not followed. -/
def get? (tree : FileTree) (location : Location) : Option Entry :=
  if location = [] then some .folder else tree.entries.lookup location

/-- Puts an entry at a location, in place of one that is there. -/
def set (tree : FileTree) (location : Location) (entry : Entry) : FileTree :=
  { tree with entries := tree.entries.filter (·.1 ≠ location) ++ [(location, entry)] }

def erase (tree : FileTree) (location : Location) : FileTree :=
  { entries := tree.entries.filter fun (other, _) => !location.isPrefixOf other
    removed := tree.removed ++ (tree.entries.map (·.1)).filter (location.isPrefixOf ·) }

/-- The name of `other` if it lies directly in `location`. -/
def nameIn? (location other : Location) : Option String :=
  if location.isPrefixOf other then
    match other.drop location.length with
    | [name] => some name
    | _ => none
  else none

def names (tree : FileTree) (location : Location) : List String :=
  tree.entries.filterMap fun (other, _) => nameIn? location other

def linkCount (tree : FileTree) : Nat := tree.entries.countP (·.2.isLink)

/-! ## Handles -/

/-- How often something was removed from a location. -/
def generation (tree : FileTree) (location : Location) : Nat :=
  (tree.removed.filter (· = location)).length

def hold (tree : FileTree) (location : Location) : Handle :=
  ⟨location, tree.generation location⟩

/-- Whether what a handle holds open is still in the tree. -/
def holds (tree : FileTree) (handle : Handle) : Bool :=
  tree.generation handle.location = handle.generation

end FileTree

end LayerLint
