import LayerLint.Failure
import LayerLint.FileTree.Lookup
import LayerLint.Glob

/-!
# Walking through a project

The walk goes from the root of a project downwards, the folders of a folder in increasing order of
their names. It prunes what is hidden or excluded. Links to folders are left alone unless they are
followed; then every folder is looked at once, however many links lead to it, and so the walk ends.
-/

namespace LayerLint.Scan

/-! ## The root -/

/-- The folder that a project lies in, without links; a relative path starts in `folder`. -/
def findRoot (tree : FileTree) (folder : Handle) (given : PathName) : Except Failure Location :=
  match tree.resolve folder given with
  | .error .nullCharacter => .error (.ofFault .nullCharacter)
  | .error fault =>
      .error (.invalidPath given.toString ("Cannot resolve path: " ++ fault.text))
  | .ok path =>
      match tree.status path.parts with
      | .error .tooManyLinks =>
          .error (.invalidPath given.toString
            ("Cannot resolve path: Symlink loop from " ++ Text.quoted path.toString))
      | .error .nameTooLong => .error (.ofFault .nameTooLong)
      | .error _ => .error (.invalidPath path.toString "Directory does not exist")
      | .ok .folder => .ok path.parts
      | .ok _ => .error (.invalidPath path.toString "Path is not a directory")

/-! ## What is left out -/

structure Options where
  followLinks : Bool
  allowHidden : Bool
  excludes : List Glob

namespace Options

def keepsName (options : Options) (name : String) : Bool :=
  options.allowHidden || name.toList.head? != some '.'

def drops (options : Options) (path : String) : Bool :=
  options.excludes.any (·.selects path)

/-- Whether a folder is excluded: itself, or as what everything below it starts with. -/
def dropsFolder (options : Options) (path : String) : Bool :=
  options.drops path || options.drops (path ++ "/")

end Options

/-! ## The walk -/

def relativeText (parts : List String) : String := "/".intercalate parts

/-- The folders in a folder that the walk goes on to, in increasing order. -/
def subfolders (tree : FileTree) (options : Options) (root : Location) (parts : List String)
    (location : Location) : List String :=
  ((tree.names location).filter fun name =>
      tree.isFolder (root ++ parts ++ [name]) && options.keepsName name
        && !options.dropsFolder (relativeText (parts ++ [name]))).mergeSort (· ≤ ·)

def isLink (tree : FileTree) (location : Location) (name : String) : Bool :=
  match tree.get? (location ++ [name]) with
  | some (.link _) => true
  | _ => false

/-- The names in a folder that a pattern selects, whatever they stand for. -/
def selectedNames (tree : FileTree) (options : Options) (pattern : Glob) (parts : List String)
    (location : Location) : List String :=
  (tree.names location).filter fun name =>
    let path := relativeText (parts ++ [name])
    options.keepsName name && pattern.selects path && !options.drops path

/-- The files in a folder that a pattern selects, by their names. -/
def selectedFiles (tree : FileTree) (options : Options) (pattern : Glob) (root : Location)
    (parts : List String) (location : Location) : List String :=
  (selectedNames tree options pattern parts location).filter fun name =>
    tree.isFile (root ++ parts ++ [name])

/-- Whether one of the names that a pattern selects cannot be looked up, because its path is too
long or because a link leads on to a name that is too long. A folder is known to be one without
looking it up. -/
def selectsOverlong (tree : FileTree) (options : Options) (pattern : Glob) (root : Location)
    (parts : List String) (location : Location) : Bool :=
  (selectedNames tree options pattern parts location).any fun name =>
    tree.get? (location ++ [name]) ≠ some .folder &&
      tree.status (root ++ parts ++ [name]) matches .error .nameTooLong

/-- A folder that the walk comes to. -/
structure Visit where
  /-- The path of the folder from the root on. -/
  parts : List String
  /-- Whether the folder had been looked at before. -/
  again : Bool
  /-- Whether the walk cannot go on, because a selected name cannot be looked up. -/
  stuck : Bool
  /-- The names of the selected files in it. -/
  files : List String
  deriving DecidableEq, Repr

/-- The walk from one folder on, at most `depth` folders deep, where the folders in `seen` have been
looked at. The visits are in order. -/
def walkFrom (tree : FileTree) (options : Options) (pattern : Glob) (root : Location) :
    Nat → List String → List Location → List Visit × List Location
  | 0, _, seen => ([], seen)
  | depth + 1, parts, seen =>
      match tree.locate (root ++ parts) with
      | .error _ => ([], seen)
      | .ok location =>
          if options.followLinks && seen.contains location then ([⟨parts, true, false, []⟩], seen)
          else
            let here : Visit :=
              ⟨parts, false, selectsOverlong tree options pattern root parts location,
                selectedFiles tree options pattern root parts location⟩
            let below := (subfolders tree options root parts location).filter fun name =>
              options.followLinks || !isLink tree location name
            below.foldl
              (fun (visits, seen) name =>
                let (more, seen) := walkFrom tree options pattern root depth (parts ++ [name]) seen
                (visits ++ more, seen))
              ([here], location :: seen)

/-- All folders that the walk comes to, in order. No way down is longer than the tree has entries,
with one more for the root and one for a folder that is met again. -/
def walk (tree : FileTree) (options : Options) (pattern : Glob) (root : Location) : List Visit :=
  (walkFrom tree options pattern root (tree.entries.length + 2) [] []).1

def Visit.paths (visit : Visit) : List (List String) :=
  visit.files.map fun name => visit.parts ++ [name]

def sortPaths (paths : List (List String)) : List (List String) :=
  paths.mergeSort fun a b => relativeText a ≤ relativeText b

end LayerLint.Scan
