import LayerLint.FileTree.Lookup

/-!
# Changing file trees
-/

namespace LayerLint.FileTree

/-- Follows names from a location and makes the folders that are missing, with `links` links left to
follow. Nothing if a file is in the way. -/
def makeFoldersFrom (tree : FileTree) (links : Nat) (here : Location) :
    List String → Option (FileTree × Location)
  | [] => some (tree, here)
  | name :: rest =>
      if name = "." then makeFoldersFrom tree links here rest
      else if name = ".." then makeFoldersFrom tree links here.dropLast rest
      else
        match tree.get? (here ++ [name]) with
        | none => makeFoldersFrom (tree.set (here ++ [name]) .folder) links (here ++ [name]) rest
        | some .folder => makeFoldersFrom tree links (here ++ [name]) rest
        | some (.file _) => none
        | some (.link target) =>
            match links with
            | 0 => none
            | links + 1 =>
                makeFoldersFrom tree links (linkStart here target)
                  (PathName.steps target.toList ++ rest)
termination_by names => (links, names.length)

def makeFolder (tree : FileTree) (path : List String) : FileTree :=
  ((makeFoldersFrom tree maxLinks [] path).map (·.1)).getD tree

/-- Puts an entry at a path and makes the folders on the way to it. -/
def place (tree : FileTree) (path : List String) (entry : Entry) : FileTree :=
  match path.getLast?, makeFoldersFrom tree maxLinks [] path.dropLast with
  | some name, some (tree, folder) => tree.set (folder ++ [name]) entry
  | _, _ => tree

/-- Puts a link at a path, in place of what is there. -/
def placeLink (tree : FileTree) (path : List String) (target : String) : FileTree :=
  match path.getLast?, makeFoldersFrom tree maxLinks [] path.dropLast with
  | some name, some (tree, folder) =>
      (tree.erase (folder ++ [name])).set (folder ++ [name]) (.link target)
  | _, _ => tree

/-- Writes a file, through links if the path ends in one. -/
def write (tree : FileTree) (path : List String) (bytes : List UInt8) : FileTree :=
  tree.place (straighten (tree.realPath (tree.hold []) ⟨"/", path⟩).parts) (.file bytes)

/-- Removes what stands at a path, and everything below it; a link is removed and not followed. -/
def remove (tree : FileTree) (path : List String) : FileTree :=
  match path.getLast?, tree.locate path.dropLast with
  | some name, .ok folder => tree.erase (folder ++ [name])
  | _, _ => tree

/-- Adds bytes at the end of a file that is held open. What a removed file takes nobody sees. -/
def append (tree : FileTree) (handle : Handle) (bytes : List UInt8) : FileTree :=
  if tree.holds handle then
    match tree.get? handle.location with
    | some (.file old) => tree.set handle.location (.file (old ++ bytes))
    | _ => tree
  else tree

/-- Opens a file for adding to it: the tree with the file in it, empty if it is new. Nothing is made
behind a link that leads nowhere. -/
def openForAppend (tree : FileTree) (path : List String) : Except PathFault FileTree :=
  match tree.status path with
  | .ok (.file _) => .ok tree
  | .ok _ => .error .isFolder
  | .error .missing =>
      match path.getLast?, tree.locate path.dropLast with
      | some name, .ok folder =>
          match tree.get? folder, tree.get? (folder ++ [name]) with
          | some .folder, none => .ok (tree.set (folder ++ [name]) (.file []))
          | some .folder, some _ => .error .missing
          | _, _ => .error .notFolder
      | _, .error fault => .error fault
      | none, .ok _ => .error .isFolder
  | .error fault => .error fault

end LayerLint.FileTree
