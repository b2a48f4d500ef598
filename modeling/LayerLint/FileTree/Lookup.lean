import LayerLint.FileTree.Basic
import LayerLint.Text.Quoted

/-!
# Finding entries by path

`locate` follows a path to the location it leads to, through links, and fails as an operating system
does. `realPath` removes the links from a path even where it leads nowhere, and stops at a loop.
-/

namespace LayerLint

inductive PathFault where
  | missing
  | notFolder
  | isFolder
  /-- A name, or the whole path, that is longer than any can be. -/
  | nameTooLong
  /-- More links than are followed. -/
  | tooManyLinks
  /-- A character that no name can have. -/
  | nullCharacter
  deriving DecidableEq, Repr

namespace PathFault

def text : PathFault → String
  | .missing => "[Errno 2] No such file or directory"
  | .notFolder => "[Errno 20] Not a directory"
  | .isFolder => "[Errno 21] Is a directory"
  | .nameTooLong => "[Errno 36] File name too long"
  | .tooManyLinks => "[Errno 40] Too many levels of symbolic links"
  | .nullCharacter => "embedded null byte"

def condition : PathFault → String
  | .missing => "FileNotFoundError"
  | .notFolder => "NotADirectoryError"
  | .isFolder => "IsADirectoryError"
  | .nameTooLong => "OSError"
  | .tooManyLinks => "OSError"
  | .nullCharacter => "ValueError"

/-- The complaint about a path, as the path was written. -/
def complaint (fault : PathFault) (path : String) : String :=
  fault.text ++ ": " ++ Text.quoted path

/-- Whether a search found something. Nothing is there if it failed, but a name that is too long is
a fault even for somebody who only asks. -/
def presence {α : Type} : Except PathFault α → Except PathFault Bool
  | .ok _ => .ok true
  | .error .nameTooLong => .error .nameTooLong
  | .error _ => .ok false

end PathFault

namespace FileTree

/-- How many links are followed on the way to one location. -/
def maxLinks : Nat := 40

def maxNameBytes : Nat := 255

def maxPathBytes : Nat := 4095

def linkStart (folder : Location) (target : String) : Location :=
  if target.toList.head? = some '/' then [] else folder

/-- Follows names from a location, with `links` links left to follow. A dot leads nowhere, but only
a folder can stand before it. -/
def locateFrom (tree : FileTree) (links : Nat) (here : Location) :
    List String → Except PathFault Location
  | [] => .ok here
  | name :: rest =>
      if name = "." then locateFrom tree links here rest
      else if name = ".." then locateFrom tree links here.dropLast rest
      else if maxNameBytes < name.utf8ByteSize then .error .nameTooLong
      else
        match tree.get? (here ++ [name]) with
        | none => .error .missing
        | some .folder => locateFrom tree links (here ++ [name]) rest
        | some (.file _) => if rest = [] then .ok (here ++ [name]) else .error .notFolder
        | some (.link target) =>
            match links with
            | 0 => .error .tooManyLinks
            | links + 1 =>
                locateFrom tree links (linkStart here target)
                  (PathName.steps target.toList ++ rest)
termination_by names => (links, names.length)

def locate (tree : FileTree) (path : List String) : Except PathFault Location :=
  locateFrom tree maxLinks [] path

/-- Whether a name has a character that none can have. -/
def hasNull (name : String) : Bool :=
  name.toList.contains '\x00'

def status (tree : FileTree) (path : List String) : Except PathFault Entry :=
  if path.any hasNull then .error .nullCharacter
  else if maxPathBytes < (Location.text path).utf8ByteSize then .error .nameTooLong
  else
    match tree.locate path with
    | .error fault => .error fault
    | .ok location =>
        match tree.get? location with
        | some entry => .ok entry
        | none => .error .missing

def isFile (tree : FileTree) (path : List String) : Bool :=
  match tree.status path with
  | .ok (.file _) => true
  | _ => false

def isFolder (tree : FileTree) (path : List String) : Bool :=
  match tree.status path with
  | .ok .folder => true
  | _ => false

def contents (tree : FileTree) (path : List String) : Except PathFault (List UInt8) :=
  match tree.status path with
  | .ok (.file bytes) => .ok bytes
  | .ok .folder => .error .isFolder
  | .ok (.link _) => .error .tooManyLinks
  | .error fault => .error fault

/-- The size that a folder is shown with. -/
def folderSize : Nat := 4096

/-- The size of what stands at the end of a path, in bytes. -/
def size (tree : FileTree) (path : List String) : Except PathFault Nat :=
  match tree.status path with
  | .ok (.file bytes) => .ok bytes.length
  | .ok _ => .ok folderSize
  | .error fault => .error fault

/-! ## Paths without links -/

/-- The way from the root on that relative names stand for, from a folder that somebody holds. In a
folder that has been removed there is nothing but the way up. -/
def fromRoot? (tree : FileTree) (folder : Handle) (names : List String) : Option (List String) :=
  if tree.holds folder then some (folder.location ++ names)
  else
    match names with
    | ".." :: rest => some (folder.location.dropLast ++ rest)
    | _ => none

/-- The location at the end of a way from the root on, without a look at the tree. -/
def straighten (names : List String) : Location :=
  (names.foldl (fun done name => if name = ".." then done.tail else name :: done) []).reverse

def entryAt? (tree : FileTree) (folder : Handle) (path : PathName) : Option Entry :=
  if path.isAbsolute then tree.get? (straighten path.parts)
  else (tree.fromRoot? folder path.parts).bind fun names => tree.get? (straighten names)

/-- Where the target of a link starts, if the link stands in the folder at the end of a path. -/
def targetStart (path : PathName) (target : String) : PathName :=
  if target.toList.head? = some '/' then ⟨"/", []⟩ else path

/-- The links met on the way, with the path that each one stands for once that is known. -/
abbrev Resolved := List (PathName × Option PathName)

/-- What removing links gives: the path, whether it is free of loops, and the links met. -/
structure RealPath where
  path : PathName
  settled : Bool
  met : Resolved

/-- A path with the pieces of another behind it, as they are. -/
def withRest (path : PathName) (pieces : List String) : PathName :=
  path.join (.ofString ("/".intercalate pieces))

/-- Removes the links from the pieces of a path behind another, where `depth` links may be nested. A
name that leads nowhere is kept. At a link that is still being followed the rest of the path is kept
as it is. Links are told apart by the paths that lead to them. -/
def realPathFrom (tree : FileTree) (folder : Handle) (depth : Nat) (path : PathName)
    (met : Resolved) : List String → RealPath
  | [] => ⟨path, true, met⟩
  | name :: rest =>
      if name = "" ∨ name = "." then realPathFrom tree folder depth path met rest
      else if name = ".." then realPathFrom tree folder depth path.up met rest
      else
        let next := path.down name
        match tree.entryAt? folder next with
        | some (.link target) =>
            match met.lookup next with
            | some (some known) => realPathFrom tree folder depth known met rest
            | some none => ⟨withRest next rest, false, met⟩
            | none =>
                match depth with
                | 0 => ⟨withRest next rest, false, met⟩
                | depth + 1 =>
                    let inner :=
                      realPathFrom tree folder depth (targetStart path target) ((next, none) :: met)
                        (PathName.pieces target.toList)
                    if inner.settled then
                      realPathFrom tree folder (depth + 1) inner.path
                        ((next, some inner.path) :: inner.met) rest
                    else { inner with path := withRest inner.path rest }
        | _ => realPathFrom tree folder depth next met rest
termination_by names => (depth, names.length)

/-- A path without links and single dots, from the same start or from the root. Links that are
nested deeper than a relative path and one from the root to every link count as a loop. -/
def realPath (tree : FileTree) (folder : Handle) (path : PathName) : PathName :=
  let start : PathName := ⟨if path.isAbsolute then "/" else "", []⟩
  (realPathFrom tree folder (2 * tree.linkCount) start [] path.parts).path

/-- The absolute path without links and dots that somebody means by a path. The folder that relative
paths start from may be gone: then a link has to lead back to the root. -/
def resolve (tree : FileTree) (folder : Handle) (path : PathName) : Except PathFault PathName :=
  if path.parts.any hasNull then .error .nullCharacter
  else
    let real := tree.realPath folder path
    if real.isAbsolute then .ok { real with parts := straighten real.parts }
    else if tree.holds folder then .ok ⟨"/", straighten (folder.location ++ real.parts)⟩
    else .error .missing

end FileTree

end LayerLint
