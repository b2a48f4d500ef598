import LayerLint.Text.Split

/-!
# Paths as they are written

A path name is a root and the components after it. Empty components and single dots carry no meaning
and are dropped; two dots are kept. Two slashes at the front make a root of their own, three or more
count as one.
-/

namespace LayerLint

structure PathName where
  /-- Empty, one slash or two slashes. -/
  root : String
  parts : List String
  deriving DecidableEq, Repr

namespace PathName

/-- What stands between the slashes of a text, empty pieces included. -/
def pieces (cs : List Char) : List String :=
  (Text.splitOn '/' cs).map String.ofList

/-- The components of a text: what stands between slashes, without empty ones and single dots. -/
def components (cs : List Char) : List String :=
  (pieces cs).filter fun part => part ≠ "" ∧ part ≠ "."

/-- The steps that a text asks for, one after the other: what stands between slashes, and a dot at
the end if the text ends in a slash. Unlike `components` they keep dots, and what stands before a
dot can only be a folder. -/
def steps (cs : List Char) : List String :=
  let names := (pieces cs).filter (· ≠ "")
  if cs.getLast? = some '/' then names ++ ["."] else names

def ofString (s : String) : PathName :=
  let cs := s.toList
  let slashes := (cs.takeWhile (· == '/')).length
  { root := if slashes = 0 then "" else if slashes = 2 then "//" else "/"
    parts := components cs }

/-- The text of a path; the empty path is written as a dot. -/
protected def toString (p : PathName) : String :=
  if p.root = "" ∧ p.parts = [] then "." else p.root ++ "/".intercalate p.parts

def isAbsolute (p : PathName) : Bool := p.root ≠ ""

/-- The path to the folder above. Nothing stands above the root, and what stands above the folder
that a relative path starts from can only be written. -/
def up (p : PathName) : PathName :=
  match p.parts.getLast? with
  | none => if p.isAbsolute then p else { p with parts := [".."] }
  | some last =>
      if last = ".." then { p with parts := p.parts ++ [".."] }
      else { p with parts := p.parts.dropLast }

def down (p : PathName) (name : String) : PathName :=
  { p with parts := p.parts ++ [name] }

/-- A path behind another. An absolute path does not need one before it. -/
def join (p q : PathName) : PathName :=
  if q.isAbsolute then q else { p with parts := p.parts ++ q.parts }

def name (p : PathName) : String := p.parts.getLast?.getD ""

/-- The end of a name from its last dot on. A dot at either end of the name starts no extension. -/
def extensionOf (name : String) : String :=
  let tail := (name.toList.reverse.takeWhile (· != '.')).reverse
  let before := name.toList.take (name.toList.length - tail.length - 1)
  if tail.isEmpty || before.isEmpty || tail.length = name.toList.length then ""
  else String.ofList ('.' :: tail)

/-- The extension of the last component, with its dot. -/
def suffix (p : PathName) : String := extensionOf p.name

/-- The components of `p` below `base`, if it is below it or the same. -/
def relativeTo? (p base : PathName) : Option (List String) :=
  if p.root ≠ base.root then none
  else if base.parts.isPrefixOf p.parts then some (p.parts.drop base.parts.length)
  else none

end PathName

end LayerLint
