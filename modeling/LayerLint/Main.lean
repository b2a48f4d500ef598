import LayerLint.Command

/-!
# The program

The program reads the files that a command needs into a file tree, runs the command, and prints its
output, with the records of the journal on the error stream.
-/

namespace LayerLint.Program

def locationOf (path : String) : Location := PathName.components path.toList

/-- Reads the file or folder at a path into a tree. What cannot be read is left out; a link is read
as a link to where it leads. -/
partial def readInto (tree : FileTree) (path : String) : IO FileTree := do
  let location := locationOf path
  let given ← try some <$> IO.FS.realPath path catch _ => pure none
  match given with
  | none => return tree
  | some real =>
      if real.toString ≠ path then
        return tree.placeLink location real.toString
      if ← real.isDir then
        let mut tree := tree.makeFolder location
        let entries ← try real.readDir catch _ => pure #[]
        for entry in entries do
          tree ← readInto tree (entry.path).toString
        return tree
      try
        let bytes ← IO.FS.readBinFile real
        return tree.place location (.file bytes.data.toList)
      catch _ => return tree

/-- Reads what a path leads to, and the path itself if it passes through links. -/
def readPath (tree : FileTree) (path : String) : IO FileTree := do
  let given ← try some <$> IO.FS.realPath path catch _ => pure none
  match given with
  | none => return tree
  | some real =>
      let tree ← readInto tree real.toString
      if real.toString = path || (locationOf path).contains ".." then return tree
      readInto tree path

def pathsOf (session : Session) : Command → List Location
  | .lint options =>
      let folder := session.folder.location
      let absolute (path : PathName) := if path.isAbsolute then path.parts else folder ++ path.parts
      [session.home ++ [Settings.homeFileName], folder ++ [Settings.folderFileName]]
        ++ (options.config.map fun path => absolute (.ofString path)).toList
        ++ [absolute options.path]
  | _ => []

/-- The variables of the environment that settings are read from. -/
def readEnvironment : IO (List (String × String)) := do
  let mut found := []
  for setting in Setting.all do
    let name := Settings.variableName setting
    if let some value ← IO.getEnv name then
      found := found ++ [(name, value)]
  return found

/-- The session in which the program starts, without files. -/
def startSession : IO Session := do
  let folder ← IO.currentDir
  let home ← IO.getEnv "HOME"
  let now ← IO.monoMsNow
  return {
    tree := FileTree.empty.makeFolder (locationOf folder.toString)
    folder := ⟨locationOf folder.toString, 0⟩
    home := locationOf (home.getD "/")
    environment := ← readEnvironment
    journal := {}
    stamp := ""
    clock := ⟨now.toFloat / 1000.0, 0.0⟩
    signal := .calm
    events := [] }

def run (arguments : List String) : IO UInt32 := do
  let mut session ← startSession
  if let some command := Command.ofArguments? arguments then
    for path in pathsOf session command do
      let tree ← readPath session.tree (Location.text path)
      session := { session with tree := tree }
  let (outcome, finished) := Command.runArguments arguments session
  IO.print outcome.output
  for record in finished.journal.kept.reverse do
    IO.eprintln (record.level.name ++ " " ++ record.source ++ ": " ++ record.text)
  if let .stopped failure := outcome then
    IO.eprintln (failure.kind ++ ": " ++ failure.message)
  return UInt32.ofNat outcome.exitCode

end LayerLint.Program

def main (arguments : List String) : IO UInt32 :=
  LayerLint.Program.run arguments
