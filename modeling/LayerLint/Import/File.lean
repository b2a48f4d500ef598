import LayerLint.Import.Statement
import LayerLint.Session

/-!
# Imports of files
-/

namespace LayerLint.Import

/-- The imports of a text in the language of a path; none if the language is not known. -/
def importsIn (text : List Char) (path : PathName) : List String :=
  match Language.ofPath? path with
  | none => []
  | some language => imports language (String.ofList text)

inductive Extraction where
  /-- The extension of the file belongs to no language. -/
  | noLanguage
  /-- The file is larger than the limit, and was not read. -/
  | tooLarge (size : Nat)
  | found (imports : List String)
  | unreadable (reason : String)
  /-- The path is none that a file could have. -/
  | impossible
  deriving DecidableEq, Repr

def exceeds (size : Nat) : Option Int → Bool
  | none => false
  | some limit => limit < size

/-- A file that could not be asked for its size or its text, as `attempt` says. -/
def Extraction.ofFault (attempt : String) (given : PathName) : PathFault → Extraction
  | .nullCharacter => .impossible
  | fault => .unreadable (attempt ++ ": " ++ fault.complaint given.toString)

/-- Looks for the imports of the file at the end of a path, if there is a way to it. With a limit,
the size is asked for first. -/
def inspect (tree : FileTree) (limit : Option Int) (given : PathName)
    (path : Except PathFault (List String)) : Extraction :=
  match Language.ofPath? given with
  | none => .noLanguage
  | some language =>
      let read : Extraction :=
        match path.bind tree.contents with
        | .error fault => .ofFault "Cannot read file" given fault
        | .ok bytes =>
            .found (imports language (String.ofList (Text.unifyBreaks (Text.decodeLossy bytes))))
      match limit with
      | none => read
      | some _ =>
          match path.bind tree.size with
          | .error fault => .ofFault "Cannot stat file" given fault
          | .ok size => if exceeds size limit then .tooLarge size else read

def Extraction.imports : Extraction → List String
  | .found imports => imports
  | _ => []

def source : String := "layerguard.scanning.extractor"

/-- The imports of a file. A file that cannot be read is a failure. -/
def ofFile (limit : Option Int) (given : PathName) : Run (List String) := do
  let session ← get
  match inspect session.tree limit given (session.absolute given) with
  | .noLanguage =>
      let extension := if given.suffix = "" then "<no extension>" else given.suffix
      Run.note .debug source ("No extractor for " ++ extension ++ ": " ++ given.toString)
      return []
  | .tooLarge size =>
      Run.note .debug source
        ("Skipped (size): " ++ given.toString ++ " (" ++ toString size ++ " bytes)")
      return []
  | .unreadable reason => throw (.fileAccess given.toString reason)
  | .impossible => throw (.ofFault .nullCharacter)
  | .found imports => return imports

end LayerLint.Import
