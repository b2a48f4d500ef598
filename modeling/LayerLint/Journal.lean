import LayerLint.Failure
import LayerLint.FileTree.Edit
import LayerLint.Text.Utf8

/-!
# The journal

Messages about a running check go to the journal. A record is kept if its level is at least the
level of the journal, and is then written to every log file that is attached. A log file is known by
its path without links, so that it is attached once however it is spelled, and it stays open when it
is removed. Records also go to the terminal once one has been attached to the shared root, which
happens at the first configuration only.
-/

namespace LayerLint

/-- Levels are numbers; these are the usual ones. -/
abbrev Level := Nat

namespace Level

def debug : Level := 10

def info : Level := 20

def warning : Level := 30

def error : Level := 40

def critical : Level := 50

def name (level : Level) : String :=
  if level = 10 then "DEBUG"
  else if level = 20 then "INFO"
  else if level = 30 then "WARNING"
  else if level = 40 then "ERROR"
  else if level = 50 then "CRITICAL"
  else "Level " ++ toString level

end Level

structure Record where
  level : Level
  source : String
  text : String
  deriving DecidableEq, Repr

structure LogFile extends Handle where
  /-- The path without links that it was asked for by. -/
  path : PathName
  deriving DecidableEq, Repr

structure Journal where
  /-- The least level that is kept; zero leaves the decision to the root. -/
  level : Level := 0
  rootLevel : Level := .warning
  /-- How many times the terminal has been attached to the root. -/
  terminals : Nat := 0
  /-- The log files, in the order in which they were attached. -/
  files : List LogFile := []
  /-- The records kept, latest first. -/
  kept : List Record := []
  deriving Repr

namespace Journal

inductive Verbosity where
  | quiet
  | normal
  | verbose
  deriving DecidableEq, Repr

def Verbosity.ofName? : String → Option Verbosity
  | "quiet" => some .quiet
  | "normal" => some .normal
  | "verbose" => some .verbose
  | _ => none

def Verbosity.level : Verbosity → Level
  | .quiet => .error
  | .normal => .warning
  | .verbose => .debug

/-- Quiet wins over verbose. -/
def Verbosity.ofFlags (verbose quiet : Bool) : Verbosity :=
  if quiet then .quiet else if verbose then .verbose else .normal

def rootName : String := "layerguard"

def sourceName (name : String) : String :=
  if name = "" ∨ name = rootName then rootName
  else if (rootName ++ ".").toList.isPrefixOf name.toList then name
  else rootName ++ "." ++ name

def threshold (journal : Journal) : Level :=
  if journal.level = 0 then journal.rootLevel else journal.level

/-- A name filled up with blanks to seven characters. -/
def paddedLevel (level : Level) : String :=
  let name := level.name.toList
  String.ofList (name ++ List.replicate (7 - name.length) ' ')

/-- A record as a line of a log file, after a time stamp. -/
def line (stamp : String) (record : Record) : String :=
  stamp ++ " " ++ paddedLevel record.level ++ " " ++ record.source ++ ": " ++ record.text ++ "\n"

/-- Takes a record: nothing changes if its level is too low. -/
def take (journal : Journal) (tree : FileTree) (stamp : String) (record : Record) :
    Journal × FileTree :=
  if record.level < journal.threshold then (journal, tree)
  else
    let bytes := Text.encode (line stamp record).toList
    ({ journal with kept := record :: journal.kept },
      journal.files.foldl (fun tree file => tree.append file.toHandle bytes) tree)

/-- The journal with the level that a configuration asks for. The terminal is attached to a root that
has none. -/
def setLevel (journal : Journal) (verbosity : Verbosity) : Journal :=
  { journal with
    level := verbosity.level
    rootLevel := if journal.terminals = 0 then verbosity.level else journal.rootLevel
    terminals := if journal.terminals = 0 then 1 else journal.terminals }

def locations (journal : Journal) : List Location :=
  journal.files.map (·.location)

/-- Attaches a log file, which is made if it does not exist. A relative path starts in `folder`. -/
def attach (journal : Journal) (tree : FileTree) (folder : Handle) (path : PathName) :
    Except Failure (Journal × FileTree) :=
  match tree.resolve folder path with
  | .error fault => .error (.ofFault fault)
  | .ok target =>
      match tree.status target.parts with
      | .error .tooManyLinks => .error (.cannotOpen "RuntimeError")
      | _ =>
          if journal.files.any (·.path = target) then .ok (journal, tree)
          else
            match tree.openForAppend target.parts with
            | .error fault => .error (.ofFault fault)
            | .ok tree =>
                let file : LogFile := ⟨tree.hold target.parts, target⟩
                .ok ({ journal with files := journal.files ++ [file] }, tree)

end Journal

end LayerLint
