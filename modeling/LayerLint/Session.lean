import LayerLint.Journal
import LayerLint.Rule

/-!
# Sessions

A session is all that a check can see and change besides its own arguments: files, environment,
journal, clock and the signal that asks it to stop. A `Run` is a computation in a session. When it
fails, what it did to the session before stays.
-/

namespace LayerLint

/-- A clock in seconds. It moves by `step` each time that it is read. -/
structure Clock where
  now : Float
  step : Float

/-- A request to stop that somebody outside may raise. -/
structure Signal where
  raised : Bool
  /-- After how many more looks it is raised by itself. -/
  patience : Option Nat

namespace Signal

def calm : Signal := ⟨false, none⟩

def poll (signal : Signal) : Bool × Signal :=
  match signal.raised, signal.patience with
  | true, _ => (true, signal)
  | false, none => (false, signal)
  | false, some 0 => (true, signal)
  | false, some (n + 1) => (false, { signal with patience := some n })

end Signal

/-- What a check does that its report does not show. -/
inductive Event where
  /-- A rule was asked about a file with these imports. -/
  | asked (rule : Rule) (file : String) (imports : List String)
  /-- The imports of a file were read from the file. -/
  | read (location : Location)

structure Session where
  tree : FileTree
  /-- The folder that relative paths start from. -/
  folder : Handle
  /-- The folder with the settings of the user. -/
  home : Location
  environment : List (String × String)
  journal : Journal
  /-- The time as log files show it. -/
  stamp : String
  clock : Clock
  signal : Signal
  /-- The events so far, latest first. -/
  events : List Event

abbrev Run := ExceptT Failure (StateM Session)

namespace Session

/-- The folder that relative paths start from, unless it has been removed. -/
def folder? (session : Session) : Option Location :=
  if session.tree.holds session.folder then some session.folder.location else none

def fromRoot (session : Session) (isAbsolute : Bool) (names : List String) :
    Except PathFault (List String) :=
  if isAbsolute then .ok names
  else
    match session.tree.fromRoot? session.folder names with
    | some names => .ok names
    | none => .error (if names.any FileTree.hasNull then .nullCharacter else .missing)

/-- The names of a path from the root of the tree on. -/
def absolute (session : Session) (path : PathName) : Except PathFault (List String) :=
  session.fromRoot path.isAbsolute path.parts

/-- The bytes of the file at the end of a path. The empty path leads to the folder that relative
paths start from, which is a folder even when it has been removed. -/
def contents (session : Session) (path : PathName) : Except PathFault (List UInt8) :=
  if !path.isAbsolute && path.parts.isEmpty then .error .isFolder
  else (session.absolute path).bind session.tree.contents

def take (session : Session) (record : Record) : Session :=
  let (journal, tree) := session.journal.take session.tree session.stamp record
  { session with journal := journal, tree := tree }

/-- Carries out what a rule does to its surroundings. -/
def apply (session : Session) : Rule.Effect → Session
  | .cancel => { session with signal := { session.signal with raised := true } }
  | .wait seconds =>
      { session with clock := { session.clock with now := session.clock.now + seconds } }
  | .edit change => { session with tree := change session.tree }
  | .rewrite _ => session

end Session

namespace Run

def change (f : Session → Session) : Run Unit :=
  modify f

def note (level : Level) (source text : String) : Run Unit :=
  change (·.take ⟨level, source, text⟩)

def remember (event : Event) : Run Unit :=
  change fun session => { session with events := event :: session.events }

def time : Run Float := do
  let clock := (← get).clock
  change fun session => { session with clock := { clock with now := clock.now + clock.step } }
  return clock.now

def poll : Run Bool := do
  let (raised, signal) := (← get).signal.poll
  change fun session => { session with signal := signal }
  return raised

/-- Sets the level of the journal and attaches a log file if one is given. A log file that cannot be
opened is a failure; the level stays set. -/
def configure (verbosity : Journal.Verbosity) (file : Option PathName) : Run Unit := do
  change fun session => { session with journal := session.journal.setLevel verbosity }
  match file with
  | none => return
  | some path =>
      let session ← get
      match session.journal.attach session.tree session.folder path with
      | .error failure => throw failure
      | .ok (journal, tree) =>
          change fun session => { session with journal := journal, tree := tree }

/-- Configures the journal for a verbosity by its name. An unknown one changes nothing. -/
def configureFor (verbosity : String) (file : Option PathName) : Run Unit :=
  match Journal.Verbosity.ofName? verbosity with
  | none => throw (.badValue ("Unknown verbosity '" ++ verbosity ++ "'"))
  | some verbosity => configure verbosity file

/-- A result that was computed without the session. -/
def ofExcept {α : Type} : Except Failure α → Run α
  | .ok a => pure a
  | .error failure => throw failure

end Run

end LayerLint
