import LayerLint.Failure

/-!
# Settings of a check

Settings come from files, from the environment and from options, and a value is used as it was
written. What is checked is what a check relies on: at least one worker, no negative time, a
positive size, a known verbosity and a list of patterns.
-/

namespace LayerLint

inductive Setting where
  | workers
  | timeout
  | followLinks
  | allowHidden
  | excludes
  | maxFileSize
  | verbosity
  deriving DecidableEq, Repr

namespace Setting

def all : List Setting :=
  [.workers, .timeout, .followLinks, .allowHidden, .excludes, .maxFileSize, .verbosity]

def name : Setting → String
  | .workers => "workers"
  | .timeout => "timeout_seconds"
  | .followLinks => "follow_symlinks"
  | .allowHidden => "allow_hidden_files"
  | .excludes => "exclude_patterns"
  | .maxFileSize => "max_file_size_mb"
  | .verbosity => "verbosity"

def ofName? (name : String) : Option Setting :=
  all.find? (·.name = name)

/-- The value of a setting that nobody gives. -/
def default : Setting → Value
  | .workers => .int 1
  | .timeout => .int 0
  | .followLinks => .bool false
  | .allowHidden => .bool false
  | .excludes => .list []
  | .maxFileSize => .float 10.0
  | .verbosity => .str "normal"

end Setting

structure Settings where
  /-- How many files are evaluated at a time. -/
  workers : Value
  /-- After how many seconds a check is given up; never if it is zero. -/
  timeout : Value
  followLinks : Value
  allowHidden : Value
  excludes : Value
  /-- Larger files are not read; in units of 1024 · 1024 bytes. -/
  maxFileSize : Value
  verbosity : Value
  deriving Inhabited

namespace Settings

def get (settings : Settings) : Setting → Value
  | .workers => settings.workers
  | .timeout => settings.timeout
  | .followLinks => settings.followLinks
  | .allowHidden => settings.allowHidden
  | .excludes => settings.excludes
  | .maxFileSize => settings.maxFileSize
  | .verbosity => settings.verbosity

/-- The settings in a table, with the usual values for the others. -/
def ofTable (table : Table) : Settings :=
  let value (s : Setting) := (table.lookup s.name).getD s.default
  { workers := value .workers
    timeout := value .timeout
    followLinks := value .followLinks
    allowHidden := value .allowHidden
    excludes := value .excludes
    maxFileSize := value .maxFileSize
    verbosity := value .verbosity }

def standard : Settings := ofTable []

/-! ## What is checked -/

def verbosities : List String := ["quiet", "normal", "verbose"]

/-- How deep lists and tables may lie inside each other in a value that a message shows. -/
def maxShownDepth : Nat := 988

/-- The complaint about an integer with too many digits to be shown. -/
def tooLongToShow : String :=
  "Exceeds the limit (" ++ toString Decimal.maxDigits
    ++ " digits) for integer string conversion; "
    ++ "use sys.set_int_max_str_digits() to increase the limit"

/-- A value as messages show it, if it can be shown. -/
def shown (v : Value) : Except Failure String :=
  if maxShownDepth < v.depth then .error .tooDeep
  else if v.isWritable then .ok v.text
  else .error (.badValue tooLongToShow)

/-- The failure about a value under a name. If the value cannot be shown, that is the failure. -/
def invalid (name : String) (v : Value) (reason : String) : Failure :=
  match shown v with
  | .ok text => .invalidSetting name text reason
  | .error failure => failure

/-- A failure about a setting with its value. -/
def refuse (setting : Setting) (v : Value) (reason : String) : Except Failure Unit :=
  .error (invalid setting.name v reason)

/-- A number has to pass a test; anything else has the wrong kind. -/
def demand (setting : Setting) (v : Value) (fails : Value.Number → Bool) (reason : String) :
    Except Failure Unit :=
  match v.number? with
  | none => .error .wrongKind
  | some n => if fails n then refuse setting v reason else .ok ()

def checkVerbosity (v : Value) : Except Failure Unit :=
  let known := match v with
    | .str s => verbosities.contains s
    | _ => false
  if known then .ok ()
  else refuse .verbosity v ("expected one of " ++ ", ".intercalate verbosities)

def checkExcludes (v : Value) : Except Failure Unit :=
  match v with
  | .list _ => .ok ()
  | _ => refuse .excludes v "must be a list of glob patterns"

/-- Checks settings, one after the other. -/
def check (settings : Settings) : Except Failure Unit := do
  demand .workers settings.workers (·.below 1) "must be at least 1"
  demand .timeout settings.timeout (·.below 0) "must be non-negative"
  demand .maxFileSize settings.maxFileSize (·.atMost 0) "must be positive"
  checkVerbosity settings.verbosity
  checkExcludes settings.excludes

/-- Settings from a table, checked. -/
def make (table : Table) : Except Failure Settings := do
  let settings := ofTable table
  settings.check
  return settings

/-- Settings from a table with no other names in it, checked. -/
def ofFields (table : Table) : Except Failure Settings :=
  if table.all fun (name, _) => (Setting.ofName? name).isSome then make table
  else .error .wrongKind

/-! ## What follows from settings -/

def parallel (settings : Settings) : Bool :=
  match settings.workers.number? with
  | some n => n.above 1
  | none => false

/-- The largest size of a file that is read, in bytes. -/
def maxBytes (settings : Settings) : Except Failure Int :=
  match settings.maxFileSize.number? with
  | none => .error .wrongKind
  | some (.exact n) => .ok (n * 1024 * 1024)
  | some (.floating x) =>
      let bytes := x * 1024 * 1024
      if bytes.isNaN then .error (.badValue "cannot convert float NaN to integer")
      else
        match Decimal.Binary.ofFloat? bytes with
        | some b => .ok b.truncate
        | none => .error .overflow

def excludePatterns (settings : Settings) : List Value :=
  match settings.excludes with
  | .list items => items
  | _ => []

end Settings

end LayerLint
