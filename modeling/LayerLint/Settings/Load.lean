import LayerLint.Session
import LayerLint.Settings
import LayerLint.Toml.Reader

/-!
# Where settings come from

Later sources win over earlier ones: the file in the home folder, the file in the current folder, a
file that is named, the environment, and last the options of the caller.
-/

namespace LayerLint.Settings

/-! ## Files -/

def homeFileName : String := ".layerguard.toml"

def folderFileName : String := "layerguard.toml"

/-- The table of a file that may hold other things as well. -/
def sectionName : String := "layerguard"

/-- The complaint about an integer with too many digits. -/
def tooManyDigits (digits : Nat) : String :=
  "Exceeds the limit (" ++ toString Decimal.maxDigits
    ++ " digits) for integer string conversion: value has " ++ toString digits
    ++ " digits; use sys.set_int_max_str_digits() to increase the limit"

/-- The settings in the bytes of a file, which is shown as `shown`. -/
def parse (shown : String) (bytes : List UInt8) : Except Failure Table :=
  match Text.decode? bytes with
  | none => .error .notUtf8
  | some text =>
      match Toml.read text with
      | .error .malformed => .error (.malformedSettings shown)
      | .error (.tooManyDigits digits) => .error (.badValue (tooManyDigits digits))
      | .error .tooDeep => .error .tooDeep
      | .ok table =>
          match table.lookup sectionName with
          | some (.dict inner) => .ok inner
          | _ => .ok table

/-- The settings in the file at the end of a path, which is shown as `shown`. -/
def readFrom (tree : FileTree) (shown : String) (path : Except PathFault (List String)) :
    Except Failure Table :=
  match path.bind tree.contents with
  | .error fault => .error (.invalidSetting "config_file" shown (fault.complaint shown))
  | .ok bytes => parse shown bytes

def readIfPresent (tree : FileTree) (location : Location) : Except Failure Table :=
  match PathFault.presence (tree.status location) with
  | .error fault => .error (.ofFault fault)
  | .ok false => .ok []
  | .ok true => readFrom tree (Location.text location) (.ok location)

/-- The settings in a file that has to exist, at the end of a path if there is a way to it. -/
def readNamed (tree : FileTree) (shown : String) (path : Except PathFault (List String)) :
    Except Failure Table :=
  match PathFault.presence (path.bind tree.status) with
  | .error fault => .error (.ofFault fault)
  | .ok false => .error (.invalidSetting "config_file" shown "file not found")
  | .ok true => readFrom tree shown path

/-! ## The environment -/

def variableName (setting : Setting) : String :=
  "LAYERGUARD_" ++ String.ofList (setting.name.toList.map Char.toUpper)

/-- A text with quotes, cut where a message would become too long. -/
def shortQuoted (s : String) : String :=
  String.ofList ((Text.quoted s).toList.take 200)

def readTruth (s : String) : Except String Bool :=
  let folded := String.ofList (Text.lower s.toList)
  if ["true", "1", "yes", "on"].contains folded then .ok true
  else if ["false", "0", "no", "off"].contains folded then .ok false
  else .error ("expected true/false, got '" ++ s ++ "'")

def readInt (s : String) : Except String Int :=
  match Decimal.readInt? s.toList with
  | .ok n => .ok n
  | .error (.tooLong digits) => .error (tooManyDigits digits)
  | .error .malformed =>
      .error ("invalid literal for int() with base 10: " ++ shortQuoted s)

def readFloat (s : String) : Except String Float :=
  match Decimal.readFloat? s.toList with
  | some x => .ok x
  | none => .error ("could not convert string to float: " ++ Text.quoted s)

/-- The value that a variable gives a setting. Patterns are not set this way. -/
def readVariable (setting : Setting) (s : String) : Except String (Option Value) :=
  match setting with
  | .workers => (readInt s).map fun n => some (.int n)
  | .timeout => (readFloat s).map fun x => some (.float x)
  | .maxFileSize => (readFloat s).map fun x => some (.float x)
  | .followLinks => (readTruth s).map fun b => some (.bool b)
  | .allowHidden => (readTruth s).map fun b => some (.bool b)
  | .verbosity => .ok (some (.str s))
  | .excludes => .ok none

/-- The values that the environment gives to settings, in the order of the settings. -/
def ofEnvironment (environment : List (String × String)) : List Setting → Except Failure Table
  | [] => .ok []
  | setting :: rest =>
      match environment.lookup (variableName setting) with
      | none => ofEnvironment environment rest
      | some s =>
          match readVariable setting s with
          | .error reason => .error (.invalidSetting (variableName setting) s reason)
          | .ok v =>
              match ofEnvironment environment rest with
              | .error failure => .error failure
              | .ok table => .ok ((v.map fun v => (setting.name, v)).toList ++ table)

/-! ## Options -/

/-- The name under which a settings file is given, which is not an option. -/
def fileOption : String := "config_file"

def isGiven (options : Table) (name : String) : Bool :=
  ((options.lookup name).map Value.isTrue).getD false

/-- The settings that options stand for. Options without a value are ignored. Two of them are not
settings but stand for a verbosity; the quieter one wins. -/
def ofOptions (options : Table) : Table :=
  let given := options.filter fun (_, v) => match v with
    | .null => false
    | _ => true
  let settings : Table := given.filter fun (name, _) => name ≠ "verbose" ∧ name ≠ "quiet"
  let louder :=
    if isGiven given "verbose" then settings.set "verbosity" (.str "verbose") else settings
  if isGiven given "quiet" then louder.set "verbosity" (.str "quiet") else louder

/-! ## All together -/

/-- The least name in a table that is no setting. -/
def strayName? (table : Table) : Option String :=
  (((table.map (·.1)).filter fun name => (Setting.ofName? name).isNone).mergeSort (· ≤ ·)).head?

def merge (sources : List Table) : Table :=
  sources.foldl Table.update []

/-- Settings from sources, later ones on top. -/
def ofSources (sources : List Table) : Except Failure Settings :=
  let merged := merge sources
  match strayName? merged with
  | some name =>
      .error (invalid name ((merged.lookup name).getD .null) "unknown configuration key")
  | none => make merged

/-- The settings in the current folder, which must not have been removed. -/
def readFolder (session : Session) : Except Failure Table :=
  match session.folder? with
  | none => .error (.ofFault .missing)
  | some folder => readIfPresent session.tree (folder ++ [folderFileName])

/-- The settings for a session, with a file that may be named and with options. The file is not
named by an option. -/
def load (session : Session) (file : Option PathName) (options : Table) :
    Except Failure Settings := do
  if (options.lookup fileOption).isSome then throw .wrongKind
  let home ← readIfPresent session.tree (session.home ++ [homeFileName])
  let folder ← readFolder session
  let named ← match file with
    | none => .ok []
    | some path => readNamed session.tree path.toString (session.absolute path)
  let environment ← ofEnvironment session.environment Setting.all
  ofSources [home, folder, named, environment, ofOptions options]

end LayerLint.Settings
