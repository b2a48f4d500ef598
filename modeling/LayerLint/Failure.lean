import LayerLint.FileTree.Lookup
import LayerLint.Value

/-!
# Failures

What can stop a check or a command. A failure of the program's own has a kind, a headline and
details; its message is the headline with the details in parentheses. The other failures come from
values and files that nobody checked first.
-/

namespace LayerLint

/-- The groups of the program's own failures: those of the settings, which arise before any rule
runs, and those of a running check. -/
inductive Family where
  | configuration
  | analysis
  deriving DecidableEq, Repr

inductive Failure where
  /-- A failure with a free headline, of one of the groups or of none. -/
  | general (family : Option Family) (headline : String) (details : List (String × String))
  | invalidPath (path reason : String)
  | unknownStyle (style : String) (known : List String)
  | invalidSetting (key value reason : String)
  /-- A settings file that does not follow the format. -/
  | malformedSettings (file : String)
  | fileAccess (path reason : String)
  | ruleFailed (rule file reason : String)
  | cancelled (reason : String)
  /-- A style names a rule that does not exist. -/
  | unknownRule (rule : String)
  /-- A value outside its domain, with the complaint. -/
  | badValue (complaint : String)
  /-- A pattern with a set that is reversed or never closed. -/
  | badPattern
  /-- A value of a kind that the operation does not take. -/
  | wrongKind
  /-- A number too large for its type. -/
  | overflow
  /-- Lists, tables or choices that lie too deep inside each other. -/
  | tooDeep
  /-- A file that is not UTF-8. -/
  | notUtf8
  /-- A file that could not be opened, by the name of the condition. -/
  | cannotOpen (condition : String)
  deriving DecidableEq, Repr

namespace Failure

/-- The failure of somebody who has to use a path and cannot. -/
def ofFault : PathFault → Failure
  | .nullCharacter => .badValue PathFault.nullCharacter.text
  | fault => .cannotOpen fault.condition

/-- The failure of a value that is none of those in a fixed list with a name. -/
def noMember (list : String) (v : Value) : Failure :=
  .badValue (v.literal ++ " is not a valid " ++ list)

def kind : Failure → String
  | .general none .. => "LayerGuardError"
  | .general (some .configuration) .. => "ConfigurationError"
  | .general (some .analysis) .. => "AnalysisError"
  | .invalidPath .. => "InvalidPathError"
  | .unknownStyle .. => "UnknownArchitectureError"
  | .invalidSetting .. => "InvalidConfigError"
  | .malformedSettings _ => "InvalidConfigError"
  | .fileAccess .. => "FileAccessError"
  | .ruleFailed .. => "RuleEvaluationError"
  | .cancelled _ => "ValidationCancelledError"
  | .unknownRule _ => "LookupError"
  | .badValue _ => "ValueError"
  | .badPattern => "re.error"
  | .wrongKind => "TypeError"
  | .overflow => "OverflowError"
  | .tooDeep => "RecursionError"
  | .notUtf8 => "UnicodeDecodeError"
  | .cannotOpen condition => condition

def family : Failure → Option Family
  | .general family .. => family
  | .invalidPath .. => some .configuration
  | .unknownStyle .. => some .configuration
  | .invalidSetting .. => some .configuration
  | .malformedSettings _ => some .configuration
  | .fileAccess .. => some .analysis
  | .ruleFailed .. => some .analysis
  | .cancelled _ => some .analysis
  | _ => none

/-- What happened, without the details. -/
def headline : Failure → String
  | .general _ headline _ => headline
  | .invalidPath path _ => "Invalid path: " ++ path
  | .unknownStyle style _ => "Unknown architecture style: " ++ style
  | .invalidSetting key value _ => "Invalid configuration for " ++ key ++ ": " ++ value
  | .malformedSettings file => "Invalid configuration for config_file: " ++ file
  | .fileAccess path _ => "Cannot access file: " ++ path
  | .ruleFailed rule file _ => "Rule " ++ rule ++ " failed on " ++ file
  | .cancelled reason => "Validation cancelled: " ++ reason
  | .unknownRule rule => "Rule table references unknown rule '" ++ rule ++ "'"
  | .badValue complaint => complaint
  | failure => failure.kind

def details : Failure → List (String × String)
  | .general _ _ details => details
  | .invalidPath path reason => [("path", path), ("reason", reason)]
  | .unknownStyle style known => [("style", style), ("known", ", ".intercalate known)]
  | .invalidSetting key value reason => [("key", key), ("value", value), ("reason", reason)]
  | .malformedSettings file => [("key", "config_file"), ("value", file), ("reason", "<toml>")]
  | .fileAccess path reason => [("filepath", path), ("reason", reason)]
  | .ruleFailed rule file reason => [("rule_id", rule), ("filepath", file), ("reason", reason)]
  | .cancelled reason => [("reason", reason)]
  | _ => []

def message (failure : Failure) : String :=
  match failure.details with
  | [] => failure.headline
  | details =>
      failure.headline ++ " ("
        ++ ", ".intercalate (details.map fun (key, value) => key ++ "=" ++ value) ++ ")"

def toValue (failure : Failure) : Value :=
  .dict
    [("error", .str failure.kind), ("message", .str failure.headline),
     ("details", .dict (failure.details.map fun (key, value) => (key, .str value)))]

end Failure

end LayerLint
