import LayerLint.Check
import LayerLint.Command.Arguments
import LayerLint.Command.StyleTable

/-!
# The command line

Three commands: one checks a project, one lists the styles, and one lists the rules of a style.
Arguments that are not understood end with code 2 and without output.
-/

namespace LayerLint

structure Command.LintOptions where
  path : PathName
  style : String
  json : Bool
  workers : Option Int
  timeout : Option Float
  config : Option String
  verbose : Bool
  quiet : Bool

inductive Command where
  | help
  | version
  | lint (options : Command.LintOptions)
  /-- The styles, all or those for a stack. -/
  | styles (profile : Option String)
  | rules (style : String)

namespace Command

/-! ## From arguments to commands -/

def helpForm : OptionForm := ⟨"help", ["--help"], false⟩

def programForms : List OptionForm := [⟨"version", ["--version"], false⟩, helpForm]

def lintForms : List OptionForm :=
  [⟨"architecture", ["--architecture", "-a"], true⟩, ⟨"json", ["--json"], false⟩,
   ⟨"workers", ["-w", "--workers"], true⟩, ⟨"timeout", ["--timeout"], true⟩,
   ⟨"config", ["-c", "--config"], true⟩, ⟨"verbose", ["--verbose", "-v"], false⟩,
   ⟨"quiet", ["--quiet", "-q"], false⟩, helpForm]

def stylesForms : List OptionForm := [⟨"profile", ["--profile", "-p"], true⟩, helpForm]

def rulesForms : List OptionForm := [helpForm]

/-- A number of workers: an integer from 1 to 64. -/
def workers? (s : String) : Option Int :=
  match Decimal.readInt? s.toList with
  | .ok n => if 1 ≤ n ∧ n ≤ 64 then some n else none
  | .error _ => none

/-- A time in seconds, which is not negative. -/
def timeout? (s : String) : Option Float :=
  (Decimal.readFloat? s.toList).bind fun x => if x < 0.0 then none else some x

/-- The value of an option that may be missing, and that has to be understood if it is there. -/
def optionValue? {α : Type} (arguments : Arguments) (key : String) (read : String → Option α) :
    Option (Option α) :=
  match arguments.value? key with
  | none => some none
  | some s => (read s).map some

def lintOfArguments? (arguments : Arguments) : Option Command := do
  let workers ← optionValue? arguments "workers" workers?
  let timeout ← optionValue? arguments "timeout" timeout?
  let style ← arguments.value? "architecture"
  let path ← match arguments.positional with
    | [] => some "."
    | [path] => some path
    | _ => none
  return .lint
    { path := .ofString path
      style := style
      json := arguments.has "json"
      workers := workers
      timeout := timeout
      config := arguments.value? "config"
      verbose := arguments.has "verbose"
      quiet := arguments.has "quiet" }

def stylesOfArguments? (arguments : Arguments) : Option Command :=
  if arguments.positional.isEmpty then some (.styles (arguments.value? "profile")) else none

def rulesOfArguments? (arguments : Arguments) : Option Command :=
  match arguments.positional with
  | [style] => some (.rules style)
  | _ => none

/-- The names of the commands, each with the options it knows and the way its arguments are
understood. -/
def commands : List (String × List OptionForm × (Arguments → Option Command)) :=
  [("lint", lintForms, lintOfArguments?), ("architectures", stylesForms, stylesOfArguments?),
   ("rules", rulesForms, rulesOfArguments?)]

/-- The command that arguments ask for. The name of a command has to be known even if another option
makes it unimportant. -/
def ofArguments? (arguments : List String) : Option Command := do
  let program ← Arguments.read? programForms false arguments
  if program.has "help" then return .help
  match program.positional with
  | [] => return if program.has "version" then .version else .help
  | name :: rest =>
      let (forms, read) ← commands.lookup name
      if program.has "version" then return .version
      let inner ← Arguments.read? forms true rest
      if inner.has "help" then return .help
      read inner

/-! ## What commands print -/

inductive Outcome where
  /-- With an exit code, after it has printed something. -/
  | finished (exitCode : Nat) (output : String)
  /-- By a failure that it does not report. -/
  | stopped (failure : Failure)
  deriving DecidableEq, Repr

namespace Outcome

/-- The exit code, which is 1 for a command that was stopped. -/
def exitCode : Outcome → Nat
  | .finished exitCode _ => exitCode
  | .stopped _ => 1

def output : Outcome → String
  | .finished _ output => output
  | .stopped _ => ""

def misused : Outcome := .finished 2 ""

end Outcome

def versionNumber : String := "0.1.0"

def versionText : String := "layerguard version " ++ versionNumber ++ "\n"

def helpText : String :=
  "Usage: layerguard [--version] COMMAND [ARGS]\n\n"
    ++ "  lint [PATH] -a STYLE [--json] [-w N] [--timeout S] [-c FILE] [-v] [-q]\n"
    ++ "  architectures [-p PROFILE]\n"
    ++ "  rules STYLE\n"

def failureText (json : Bool) (failure : Failure) : String :=
  if json then Json.render failure.toValue ++ "\n"
  else Console.line ("Error: " ++ Console.shownBare failure.message) ++ "\n"

/-- The styles of the table, all or those for a stack. An empty stack counts as none. -/
def listedStyles : Option String → List Style.Definition
  | none => Style.standard.definitions
  | some profile =>
      if profile = "" then Style.standard.definitions else Style.standard.forProfile profile

def stylesText (profile : Option String) : String :=
  match listedStyles profile with
  | [] =>
      let shown := Console.shownBare (profile.getD "")
      Console.line ("No architecture styles for profile '" ++ shown ++ "'.") ++ "\n"
  | definitions => styleTable definitions

def filled (width : Nat) (s : String) : String := s ++ blanks (width - s.length)

def ruleText (rule : Rule) : String :=
  "  " ++ filled 7 rule.severity.name ++ " " ++ rule.id ++ "  " ++ Console.shown rule.appliesTo
    ++ "\n          " ++ Console.shownBare rule.description ++ "\n"

/-- The rules of a style in the order in which they run. -/
def rulesOutcome (style : String) : Outcome :=
  match Style.standard.require style with
  | .error failure => .finished 2 (failureText false failure)
  | .ok d =>
      match Rule.select Style.standard d.style.id [] with
      | .error failure => .stopped failure
      | .ok selection =>
          .finished 0
            (Console.shown d.name ++ " (" ++ d.style.id ++ ")\n"
              ++ String.join (selection.rules.map ruleText))

/-! ## Checking a project -/

/-- The options that become settings. -/
def LintOptions.toTable (options : LintOptions) : Table :=
  (options.workers.map fun n => ("workers", Value.int n)).toList
    ++ (options.timeout.map fun x => ("timeout_seconds", Value.float x)).toList
    ++ (if options.verbose then [("verbose", .bool true)] else [])
    ++ (if options.quiet then [("quiet", .bool true)] else [])

def checkProject (options : LintOptions) : Run Report := do
  Run.configure (.ofFlags options.verbose options.quiet) none
  let d ← Run.ofExcept (Style.standard.require options.style)
  let settings ← Run.ofExcept
    (Settings.load (← get) (options.config.map PathName.ofString) options.toTable)
  Check.run settings Style.standard ⟨options.path, d.style.id, []⟩ false

/-- Whether a failure is reported to the user: those of the settings, and a check that was stopped.
-/
def isReported (failure : Failure) : Bool :=
  match failure with
  | .cancelled _ => true
  | _ => failure.family = some .configuration

def lintOutcome (options : LintOptions) : Except Failure Report → Outcome
  | .ok report =>
      .finished (exitCode report.violations)
        (if options.json then report.toJson ++ "\n" else report.render)
  | .error failure =>
      if isReported failure then .finished 2 (failureText options.json failure)
      else .stopped failure

/-- How a command ends early because of the file of settings that it is given. The file has to exist
and to be no folder, with its path taken as it is written. -/
def configOutcome? (session : Session) : Option String → Option Outcome
  | none => none
  | some "" => some .misused
  | some path =>
      let way := session.fromRoot (PathName.ofString path).isAbsolute (PathName.steps path.toList)
      match way.bind session.tree.status with
      | .ok (.file _) => none
      | .error .nullCharacter => some (.stopped (.ofFault .nullCharacter))
      | _ => some .misused

/-! ## Running commands -/

def run (command : Command) (session : Session) : Outcome × Session :=
  match command with
  | .help => (.finished 0 helpText, session)
  | .version => (.finished 0 versionText, session)
  | .styles profile => (.finished 0 (stylesText profile), session)
  | .rules style => (rulesOutcome style, session)
  | .lint options =>
      match configOutcome? session options.config with
      | some outcome => (outcome, session)
      | none =>
          let (result, session) := (checkProject options).run session
          (lintOutcome options result, session)

def runArguments (arguments : List String) (session : Session) : Outcome × Session :=
  match ofArguments? arguments with
  | none => (.misused, session)
  | some command => command.run session

end Command

end LayerLint
