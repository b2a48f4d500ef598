import LayerLint.Import.File
import LayerLint.Report
import LayerLint.Scan
import LayerLint.Settings.Load

/-!
# Checks

A check asks every rule about every file that its pattern selects. The imports of a file are read
once, however many rules look at it. The report lists violations rule by rule, and for a rule file
by file, whether the files are evaluated one after the other or several at a time.
-/

namespace LayerLint

/-! ## What to check -/

structure Request where
  root : PathName
  style : String
  /-- The rules that the project brings. -/
  extra : List Rule.Candidate

namespace Check

def source : String := "layerguard.engine"

/-! ## Imports that have been read -/

/-- The files whose imports have been read, in the order of reading. -/
abbrev Cache := List (Location × List String)

/-- Reads the imports of a file. A file that cannot be read has none. -/
def readImports (limit : Int) (file : Location) : Run (List String) := do
  Run.remember (.read file)
  tryCatch (Import.ofFile (some limit) ⟨"/", file⟩) fun
    | .fileAccess path reason => do
        Run.note .warning source ("Evaluating " ++ path ++ " with no imports: " ++ reason)
        return []
    | failure => throw failure

/-- The imports of a file, from the cache if it is there. -/
def importsOf (limit : Int) (cache : Cache) (file : Location) : Run (List String × Cache) :=
  match cache.lookup file with
  | some imports => return (imports, cache)
  | none => do
      let imports ← readImports limit file
      return (imports, cache ++ [(file, imports)])

/-! ## One rule and one file -/

/-- The violations of a rule by a file with the given imports. -/
def ask (rule : Rule) (file : String) (imports : List String) : Run (List Violation) := do
  Run.remember (.asked rule file imports)
  match rule with
  | .builtin rule => return rule.violations file imports
  | .guarded rule =>
      let reaction := rule.behaviour file imports
      Run.change fun session => reaction.effects.foldl Session.apply session
      match reaction.answer.judge with
      | .ok violations => return violations
      | .error reason =>
          Run.note .warning "layerguard.rules.custom"
            (Failure.ruleFailed rule.id file reason).message
          return [rule.failureViolation file reason]

/-- What all units of a check share. -/
structure Plan where
  root : Location
  rules : List Rule
  options : Scan.Options
  limit : Int
  watch : Watch

/-- Evaluates one unit: a rule and a file. -/
def evaluate (plan : Plan) (cache : Cache) (rule : Rule) (file : Location) :
    Run (List Violation × Cache) := do
  plan.watch.check
  let (imports, cache) ← importsOf plan.limit cache file
  let violations ← ask rule (Location.text file) imports
  return (violations, cache)

def evaluateAll (plan : Plan) (rule : Rule) : Cache → List Location → Run (List Violation × Cache)
  | cache, [] => return ([], cache)
  | cache, file :: files => do
      let (violations, cache) ← evaluate plan cache rule file
      let (more, cache) ← evaluateAll plan rule cache files
      return (violations ++ more, cache)

def scan (plan : Plan) (rule : Rule) : Run (List Location) :=
  Scan.files plan.options plan.watch ⟨"/", plan.root⟩ rule.appliesTo

/-! ## All rules -/

/-- Runs rules one after the other: first the scan of a rule, then its files. The violations of
every rule are kept apart. -/
def runInTurn (plan : Plan) : Cache → List Rule → Run (List (List Violation) × Cache)
  | cache, [] => return ([], cache)
  | cache, rule :: rules => do
      plan.watch.check
      let files ← scan plan rule
      let (violations, cache) ← evaluateAll plan rule cache files
      Run.note .debug source (rule.id ++ ": " ++ toString violations.length ++ " violations")
      let (more, cache) ← runInTurn plan cache rules
      return (violations :: more, cache)

def scanAll (plan : Plan) : List Rule → Run (List (Rule × List Location))
  | [] => return []
  | rule :: rules => do
      let files ← scan plan rule
      let more ← scanAll plan rules
      return (rule, files) :: more

/-- Evaluates units that have been found before. -/
def evaluateRows (plan : Plan) :
    Cache → List (Rule × List Location) → Run (List (List Violation) × Cache)
  | cache, [] => return ([], cache)
  | cache, (rule, files) :: rows => do
      let (violations, cache) ← evaluateAll plan rule cache files
      let (more, cache) ← evaluateRows plan cache rows
      return (violations :: more, cache)

/-- Looks at the clock once before waiting for units, if there is a deadline to wait for. -/
def await (plan : Plan) (units : Nat) : Run Unit :=
  if units = 0 then return
  else
    match plan.watch.deadline with
    | none => return
    | some _ => do
        let _ ← Run.time
        return

/-- Runs rules with all scans before all evaluations, as units that are evaluated several at a time
are started. -/
def runTogether (plan : Plan) (rules : List Rule) : Run (List (List Violation) × Cache) := do
  await plan rules.length
  let rows ← scanAll plan rules
  await plan (rows.flatMap (·.2)).length
  evaluateRows plan [] rows

/-! ## The check -/

def seconds : Value.Number → Except Failure Float
  | .floating x => .ok x
  | .exact n => if (Float.ofInt n).isInf then .error .overflow else .ok (Float.ofInt n)

def startWatch (signal : Bool) (timeout : Value) : Run Watch :=
  match timeout.number? with
  | none => throw .wrongKind
  | some n =>
      if n.above 0 then do
        let now ← Run.time
        let limit ← Run.ofExcept (seconds n)
        return ⟨signal, timeout, some (now + limit)⟩
      else return ⟨signal, timeout, none⟩

def compileExcludes : List Value → Except Failure (List Glob)
  | [] => .ok []
  | .str pattern :: rest =>
      match Glob.compile pattern with
      | .error failure => .error failure
      | .ok glob =>
          match compileExcludes rest with
          | .error failure => .error failure
          | .ok globs => .ok (glob :: globs)
  | _ :: _ => .error .wrongKind

def selectRules (registry : Style.Registry) (style : String) (extra : List Rule.Candidate) :
    Run (List Rule) := do
  let selection ← Run.ofExcept (Rule.select registry style extra)
  if !selection.known then
    Run.note .warning "layerguard.rules.selector"
      ("Unknown architecture style '" ++ style ++ "': no built-in rules selected")
  return selection.rules

/-- Runs a check. `signal` says whether the signal of the session can stop it. -/
def run (settings : Settings) (registry : Style.Registry) (request : Request) (signal : Bool) :
    Run Report := do
  let session ← get
  let root ← Run.ofExcept (Scan.findRoot session.tree session.folder request.root)
  let rules ← selectRules registry request.style request.extra
  let watch ← startWatch signal settings.timeout
  let excludes ← Run.ofExcept (compileExcludes settings.excludePatterns)
  let limit ← Run.ofExcept settings.maxBytes
  let options : Scan.Options := ⟨settings.followLinks.isTrue, settings.allowHidden.isTrue, excludes⟩
  let plan : Plan := ⟨root, rules, options, limit, watch⟩
  Run.note .info source
    ("Checking " ++ Location.text root ++ " as '" ++ request.style ++ "' with "
      ++ toString rules.length ++ " rules ("
      ++ (if settings.parallel then "parallel" else "sequential") ++ ")")
  let start ← Run.time
  let (buckets, cache) ←
    if settings.parallel then runTogether plan rules else runInTurn plan [] rules
  let report : Report :=
    { root := ⟨"/", root⟩
      style := request.style
      violations := buckets.flatten
      rulesRun := rules.map Rule.id
      filesScanned := cache.length }
  let finish ← Run.time
  Run.note .info source
    ("Check complete: " ++ toString report.errors.length ++ " errors, "
      ++ toString report.warnings.length ++ " warnings, " ++ toString report.filesScanned
      ++ " files in " ++ Decimal.twoPlaces (finish - start) ++ "s")
  return report

/-- The names of what a check is given besides options. No option has one of them. -/
def argumentNames : List String := ["project_root", "style", "extra_rules", Settings.fileOption]

/-- Runs a check with the settings that are found for it. The signal cannot stop it. -/
def runConfigured (request : Request) (file : Option PathName) (options : Table) : Run Report := do
  if argumentNames.any fun name => (options.lookup name).isSome then throw .wrongKind
  let settings ← Run.ofExcept (Settings.load (← get) file options)
  Run.configureFor settings.verbosity.text none
  let workers ← Run.ofExcept (Settings.shown settings.workers)
  Run.note .debug "layerguard.api"
    ("Configuration loaded: " ++ settings.verbosity.text ++ " mode, " ++ workers ++ " workers")
  run settings Style.standard request false

end Check

end LayerLint
