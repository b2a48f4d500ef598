import LayerLint.Console
import LayerLint.Json.Writer
import LayerLint.PathName
import LayerLint.Violation

/-!
# Reports

The outcome of a check: its violations in the order in which they were found, for every rule in turn
and for every file of a rule in turn. A check fails if one of them is an error; warnings alone never
fail it.
-/

namespace LayerLint

structure Report where
  root : PathName
  style : String
  violations : List Violation
  /-- The ids of the rules in the order in which they ran. -/
  rulesRun : List String
  /-- How many different files some rule looked at. -/
  filesScanned : Nat
  deriving DecidableEq, Repr

/-- The violations of one severity, in their order. -/
def violationsWith (severity : Severity) (violations : List Violation) : List Violation :=
  violations.filter (·.severity = severity)

def anyError (violations : List Violation) : Bool :=
  violations.any (·.severity = .error)

/-- One if some violation is an error, zero otherwise. -/
def exitCode (violations : List Violation) : Nat :=
  if anyError violations then 1 else 0

/-- Violations by their severity. -/
structure Groups where
  errors : List Violation
  warnings : List Violation
  deriving DecidableEq, Repr

/-- Puts a violation at the end of its group. -/
def Groups.add (groups : Groups) (v : Violation) : Groups :=
  match v.severity with
  | .error => { groups with errors := groups.errors ++ [v] }
  | .warning => { groups with warnings := groups.warnings ++ [v] }

def groupBySeverity (violations : List Violation) : Groups :=
  violations.foldl Groups.add ⟨[], []⟩

/-- The path of a file from the root on if it lies below the root, and the path as it is otherwise.
-/
def displayPath (file : String) (root : PathName) : String :=
  match (PathName.ofString file).relativeTo? root with
  | some parts => PathName.toString ⟨"", parts⟩
  | none => file

def Violation.toValue (v : Violation) : Value :=
  .dict
    [("rule_id", .str v.ruleId), ("file", .str v.file), ("message", .str v.message),
     ("severity", .str v.severity.name)]

namespace Report

def errors (report : Report) : List Violation := violationsWith .error report.violations

def warnings (report : Report) : List Violation := violationsWith .warning report.violations

def bySeverity (report : Report) : Groups := ⟨report.errors, report.warnings⟩

def hasErrors (report : Report) : Bool := anyError report.violations

def exitCode (report : Report) : Nat := if report.hasErrors then 1 else 0

/-! ## A report as data -/

def toValue (report : Report) : Value :=
  .dict
    [("project_root", .str report.root.toString),
     ("architecture", .str report.style),
     ("rules", .list (report.rulesRun.map .str)),
     ("files_scanned", .int report.filesScanned),
     ("summary",
      .dict [("errors", .int report.errors.length), ("warnings", .int report.warnings.length)]),
     ("violations", .list (report.violations.map Violation.toValue))]

def toJson (report : Report) : String := Json.render report.toValue

/-! ## A report to read -/

def heading (report : Report) : String :=
  Console.line (Console.shown report.style ++ " check of " ++ Console.shown report.root.toString
    ++ " (" ++ toString report.rulesRun.length ++ " rules, " ++ toString report.filesScanned
    ++ " files)")

def groupTitle (severity : Severity) (count : Nat) : String :=
  match severity with
  | .error => "Errors (" ++ toString count ++ ")"
  | .warning => "Warnings (" ++ toString count ++ ")"

def violationLines (root : PathName) (v : Violation) : List String :=
  [Console.line ("  " ++ Console.shown v.ruleId ++ "  " ++ Console.shownBare v.message),
   Console.line ("    " ++ Console.shown (displayPath v.file root))]

/-- A group with its title and a blank line behind it. Nothing is shown for an empty group. -/
def groupLines (root : PathName) (severity : Severity) (violations : List Violation) : List String :=
  if violations.isEmpty then []
  else
    [groupTitle severity violations.length] ++ violations.flatMap (violationLines root) ++ [""]

def summary (report : Report) : String :=
  let groups := groupBySeverity report.violations
  if report.violations.isEmpty then "No architecture violations found."
  else if groups.errors.isEmpty then "0 errors, " ++ toString groups.warnings.length ++ " warning(s)"
  else
    toString groups.errors.length ++ " error(s), " ++ toString groups.warnings.length
      ++ " warning(s)"

def lines (report : Report) : List String :=
  let groups := groupBySeverity report.violations
  [report.heading, ""] ++ groupLines report.root .error groups.errors
    ++ groupLines report.root .warning groups.warnings ++ [report.summary]

/-- The report as text, every line ended. -/
def render (report : Report) : String :=
  String.join (report.lines.map (· ++ "\n"))

end Report

end LayerLint
