import LayerLint.Failure

/-!
# Violations
-/

namespace LayerLint

/-- How serious a violation is. Only errors fail a check. -/
inductive Severity where
  | error
  | warning
  deriving DecidableEq, Repr

def Severity.name : Severity → String
  | .error => "error"
  | .warning => "warning"

def Severity.ofName? : String → Option Severity
  | "error" => some .error
  | "warning" => some .warning
  | _ => none

def Severity.ofValue (v : Value) : Except Failure Severity :=
  match v.string?.bind Severity.ofName? with
  | some severity => .ok severity
  | none => .error (.noMember "Severity" v)

structure Violation where
  ruleId : String
  file : String
  message : String
  severity : Severity
  deriving DecidableEq, Repr

end LayerLint
