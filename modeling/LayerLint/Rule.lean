import LayerLint.Rule.Guarded
import LayerLint.Style.Catalogue

/-!
# Rules and their selection

A check runs the rules that the project brings, in order, and then the built-in rules of its style.
-/

namespace LayerLint

inductive Rule where
  | builtin (rule : Rule.Builtin)
  | guarded (rule : Rule.Guarded)

namespace Rule

def id : Rule → String
  | .builtin rule => rule.id
  | .guarded rule => rule.id

def description : Rule → String
  | .builtin rule => rule.description
  | .guarded rule => rule.description

def appliesTo : Rule → String
  | .builtin rule => rule.appliesTo
  | .guarded rule => rule.appliesTo

def severity : Rule → Severity
  | .builtin rule => rule.severity
  | .guarded _ => .error

def isGuarded : Rule → Bool
  | .builtin _ => false
  | .guarded _ => true

structure Selection where
  rules : List Rule
  /-- Whether the style is known; an unknown style has no rules of its own. -/
  known : Bool

def builtins : List String → Except Failure (List Rule)
  | [] => .ok []
  | id :: ids =>
      match Builtin.ofId? id with
      | none => .error (.unknownRule id)
      | some rule =>
          match builtins ids with
          | .error failure => .error failure
          | .ok rules => .ok (.builtin rule :: rules)

/-- Puts the rules that a project brings behind the guard. -/
def guardAll : List Candidate → Except Failure (List Rule)
  | [] => .ok []
  | candidate :: candidates =>
      match candidate.guard with
      | .error failure => .error failure
      | .ok rule =>
          match guardAll candidates with
          | .error failure => .error failure
          | .ok rules => .ok (.guarded rule :: rules)

/-- The rules for a style: first those that the project brings, then the style's own. -/
def select (registry : Style.Registry) (style : String) (extra : List Candidate) :
    Except Failure Selection :=
  match guardAll extra with
  | .error failure => .error failure
  | .ok wrapped =>
      if registry.contains style then
        match builtins (registry.ruleIds style) with
        | .error failure => .error failure
        | .ok own => .ok ⟨wrapped ++ own, true⟩
      else .ok ⟨wrapped, false⟩

end Rule

end LayerLint
