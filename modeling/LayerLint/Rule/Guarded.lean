import LayerLint.Failure
import LayerLint.FileTree.Basic
import LayerLint.Rule.Builtin

/-!
# Rules from outside

A project may bring rules of its own. Such a rule can be of any make: it may lack parts, its parts
may be of the wrong kind, and when it is asked about a file it may fail or answer nonsense.
`Guarded` is such a rule behind a guard: the guard fills in what is missing and turns every failure
into one violation.
-/

namespace LayerLint.Rule

/-! ## What a rule does when it is asked -/

/-- What a rule can do to its surroundings. -/
inductive Effect where
  /-- Asks for the check to be cancelled. -/
  | cancel
  /-- Lets time pass. -/
  | wait (seconds : Float)
  /-- Changes files. -/
  | edit (change : FileTree → FileTree)
  /-- Changes the imports that it was handed, which are a copy. -/
  | rewrite (imports : List String)

/-- One item of an answer: a violation, or something else of the named kind. -/
inductive Finding where
  | violation (v : Violation)
  | other (kind : String)

inductive Answer where
  | findings (items : List Finding)
  /-- Something that is no list, of the named kind. -/
  | other (kind : String)
  /-- A failure of the named kind. -/
  | failure (kind message : String)

/-- What a rule does about one file: its effects in order, then its answer. -/
structure Reaction where
  effects : List Effect
  answer : Answer

abbrev Behaviour := String → List String → Reaction

/-! ## Rules as they are brought -/

/-- A rule of any make. Each part may be missing. -/
structure Foreign where
  /-- The name of its kind, which stands in for a missing id. -/
  label : String
  id : Option Value
  description : Option Value
  appliesTo : Option Value
  behaviour : Option Behaviour

inductive Candidate where
  /-- A built-in rule, brought once more. -/
  | builtin (rule : Builtin)
  /-- A rule made from a function; its parts are all there but may be of any kind. -/
  | made (id description appliesTo : Value) (behaviour : Behaviour)
  | foreign (rule : Foreign)
  /-- A rule that has been put behind the guard before. -/
  | guarded (rule : Foreign)
  /-- Nothing at all. -/
  | nothing

/-- The name of the kind of rules that are made from functions. -/
def madeLabel : String := "FunctionRule"

/-- A candidate with its parts in one form; built-in rules behave as they are. -/
def Candidate.parts : Candidate → Option Foreign
  | .builtin rule =>
      some
        { label := rule.label
          id := some (.str rule.id)
          description := some (.str rule.description)
          appliesTo := some (.str rule.appliesTo)
          behaviour := some fun file imports =>
            ⟨[], .findings ((rule.violations file imports).map .violation)⟩ }
  | .made id description appliesTo behaviour =>
      some ⟨madeLabel, some id, some description, some appliesTo, some behaviour⟩
  | .foreign rule => some rule
  | .guarded rule => some rule
  | .nothing => none

def Candidate.shown : Candidate → String
  | .builtin rule => rule.label ++ "(" ++ Text.quoted rule.id ++ ")"
  | .made id .. => madeLabel ++ "(" ++ id.literal ++ ")"
  | .foreign rule => rule.label
  | .guarded rule => rule.label
  | .nothing => Value.literal .null

/-- Whether a candidate was written as a rule of this program, and not just made to look like one.
-/
def Candidate.isNative : Candidate → Bool
  | .foreign _ => false
  | .nothing => false
  | _ => true

def Candidate.isComplete : Candidate → Bool
  | .foreign rule =>
      rule.id.isSome && rule.description.isSome && rule.appliesTo.isSome && rule.behaviour.isSome
  | .nothing => false
  | _ => true

/-! ## The guard -/

/-- A rule behind the guard. -/
structure Guarded where
  id : String
  description : String
  appliesTo : String
  behaviour : Behaviour
  /-- How the rule inside is shown. -/
  inner : String

/-- Puts a candidate behind the guard. It has to have a behaviour. -/
def Candidate.guard (candidate : Candidate) : Except Failure Guarded :=
  match candidate.parts with
  | none => .error .wrongKind
  | some parts =>
      match parts.behaviour with
      | none => .error .wrongKind
      | some behaviour =>
          let id := parts.id.getD (.str "")
          .ok
            { id := if id.isTrue then id.text else parts.label
              description := (parts.description.getD (.str "")).text
              appliesTo := (parts.appliesTo.getD (.str "**/*")).text
              behaviour := behaviour
              inner := candidate.shown }

def Guarded.shown (rule : Guarded) : String := "SafeRule(" ++ rule.inner ++ ")"

/-- The first item that is no violation. -/
def firstOther? : List Finding → Option String
  | [] => none
  | .violation _ :: rest => firstOther? rest
  | .other kind :: _ => some kind

def violationsOf : List Finding → List Violation
  | [] => []
  | .violation v :: rest => v :: violationsOf rest
  | .other _ :: rest => violationsOf rest

/-- The violations of an answer, or why it is none. -/
def Answer.judge : Answer → Except String (List Violation)
  | .failure kind message => .error (kind ++ ": " ++ message)
  | .other kind => .error ("returned " ++ kind ++ ", expected a list")
  | .findings items =>
      match firstOther? items with
      | some kind => .error ("returned " ++ kind ++ ", expected Violation")
      | none => .ok (violationsOf items)

/-- The violation that stands for a failure of the rule. -/
def Guarded.failureViolation (rule : Guarded) (file reason : String) : Violation :=
  ⟨rule.id, file, "Custom rule \"" ++ rule.id ++ "\" failed: " ++ reason, .error⟩

end LayerLint.Rule
