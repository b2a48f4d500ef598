import LayerLint.Failure
import LayerLint.Style.Definition

/-!
# Registries

A registry holds definitions in order and the rules that run for each style. It is built from tables
that are checked once: no style and no layer twice, no constraint on a layer that does not exist, no
rules for a style without a definition.
-/

namespace LayerLint.Style

def ofValue (v : Value) : Except Failure Style :=
  match v.string?.bind ofId? with
  | some style => .ok style
  | none => .error (.noMember "ArchitectureStyle" v)

structure Registry where
  definitions : List Definition
  ruleTable : List (Style × List String)
  deriving Repr

/-- The layer that a name in a constraint refers to. -/
def baseLayer (name : String) : String :=
  if "/*".toList.isSuffixOf name.toList then
    String.ofList (name.toList.take (name.toList.length - 2))
  else name

/-- The first name in the constraints of a definition that is no layer of it. -/
def Definition.strayLayer? (d : Definition) : Option String :=
  (d.constraints.flatMap fun c => c.source :: c.forbidden).find? fun name =>
    !d.layerNames.contains (baseLayer name)

def Definition.check (d : Definition) : Except Failure Unit :=
  if !d.layerNames.Nodup then .error (.invalidSetting "layers" d.style.id "duplicate layer name")
  else
    match d.strayLayer? with
    | some name =>
        .error (.invalidSetting "constraints" d.style.id ("unknown layer '" ++ name ++ "'"))
    | none => .ok ()

/-- Checks definitions in order, with the styles of earlier ones in `seen`. -/
def checkDefinitions (seen : List Style) : List Definition → Except Failure Unit
  | [] => .ok ()
  | d :: rest =>
      if seen.contains d.style then
        .error (.invalidSetting "architecture" d.style.id "duplicate id")
      else
        match d.check with
        | .error failure => .error failure
        | .ok () => checkDefinitions (d.style :: seen) rest

namespace Registry

def build (definitions : List Definition) (ruleTable : List (Style × List String)) :
    Except Failure Registry :=
  match checkDefinitions [] definitions with
  | .error failure => .error failure
  | .ok () =>
      match ruleTable.find? fun (style, _) => !(definitions.map (·.style)).contains style with
      | some (style, _) => .error (.invalidSetting "style_rules" style.id "no such architecture")
      | none => .ok ⟨definitions, ruleTable⟩

def get? (r : Registry) (id : String) : Option Definition :=
  (Style.ofId? id).bind fun style => r.definitions.find? (·.style = style)

def contains (r : Registry) (id : String) : Bool := (r.get? id).isSome

def styleIds (r : Registry) : List String := r.definitions.map (·.style.id)

def require (r : Registry) (id : String) : Except Failure Definition :=
  match r.get? id with
  | some d => .ok d
  | none => .error (.unknownStyle id r.styleIds)

def forProfile (r : Registry) (profile : String) : List Definition :=
  r.definitions.filter (·.supports profile)

/-- The ids of the rules of a style, in the order they run; none for an unknown style. -/
def ruleIds (r : Registry) (id : String) : List String :=
  ((Style.ofId? id).bind fun style => r.ruleTable.lookup style).getD []

end Registry

end LayerLint.Style
