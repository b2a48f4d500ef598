import LayerLint.Text.Lower
import LayerLint.Text.Split
import LayerLint.Violation

/-!
# Built-in rules

Each rule looks at the path of a file and at the texts of its imports. Layers are recognised by the
letters of their names wherever they occur; nothing is resolved or split into components first.
-/

namespace LayerLint.Rule

inductive Builtin where
  | domainIsolation
  | applicationIsolation
  | featureIsolation
  | noImplInDomain
  | portIsolation
  | aggregateIsolation
  | layerOrder
  | segregation
  | moduleIsolation
  deriving DecidableEq, Repr

/-! ## Looking at texts -/

def mentions (part : String) (text : List Char) : Bool :=
  Text.occursIn part.toList text

def forwardSlashes (s : String) : List Char :=
  s.toList.map fun c => if c = '\\' then '/' else c

/-- The name after the first occurrence of `marker` that a name follows. A closed name has a slash
behind it. -/
def nameAfter? (marker : List Char) (closed : Bool) : List Char → Option (List Char)
  | [] => none
  | c :: cs =>
      let here := (Text.dropFront? marker (c :: cs)).bind fun rest =>
        let name := rest.takeWhile (· != '/')
        if name.isEmpty || (closed && name.length = rest.length) then none else some name
      match here with
      | some name => some name
      | none => nameAfter? marker closed cs

/-- The letters that count as an `i` in any case. -/
def isLetterI (c : Char) : Bool := c = 'i' || c = 'I' || c = 'İ' || c = 'ı'

def namesImpl : List Char → Bool
  | a :: m :: p :: l :: rest =>
      (isLetterI a && m.toLower = 'm' && p.toLower = 'p' && l.toLower = 'l')
        || namesImpl (m :: p :: l :: rest)
  | _ => false

def baseName (path : List Char) : List Char :=
  (path.reverse.takeWhile (· != '/')).reverse

/-- The layers of feature slices, lowest first. -/
def slicedLayers : List String :=
  ["shared", "entities", "features", "widgets", "pages", "processes", "app"]

/-- The index of the first sliced layer whose directory occurs in a path. -/
def slicedLayer? (path : String) : Option Nat :=
  slicedLayers.findIdx? fun layer => mentions ("/" ++ layer ++ "/") (forwardSlashes path)

namespace Builtin

/-! ## What a rule says about itself -/

def all : List Builtin :=
  [.domainIsolation, .applicationIsolation, .featureIsolation, .noImplInDomain, .portIsolation,
   .aggregateIsolation, .layerOrder, .segregation, .moduleIsolation]

def id : Builtin → String
  | .domainIsolation => "clean/domain-isolation"
  | .applicationIsolation => "clean/application-isolation"
  | .featureIsolation => "feature/isolation"
  | .noImplInDomain => "naming/no-impl-in-domain"
  | .portIsolation => "hexagonal/port-isolation"
  | .aggregateIsolation => "ddd/aggregate-isolation"
  | .layerOrder => "fsd/layer-order"
  | .segregation => "cqrs/segregation"
  | .moduleIsolation => "modular/module-isolation"

def ofId? (id : String) : Option Builtin :=
  all.find? (·.id = id)

def label : Builtin → String
  | .domainIsolation => "DomainIsolationRule"
  | .applicationIsolation => "ApplicationIsolationRule"
  | .featureIsolation => "FeatureIsolationRule"
  | .noImplInDomain => "NoImplInDomainRule"
  | .portIsolation => "PortIsolationRule"
  | .aggregateIsolation => "AggregateIsolationRule"
  | .layerOrder => "FsdLayerOrderRule"
  | .segregation => "CqrsSegregationRule"
  | .moduleIsolation => "ModuleIsolationRule"

def description : Builtin → String
  | .domainIsolation => "Domain layer cannot import from infrastructure or presentation layers"
  | .applicationIsolation => "Application layer cannot import from presentation layer"
  | .featureIsolation => "Feature modules cannot import from other feature modules directly"
  | .noImplInDomain =>
      "Domain layer files should not contain \"Impl\" — implementations belong in infrastructure"
  | .portIsolation => "Ports (domain) cannot import from adapters (infrastructure)"
  | .aggregateIsolation => "Domain aggregates must not depend on infrastructure or presentation"
  | .layerOrder => "Lower FSD layers cannot import from upper layers"
  | .segregation => "Command side must not import from query/read side and vice-versa"
  | .moduleIsolation => "Modules can only import from other modules via their public api package"

def appliesTo : Builtin → String
  | .domainIsolation => "**/domain/**/*.\x7bts,java,cs\x7d"
  | .applicationIsolation => "**/application/**/*.\x7bts,java,cs\x7d"
  | .featureIsolation => "**/features/**/*.\x7bts,tsx,java,cs\x7d"
  | .noImplInDomain => "**/domain/**/*.\x7bts,java,cs\x7d"
  | .portIsolation => "**/ports/**/*.\x7bts,java,cs\x7d"
  | .aggregateIsolation => "**/domain/**/*.\x7bts,java,cs\x7d"
  | .layerOrder => "**/\x7b" ++ ",".intercalate slicedLayers ++ "\x7d/**/*.\x7bts,tsx\x7d"
  | .segregation => "**/\x7bcommand,query\x7d/**/*.\x7bts,java,cs\x7d"
  | .moduleIsolation => "**/modules/**/*.\x7bts,java,cs\x7d"

def severity : Builtin → Severity
  | .noImplInDomain => .warning
  | _ => .error

/-- Whether a rule looks at imports, or at the path alone. -/
def readsImports : Builtin → Bool
  | .noImplInDomain => false
  | _ => true

/-! ## What a rule finds -/

/-- The layers of `layers` that a text mentions, each with its complaint. -/
def forbiddenLayers (layers : List String) (text : List Char) (complaint : String → String) :
    List String :=
  (layers.filter fun layer => mentions layer text).map complaint

/-- Complaints about features that are not `current`. -/
def foreignFeature (current : List Char) (imported : String) : List String :=
  match nameAfter? "features/".toList false (forwardSlashes imported) with
  | some other =>
      if other = current then []
      else
        ["Feature \"" ++ String.ofList current ++ "\" imports from feature \""
          ++ String.ofList other ++ "\". Use shared modules instead."]
  | none => []

/-- The marks of an import that another module may use. -/
def publicMarks : List String := ["/api/", ".api.", "/events/"]

/-- Complaints about the inner code of modules that are not `current`. -/
def foreignModule (current : List Char) (imported : String) : List String :=
  let text := forwardSlashes imported
  match nameAfter? "modules/".toList false text with
  | some other =>
      if other = current || publicMarks.any (mentions · text) then []
      else
        ["Module \"" ++ String.ofList current ++ "\" imports internal code from module \""
          ++ String.ofList other ++ "\". Use the public API instead."]
  | none => []

/-- Complaints about layers above the one at `index`. -/
def upperLayers (index : Nat) (imported : String) : List String :=
  let text := forwardSlashes imported
  ((slicedLayers.drop (index + 1)).filter fun upper =>
      mentions ("@" ++ upper) text || mentions ("/" ++ upper ++ "/") text).map fun upper =>
    "Layer \"" ++ slicedLayers.getD index "" ++ "\" imports from upper layer \"" ++ upper ++ "\": "
      ++ imported

/-- Complaints about the other side of commands and queries. -/
def otherSide (command query : Bool) (imported : String) : List String :=
  let text := Text.lower imported.toList
  (if command && (mentions "readmodel" text || mentions "query" text) then
      ["Command side imports from query/read side: " ++ imported]
    else [])
  ++ (if query && (mentions "writemodel" text || mentions "command" text) then
      ["Query side imports from command/write side: " ++ imported]
    else [])

/-- The complaints of a rule about a file with the given imports, in the order of the imports. -/
def complaints (rule : Builtin) (file : String) (imports : List String) : List String :=
  match rule with
  | .domainIsolation =>
      imports.flatMap fun imported =>
        forbiddenLayers ["infrastructure", "presentation"] imported.toList fun layer =>
          "Domain layer file imports from forbidden layer \"" ++ layer ++ "\": " ++ imported
  | .applicationIsolation =>
      imports.flatMap fun imported =>
        forbiddenLayers ["presentation"] imported.toList fun layer =>
          "Application layer file imports from forbidden layer \"" ++ layer ++ "\": " ++ imported
  | .featureIsolation =>
      match nameAfter? "features/".toList true (forwardSlashes file) with
      | some current => imports.flatMap (foreignFeature current)
      | none => []
  | .noImplInDomain =>
      let name := baseName (forwardSlashes file)
      if namesImpl name then
        ["File \"" ++ String.ofList name
          ++ "\" contains \"Impl\". Implementations should live in the infrastructure layer."]
      else []
  | .portIsolation =>
      (imports.filter fun imported =>
          mentions "adapter" imported.toList || mentions "infrastructure" imported.toList).map
        fun imported => "Port imports from adapter/infrastructure: " ++ imported
  | .aggregateIsolation =>
      imports.flatMap fun imported =>
        forbiddenLayers ["infrastructure", "persistence", "presentation", "controller", "api"]
          (Text.lower imported.toList) fun layer =>
            "Domain imports from forbidden layer \"" ++ layer ++ "\": " ++ imported
  | .layerOrder =>
      match slicedLayer? file with
      | some index => imports.flatMap (upperLayers index)
      | none => []
  | .segregation =>
      let path := Text.lower (forwardSlashes file)
      imports.flatMap (otherSide (mentions "/command" path) (mentions "/query" path))
  | .moduleIsolation =>
      match nameAfter? "modules/".toList true (forwardSlashes file) with
      | some current => imports.flatMap (foreignModule current)
      | none => []

/-- The violations of a rule by a file with the given imports. -/
def violations (rule : Builtin) (file : String) (imports : List String) : List Violation :=
  (rule.complaints file imports).map (⟨rule.id, file, ·, rule.severity⟩)

end Builtin

end LayerLint.Rule
