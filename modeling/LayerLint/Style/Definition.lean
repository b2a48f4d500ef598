/-!
# Architecture styles

A style is described by its layers, from the innermost outwards, by the imports that are forbidden
between them, and by the stacks it is offered for.
-/

namespace LayerLint

inductive Style where
  | clean
  | layered
  | featureBased
  | hexagonal
  | domainDriven
  | featureSliced
  | modelViewController
  | commandQuery
  | microservices
  | modularMonolith
  deriving DecidableEq, Repr

namespace Style

def all : List Style :=
  [.clean, .layered, .featureBased, .hexagonal, .domainDriven, .featureSliced, .modelViewController,
   .commandQuery, .microservices, .modularMonolith]

def id : Style → String
  | .clean => "clean"
  | .layered => "layered"
  | .featureBased => "feature-based"
  | .hexagonal => "hexagonal"
  | .domainDriven => "ddd"
  | .featureSliced => "feature-sliced"
  | .modelViewController => "mvc"
  | .commandQuery => "cqrs"
  | .microservices => "microservices"
  | .modularMonolith => "modular-monolith"

/-- The style with an id, which has to agree to the letter. -/
def ofId? (id : String) : Option Style :=
  all.find? (·.id = id)

/-- A named group of source files and the directory they live in. -/
structure Layer where
  name : String
  description : String
  directory : String
  deriving DecidableEq, Repr

/-- Code in the layer `source` must not refer to any layer of `forbidden`. A name that ends in `/*`
means the slices of a layer. -/
structure Constraint where
  source : String
  forbidden : List String
  deriving DecidableEq, Repr

structure Definition where
  style : Style
  name : String
  description : String
  layers : List Layer
  constraints : List Constraint
  /-- The modules that a fresh project gets in each layer. -/
  modules : List (String × List String)
  /-- The stacks that the style is offered for. -/
  profiles : List String
  deriving DecidableEq, Repr

def Constraint.forbids (constraint : Constraint) (layer : String) : Bool :=
  constraint.forbidden.contains layer

namespace Definition

def layerNames (d : Definition) : List String := d.layers.map (·.name)

def layer? (d : Definition) (name : String) : Option Layer :=
  d.layers.find? (·.name = name)

/-- All layers that `layer` must not import from, in increasing order. -/
def forbiddenFor (d : Definition) (layer : String) : List String :=
  ((d.constraints.filter (·.source = layer)).flatMap (·.forbidden)).eraseDups.mergeSort (· ≤ ·)

def supports (d : Definition) (profile : String) : Bool :=
  d.profiles.contains profile

end Definition

end Style

end LayerLint
