import LayerLint.Style.Registry

/-!
# The styles that ship
-/

namespace LayerLint.Style

/-- Layers that live in directories of their own names. -/
def namedLayers (layers : List (String × String)) : List Layer :=
  layers.map fun (name, description) => ⟨name, description, name⟩

def constraintsOf (table : List (String × List String)) : List Constraint :=
  table.map fun (source, forbidden) => ⟨source, forbidden⟩

def cleanDefinition : Definition where
  style := .clean
  name := "Clean Architecture"
  description :=
    "Dependency inversion with Domain at the core, surrounded by Application, "
      ++ "Infrastructure, and Presentation"
  layers := namedLayers
    [("domain", "Entities, value objects, repository interfaces"),
     ("application", "Use cases, application services, DTOs"),
     ("infrastructure", "Database, external services, framework implementations"),
     ("presentation", "Controllers, views, API endpoints")]
  constraints := constraintsOf
    [("domain", ["infrastructure", "presentation", "application"]),
     ("application", ["infrastructure", "presentation"]),
     ("infrastructure", ["presentation"])]
  modules :=
    [("domain", ["entities", "repositories", "value-objects"]),
     ("application", ["use-cases", "services", "dtos"]),
     ("infrastructure", ["persistence", "api", "config"]),
     ("presentation", ["controllers", "middleware"])]
  profiles := ["react", "java", "dotnet", "nodejs", "django", "react-native"]

def layeredDefinition : Definition where
  style := .layered
  name := "Layered Architecture"
  description := "Traditional layers: Presentation → Business Logic → Data Access"
  layers := namedLayers
    [("models", "Data models and entities"),
     ("repositories", "Data access layer"),
     ("services", "Business logic layer"),
     ("controllers", "Presentation / API layer")]
  constraints := constraintsOf
    [("models", ["repositories", "services", "controllers"]),
     ("repositories", ["services", "controllers"]),
     ("services", ["controllers"])]
  modules :=
    [("models", ["User"]),
     ("repositories", ["UserRepository"]),
     ("services", ["UserService"]),
     ("controllers", ["UserController"])]
  profiles := ["react", "java", "dotnet", "nodejs", "django", "laravel", "angular", "flutter"]

def featureBasedDefinition : Definition where
  style := .featureBased
  name := "Feature-based Architecture"
  description := "Self-contained feature modules with shared utilities"
  layers := namedLayers
    [("shared", "Shared components, hooks, and utilities"),
     ("features", "Self-contained feature modules"),
     ("app", "Application shell, routing, providers")]
  constraints := constraintsOf
    [("features/*", ["features/*"])]
  modules :=
    [("shared", ["components", "hooks", "utils"]),
     ("features", ["auth", "home"]),
     ("app", ["App", "providers"])]
  profiles := ["react", "nextjs", "angular", "vue", "react-native"]

def hexagonalDefinition : Definition where
  style := .hexagonal
  name := "Hexagonal Architecture (Ports & Adapters)"
  description :=
    "Business logic at the core with ports (interfaces) and adapters (implementations)"
      ++ ""
  layers := namedLayers
    [("domain", "Core business logic, entities"),
     ("ports", "Inbound and outbound port interfaces"),
     ("application", "Application services orchestrating ports"),
     ("adapters", "Inbound (API) and outbound (DB, messaging) adapters")]
  constraints := constraintsOf
    [("domain", ["adapters", "application"]),
     ("ports", ["adapters", "application"]),
     ("application", ["adapters"])]
  modules :=
    [("domain", ["entities", "value-objects", "exceptions"]),
     ("ports", ["inbound", "outbound"]),
     ("application", ["services"]),
     ("adapters", ["inbound/rest", "outbound/persistence", "outbound/messaging"])]
  profiles := ["java", "dotnet", "nodejs"]

def domainDrivenDefinition : Definition where
  style := .domainDriven
  name := "Domain-Driven Design (Tactical)"
  description :=
    "Rich domain model with Aggregates, Value Objects, Repositories, and Bounded "
      ++ "Contexts"
  layers := namedLayers
    [("domain", "Aggregates, entities, value objects, domain services, domain events"),
     ("application", "Application services, command/query handlers, DTOs"),
     ("infrastructure", "Persistence, messaging, external integrations"),
     ("presentation", "API controllers, GraphQL resolvers")]
  constraints := constraintsOf
    [("domain", ["infrastructure", "presentation", "application"]),
     ("application", ["presentation"])]
  modules :=
    [("domain",
        ["model/aggregates", "model/entities", "model/value-objects", "service", "repository",
          "event"]),
     ("application", ["service", "dto", "command", "query"]),
     ("infrastructure", ["persistence", "messaging", "config"]),
     ("presentation", ["controller", "dto"])]
  profiles := ["java", "dotnet"]

def featureSlicedDefinition : Definition where
  style := .featureSliced
  name := "Feature-Sliced Design"
  description :=
    "Modern scalable frontend architecture with app, processes, pages, features, "
      ++ "entities, shared layers"
  layers := namedLayers
    [("shared", "Shared UI kit, utilities, configs"),
     ("entities", "Business entities (user, product, etc.)"),
     ("features", "User interactions (auth, comments, etc.)"),
     ("widgets", "Composite UI blocks combining entities + features"),
     ("pages", "Routing pages composing widgets"),
     ("app", "App initialization, providers, global styles")]
  constraints := constraintsOf
    [("shared", ["entities", "features", "widgets", "pages", "app"]),
     ("entities", ["features", "widgets", "pages", "app"]),
     ("features", ["widgets", "pages", "app"]),
     ("widgets", ["pages", "app"]),
     ("pages", ["app"])]
  modules :=
    [("shared", ["ui", "lib", "config"]),
     ("entities", ["user", "product"]),
     ("features", ["auth", "search"]),
     ("widgets", ["header", "sidebar"]),
     ("pages", ["home", "profile"]),
     ("app", ["providers", "styles"])]
  profiles := ["react", "nextjs"]

def modelViewControllerDefinition : Definition where
  style := .modelViewController
  name := "MVC (Model-View-Controller)"
  description :=
    "Classic pattern — Controllers handle requests, Services contain logic, Models "
      ++ "define data"
  layers := namedLayers
    [("models", "Data models and entities"),
     ("services", "Business logic"),
     ("controllers", "Request handlers"),
     ("views", "Response templates / serializers")]
  constraints := constraintsOf
    [("models", ["controllers", "views"]),
     ("services", ["controllers", "views"])]
  modules :=
    [("models", ["User"]),
     ("services", ["UserService"]),
     ("controllers", ["UserController"]),
     ("views", ["templates"])]
  profiles := ["java", "dotnet", "nodejs", "django", "laravel"]

def commandQueryDefinition : Definition where
  style := .commandQuery
  name := "CQRS (Command Query Responsibility Segregation)"
  description := "Separate read and write models with dedicated command/query handlers"
  layers := namedLayers
    [("domain", "Domain entities and write model"),
     ("commands", "Command definitions and handlers (write side)"),
     ("queries", "Query definitions and handlers (read side)"),
     ("read-model", "Read-optimized projections"),
     ("infrastructure", "Persistence, messaging, event bus"),
     ("presentation", "API endpoints dispatching commands/queries")]
  constraints := constraintsOf
    [("domain", ["commands", "queries", "read-model", "infrastructure", "presentation"]),
     ("commands", ["queries", "read-model", "presentation"]),
     ("queries", ["commands", "presentation"]),
     ("read-model", ["commands", "presentation"])]
  modules :=
    [("domain", ["entities", "events", "value-objects"]),
     ("commands", ["handlers", "definitions"]),
     ("queries", ["handlers", "definitions"]),
     ("read-model", ["projections"]),
     ("infrastructure", ["persistence", "event-bus"]),
     ("presentation", ["controllers"])]
  profiles := ["java", "dotnet"]

def microservicesDefinition : Definition where
  style := .microservices
  name := "Microservices Architecture"
  description :=
    "Distributed services with API gateway, service communication, and independent "
      ++ "deployments"
  layers := namedLayers
    [("gateway", "API gateway / reverse proxy"),
     ("services", "Independent microservices"),
     ("shared", "Shared contracts, DTOs, events")]
  constraints := constraintsOf
    [("services/*", ["services/*"])]
  modules :=
    [("gateway", ["config", "routes"]),
     ("services", ["auth-service", "user-service", "order-service"]),
     ("shared", ["contracts", "events", "dto"])]
  profiles := ["java", "dotnet"]

def modularMonolithDefinition : Definition where
  style := .modularMonolith
  name := "Modular Monolith"
  description := "Clear module boundaries without the complexity of distributed systems"
  layers := namedLayers
    [("shared", "Cross-cutting concerns, shared kernel"),
     ("modules", "Self-contained business modules with internal layering"),
     ("host", "Application host, composition root, startup")]
  constraints := constraintsOf
    [("modules/*", ["modules/*"])]
  modules :=
    [("shared", ["kernel", "contracts", "events"]),
     ("modules", ["users", "billing", "notifications"]),
     ("host", ["startup", "config"])]
  profiles := ["java", "dotnet", "nodejs", "laravel"]

/-- All definitions, in the order in which they are listed. -/
def definitions : List Definition :=
  [cleanDefinition, layeredDefinition, featureBasedDefinition, hexagonalDefinition,
   domainDrivenDefinition, featureSlicedDefinition, modelViewControllerDefinition,
   commandQueryDefinition, microservicesDefinition, modularMonolithDefinition]

/-- The rules of each style, in the order in which they run. -/
def ruleTable : List (Style × List String) :=
  [(.clean, ["clean/domain-isolation", "clean/application-isolation", "naming/no-impl-in-domain"]),
   (.featureBased, ["feature/isolation"]),
   (.layered, ["naming/no-impl-in-domain"]),
   (.hexagonal, ["hexagonal/port-isolation", "clean/domain-isolation", "naming/no-impl-in-domain"]),
   (.domainDriven,
      ["ddd/aggregate-isolation", "clean/domain-isolation", "naming/no-impl-in-domain"]),
   (.featureSliced, ["fsd/layer-order", "feature/isolation"]),
   (.modelViewController, ["naming/no-impl-in-domain"]),
   (.commandQuery, ["cqrs/segregation", "naming/no-impl-in-domain"]),
   (.microservices, ["naming/no-impl-in-domain"]),
   (.modularMonolith, ["modular/module-isolation", "naming/no-impl-in-domain"])]

def standard : Registry := ⟨definitions, ruleTable⟩

end LayerLint.Style
