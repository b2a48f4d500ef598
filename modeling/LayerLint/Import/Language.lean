import LayerLint.Failure
import LayerLint.PathName
import LayerLint.Text.Lower

/-!
# Source languages

The languages whose imports are understood, and the file extensions that belong to them.
-/

namespace LayerLint.Import

inductive Language where
  | typescript
  | java
  | csharp
  deriving DecidableEq, Repr

namespace Language

def all : List Language := [.typescript, .java, .csharp]

def name : Language → String
  | .typescript => "typescript"
  | .java => "java"
  | .csharp => "csharp"

def extensions : Language → List String
  | .typescript => [".ts", ".tsx", ".js", ".jsx", ".mjs", ".cjs"]
  | .java => [".java"]
  | .csharp => [".cs"]

def ofName? (name : String) : Option Language :=
  all.find? (·.name = name)

def ofValue (v : Value) : Except Failure Language :=
  match v.string?.bind ofName? with
  | some language => .ok language
  | none => .error (.noMember "SourceLanguage" v)

def ofExtension? (extension : String) : Option Language :=
  let folded := String.ofList (Text.lower extension.toList)
  all.find? (·.extensions.contains folded)

/-- The language of a file by its extension, in any case. -/
def ofPath? (path : PathName) : Option Language :=
  ofExtension? path.suffix

end Language

end LayerLint.Import
