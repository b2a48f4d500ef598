import LayerLint.Failure
import LayerLint.Glob.Regex

/-!
# Globs

A glob is a pattern that selects paths relative to a project root:

* `*` any text inside one path component, `?` one character, `[abc]` and `[!abc]` sets of
  characters;
* `**` as a whole segment any number of directories, and at the end everything below;
* `{a,b}` a choice, which may be nested.
-/

namespace LayerLint

/-- A pattern ready to be matched: one expression for each way to resolve its choices. -/
structure Glob where
  pattern : String
  expressions : List (List Glob.Item)

/-- The patterns without choices that a pattern stands for. Choices that lie too deep inside each
other are not worked out. -/
def Glob.expand (pattern : String) : Except Failure (List String) :=
  if Glob.isShallow pattern.toList then
    .ok ((Glob.expandBraces pattern.toList).map String.ofList)
  else .error .tooDeep

/-- Prepares a pattern. Nothing for a pattern with a set that is reversed or never closed. -/
def Glob.compile? (pattern : String) : Option Glob :=
  ((Glob.expandBraces pattern.toList).mapM fun p => Glob.Regex.read? (Glob.regexText p)).map
    (⟨pattern, ·⟩)

/-- The same, with the reason for which a pattern is refused. -/
def Glob.compile (pattern : String) : Except Failure Glob :=
  if Glob.isShallow pattern.toList then
    match Glob.compile? pattern with
    | none => .error .badPattern
    | some glob => .ok glob
  else .error .tooDeep

def Glob.selects (glob : Glob) (path : String) : Bool :=
  glob.expressions.any fun items => Glob.Regex.accepts items path.toList

end LayerLint
