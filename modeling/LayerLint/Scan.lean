import LayerLint.Scan.Walk
import LayerLint.Session

/-!
# Scans

A scan finds the files of a project that a pattern selects, in increasing order of their paths below
the root. Before every folder it looks whether it has to stop.
-/

namespace LayerLint

/-- What makes a check stop: the signal, if it is watched, and a deadline. -/
structure Watch where
  signal : Bool
  /-- How long the check may take, as it was written. -/
  timeout : Value
  deadline : Option Float

namespace Watch

def signalOnly : Watch := ⟨true, .int 0, none⟩

def off : Watch := ⟨false, .int 0, none⟩

def cancelled (watch : Watch) : Run Bool :=
  if watch.signal then Run.poll else return false

def expired (watch : Watch) : Run Bool :=
  match watch.deadline with
  | none => return false
  | some deadline => return (← Run.time) >= deadline

def isSet (watch : Watch) : Run Bool := do
  if ← watch.cancelled then return true
  watch.expired

def check (watch : Watch) : Run Unit := do
  if ← watch.cancelled then throw (.cancelled "cancelled by caller")
  if ← watch.expired then throw (.cancelled ("timed out after " ++ watch.timeout.text ++ "s"))

end Watch

namespace Scan

def source : String := "layerguard.scanning.scanner"

def follow (watch : Watch) (root : Location) : List Visit → Run Unit
  | [] => return
  | visit :: rest => do
      if ← watch.isSet then throw (.cancelled "cancel signal received during scan")
      if visit.again then
        Run.note .debug source
          ("Skipped (already visited): " ++ Location.text (root ++ visit.parts))
      if visit.stuck then throw (.ofFault .nameTooLong)
      follow watch root rest

/-- The files below a folder that a pattern selects, as paths from the root of the tree on. -/
def files (options : Options) (watch : Watch) (given : PathName) (pattern : String) :
    Run (List Location) := do
  let session ← get
  let root ← Run.ofExcept (findRoot session.tree session.folder given)
  let glob ← Run.ofExcept (Glob.compile pattern)
  let visits := walk session.tree options glob root
  follow watch root visits
  let found := sortPaths (visits.flatMap Visit.paths)
  Run.note .debug source
    ("Scan of " ++ Location.text root ++ " for " ++ Text.quoted pattern ++ ": "
      ++ toString found.length ++ " files")
  return found.map (root ++ ·)

end Scan

end LayerLint
