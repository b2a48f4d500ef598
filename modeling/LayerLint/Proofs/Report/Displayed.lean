import LayerLint.Proofs.Report.Written
import LayerLint.Proofs.Scan.Selected

/-!
# Paths as a report shows them

A file is shown by its path from the root of the project on. For a file that a scan has found this is
the path that the pattern of a rule was matched against, and a file that does not lie below the root
is shown by its whole path: `displayPath_exact`. What lies below a root is decided part by part and
not by the text, so a folder next to the root is not below it even if its name is longer than that of
the root by some letters only.
-/

namespace LayerLint

namespace PathName

def IsAbove (root p : PathName) : Prop := p.root = root.root ∧ root.parts <+: p.parts

instance (root p : PathName) : Decidable (root.IsAbove p) :=
  decidable_of_iff (p.root = root.root ∧ root.parts.isPrefixOf p.parts = true)
    (and_congr_right' List.isPrefixOf_iff_prefix)

theorem relativeTo?_append (root : PathName) (rel : List String) :
    relativeTo? ⟨root.root, root.parts ++ rel⟩ root = some rel := by
  have front : root.parts.isPrefixOf (root.parts ++ rel) = true :=
    List.isPrefixOf_iff_prefix.2 (List.prefix_append root.parts rel)
  simp [relativeTo?, front]

theorem relativeTo?_eq_none_iff {p root : PathName} : p.relativeTo? root = none ↔ ¬ root.IsAbove p := by
  unfold relativeTo? IsAbove
  rw [← List.isPrefixOf_iff_prefix]
  by_cases same : p.root = root.root
  · by_cases front : root.parts.isPrefixOf p.parts <;> simp [same, front]
  · simp [same]

theorem IsAbove.exists_append {root p : PathName} (h : root.IsAbove p) :
    ∃ rel, p = ⟨root.root, root.parts ++ rel⟩ := by
  obtain ⟨_, parts⟩ := p
  obtain ⟨rfl, rel, rfl⟩ := h
  exact ⟨rel, rfl⟩

/-- A component as `ofString` leaves it. -/
def IsPart (part : String) : Prop := part ≠ "" ∧ part ≠ "." ∧ '/' ∉ part.toList

theorem toString_relative {rel : List String} (ne : rel ≠ []) :
    PathName.toString ⟨"", rel⟩ = Scan.relativeText rel := by
  simp [PathName.toString, ne, Scan.relativeText]

end PathName

theorem IsName.isPart {name : String} (h : IsName name) : PathName.IsPart name :=
  ⟨h.ne_empty, h.ne_dot, h.no_slash⟩

section Display

open PathName (IsPart)

theorem displayPath_append {root : PathName} (clean : root.IsClean) {rel : List String}
    (parts : ∀ part ∈ rel, IsPart part) (ne : rel ≠ []) :
    displayPath (PathName.toString ⟨root.root, root.parts ++ rel⟩) root = Scan.relativeText rel := by
  have whole : PathName.IsClean ⟨root.root, root.parts ++ rel⟩ :=
    ⟨clean.root, fun part mem => (List.mem_append.1 mem).elim (clean.parts part) (parts part)⟩
  unfold displayPath
  rw [PathName.ofString_toString whole, PathName.relativeTo?_append]
  exact PathName.toString_relative ne

theorem displayPath_outside {file : String} {root : PathName}
    (outside : ¬ root.IsAbove (.ofString file)) : displayPath file root = file := by
  unfold displayPath
  rw [PathName.relativeTo?_eq_none_iff.2 outside]

/-- What is shown of a file below the root starts with no slash, so it is not the whole path. -/
theorem displayPath_ne {file : String} {root : PathName} (absolute : root.isAbsolute = true)
    (above : root.IsAbove (.ofString file)) : displayPath file root ≠ file := by
  obtain ⟨rel, text⟩ := above.exists_append
  have clean : PathName.IsClean ⟨"", rel⟩ := by
    have whole := PathName.isClean_ofString file
    rw [text] at whole
    exact ⟨.inl rfl, fun part mem => whole.parts part (List.mem_append_right _ mem)⟩
  intro same
  have shown : displayPath file root = PathName.toString ⟨"", rel⟩ := by
    unfold displayPath
    rw [text, PathName.relativeTo?_append]
  have relative : PathName.ofString file = ⟨"", rel⟩ := by
    rw [← same, shown, PathName.ofString_toString clean]
  rw [relative] at text
  have empty : "" = root.root := congrArg PathName.root text
  simp [PathName.isAbsolute, ← empty] at absolute

end Display

namespace Scan

variable {tree : FileTree} {options : Options} {glob : Glob} {root : Location}

theorem walkFrom_selects (depth : Nat) (parts : List String) (seen : List Location) :
    ∀ visit ∈ (walkFrom tree options glob root depth parts seen).1, ∀ path ∈ visit.paths,
      glob.selects (relativeText path) = true := by
  induction depth generalizing parts seen with
  | zero => simp [walkFrom]
  | succ depth ih =>
      rw [walkFrom]
      split
      · simp
      · rename_i location _
        split
        · simp [Visit.paths]
        · apply foldl_visits_all _ fun name _ seen => ih (parts ++ [name]) seen
          intro visit mem path hpath
          obtain rfl := List.mem_singleton.1 mem
          obtain ⟨name, hname, rfl⟩ := List.mem_map.1 hpath
          simp only [selectedFiles, selectedNames, List.mem_filter, Bool.and_eq_true] at hname
          exact hname.1.2.1.2

theorem walk_selects {path : List String}
    (mem : path ∈ (walk tree options glob root).flatMap Visit.paths) :
    glob.selects (relativeText path) = true := by
  obtain ⟨visit, hvisit, hpath⟩ := List.mem_flatMap.1 mem
  exact walkFrom_selects _ _ _ visit hvisit path hpath

theorem resolve_of_findRoot {folder : Handle} {given : PathName}
    (h : findRoot tree folder given = .ok root) :
    ∃ path, tree.resolve folder given = .ok path ∧ path.parts = root := by
  unfold findRoot at h
  split at h
  · cases h
  · cases h
  · rename_i path resolved
    refine ⟨path, resolved, ?_⟩
    split at h
    · cases h
    · cases h
    · cases h
    · exact Except.ok.inj h
    · cases h

theorem isName_of_findRoot (wf : tree.WellFormed) {folder : Handle} (here : "." ∉ folder.location)
    {given : PathName} (h : findRoot tree folder given = .ok root) : ∀ name ∈ root, IsName name := by
  obtain ⟨location, located, -⟩ := locate_of_status (status_of_findRoot h)
  obtain ⟨path, resolved, rfl⟩ := resolve_of_findRoot h
  exact FileTree.isName_of_resolve wf here resolved located

theorem displayPath_below (names : ∀ name ∈ root, IsName name) {rel : List String}
    (below : ∀ name ∈ rel, IsName name) (ne : rel ≠ []) :
    displayPath (Location.text (root ++ rel)) ⟨"/", root⟩ = relativeText rel := by
  have clean : PathName.IsClean ⟨"/", root⟩ :=
    ⟨.inr (.inl rfl), fun name mem => (names name mem).isPart⟩
  exact displayPath_append clean (fun name mem => (below name mem).isPart) ne

theorem displayPath_walk (wf : tree.WellFormed) (names : ∀ name ∈ root, IsName name)
    {rel : List String} (mem : rel ∈ (walk tree options glob root).flatMap Visit.paths) :
    displayPath (Location.text (root ++ rel)) ⟨"/", root⟩ = relativeText rel := by
  obtain ⟨ne, valid, -⟩ := walk_paths wf mem
  exact displayPath_below names valid ne

theorem found_of_files {session : Session} (wf : session.tree.WellFormed) {watch : Watch}
    {given : PathName} {pattern : String} {result : List Location}
    (scanned : ((files options watch given pattern).on session).1 = .ok result) :
    found session.tree session.folder options given pattern = .ok result := by
  have gives : Run.Gives session watch (files options watch given pattern) _ [] :=
    files_gives wf options given pattern
  have going : ∀ reason, ((files options watch given pattern).on session).1 ≠
      .error (.cancelled reason) := by
    intro reason cancelled
    rw [scanned] at cancelled
    cases cancelled
  exact (gives.result_eq (.refl wf) going).1.symm.trans scanned

end Scan

/-- Below a root a path is shown as what was put behind the root, so what a scan has found is shown as
what the pattern selected, and no two files are shown in the same way. A path is shown as it is only
if the root is not above it. -/
theorem displayPath_exact :
    (∀ root : PathName, root.IsClean → ∀ rel : List String, rel ≠ [] →
      (∀ part ∈ rel, PathName.IsPart part) →
        displayPath (PathName.toString ⟨root.root, root.parts ++ rel⟩) root = Scan.relativeText rel) ∧
    (∀ session : Session, session.tree.WellFormed → "." ∉ session.folder.location →
      ∀ (options : Scan.Options) (watch : Watch) (given : PathName) (pattern : String)
        (files : List Location),
        ((Scan.files options watch given pattern).on session).1 = .ok files →
          ∃ root glob, Scan.findRoot session.tree session.folder given = .ok root ∧
            Glob.compile pattern = .ok glob ∧
            (∀ file ∈ files, ∃ rel, file = root ++ rel ∧
              glob.selects (Scan.relativeText rel) = true ∧
              displayPath (Location.text file) ⟨"/", root⟩ = Scan.relativeText rel) ∧
            ∀ file ∈ files, ∀ other ∈ files,
              displayPath (Location.text file) ⟨"/", root⟩ =
                displayPath (Location.text other) ⟨"/", root⟩ → file = other) ∧
    ∀ (file : String) (root : PathName), root.isAbsolute = true →
      (displayPath file root = file ↔ ¬ root.IsAbove (.ofString file)) := by
  refine ⟨fun root clean rel ne parts => displayPath_append clean parts ne, ?_, ?_⟩
  · intro session wf here options watch given pattern files scanned
    obtain ⟨root, glob, hroot, hglob, below⟩ := Scan.mem_walk_of_found (Scan.found_of_files wf scanned)
    have names := Scan.isName_of_findRoot wf here hroot
    refine ⟨root, glob, hroot, hglob, ?_, ?_⟩
    · intro file mem
      obtain ⟨rel, hrel, rfl⟩ := below file mem
      exact ⟨rel, rfl, Scan.walk_selects hrel, Scan.displayPath_walk wf names hrel⟩
    · intro file mem other mem' same
      obtain ⟨rel, hrel, rfl⟩ := below file mem
      obtain ⟨rel', hrel', rfl⟩ := below other mem'
      rw [Scan.displayPath_walk wf names hrel, Scan.displayPath_walk wf names hrel'] at same
      rw [Scan.relativeText_inj_of_mem wf hrel hrel' same]
  · intro file root absolute
    constructor
    · exact fun same above => displayPath_ne absolute above same
    · exact displayPath_outside

/-- A tree where names have dots, blanks and backslashes in them. -/
def oddTree : FileTree where
  entries := [(["v1.2 beta"], .folder), (["v1.2 beta", "x\\y.ts"], .file [])]
  removed := []

theorem findRoot_oddTree : Scan.findRoot oddTree (oddTree.hold []) ⟨"/", []⟩ = .ok [] :=
  Scan.findRoot_of_real (by decide +kernel) _ (.nil _ _) ⟨rfl, by decide⟩

theorem found_oddTree :
    Scan.found oddTree (oddTree.hold []) ⟨false, false, []⟩ ⟨"/", []⟩ "**/*.ts" =
      .ok [["v1.2 beta", "x\\y.ts"]] := by
  obtain ⟨glob, hglob, selects⟩ :
      ∃ glob, Glob.compile "**/*.ts" = .ok glob ∧ glob.selects "v1.2 beta/x\\y.ts" = true :=
    Scan.exists_compile (by decide +kernel)
  have top : oddTree.locate [] = .ok [] := FileTree.locateFrom_nil ..
  have inner : oddTree.locate ["v1.2 beta"] = .ok ["v1.2 beta"] := by
    rw [FileTree.locate, FileTree.locateFrom_folder (by decide) rfl, FileTree.locateFrom_nil]
    rfl
  have last : oddTree.locate ["v1.2 beta", "x\\y.ts"] = .ok ["v1.2 beta", "x\\y.ts"] := by
    rw [FileTree.locate, FileTree.locateFrom_folder (by decide) rfl]
    exact FileTree.locateFrom_file (by decide) rfl _
  have folder : oddTree.status ["v1.2 beta"] = .ok .folder :=
    Scan.Usable.status ⟨by decide, by decide⟩ inner rfl
  have file : oddTree.status ["v1.2 beta", "x\\y.ts"] = .ok (.file []) :=
    Scan.Usable.status ⟨by decide, by decide⟩ last rfl
  have walked : Scan.walk oddTree ⟨false, false, []⟩ glob [] =
      [⟨[], false, false, []⟩, ⟨["v1.2 beta"], false, false, ["x\\y.ts"]⟩] := by
    have names : oddTree.names [] = ["v1.2 beta"] := by decide
    have names' : oddTree.names ["v1.2 beta"] = ["x\\y.ts"] := by decide
    have link : Scan.isLink oddTree [] "v1.2 beta" = false := rfl
    have entry : oddTree.get? ["v1.2 beta"] = some .folder := rfl
    have entry' : oddTree.get? ["v1.2 beta", "x\\y.ts"] = some (.file []) := rfl
    show (Scan.walkFrom oddTree _ glob [] 4 [] []).1 = _
    simp [Scan.walkFrom, top, inner, Scan.subfolders, Scan.selectsOverlong, Scan.selectedFiles,
      Scan.selectedNames, names, names', FileTree.isFile, FileTree.isFolder, folder, file, link,
      Scan.Options.keepsName, Scan.Options.drops, Scan.Options.dropsFolder, Scan.relativeText,
      selects, entry, entry']
  rw [Scan.found_eq findRoot_oddTree hglob, walked]
  simp [Scan.sortPaths, Scan.Visit.paths]

theorem displayPath_exact_oddTree :
    ((Scan.files ⟨false, false, []⟩ .off ⟨"/", []⟩ "**/*.ts").on (.ofTree oddTree)).1 =
        .ok [["v1.2 beta", "x\\y.ts"]] ∧
      displayPath "/v1.2 beta/x\\y.ts" ⟨"/", []⟩ = "v1.2 beta/x\\y.ts" ∧
      displayPath "/work/app2/a.ts" ⟨"/", ["work", "app"]⟩ = "/work/app2/a.ts" := by
  obtain ⟨-, scanned, outside⟩ := displayPath_exact
  have wf : oddTree.WellFormed := by decide +kernel
  have gives : Run.Gives (.ofTree oddTree) .off
      (Scan.files ⟨false, false, []⟩ .off ⟨"/", []⟩ "**/*.ts") _ [] := Scan.files_gives wf _ _ _
  have result := (gives.result_eq_of_quiet (.refl wf) (Watch.quiet_off _)).1.trans found_oddTree
  obtain ⟨root, glob, hroot, -, shown, -⟩ :=
    scanned (.ofTree oddTree) wf List.not_mem_nil _ _ _ _ _ result
  obtain rfl : [] = root := Except.ok.inj (findRoot_oddTree.symm.trans hroot)
  obtain ⟨rel, rfl, -, display⟩ := shown _ List.mem_cons_self
  exact ⟨result, display, (outside _ _ rfl).2 (by decide +kernel)⟩

end LayerLint
