import LayerLint.Proofs.FileTree.Projects
import LayerLint.Proofs.Scan.Selected

/-!
# Scans of projects without links

What a scan finds in a project without links depends on three things: which files there are, which
paths pass the filters, and which paths are short enough to be looked up. `found_project` says so, and
two projects can be compared by it: projects that differ in one file (`found_except`), and a project and
its copy (`found_copy`).
-/

namespace LayerLint

open FileTree (IsCopy)

namespace Scan

variable {tree other : FileTree} {options : Options} {glob : Glob} {root base : Location}
  {rel : List String}

/-- A path that no filter leaves out. -/
structure Passes (options : Options) (glob : Glob) (rel : List String) : Prop where
  nonempty : rel ≠ []
  shown : options.allowHidden = true ∨ ∀ name ∈ rel, name.toList.head? ≠ some '.'
  selected : glob.selects (relativeText rel) = true
  notExcluded : ∀ exclude ∈ options.excludes, exclude.selects (relativeText rel) = false
  foldersNotExcluded : ∀ above, IsAncestor above rel → ∀ exclude ∈ options.excludes,
    exclude.selects (relativeText above) = false ∧
      exclude.selects (relativeText above ++ "/") = false

theorem eligible_iff : Eligible tree options glob root rel ↔
    Passes options glob rel ∧
      ∀ above, IsAncestor above rel → entryOf? tree (root ++ above) = some .folder :=
  ⟨fun h => ⟨⟨h.nonempty, h.shown, h.selected, h.notExcluded, h.foldersNotExcluded⟩,
      h.throughFolders⟩,
    fun ⟨h, through⟩ => ⟨h.nonempty, through, h.shown, h.selected, h.notExcluded,
      h.foldersNotExcluded⟩⟩

/-! ## Looking up what is below a project -/

theorem locate_of_get? (wf : tree.WellFormed) {location : Location} {entry : Entry}
    (h : tree.get? location = some entry) (noLink : ∀ target, entry ≠ .link target) :
    tree.locate location = .ok location := by
  rcases List.eq_nil_or_concat location with rfl | ⟨init, name, rfl⟩
  · exact FileTree.locateFrom_nil ..
  · rw [List.concat_eq_append] at h ⊢
    have real : tree.RealBelow [] init := FileTree.realBelow_of_get? wf [name] (by simp) h
    have named : IsName name := FileTree.isName_of_get? wf h name (by simp)
    have all := real.locateFrom wf FileTree.maxLinks [name]
    rw [List.nil_append] at all
    rw [FileTree.locate, all]
    cases entry with
    | file bytes => exact FileTree.locateFrom_file named h _
    | folder => rw [FileTree.locateFrom_folder named h, FileTree.locateFrom_nil]
    | link target => exact absurd rfl (noLink target)

theorem status_of_get? (wf : tree.WellFormed) {location : Location} {entry : Entry}
    (h : tree.get? location = some entry) (noLink : ∀ target, entry ≠ .link target)
    (usable : Usable location) : tree.status location = .ok entry :=
  usable.status (locate_of_get? wf h noLink) h

theorem status_of_not_usable {location : Location} (named : ∀ name ∈ location, IsName name)
    (h : ¬ Usable location) : tree.status location = .error .nameTooLong := by
  have noNull : location.any FileTree.hasNull = false := by
    simpa using fun name mem => (named name mem).no_null
  have long : FileTree.maxPathBytes < (Location.text location).utf8ByteSize := by
    rw [← Nat.not_le]
    exact fun short => h ⟨noNull, short⟩
  rw [FileTree.status, noNull, if_neg Bool.false_ne_true, if_pos long]

theorem isFolder_of_get? (wf : tree.WellFormed) {location : Location}
    (h : tree.get? location = some .folder) (usable : Usable location) :
    tree.isFolder location = true :=
  isFolder_iff.2 (status_of_get? wf h (fun _ h => by cases h) usable)

section Project

variable (project : tree.IsProject root)

include project

theorem leadsTo_self : LeadsTo tree root root := by
  have folder : tree.get? root = some .folder := by
    by_cases top : root = []
    · rw [top, FileTree.get?_nil]
    · exact project.real root top List.prefix_rfl
  exact ⟨locate_of_get? project.wellFormed folder (fun _ h => by cases h), folder⟩

/-- A path below a project leads through folders if there is something at its end. -/
theorem throughFolders_of_get? {entry : Entry} (h : tree.get? (root ++ rel) = some entry) :
    ∀ above, IsAncestor above rel → entryOf? tree (root ++ above) = some .folder := by
  rintro above ⟨ne, ⟨rest, rfl⟩, more⟩
  have real : tree.RealBelow root above :=
    FileTree.realBelow_of_get? project.wellFormed rest
      (fun none => more (by simp [none])) (by simpa using h)
  exact (realBelow_iff (leadsTo_self project) project.wellFormed above).1 real above ne
    List.prefix_rfl

theorem get?_of_eligible (eligible : Eligible tree options glob root rel)
    (h : ∃ entry, entryOf? tree (root ++ rel) = some entry ∧ entry ≠ .folder) :
    tree.FileAt (root ++ rel) := by
  obtain ⟨entry, found, notFolder⟩ := h
  obtain ⟨parts, name, rfl⟩ : ∃ parts name, rel = parts ++ [name] :=
    ⟨_, _, (List.dropLast_concat_getLast eligible.nonempty).symm⟩
  have lead := leadsTo_self project
  rw [entryOf?_below lead project.wellFormed (eligible.realBelow lead project.wellFormed),
    List.append_assoc] at found
  cases entry with
  | file bytes => exact ⟨bytes, found⟩
  | folder => exact absurd rfl notFolder
  | link target => exact absurd found (project.noLinks _ target)

theorem eligible_file_iff :
    Eligible tree options glob root rel ∧ tree.isFile (root ++ rel) = true ↔
      Passes options glob rel ∧ tree.FileAt (root ++ rel) ∧ Usable (root ++ rel) := by
  have wf := project.wellFormed
  constructor
  · rintro ⟨eligible, isFile⟩
    obtain ⟨bytes, status⟩ := isFile_iff.1 isFile
    have usable := usable_of_status status
    refine ⟨(eligible_iff.1 eligible).1, ?_, usable⟩
    obtain ⟨parts, name, rfl⟩ : ∃ parts name, rel = parts ++ [name] :=
      ⟨_, _, (List.dropLast_concat_getLast eligible.nonempty).symm⟩
    have lead := leadsTo_self project
    have real := eligible.realBelow lead wf
    obtain ⟨entry, found⟩ := get?_of_mem_names
      (mem_names_of_isFile lead wf real (by rwa [List.append_assoc]))
    rw [List.append_assoc] at found
    have same := status_of_get? wf found (fun target h => project.noLinks _ target (h ▸ found)) usable
    rw [status] at same
    exact ⟨bytes, Except.ok.inj same ▸ found⟩
  · rintro ⟨passes, ⟨bytes, found⟩, usable⟩
    exact ⟨eligible_iff.2 ⟨passes, throughFolders_of_get? project found⟩,
      isFile_iff.2 ⟨bytes, status_of_get? wf found (fun _ h => by cases h) usable⟩⟩

theorem blocks_iff :
    Blocks tree options glob root rel ↔
      Passes options glob rel ∧ tree.FileAt (root ++ rel) ∧ Usable (root ++ rel.dropLast) ∧
        ¬ Usable (root ++ rel) := by
  have wf := project.wellFormed
  constructor
  · intro blocks
    have file := get?_of_eligible project blocks.toEligible blocks.notFolder
    refine ⟨(eligible_iff.1 blocks.toEligible).1, file,
      usable_of_status (isFolder_iff.1 blocks.listed), fun usable => ?_⟩
    obtain ⟨bytes, found⟩ := file
    cases (status_of_get? wf found (fun _ h => by cases h) usable).symm.trans blocks.overlong
  · rintro ⟨passes, ⟨bytes, found⟩, listed, long⟩
    have through := throughFolders_of_get? project found
    obtain ⟨parts, name, rfl⟩ : ∃ parts name, rel = parts ++ [name] :=
      ⟨_, _, (List.dropLast_concat_getLast passes.nonempty).symm⟩
    rw [List.dropLast_concat] at listed
    have above : tree.get? (root ++ parts) = some .folder :=
      FileTree.get?_of_below wf [name] (by simp) (by simpa using found)
    have real : tree.RealBelow root parts :=
      FileTree.realBelow_of_get? wf [name] (by simp) (by simpa using found)
    refine ⟨eligible_iff.2 ⟨passes, through⟩, ?_, ⟨.file bytes, ?_, fun h => by cases h⟩, ?_⟩
    · rw [List.dropLast_concat]
      exact isFolder_of_get? wf above listed
    · rw [entryOf?_below (leadsTo_self project) wf real, List.append_assoc]
      exact found
    · exact status_of_not_usable (FileTree.isName_of_get? wf found) long

end Project

/-! ## Scans of projects -/

/-- A file that passes the filters and can be looked up. -/
structure Listed (tree : FileTree) (options : Options) (glob : Glob) (root : Location)
    (rel : List String) : Prop where
  passes : Passes options glob rel
  file : tree.FileAt (root ++ rel)
  usable : Usable (root ++ rel)

/-- A file that passes the filters and cannot be looked up, in a folder that can. -/
structure Unlisted (tree : FileTree) (options : Options) (glob : Glob) (root : Location)
    (rel : List String) : Prop where
  passes : Passes options glob rel
  file : tree.FileAt (root ++ rel)
  usableFolder : Usable (root ++ rel.dropLast)
  overlong : ¬ Usable (root ++ rel)

/-- Paths in increasing order, each once, are known by their members. -/
theorem eq_of_increasing {rels others : List (List String)}
    (increasing : rels.Pairwise fun a b => relativeText a < relativeText b)
    (increasing' : others.Pairwise fun a b => relativeText a < relativeText b)
    (mem : ∀ rel, rel ∈ rels ↔ rel ∈ others) : rels = others := by
  have nodup {xs : List (List String)}
      (h : xs.Pairwise fun a b => relativeText a < relativeText b) : xs.Nodup := by
    refine h.imp fun {a b} lt same => ?_
    rw [same] at lt
    exact String.lt_irrefl _ lt
  refine List.Perm.eq_of_pairwise (fun a b _ _ ab ba => ?_) increasing increasing'
    ((List.perm_ext_iff_of_nodup (nodup increasing) (nodup increasing')).2 mem)
  exact absurd (String.lt_trans ab ba) (String.lt_irrefl _)

section Found

variable {folder : Handle} {given : PathName} {pattern : String}

/-- A scan of a project finds the files that are listed, in increasing order of their paths, unless
one that passes the filters cannot be looked up. -/
theorem found_project (project : tree.IsProject root)
    (hroot : findRoot tree folder given = .ok root) (hglob : Glob.compile pattern = .ok glob)
    (noLinks : options.followLinks = false) :
    ((∃ rel, Unlisted tree options glob root rel) →
      found tree folder options given pattern = .error (.cannotOpen "OSError")) ∧
    ((¬ ∃ rel, Unlisted tree options glob root rel) →
      ∃ rels : List (List String),
        found tree folder options given pattern = .ok (rels.map (root ++ ·)) ∧
        (∀ rel, rel ∈ rels ↔ Listed tree options glob root rel) ∧
        rels.Pairwise fun a b => relativeText a < relativeText b) := by
  obtain ⟨blocked, clear⟩ := @found_exact tree options glob root _ _ _ project.wellFormed hroot hglob
    noLinks
  have unlisted : (∃ rel, Unlisted tree options glob root rel) ↔
      ∃ rel, Blocks tree options glob root rel := by
    refine exists_congr fun rel => ?_
    rw [blocks_iff project]
    exact ⟨fun h => ⟨h.passes, h.file, h.usableFolder, h.overlong⟩,
      fun ⟨passes, file, usable, long⟩ => ⟨passes, file, usable, long⟩⟩
  rw [unlisted]
  refine ⟨blocked, fun none => ?_⟩
  obtain ⟨rels, returned, mem, increasing⟩ := clear none
  refine ⟨rels, returned, fun rel => ?_, increasing⟩
  rw [mem, eligible_file_iff project]
  exact ⟨fun ⟨passes, file, usable⟩ => ⟨passes, file, usable⟩,
    fun h => ⟨h.passes, h.file, h.usable⟩⟩

theorem found_project_eq (project : tree.IsProject root)
    (hroot : findRoot tree folder given = .ok root) (hglob : Glob.compile pattern = .ok glob)
    (noLinks : options.followLinks = false) (none : ¬ ∃ rel, Unlisted tree options glob root rel)
    {rels : List (List String)} (mem : ∀ rel, rel ∈ rels ↔ Listed tree options glob root rel)
    (increasing : rels.Pairwise fun a b => relativeText a < relativeText b) :
    found tree folder options given pattern = .ok (rels.map (root ++ ·)) := by
  obtain ⟨others, returned, mem', increasing'⟩ :=
    (found_project project hroot hglob noLinks).2 none
  rw [returned, eq_of_increasing increasing' increasing fun rel => (mem' rel).trans (mem rel).symm]

/-- A project whose files are known, all of them selected and none of them left out. -/
theorem found_all (project : tree.IsProject root) (hroot : findRoot tree folder given = .ok root)
    (hglob : Glob.compile pattern = .ok glob) (noLinks : options.followLinks = false)
    (noExcludes : options.excludes = []) {rels : List (List String)}
    (files : ∀ rel, tree.FileAt (root ++ rel) ↔ rel ∈ rels)
    (selected : ∀ rel ∈ rels, rel ≠ [] ∧ (∀ name ∈ rel, name.toList.head? ≠ some '.') ∧
      glob.selects (relativeText rel) = true)
    (usable : ∀ rel ∈ rels, Usable (root ++ rel))
    (increasing : rels.Pairwise fun a b => relativeText a < relativeText b) :
    found tree folder options given pattern = .ok (rels.map (root ++ ·)) := by
  refine found_project_eq project hroot hglob noLinks ?_ (fun rel => ⟨fun mem => ?_, fun h => ?_⟩)
    increasing
  · rintro ⟨rel, h⟩
    exact h.overlong (usable rel ((files rel).1 h.file))
  · obtain ⟨ne, shown, selects⟩ := selected rel mem
    refine ⟨⟨ne, .inr shown, selects, ?_, fun above _ => ?_⟩, (files rel).2 mem, usable rel mem⟩
    · rw [noExcludes]
      exact List.forall_mem_nil _
    · rw [noExcludes]
      exact List.forall_mem_nil _
  · exact (files rel).1 h.file

/-- What a scan of a project has found, if it has found it. -/
theorem found_project_ok (project : tree.IsProject root)
    (hroot : findRoot tree folder given = .ok root) (noLinks : options.followLinks = false)
    {files : List Location} (returned : found tree folder options given pattern = .ok files) :
    ∃ (glob : Glob) (rels : List (List String)),
      Glob.compile pattern = .ok glob ∧ files = rels.map (root ++ ·) ∧
      (∀ rel, rel ∈ rels ↔ Listed tree options glob root rel) ∧
      rels.Pairwise fun a b => relativeText a < relativeText b := by
  cases hglob : Glob.compile pattern with
  | error failure =>
      rw [found_of_glob_error hroot hglob] at returned
      cases returned
  | ok glob =>
      obtain ⟨blocked, clear⟩ := @found_project tree options glob root _ _ _ project hroot hglob noLinks
      obtain ⟨rels, returned', mem, increasing⟩ :=
        clear fun unlisted => by cases returned.symm.trans (blocked unlisted)
      exact ⟨glob, rels, rfl, Except.ok.inj (returned.symm.trans returned'), mem, increasing⟩

/-- Two projects that differ in one file only: apart from this file, scans find the same. -/
theorem found_except {folder' : Handle} {given' : PathName} {spare : List String}
    {files files' : List Location}
    (project : tree.IsProject root) (project' : other.IsProject root)
    (hroot : findRoot tree folder given = .ok root)
    (hroot' : findRoot other folder' given' = .ok root)
    (same : ∀ rel, rel ≠ spare → (tree.FileAt (root ++ rel) ↔ other.FileAt (root ++ rel)))
    (noLinks : options.followLinks = false)
    (returned : found tree folder options given pattern = .ok files)
    (returned' : found other folder' options given' pattern = .ok files') :
    files.filter (· ≠ root ++ spare) = files'.filter (· ≠ root ++ spare) := by
  obtain ⟨glob, rels, hglob, rfl, mem, increasing⟩ :=
    found_project_ok project hroot noLinks returned
  obtain ⟨glob', rels', hglob', rfl, mem', increasing'⟩ :=
    found_project_ok project' hroot' noLinks returned'
  obtain rfl := Except.ok.inj (hglob.symm.trans hglob')
  have kept : rels.filter (· ≠ spare) = rels'.filter (· ≠ spare) := by
    refine eq_of_increasing (increasing.filter _) (increasing'.filter _) fun rel => ?_
    rw [List.mem_filter, List.mem_filter, mem, mem', decide_eq_true_eq]
    refine and_congr_left fun ne => ?_
    exact ⟨fun h => ⟨h.passes, (same rel ne).1 h.file, h.usable⟩,
      fun h => ⟨h.passes, (same rel ne).2 h.file, h.usable⟩⟩
  have moved (xs : List (List String)) :
      (xs.map (root ++ ·)).filter (· ≠ root ++ spare) = (xs.filter (· ≠ spare)).map (root ++ ·) := by
    rw [List.filter_map]
    congr 1
    exact List.filter_congr fun rel _ => by simp
  rw [moved, moved, kept]

/-- The same paths can be looked up, in both places. -/
def FitsAlike (tree : FileTree) (root root' : Location) : Prop :=
  ∀ rel entry, tree.get? (root ++ rel) = some entry → (Usable (root ++ rel) ↔ Usable (root' ++ rel))

theorem listed_copy {root' : Location} (copy : IsCopy tree other root root')
    (fits : FitsAlike tree root root') (rel : List String) :
    Listed other options glob root' rel ↔ Listed tree options glob root rel := by
  constructor
  · rintro ⟨passes, ⟨bytes, found⟩, usable⟩
    rw [copy.same] at found
    exact ⟨passes, ⟨bytes, found⟩, (fits rel _ found).2 usable⟩
  · rintro ⟨passes, ⟨bytes, found⟩, usable⟩
    exact ⟨passes, ⟨bytes, (copy.same rel).trans found⟩, (fits rel _ found).1 usable⟩

theorem unlisted_copy {root' : Location} (copy : IsCopy tree other root root')
    (fits : FitsAlike tree root root') (rel : List String) :
    Unlisted other options glob root' rel ↔ Unlisted tree options glob root rel := by
  have folder {bytes : List UInt8} (ne : rel ≠ [])
      (found : tree.get? (root ++ rel) = some (.file bytes)) :
      tree.get? (root ++ rel.dropLast) = some .folder := by
    have below : tree.get? (root ++ rel.dropLast ++ [rel.getLast ne]) = some (.file bytes) := by
      rwa [List.append_assoc, List.dropLast_concat_getLast]
    exact FileTree.get?_of_below copy.project.wellFormed [rel.getLast ne] (by simp) below
  constructor
  · rintro ⟨passes, ⟨bytes, found⟩, usable, long⟩
    rw [copy.same] at found
    exact ⟨passes, ⟨bytes, found⟩, (fits _ _ (folder passes.nonempty found)).2 usable,
      fun short => long ((fits rel _ found).1 short)⟩
  · rintro ⟨passes, ⟨bytes, found⟩, usable, long⟩
    exact ⟨passes, ⟨bytes, (copy.same rel).trans found⟩,
      (fits _ _ (folder passes.nonempty found)).1 usable,
      fun short => long ((fits rel _ found).2 short)⟩

/-- Scans find the same files in a project and in a copy of it, if the same paths can be looked up. -/
theorem found_copy {root' : Location} {folder' : Handle} {given' : PathName}
    (copy : IsCopy tree other root root') (fits : FitsAlike tree root root')
    (hroot : findRoot tree folder given = .ok root)
    (hroot' : findRoot other folder' given' = .ok root') (noLinks : options.followLinks = false) :
    ∃ outcome : Except Failure (List (List String)),
      found tree folder options given pattern = outcome.map (·.map (root ++ ·)) ∧
      found other folder' options given' pattern = outcome.map (·.map (root' ++ ·)) ∧
      ∀ rels, outcome = .ok rels → ∀ rel ∈ rels,
        rel ≠ [] ∧ tree.FileAt (root ++ rel) ∧ Usable (root ++ rel) := by
  cases hglob : Glob.compile pattern with
  | error failure =>
      exact ⟨.error failure, found_of_glob_error hroot hglob, found_of_glob_error hroot' hglob,
        fun rels h => by cases h⟩
  | ok glob =>
      obtain ⟨blocked, clear⟩ :=
        @found_project tree options glob root _ _ _ copy.project hroot hglob noLinks
      by_cases unlisted : ∃ rel, Unlisted tree options glob root rel
      · have unlisted' : ∃ rel, Unlisted other options glob root' rel :=
          (exists_congr fun rel => unlisted_copy copy fits rel).2 unlisted
        exact ⟨.error _, blocked unlisted,
          (found_project copy.copy hroot' hglob noLinks).1 unlisted', fun rels h => by cases h⟩
      · obtain ⟨rels, returned, mem, increasing⟩ := clear unlisted
        refine ⟨.ok rels, returned, found_project_eq copy.copy hroot' hglob noLinks ?_
          (fun rel => ?_) increasing, fun others h rel hrel => ?_⟩
        · exact fun ⟨rel, h⟩ => unlisted ⟨rel, (unlisted_copy copy fits rel).1 h⟩
        · rw [mem, listed_copy copy fits]
        · obtain rfl := Except.ok.inj h
          have listed := (mem rel).1 hrel
          exact ⟨listed.passes.nonempty, listed.file, listed.usable⟩

end Found

end Scan

end LayerLint
