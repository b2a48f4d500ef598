import LayerLint.Proofs.Scan.Found
import Mathlib.Data.List.Induction

/-!
# The files of a scan

Which files a scan finds, said without the walk: `files_exact`. A path below the root is looked at if
it leads through real folders only and passes the filters, for itself and for every folder on the way
(`Eligible`). The scan finds the eligible paths of files in increasing order, unless there is one that
is too long to be looked up.
-/

namespace LayerLint.Scan

variable {tree : FileTree} {options : Options} {glob : Glob} {root base : Location}

/-! ## What is selected -/

/-- What stands at the end of a path, where a link at the very end is not followed. -/
def entryOf? (tree : FileTree) (path : List String) : Option Entry :=
  match path.getLast? with
  | none => tree.get? []
  | some name =>
      match tree.locate path.dropLast with
      | .ok folder => tree.get? (folder ++ [name])
      | .error _ => none

def IsAncestor (above rel : List String) : Prop :=
  above ≠ [] ∧ above <+: rel ∧ above ≠ rel

/-- A path below the root that leads through real folders and that no filter leaves out. -/
structure Eligible (tree : FileTree) (options : Options) (glob : Glob) (root : Location)
    (rel : List String) : Prop where
  nonempty : rel ≠ []
  throughFolders : ∀ above, IsAncestor above rel → entryOf? tree (root ++ above) = some .folder
  shown : options.allowHidden = true ∨ ∀ name ∈ rel, name.toList.head? ≠ some '.'
  selected : glob.selects (relativeText rel) = true
  notExcluded : ∀ exclude ∈ options.excludes, exclude.selects (relativeText rel) = false
  foldersNotExcluded : ∀ above, IsAncestor above rel → ∀ exclude ∈ options.excludes,
    exclude.selects (relativeText above) = false ∧
      exclude.selects (relativeText above ++ "/") = false

/-- An eligible path, other than a folder, that the scan comes to and that is too long to be looked up,
or where a link leads on to a name that is too long. -/
structure Blocks (tree : FileTree) (options : Options) (glob : Glob) (root : Location)
    (rel : List String) : Prop extends Eligible tree options glob root rel where
  listed : tree.isFolder (root ++ rel.dropLast) = true
  notFolder : ∃ entry, entryOf? tree (root ++ rel) = some entry ∧ entry ≠ .folder
  overlong : tree.status (root ++ rel) = .error .nameTooLong

/-! ## Paths that can be looked up -/

/-- A path that is not too long and has no character that a path cannot have. -/
def Usable (path : List String) : Prop :=
  path.any FileTree.hasNull = false ∧ (Location.text path).utf8ByteSize ≤ FileTree.maxPathBytes

theorem usable_of_status {path : List String} {entry : Entry} (h : tree.status path = .ok entry) :
    Usable path := by
  unfold FileTree.status at h
  split at h
  · cases h
  · rename_i noNull
    split at h
    · cases h
    · rename_i short
      exact ⟨by simpa using noNull, Nat.not_lt.1 short⟩

theorem Usable.status {path : List String} (h : Usable path) {location : Location} {entry : Entry}
    (located : tree.locate path = .ok location) (found : tree.get? location = some entry) :
    tree.status path = .ok entry := by
  unfold FileTree.status
  rw [if_neg (by simp [h.1]), if_neg (Nat.not_lt.2 h.2), located]
  simp only [found]

theorem missing_of_absent {name : String} (valid : IsName name) (usable : Usable [name])
    (absent : tree.get? [name] = none) : tree.status [name] = .error .missing := by
  have located : tree.locate [name] = .error .missing := by
    rw [FileTree.locate, FileTree.locateFrom, if_neg valid.ne_dot, if_neg valid.ne_dots,
      if_neg (Nat.not_lt.2 valid.short), List.nil_append, absent]
  rw [FileTree.status, if_neg (by simp [usable.1]), if_neg (Nat.not_lt.2 usable.2), located]

theorem Usable.of_front {path above : List String} (h : Usable path) (front : above <+: path) :
    Usable above := by
  obtain ⟨rest, rfl⟩ := front
  constructor
  · exact (Bool.or_eq_false_iff.1 ((List.any_append ..).symm.trans h.1)).1
  · refine Nat.le_trans ?_ h.2
    unfold Location.text
    by_cases hrest : rest = []
    · simp [hrest]
    · by_cases habove : above = []
      · simp [habove]
      · rw [String.intercalate_append_of_ne_nil habove hrest]
        simp only [String.utf8ByteSize_append]
        omega

/-- The text in front of every path below a location. -/
def slashed (root : Location) : String :=
  if root = [] then "/" else Location.text root ++ "/"

theorem text_append (root : Location) {rel : List String} (ne : rel ≠ []) :
    Location.text (root ++ rel) = slashed root ++ relativeText rel := by
  unfold slashed relativeText
  by_cases top : root = []
  · simp [top, Location.text]
  · rw [if_neg top, Location.text, String.intercalate_append_of_ne_nil top ne]
    simp only [Location.text, String.append_assoc]

theorem slashed_toList (root : Location) : ∃ front, (slashed root).toList = front ++ ['/'] := by
  unfold slashed
  split
  · exact ⟨[], rfl⟩
  · exact ⟨(Location.text root).toList, String.toList_append⟩

theorem findRoot_of_real (wf : tree.WellFormed) (folder : Handle) (real : tree.RealBelow [] root)
    (usable : Usable root) : findRoot tree folder ⟨"/", root⟩ = .ok root := by
  have located : tree.locate root = .ok root := by
    unfold FileTree.locate
    have all := real.locateFrom wf FileTree.maxLinks []
    rwa [List.append_nil, FileTree.locateFrom_nil] at all
  have here : tree.get? root = some .folder := by
    by_cases top : root = []
    · rw [top, FileTree.get?_nil]
    · exact real root top List.prefix_rfl
  have status := usable.status located here
  unfold findRoot
  rw [real.resolve wf]
  simp only [status]

/-! ## Folders that the scan comes to -/

theorem entryOf?_below (lead : LeadsTo tree root base) (wf : tree.WellFormed) {parts : List String}
    (real : tree.RealBelow base parts) (name : String) :
    entryOf? tree (root ++ (parts ++ [name])) = tree.get? (base ++ parts ++ [name]) := by
  unfold entryOf?
  rw [← List.append_assoc, List.getLast?_concat, List.dropLast_concat]
  simp only [lead.locate wf real]

theorem realBelow_iff (lead : LeadsTo tree root base) (wf : tree.WellFormed) (parts : List String) :
    tree.RealBelow base parts ↔
      ∀ above, above ≠ [] → above <+: parts → entryOf? tree (root ++ above) = some .folder := by
  induction parts using List.reverseRecOn with
  | nil =>
      refine ⟨fun _ above ne front => ?_, fun _ => .nil tree base⟩
      exact absurd (List.prefix_nil.1 front) ne
  | append_singleton parts name ih =>
      rw [FileTree.RealBelow.concat]
      constructor
      · rintro ⟨real, last⟩ above ne front
        rcases List.prefix_concat_iff.1 front with rfl | front
        · rwa [entryOf?_below lead wf real]
        · exact ih.1 real above ne front
      · intro h
        have real := ih.2 fun above ne front => h above ne (front.trans (List.prefix_append ..))
        refine ⟨real, ?_⟩
        rw [← entryOf?_below lead wf real]
        exact h _ (by simp) List.prefix_rfl

theorem keepsName_iff (name : String) :
    options.keepsName name = true ↔ options.allowHidden = true ∨ name.toList.head? ≠ some '.' := by
  unfold Options.keepsName
  rw [Bool.or_eq_true, bne_iff_ne]

theorem dropsFolder_iff (path : String) :
    options.dropsFolder path = false ↔
      ∀ exclude ∈ options.excludes,
        exclude.selects path = false ∧ exclude.selects (path ++ "/") = false := by
  simp only [Options.dropsFolder, Options.drops, Bool.or_eq_false_iff, List.any_eq_false,
    Bool.not_eq_true]
  exact ⟨fun h exclude mem => ⟨h.1 exclude mem, h.2 exclude mem⟩,
    fun h => ⟨fun exclude mem => (h exclude mem).1, fun exclude mem => (h exclude mem).2⟩⟩

theorem Entered.usable (usable : Usable root) {parts : List String}
    (h : Entered tree options root base parts) : Usable (root ++ parts) := by
  induction parts using List.reverseRecOn with
  | nil => simpa using usable
  | append_singleton parts name _ =>
      have := usable_of_status (isFolder_iff.1 (Entered.concat.1 h).2.usable)
      rwa [List.append_assoc] at this

theorem entered_iff (lead : LeadsTo tree root base) (wf : tree.WellFormed) (usable : Usable root)
    (parts : List String) :
    Entered tree options root base parts ↔
      tree.RealBelow base parts ∧ Usable (root ++ parts) ∧
        (∀ name ∈ parts, options.keepsName name = true) ∧
        ∀ above, above ≠ [] → above <+: parts → options.dropsFolder (relativeText above) = false := by
  constructor
  · intro h
    refine ⟨h.realBelow, h.usable usable, fun name mem => ?_, fun above ne front => ?_⟩
    · obtain ⟨init, rest, rfl⟩ := List.append_of_mem mem
      exact (h init name ⟨rest, by simp⟩).kept
    · have := (h above.dropLast (above.getLast ne) (by rwa [List.dropLast_concat_getLast])).notDropped
      rwa [List.dropLast_concat_getLast] at this
  · rintro ⟨real, usable, kept, notDropped⟩ above name front
    have folder : tree.RealBelow base (above ++ [name]) := real.of_front front
    refine ⟨(FileTree.RealBelow.concat.1 folder).2, ?_, kept name (front.mem (by simp)),
      notDropped _ (by simp) front⟩
    rw [isFolder_iff, List.append_assoc]
    have short : Usable (root ++ (above ++ [name])) :=
      usable.of_front (List.prefix_append_right_inj root |>.2 front)
    refine short.status (lead.locate wf folder) ?_
    rw [← List.append_assoc]
    exact (FileTree.RealBelow.concat.1 folder).2

theorem get?_of_realBelow (lead : LeadsTo tree root base) {parts : List String}
    (real : tree.RealBelow base parts) : tree.get? (base ++ parts) = some .folder := by
  by_cases h : parts = []
  · simpa [h] using lead.folder
  · exact real parts h List.prefix_rfl

theorem Entered.isFolder (lead : LeadsTo tree root base) (wf : tree.WellFormed)
    (usable : Usable root) {parts : List String} (h : Entered tree options root base parts) :
    tree.isFolder (root ++ parts) = true :=
  isFolder_iff.2 ((h.usable usable).status (lead.locate wf h.realBelow)
    (get?_of_realBelow lead h.realBelow))

/-! ## Paths that are looked at -/

theorem isAncestor_concat {above parts : List String} {name : String} :
    IsAncestor above (parts ++ [name]) ↔ above ≠ [] ∧ above <+: parts := by
  unfold IsAncestor
  constructor
  · rintro ⟨nonempty, front, ne⟩
    exact ⟨nonempty, (List.prefix_concat_iff.1 front).resolve_left ne⟩
  · rintro ⟨nonempty, front⟩
    refine ⟨nonempty, front.trans (List.prefix_append ..), ?_⟩
    rintro rfl
    exact absurd front.length_le (by simp)

theorem Eligible.realBelow (lead : LeadsTo tree root base) (wf : tree.WellFormed)
    {parts : List String} {name : String}
    (h : Eligible tree options glob root (parts ++ [name])) : tree.RealBelow base parts :=
  (realBelow_iff lead wf parts).2 fun above ne front =>
    h.throughFolders above (isAncestor_concat.2 ⟨ne, front⟩)

theorem mem_selectedNames {parts : List String} {name : String} :
    name ∈ selectedNames tree options glob parts (base ++ parts) ↔
      name ∈ tree.names (base ++ parts) ∧ options.keepsName name = true ∧
        glob.selects (relativeText (parts ++ [name])) = true ∧
        ∀ exclude ∈ options.excludes, exclude.selects (relativeText (parts ++ [name])) = false := by
  simp only [selectedNames, Options.drops, List.mem_filter, Bool.and_eq_true, Bool.not_eq_true',
    List.any_eq_false, Bool.not_eq_true, and_assoc]

/-- The eligible names in a folder are those that the walk selects when it comes to the folder. -/
theorem eligible_concat (lead : LeadsTo tree root base) (wf : tree.WellFormed) (usable : Usable root)
    {parts : List String} {name : String} (mem : name ∈ tree.names (base ++ parts))
    (here : Usable (root ++ parts)) :
    Eligible tree options glob root (parts ++ [name]) ↔
      Entered tree options root base parts ∧
        name ∈ selectedNames tree options glob parts (base ++ parts) := by
  rw [entered_iff lead wf usable, realBelow_iff lead wf, mem_selectedNames]
  constructor
  · intro h
    have kept : ∀ other ∈ parts ++ [name], options.keepsName other = true := fun other hother =>
      (keepsName_iff other).2 (h.shown.imp_right fun shown => shown other hother)
    refine ⟨⟨fun above ne front => h.throughFolders above (isAncestor_concat.2 ⟨ne, front⟩), here,
      fun other hother => kept other (by simp [hother]), fun above ne front => ?_⟩,
      mem, kept name (by simp), h.selected, h.notExcluded⟩
    exact (dropsFolder_iff _).2 (h.foldersNotExcluded above (isAncestor_concat.2 ⟨ne, front⟩))
  · rintro ⟨⟨real, -, kept, notDropped⟩, -, keptLast, selected, notExcluded⟩
    refine ⟨by simp, fun above h => ?_, ?_, selected, notExcluded, fun above h => ?_⟩
    · obtain ⟨ne, front⟩ := isAncestor_concat.1 h
      exact real above ne front
    · rw [or_iff_not_imp_left]
      intro hidden other hother
      refine ((keepsName_iff other).1 ?_).resolve_left hidden
      rcases List.mem_append.1 hother with hother | hother
      · exact kept other hother
      · exact List.mem_singleton.1 hother ▸ keptLast
    · obtain ⟨ne, front⟩ := isAncestor_concat.1 h
      exact (dropsFolder_iff _).1 (notDropped above ne front)

theorem get?_of_mem_names {location : Location} {name : String}
    (mem : name ∈ tree.names location) : ∃ entry, tree.get? (location ++ [name]) = some entry := by
  obtain ⟨e, he, same⟩ := List.mem_map.1 (FileTree.mem_names.1 mem)
  rw [FileTree.get?_of_ne_nil tree (by simp), ← Option.isSome_iff_exists, List.lookup_isSome_iff]
  exact ⟨e, he, by simp [same]⟩

theorem get?_dropLast (wf : tree.WellFormed) {location : Location}
    (folder : tree.get? location = some .folder) : tree.get? location.dropLast = some .folder := by
  by_cases ne : location = []
  · simp [ne, FileTree.get?_nil]
  · refine wf.inFolder _ (location.getLast ne) ?_
    rw [List.dropLast_concat_getLast]
    exact FileTree.mem_locations ne folder

theorem mem_names_of_isFile (lead : LeadsTo tree root base) (wf : tree.WellFormed)
    {parts : List String} (real : tree.RealBelow base parts) {name : String}
    (isFile : tree.isFile (root ++ parts ++ [name]) = true) : name ∈ tree.names (base ++ parts) := by
  obtain ⟨left, hleft⟩ := lead.locate_append wf
  obtain ⟨bytes, hbytes⟩ := isFile_iff.1 isFile
  obtain ⟨location, located, found⟩ := locate_of_status hbytes
  have folder := get?_of_realBelow lead real
  rw [hleft parts real, FileTree.locateFrom] at located
  split at located
  · rw [FileTree.locateFrom_nil] at located
    obtain rfl := Except.ok.inj located
    rw [folder] at found
    cases found
  · split at located
    · rw [FileTree.locateFrom_nil] at located
      obtain rfl := Except.ok.inj located
      rw [get?_dropLast wf folder] at found
      cases found
    · split at located
      · cases located
      · cases here : tree.get? (base ++ parts ++ [name]) with
        | none =>
            rw [here] at located
            cases located
        | some entry => exact FileTree.mem_names_of_get? here

theorem mem_paths (lead : LeadsTo tree root base) (wf : tree.WellFormed) (usable : Usable root)
    (noLinks : options.followLinks = false) {rel : List String} :
    rel ∈ (walk tree options glob root).flatMap Visit.paths ↔
      Eligible tree options glob root rel ∧ tree.isFile (root ++ rel) = true := by
  rw [List.mem_flatMap]
  constructor
  · rintro ⟨visit, hvisit, hrel⟩
    obtain ⟨parts, entered, rfl⟩ := (mem_walk lead wf noLinks).1 hvisit
    obtain ⟨name, hname, rfl⟩ := List.mem_map.1 hrel
    obtain ⟨selected, isFile⟩ := List.mem_filter.1 hname
    refine ⟨(eligible_concat lead wf usable (mem_selectedNames.1 selected).1
      (entered.usable usable)).2 ⟨entered, selected⟩, ?_⟩
    rwa [← List.append_assoc]
  · rintro ⟨eligible, isFile⟩
    obtain ⟨parts, name, rfl⟩ : ∃ parts name, rel = parts ++ [name] :=
      ⟨_, _, (List.dropLast_concat_getLast eligible.nonempty).symm⟩
    have real := eligible.realBelow lead wf
    rw [← List.append_assoc] at isFile
    obtain ⟨bytes, status⟩ := isFile_iff.1 isFile
    have here : Usable (root ++ parts) := (usable_of_status status).of_front (List.prefix_append ..)
    obtain ⟨entered, selected⟩ := (eligible_concat lead wf usable
      (mem_names_of_isFile lead wf real isFile) here).1 eligible
    exact ⟨_, (mem_walk lead wf noLinks).2 ⟨parts, entered, rfl⟩,
      List.mem_map.2 ⟨name, List.mem_filter.2 ⟨selected, isFile⟩, rfl⟩⟩

theorem selectsOverlong_iff {parts : List String} {location : Location} :
    selectsOverlong tree options glob root parts location = true ↔
      ∃ name ∈ selectedNames tree options glob parts location,
        tree.get? (location ++ [name]) ≠ some .folder ∧
          tree.status (root ++ parts ++ [name]) = .error .nameTooLong := by
  unfold selectsOverlong
  simp only [List.any_eq_true, Bool.and_eq_true, decide_eq_true_eq]
  refine exists_congr fun name => and_congr_right fun _ => and_congr_right fun _ => ?_
  split <;> simp_all

theorem any_stuck_iff (lead : LeadsTo tree root base) (wf : tree.WellFormed) (usable : Usable root)
    (noLinks : options.followLinks = false) :
    (walk tree options glob root).any (·.stuck) = true ↔
      ∃ rel, Blocks tree options glob root rel := by
  rw [List.any_eq_true]
  constructor
  · rintro ⟨visit, hvisit, stuck⟩
    obtain ⟨parts, entered, rfl⟩ := (mem_walk lead wf noLinks).1 hvisit
    obtain ⟨name, selected, notFolder, overlong⟩ := selectsOverlong_iff.1 stuck
    have mem := (mem_selectedNames.1 selected).1
    obtain ⟨entry, hentry⟩ := get?_of_mem_names mem
    have eligible := (eligible_concat lead wf usable mem (entered.usable usable)).2
      ⟨entered, selected⟩
    refine ⟨parts ++ [name], eligible, ?_, ⟨entry, ?_, ?_⟩, ?_⟩
    · rw [List.dropLast_concat]
      exact entered.isFolder lead wf usable
    · rwa [entryOf?_below lead wf entered.realBelow]
    · rintro rfl
      exact notFolder hentry
    · rwa [← List.append_assoc]
  · rintro ⟨rel, eligible, listed, ⟨entry, hentry, notFolder⟩, overlong⟩
    obtain ⟨parts, name, rfl⟩ : ∃ parts name, rel = parts ++ [name] :=
      ⟨_, _, (List.dropLast_concat_getLast eligible.nonempty).symm⟩
    rw [List.dropLast_concat] at listed
    have real := eligible.realBelow lead wf
    rw [entryOf?_below lead wf real] at hentry
    obtain ⟨entered, selected⟩ := (eligible_concat lead wf usable
      (FileTree.mem_names_of_get? hentry) (usable_of_status (isFolder_iff.1 listed))).1 eligible
    refine ⟨_, (mem_walk lead wf noLinks).2 ⟨parts, entered, rfl⟩,
      selectsOverlong_iff.2 ⟨name, selected, ?_, ?_⟩⟩
    · rw [hentry]
      exact fun h => notFolder (Option.some.inj h)
    · rwa [List.append_assoc]

/-! ## The whole scan -/

theorem nodup_paths (lead : LeadsTo tree root base) (wf : tree.WellFormed)
    (noLinks : options.followLinks = false) :
    ((walk tree options glob root).flatMap Visit.paths).Nodup := by
  rw [List.nodup_flatMap]
  constructor
  · intro visit mem
    obtain ⟨parts, -, rfl⟩ := (mem_walk lead wf noLinks).1 mem
    refine List.Nodup.map (fun a b same => by simpa using same) ?_
    exact ((nodup_names wf _).filter _).filter _
  · refine (List.pairwise_map.1 (nodup_walk lead wf noLinks)).imp fun {v w} ne => ?_
    intro path hv hw
    obtain ⟨a, -, rfl⟩ := List.mem_map.1 hv
    obtain ⟨b, -, same⟩ := List.mem_map.1 hw
    exact ne (List.append_inj_left' same rfl).symm

theorem pairwise_sortPaths (wf : tree.WellFormed)
    (distinct : ((walk tree options glob root).flatMap Visit.paths).Nodup) :
    (sortPaths ((walk tree options glob root).flatMap Visit.paths)).Pairwise
      fun a b => relativeText a < relativeText b := by
  have sorted := pairwise_sorted relativeText ((walk tree options glob root).flatMap Visit.paths)
  have nodup := (List.mergeSort_perm ((walk tree options glob root).flatMap Visit.paths)
    fun a b => relativeText a ≤ relativeText b).nodup_iff.2 distinct
  refine (sorted.and nodup).imp_of_mem fun {a b} ha hb ⟨le, ne⟩ => ?_
  have same := relativeText_inj_of_mem wf (List.mem_mergeSort.1 ha) (List.mem_mergeSort.1 hb)
  exact String.not_le.1 fun ge => ne (same (String.le_antisymm le ge))

theorem found_exact {folder : Handle} {given : PathName} {pattern : String} (wf : tree.WellFormed)
    (hroot : findRoot tree folder given = .ok root) (hglob : Glob.compile pattern = .ok glob)
    (noLinks : options.followLinks = false) :
    ((∃ rel, Blocks tree options glob root rel) →
      found tree folder options given pattern = .error (.cannotOpen "OSError")) ∧
    ((¬ ∃ rel, Blocks tree options glob root rel) →
      ∃ rels : List (List String),
        found tree folder options given pattern = .ok (rels.map (root ++ ·)) ∧
        (∀ rel, rel ∈ rels ↔
          Eligible tree options glob root rel ∧ tree.isFile (root ++ rel) = true) ∧
        rels.Pairwise fun a b => relativeText a < relativeText b) := by
  have status := status_of_findRoot hroot
  obtain ⟨base, lead⟩ := leadsTo_of_status status
  have usable := usable_of_status status
  rw [found_eq hroot hglob, ← any_stuck_iff lead wf usable noLinks]
  refine ⟨fun stuck => ?_, fun clear => ?_⟩
  · rw [if_pos stuck]
    rfl
  · rw [if_neg clear]
    refine ⟨_, rfl, fun rel => ?_, pairwise_sortPaths wf (nodup_paths lead wf noLinks)⟩
    exact List.mem_mergeSort.trans (mem_paths lead wf usable noLinks)

/-- Without following links, a scan that is not cancelled finds the eligible paths of files, in
increasing order of their texts and each once, unless one path cannot be looked up. -/
theorem files_exact {session : Session} (wf : session.tree.WellFormed) (options : Options)
    (watch : Watch) (given : PathName) (pattern : String) {root : Location} {glob : Glob}
    (hroot : findRoot session.tree session.folder given = .ok root)
    (hglob : Glob.compile pattern = .ok glob) (noLinks : options.followLinks = false) :
    let outcome := ((files options watch given pattern).on session).1
    (watch.Quiet session → ∀ reason, outcome ≠ .error (.cancelled reason)) ∧
    ((∀ reason, outcome ≠ .error (.cancelled reason)) →
      ((∃ rel, Blocks session.tree options glob root rel) →
        outcome = .error (.cannotOpen "OSError")) ∧
      ((¬ ∃ rel, Blocks session.tree options glob root rel) →
        ∃ rels : List (List String),
          outcome = .ok (rels.map (root ++ ·)) ∧
          (∀ rel, rel ∈ rels ↔
            Eligible session.tree options glob root rel ∧
              session.tree.isFile (root ++ rel) = true) ∧
          rels.Pairwise fun a b => relativeText a < relativeText b)) := by
  intro outcome
  obtain ⟨blocked, clear⟩ := found_exact wf hroot hglob noLinks
  have gives : Run.Gives session watch (files options watch given pattern) _ [] :=
    files_gives wf options given pattern
  constructor
  · intro quiet reason
    rw [show outcome = _ from (gives.result_eq_of_quiet (.refl wf) quiet).1]
    by_cases blocks : ∃ rel, Blocks session.tree options glob root rel
    · rw [blocked blocks]
      nofun
    · obtain ⟨rels, found, -⟩ := clear blocks
      rw [found]
      nofun
  · intro going
    rw [show outcome = _ from (gives.result_eq (.refl wf) going).1]
    exact ⟨blocked, clear⟩

/-- A project with a hidden file, a folder to exclude, and links to a folder and to a file. -/
def sampleTree : FileTree where
  entries :=
    [(["p"], .folder), (["p", "a.ts"], .file []), (["p", "lib"], .folder),
      (["p", "lib", "b.ts"], .link "../a.ts"), (["p", "l"], .link "lib"),
      (["p", ".h.ts"], .file []), (["p", "old"], .folder), (["p", "old", "c.ts"], .file [])]
  removed := []

theorem not_blocks_sampleTree (options : Options) (glob : Glob) :
    ¬ ∃ rel, Blocks sampleTree options glob ["p"] rel := by
  rintro ⟨rel, eligible, -, ⟨entry, found, -⟩, overlong⟩
  have wf : sampleTree.WellFormed := by decide +kernel
  have located : sampleTree.locate ["p"] = .ok ["p"] := by
    simp +decide [FileTree.locate, FileTree.locateFrom, FileTree.get?, sampleTree]
  have lead : LeadsTo sampleTree ["p"] ["p"] := ⟨located, rfl⟩
  obtain ⟨parts, name, rfl⟩ : ∃ parts name, rel = parts ++ [name] :=
    ⟨_, _, (List.dropLast_concat_getLast eligible.nonempty).symm⟩
  rw [entryOf?_below lead wf (eligible.realBelow lead wf), List.append_assoc] at found
  have all : (sampleTree.entries.map (·.1)).all fun path => (sampleTree.status path).isOk := by
    simp +decide [sampleTree, FileTree.status, FileTree.hasNull, FileTree.maxPathBytes,
      FileTree.locate, FileTree.locateFrom, FileTree.get?, List.lookup_cons, FileTree.maxLinks,
      FileTree.linkStart, PathName.steps, PathName.pieces, Text.splitOn]
  have ok := List.all_eq_true.1 all _ (FileTree.mem_locations (by simp) found)
  rw [overlong] at ok
  cases ok

theorem files_exact_sampleTree :
    sampleTree.WellFormed ∧ findRoot sampleTree (sampleTree.hold []) ⟨"/", ["p"]⟩ = .ok ["p"] ∧
      ∃ glob old, Glob.compile "**/*.ts" = .ok glob ∧ Glob.compile "old" = .ok old ∧
        ∃ rels : List (List String),
          ((files ⟨false, false, [old]⟩ .off ⟨"/", ["p"]⟩ "**/*.ts").on (.ofTree sampleTree)).1 =
              .ok (rels.map (["p"] ++ ·)) ∧
            (∀ rel, rel ∈ rels ↔
              Eligible sampleTree ⟨false, false, [old]⟩ glob ["p"] rel ∧
                sampleTree.isFile (["p"] ++ rel) = true) ∧
            rels.Pairwise fun a b => relativeText a < relativeText b := by
  have wf : sampleTree.WellFormed := by decide +kernel
  have real : sampleTree.RealBelow [] ([] ++ ["p"]) := FileTree.RealBelow.concat.2 ⟨.nil _ _, rfl⟩
  have hroot := findRoot_of_real wf (sampleTree.hold []) real ⟨by decide, by decide⟩
  obtain ⟨glob, hglob, -⟩ : ∃ glob, Glob.compile "**/*.ts" = .ok glob ∧ glob.selects "a.ts" = true :=
    exists_compile (by decide +kernel)
  obtain ⟨old, hold, -⟩ : ∃ glob, Glob.compile "old" = .ok glob ∧ glob.selects "old" = true :=
    exists_compile (by decide +kernel)
  obtain ⟨going, exact⟩ := @files_exact (.ofTree sampleTree) wf ⟨false, false, [old]⟩ .off
    ⟨"/", ["p"]⟩ "**/*.ts" _ _ hroot hglob rfl
  exact ⟨wf, hroot, glob, old, hglob, hold,
    (exact (going ⟨rfl, nofun⟩)).2 (not_blocks_sampleTree _ glob)⟩

/-! ## A link to a name that is too long -/

theorem steps_of_no_slash {cs : List Char} (ne : cs ≠ []) (h : '/' ∉ cs) :
    PathName.steps cs = [String.ofList cs] := by
  have cut {cs : List Char} (h : '/' ∉ cs) : Text.splitOn '/' cs = [cs] := by
    induction cs with
    | nil => rfl
    | cons c cs ih =>
        rw [List.mem_cons, not_or] at h
        rw [Text.splitOn, if_neg (Ne.symm h.1), ih h.2]
  have last : cs.getLast? ≠ some '/' := fun hlast => h (List.mem_of_getLast? hlast)
  unfold PathName.steps PathName.pieces
  rw [cut h, if_neg last]
  simp [ne]

/-- A project with a file, and a link to a name of `n` characters. -/
def linkedTree (n : Nat) : FileTree where
  entries :=
    [(["p"], .folder), (["p", "a.ts"], .file []),
      (["p", "b.ts"], .link (String.ofList (List.replicate n 'x')))]
  removed := []

theorem utf8ByteSize_replicate (n : Nat) :
    (String.ofList (List.replicate n 'x')).utf8ByteSize = n := by
  induction n with
  | zero => rfl
  | succ n ih =>
      rw [List.replicate_succ, String.ofList_cons, String.utf8ByteSize_append, ih,
        String.utf8ByteSize_singleton]
      exact Nat.add_comm ..

theorem status_linkedTree {n : Nat} (long : FileTree.maxNameBytes < n) :
    (linkedTree n).status ["p", "b.ts"] = .error .nameTooLong := by
  have size := utf8ByteSize_replicate n
  have steps : PathName.steps (String.ofList (List.replicate n 'x')).toList =
      [String.ofList (List.replicate n 'x')] := by
    rw [String.toList_ofList]
    exact steps_of_no_slash (by simp; omega) (by simp)
  have tooLong (links : Nat) (here : Location) :
      (linkedTree n).locateFrom links here [String.ofList (List.replicate n 'x')] =
        .error .nameTooLong := by
    rw [FileTree.locateFrom, if_neg, if_neg, if_pos (by rwa [size])]
    · intro h
      rw [h] at size
      exact absurd (size ▸ long) (by decide)
    · intro h
      rw [h] at size
      exact absurd (size ▸ long) (by decide)
  have located : (linkedTree n).locate ["p", "b.ts"] = .error .nameTooLong := by
    unfold FileTree.locate
    rw [FileTree.locateFrom_folder (by decide) rfl, FileTree.locateFrom, if_neg (by decide),
      if_neg (by decide), if_neg (by decide)]
    show (linkedTree n).locateFrom 39 _ (_ ++ []) = _
    rw [steps]
    exact tooLong 39 _
  unfold FileTree.status
  rw [if_neg (by decide), if_neg (by decide), located]

theorem leadsTo_linkedTree (n : Nat) : LeadsTo (linkedTree n) ["p"] ["p"] := by
  refine ⟨?_, rfl⟩
  unfold FileTree.locate
  rw [FileTree.locateFrom_folder (by decide) rfl, FileTree.locateFrom_nil]
  rfl

theorem blocks_linkedTree {n : Nat} (wf : (linkedTree n).WellFormed)
    (long : FileTree.maxNameBytes < n) {glob : Glob} (selects : glob.selects "b.ts" = true) :
    Blocks (linkedTree n) ⟨false, false, []⟩ glob ["p"] ["b.ts"] := by
  have noAncestor {above : List String} (h : IsAncestor above ["b.ts"]) : False := by
    obtain ⟨ne, front⟩ := isAncestor_concat.1 (show IsAncestor above ([] ++ ["b.ts"]) from h)
    exact ne (List.prefix_nil.1 front)
  have lead := leadsTo_linkedTree n
  have link := entryOf?_below lead wf (.nil (linkedTree n) ["p"]) "b.ts"
  refine ⟨⟨by simp, fun above h => (noAncestor h).elim, .inr (by decide), selects, nofun,
    fun above h => (noAncestor h).elim⟩, ?_, ⟨.link _, link, nofun⟩, status_linkedTree long⟩
  exact isFolder_iff.2 (Usable.status ⟨by decide, by decide⟩ lead.located lead.folder)

/-- The scan fails because of the link, and does not find the file. -/
theorem files_linkedTree :
    (linkedTree 300).WellFormed ∧ (linkedTree 300).isFile ["p", "a.ts"] = true ∧
      ((files ⟨false, false, []⟩ .off ⟨"/", ["p"]⟩ "**/*").on (.ofTree (linkedTree 300))).1 =
        .error (.cannotOpen "OSError") := by
  have wf : (linkedTree 300).WellFormed := by decide +kernel
  have real : (linkedTree 300).RealBelow [] ([] ++ ["p"]) :=
    FileTree.RealBelow.concat.2 ⟨.nil _ _, rfl⟩
  have hroot := findRoot_of_real wf ((linkedTree 300).hold []) real ⟨by decide, by decide⟩
  have located : (linkedTree 300).locate ["p", "a.ts"] = .ok ["p", "a.ts"] := by
    unfold FileTree.locate
    rw [FileTree.locateFrom_folder (by decide) rfl]
    exact FileTree.locateFrom_file (by decide) rfl _
  have isFile : (linkedTree 300).isFile ["p", "a.ts"] = true :=
    isFile_iff.2 ⟨[], Usable.status ⟨by decide, by decide⟩ located rfl⟩
  obtain ⟨glob, hglob, selects⟩ : ∃ glob, Glob.compile "**/*" = .ok glob ∧ glob.selects "b.ts" = true :=
    exists_compile (by decide +kernel)
  have gives : Run.Gives (.ofTree (linkedTree 300)) .off
      (files ⟨false, false, []⟩ .off ⟨"/", ["p"]⟩ "**/*") _ [] := files_gives wf _ _ _
  have blocked := (found_exact wf hroot hglob rfl).1
    ⟨_, blocks_linkedTree wf (by decide) selects⟩
  exact ⟨wf, isFile, ((gives.result_eq_of_quiet (.refl wf) ⟨rfl, nofun⟩).1).trans blocked⟩

end LayerLint.Scan
