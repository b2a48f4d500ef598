import LayerLint.Proofs.FileTree.WellFormed
import LayerLint.Scan.Walk
import Mathlib.Data.List.Nodup
import Mathlib.Data.List.Perm.Subperm

/-!
# The folders that a walk visits

Without following links, a walk comes to every real folder below the root that can be reached through
folders it does not leave out, each once: `mem_walk`, `nodup_walk`.
-/

namespace LayerLint.Scan

variable {tree : FileTree} {options : Options} {glob : Glob} {root base : Location}

/-! ## The root -/

structure LeadsTo (tree : FileTree) (root base : Location) : Prop where
  located : tree.locate root = .ok base
  folder : tree.get? base = some .folder

theorem locate_of_status {path : List String} {entry : Entry} (h : tree.status path = .ok entry) :
    ∃ location, tree.locate path = .ok location ∧ tree.get? location = some entry := by
  unfold FileTree.status at h
  split at h
  · cases h
  · split at h
    · cases h
    · split at h
      · cases h
      · rename_i location located
        split at h
        · rename_i found
          obtain rfl := Except.ok.inj h
          exact ⟨location, located, found⟩
        · cases h

theorem leadsTo_of_status (h : tree.status root = .ok .folder) : ∃ base, LeadsTo tree root base := by
  obtain ⟨base, located, folder⟩ := locate_of_status h
  exact ⟨base, located, folder⟩

theorem status_of_findRoot {folder : Handle} {given : PathName}
    (h : findRoot tree folder given = .ok root) : tree.status root = .ok .folder := by
  unfold findRoot at h
  split at h
  · cases h
  · cases h
  · split at h
    · cases h
    · cases h
    · cases h
    · rename_i found
      obtain rfl := Except.ok.inj h
      exact found
    · cases h

/-- Below the root, a path goes on from the folder that the root leads to. -/
theorem LeadsTo.locate_append (lead : LeadsTo tree root base) (wf : tree.WellFormed) :
    ∃ left, ∀ parts, tree.RealBelow base parts → ∀ rest,
      tree.locate (root ++ parts ++ rest) = tree.locateFrom left (base ++ parts) rest := by
  obtain ⟨left, -, hleft⟩ := FileTree.locateFrom_append lead.located lead.folder
  refine ⟨left, fun parts real rest => ?_⟩
  rw [List.append_assoc]
  exact (hleft (parts ++ rest)).trans (real.locateFrom wf left rest)

theorem LeadsTo.locate (lead : LeadsTo tree root base) (wf : tree.WellFormed) {parts : List String}
    (real : tree.RealBelow base parts) : tree.locate (root ++ parts) = .ok (base ++ parts) := by
  obtain ⟨left, hleft⟩ := lead.locate_append wf
  have := hleft parts real []
  rwa [List.append_nil, FileTree.locateFrom_nil] at this

/-! ## Folders that are entered -/

/-- A real folder in the folder at the end of `parts` that the walk goes on to. -/
structure Enters (tree : FileTree) (options : Options) (root base : Location) (parts : List String)
    (name : String) : Prop where
  real : tree.get? (base ++ parts ++ [name]) = some .folder
  usable : tree.isFolder (root ++ parts ++ [name]) = true
  kept : options.keepsName name = true
  notDropped : options.dropsFolder (relativeText (parts ++ [name])) = false

/-- The walk goes through all folders on the way. -/
def Entered (tree : FileTree) (options : Options) (root base : Location) (parts : List String) :
    Prop :=
  ∀ above name, above ++ [name] <+: parts → Enters tree options root base above name

theorem Entered.nil : Entered tree options root base [] := by
  intro above name h
  simp at h

theorem Entered.of_front {parts above : List String} (h : Entered tree options root base parts)
    (front : above <+: parts) : Entered tree options root base above :=
  fun _ _ hp => h _ _ (hp.trans front)

theorem Entered.concat {parts : List String} {name : String} :
    Entered tree options root base (parts ++ [name]) ↔
      Entered tree options root base parts ∧ Enters tree options root base parts name := by
  constructor
  · exact fun h => ⟨h.of_front (List.prefix_append ..), h parts name List.prefix_rfl⟩
  · rintro ⟨h, last⟩ above other front
    rcases List.prefix_concat_iff.1 front with heq | front
    · obtain ⟨rfl, single⟩ := List.append_inj' heq rfl
      obtain rfl := List.singleton_inj.1 single
      exact last
    · exact h above other front

theorem Entered.realBelow {parts : List String} (h : Entered tree options root base parts) :
    tree.RealBelow base parts := by
  intro above ne front
  obtain ⟨init, name, rfl⟩ : ∃ init name, above = init ++ [name] :=
    ⟨_, _, (List.dropLast_concat_getLast ne).symm⟩
  rw [← List.append_assoc]
  exact (h init name front).real

/-! ## One folder -/

def visitOf (tree : FileTree) (options : Options) (glob : Glob) (root base : Location)
    (parts : List String) : Visit :=
  ⟨parts, false, selectsOverlong tree options glob root parts (base ++ parts),
    selectedFiles tree options glob root parts (base ++ parts)⟩

def nextFolders (tree : FileTree) (options : Options) (root base : Location) (parts : List String) :
    List String :=
  (subfolders tree options root parts (base ++ parts)).filter fun name =>
    !isLink tree (base ++ parts) name

theorem isFolder_iff {path : List String} :
    tree.isFolder path = true ↔ tree.status path = .ok .folder := by
  unfold FileTree.isFolder
  split <;> simp_all

theorem isFile_iff {path : List String} :
    tree.isFile path = true ↔ ∃ bytes, tree.status path = .ok (.file bytes) := by
  unfold FileTree.isFile
  split <;> simp_all

/-- A name of a folder that stands for a folder is a link unless it is one itself. -/
theorem real_of_isFolder (lead : LeadsTo tree root base) (wf : tree.WellFormed)
    {parts : List String} (real : tree.RealBelow base parts) {name : String}
    (mem : name ∈ tree.names (base ++ parts))
    (isFolder : tree.isFolder (root ++ parts ++ [name]) = true)
    (noLink : isLink tree (base ++ parts) name = false) :
    tree.get? (base ++ parts ++ [name]) = some .folder := by
  obtain ⟨left, hleft⟩ := lead.locate_append wf
  obtain ⟨location, located, found⟩ := locate_of_status (isFolder_iff.1 isFolder)
  rw [hleft parts real] at located
  have key := FileTree.mem_names.1 mem
  have valid : IsName name := wf.named _ key name (by simp)
  rw [FileTree.locateFrom, if_neg valid.ne_dot, if_neg valid.ne_dots,
    if_neg (Nat.not_lt.2 valid.short)] at located
  unfold isLink at noLink
  split at located
  · cases located
  · assumption
  · rename_i bytes hfile
    rw [if_pos rfl] at located
    obtain rfl := Except.ok.inj located
    rw [hfile] at found
    cases found
  · rename_i target hlink
    rw [hlink] at noLink
    cases noLink

theorem mem_nextFolders (lead : LeadsTo tree root base) (wf : tree.WellFormed) {parts : List String}
    (real : tree.RealBelow base parts) {name : String} :
    name ∈ nextFolders tree options root base parts ↔ Enters tree options root base parts name := by
  simp only [nextFolders, subfolders, List.mem_filter, List.mem_mergeSort, Bool.and_eq_true,
    Bool.not_eq_true']
  constructor
  · rintro ⟨⟨mem, ⟨isFolder, kept⟩, notDropped⟩, noLink⟩
    exact ⟨real_of_isFolder lead wf real mem isFolder noLink, isFolder, kept, notDropped⟩
  · intro h
    refine ⟨⟨FileTree.mem_names_of_get? h.real, ⟨h.usable, h.kept⟩, h.notDropped⟩, ?_⟩
    unfold isLink
    rw [h.real]

theorem nodup_names (wf : tree.WellFormed) (location : Location) :
    (tree.names location).Nodup := by
  rw [FileTree.names_eq]
  refine wf.distinct.filterMap fun a b name ha hb => ?_
  rw [FileTree.nameIn?_eq_some.1 ha, FileTree.nameIn?_eq_some.1 hb]

theorem nodup_nextFolders (wf : tree.WellFormed) (parts : List String) :
    (nextFolders tree options root base parts).Nodup := by
  refine List.Nodup.filter _ ((List.mergeSort_perm _ _).nodup_iff.2 ?_)
  exact (nodup_names wf _).filter _

/-! ## The walk -/

theorem foldl_visits {β γ δ : Type} {step : β → γ → List δ × γ} {visits : β → List δ}
    (h : ∀ x seen, (step x seen).1 = visits x) (xs : List β) (found : List δ) (seen : γ) :
    (xs.foldl (fun state x => (state.1 ++ (step x state.2).1, (step x state.2).2))
      (found, seen)).1 = found ++ xs.flatMap visits := by
  induction xs generalizing found seen with
  | nil => simp
  | cons x xs ih => rw [List.foldl_cons, ih, h, List.flatMap_cons, List.append_assoc]

theorem walkFrom_seen (noLinks : options.followLinks = false) (depth : Nat) (parts : List String)
    (seen : List Location) :
    (walkFrom tree options glob root depth parts seen).1 =
      (walkFrom tree options glob root depth parts []).1 := by
  induction depth generalizing parts seen with
  | zero => rfl
  | succ depth ih =>
      rw [walkFrom, walkFrom]
      split
      · rfl
      · simp only [noLinks, Bool.false_and, Bool.false_eq_true, ↓reduceIte]
        rw [foldl_visits fun name seen => ih (parts ++ [name]) seen,
          foldl_visits fun name seen => ih (parts ++ [name]) seen]

/-- Without following links the walk from a folder on is the visit of the folder and the walks from
its folders on. -/
theorem walkFrom_visits (lead : LeadsTo tree root base) (wf : tree.WellFormed)
    (noLinks : options.followLinks = false) (depth : Nat) {parts : List String}
    (real : tree.RealBelow base parts) :
    (walkFrom tree options glob root (depth + 1) parts []).1 =
      visitOf tree options glob root base parts ::
        (nextFolders tree options root base parts).flatMap fun name =>
          (walkFrom tree options glob root depth (parts ++ [name]) []).1 := by
  rw [walkFrom, lead.locate wf real]
  simp only [noLinks, Bool.false_and, Bool.false_or, Bool.false_eq_true, ↓reduceIte]
  rw [foldl_visits fun name seen => walkFrom_seen noLinks depth (parts ++ [name]) seen]
  rfl

theorem mem_walkFrom (lead : LeadsTo tree root base) (wf : tree.WellFormed)
    (noLinks : options.followLinks = false) (depth : Nat) {parts : List String}
    (entered : Entered tree options root base parts) {visit : Visit} :
    visit ∈ (walkFrom tree options glob root depth parts []).1 ↔
      ∃ below, below.length < depth ∧ Entered tree options root base (parts ++ below) ∧
        visit = visitOf tree options glob root base (parts ++ below) := by
  induction depth generalizing parts with
  | zero => simp [walkFrom]
  | succ depth ih =>
      rw [walkFrom_visits lead wf noLinks depth entered.realBelow, List.mem_cons, List.mem_flatMap]
      constructor
      · rintro (rfl | ⟨name, next, mem⟩)
        · exact ⟨[], by simp, by simpa using entered, by simp⟩
        · have enters := (mem_nextFolders lead wf entered.realBelow).1 next
          obtain ⟨below, short, further, rfl⟩ := (ih (Entered.concat.2 ⟨entered, enters⟩)).1 mem
          exact ⟨name :: below, by simpa using short, by simpa using further, by simp⟩
      · rintro ⟨below, short, further, rfl⟩
        cases below with
        | nil => simp
        | cons name below =>
            have first : Entered tree options root base (parts ++ [name]) :=
              further.of_front (by simp)
            refine .inr ⟨name, (mem_nextFolders lead wf entered.realBelow).2
              (Entered.concat.1 first).2, (ih first).2 ⟨below, ?_, ?_, ?_⟩⟩
            · simpa using short
            · simpa using further
            · simp

theorem nodup_walkFrom (lead : LeadsTo tree root base) (wf : tree.WellFormed)
    (noLinks : options.followLinks = false) (depth : Nat) {parts : List String}
    (entered : Entered tree options root base parts) :
    ((walkFrom tree options glob root depth parts []).1.map (·.parts)).Nodup := by
  induction depth generalizing parts with
  | zero => simp [walkFrom]
  | succ depth ih =>
      have next {name : String} (mem : name ∈ nextFolders tree options root base parts) :
          Entered tree options root base (parts ++ [name]) :=
        Entered.concat.2 ⟨entered, (mem_nextFolders lead wf entered.realBelow).1 mem⟩
      have below {name : String} (mem : name ∈ nextFolders tree options root base parts)
          {visit : Visit}
          (h : visit ∈ (walkFrom tree options glob root depth (parts ++ [name]) []).1) :
          ∃ rest, visit.parts = parts ++ name :: rest := by
        obtain ⟨rest, -, -, rfl⟩ := (mem_walkFrom lead wf noLinks depth (next mem)).1 h
        exact ⟨rest, by simp [visitOf]⟩
      rw [walkFrom_visits lead wf noLinks depth entered.realBelow, List.map_cons, List.map_flatMap,
        List.nodup_cons, List.nodup_flatMap]
      refine ⟨?_, fun name mem => ih (next mem), ?_⟩
      · intro mem
        obtain ⟨name, hname, h⟩ := List.mem_flatMap.1 mem
        obtain ⟨visit, hvisit, heq⟩ := List.mem_map.1 h
        obtain ⟨rest, hrest⟩ := below hname hvisit
        rw [hrest] at heq
        simp [visitOf] at heq
      · -- Walks from different folders on share no folder: their second names differ.
        refine (nodup_nextFolders wf parts).pairwise_of_forall_ne fun a ha b hb ne => ?_
        intro shared inA inB
        obtain ⟨u, hu, heq⟩ := List.mem_map.1 inA
        obtain ⟨v, hv, rfl⟩ := List.mem_map.1 inB
        obtain ⟨restA, hA⟩ := below ha hu
        obtain ⟨restB, hB⟩ := below hb hv
        rw [hA, hB] at heq
        simp only [List.append_cancel_left_eq, List.cons.injEq] at heq
        exact ne heq.1

theorem length_le_of_realBelow {parts : List String} (real : tree.RealBelow base parts) :
    parts.length ≤ tree.entries.length := by
  let chain := (List.range parts.length).map fun i => base ++ parts.take (i + 1)
  have distinct : chain.Nodup := by
    refine List.Nodup.map_on (fun i hi j hj heq => ?_) List.nodup_range
    have := congrArg List.length (List.append_cancel_left heq)
    simp only [List.mem_range] at hi hj
    simp only [List.length_take] at this
    omega
  have inside : chain ⊆ tree.entries.map (·.1) := by
    intro location mem
    obtain ⟨i, hi, rfl⟩ := List.mem_map.1 mem
    have some_part : parts.take (i + 1) ≠ [] := by
      simp only [List.mem_range] at hi
      rw [ne_eq, List.take_eq_nil_iff]
      rintro (h | rfl)
      · omega
      · simp at hi
    refine FileTree.mem_locations (by simp [some_part]) (real _ some_part (List.take_prefix ..))
  simpa [chain] using (List.subperm_of_subset distinct inside).length_le

/-- The walk comes to the real folders that can be reached through folders it enters. -/
theorem mem_walk (lead : LeadsTo tree root base) (wf : tree.WellFormed)
    (noLinks : options.followLinks = false) {visit : Visit} :
    visit ∈ walk tree options glob root ↔
      ∃ parts, Entered tree options root base parts ∧
        visit = visitOf tree options glob root base parts := by
  rw [walk, mem_walkFrom lead wf noLinks _ .nil]
  constructor
  · rintro ⟨parts, -, entered, rfl⟩
    exact ⟨parts, by simpa using entered, by simp⟩
  · rintro ⟨parts, entered, rfl⟩
    have := length_le_of_realBelow entered.realBelow
    exact ⟨parts, by omega, by simpa using entered, by simp⟩

theorem nodup_walk (lead : LeadsTo tree root base) (wf : tree.WellFormed)
    (noLinks : options.followLinks = false) :
    ((walk tree options glob root).map (·.parts)).Nodup :=
  nodup_walkFrom lead wf noLinks _ .nil

end LayerLint.Scan
