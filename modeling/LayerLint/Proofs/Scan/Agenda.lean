import LayerLint.Proofs.Scan.Found

/-!
# Walks that follow links

With links, the folders of a project form a graph, and the ways through it have no bound. `Walks` is the
walk without a bound on its depth: it takes the first path of an agenda and skips it if the folder at
its end has been looked at; otherwise it looks into the folder and puts the paths of its folders in
front. `walks_walk` says that this comes to an end, and that the visits are those of `walk`.
-/

namespace LayerLint.Scan

variable {tree : FileTree} {options : Options} {glob : Glob} {root : Location}

def firstVisit (tree : FileTree) (options : Options) (glob : Glob) (root : Location)
    (parts : List String) (location : Location) : Visit :=
  ⟨parts, false, selectsOverlong tree options glob root parts location,
    selectedFiles tree options glob root parts location⟩

def pathsBelow (tree : FileTree) (options : Options) (root : Location) (parts : List String)
    (location : Location) : List (List String) :=
  (subfolders tree options root parts location).map fun name => parts ++ [name]

/-- The walk along an agenda of paths, from the folders `seen` that have been looked at to those that
have been looked at in the end. -/
inductive Walks (tree : FileTree) (options : Options) (glob : Glob) (root : Location) :
    List (List String) → List Location → List Visit → List Location → Prop
  | done {seen : List Location} : Walks tree options glob root [] seen [] seen
  | skip {parts : List String} {agenda : List (List String)} {seen final : List Location}
      {visits : List Visit} {location : Location} :
      tree.locate (root ++ parts) = .ok location → location ∈ seen →
        Walks tree options glob root agenda seen visits final →
        Walks tree options glob root (parts :: agenda) seen (⟨parts, true, false, []⟩ :: visits) final
  | look {parts : List String} {agenda : List (List String)} {seen final : List Location}
      {visits : List Visit} {location : Location} :
      tree.locate (root ++ parts) = .ok location → location ∉ seen →
        Walks tree options glob root (pathsBelow tree options root parts location ++ agenda)
          (location :: seen) visits final →
        Walks tree options glob root (parts :: agenda) seen
          (firstVisit tree options glob root parts location :: visits) final

/-- Among the visits is one that looks into the folder at the end of a path. -/
def LooksInto (visits : List Visit) (parts : List String) : Prop :=
  ∃ visit ∈ visits, visit.parts = parts ∧ visit.again = false

theorem looksInto_nil {parts : List String} : ¬ LooksInto [] parts := by
  simp [LooksInto]

theorem looksInto_cons {visit : Visit} {visits : List Visit} {parts : List String} :
    LooksInto (visit :: visits) parts ↔
      visit.parts = parts ∧ visit.again = false ∨ LooksInto visits parts := by
  simp [LooksInto]

/-! ## The walk ends -/

/-- The locations that have not been looked at, whatever stands there. -/
def remaining (tree : FileTree) (seen : List Location) : List Location :=
  ([] :: tree.entries.map (·.1)).filter (!seen.contains ·)

theorem remaining_subset {seen seen' : List Location} (more : seen ⊆ seen') :
    (remaining tree seen').length ≤ (remaining tree seen).length := by
  unfold remaining
  refine (List.monotone_filter_right _ fun location h => ?_).length_le
  simp only [Bool.not_eq_true', ← Bool.not_eq_true, List.contains_iff_mem] at h ⊢
  exact fun mem => h (more mem)

theorem remaining_cons {seen : List Location} {location : Location}
    (folder : tree.get? location = some .folder) (new : location ∉ seen) :
    (remaining tree (location :: seen)).length < (remaining tree seen).length := by
  have mem : location ∈ remaining tree seen := by
    refine List.mem_filter.2 ⟨?_, by simpa using new⟩
    by_cases top : location = []
    · simp [top]
    · exact List.mem_cons_of_mem _ (FileTree.mem_locations top folder)
  have split : remaining tree (location :: seen) =
      (remaining tree seen).filter (· ≠ location) := by
    unfold remaining
    rw [List.filter_filter]
    refine List.filter_congr fun other _ => ?_
    simp
  rw [split]
  exact List.length_filter_lt_length_iff_exists.2 ⟨location, mem, by simp⟩

theorem foldl_subset {step : String → List Location → List Visit × List Location}
    (grows : ∀ name seen, seen ⊆ (step name seen).2) (names : List String) (visits : List Visit)
    (seen : List Location) :
    seen ⊆ (names.foldl (fun state name =>
      (state.1 ++ (step name state.2).1, (step name state.2).2)) (visits, seen)).2 := by
  induction names generalizing visits seen with
  | nil => exact List.Subset.refl seen
  | cons name names ih => exact List.Subset.trans (grows name seen) (ih _ _)

theorem subset_walkFrom (depth : Nat) (parts : List String) (seen : List Location) :
    seen ⊆ (walkFrom tree options glob root depth parts seen).2 := by
  induction depth generalizing parts seen with
  | zero => exact List.Subset.refl seen
  | succ depth ih =>
      rw [walkFrom]
      split
      · exact List.Subset.refl seen
      · split
        · exact List.Subset.refl seen
        · refine List.Subset.trans (List.subset_cons_self _ seen) (foldl_subset ?_ _ _ _)
          exact fun name seen => ih (parts ++ [name]) seen

theorem isFolder_of_mem_subfolders {parts : List String} {location : Location} {name : String}
    (mem : name ∈ subfolders tree options root parts location) :
    tree.isFolder (root ++ (parts ++ [name])) = true := by
  simp only [subfolders, List.mem_mergeSort, List.mem_filter, Bool.and_eq_true] at mem
  rw [← List.append_assoc]
  exact mem.2.1.1

theorem walks_foldl {step : String → List Location → List Visit × List Location} {room : Nat}
    {parts : List String} {agenda : List (List String)} {visits : List Visit} {final : List Location}
    (grows : ∀ name seen, seen ⊆ (step name seen).2) (names : List String)
    (walks : ∀ name ∈ names, ∀ {seen agenda visits}, (remaining tree seen).length < room →
      Walks tree options glob root agenda (step name seen).2 visits final →
      Walks tree options glob root ((parts ++ [name]) :: agenda) seen
        ((step name seen).1 ++ visits) final)
    (found : List Visit) {seen : List Location} (enough : (remaining tree seen).length < room)
    (rest : Walks tree options glob root agenda (names.foldl (fun state name =>
      (state.1 ++ (step name state.2).1, (step name state.2).2)) (found, seen)).2 visits final) :
    ∃ more,
      (names.foldl (fun state name =>
        (state.1 ++ (step name state.2).1, (step name state.2).2)) (found, seen)).1 = found ++ more ∧
      Walks tree options glob root (names.map (fun name => parts ++ [name]) ++ agenda) seen
        (more ++ visits) final := by
  induction names generalizing found seen with
  | nil => exact ⟨[], by simp, rest⟩
  | cons name names ih =>
      have less := Nat.lt_of_le_of_lt (remaining_subset (grows name seen)) enough
      obtain ⟨more, visited, later⟩ := ih (fun other mem => walks other (by simp [mem])) _ less rest
      refine ⟨_ ++ more, visited.trans (List.append_assoc ..), ?_⟩
      rw [List.append_assoc]
      exact walks name (by simp) enough later

theorem walks_walkFrom (follow : options.followLinks = true) {depth : Nat} {parts : List String}
    {seen : List Location} (isFolder : tree.isFolder (root ++ parts) = true)
    (enough : (remaining tree seen).length < depth) {agenda : List (List String)}
    {visits : List Visit} {final : List Location}
    (rest : Walks tree options glob root agenda
      (walkFrom tree options glob root depth parts seen).2 visits final) :
    Walks tree options glob root (parts :: agenda) seen
      ((walkFrom tree options glob root depth parts seen).1 ++ visits) final := by
  -- a folder is looked into only if it is new, so that each level of the depth uses up a place
  induction depth generalizing parts seen agenda visits with
  | zero => omega
  | succ depth ih =>
      obtain ⟨location, located, folder⟩ := locate_of_status (isFolder_iff.1 isFolder)
      rw [walkFrom, located] at rest ⊢
      by_cases mem : location ∈ seen
      · simp only [follow, Bool.true_and, List.contains_iff_mem.2 mem, ↓reduceIte] at rest ⊢
        exact .skip located mem rest
      · have new : seen.contains location = false := by simpa using mem
        simp only [follow, Bool.true_and, new, Bool.true_or, List.filter_true, Bool.false_eq_true,
          ↓reduceIte] at rest ⊢
        have less : (remaining tree (location :: seen)).length < depth := by
          have := remaining_cons folder mem
          omega
        obtain ⟨more, visited, walks⟩ := walks_foldl (fun name seen => subset_walkFrom ..) _
          (fun name mem _ _ _ enough rest => ih (isFolder_of_mem_subfolders mem) enough rest) _ less rest
        rw [visited]
        exact .look located mem walks

theorem walks_walk (follow : options.followLinks = true) (isFolder : tree.isFolder root = true) :
    ∃ final, Walks tree options glob root [[]] [] (walk tree options glob root) final := by
  have enough : (remaining tree []).length < tree.entries.length + 2 := by
    have := List.length_filter_le (fun location => !([] : List Location).contains location)
      ([] :: tree.entries.map (·.1))
    simp only [List.length_cons, List.length_map] at this
    exact Nat.lt_of_le_of_lt this (by omega)
  have walks : Walks tree options glob root [[]] [] _ _ :=
    walks_walkFrom follow (by simpa using isFolder) enough .done
  exact ⟨_, by simpa [walk] using walks⟩

/-! ## What has been looked at -/

section Walks

variable {agenda : List (List String)} {seen final : List Location} {visits : List Visit}

theorem Walks.fresh (h : Walks tree options glob root agenda seen visits final) {parts : List String}
    (looked : LooksInto visits parts) {location : Location}
    (located : tree.locate (root ++ parts) = .ok location) : location ∉ seen := by
  induction h with
  | done => exact absurd looked looksInto_nil
  | skip _ _ _ ih => exact ih (by simpa [looksInto_cons] using looked)
  | look there new _ ih =>
      rcases looksInto_cons.1 looked with ⟨rfl, -⟩ | later
      · rw [firstVisit, there] at located
        exact Except.ok.inj located ▸ new
      · exact fun mem => ih later (List.mem_cons_of_mem _ mem)

theorem Walks.distinct (h : Walks tree options glob root agenda seen visits final) :
    (visits.filter (!·.again)).Pairwise fun v w =>
      tree.locate (root ++ v.parts) ≠ tree.locate (root ++ w.parts) := by
  induction h with
  | done => exact .nil
  | skip _ _ _ ih => simpa using ih
  | look located _ rest ih =>
      rw [List.filter_cons_of_pos rfl, List.pairwise_cons]
      refine ⟨fun visit mem same => ?_, ih⟩
      obtain ⟨mem, first⟩ := List.mem_filter.1 mem
      rw [firstVisit, located] at same
      exact rest.fresh ⟨visit, mem, rfl, by simpa using first⟩ same.symm (by simp)

theorem Walks.eq_of_locate_eq (h : Walks tree options glob root agenda seen visits final)
    {parts other : List String} (looked : LooksInto visits parts) (looked' : LooksInto visits other)
    (same : tree.locate (root ++ other) = tree.locate (root ++ parts)) : other = parts := by
  obtain ⟨visit, mem, rfl, first⟩ := looked
  obtain ⟨visit', mem', rfl, first'⟩ := looked'
  have mem : visit ∈ visits.filter (!·.again) := List.mem_filter.2 ⟨mem, by simp [first]⟩
  have mem' : visit' ∈ visits.filter (!·.again) := List.mem_filter.2 ⟨mem', by simp [first']⟩
  rw [List.inj_on_of_nodup_map (List.pairwise_map.2 h.distinct) mem' mem same]

theorem Walks.visit_eq (h : Walks tree options glob root agenda seen visits final) {visit : Visit}
    (mem : visit ∈ visits) (first : visit.again = false) :
    ∃ location, tree.locate (root ++ visit.parts) = .ok location ∧
      visit = firstVisit tree options glob root visit.parts location := by
  induction h with
  | done => cases mem
  | skip _ _ _ ih =>
      rcases List.mem_cons.1 mem with rfl | mem
      · cases first
      · exact ih mem
  | look located _ _ ih =>
      rcases List.mem_cons.1 mem with rfl | mem
      · exact ⟨_, located, rfl⟩
      · exact ih mem

theorem Walks.first_of_stuck (h : Walks tree options glob root agenda seen visits final)
    {visit : Visit} (mem : visit ∈ visits) (stuck : visit.stuck = true) : visit.again = false := by
  induction h with
  | done => cases mem
  | skip _ _ _ ih =>
      rcases List.mem_cons.1 mem with rfl | mem
      · cases stuck
      · exact ih mem
  | look _ _ _ ih =>
      rcases List.mem_cons.1 mem with rfl | mem
      · rfl
      · exact ih mem

theorem Walks.scheduled (h : Walks tree options glob root agenda seen visits final)
    {parts : List String} (mem : parts ∈ agenda) : ∃ visit ∈ visits, visit.parts = parts := by
  induction h with
  | done => cases mem
  | skip _ _ _ ih =>
      rcases List.mem_cons.1 mem with rfl | mem
      · exact ⟨_, List.mem_cons_self, rfl⟩
      · obtain ⟨visit, visited, same⟩ := ih mem
        exact ⟨visit, List.mem_cons_of_mem _ visited, same⟩
  | look _ _ _ ih =>
      rcases List.mem_cons.1 mem with rfl | mem
      · exact ⟨_, List.mem_cons_self, rfl⟩
      · obtain ⟨visit, visited, same⟩ := ih (List.mem_append_right _ mem)
        exact ⟨visit, List.mem_cons_of_mem _ visited, same⟩

theorem Walks.closed (h : Walks tree options glob root agenda seen visits final)
    {parts : List String} (looked : LooksInto visits parts) {location : Location}
    (located : tree.locate (root ++ parts) = .ok location) {name : String}
    (mem : name ∈ subfolders tree options root parts location) :
    ∃ visit ∈ visits, visit.parts = parts ++ [name] := by
  induction h with
  | done => exact absurd looked looksInto_nil
  | skip _ _ _ ih =>
      obtain ⟨visit, visited, same⟩ := ih (by simpa [looksInto_cons] using looked)
      exact ⟨visit, List.mem_cons_of_mem _ visited, same⟩
  | @look _ _ _ _ visits _ there _ rest ih =>
      suffices later : ∃ visit ∈ visits, visit.parts = parts ++ [name] by
        obtain ⟨visit, visited, same⟩ := later
        exact ⟨visit, List.mem_cons_of_mem _ visited, same⟩
      rcases looksInto_cons.1 looked with ⟨rfl, -⟩ | later
      · rw [firstVisit, there] at located
        obtain rfl := Except.ok.inj located
        exact rest.scheduled (List.mem_append_left _ (List.mem_map_of_mem mem))
      · exact ih later

/-- What is true of the paths of the agenda, and of the folders in a folder that is looked into if it
is true of that, is true of all paths of a walk. -/
theorem Walks.all {P : List String → Prop}
    (h : Walks tree options glob root agenda seen visits final) (start : ∀ parts ∈ agenda, P parts)
    (step : ∀ parts location, LooksInto visits parts → tree.locate (root ++ parts) = .ok location →
      P parts → ∀ name ∈ subfolders tree options root parts location, P (parts ++ [name])) :
    ∀ visit ∈ visits, P visit.parts := by
  induction h with
  | done => simp
  | skip _ _ _ ih =>
      rw [List.forall_mem_cons] at start ⊢
      refine ⟨start.1, ih start.2 fun parts location looked => ?_⟩
      exact step parts location (looksInto_cons.2 (.inr looked))
  | look located _ _ ih =>
      rw [List.forall_mem_cons] at start ⊢
      refine ⟨start.1, ih (fun other mem => ?_) fun parts location looked => ?_⟩
      · rcases List.mem_append.1 mem with below | mem
        · obtain ⟨name, hname, rfl⟩ := List.mem_map.1 below
          exact step _ _ (looksInto_cons.2 (.inl ⟨rfl, rfl⟩)) located start.1 name hname
        · exact start.2 other mem
      · exact step parts location (looksInto_cons.2 (.inr looked))

/-! ## The order of the visits -/

/-- Two paths part, and the first one goes on with the smaller name. -/
def Precedes (path other : List String) : Prop :=
  ∃ front a b restA restB, path = front ++ a :: restA ∧ other = front ++ b :: restB ∧ a < b

theorem Precedes.append {path other : List String} (h : Precedes path other)
    (more more' : List String) : Precedes (path ++ more) (other ++ more') := by
  obtain ⟨front, a, b, restA, restB, rfl, rfl, less⟩ := h
  exact ⟨front, a, b, restA ++ more, restB ++ more', by simp, by simp, less⟩

theorem pairwise_pathsBelow (wf : tree.WellFormed) (parts : List String) (location : Location) :
    (pathsBelow tree options root parts location).Pairwise Precedes := by
  unfold pathsBelow subfolders
  rw [List.pairwise_map]
  have sorted := pairwise_sorted id ((tree.names location).filter fun name =>
    tree.isFolder (root ++ parts ++ [name]) && options.keepsName name
      && !options.dropsFolder (relativeText (parts ++ [name])))
  have distinct := (List.mergeSort_perm _ fun a b : String => decide (a ≤ b)).nodup_iff.2
    ((nodup_names wf location).filter fun name =>
      tree.isFolder (root ++ parts ++ [name]) && options.keepsName name
        && !options.dropsFolder (relativeText (parts ++ [name])))
  refine (sorted.and distinct).imp fun {a b} ⟨le, ne⟩ => ?_
  have less : a < b := String.not_le.1 fun ge => ne (String.le_antisymm le ge)
  exact ⟨parts, a, b, [], [], rfl, rfl, less⟩

/-- A folder comes before the folders below it, and before those whose paths go on with a greater
name. -/
theorem Walks.ordered (h : Walks tree options glob root agenda seen visits final)
    (wf : tree.WellFormed) (sorted : agenda.Pairwise Precedes) :
    visits.Pairwise fun v w => v.parts <+: w.parts ∨ Precedes v.parts w.parts := by
  -- all that a walk visits lies below its agenda, so that the order of the agenda is enough
  have below {agenda : List (List String)} {seen final : List Location} {visits : List Visit}
      (h : Walks tree options glob root agenda seen visits final) :
      ∀ visit ∈ visits, ∃ start ∈ agenda, start <+: visit.parts := by
    refine h.all (P := fun parts => ∃ start ∈ agenda, start <+: parts)
      (fun parts mem => ⟨parts, mem, List.prefix_rfl⟩) ?_
    rintro parts - - - ⟨start, mem, front⟩ name -
    exact ⟨start, mem, front.trans (List.prefix_append ..)⟩
  induction h with
  | done => exact .nil
  | skip _ _ rest ih =>
      rw [List.pairwise_cons] at sorted ⊢
      refine ⟨fun visit mem => .inr ?_, ih sorted.2⟩
      obtain ⟨start, later, more, same⟩ := below rest visit mem
      rw [← same]
      simpa using (sorted.1 start later).append [] more
  | @look parts _ _ _ _ location _ _ rest ih =>
      rw [List.pairwise_cons] at sorted ⊢
      constructor
      · intro visit mem
        obtain ⟨start, later, more, same⟩ := below rest visit mem
        rw [← same]
        rcases List.mem_append.1 later with inside | later
        · obtain ⟨name, -, rfl⟩ := List.mem_map.1 inside
          exact .inl ⟨name :: more, by simp [firstVisit]⟩
        · exact .inr (by simpa [firstVisit] using (sorted.1 start later).append [] more)
      · refine ih (List.pairwise_append.2 ⟨pairwise_pathsBelow wf parts location, sorted.2, ?_⟩)
        intro path inside other later
        obtain ⟨name, -, rfl⟩ := List.mem_map.1 inside
        simpa using (sorted.1 other later).append [name] []

theorem Walks.located (h : Walks tree options glob root agenda seen visits final) {visit : Visit}
    (mem : visit ∈ visits) : ∃ location, tree.locate (root ++ visit.parts) = .ok location := by
  induction h with
  | done => cases mem
  | skip located _ _ ih | look located _ _ ih =>
      rcases List.mem_cons.1 mem with rfl | mem
      · exact ⟨_, located⟩
      · exact ih mem

theorem Walks.earlier (h : Walks tree options glob root agenda seen visits final)
    {before after : List Visit} {visit : Visit} (split : visits = before ++ visit :: after)
    (again : visit.again = true) {location : Location}
    (located : tree.locate (root ++ visit.parts) = .ok location) :
    location ∈ seen ∨
      ∃ parts, LooksInto before parts ∧ tree.locate (root ++ parts) = .ok location := by
  induction h generalizing before with
  | done => simp at split
  | skip here old _ ih =>
      cases before with
      | nil =>
          obtain ⟨rfl, -⟩ := List.cons.inj split
          rw [here] at located
          exact .inl (Except.ok.inj located ▸ old)
      | cons first before =>
          obtain ⟨rfl, rest⟩ := List.cons.inj split
          exact (ih rest).imp_right fun ⟨parts, looked, same⟩ =>
            ⟨parts, looksInto_cons.2 (.inr looked), same⟩
  | look here _ _ ih =>
      cases before with
      | nil =>
          obtain ⟨rfl, -⟩ := List.cons.inj split
          cases again
      | cons first before =>
          obtain ⟨rfl, rest⟩ := List.cons.inj split
          rcases ih rest with mem | ⟨parts, looked, same⟩
          -- what the rest has seen before it starts is the folder that is looked into here, or older
          · refine (List.mem_cons.1 mem).symm.imp_right fun same => ?_
            exact ⟨_, looksInto_cons.2 (.inl ⟨rfl, rfl⟩), same ▸ here⟩
          · exact .inr ⟨parts, looksInto_cons.2 (.inr looked), same⟩

/-- The folder at the end of a visited path is looked into, along this path or one that comes
before it. -/
theorem Walks.looked (h : Walks tree options glob root agenda [] visits final)
    (wf : tree.WellFormed) (sorted : agenda.Pairwise Precedes) {visit : Visit}
    (mem : visit ∈ visits) :
    ∃ parts, LooksInto visits parts ∧
      tree.locate (root ++ parts) = tree.locate (root ++ visit.parts) ∧
      (parts <+: visit.parts ∨ Precedes parts visit.parts) := by
  cases again : visit.again with
  | false => exact ⟨visit.parts, ⟨visit, mem, rfl, again⟩, rfl, .inl List.prefix_rfl⟩
  | true =>
      obtain ⟨location, located⟩ := h.located mem
      obtain ⟨before, after, split⟩ := List.append_of_mem mem
      obtain ⟨parts, ⟨first, inBefore, rfl, new⟩, same⟩ :=
        (h.earlier split again located).resolve_left (by simp)
      have ordered := h.ordered wf sorted
      rw [split, List.pairwise_append] at ordered
      refine ⟨first.parts, ⟨first, ?_, rfl, new⟩, same.trans located.symm, ?_⟩
      · rw [split]
        exact List.mem_append_left _ inBefore
      · exact ordered.2.2 first inBefore visit List.mem_cons_self

theorem Walks.mem_paths (h : Walks tree options glob root agenda seen visits final)
    {path : List String} :
    path ∈ visits.flatMap Visit.paths ↔
      ∃ parts location name, LooksInto visits parts ∧ tree.locate (root ++ parts) = .ok location ∧
        name ∈ selectedFiles tree options glob root parts location ∧ path = parts ++ [name] := by
  induction h with
  | done => simp [looksInto_nil]
  | skip _ _ _ ih => simpa [looksInto_cons, Visit.paths] using ih
  | @look parts _ _ _ _ there located _ _ ih =>
      rw [List.flatMap_cons, List.mem_append, ih]
      constructor
      · rintro (here | ⟨other, location, name, looked, found⟩)
        · obtain ⟨name, mem, rfl⟩ := List.mem_map.1 here
          exact ⟨parts, there, name, looksInto_cons.2 (.inl ⟨rfl, rfl⟩), located, mem, rfl⟩
        · exact ⟨other, location, name, looksInto_cons.2 (.inr looked), found⟩
      · rintro ⟨other, location, name, looked, same, mem, rfl⟩
        rcases looksInto_cons.1 looked with ⟨rfl, -⟩ | later
        · rw [firstVisit, located] at same
          obtain rfl := Except.ok.inj same
          exact .inl (List.mem_map_of_mem mem)
        · exact .inr ⟨other, location, name, later, same, mem, rfl⟩

theorem Walks.nodup_paths (h : Walks tree options glob root agenda seen visits final)
    (wf : tree.WellFormed) : (visits.flatMap Visit.paths).Nodup := by
  induction h with
  | done => exact List.nodup_nil
  | skip _ _ _ ih => simpa [Visit.paths] using ih
  | @look parts _ _ _ _ there located _ rest ih =>
      rw [List.flatMap_cons, List.nodup_append]
      refine ⟨?_, ih, fun path here other later same => ?_⟩
      · refine List.Nodup.map (fun a b same => by simpa using same) ?_
        exact ((nodup_names wf _).filter _).filter _
      · subst same
        obtain ⟨name, -, rfl⟩ := List.mem_map.1 here
        obtain ⟨_, _, _, looked, -, -, same⟩ := rest.mem_paths.1 later
        obtain ⟨rfl, -⟩ := List.append_inj' same rfl
        exact rest.fresh looked located List.mem_cons_self

end Walks

end LayerLint.Scan
