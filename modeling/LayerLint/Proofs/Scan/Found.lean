import LayerLint.Proofs.Session.Runs
import Mathlib.Data.List.Flatten

/-!
# What a scan finds

`found` is what a scan finds in a tree, and `files_gives` says that a scan finds it in every session in
which nothing but log files has changed: the walk comes to the same folders, and although their names
may be listed in another order, the files are sorted in the end.
-/

namespace LayerLint.Scan

open FileTree (Agrees)

/-! ## Sorting -/

theorem pairwise_sorted {α : Type} (key : α → String) (xs : List α) :
    (xs.mergeSort fun a b => key a ≤ key b).Pairwise fun a b => key a ≤ key b := by
  have sorted : (xs.mergeSort fun a b => key a ≤ key b).Pairwise
      fun a b => decide (key a ≤ key b) = true :=
    List.pairwise_mergeSort (fun a b c => by simpa using String.le_trans)
      (fun a b => by simpa using String.le_total ..) xs
  exact sorted.imp of_decide_eq_true

/-- A list that is sorted by a key without duplicates does not depend on the order before. -/
theorem mergeSort_eq_of_perm {α : Type} (key : α → String) {xs ys : List α} (perm : xs.Perm ys)
    (inj : ∀ a ∈ xs, ∀ b ∈ xs, key a = key b → a = b) :
    xs.mergeSort (fun a b => key a ≤ key b) = ys.mergeSort (fun a b => key a ≤ key b) := by
  refine List.Perm.eq_of_pairwise (fun a b ha hb hab hba => ?_) (pairwise_sorted key xs)
    (pairwise_sorted key ys)
    ((List.mergeSort_perm ..).trans (perm.trans (List.mergeSort_perm ..).symm))
  rw [List.mem_mergeSort] at ha hb
  exact inj a ha b (perm.mem_iff.2 hb) (String.le_antisymm hab hba)

theorem toList_relativeText (init : List String) (last : String) :
    (relativeText (init ++ [last])).toList =
      (init.map String.toList).flatMap (· ++ ['/']) ++ last.toList := by
  rw [relativeText, String.toList_intercalate]
  induction init with
  | nil => simp
  | cons name init ih =>
      rw [List.cons_append, List.map_cons, List.intercalate_cons_of_ne_nil (by simp), ih]
      simp

theorem splitOn_relativeText {parts : List String} (plain : ∀ name ∈ parts, '/' ∉ name.toList)
    (ne : parts ≠ []) : (relativeText parts).toList.splitOn '/' = parts.map String.toList := by
  rw [relativeText, String.toList_intercalate]
  exact List.splitOn_intercalate _ (by simpa using plain) (by simpa using ne)

theorem relativeText_inj {a b : List String} (hab : relativeText a = relativeText b)
    (ha : ∀ name ∈ a, '/' ∉ name.toList) (hb : ∀ name ∈ b, '/' ∉ name.toList)
    (ane : a ≠ []) (bne : b ≠ []) : a = b := by
  have same : a.map String.toList = b.map String.toList := by
    rw [← splitOn_relativeText ha ane, ← splitOn_relativeText hb bne, hab]
  exact List.map_injective_iff.2 (fun _ _ => String.toList_injective) same

/-! ## Walks through trees that agree -/

variable {tree other : FileTree} {options : Options} {glob : Glob} {root : Location}

theorem findRoot_agrees {spare : List Location} (h : Agrees spare tree other) (folder : Handle)
    (given : PathName) : findRoot other folder given = findRoot tree folder given := by
  unfold findRoot
  rw [h.resolve]
  split
  · rfl
  · rfl
  · rename_i path _
    rcases h.status path.parts with same | ⟨-, -, -, old, new, hold, hnew⟩
    · rw [same]
    · rw [hold, hnew]

/-- Visits with the same answers, where names may be in another order. -/
structure Visit.Alike (v w : Visit) : Prop where
  parts : w.parts = v.parts
  again : w.again = v.again
  stuck : w.stuck = v.stuck
  files : w.files.Perm v.files

theorem subfolders_agrees {spare : List Location} (h : Agrees spare tree other)
    (parts : List String) (location : Location) :
    subfolders other options root parts location = subfolders tree options root parts location := by
  unfold subfolders
  simp only [h.isFolder]
  exact mergeSort_eq_of_perm id ((h.names location).filter _) fun _ _ _ _ same => same

theorem isLink_agrees {spare : List Location} (h : Agrees spare tree other) (location : Location)
    (name : String) : isLink other location name = isLink tree location name := by
  unfold isLink
  rcases h.get (location ++ [name]) with same | ⟨-, old, new, hold, hnew⟩
  · rw [same]
  · rw [hold, hnew]

theorem selectedNames_agrees {spare : List Location} (h : Agrees spare tree other)
    (parts : List String) (location : Location) :
    (selectedNames other options glob parts location).Perm
      (selectedNames tree options glob parts location) :=
  (h.names location).filter _

theorem selectedFiles_agrees {spare : List Location} (h : Agrees spare tree other)
    (parts : List String) (location : Location) :
    (selectedFiles other options glob root parts location).Perm
      (selectedFiles tree options glob root parts location) := by
  unfold selectedFiles
  simp only [h.isFile]
  exact (selectedNames_agrees h parts location).filter _

theorem selectsOverlong_agrees {spare : List Location} (h : Agrees spare tree other)
    (parts : List String) (location : Location) :
    selectsOverlong other options glob root parts location =
      selectsOverlong tree options glob root parts location := by
  unfold selectsOverlong
  rw [(selectedNames_agrees h parts location).any_eq]
  refine List.any_congr rfl fun name => ?_
  rw [decide_eq_decide.2 (not_congr (h.get?_folder (location ++ [name])))]
  rcases h.status (root ++ parts ++ [name]) with same | ⟨-, -, -, old, new, hold, hnew⟩
  · rw [same]
  · rw [hold, hnew]

theorem foldl_alike {step step' : String → List Location → List Visit × List Location}
    (h : ∀ name seen, List.Forall₂ Visit.Alike (step name seen).1 (step' name seen).1 ∧
      (step' name seen).2 = (step name seen).2)
    (names : List String) {visits visits' : List Visit} (seen : List Location)
    (start : List.Forall₂ Visit.Alike visits visits') :
    List.Forall₂ Visit.Alike
        (names.foldl (fun state name =>
          (state.1 ++ (step name state.2).1, (step name state.2).2)) (visits, seen)).1
        (names.foldl (fun state name =>
          (state.1 ++ (step' name state.2).1, (step' name state.2).2)) (visits', seen)).1 ∧
      (names.foldl (fun state name =>
          (state.1 ++ (step' name state.2).1, (step' name state.2).2)) (visits', seen)).2 =
        (names.foldl (fun state name =>
          (state.1 ++ (step name state.2).1, (step name state.2).2)) (visits, seen)).2 := by
  induction names generalizing visits visits' seen with
  | nil => exact ⟨start, rfl⟩
  | cons name names ih =>
      obtain ⟨alike, same⟩ := h name seen
      simp only [List.foldl_cons, same]
      exact ih _ (List.rel_append start alike)

theorem walkFrom_agrees {spare : List Location} (h : Agrees spare tree other) (depth : Nat)
    (parts : List String) (seen : List Location) :
    List.Forall₂ Visit.Alike (walkFrom tree options glob root depth parts seen).1
        (walkFrom other options glob root depth parts seen).1 ∧
      (walkFrom other options glob root depth parts seen).2 =
        (walkFrom tree options glob root depth parts seen).2 := by
  induction depth generalizing parts seen with
  | zero => exact ⟨.nil, rfl⟩
  | succ depth ih =>
      rw [walkFrom, walkFrom, h.locate]
      split
      · exact ⟨.nil, rfl⟩
      · rename_i location _
        split
        · exact ⟨.cons ⟨rfl, rfl, rfl, .refl _⟩ .nil, rfl⟩
        · simp only [subfolders_agrees h, isLink_agrees h]
          refine foldl_alike (fun name seen => ih (parts ++ [name]) seen) _ _ (.cons ?_ .nil)
          exact ⟨rfl, rfl, selectsOverlong_agrees h parts location, selectedFiles_agrees h parts location⟩

/-! ## The names on the way -/

theorem foldl_visits_all {P : Visit → Prop} {step : String → List Location → List Visit × List Location}
    (names : List String) (h : ∀ name ∈ names, ∀ seen, ∀ visit ∈ (step name seen).1, P visit)
    (visits : List Visit) (seen : List Location) (start : ∀ visit ∈ visits, P visit) :
    ∀ visit ∈ (names.foldl (fun state name =>
      (state.1 ++ (step name state.2).1, (step name state.2).2)) (visits, seen)).1, P visit := by
  induction names generalizing visits seen with
  | nil => exact start
  | cons name names ih =>
      refine ih (fun other mem => h other (by simp [mem])) _ _ fun visit mem => ?_
      rcases List.mem_append.1 mem with mem | mem
      · exact start visit mem
      · exact h name (by simp) seen visit mem

theorem isName_of_mem_names (wf : tree.WellFormed) {location : Location} {name : String}
    (mem : name ∈ tree.names location) : IsName name :=
  wf.named _ (FileTree.mem_names.1 mem) name (by simp)

theorem walkFrom_paths (wf : tree.WellFormed) (depth : Nat) {parts : List String}
    (named : ∀ name ∈ parts, IsName name) (seen : List Location) :
    ∀ visit ∈ (walkFrom tree options glob root depth parts seen).1, ∀ path ∈ visit.paths,
      path ≠ [] ∧ (∀ name ∈ path, IsName name) ∧ tree.isFile (root ++ path) = true := by
  induction depth generalizing parts seen with
  | zero => simp [walkFrom]
  | succ depth ih =>
      rw [walkFrom]
      split
      · simp
      · rename_i location _
        have further {name : String} (mem : name ∈ tree.names location) :
            ∀ other ∈ parts ++ [name], IsName other := by
          intro other h
          rcases List.mem_append.1 h with h | h
          · exact named other h
          · obtain rfl := List.mem_singleton.1 h
            exact isName_of_mem_names wf mem
        split
        · simp [Visit.paths]
        · refine foldl_visits_all _ (fun name mem seen => ih (further ?_) seen) _ _ ?_
          · simp only [subfolders, List.mem_filter, List.mem_mergeSort] at mem
            exact mem.1.1
          · intro visit mem path hpath
            obtain rfl := List.mem_singleton.1 mem
            obtain ⟨name, hname, rfl⟩ := List.mem_map.1 hpath
            simp only [selectedFiles, selectedNames, List.mem_filter] at hname
            refine ⟨by simp, further hname.1.1, ?_⟩
            rw [← List.append_assoc]
            exact hname.2

/-! ## The scan -/

def found (tree : FileTree) (folder : Handle) (options : Options) (given : PathName)
    (pattern : String) : Except Failure (List Location) := do
  let root ← findRoot tree folder given
  let glob ← Glob.compile pattern
  let visits := walk tree options glob root
  if visits.any (·.stuck) then .error (.ofFault .nameTooLong)
  else .ok ((sortPaths (visits.flatMap Visit.paths)).map (root ++ ·))

theorem exists_compile {pattern path : String}
    (h : (Glob.compile pattern).toOption.any (·.selects path) = true) :
    ∃ glob, Glob.compile pattern = .ok glob ∧ glob.selects path = true := by
  cases compiled : Glob.compile pattern with
  | error failure =>
      rw [compiled] at h
      cases h
  | ok glob =>
      rw [compiled] at h
      exact ⟨glob, rfl, h⟩

theorem found_of_root_error {folder : Handle} {given : PathName} {pattern : String} {failure : Failure}
    (hroot : findRoot tree folder given = .error failure) :
    found tree folder options given pattern = .error failure := by
  rw [found, hroot]
  rfl

theorem found_of_glob_error {folder : Handle} {given : PathName} {pattern : String} {failure : Failure}
    (hroot : findRoot tree folder given = .ok root)
    (hglob : Glob.compile pattern = .error failure) :
    found tree folder options given pattern = .error failure := by
  rw [found, hroot, hglob]
  rfl

theorem found_eq {folder : Handle} {given : PathName} {pattern : String}
    (hroot : findRoot tree folder given = .ok root) (hglob : Glob.compile pattern = .ok glob) :
    found tree folder options given pattern =
      if (walk tree options glob root).any (·.stuck) then .error (.ofFault .nameTooLong)
      else .ok ((sortPaths ((walk tree options glob root).flatMap Visit.paths)).map (root ++ ·)) := by
  unfold found
  rw [hroot, hglob]
  rfl

theorem walk_agrees {spare : List Location} (h : Agrees spare tree other) :
    List.Forall₂ Visit.Alike (walk tree options glob root) (walk other options glob root) := by
  unfold walk
  rw [h.length]
  exact (walkFrom_agrees h ..).1

theorem walk_paths (wf : tree.WellFormed) {path : List String}
    (mem : path ∈ (walk tree options glob root).flatMap Visit.paths) :
    path ≠ [] ∧ (∀ name ∈ path, IsName name) ∧ tree.isFile (root ++ path) = true := by
  obtain ⟨visit, hvisit, hpath⟩ := List.mem_flatMap.1 mem
  exact walkFrom_paths wf _ (by simp) _ visit hvisit path hpath

/-- What a scan has found lies below the root, where the walk came to it. -/
theorem mem_walk_of_found {folder : Handle} {given : PathName} {pattern : String}
    {files : List Location} (hfound : found tree folder options given pattern = .ok files) :
    ∃ root glob, findRoot tree folder given = .ok root ∧ Glob.compile pattern = .ok glob ∧
      ∀ file ∈ files, ∃ rel ∈ (walk tree options glob root).flatMap Visit.paths, root ++ rel = file := by
  cases hroot : findRoot tree folder given with
  | error failure =>
      rw [found_of_root_error hroot] at hfound
      cases hfound
  | ok root =>
      cases hglob : Glob.compile pattern with
      | error failure =>
          rw [found_of_glob_error hroot hglob] at hfound
          cases hfound
      | ok glob =>
          rw [found_eq hroot hglob] at hfound
          split at hfound
          · cases hfound
          · obtain rfl := Except.ok.inj hfound
            refine ⟨root, glob, rfl, rfl, fun file mem => ?_⟩
            obtain ⟨rel, hrel, same⟩ := List.mem_map.1 mem
            exact ⟨rel, List.mem_mergeSort.1 hrel, same⟩

theorem isFile_of_found (wf : tree.WellFormed) {folder : Handle} {given : PathName}
    {pattern : String} {files : List Location}
    (hfound : found tree folder options given pattern = .ok files) {file : Location}
    (mem : file ∈ files) : tree.isFile file = true := by
  obtain ⟨root, glob, -, -, below⟩ := mem_walk_of_found hfound
  obtain ⟨rel, hrel, rfl⟩ := below file mem
  exact (walk_paths wf hrel).2.2

theorem relativeText_inj_of_mem (wf : tree.WellFormed) {a b : List String}
    (ha : a ∈ (walk tree options glob root).flatMap Visit.paths)
    (hb : b ∈ (walk tree options glob root).flatMap Visit.paths)
    (same : relativeText a = relativeText b) : a = b := by
  obtain ⟨ane, namedA, -⟩ := walk_paths wf ha
  obtain ⟨bne, namedB, -⟩ := walk_paths wf hb
  exact relativeText_inj same (fun name mem => (namedA name mem).no_slash)
    (fun name mem => (namedB name mem).no_slash) ane bne

theorem sortPaths_agrees {spare : List Location} (wf : tree.WellFormed)
    (h : Agrees spare tree other) :
    sortPaths ((walk other options glob root).flatMap Visit.paths) =
      sortPaths ((walk tree options glob root).flatMap Visit.paths) := by
  have perm {visits visits' : List Visit} (alike : List.Forall₂ Visit.Alike visits visits') :
      (visits.flatMap Visit.paths).Perm (visits'.flatMap Visit.paths) := by
    induction alike with
    | nil => exact .refl _
    | cons head _ ih =>
        refine List.Perm.append ?_ ih
        unfold Visit.paths
        rw [head.parts]
        exact (head.files.map _).symm
  exact (mergeSort_eq_of_perm relativeText (perm (walk_agrees h)) fun a ha b hb same =>
    relativeText_inj_of_mem wf ha hb same).symm

theorem any_stuck_agrees {spare : List Location} (h : Agrees spare tree other) :
    (walk other options glob root).any (·.stuck) = (walk tree options glob root).any (·.stuck) := by
  have any {visits visits' : List Visit} (alike : List.Forall₂ Visit.Alike visits visits') :
      visits'.any (·.stuck) = visits.any (·.stuck) := by
    induction alike with
    | nil => rfl
    | cons head _ ih => rw [List.any_cons, List.any_cons, head.stuck, ih]
  exact any (walk_agrees h)

theorem found_agrees {spare : List Location} {tree other : FileTree} (wf : tree.WellFormed)
    (h : Agrees spare tree other) (folder : Handle) (options : Options) (given : PathName)
    (pattern : String) :
    found other folder options given pattern = found tree folder options given pattern := by
  have same := findRoot_agrees h folder given
  cases hroot : findRoot tree folder given with
  | error failure => rw [found_of_root_error (same.trans hroot), found_of_root_error hroot]
  | ok root =>
      cases hglob : Glob.compile pattern with
      | error failure =>
          rw [found_of_glob_error (same.trans hroot) hglob, found_of_glob_error hroot hglob]
      | ok glob =>
          rw [found_eq (same.trans hroot) hglob, found_eq hroot hglob, any_stuck_agrees h,
            sortPaths_agrees wf h]

section Gives

variable {base : Session} {watch : Watch}

/-- The walk goes on to its end unless it comes to a name that cannot be looked up. -/
theorem follow_gives (root : Location) (visits : List Visit) :
    Run.Gives base watch (follow watch root visits)
      (if visits.any (·.stuck) then .error (.ofFault .nameTooLong) else .ok ()) [] := by
  induction visits with
  | nil => exact .pure ()
  | cons visit visits ih =>
      rw [follow]
      refine Run.looks_isSet.bind ⟨_, fun _ => rfl⟩ ?_
      have rest : Run.Gives base watch
          (if visit.stuck then do throw (Failure.ofFault .nameTooLong); follow watch root visits
            else follow watch root visits)
          (if (visit :: visits).any (·.stuck) then .error (.ofFault .nameTooLong) else .ok ()) [] := by
        cases stuck : visit.stuck with
        | true =>
            rw [if_pos rfl, List.any_cons, stuck, Bool.true_or, if_pos rfl]
            exact (Run.Gives.throw _ []).bind_error _
        | false => simpa [stuck] using ih
      cases again : visit.again with
      | true => exact (Run.Gives.note ..).bind rest
      | false => exact rest

theorem files_gives (wf : base.tree.WellFormed) (options : Options) (given : PathName) (pattern : String) :
    Run.Gives base watch (files options watch given pattern)
      (found base.tree base.folder options given pattern) [] := by
  refine .get fun session h => ?_
  rw [findRoot_agrees h.tree, h.folder]
  refine (Run.Gives.ofExcept _).seq fun root _ => ?_
  refine (Run.Gives.ofExcept _).seq fun glob _ => ?_
  have walked : Run.Gives base watch _ _ [] := follow_gives root (walk session.tree options glob root)
  rw [any_stuck_agrees h.tree] at walked
  dsimp only
  rw [← sortPaths_agrees wf h.tree]
  cases stuck : (walk base.tree options glob root).any (·.stuck) with
  | true =>
      rw [stuck] at walked
      exact walked.bind_error []
  | false =>
      rw [stuck] at walked
      exact walked.bind ((Run.Gives.note ..).bind (.pure _))

end Gives

end LayerLint.Scan
