import LayerLint.Proofs.Glob.Folders
import LayerLint.Proofs.Scan.Selected

/-!
# Pruned folders

A scan prunes a folder if an exclude selects its path, and also if an exclude selects its path with a
slash behind it. The second test finds the folders in which everything is excluded anyway, and so a
scan without it finds the same files: `slash_test_redundant`. What is excluded depends on the paths of
files and folders alone.
-/

namespace LayerLint.Scan

/-! ## Scans with another test -/

/-- The folders in a folder that `prunes` leaves, in increasing order. -/
def keptFolders (prunes : String → Bool) (tree : FileTree) (options : Options) (root : Location)
    (parts : List String) (location : Location) : List String :=
  ((tree.names location).filter fun name =>
      tree.isFolder (root ++ parts ++ [name]) && options.keepsName name
        && !prunes (relativeText (parts ++ [name]))).mergeSort (· ≤ ·)

/-- A walk that prunes the folders whose paths pass a test. -/
def walkFromBy (prunes : String → Bool) (tree : FileTree) (options : Options) (pattern : Glob)
    (root : Location) : Nat → List String → List Location → List Visit × List Location
  | 0, _, seen => ([], seen)
  | depth + 1, parts, seen =>
      match tree.locate (root ++ parts) with
      | .error _ => ([], seen)
      | .ok location =>
          if options.followLinks && seen.contains location then ([⟨parts, true, false, []⟩], seen)
          else
            let here : Visit :=
              ⟨parts, false, selectsOverlong tree options pattern root parts location,
                selectedFiles tree options pattern root parts location⟩
            let below := (keptFolders prunes tree options root parts location).filter fun name =>
              options.followLinks || !isLink tree location name
            below.foldl
              (fun state name =>
                let more := walkFromBy prunes tree options pattern root depth (parts ++ [name]) state.2
                (state.1 ++ more.1, more.2))
              ([here], location :: seen)

def walkBy (prunes : String → Bool) (tree : FileTree) (options : Options) (pattern : Glob)
    (root : Location) : List Visit :=
  (walkFromBy prunes tree options pattern root (tree.entries.length + 2) [] []).1

/-- A scan that prunes the folders whose paths pass a test. -/
def filesBy (prunes : String → Bool) (options : Options) (watch : Watch) (given : PathName)
    (pattern : String) : Run (List Location) := do
  let session ← get
  let root ← Run.ofExcept (findRoot session.tree session.folder given)
  let glob ← Run.ofExcept (Glob.compile pattern)
  let visits := walkBy prunes session.tree options glob root
  follow watch root visits
  let found := sortPaths (visits.flatMap Visit.paths)
  Run.note .debug source
    ("Scan of " ++ Location.text root ++ " for " ++ Text.quoted pattern ++ ": "
      ++ toString found.length ++ " files")
  return found.map (root ++ ·)

section Walks

variable {tree : FileTree} {options : Options} {glob : Glob} {root base : Location}
  {prunes : String → Bool}

theorem walkFromBy_dropsFolder (depth : Nat) (parts : List String) (seen : List Location) :
    walkFromBy options.dropsFolder tree options glob root depth parts seen =
      walkFrom tree options glob root depth parts seen := by
  induction depth generalizing parts seen with
  | zero => rfl
  | succ depth ih =>
      rw [walkFromBy, walkFrom]
      simp only [ih]
      rfl

theorem filesBy_dropsFolder (watch : Watch) (given : PathName) (pattern : String) :
    filesBy options.dropsFolder options watch given pattern = files options watch given pattern := by
  unfold filesBy files walkBy walk
  simp only [walkFromBy_dropsFolder]

theorem walkFromBy_seen (noLinks : options.followLinks = false) (depth : Nat) (parts : List String)
    (seen : List Location) :
    (walkFromBy prunes tree options glob root depth parts seen).1 =
      (walkFromBy prunes tree options glob root depth parts []).1 := by
  induction depth generalizing parts seen with
  | zero => rfl
  | succ depth ih =>
      rw [walkFromBy, walkFromBy]
      split
      · rfl
      · simp only [noLinks, Bool.false_and, Bool.false_eq_true, ↓reduceIte]
        rw [foldl_visits fun name seen => ih (parts ++ [name]) seen,
          foldl_visits fun name seen => ih (parts ++ [name]) seen]

/-- The real folders in a folder that `prunes` leaves. -/
def nextBy (prunes : String → Bool) (tree : FileTree) (options : Options) (root base : Location)
    (parts : List String) : List String :=
  (keptFolders prunes tree options root parts (base ++ parts)).filter fun name =>
    !isLink tree (base ++ parts) name

theorem walkFromBy_visits (lead : LeadsTo tree root base) (wf : tree.WellFormed)
    (noLinks : options.followLinks = false) (depth : Nat) {parts : List String}
    (real : tree.RealBelow base parts) :
    (walkFromBy prunes tree options glob root (depth + 1) parts []).1 =
      visitOf tree options glob root base parts ::
        (nextBy prunes tree options root base parts).flatMap fun name =>
          (walkFromBy prunes tree options glob root depth (parts ++ [name]) []).1 := by
  rw [walkFromBy, lead.locate wf real]
  simp only [noLinks, Bool.false_and, Bool.false_or, Bool.false_eq_true, ↓reduceIte]
  rw [foldl_visits fun name seen => walkFromBy_seen noLinks depth (parts ++ [name]) seen]
  rfl

end Walks

/-! ## Visits that leave something behind -/

/-- The folder has a selected file, or a name that stops the scan. -/
def Visit.counts (visit : Visit) : Bool := visit.stuck || !visit.files.isEmpty

theorem flatMap_filter_of_nil {α β : Type} {f g : α → List β} {keep : α → Bool} {xs : List α}
    (kept : ∀ x ∈ xs, keep x = true → f x = g x) (nothing : ∀ x ∈ xs, keep x = false → f x = []) :
    xs.flatMap f = (xs.filter keep).flatMap g := by
  induction xs with
  | nil => rfl
  | cons x xs ih =>
      rw [List.forall_mem_cons] at kept nothing
      rw [List.flatMap_cons, ih kept.2 nothing.2]
      cases h : keep x with
      | true => rw [List.filter_cons_of_pos h, List.flatMap_cons, kept.1 h]
      | false => rw [List.filter_cons_of_neg (by simp [h]), nothing.1 h, List.nil_append]

/-- What a scan gives after its visits. -/
def collected (root : Location) (visits : List Visit) : Except Failure (List Location) :=
  if visits.any (·.stuck) then .error (.ofFault .nameTooLong)
  else .ok ((sortPaths (visits.flatMap Visit.paths)).map (root ++ ·))

theorem collected_counts (root : Location) (visits : List Visit) :
    collected root (visits.filter Visit.counts) = collected root visits := by
  have stuck : (visits.filter Visit.counts).any (·.stuck) = visits.any (·.stuck) := by
    rw [List.any_filter]
    apply List.any_congr rfl
    intro visit
    cases h : visit.stuck <;> simp [Visit.counts, h]
  have paths : (visits.filter Visit.counts).flatMap Visit.paths = visits.flatMap Visit.paths := by
    symm
    apply flatMap_filter_of_nil
    · intro visit _ _
      rfl
    · intro visit _ bare
      simp only [Visit.counts, Bool.or_eq_false_iff, Bool.not_eq_false', List.isEmpty_iff] at bare
      rw [Visit.paths, bare.2, List.map_nil]
  rw [collected, collected, stuck, paths]

/-! ## Names without line breaks -/

/-- No name below a folder has a line break. -/
def OneLine (tree : FileTree) (base : Location) : Prop :=
  ∀ rel, base ++ rel ∈ tree.entries.map (·.1) → ∀ name ∈ rel, '\n' ∉ name.toList

theorem line_relativeText {parts : List String} (line : ∀ name ∈ parts, '\n' ∉ name.toList) :
    '\n' ∉ (relativeText parts).toList := by
  induction parts using List.reverseRecOn with
  | nil => simp [relativeText]
  | append_singleton parts last _ =>
      rw [toList_relativeText]
      simpa [or_imp, forall_and] using line

theorem relativeText_append {parts : List String} (ne : parts ≠ []) {rest : List String}
    (more : rest ≠ []) : relativeText (parts ++ rest) = relativeText parts ++ "/" ++ relativeText rest :=
  String.intercalate_append_of_ne_nil ne more

theorem relativeText_ne_empty {parts : List String} (ne : parts ≠ [])
    (named : ∀ name ∈ parts, IsName name) : relativeText parts ≠ "" := by
  obtain ⟨init, last, rfl⟩ : ∃ init last, parts = init ++ [last] :=
    ⟨_, _, (List.dropLast_concat_getLast ne).symm⟩
  intro empty
  have text := toList_relativeText init last
  rw [empty] at text
  have nothing := (List.append_eq_nil_iff.1 text.symm).2
  exact (named last (by simp)).ne_empty (String.toList_eq_nil_iff.1 nothing)

section Excluded

variable {tree : FileTree} {options : Options} {glob : Glob} {root base : Location}

/-- The excludes are patterns without brackets. -/
def HasPlainExcludes (options : Options) : Prop :=
  ∀ exclude ∈ options.excludes,
    Glob.compile exclude.pattern = .ok exclude ∧ '[' ∉ exclude.pattern.toList

theorem HasPlainExcludes.inside (excludes : HasPlainExcludes options) {exclude : Glob}
    (mem : exclude ∈ options.excludes) {parts : List String} {name : String} (ne : parts ≠ [])
    (line : ∀ part ∈ parts ++ [name], '\n' ∉ part.toList) (bare : '/' ∉ name.toList)
    (h : exclude.selects (relativeText parts ++ "/") = true) :
    exclude.selects (relativeText (parts ++ [name])) = true := by
  obtain ⟨compiled, free⟩ := excludes exclude mem
  have whole : relativeText (parts ++ [name]) = relativeText parts ++ "/" ++ name := by
    rw [relativeText_append ne (List.cons_ne_nil name []), relativeText, relativeText]
    simp
  have unbroken := line_relativeText line
  rw [whole] at unbroken ⊢
  exact Glob.selects_inside compiled free unbroken bare h

theorem keptFolders_dropsFolder (parts : List String) (location : Location) :
    keptFolders options.dropsFolder tree options root parts location =
      (keptFolders options.drops tree options root parts location).filter fun name =>
        !options.drops (relativeText (parts ++ [name]) ++ "/") := by
  unfold keptFolders
  apply List.Perm.eq_of_pairwise (fun a b _ _ => String.le_antisymm)
  · exact pairwise_sorted id _
  · exact (pairwise_sorted id _).filter _
  · apply (List.mergeSort_perm ..).trans
    apply List.Perm.trans _ ((List.mergeSort_perm ..).filter _).symm
    rw [List.filter_filter]
    apply List.Perm.of_eq
    apply List.filter_congr
    intro name _
    rw [Options.dropsFolder, Bool.not_or, Bool.and_comm (!options.drops (_ ++ "/"))]
    simp only [Bool.and_assoc]

theorem nextBy_dropsFolder (parts : List String) :
    nextBy options.dropsFolder tree options root base parts =
      (nextBy options.drops tree options root base parts).filter fun name =>
        !options.drops (relativeText (parts ++ [name]) ++ "/") := by
  rw [nextBy, nextBy, keptFolders_dropsFolder, List.filter_filter, List.filter_filter]
  simp only [Bool.and_comm]

theorem realBelow_of_mem_nextBy (lead : LeadsTo tree root base) (wf : tree.WellFormed)
    {prunes : String → Bool} {parts : List String} (real : tree.RealBelow base parts) {name : String}
    (mem : name ∈ nextBy prunes tree options root base parts) :
    tree.RealBelow base (parts ++ [name]) := by
  simp only [nextBy, keptFolders, List.mem_filter, List.mem_mergeSort, Bool.and_eq_true,
    Bool.not_eq_true'] at mem
  obtain ⟨⟨listed, ⟨isFolder, -⟩, -⟩, noLink⟩ := mem
  exact FileTree.RealBelow.concat.2 ⟨real, real_of_isFolder lead wf real listed isFolder noLink⟩

variable (lead : LeadsTo tree root base) (wf : tree.WellFormed) (oneLine : OneLine tree base)
  (noLinks : options.followLinks = false) (excludes : HasPlainExcludes options)

include lead wf oneLine noLinks excludes

/-- Without the second test the walk goes into a folder in which everything is excluded, and leaves it
again with nothing. -/
theorem counts_of_drops (depth : Nat) {parts : List String} (ne : parts ≠ [])
    (real : tree.RealBelow base parts) (h : options.drops (relativeText parts ++ "/") = true) :
    (walkFromBy options.drops tree options glob root depth parts []).1.filter Visit.counts = [] := by
  have all : ∀ name ∈ tree.names (base ++ parts),
      options.drops (relativeText (parts ++ [name])) = true := by
    intro name mem
    obtain ⟨exclude, hexclude, selects⟩ := List.any_eq_true.1 h
    refine List.any_eq_true.2 ⟨exclude, hexclude, excludes.inside hexclude ne ?_
      (isName_of_mem_names wf mem).no_slash selects⟩
    apply oneLine
    rw [← List.append_assoc]
    exact FileTree.mem_names.1 mem
  have names : selectedNames tree options glob parts (base ++ parts) = [] := by
    apply List.filter_eq_nil_iff.2
    intro name mem
    simp [all name mem]
  have next : nextBy options.drops tree options root base parts = [] := by
    have kept : keptFolders options.drops tree options root parts (base ++ parts) = [] := by
      apply List.eq_nil_iff_forall_not_mem.2
      intro name mem
      simp only [keptFolders, List.mem_mergeSort, List.mem_filter, Bool.and_eq_true,
        Bool.not_eq_true'] at mem
      rw [all name mem.1] at mem
      exact Bool.noConfusion mem.2.2
    rw [nextBy, kept, List.filter_nil]
  cases depth with
  | zero => rfl
  | succ depth =>
      rw [walkFromBy_visits lead wf noLinks depth real, next]
      simp [visitOf, Visit.counts, selectsOverlong, selectedFiles, names]

theorem walkFromBy_counts (depth : Nat) {parts : List String} (real : tree.RealBelow base parts) :
    (walkFromBy options.drops tree options glob root depth parts []).1.filter Visit.counts =
      (walkFromBy options.dropsFolder tree options glob root depth parts []).1.filter Visit.counts := by
  induction depth generalizing parts with
  | zero => rfl
  | succ depth ih =>
      have tails : ((nextBy options.drops tree options root base parts).flatMap fun name =>
            (walkFromBy options.drops tree options glob root depth (parts ++ [name]) []).1).filter
              Visit.counts =
          ((nextBy options.dropsFolder tree options root base parts).flatMap fun name =>
            (walkFromBy options.dropsFolder tree options glob root depth (parts ++ [name]) []).1).filter
              Visit.counts := by
        -- The folders that the second test prunes are all that the two walks differ in.
        rw [List.filter_flatMap, List.filter_flatMap, nextBy_dropsFolder]
        apply flatMap_filter_of_nil
        · intro name mem _
          exact ih (realBelow_of_mem_nextBy lead wf real mem)
        · intro name mem pruned
          exact counts_of_drops lead wf oneLine noLinks excludes depth (by simp)
            (realBelow_of_mem_nextBy lead wf real mem) (by simpa using pruned)
      rw [walkFromBy_visits lead wf noLinks depth real, walkFromBy_visits lead wf noLinks depth real,
        List.filter_cons, List.filter_cons, tails]

theorem collected_drops :
    collected root (walkBy options.drops tree options glob root) =
      collected root (walkBy options.dropsFolder tree options glob root) := by
  unfold walkBy
  rw [← collected_counts, walkFromBy_counts lead wf oneLine noLinks excludes _ (.nil tree base),
    collected_counts]

omit noLinks

omit excludes in
theorem names_of_isFile {rel : List String} (eligible : Eligible tree options glob root rel)
    (isFile : tree.isFile (root ++ rel) = true) : ∀ name ∈ rel, IsName name ∧ '\n' ∉ name.toList := by
  obtain ⟨parts, last, rfl⟩ : ∃ parts last, rel = parts ++ [last] :=
    ⟨_, _, (List.dropLast_concat_getLast eligible.nonempty).symm⟩
  rw [← List.append_assoc] at isFile
  have listed := FileTree.mem_names.1
    (mem_names_of_isFile lead wf (eligible.realBelow lead wf) isFile)
  rw [List.append_assoc] at listed
  intro name mem
  exact ⟨wf.named _ listed name (List.mem_append_right _ mem), oneLine _ listed name mem⟩

/-- A folder with a slash behind it is excluded only if all that is in it is. -/
theorem eligible_iff_notExcluded {rel : List String}
    (free : Eligible tree { options with excludes := [] } glob root rel)
    (isFile : tree.isFile (root ++ rel) = true) :
    Eligible tree options glob root rel ↔ ∀ exclude ∈ options.excludes,
      exclude.selects (relativeText rel) = false ∧
        ∀ above, IsAncestor above rel → exclude.selects (relativeText above) = false := by
  constructor
  · intro h exclude mem
    exact ⟨h.notExcluded exclude mem, fun above inside =>
      (h.foldersNotExcluded above inside exclude mem).1⟩
  · intro h
    refine ⟨free.nonempty, free.throughFolders, free.shown, free.selected,
      fun exclude mem => (h exclude mem).1, fun above inside exclude mem =>
        ⟨(h exclude mem).2 above inside, ?_⟩⟩
    have named := names_of_isFile lead wf oneLine free isFile
    obtain ⟨nonempty, ⟨rest, rfl⟩, ne⟩ := inside
    cases rest with
    | nil => exact absurd (List.append_nil above).symm ne
    | cons next rest =>
        have front : above ++ [next] <+: above ++ next :: rest := ⟨rest, by simp⟩
        rw [← Bool.not_eq_true]
        intro selects
        have selected := excludes.inside mem nonempty
          (fun part hpart => (named part (front.mem hpart)).2) (named next (by simp)).1.no_slash selects
        by_cases last : above ++ [next] = above ++ next :: rest
        · rw [last, (h exclude mem).1] at selected
          cases selected
        · rw [(h exclude mem).2 _ ⟨by simp, front, last⟩] at selected
          cases selected

theorem not_eligible_iff {rel : List String}
    (free : Eligible tree { options with excludes := [] } glob root rel)
    (isFile : tree.isFile (root ++ rel) = true) :
    ¬ Eligible tree options glob root rel ↔ ∃ exclude ∈ options.excludes,
      exclude.selects (relativeText rel) = true ∨
        ∃ above, IsAncestor above rel ∧ exclude.selects (relativeText above) = true := by
  rw [eligible_iff_notExcluded lead wf oneLine excludes free isFile]
  constructor
  · intro missing
    by_contra none
    push Not at none
    apply missing
    intro exclude mem
    obtain ⟨own, folders⟩ := none exclude mem
    exact ⟨Bool.eq_false_iff.2 own, fun above inside => Bool.eq_false_iff.2 (folders above inside)⟩
  · rintro ⟨exclude, mem, own | ⟨above, inside, selected⟩⟩ all
    · rw [(all exclude mem).1] at own
      cases own
    · rw [(all exclude mem).2 above inside] at selected
      cases selected

theorem not_eligible_below {d : String} {named : Glob} (compiled : Glob.compile d = .ok named)
    (listed : ∃ exclude ∈ options.excludes, exclude.pattern = d ∨ exclude.pattern = d ++ "/**")
    {folder rel : List String} (selects : named.selects (relativeText folder) = true)
    (inside : IsAncestor folder rel) (isFile : tree.isFile (root ++ rel) = true) :
    ¬ Eligible tree options glob root rel := by
  intro eligible
  obtain ⟨exclude, mem, same | same⟩ := listed
  · have own := (excludes exclude mem).1
    rw [same, compiled] at own
    obtain rfl := Except.ok.inj own
    rw [(eligible.foldersNotExcluded folder inside _ mem).1] at selects
    cases selects
  · have plain := names_of_isFile lead wf oneLine eligible isFile
    obtain ⟨deep, free⟩ := excludes exclude mem
    rw [same] at deep free
    obtain ⟨nonempty, ⟨rest, rfl⟩, ne⟩ := inside
    have more : rest ≠ [] := by
      rintro rfl
      exact ne (List.append_nil folder).symm
    have whole := relativeText_append nonempty more
    have line := line_relativeText fun name hname => (plain name hname).2
    rw [whole] at line
    have start : relativeText folder ≠ "" :=
      relativeText_ne_empty nonempty fun name hname => (plain name (List.mem_append_left _ hname)).1
    have selected := Glob.selects_below compiled deep (by simpa using free) line start selects
    rw [← whole, eligible.notExcluded exclude mem] at selected
    cases selected

end Excluded

/-! ## The whole scan -/

theorem filesBy_gives (session : Session) (prunes : String → Bool) (options : Options) (watch : Watch)
    (given : PathName) (pattern : String) :
    ∃ rest : Run (List Location),
      (filesBy prunes options watch given pattern).on session = rest.on session ∧
      Run.Gives session watch rest
        (do
          let root ← findRoot session.tree session.folder given
          let glob ← Glob.compile pattern
          collected root (walkBy prunes session.tree options glob root)) [] := by
  refine ⟨_, Run.on_get_bind _ _, ?_⟩
  refine (Run.Gives.ofExcept _).seq fun root _ => ?_
  refine (Run.Gives.ofExcept _).seq fun glob _ => ?_
  have walked := @follow_gives session watch root (walkBy prunes session.tree options glob root)
  unfold collected
  cases stuck : (walkBy prunes session.tree options glob root).any (·.stuck) with
  | true =>
      rw [stuck] at walked
      exact walked.bind_error []
  | false =>
      rw [stuck] at walked
      exact walked.bind ((Run.Gives.note ..).bind (.pure _))

theorem bind_congr_ok {ε α β : Type} {x : Except ε α} {f g : α → Except ε β}
    (h : ∀ a, x = .ok a → f a = g a) : x >>= f = x >>= g := by
  cases x with
  | error failure => rfl
  | ok a => exact h a rfl

theorem filesBy_eq {session : Session} (wf : session.tree.WellFormed) {given : PathName}
    (oneLine : ∀ root base, findRoot session.tree session.folder given = .ok root →
      LeadsTo session.tree root base → OneLine session.tree base)
    {options : Options} (noLinks : options.followLinks = false) (excludes : HasPlainExcludes options)
    (watch : Watch) (pattern : String)
    (going : watch.Quiet session ∨
      (∀ reason, ((files options watch given pattern).on session).1 ≠ .error (.cancelled reason)) ∧
      ∀ reason, ((filesBy options.drops options watch given pattern).on session).1 ≠
        .error (.cancelled reason)) :
    ((filesBy options.drops options watch given pattern).on session).1 =
      ((files options watch given pattern).on session).1 := by
  rw [← filesBy_dropsFolder] at going ⊢
  obtain ⟨first, sameFirst, givesFirst⟩ :=
    filesBy_gives session options.drops options watch given pattern
  obtain ⟨second, sameSecond, givesSecond⟩ :=
    filesBy_gives session options.dropsFolder options watch given pattern
  rw [sameFirst, sameSecond] at going ⊢
  have agree :
      (do
        let root ← findRoot session.tree session.folder given
        let glob ← Glob.compile pattern
        collected root (walkBy options.drops session.tree options glob root)) =
      (do
        let root ← findRoot session.tree session.folder given
        let glob ← Glob.compile pattern
        collected root (walkBy options.dropsFolder session.tree options glob root)) := by
    apply bind_congr_ok
    intro root hroot
    obtain ⟨base, lead⟩ := leadsTo_of_status (status_of_findRoot hroot)
    apply bind_congr
    intro glob
    exact collected_drops lead wf (oneLine root base hroot lead) noLinks excludes
  rw [agree] at givesFirst
  rcases going with quiet | ⟨goingSecond, goingFirst⟩
  · rw [(givesFirst.result_eq_of_quiet (.refl wf) quiet).1,
      (givesSecond.result_eq_of_quiet (.refl wf) quiet).1]
  · rw [(givesFirst.result_eq (.refl wf) goingFirst).1, (givesSecond.result_eq (.refl wf) goingSecond).1]

/-- What a scan has found are the eligible files. -/
theorem mem_of_files {session : Session} (wf : session.tree.WellFormed) {options : Options}
    (noLinks : options.followLinks = false) {watch : Watch} {given : PathName} {pattern : String}
    {root : Location} {glob : Glob} {found : List Location}
    (hroot : findRoot session.tree session.folder given = .ok root)
    (hglob : Glob.compile pattern = .ok glob)
    (ran : ((files options watch given pattern).on session).1 = .ok found) (rel : List String) :
    root ++ rel ∈ found ↔
      Eligible session.tree options glob root rel ∧ session.tree.isFile (root ++ rel) = true := by
  have gives : Run.Gives session watch (files options watch given pattern) _ [] :=
    files_gives wf options given pattern
  have result := (gives.result_eq (.refl wf) fun reason h => by rw [ran] at h; cases h).1
  rw [ran] at result
  obtain ⟨blocked, clear⟩ := @found_exact _ options _ _ _ _ _ wf hroot hglob noLinks
  by_cases blocks : ∃ rel, Blocks session.tree options glob root rel
  · rw [blocked blocks] at result
    cases result
  · obtain ⟨rels, same, members, -⟩ := clear blocks
    rw [same] at result
    obtain rfl := Except.ok.inj result
    rw [List.mem_map_of_injective (List.append_right_injective root), members]

/-- The test of folders with a slash behind them changes nothing. A file is left out because of the
excludes if one of them selects its path or the path of a folder above it. So a pattern leaves out
all that is below the folders it selects, with `/**` behind it or without. -/
theorem slash_test_redundant {session : Session} (wf : session.tree.WellFormed) {given : PathName}
    (oneLine : ∀ root base, findRoot session.tree session.folder given = .ok root →
      LeadsTo session.tree root base → OneLine session.tree base)
    {options : Options} (noLinks : options.followLinks = false) (excludes : HasPlainExcludes options)
    (watch : Watch) (pattern : String) :
    let outcome := ((files options watch given pattern).on session).1
    let simpler := ((filesBy options.drops options watch given pattern).on session).1
    filesBy options.dropsFolder options watch given pattern = files options watch given pattern ∧
    ((watch.Quiet session ∨ (∀ reason, outcome ≠ .error (.cancelled reason)) ∧
        ∀ reason, simpler ≠ .error (.cancelled reason)) → simpler = outcome) ∧
    ∀ root glob found, findRoot session.tree session.folder given = .ok root →
      Glob.compile pattern = .ok glob → outcome = .ok found →
        (∀ rel, Eligible session.tree { options with excludes := [] } glob root rel →
          session.tree.isFile (root ++ rel) = true →
            (root ++ rel ∉ found ↔ ∃ exclude ∈ options.excludes,
              exclude.selects (relativeText rel) = true ∨
                ∃ above, IsAncestor above rel ∧ exclude.selects (relativeText above) = true)) ∧
        ∀ d named, Glob.compile d = .ok named →
          (∃ exclude ∈ options.excludes, exclude.pattern = d ∨ exclude.pattern = d ++ "/**") →
            ∀ folder, named.selects (relativeText folder) = true →
              ∀ rel, IsAncestor folder rel → root ++ rel ∉ found := by
  intro outcome simpler
  refine ⟨filesBy_dropsFolder watch given pattern,
    filesBy_eq wf oneLine noLinks excludes watch pattern, ?_⟩
  intro root glob found hroot hglob ran
  obtain ⟨base, lead⟩ := leadsTo_of_status (status_of_findRoot hroot)
  replace oneLine := oneLine root base hroot lead
  have members := mem_of_files wf noLinks hroot hglob ran
  constructor
  · intro rel free isFile
    rw [members, and_iff_left isFile]
    exact not_eligible_iff lead wf oneLine excludes free isFile
  · intro d named compiled listed folder selects rel inside
    rw [members]
    rintro ⟨eligible, isFile⟩
    exact not_eligible_below lead wf oneLine excludes compiled listed selects inside isFile eligible

/-- An exclude that selects a folder only with a slash behind it. -/
theorem slash_test_redundant_sampleTree :
    ∃ old, Glob.compile "old/*" = .ok old ∧ old.selects "old" = false ∧ old.selects "old/" = true ∧
      ((filesBy (Options.drops ⟨false, false, [old]⟩) ⟨false, false, [old]⟩ .off ⟨"/", ["p"]⟩
          "**/*.ts").on (.ofTree sampleTree)).1 =
        ((files ⟨false, false, [old]⟩ .off ⟨"/", ["p"]⟩ "**/*.ts").on (.ofTree sampleTree)).1 := by
  have wf : sampleTree.WellFormed := by decide +kernel
  have unbroken : ∀ location ∈ sampleTree.entries.map (·.1), ∀ name ∈ location,
      '\n' ∉ name.toList := by
    decide +kernel
  have oneLine (base : Location) : OneLine sampleTree base := fun rel mem name hname =>
    unbroken _ mem name (List.mem_append_right _ hname)
  have selects : (Glob.compile "old/*").toOption.any
      (fun glob => !glob.selects "old" && glob.selects "old/") = true := by
    decide +kernel
  cases compiled : Glob.compile "old/*" with
  | error failure =>
      rw [compiled] at selects
      cases selects
  | ok old =>
      rw [compiled] at selects
      simp only [Except.toOption, Option.any_some, Bool.and_eq_true, Bool.not_eq_true'] at selects
      have excludes : HasPlainExcludes ⟨false, false, [old]⟩ := by
        intro exclude mem
        obtain rfl := List.mem_singleton.1 mem
        rw [Glob.pattern_of_compile compiled]
        exact ⟨compiled, by decide⟩
      have redundant := @slash_test_redundant (.ofTree sampleTree) wf ⟨"/", ["p"]⟩
        (fun _ base _ _ => oneLine base) _ rfl excludes .off "**/*.ts"
      exact ⟨old, rfl, selects.1, selects.2, redundant.2.1 (.inl (Watch.quiet_off _))⟩

end LayerLint.Scan
