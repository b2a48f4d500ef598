import LayerLint.Proofs.Scan.Agenda
import LayerLint.Proofs.Scan.Selected

/-!
# Files that following links loses

A walk that follows links looks into every folder once, along the path by which it comes there first.
So a file that is found without following links may be missing when links are followed: when a folder
on its way has been looked into along another path, through a link with a smaller name.
`files_followed_iff` says that this is the only reason.
-/

namespace LayerLint.Scan

variable {tree : FileTree} {options : Options} {glob : Glob} {root base : Location}

def Options.following (options : Options) (follow : Bool) : Options :=
  { options with followLinks := follow }

/-- A path through a link along which a walk looks into the folder at the end of another path, which
it would come to later. -/
structure IsAlias (tree : FileTree) (root : Location) (visits : List Visit)
    (above other : List String) : Prop where
  looked : LooksInto visits other
  same : tree.locate (root ++ other) = tree.locate (root ++ above)
  first : Precedes other above
  throughLink : ∃ front, front ≠ [] ∧ front <+: other ∧ entryOf? tree (root ++ front) ≠ some .folder

/-! ## Folders on the way to a file -/

theorem eq_of_real (lead : LeadsTo tree root base) (wf : tree.WellFormed) {parts other : List String}
    (real : tree.RealBelow base parts) (real' : tree.RealBelow base other)
    (same : tree.locate (root ++ other) = tree.locate (root ++ parts)) : other = parts := by
  rw [lead.locate wf real, lead.locate wf real'] at same
  exact List.append_cancel_left (Except.ok.inj same)

theorem isAlias_of_ne (lead : LeadsTo tree root base) (wf : tree.WellFormed) {visits : List Visit}
    {above other : List String} (real : tree.RealBelow base above) (looked : LooksInto visits other)
    (same : tree.locate (root ++ other) = tree.locate (root ++ above))
    (order : other <+: above ∨ Precedes other above) (ne : other ≠ above) :
    IsAlias tree root visits above other := by
  refine ⟨looked, same, order.resolve_left fun front => ?_, ?_⟩
  · exact ne (eq_of_real lead wf real (real.of_front front) same)
  · by_contra noLink
    push Not at noLink
    exact ne (eq_of_real lead wf real ((realBelow_iff lead wf other).2 noLink) same)

theorem IsAlias.ne (lead : LeadsTo tree root base) (wf : tree.WellFormed) {visits : List Visit}
    {above other : List String} (h : IsAlias tree root visits above other)
    (real : tree.RealBelow base above) : other ≠ above := by
  rintro rfl
  obtain ⟨front, nonempty, isFront, noFolder⟩ := h.throughLink
  exact noFolder ((realBelow_iff lead wf other).1 real front nonempty isFront)

theorem mem_subfolders_of_enters {parts : List String} {name : String}
    (h : Enters tree options root base parts name) :
    name ∈ subfolders tree options root parts (base ++ parts) := by
  simp only [subfolders, List.mem_mergeSort, List.mem_filter, Bool.and_eq_true, Bool.not_eq_true']
  exact ⟨FileTree.mem_names_of_get? h.real, ⟨h.usable, h.kept⟩, h.notDropped⟩

/-- A walk that follows links looks into a folder along the path by which it is entered without
following them, unless a folder on the way has an alias. -/
theorem looksInto_of_entered (lead : LeadsTo tree root base) (wf : tree.WellFormed)
    {visits : List Visit} {final : List Location}
    (walks : Walks tree options glob root [[]] [] visits final) {parts : List String}
    (entered : Entered tree options root base parts)
    (alone : ∀ above other, above ≠ [] → above <+: parts → ¬ IsAlias tree root visits above other) :
    LooksInto visits parts := by
  induction parts using List.reverseRecOn with
  | nil =>
      cases walks with
      | skip _ old => cases old
      | look => exact looksInto_cons.2 (.inl ⟨rfl, rfl⟩)
  | append_singleton parts name ih =>
      obtain ⟨before, enters⟩ := Entered.concat.1 entered
      have looked := ih before fun above other ne front =>
        alone above other ne (front.trans (List.prefix_append ..))
      obtain ⟨visit, mem, here⟩ := walks.closed looked (lead.locate wf before.realBelow)
        (mem_subfolders_of_enters enters)
      -- either this visit is the first one of the folder, or the path of the first one is an alias
      obtain ⟨other, looked, same, order⟩ := walks.looked wf (List.pairwise_singleton ..) mem
      rw [here] at same order
      by_cases ne : other = parts ++ [name]
      · exact ne ▸ looked
      · exact absurd (isAlias_of_ne lead wf entered.realBelow looked same order ne)
          (alone _ other (by simp) List.prefix_rfl)

theorem looksInto_of_front {visits : List Visit} {final : List Location}
    (walks : Walks tree options glob root [[]] [] visits final) {parts above : List String}
    (looked : LooksInto visits parts) (front : above <+: parts) : LooksInto visits above := by
  by_cases same : above = parts
  · exact same ▸ looked
  · obtain ⟨visit, mem, rfl, -⟩ := looked
    refine walks.all (P := fun parts => ∀ above, above <+: parts → above ≠ parts →
      LooksInto visits above) ?_ ?_ visit mem above front same
    · intro start mem above front ne
      obtain rfl := List.mem_singleton.1 mem
      exact absurd (List.prefix_nil.1 front) ne
    · intro parts location looked _ before name _ above front ne
      have front := (List.prefix_concat_iff.1 front).resolve_left ne
      by_cases here : above = parts
      · exact here ▸ looked
      · exact before above front here

/-! ## The two scans -/

theorem mem_paths_followed (lead : LeadsTo tree root base) (wf : tree.WellFormed)
    (usable : Usable root) (follow : options.followLinks = true) {rel : List String}
    (eligible : Eligible tree options glob root rel) (isFile : tree.isFile (root ++ rel) = true) :
    rel ∈ (walk tree options glob root).flatMap Visit.paths ↔
      ¬ ∃ above other, IsAncestor above rel ∧
        IsAlias tree root (walk tree options glob root) above other := by
  obtain ⟨parts, name, rfl⟩ : ∃ parts name, rel = parts ++ [name] :=
    ⟨_, _, (List.dropLast_concat_getLast eligible.nonempty).symm⟩
  have real := eligible.realBelow lead wf
  have isFile' := isFile
  rw [← List.append_assoc] at isFile'
  obtain ⟨bytes, status⟩ := isFile_iff.1 isFile'
  have here : Usable (root ++ parts) := (usable_of_status status).of_front (List.prefix_append ..)
  obtain ⟨entered, selected⟩ := (eligible_concat lead wf usable
    (mem_names_of_isFile lead wf real isFile') here).1 eligible
  obtain ⟨final, walks⟩ : ∃ final, Walks tree options glob root [[]] [] _ final :=
    walks_walk follow (isFolder_iff.2 (usable.status lead.located lead.folder))
  rw [walks.mem_paths]
  constructor
  · rintro ⟨parts', -, name', looked, -, -, same⟩ ⟨above, other, ancestor, isAlias⟩
    obtain ⟨rfl, -⟩ := List.append_inj' same rfl
    obtain ⟨-, front⟩ := isAncestor_concat.1 ancestor
    exact isAlias.ne lead wf (real.of_front front)
      (walks.eq_of_locate_eq (looksInto_of_front walks looked front) isAlias.looked isAlias.same)
  · intro alone
    have looked := looksInto_of_entered lead wf walks entered fun above other ne front isAlias =>
      alone ⟨above, other, isAncestor_concat.2 ⟨ne, front⟩, isAlias⟩
    exact ⟨parts, _, name, looked, lead.locate wf real, List.mem_filter.2 ⟨selected, isFile'⟩, rfl⟩

theorem files_eq {session : Session} (wf : session.tree.WellFormed) {watch : Watch}
    {given : PathName} {pattern : String}
    (hroot : findRoot session.tree session.folder given = .ok root)
    (hglob : Glob.compile pattern = .ok glob) {paths : List Location}
    (returned : ((files options watch given pattern).on session).1 = .ok paths) :
    paths = (sortPaths ((walk session.tree options glob root).flatMap Visit.paths)).map (root ++ ·) := by
  have gives : Run.Gives session watch (files options watch given pattern) _ [] :=
    files_gives wf options given pattern
  have same := (gives.result_eq (.refl wf) (by rw [returned]; nofun)).1
  rw [returned, found_eq hroot hglob] at same
  split at same
  · cases same
  · exact Except.ok.inj same

theorem Eligible.following {follow other : Bool} {rel : List String}
    (h : Eligible tree (options.following follow) glob root rel) :
    Eligible tree (options.following other) glob root rel :=
  ⟨h.nonempty, h.throughFolders, h.shown, h.selected, h.notExcluded, h.foldersNotExcluded⟩

/-- A scan that follows links and is not cancelled finds a file that a scan without links finds, unless
a folder on the way to the file has been looked into along another path. -/
theorem files_followed_iff {session : Session} (wf : session.tree.WellFormed) (options : Options)
    (watch : Watch) (given : PathName) (pattern : String) {root : Location} {glob : Glob}
    (hroot : findRoot session.tree session.folder given = .ok root)
    (hglob : Glob.compile pattern = .ok glob) {plain : List Location}
    (hplain : ((files (options.following false) watch given pattern).on session).1 = .ok plain) :
    let visits := walk session.tree (options.following true) glob root
    let outcome := ((files (options.following true) watch given pattern).on session).1
    (∀ reason, outcome ≠ .error (.cancelled reason)) →
      ((∃ visit ∈ visits, visit.stuck = true) → outcome = .error (.cannotOpen "OSError")) ∧
      ((¬ ∃ visit ∈ visits, visit.stuck = true) →
        ∃ followed, outcome = .ok followed ∧
          ∀ file ∈ plain, ∃ rel, file = root ++ rel ∧
            (file ∈ followed ↔
              ¬ ∃ above other, IsAncestor above rel ∧
                IsAlias session.tree root visits above other)) := by
  intro visits outcome going
  have status := status_of_findRoot hroot
  obtain ⟨base, lead⟩ := leadsTo_of_status status
  have usable := usable_of_status status
  have gives : Run.Gives session watch (files (options.following true) watch given pattern) _ [] :=
    files_gives wf _ given pattern
  rw [show outcome = _ from (gives.result_eq (.refl wf) going).1, found_eq hroot hglob,
    ← List.any_eq_true]
  refine ⟨fun stuck => if_pos stuck, fun clear => ⟨_, if_neg clear, fun file mem => ?_⟩⟩
  rw [files_eq wf hroot hglob hplain] at mem
  obtain ⟨rel, sorted, rfl⟩ := List.mem_map.1 mem
  obtain ⟨eligible, isFile⟩ := (mem_paths lead wf usable rfl).1 (List.mem_mergeSort.1 sorted)
  refine ⟨rel, rfl, ?_⟩
  rw [← mem_paths_followed lead wf usable rfl eligible.following isFile]
  simp [sortPaths]

/-! ## A link before its folder -/

def aliasTree : FileTree where
  entries :=
    [(["p"], .folder), (["p", "a"], .link "b"), (["p", "b"], .folder), (["p", "b", "x.ts"], .file [])]
  removed := []

theorem locate_aliasTree :
    aliasTree.locate ["p"] = .ok ["p"] ∧
      ∀ name ∈ ["a", "b"], aliasTree.locate ["p", name] = .ok ["p", "b"] ∧
        aliasTree.locate ["p", name, "x.ts"] = .ok ["p", "b", "x.ts"] := by
  simp +decide [FileTree.locate, FileTree.locateFrom, FileTree.get?, aliasTree, FileTree.maxLinks,
    FileTree.linkStart, PathName.steps, PathName.pieces, Text.splitOn, List.lookup_cons]

theorem status_aliasTree {name : String} (mem : name ∈ ["a", "b"]) :
    aliasTree.status ["p", name] = .ok .folder ∧
      aliasTree.status ["p", name, "x.ts"] = .ok (.file []) := by
  obtain ⟨folder, file⟩ := locate_aliasTree.2 name mem
  have usable : Usable ["p", name] ∧ Usable ["p", name, "x.ts"] := by
    rcases List.mem_pair.1 mem with rfl | rfl <;> exact ⟨⟨by decide, by decide⟩, by decide, by decide⟩
  exact ⟨usable.1.status folder rfl, usable.2.status file rfl⟩

theorem subfolders_aliasTree (follow : Bool) :
    subfolders aliasTree ⟨follow, false, []⟩ ["p"] [] ["p"] = ["a", "b"] ∧
      ∀ name ∈ ["a", "b"],
        subfolders aliasTree ⟨follow, false, []⟩ ["p"] [name] ["p", "b"] = [] := by
  have top : aliasTree.names ["p"] = ["a", "b"] := rfl
  have below : aliasTree.names ["p", "b"] = ["x.ts"] := rfl
  constructor
  · simp +decide [subfolders, top, FileTree.isFolder, status_aliasTree, Options.keepsName,
      Options.dropsFolder, Options.drops, List.mergeSort]
  · intro name mem
    simp [subfolders, below, FileTree.isFolder, status_aliasTree mem]

theorem walk_aliasTree (glob : Glob) :
    (walk aliasTree ⟨false, false, []⟩ glob ["p"] =
      [firstVisit aliasTree ⟨false, false, []⟩ glob ["p"] [] ["p"],
        firstVisit aliasTree ⟨false, false, []⟩ glob ["p"] ["b"] ["p", "b"]]) ∧
    (walk aliasTree ⟨true, false, []⟩ glob ["p"] =
      [firstVisit aliasTree ⟨true, false, []⟩ glob ["p"] [] ["p"],
        firstVisit aliasTree ⟨true, false, []⟩ glob ["p"] ["a"] ["p", "b"],
        ⟨["b"], true, false, []⟩]) := by
  have linkA : isLink aliasTree ["p"] "a" = true := rfl
  have linkB : isLink aliasTree ["p"] "b" = false := rfl
  simp [walk, walkFrom, locate_aliasTree, subfolders_aliasTree, firstVisit, linkA, linkB]

theorem firstVisit_aliasTree (follow : Bool) {glob : Glob}
    (selects : ∀ name ∈ ["a", "b"], glob.selects (relativeText [name, "x.ts"]) = true) :
    firstVisit aliasTree ⟨follow, false, []⟩ glob ["p"] [] ["p"] = ⟨[], false, false, []⟩ ∧
      ∀ name ∈ ["a", "b"], firstVisit aliasTree ⟨follow, false, []⟩ glob ["p"] [name] ["p", "b"] =
        ⟨[name], false, false, ["x.ts"]⟩ := by
  have top : aliasTree.names ["p"] = ["a", "b"] := rfl
  have below : aliasTree.names ["p", "b"] = ["x.ts"] := rfl
  constructor
  · simp [firstVisit, selectsOverlong, selectedFiles, selectedNames, top, FileTree.isFile,
      status_aliasTree]
  · intro name mem
    simp +decide [firstVisit, selectsOverlong, selectedFiles, selectedNames, below, FileTree.isFile,
      status_aliasTree mem, selects name mem, Options.keepsName, Options.drops]

theorem findRoot_aliasTree :
    findRoot aliasTree (aliasTree.hold []) ⟨"/", ["p"]⟩ = .ok ["p"] := by
  have real : aliasTree.RealBelow [] ([] ++ ["p"]) := FileTree.RealBelow.concat.2 ⟨.nil _ _, rfl⟩
  exact findRoot_of_real (by decide +kernel) _ real ⟨by decide, by decide⟩

theorem compile_ts :
    ∃ glob, Glob.compile "**/*.ts" = .ok glob ∧
      ∀ name ∈ ["a", "b"], glob.selects (relativeText [name, "x.ts"]) = true := by
  obtain ⟨glob, hglob, inA⟩ : ∃ glob, Glob.compile "**/*.ts" = .ok glob ∧
      glob.selects (relativeText ["a", "x.ts"]) = true := exists_compile (by decide +kernel)
  obtain ⟨_, same, inB⟩ : ∃ glob, Glob.compile "**/*.ts" = .ok glob ∧
      glob.selects (relativeText ["b", "x.ts"]) = true := exists_compile (by decide +kernel)
  obtain rfl := Except.ok.inj (hglob.symm.trans same)
  exact ⟨glob, hglob, by simp [inA, inB]⟩

theorem files_of_aliasTree (follow : Bool) :
    ((files ⟨follow, false, []⟩ .off ⟨"/", ["p"]⟩ "**/*.ts").on (.ofTree aliasTree)).1 =
      .ok [["p", if follow then "a" else "b", "x.ts"]] := by
  have wf : aliasTree.WellFormed := by decide +kernel
  have gives : Run.Gives (.ofTree aliasTree) .off
      (files ⟨follow, false, []⟩ .off ⟨"/", ["p"]⟩ "**/*.ts") _ [] := files_gives wf _ _ _
  obtain ⟨glob, hglob, selects⟩ := compile_ts
  have visits := firstVisit_aliasTree follow selects
  refine (gives.result_eq_of_quiet (.refl wf) (Watch.quiet_off _)).1.trans
    ((found_eq findRoot_aliasTree hglob).trans ?_)
  cases follow with
  | false => simp [(walk_aliasTree glob).1, visits, Visit.paths, sortPaths]
  | true => simp [(walk_aliasTree glob).2, visits, Visit.paths, sortPaths]

theorem files_followed_iff_aliasTree :
    aliasTree.WellFormed ∧ findRoot aliasTree (aliasTree.hold []) ⟨"/", ["p"]⟩ = .ok ["p"] ∧
      ((files ⟨false, false, []⟩ .off ⟨"/", ["p"]⟩ "**/*.ts").on (.ofTree aliasTree)).1 =
        .ok [["p", "b", "x.ts"]] ∧
      ∃ glob followed, Glob.compile "**/*.ts" = .ok glob ∧
        ((files ⟨true, false, []⟩ .off ⟨"/", ["p"]⟩ "**/*.ts").on (.ofTree aliasTree)).1 =
          .ok followed ∧
        ∃ rel, ["p", "b", "x.ts"] = ["p"] ++ rel ∧
          (["p", "b", "x.ts"] ∈ followed ↔
            ¬ ∃ above other, IsAncestor above rel ∧
              IsAlias aliasTree ["p"] (walk aliasTree ⟨true, false, []⟩ glob ["p"])
                above other) := by
  have wf : aliasTree.WellFormed := by decide +kernel
  obtain ⟨glob, hglob, selects⟩ := compile_ts
  have clear : ¬ ∃ visit ∈ walk aliasTree ⟨true, false, []⟩ glob ["p"], visit.stuck = true := by
    simp [(walk_aliasTree glob).2, firstVisit_aliasTree true selects]
  obtain ⟨-, returns⟩ := @files_followed_iff (.ofTree aliasTree) wf ⟨false, false, []⟩ .off
    ⟨"/", ["p"]⟩ "**/*.ts" _ _ findRoot_aliasTree hglob _ (files_of_aliasTree false)
    (by rw [show (Options.following _ true) = ⟨true, false, []⟩ from rfl, files_of_aliasTree]; nofun)
  obtain ⟨followed, returned, found⟩ := returns clear
  exact ⟨wf, findRoot_aliasTree, files_of_aliasTree false, glob, followed, hglob, returned,
    found _ (List.mem_singleton_self _)⟩

/-- The file is found in its folder, but not if links are followed: then it is found behind the link. -/
theorem files_aliasTree :
    aliasTree.WellFormed ∧
      ((files ⟨false, false, []⟩ .off ⟨"/", ["p"]⟩ "**/*.ts").on (.ofTree aliasTree)).1 =
        .ok [["p", "b", "x.ts"]] ∧
      ((files ⟨true, false, []⟩ .off ⟨"/", ["p"]⟩ "**/*.ts").on (.ofTree aliasTree)).1 =
        .ok [["p", "a", "x.ts"]] :=
  ⟨by decide +kernel, files_of_aliasTree false, files_of_aliasTree true⟩

end LayerLint.Scan
