import LayerLint.Proofs.Glob.Selection
import LayerLint.Proofs.Scan.Aliases

/-!
# The folders that can be reached through links

With links, the folders of a project form a graph: a name in a folder stands for what it leads to,
through links or not. A walk that follows links looks into every folder that can be reached once, unless
a name cannot be looked up along the path by which the walk comes to it: `files_reachable`.
-/

namespace LayerLint.Scan

variable {tree : FileTree} {options : Options} {glob : Glob} {root base : Location}

/-! ## The graph -/

/-- A name in a folder that is not left out, and what it leads to from there. -/
structure StandsFor (tree : FileTree) (options : Options) (folder : Location) (name : String)
    (location : Location) (entry : Entry) : Prop where
  listed : name ∈ tree.names folder
  kept : options.keepsName name = true
  located : tree.locateFrom FileTree.maxLinks folder [name] = .ok location
  found : tree.get? location = some entry

inductive Reachable (tree : FileTree) (options : Options) (base : Location) : Location → Prop
  | start : Reachable tree options base base
  | step {folder next : Location} {name : String} :
      Reachable tree options base folder → StandsFor tree options folder name next .folder →
        Reachable tree options base next

def HoldsFile (tree : FileTree) (options : Options) (folder : Location) (name : String) : Prop :=
  ∃ location bytes, StandsFor tree options folder name location (.file bytes)

/-- A name that stands for something in its folder, but cannot be looked up along the path by which
the folder is looked into: the path is too long, or there are too many links on the way. -/
structure Hinders (tree : FileTree) (options : Options) (root : Location) (visits : List Visit)
    (parts : List String) (name : String) : Prop where
  looked : LooksInto visits parts
  standsFor : ∃ folder location entry, tree.locate (root ++ parts) = .ok folder ∧
    StandsFor tree options folder name location entry
  failed : ∃ fault, tree.status (root ++ parts ++ [name]) = .error fault

/-- A path to a folder with a name in it at the end. -/
def LiesIn (tree : FileTree) (folder : Location) (name : String) (path : Location) : Prop :=
  ∃ way, path = way ++ [name] ∧ tree.locate way = .ok folder

def places (tree : FileTree) (root : Location) (visits : List Visit) : List Location :=
  (visits.filter (!·.again)).filterMap fun visit => (tree.locate (root ++ visit.parts)).toOption

theorem toOption_eq_some {ε α : Type} {result : Except ε α} {a : α} :
    result.toOption = some a ↔ result = .ok a := by
  cases result <;> simp [Except.toOption]

theorem mem_places {visits : List Visit} {folder : Location} :
    folder ∈ places tree root visits ↔
      ∃ parts, LooksInto visits parts ∧ tree.locate (root ++ parts) = .ok folder := by
  simp only [places, List.mem_filterMap, List.mem_filter, Bool.not_eq_true', toOption_eq_some,
    LooksInto]
  constructor
  · rintro ⟨visit, ⟨mem, first⟩, located⟩
    exact ⟨visit.parts, ⟨visit, mem, rfl, first⟩, located⟩
  · rintro ⟨_, ⟨visit, mem, rfl, first⟩, located⟩
    exact ⟨visit, ⟨mem, first⟩, located⟩

/-! ## One name -/

theorem folder_of_mem_names (wf : tree.WellFormed) {folder : Location} {name : String}
    (mem : name ∈ tree.names folder) : tree.get? folder = some .folder :=
  wf.inFolder _ _ (FileTree.mem_names.1 mem)

/-- What a name leads to along a path, it leads to from its folder on, where more links are left. -/
theorem locateFrom_of_locate {path : List String} {folder location : Location} {name : String}
    (isFolder : tree.get? folder = some .folder) (here : tree.locate path = .ok folder)
    (located : tree.locate (path ++ [name]) = .ok location) :
    tree.locateFrom FileTree.maxLinks folder [name] = .ok location := by
  obtain ⟨left, le, further⟩ := FileTree.locateFrom_append here isFolder
  rw [FileTree.locate, further] at located
  exact FileTree.locateFrom_mono located le

theorem standsFor_of_status (wf : tree.WellFormed) {path : List String} {folder : Location}
    {name : String} {entry : Entry} (here : tree.locate path = .ok folder)
    (listed : name ∈ tree.names folder) (kept : options.keepsName name = true)
    (status : tree.status (path ++ [name]) = .ok entry) :
    ∃ location, tree.locate (path ++ [name]) = .ok location ∧
      StandsFor tree options folder name location entry := by
  obtain ⟨location, located, found⟩ := locate_of_status status
  exact ⟨location, located, listed, kept,
    locateFrom_of_locate (folder_of_mem_names wf listed) here located, found⟩

theorem StandsFor.status (wf : tree.WellFormed) {path : List String} {folder location : Location}
    {name : String} {entry : Entry} (h : StandsFor tree options folder name location entry)
    (here : tree.locate path = .ok folder)
    (usable : ¬ ∃ fault, tree.status (path ++ [name]) = .error fault) :
    tree.locate (path ++ [name]) = .ok location ∧ tree.status (path ++ [name]) = .ok entry := by
  cases status : tree.status (path ++ [name]) with
  | error fault => exact absurd ⟨fault, status⟩ usable
  | ok other =>
      obtain ⟨there, located, found⟩ := locate_of_status status
      have same := locateFrom_of_locate (folder_of_mem_names wf h.listed) here located
      rw [h.located] at same
      obtain rfl := Except.ok.inj same
      rw [h.found] at found
      exact ⟨located, congrArg Except.ok (Option.some.inj found).symm⟩

theorem mem_subfolders (noExcludes : options.excludes = []) {parts : List String}
    {location : Location} {name : String} :
    name ∈ subfolders tree options root parts location ↔
      name ∈ tree.names location ∧ options.keepsName name = true ∧
        tree.status (root ++ parts ++ [name]) = .ok .folder := by
  simp only [subfolders, List.mem_mergeSort, List.mem_filter, Options.dropsFolder, Options.drops,
    noExcludes, List.any_nil, Bool.or_self, Bool.not_false, Bool.and_true, Bool.and_eq_true,
    isFolder_iff]
  tauto

theorem mem_selectedFiles (noExcludes : options.excludes = []) {parts : List String}
    {location : Location} {name : String}
    (selects : name ∈ tree.names location → glob.selects (relativeText (parts ++ [name])) = true) :
    name ∈ selectedFiles tree options glob root parts location ↔
      name ∈ tree.names location ∧ options.keepsName name = true ∧
        ∃ bytes, tree.status (root ++ parts ++ [name]) = .ok (.file bytes) := by
  simp only [selectedFiles, selectedNames, List.mem_filter, Options.drops, noExcludes, List.any_nil,
    Bool.not_false, Bool.and_true, Bool.and_eq_true, isFile_iff]
  tauto

/-! ## The pattern for all paths -/

def SelectsAll (glob : Glob) : Prop :=
  ∀ parts : List String, parts ≠ [] → (∀ name ∈ parts, IsName name) →
    glob.selects (relativeText parts) = true

theorem compile_everything : ∃ glob, Glob.compile "**/*" = .ok glob ∧ SelectsAll glob := by
  have plain : ∀ p ∈ Glob.expandBraces "**/*".toList, Glob.PlainSets p := by decide +kernel
  have shallow : Glob.isShallow "**/*".toList = true := by decide +kernel
  have items : (Glob.expandBraces "**/*".toList).map (fun p => Glob.itemsOf (Glob.readSegments p)) =
      [[.folders, .many .notSlash]] := by decide +kernel
  refine ⟨⟨"**/*", [[.folders, .many .notSlash]]⟩, ?_, fun parts ne named => ?_⟩
  · rw [Glob.compile, if_pos shallow, Glob.compile?_plain plain, items]
  · obtain ⟨init, last, rfl⟩ : ∃ init last, parts = init ++ [last] :=
      ⟨_, _, (List.dropLast_concat_getLast ne).symm⟩
    rw [Glob.selects, List.any_cons, List.any_nil, Bool.or_false, Glob.accepts_iff]
    refine .inl ?_
    rw [toList_relativeText, ← List.append_nil last.toList]
    refine .folders _ (fun name mem => ?_) (.many _ (fun c mem => ?_) .nil)
    · obtain ⟨other, inInit, rfl⟩ := List.mem_map.1 mem
      have valid := named other (by simp [inInit])
      exact ⟨fun empty => valid.ne_empty (String.toList_eq_nil_iff.1 empty), valid.no_slash⟩
    · rw [Glob.CharClass.mem_notSlash]
      rintro rfl
      exact (named last (by simp)).no_slash mem

/-! ## The walk -/

section Walk

variable {visits : List Visit} {final : List Location}

theorem nodup_places {agenda : List (List String)} {seen : List Location}
    (walks : Walks tree options glob root agenda seen visits final) :
    (places tree root visits).Nodup := by
  unfold places
  rw [List.Nodup, List.pairwise_filterMap]
  refine walks.distinct.imp fun {v w} ne folder hv folder' hw same => ne ?_
  rw [toOption_eq_some.1 hv, toOption_eq_some.1 hw, same]

theorem reachable_of_visit (wf : tree.WellFormed) (located : tree.locate root = .ok base)
    (noExcludes : options.excludes = []) (walks : Walks tree options glob root [[]] [] visits final) :
    ∀ visit ∈ visits, ∃ folder, tree.locate (root ++ visit.parts) = .ok folder ∧
      Reachable tree options base folder := by
  refine walks.all (P := fun parts => ∃ folder, tree.locate (root ++ parts) = .ok folder ∧
    Reachable tree options base folder) ?_ ?_
  · intro parts mem
    obtain rfl := List.mem_singleton.1 mem
    exact ⟨base, by rwa [List.append_nil], .start⟩
  · rintro parts location - here ⟨folder, there, reach⟩ name mem
    obtain rfl := Except.ok.inj (here.symm.trans there)
    obtain ⟨listed, kept, status⟩ := (mem_subfolders noExcludes).1 mem
    obtain ⟨next, located, stands⟩ := standsFor_of_status wf here listed kept status
    exact ⟨next, by rwa [← List.append_assoc], reach.step stands⟩

theorem isName_of_visit (wf : tree.WellFormed) (noExcludes : options.excludes = [])
    (walks : Walks tree options glob root [[]] [] visits final) :
    ∀ visit ∈ visits, ∀ name ∈ visit.parts, IsName name := by
  refine walks.all (P := fun parts => ∀ name ∈ parts, IsName name) (by simp) ?_
  intro parts location _ _ named name mem other inPath
  rcases List.mem_append.1 inPath with inPath | last
  · exact named other inPath
  · obtain rfl := List.mem_singleton.1 last
    exact isName_of_mem_names wf ((mem_subfolders noExcludes).1 mem).1

theorem looksInto_of_reachable (wf : tree.WellFormed) (located : tree.locate root = .ok base)
    (noExcludes : options.excludes = []) (walks : Walks tree options glob root [[]] [] visits final)
    (clear : ¬ ∃ parts name, Hinders tree options root visits parts name) {folder : Location}
    (reach : Reachable tree options base folder) :
    ∃ parts, LooksInto visits parts ∧ tree.locate (root ++ parts) = .ok folder := by
  have sorted : [([] : List String)].Pairwise Precedes := List.pairwise_singleton ..
  induction reach with
  | start =>
      obtain ⟨visit, mem, top⟩ := walks.scheduled (List.mem_singleton_self _)
      obtain ⟨parts, looked, same, -⟩ := walks.looked wf sorted mem
      exact ⟨parts, looked, by rwa [same, top, List.append_nil]⟩
  | @step folder next name _ stands ih =>
      obtain ⟨parts, looked, here⟩ := ih
      have usable : ¬ ∃ fault, tree.status (root ++ parts ++ [name]) = .error fault :=
        fun failed => clear ⟨parts, name, looked, ⟨folder, next, _, here, stands⟩, failed⟩
      obtain ⟨there, status⟩ := stands.status wf here usable
      obtain ⟨visit, mem, same⟩ := walks.closed looked here
        ((mem_subfolders noExcludes).2 ⟨stands.listed, stands.kept, status⟩)
      -- the folder may have been looked into before, along another path
      obtain ⟨other, looked, again, -⟩ := walks.looked wf sorted mem
      exact ⟨other, looked, by rw [again, same, ← List.append_assoc, there]⟩

theorem mem_paths_everything (wf : tree.WellFormed) (noExcludes : options.excludes = [])
    (selects : SelectsAll glob) (walks : Walks tree options glob root [[]] [] visits final)
    {path : List String} :
    path ∈ visits.flatMap Visit.paths ↔
      ∃ parts folder name, LooksInto visits parts ∧ tree.locate (root ++ parts) = .ok folder ∧
        name ∈ tree.names folder ∧ options.keepsName name = true ∧
        (∃ bytes, tree.status (root ++ parts ++ [name]) = .ok (.file bytes)) ∧
        path = parts ++ [name] := by
  rw [walks.mem_paths]
  refine exists_congr fun parts => exists_congr fun folder => exists_congr fun name =>
    and_congr_right fun ⟨visit, mem, same, _⟩ => and_congr_right fun _ => ?_
  have named := same ▸ isName_of_visit wf noExcludes walks visit mem
  rw [mem_selectedFiles noExcludes fun listed => selects _ (by simp) fun other inPath => ?_]
  · tauto
  · rcases List.mem_append.1 inPath with inPath | last
    · exact named other inPath
    · obtain rfl := List.mem_singleton.1 last
      exact isName_of_mem_names wf listed

theorem holdsFile_of_mem (wf : tree.WellFormed) (located : tree.locate root = .ok base)
    (noExcludes : options.excludes = []) (selects : SelectsAll glob)
    (walks : Walks tree options glob root [[]] [] visits final) {rel : List String}
    (mem : rel ∈ visits.flatMap Visit.paths) :
    ∃ folder name, LiesIn tree folder name (root ++ rel) ∧ Reachable tree options base folder ∧
      HoldsFile tree options folder name := by
  obtain ⟨_, folder, name, ⟨visit, visited, rfl, -⟩, here, listed, kept, ⟨bytes, status⟩, rfl⟩ :=
    (mem_paths_everything wf noExcludes selects walks).1 mem
  obtain ⟨_, there, reach⟩ := reachable_of_visit wf located noExcludes walks visit visited
  obtain rfl := Except.ok.inj (here.symm.trans there)
  obtain ⟨location, -, stands⟩ := standsFor_of_status wf here listed kept status
  exact ⟨folder, name, ⟨_, (List.append_assoc ..).symm, here⟩, reach, location, bytes, stands⟩

theorem eq_of_liesIn (wf : tree.WellFormed) (noExcludes : options.excludes = [])
    (selects : SelectsAll glob)
    (walks : Walks tree options glob root [[]] [] visits final) {folder : Location} {name : String}
    {rel other : List String} (mem : rel ∈ visits.flatMap Visit.paths)
    (mem' : other ∈ visits.flatMap Visit.paths) (lies : LiesIn tree folder name (root ++ rel))
    (lies' : LiesIn tree folder name (root ++ other)) : rel = other := by
  obtain ⟨parts, _, _, looked, -, -, -, -, rfl⟩ :=
    (mem_paths_everything wf noExcludes selects walks).1 mem
  obtain ⟨parts', _, _, looked', -, -, -, -, rfl⟩ :=
    (mem_paths_everything wf noExcludes selects walks).1 mem'
  obtain ⟨way, same, here⟩ := lies
  obtain ⟨way', same', here'⟩ := lies'
  rw [← List.append_assoc] at same same'
  obtain ⟨rfl, last⟩ := List.append_inj' same rfl
  obtain ⟨rfl, last'⟩ := List.append_inj' same' rfl
  rw [walks.eq_of_locate_eq looked' looked (here.trans here'.symm), last, last']

theorem exists_liesIn (wf : tree.WellFormed) (located : tree.locate root = .ok base)
    (noExcludes : options.excludes = []) (selects : SelectsAll glob)
    (walks : Walks tree options glob root [[]] [] visits final)
    (clear : ¬ ∃ parts name, Hinders tree options root visits parts name) {folder : Location}
    {name : String} (reach : Reachable tree options base folder)
    (holds : HoldsFile tree options folder name) :
    ∃ rel ∈ visits.flatMap Visit.paths, LiesIn tree folder name (root ++ rel) := by
  obtain ⟨parts, looked, here⟩ := looksInto_of_reachable wf located noExcludes walks clear reach
  obtain ⟨location, bytes, stands⟩ := holds
  have usable : ¬ ∃ fault, tree.status (root ++ parts ++ [name]) = .error fault :=
    fun failed => clear ⟨parts, name, looked, ⟨folder, location, _, here, stands⟩, failed⟩
  obtain ⟨-, status⟩ := stands.status wf here usable
  refine ⟨parts ++ [name], (mem_paths_everything wf noExcludes selects walks).2 ?_,
    _, (List.append_assoc ..).symm, here⟩
  exact ⟨parts, folder, name, looked, here, stands.listed, stands.kept, ⟨bytes, status⟩, rfl⟩

end Walk

/-! ## The whole scan -/

theorem mem_sortPaths {paths : List (List String)} {path : Location} :
    path ∈ (sortPaths paths).map (root ++ ·) ↔ ∃ rel ∈ paths, root ++ rel = path := by
  simp [sortPaths]

/-- A scan for all files that follows links and leaves nothing out comes to an end. It looks into
folders that can be reached, each once, and returns unless a path cannot be looked up; no file is found
under two paths. If nothing hinders it, then it looks into all folders that can be reached and finds
every file in them. -/
theorem files_reachable {session : Session} (wf : session.tree.WellFormed) (options : Options)
    (watch : Watch) (given : PathName) {root : Location}
    (hroot : findRoot session.tree session.folder given = .ok root)
    (follow : options.followLinks = true) (noExcludes : options.excludes = []) :
    ∃ glob base, Glob.compile "**/*" = .ok glob ∧ session.tree.locate root = .ok base ∧
      let visits := walk session.tree options glob root
      let outcome := ((files options watch given "**/*").on session).1
      let clear := ¬ ∃ parts name, Hinders session.tree options root visits parts name
      (∃ final, Walks session.tree options glob root [[]] [] visits final) ∧
      (places session.tree root visits).Nodup ∧
      (∀ folder ∈ places session.tree root visits, Reachable session.tree options base folder) ∧
      (clear → ∀ folder, Reachable session.tree options base folder →
        folder ∈ places session.tree root visits) ∧
      (watch.Quiet session → (¬ ∃ visit ∈ visits, visit.stuck = true) →
        ∃ paths, outcome = .ok paths) ∧
      ∀ paths, outcome = .ok paths →
        paths.Nodup ∧
        (∀ path ∈ paths, ∃ folder name, LiesIn session.tree folder name path ∧
          Reachable session.tree options base folder ∧
          HoldsFile session.tree options folder name) ∧
        (∀ folder name, ∀ path ∈ paths, ∀ other ∈ paths, LiesIn session.tree folder name path →
          LiesIn session.tree folder name other → path = other) ∧
        (clear → ∀ folder name, Reachable session.tree options base folder →
          HoldsFile session.tree options folder name →
            ∃! path, path ∈ paths ∧ LiesIn session.tree folder name path) := by
  have status := status_of_findRoot hroot
  obtain ⟨base, lead⟩ := leadsTo_of_status status
  obtain ⟨glob, hglob, selects⟩ := compile_everything
  obtain ⟨final, walks⟩ : ∃ final, Walks session.tree options glob root [[]] [] _ final :=
    walks_walk follow (isFolder_iff.2 status)
  refine ⟨glob, base, hglob, lead.located, ⟨final, walks⟩, nodup_places walks, ?_, ?_, ?_, ?_⟩
  · intro folder mem
    obtain ⟨_, ⟨visit, visited, rfl, -⟩, here⟩ := mem_places.1 mem
    obtain ⟨_, there, reach⟩ := reachable_of_visit wf lead.located noExcludes walks visit visited
    exact Except.ok.inj (here.symm.trans there) ▸ reach
  · exact fun clear folder reach =>
      mem_places.2 (looksInto_of_reachable wf lead.located noExcludes walks clear reach)
  · intro quiet free
    have gives : Run.Gives session watch (files options watch given "**/*") _ [] :=
      files_gives wf options given "**/*"
    rw [(gives.result_eq_of_quiet (.refl wf) quiet).1, found_eq hroot hglob,
      if_neg (by rwa [List.any_eq_true])]
    exact ⟨_, rfl⟩
  · intro paths returned
    rw [files_eq wf hroot hglob returned]
    refine ⟨?_, fun path hpath => ?_, fun folder name path hpath other hother lies lies' => ?_,
      fun clear folder name reach holds => ?_⟩
    · refine List.Nodup.map (List.append_right_injective root) ?_
      exact (List.mergeSort_perm ..).nodup_iff.2 (walks.nodup_paths wf)
    · obtain ⟨rel, hrel, rfl⟩ := mem_sortPaths.1 hpath
      exact holdsFile_of_mem wf lead.located noExcludes selects walks hrel
    · obtain ⟨rel, hrel, rfl⟩ := mem_sortPaths.1 hpath
      obtain ⟨rel', hrel', rfl⟩ := mem_sortPaths.1 hother
      rw [eq_of_liesIn wf noExcludes selects walks hrel hrel' lies lies']
    · obtain ⟨rel, hrel, lies⟩ :=
        exists_liesIn wf lead.located noExcludes selects walks clear reach holds
      refine ⟨root ++ rel, ⟨mem_sortPaths.2 ⟨rel, hrel, rfl⟩, lies⟩, ?_⟩
      rintro other ⟨hother, lies'⟩
      obtain ⟨rel', hrel', rfl⟩ := mem_sortPaths.1 hother
      rw [eq_of_liesIn wf noExcludes selects walks hrel hrel' lies lies']

def cycleTree : FileTree where
  entries :=
    [(["p"], .folder), (["p", "a"], .link "."), (["p", "b"], .folder),
      (["p", "b", "c"], .link ".."), (["p", "b", "x.ts"], .file [])]
  removed := []

theorem locate_cycleTree :
    cycleTree.locate ["p"] = .ok ["p"] ∧ cycleTree.locate ["p", "a"] = .ok ["p"] ∧
      cycleTree.locate ["p", "b"] = .ok ["p", "b"] ∧ cycleTree.locate ["p", "b", "c"] = .ok ["p"] ∧
      cycleTree.locate ["p", "b", "x.ts"] = .ok ["p", "b", "x.ts"] := by
  simp +decide [FileTree.locate, FileTree.locateFrom, FileTree.get?, cycleTree, FileTree.maxLinks,
    FileTree.linkStart, PathName.steps, PathName.pieces, Text.splitOn, List.lookup_cons]

theorem status_cycleTree :
    cycleTree.status ["p", "a"] = .ok .folder ∧ cycleTree.status ["p", "b"] = .ok .folder ∧
      cycleTree.status ["p", "b", "c"] = .ok .folder ∧
      cycleTree.status ["p", "b", "x.ts"] = .ok (.file []) := by
  obtain ⟨-, a, b, c, x⟩ := locate_cycleTree
  exact ⟨Usable.status ⟨by decide, by decide⟩ a rfl, Usable.status ⟨by decide, by decide⟩ b rfl,
    Usable.status ⟨by decide, by decide⟩ c rfl, Usable.status ⟨by decide, by decide⟩ x rfl⟩

theorem walk_cycleTree (glob : Glob) :
    walk cycleTree ⟨true, false, []⟩ glob ["p"] =
      [firstVisit cycleTree ⟨true, false, []⟩ glob ["p"] [] ["p"], ⟨["a"], true, false, []⟩,
        firstVisit cycleTree ⟨true, false, []⟩ glob ["p"] ["b"] ["p", "b"],
        ⟨["b", "c"], true, false, []⟩] := by
  have top : subfolders cycleTree ⟨true, false, []⟩ ["p"] [] ["p"] = ["a", "b"] := by
    simp +decide [subfolders, show cycleTree.names ["p"] = ["a", "b"] from rfl, FileTree.isFolder,
      status_cycleTree, Options.keepsName, Options.dropsFolder, Options.drops, List.mergeSort]
  have below : subfolders cycleTree ⟨true, false, []⟩ ["p"] ["b"] ["p", "b"] = ["c"] := by
    simp +decide [subfolders, show cycleTree.names ["p", "b"] = ["c", "x.ts"] from rfl,
      FileTree.isFolder, status_cycleTree, Options.keepsName, Options.dropsFolder, Options.drops]
  simp [walk, walkFrom, show cycleTree.entries.length = 5 from rfl, locate_cycleTree, top, below,
    firstVisit]

theorem status_ok_cycleTree {parts : List String} {folder : Location} {name : String} {glob : Glob}
    (looked : LooksInto (walk cycleTree ⟨true, false, []⟩ glob ["p"]) parts)
    (located : cycleTree.locate (["p"] ++ parts) = .ok folder) (mem : name ∈ cycleTree.names folder) :
    ∃ entry, cycleTree.status (["p"] ++ parts ++ [name]) = .ok entry := by
  obtain ⟨top, -, b, -, -⟩ := locate_cycleTree
  have way : [] = parts ∨ ["b"] = parts := by
    simpa [walk_cycleTree, looksInto_cons, looksInto_nil, firstVisit] using looked
  rcases way with rfl | rfl
  · obtain rfl := Except.ok.inj (top.symm.trans located)
    rcases List.mem_pair.1 (show name ∈ ["a", "b"] from mem) with rfl | rfl
    · exact ⟨_, status_cycleTree.1⟩
    · exact ⟨_, status_cycleTree.2.1⟩
  · obtain rfl := Except.ok.inj (b.symm.trans located)
    rcases List.mem_pair.1 (show name ∈ ["c", "x.ts"] from mem) with rfl | rfl
    · exact ⟨_, status_cycleTree.2.2.1⟩
    · exact ⟨_, status_cycleTree.2.2.2⟩

theorem files_reachable_cycleTree :
    cycleTree.WellFormed ∧ findRoot cycleTree (cycleTree.hold []) ⟨"/", ["p"]⟩ = .ok ["p"] ∧
      Reachable cycleTree ⟨true, false, []⟩ ["p"] ["p", "b"] ∧
      HoldsFile cycleTree ⟨true, false, []⟩ ["p", "b"] "x.ts" ∧
      ∃ paths,
        ((files ⟨true, false, []⟩ .off ⟨"/", ["p"]⟩ "**/*").on (.ofTree cycleTree)).1 = .ok paths ∧
        paths.Nodup ∧ ∃! path, path ∈ paths ∧ LiesIn cycleTree ["p", "b"] "x.ts" path := by
  have wf : cycleTree.WellFormed := by decide +kernel
  have real : cycleTree.RealBelow [] ([] ++ ["p"]) := FileTree.RealBelow.concat.2 ⟨.nil _ _, rfl⟩
  have hroot : findRoot cycleTree (cycleTree.hold []) ⟨"/", ["p"]⟩ = .ok ["p"] :=
    findRoot_of_real wf _ real ⟨by decide, by decide⟩
  have reach : Reachable cycleTree ⟨true, false, []⟩ ["p"] ["p", "b"] := by
    refine .step .start ⟨show "b" ∈ cycleTree.names ["p"] by decide, by decide, ?_, rfl⟩
    rw [FileTree.locateFrom_folder (by decide) rfl, FileTree.locateFrom_nil]
    rfl
  have holds : HoldsFile cycleTree ⟨true, false, []⟩ ["p", "b"] "x.ts" :=
    ⟨["p", "b", "x.ts"], [], by decide, by decide, FileTree.locateFrom_file (by decide) rfl _, rfl⟩
  obtain ⟨glob, base, -, located, ⟨final, walks⟩, -, -, -, returns, found⟩ :=
    @files_reachable (.ofTree cycleTree) wf ⟨true, false, []⟩ .off ⟨"/", ["p"]⟩ _ hroot rfl rfl
  obtain rfl := Except.ok.inj (locate_cycleTree.1.symm.trans located)
  have clear : ¬ ∃ parts name, Hinders cycleTree ⟨true, false, []⟩ ["p"]
      (walk cycleTree ⟨true, false, []⟩ glob ["p"]) parts name := by
    rintro ⟨parts, name, looked, ⟨folder, location, entry, here, stands⟩, fault, failed⟩
    obtain ⟨entry, ok⟩ := status_ok_cycleTree looked here stands.listed
    exact nomatch failed.symm.trans ok
  have free : ¬ ∃ visit ∈ walk cycleTree ⟨true, false, []⟩ glob ["p"], visit.stuck = true := by
    rintro ⟨visit, mem, stuck⟩
    have first := walks.first_of_stuck mem stuck
    obtain ⟨folder, here, same⟩ := walks.visit_eq mem first
    rw [same] at stuck
    obtain ⟨name, selected, -, overlong⟩ := selectsOverlong_iff.1 stuck
    obtain ⟨entry, ok⟩ := status_ok_cycleTree ⟨visit, mem, rfl, first⟩ here (List.mem_filter.1 selected).1
    exact nomatch overlong.symm.trans ok
  obtain ⟨paths, returned⟩ := returns (Watch.quiet_off _) free
  obtain ⟨distinct, -, -, once⟩ := found paths returned
  exact ⟨wf, hroot, reach, holds, paths, returned, distinct, once clear _ _ reach holds⟩

/-! ## Too many links on the way -/

/-- The root, by way of a link to itself that is followed `n` times, and the folder `q` in it. -/
def detour (n : Nat) : String :=
  String.ofList ('/' :: ((List.replicate n ['s', '/']).flatten ++ ['q']))

def farTree : FileTree where
  entries :=
    [(["p"], .folder), (["p", "a"], .link (detour 39)), (["q"], .folder), (["q", "b"], .link "/r"),
      (["r"], .folder), (["r", "x.ts"], .file []), (["s"], .link ".")]
  removed := []

theorem locateFrom_detour (n links : Nat) (rest : List String) :
    farTree.locateFrom (n + links) [] (List.replicate n "s" ++ rest) =
      farTree.locateFrom links [] rest := by
  induction n with
  | zero => simp
  | succ n ih =>
      have step : farTree.locateFrom (n + links + 1) [] ("s" :: (List.replicate n "s" ++ rest)) =
          farTree.locateFrom (n + links) [] ("." :: (List.replicate n "s" ++ rest)) := by
        rw [FileTree.locateFrom]
        rfl
      rw [List.replicate_succ, List.cons_append, Nat.add_right_comm, step, FileTree.locateFrom,
        if_pos rfl, ih]

/-- After the detour no link is left to be followed. -/
theorem locate_detour (rest : List String) :
    farTree.locate (["p", "a"] ++ rest) = farTree.locateFrom 0 ["q"] rest := by
  have steps : PathName.steps (detour 39).toList = List.replicate 39 "s" ++ ["q"] := by
    decide +kernel
  have link : farTree.locateFrom 40 ["p"] ("a" :: rest) =
      farTree.locateFrom 39 [] (PathName.steps (detour 39).toList ++ rest) := by
    rw [FileTree.locateFrom]
    rfl
  unfold FileTree.locate
  rw [List.cons_append, List.cons_append, List.nil_append,
    FileTree.locateFrom_folder (by decide) rfl]
  refine link.trans ?_
  rw [steps, List.append_assoc]
  refine (locateFrom_detour 39 0 _).trans ?_
  exact FileTree.locateFrom_folder (by decide) rfl ..

theorem locate_farTree :
    farTree.locate ["p"] = .ok ["p"] ∧ farTree.locate ["p", "a"] = .ok ["q"] := by
  constructor
  · unfold FileTree.locate
    rw [FileTree.locateFrom_folder (by decide) rfl, FileTree.locateFrom_nil]
    rfl
  · exact (locate_detour []).trans (FileTree.locateFrom_nil ..)

theorem status_farTree :
    farTree.status ["p", "a"] = .ok .folder ∧
      farTree.status ["p", "a", "b"] = .error .tooManyLinks := by
  have failed : farTree.locate ["p", "a", "b"] = .error .tooManyLinks := by
    refine (locate_detour ["b"]).trans ?_
    rw [FileTree.locateFrom]
    rfl
  refine ⟨Usable.status ⟨by decide, by decide⟩ locate_farTree.2 rfl, ?_⟩
  unfold FileTree.status
  rw [if_neg (by decide), if_neg (by decide), failed]

theorem walk_farTree (glob : Glob) :
    walk farTree ⟨true, false, []⟩ glob ["p"] =
      [⟨[], false, false, []⟩, ⟨["a"], false, false, []⟩] := by
  have names : farTree.names ["p"] = ["a"] ∧ farTree.names ["q"] = ["b"] := ⟨rfl, rfl⟩
  have subs : subfolders farTree ⟨true, false, []⟩ ["p"] [] ["p"] = ["a"] ∧
      subfolders farTree ⟨true, false, []⟩ ["p"] ["a"] ["q"] = [] := by
    simp +decide [subfolders, names, FileTree.isFolder, status_farTree, Options.keepsName,
      Options.dropsFolder, Options.drops]
  simp [walk, walkFrom, show farTree.entries.length = 7 from rfl, locate_farTree, subs, selectsOverlong,
    selectedFiles, selectedNames, names, FileTree.isFile, status_farTree]

/-- The folder `r` can be reached, but the scan does not come to the file in it. -/
theorem files_farTree :
    farTree.WellFormed ∧ Reachable farTree ⟨true, false, []⟩ ["p"] ["r"] ∧
      HoldsFile farTree ⟨true, false, []⟩ ["r"] "x.ts" ∧
      ((files ⟨true, false, []⟩ .off ⟨"/", ["p"]⟩ "**/*").on (.ofTree farTree)).1 = .ok [] := by
  have wf : farTree.WellFormed := by decide +kernel
  have real : farTree.RealBelow [] ([] ++ ["p"]) := FileTree.RealBelow.concat.2 ⟨.nil _ _, rfl⟩
  have hroot : findRoot farTree (farTree.hold []) ⟨"/", ["p"]⟩ = .ok ["p"] :=
    findRoot_of_real wf _ real ⟨by decide, by decide⟩
  have viaA : StandsFor farTree ⟨true, false, []⟩ ["p"] "a" ["q"] .folder := by
    refine ⟨by decide, by decide, ?_, rfl⟩
    exact locateFrom_of_locate rfl locate_farTree.1 locate_farTree.2
  have viaB : StandsFor farTree ⟨true, false, []⟩ ["q"] "b" ["r"] .folder := by
    refine ⟨by decide, by decide, ?_, rfl⟩
    have link : farTree.locateFrom 40 ["q"] ["b"] = farTree.locateFrom 39 [] ["r"] := by
      rw [FileTree.locateFrom]
      rfl
    refine link.trans ((FileTree.locateFrom_folder (by decide) rfl ..).trans ?_)
    exact FileTree.locateFrom_nil ..
  have holds : HoldsFile farTree ⟨true, false, []⟩ ["r"] "x.ts" :=
    ⟨["r", "x.ts"], [], by decide, by decide, FileTree.locateFrom_file (by decide) rfl _, rfl⟩
  obtain ⟨glob, hglob, -⟩ := compile_everything
  have gives : Run.Gives (.ofTree farTree) .off
      (files ⟨true, false, []⟩ .off ⟨"/", ["p"]⟩ "**/*") _ [] := files_gives wf _ _ _
  refine ⟨wf, (Reachable.start.step viaA).step viaB, holds,
    (gives.result_eq_of_quiet (.refl wf) (Watch.quiet_off _)).1.trans ((found_eq hroot hglob).trans ?_)⟩
  simp [walk_farTree, Visit.paths, sortPaths]

end LayerLint.Scan
