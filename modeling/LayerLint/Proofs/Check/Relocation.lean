import LayerLint.Proofs.Check.Locality
import LayerLint.Proofs.Rule.Placement

/-!
# A project at another place

The same project below two neutral roots is checked alike: the second report is the first one, with
the other root in front of every path (`run_relocates`). This is so as long as the same paths can be
looked up in both places. Below a long root there are folders that cannot be, and these are passed
over in silence (`run_deepTree`).
-/

namespace LayerLint

/-- The violation with another root in front of its file. -/
def Violation.relocate (root root' : Location) (v : Violation) : Violation :=
  { v with
    file := Scan.slashed root' ++ String.ofList (v.file.toList.drop (Scan.slashed root).toList.length) }

def Report.relocate (root root' : Location) (report : Report) : Report :=
  { report with
    root := ⟨"/", root'⟩
    violations := report.violations.map (·.relocate root root') }

theorem Rule.Builtin.violations_relocate (rule : Builtin) {root root' : Location}
    (neutral : IsNeutral root) (neutral' : IsNeutral root') (rest : String) (imports : List String) :
    rule.violations (Scan.slashed root' ++ rest) imports =
      (rule.violations (Scan.slashed root ++ rest) imports).map (·.relocate root root') := by
  rw [violations, violations, complaints_neutral rule neutral, complaints_neutral rule neutral',
    List.map_map]
  refine List.map_congr_left fun complaint _ => ?_
  simp only [Function.comp_apply, Violation.relocate, String.toList_append, List.drop_left,
    String.ofList_toList]

namespace Check

/-! ## What is read -/

theorem importsAt_copy {tree other : FileTree} {root root' : Location} {rel : List String}
    (copy : FileTree.IsCopy tree other root root') (ne : rel ≠ [])
    (file : tree.FileAt (root ++ rel)) (usable : Scan.Usable (root ++ rel))
    (usable' : Scan.Usable (root' ++ rel)) (limit : Int) :
    importsAt other limit (root' ++ rel) = importsAt tree limit (root ++ rel) := by
  obtain ⟨bytes, found⟩ := file
  have status := Scan.status_of_get? copy.project.wellFormed found (fun _ h => by cases h) usable
  have status' := Scan.status_of_get? copy.copy.wellFormed ((copy.same rel).trans found)
    (fun _ h => by cases h) usable'
  have language : Import.Language.ofPath? ⟨"/", root' ++ rel⟩ =
      Import.Language.ofPath? ⟨"/", root ++ rel⟩ := by
    unfold Import.Language.ofPath? PathName.suffix PathName.name
    simp only [List.getLast?_append_of_ne_nil _ ne]
  rw [importsAt_file status, importsAt_file status', language]

/-! ## Rows of paths below a root -/

def placed (root : Location) (rows : List (Rule × List (List String))) :
    List (Rule × List Location) :=
  rows.map fun (rule, rels) => (rule, rels.map (root ++ ·))

/-- The path is one of a file that can be looked up below the root. -/
structure IsRead (tree : FileTree) (root : Location) (rel : List String) : Prop where
  nonempty : rel ≠ []
  file : tree.FileAt (root ++ rel)
  usable : Scan.Usable (root ++ rel)

section Copy

variable {session other : Session} {root root' : Location} {plan plan' : Plan}

theorem filesOf_copy (copy : FileTree.IsCopy session.tree other.tree root root')
    (fits : Scan.FitsAlike session.tree root root') (usable : Scan.Usable root)
    (usable' : Scan.Usable root') (atRoot : plan.root = root) (atRoot' : plan'.root = root')
    (options : plan'.options = plan.options) (noLinks : plan.options.followLinks = false)
    (rule : Rule) :
    ∃ outcome : Except Failure (List (List String)),
      filesOf session plan rule = outcome.map (·.map (root ++ ·)) ∧
      filesOf other plan' rule = outcome.map (·.map (root' ++ ·)) ∧
      ∀ rels, outcome = .ok rels → ∀ rel ∈ rels, IsRead session.tree root rel := by
  have hroot := Scan.findRoot_of_real copy.project.wellFormed session.folder copy.project.real usable
  have hroot' := Scan.findRoot_of_real copy.copy.wellFormed other.folder copy.copy.real usable'
  obtain ⟨outcome, found, found', read⟩ := @Scan.found_copy session.tree other.tree plan.options root
    _ _ rule.appliesTo root' _ _ copy fits hroot hroot' noLinks
  refine ⟨outcome, ?_, ?_, fun rels ok rel mem => ?_⟩
  · rwa [filesOf, atRoot]
  · rwa [filesOf, atRoot', options]
  · obtain ⟨ne, file, usable⟩ := read rels ok rel mem
    exact ⟨ne, file, usable⟩

theorem rowsOf_copy (copy : FileTree.IsCopy session.tree other.tree root root')
    (fits : Scan.FitsAlike session.tree root root') (usable : Scan.Usable root)
    (usable' : Scan.Usable root') (atRoot : plan.root = root) (atRoot' : plan'.root = root')
    (options : plan'.options = plan.options) (noLinks : plan.options.followLinks = false)
    (rules : List Rule) :
    ∃ outcome : Except Failure (List (Rule × List (List String))),
      rowsOf session plan rules = outcome.map (placed root) ∧
      rowsOf other plan' rules = outcome.map (placed root') ∧
      ∀ rows, outcome = .ok rows → ∀ row ∈ rows, row.1 ∈ rules ∧
        ∀ rel ∈ row.2, IsRead session.tree root rel := by
  induction rules with
  | nil => exact ⟨.ok [], rfl, rfl, fun rows ok => by cases ok; exact List.forall_mem_nil _⟩
  | cons rule rules ih =>
      obtain ⟨files, hfiles, hfiles', read⟩ :=
        filesOf_copy copy fits usable usable' atRoot atRoot' options noLinks rule
      obtain ⟨more, hmore, hmore', all⟩ := ih
      rw [rowsOf_cons, rowsOf_cons, hfiles, hfiles', hmore, hmore']
      cases files with
      | error failure => exact ⟨.error failure, rfl, rfl, fun rows ok => by cases ok⟩
      | ok rels =>
          cases more with
          | error failure => exact ⟨.error failure, rfl, rfl, fun rows ok => by cases ok⟩
          | ok rows =>
              refine ⟨.ok ((rule, rels) :: rows), rfl, rfl, fun others ok => ?_⟩
              obtain rfl := Except.ok.inj ok
              refine List.forall_mem_cons.2 ⟨⟨List.mem_cons_self, read rels rfl⟩, fun row mem => ?_⟩
              exact ⟨List.mem_cons_of_mem _ (all rows rfl row mem).1, (all rows rfl row mem).2⟩

theorem verdict_copy (copy : FileTree.IsCopy session.tree other.tree root root')
    (fits : Scan.FitsAlike session.tree root root') (neutral : Rule.IsNeutral root)
    (neutral' : Rule.IsNeutral root') (rule : Rule.Builtin) {rel : List String}
    (read : IsRead session.tree root rel) (limit : Int) :
    (Rule.builtin rule).verdict (Location.text (root' ++ rel)) (importsAt other.tree limit (root' ++ rel)) =
      ((Rule.builtin rule).verdict (Location.text (root ++ rel))
        (importsAt session.tree limit (root ++ rel))).map (·.relocate root root') := by
  obtain ⟨bytes, found⟩ := read.file
  rw [importsAt_copy copy read.nonempty read.file read.usable ((fits rel _ found).1 read.usable),
    Scan.text_append root read.nonempty, Scan.text_append root' read.nonempty]
  exact rule.violations_relocate neutral neutral' _ _

end Copy

/-! ## The whole check -/

theorem unseen_placed (root : Location) (seen files : List (List String)) :
    unseen (seen.map (root ++ ·)) (files.map (root ++ ·)) = (unseen seen files).map (root ++ ·) := by
  have mem_iff (rel : List String) (rels : List (List String)) :
      root ++ rel ∈ rels.map (root ++ ·) ↔ rel ∈ rels := by simp
  fun_induction unseen seen files with
  | case1 => rfl
  | case2 seen rel files mem ih =>
      rw [List.map_cons, unseen, if_pos ((mem_iff rel seen).2 mem), ih]
  | case3 seen rel files new ih =>
      rw [List.map_append] at ih
      rw [List.map_cons, unseen, if_neg ((mem_iff rel seen).not.2 new), List.map_cons, ← ih]
      rfl

theorem filesIn_placed (root : Location) (rows : List (Rule × List (List String))) :
    filesIn (placed root rows) = (rows.flatMap (·.2)).map (root ++ ·) := by
  rw [filesIn, placed, List.flatMap_map, List.map_flatMap]

theorem reportOf_copy {session other : Session} {root root' : Location} {plan plan' : Plan}
    (copy : FileTree.IsCopy session.tree other.tree root root')
    (fits : Scan.FitsAlike session.tree root root') (neutral : Rule.IsNeutral root)
    (neutral' : Rule.IsNeutral root') (atRoot' : plan'.root = root')
    (rules : plan'.rules = plan.rules) (limit : plan'.limit = plan.limit)
    (builtin : ∀ rule ∈ plan.rules, ∃ inner, rule = .builtin inner)
    {rows : List (Rule × List (List String))}
    (read : ∀ row ∈ rows, row.1 ∈ plan.rules ∧ ∀ rel ∈ row.2, IsRead session.tree root rel)
    {given given' : PathName} {style : String} :
    reportOf ⟨given', style, []⟩ plan' other.tree (placed root' rows) =
      (reportOf ⟨given, style, []⟩ plan session.tree (placed root rows)).relocate root root' := by
  have count (root : Location) :
      (filesIn (placed root rows)).eraseDups.length = (unseen [] (rows.flatMap (·.2))).length := by
    have moved := unseen_placed root [] (rows.flatMap (·.2))
    rw [List.map_nil] at moved
    rw [← unseen_nil, filesIn_placed, moved, List.length_map]
  have violations : (reportOf ⟨given', style, []⟩ plan' other.tree (placed root' rows)).violations =
      (reportOf ⟨given, style, []⟩ plan session.tree (placed root rows)).violations.map
        (·.relocate root root') := by
    unfold reportOf
    simp only
    rw [placed, placed, List.flatMap_map, List.flatMap_map, List.map_flatMap]
    refine List.flatMap_congr fun row mem => ?_
    obtain ⟨hrule, hrels⟩ := read row mem
    obtain ⟨rule, hinner⟩ := builtin row.1 hrule
    simp only
    rw [List.flatMap_map, List.flatMap_map, List.map_flatMap]
    refine List.flatMap_congr fun rel hrel => ?_
    rw [hinner, limit]
    exact verdict_copy copy fits neutral neutral' rule (hrels rel hrel) plan.limit
  unfold reportOf at violations ⊢
  unfold Report.relocate
  simp only at violations ⊢
  rw [violations, count, count, rules, atRoot']

theorem planOf_copy {settings : Settings} {registry : Style.Registry} {style : String}
    {extra : List Rule.Candidate} {given given' : PathName} {session session' : Session}
    {root root' : Location} (hroot : Scan.findRoot session.tree session.folder given = .ok root)
    (hroot' : Scan.findRoot session'.tree session'.folder given' = .ok root') :
    planOf settings registry ⟨given', style, extra⟩ session' =
      (planOf settings registry ⟨given, style, extra⟩ session).map ({ · with root := root' }) := by
  rw [planOf, planOf, hroot, hroot']
  cases Rule.listed registry style extra with
  | error failure => rfl
  | ok rules =>
      cases limitOf settings.timeout with
      | error failure => rfl
      | ok seconds =>
          cases compileExcludes settings.excludePatterns with
          | error failure => rfl
          | ok excludes => cases settings.maxBytes <;> rfl

open FileTree (placeAt)

/-! ## A shop with one feature -/

theorem run_single {tree : FileTree} {root : Location} {registry : Style.Registry} {style : String}
    {rule : Rule.Builtin} {files : List Location} (project : tree.IsProject root)
    (usable : Scan.Usable root) (listed : Rule.listed registry style [] = .ok [.builtin rule])
    (found : Scan.found tree (tree.hold []) ⟨false, false, []⟩ ⟨"/", root⟩ rule.appliesTo = .ok files) :
    ((run smallSettings registry ⟨⟨"/", root⟩, style, []⟩ false).on (.ofTree tree)).1 =
      .ok (reportOf ⟨⟨"/", root⟩, style, []⟩
        ⟨root, [.builtin rule], ⟨false, false, []⟩, 1048576, .off⟩ tree [(.builtin rule, files)]) := by
  have hroot : Scan.findRoot (Session.ofTree tree).tree (Session.ofTree tree).folder ⟨"/", root⟩ =
      .ok root := Scan.findRoot_of_real project.wellFormed _ project.real usable
  have hplan : planOf smallSettings registry ⟨⟨"/", root⟩, style, []⟩ (.ofTree tree) =
      .ok ⟨root, [.builtin rule], ⟨false, false, []⟩, 1048576, .off⟩ := by
    rw [planOf, hroot, listed]
    rfl
  have hfiles : filesOf (.ofTree tree) ⟨root, [.builtin rule], ⟨false, false, []⟩, 1048576, .off⟩
      (.builtin rule) = .ok files := found
  rw [run_all project.wellFormed (List.forall_mem_nil _) (fun _ _ _ _ _ _ _ _ => .ofTree _ _) rfl
    (fun h => by cases h), hplan]
  change rowsOf (.ofTree tree) _ [.builtin rule] >>= _ = _
  rw [rowsOf_cons, hfiles, rowsOf_nil]
  rfl

/-- A shop with one feature, which has one file. -/
def shop (name text : String) : List (List String × Entry) :=
  [(["shop"], .folder), (["shop", "features"], .folder), (["shop", "features", "cart"], .folder),
    (["shop", "features", "cart", name], .file (Text.encode text.toList))]

section Shop

variable {root : Location} {name text : String}

theorem wellFormed_shop (name_valid : IsName name) : FileTree.WellFormed ⟨shop name text, []⟩ := by
  have parts : IsName "shop" ∧ IsName "features" ∧ IsName "cart" := by decide +kernel
  rw [FileTree.wellFormed_iff]
  refine ⟨by simp [shop], ?_, ?_⟩
  · simp only [shop, List.map_cons, List.map_nil, List.forall_mem_cons]
    simp [parts, name_valid]
  · simp only [shop, List.map_cons, List.map_nil, List.forall_mem_cons]
    refine ⟨fun _ => rfl, fun _ => rfl, fun _ => rfl, fun _ => rfl, List.forall_mem_nil _⟩

theorem isCopy_shop {root' : Location} (named : ∀ part ∈ root, IsName part)
    (named' : ∀ part ∈ root', IsName part) (name_valid : IsName name) :
    FileTree.IsCopy (placeAt root (shop name text)) (placeAt root' (shop name text)) root root' :=
  FileTree.isCopy_placeAt named named' (wellFormed_shop name_valid) (by simp [shop]) (by simp [shop])

theorem lookup_shop {rel : List String} {entry : Entry}
    (h : (shop name text).lookup rel = some entry) : rel <+: ["shop", "features", "cart", name] := by
  have mem := mem_of_lookup h
  simp only [shop, List.mem_cons, Prod.mk.injEq, List.not_mem_nil, or_false] at mem
  rcases mem with ⟨rfl, -⟩ | ⟨rfl, -⟩ | ⟨rfl, -⟩ | ⟨rfl, -⟩ <;> simp

theorem get?_shop (root : Location) :
    (placeAt root (shop name text)).get? (root ++ ["shop", "features", "cart", name]) =
      some (.file (Text.encode text.toList)) := by
  rw [FileTree.get?_placeAt root (by simp)]
  simp [shop, List.lookup_cons]

theorem fileAt_shop (root : Location) (rel : List String) :
    (placeAt root (shop name text)).FileAt (root ++ rel) ↔
      rel ∈ [["shop", "features", "cart", name]] := by
  rw [List.mem_singleton]
  constructor
  · rintro ⟨bytes, found⟩
    have ne : rel ≠ [] := by
      rintro rfl
      rw [List.append_nil, FileTree.get?_folder_placeAt List.prefix_rfl] at found
      cases found
    rw [FileTree.get?_placeAt root ne] at found
    have mem := mem_of_lookup found
    simp only [shop, List.mem_cons, Prod.mk.injEq, reduceCtorEq, and_false, false_or,
      List.not_mem_nil, or_false] at mem
    exact mem.1
  · rintro rfl
    exact ⟨_, get?_shop root⟩

theorem fitsAlike_shop {root' : Location}
    (usable : Scan.Usable (root ++ ["shop", "features", "cart", name]))
    (usable' : Scan.Usable (root' ++ ["shop", "features", "cart", name])) :
    Scan.FitsAlike (placeAt root (shop name text)) root root' := by
  intro rel entry found
  have front : rel <+: ["shop", "features", "cart", name] := by
    by_cases top : rel = []
    · exact top ▸ List.nil_prefix
    · rw [FileTree.get?_placeAt root top] at found
      exact lookup_shop found
  exact ⟨fun _ => usable'.of_front ((List.prefix_append_right_inj _).2 front),
    fun _ => usable.of_front ((List.prefix_append_right_inj _).2 front)⟩

theorem importsAt_shop (language : Import.Language) (named : ∀ part ∈ root, IsName part)
    (name_valid : IsName name) (usable : Scan.Usable (root ++ ["shop", "features", "cart", name]))
    {limit : Int} (small : (Text.encode text.toList).length ≤ limit)
    (spoken : Import.Language.ofPath? ⟨"/", root ++ ["shop", "features", "cart", name]⟩ =
      some language) :
    importsAt (placeAt root (shop name text)) limit (root ++ ["shop", "features", "cart", name]) =
      Import.imports language
        (String.ofList (Text.unifyBreaks (Text.decodeLossy (Text.encode text.toList)))) := by
  have wf := (@isCopy_shop root name text root named named name_valid).project.wellFormed
  have status := Scan.status_of_get? wf (get?_shop root) (fun _ h => by cases h) usable
  exact importsAt_of_status language status small spoken

/-- A check of the shop by features reports what the rule says about the file. -/
theorem run_shop (named : ∀ part ∈ root, IsName part) (name_valid : IsName name)
    (visible : name.toList.head? ≠ some '.')
    (selects : (Glob.compile Rule.Builtin.featureIsolation.appliesTo).toOption.any
      (·.selects (Scan.relativeText ["shop", "features", "cart", name])) = true)
    (usable : Scan.Usable (root ++ ["shop", "features", "cart", name])) :
    ((run smallSettings Style.standard ⟨⟨"/", root⟩, "feature-based", []⟩ false).on
      (.ofTree (placeAt root (shop name text)))).1 =
      .ok ⟨⟨"/", root⟩, "feature-based", Rule.Builtin.featureIsolation.violations
          (Location.text (root ++ ["shop", "features", "cart", name]))
          (importsAt (placeAt root (shop name text)) 1048576
            (root ++ ["shop", "features", "cart", name])), ["feature/isolation"], 1⟩ := by
  obtain ⟨glob, hglob, selected⟩ := Scan.exists_compile selects
  have project := (@isCopy_shop root name text root named named name_valid).project
  have usableRoot := usable.of_front (List.prefix_append _ _)
  have hroot := Scan.findRoot_of_real project.wellFormed
    ((placeAt root (shop name text)).hold []) project.real usableRoot
  have found := @Scan.found_all _ ⟨false, false, []⟩ _ _ _ _ _ project hroot hglob rfl rfl _
    (fileAt_shop root) (by simpa using ⟨visible, selected⟩) (by simpa using usable)
    (List.pairwise_singleton _ _)
  rw [run_single project usableRoot rfl found]
  unfold reportOf filesIn
  simp only [List.flatMap_cons, List.flatMap_nil, List.append_nil, List.map_cons, List.map_nil,
    List.eraseDups_cons, List.filter_nil, List.eraseDups_nil, List.length_singleton]
  rfl

end Shop

/-- A shop whose cart uses the orders. -/
def crossShop : List (List String × Entry) := shop "cart.ts" "require('features/order/x')"

def checkShop (root : Location) : Except Failure Report :=
  ((run smallSettings Style.standard ⟨⟨"/", root⟩, "feature-based", []⟩ false).on
    (.ofTree (placeAt root crossShop))).1

theorem checkShop_usable {root : Location} (named : ∀ part ∈ root, IsName part)
    (usable : Scan.Usable (root ++ ["shop", "features", "cart", "cart.ts"])) :
    checkShop root = .ok ⟨⟨"/", root⟩, "feature-based", Rule.Builtin.featureIsolation.violations
      (Location.text (root ++ ["shop", "features", "cart", "cart.ts"])) ["features/order/x"],
      ["feature/isolation"], 1⟩ := by
  have name_valid : IsName "cart.ts" := by decide +kernel
  have spoken : Import.Language.ofPath? ⟨"/", root ++ ["shop", "features", "cart", "cart.ts"]⟩ =
      some .typescript := by
    unfold Import.Language.ofPath? PathName.suffix PathName.name
    simp only [List.getLast?_append_of_ne_nil root (List.cons_ne_nil _ _)]
    decide +kernel
  have read : Import.imports .typescript (String.ofList (Text.unifyBreaks (Text.decodeLossy
      (Text.encode "require('features/order/x')".toList)))) = ["features/order/x"] := by
    decide +kernel
  have ran := @run_shop root "cart.ts" "require('features/order/x')" named name_valid (by decide)
    (by decide +kernel) usable
  rwa [importsAt_shop .typescript named name_valid usable (by decide) spoken, read] at ran

def longName (n : Nat) : String := String.ofList (List.replicate n 'x')

theorem isName_longName {n : Nat} (long : 2 < n) (short : n ≤ FileTree.maxNameBytes) :
    IsName (longName n) := by
  have size : (longName n).utf8ByteSize = n := Scan.utf8ByteSize_replicate n
  have ne {name : String} (small : name.utf8ByteSize ≤ 2) : longName n ≠ name := by
    rintro rfl
    omega
  refine ⟨ne (by decide), ne (by decide), ne (by decide), ?_, ?_, by rwa [size]⟩
  · simp [longName]
  · simp [FileTree.hasNull, longName]

theorem slashed_replicate (n depth : Nat) :
    (Scan.slashed (List.replicate depth (longName n))).utf8ByteSize = depth * (n + 1) + 1 ∧
      ∀ c ∈ (Scan.slashed (List.replicate depth (longName n))).toList, c = '/' ∨ c = 'x' := by
  induction depth with
  | zero =>
      rw [Nat.zero_mul, List.replicate_zero]
      exact ⟨rfl, fun c mem => .inl (List.mem_singleton.1 mem)⟩
  | succ depth ih =>
      have next : Scan.slashed (List.replicate (depth + 1) (longName n)) =
          Scan.slashed (List.replicate depth (longName n)) ++ longName n ++ "/" := by
        rw [Scan.slashed, if_neg (by simp), List.replicate_succ', Scan.text_append _ (by simp)]
        rfl
      have size : (longName n).utf8ByteSize = n := Scan.utf8ByteSize_replicate n
      have slash : ("/" : String).utf8ByteSize = 1 := rfl
      rw [next]
      refine ⟨?_, fun c mem => ?_⟩
      · rw [String.utf8ByteSize_append, String.utf8ByteSize_append, ih.1, size, slash, Nat.succ_mul]
        omega
      · rw [String.toList_append, String.toList_append, List.append_assoc, List.mem_append] at mem
        rcases mem with mem | mem
        · exact ih.2 c mem
        · rw [List.mem_append, longName, String.toList_ofList] at mem
          rcases mem with mem | mem
          · exact .inr (List.eq_of_mem_replicate mem)
          · exact .inl (List.mem_singleton.1 mem)

/-- A root whose path has all but a few of the bytes that a path can have. -/
def deepRoot : Location := List.replicate 16 (longName 254)

theorem named_deepRoot : ∀ part ∈ deepRoot, IsName part := by
  intro part mem
  rw [List.eq_of_mem_replicate mem]
  exact isName_longName (by decide) (by decide)

theorem size_deepRoot {rel : List String} (ne : rel ≠ []) :
    (Location.text (deepRoot ++ rel)).utf8ByteSize = 4081 + (Scan.relativeText rel).utf8ByteSize := by
  rw [Scan.text_append _ ne, String.utf8ByteSize_append, deepRoot, (slashed_replicate 254 16).1]

theorem usable_deepRoot : Scan.Usable deepRoot := by
  have top : Scan.Usable (deepRoot ++ ["shop"]) := by
    refine ⟨?_, ?_⟩
    · rw [List.any_eq_false]
      intro part mem
      rcases List.mem_append.1 mem with mem | mem
      · simpa using (named_deepRoot part mem).no_null
      · rw [List.mem_singleton.1 mem]
        decide
    · rw [size_deepRoot (by simp)]
      decide
  exact top.of_front (List.prefix_append _ _)

theorem not_usable_deepRoot {rest : List String} :
    ¬ Scan.Usable (deepRoot ++ ("shop" :: "features" :: "cart" :: rest)) := by
  intro usable
  have cart : Scan.Usable (deepRoot ++ ["shop", "features", "cart"]) :=
    usable.of_front ((List.prefix_append_right_inj _).2 ⟨rest, rfl⟩)
  have size := cart.2
  rw [size_deepRoot (by simp)] at size
  exact absurd size (by decide)

theorem neutral_deepRoot : Rule.IsNeutral deepRoot := by
  have chars : ∀ c ∈ Rule.rootText deepRoot, c = '/' ∨ c = 'x' := by
    intro c mem
    rw [Rule.rootText, Rule.forwardSlashes, List.mem_map] at mem
    obtain ⟨d, mem, rfl⟩ := mem
    rw [← show Scan.slashed deepRoot = Location.text deepRoot ++ "/" from if_neg (by simp [deepRoot])]
      at mem
    rcases (slashed_replicate 254 16).2 d mem with rfl | rfl <;> decide
  have lower : ∀ c ∈ Text.lower (Rule.rootText deepRoot), c = '/' ∨ c = 'x' := by
    intro c mem
    rw [Text.lower, List.mem_flatMap] at mem
    obtain ⟨d, mem, mem'⟩ := mem
    rcases chars d mem with rfl | rfl
    · exact .inl (List.mem_singleton.1 mem')
    · exact .inr (List.mem_singleton.1 mem')
  have absent {part : String} {text : List Char} {c : Char} (mem : c ∈ part.toList)
      (other : ¬ (c = '/' ∨ c = 'x')) (chars : ∀ c ∈ text, c = '/' ∨ c = 'x') :
      Rule.mentions part text = false := by
    rw [Rule.mentions, Bool.eq_false_iff]
    exact fun found => other (chars c ((Text.occursIn_iff.1 found).subset mem))
  refine ⟨fun marker mem => ?_, fun layer mem => ?_, fun side mem => ?_⟩
  · have letter : ∀ marker ∈ ["features/", "modules/"], 'e' ∈ marker.toList := by decide
    exact absent (letter marker mem) (by decide) chars
  · have letter : ∀ layer ∈ Rule.slicedLayers,
        'e' ∈ ("/" ++ layer ++ "/").toList ∨ 'p' ∈ ("/" ++ layer ++ "/").toList := by decide
    rcases letter layer mem with letter | letter
    · exact absent letter (by decide) chars
    · exact absent letter (by decide) chars
  · have letter : ∀ side ∈ ["/command", "/query"], 'm' ∈ side.toList ∨ 'q' ∈ side.toList := by decide
    rcases letter side mem with letter | letter
    · exact absent letter (by decide) lower
    · exact absent letter (by decide) lower

end Check

end LayerLint
