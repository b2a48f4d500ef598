import LayerLint.Proofs.Check.Contained
import LayerLint.Proofs.Check.Evaluations
import LayerLint.Proofs.Scan.Projects

/-!
# One file does not change what is said about another

Two projects that differ in one file are checked alike: apart from the evaluations of this file, the
same rules are asked about the same files with the same imports, in the same order (`run_local`).
Neither the walk nor the cache carries anything from one file to the next.
-/

namespace LayerLint

namespace Check

/-! ## What a check evaluates -/

/-- The evaluation of a rule on what stands in a file. -/
def evaluationOf (tree : FileTree) (limit : Int) (unit : Rule × Location) : Evaluation :=
  ⟨unit.1, Location.text unit.2, importsAt tree limit unit.2⟩

section Within

variable {base : Session} {settings : Settings} {registry : Style.Registry} {request : Request}
  {plan : Plan}

theorem planOf_within {session : Session} (h : base.Within session) :
    planOf settings registry request session = planOf settings registry request base := by
  unfold planOf
  rw [Scan.findRoot_agrees h.tree, h.folder]

theorem filesOf_of_found (wf : base.tree.WellFormed) {rule : Rule} {files : List Location}
    (h : Found base.Within plan rule files) : filesOf base plan rule = .ok files := by
  obtain ⟨session, within, returned⟩ := h
  rwa [filesOf, within.folder, Scan.found_agrees wf within.tree] at returned

theorem rowsOf_of_found (wf : base.tree.WellFormed) {rows : List (Rule × List Location)}
    (h : ∀ row ∈ rows, Found base.Within plan row.1 row.2) :
    rowsOf base plan (rows.map (·.1)) = .ok rows := by
  induction rows with
  | nil => rfl
  | cons row rows ih =>
      rw [List.forall_mem_cons] at h
      rw [List.map_cons, rowsOf_cons, filesOf_of_found wf h.1, ih h.2]
      rfl

theorem eq_of_known {limit : Int} {file : Location} (apart : base.Apart file) {imports : List String}
    (h : Known base.Within limit file imports) : imports = importsAt base.tree limit file := by
  obtain ⟨session, within, same⟩ := h
  rw [same, importsAt, importsAt, inspect_agrees within.tree apart]

theorem eq_map_of_isOf {limit : Int} {units : List (Rule × Location)} {added : List Evaluation}
    (apart : ∀ unit ∈ units, base.Apart unit.2)
    (all : List.Forall₂ (IsOf base.Within limit) units added) :
    added = units.map (evaluationOf base.tree limit) := by
  induction all with
  | nil => rfl
  | @cons unit e units added isOf all ih =>
      rw [List.forall_mem_cons] at apart
      have same : e = evaluationOf base.tree limit unit := by
        rw [evaluationOf, ← isOf.rule, ← isOf.file, ← eq_of_known apart.1 isOf.imports]
      rw [List.map_cons, ← ih apart.2, same]

theorem keeps_of_isHarmless {rule : Rule} (h : rule.IsHarmless) : rule.Keeps base.Within := by
  cases rule with
  | builtin rule => trivial
  | guarded rule =>
      intro file imports session within
      obtain ⟨clock, same⟩ := apply_effects (h file imports) session
      rw [same]
      exact within.of_eq rfl rfl rfl

/-- A check of harmless rules that returns has evaluated every rule on every file that the rule
selects, and on the imports that stood in the file from the beginning. -/
theorem run_evaluates {signal : Bool} {after : Session} {report : Report}
    (wf : base.tree.WellFormed) (harmless : ∀ candidate ∈ request.extra, candidate.IsHarmless)
    (undisturbed : ∀ plan, planOf settings registry request base = .ok plan →
      Undisturbed base plan plan.rules)
    (ran : (run settings registry request signal).on base = (.ok report, after)) :
    ∃ plan rows, planOf settings registry request base = .ok plan ∧
      rowsOf base plan plan.rules = .ok rows ∧
      after.evaluations =
        base.evaluations ++ (unitsOf rows).map (evaluationOf base.tree plan.limit) ∧
      report.violations =
        ((unitsOf rows).map (evaluationOf base.tree plan.limit)).flatMap (·.violations) ∧
      report.rulesRun = plan.rules.map Rule.id := by
  obtain ⟨-, asked, hasked, violations, session, plan, rows, within, hplan, evaluated, ids⟩ :=
    run_tells (Session.stable_within base) settings registry request signal
      (fun rules listed rule mem =>
        keeps_of_isHarmless (Rule.listed_isHarmless harmless listed rule mem))
      base (.refl wf) report (congrArg Prod.fst ran)
  rw [ran] at hasked
  rw [planOf_within within] at hplan
  have hrows : rowsOf base plan plan.rules = .ok rows := by
    rw [← evaluated.rules]
    exact rowsOf_of_found wf evaluated.found
  have apart : ∀ unit ∈ unitsOf rows, base.Apart unit.2 := by
    intro unit mem
    obtain ⟨row, hrow, mem⟩ := List.mem_flatMap.1 mem
    obtain ⟨file, hfile, rfl⟩ := List.mem_map.1 mem
    obtain ⟨hrule, hfiles⟩ := mem_rowsOf hrows hrow
    exact undisturbed plan hplan row.1 hrule row.2 hfiles file hfile
  obtain rfl := eq_map_of_isOf apart evaluated.units
  exact ⟨plan, rows, hplan, hrows, hasked, violations, ids⟩

end Within

/-! ## Two projects -/

/-- Two projects at one root that have the same files at every path but one. Folders without files
may be different ones. -/
structure DifferAt (tree other : FileTree) (root : Location) (spare : List String) : Prop where
  project : tree.IsProject root
  otherProject : other.IsProject root
  same : ∀ rel bytes, rel ≠ spare →
    (other.get? (root ++ rel) = some (.file bytes) ↔ tree.get? (root ++ rel) = some (.file bytes))

section Differ

variable {session other : Session} {root : Location} {spare : List String} {plan : Plan}

theorem importsAt_of_get? {tree other : FileTree} (wf : tree.WellFormed) (wf' : other.WellFormed)
    {file : Location} {bytes : List UInt8} (found : tree.get? file = some (.file bytes))
    (found' : other.get? file = some (.file bytes)) (usable : Scan.Usable file) (limit : Int) :
    importsAt other limit file = importsAt tree limit file := by
  have status := Scan.status_of_get? wf found (fun _ h => by cases h) usable
  have status' := Scan.status_of_get? wf' found' (fun _ h => by cases h) usable
  rw [importsAt, importsAt, inspect_congr (status'.trans status.symm)]

/-- Apart from the file at the path, a rule is asked the same questions in the same order. -/
theorem evaluations_rule (differ : DifferAt session.tree other.tree root spare)
    (usable : Scan.Usable root) (atRoot : plan.root = root)
    (noLinks : plan.options.followLinks = false) {rule : Rule} {files files' : List Location}
    (hfiles : filesOf session plan rule = .ok files)
    (hfiles' : filesOf other plan rule = .ok files') :
    ((files.map (rule, ·)).map (evaluationOf session.tree plan.limit)).filter
        (·.file ≠ Location.text (root ++ spare)) =
      ((files'.map (rule, ·)).map (evaluationOf other.tree plan.limit)).filter
        (·.file ≠ Location.text (root ++ spare)) := by
  subst atRoot
  have wf := differ.project.wellFormed
  have wf' := differ.otherProject.wellFormed
  have hroot := Scan.findRoot_of_real wf session.folder differ.project.real usable
  have hroot' := Scan.findRoot_of_real wf' other.folder differ.otherProject.real usable
  have kept : files.filter (· ≠ plan.root ++ spare) = files'.filter (· ≠ plan.root ++ spare) := by
    refine Scan.found_except differ.project differ.otherProject hroot hroot' (fun rel ne => ?_) noLinks
      hfiles hfiles'
    exact exists_congr fun bytes => (differ.same rel bytes ne).symm
  -- The text of another file could be the same only if the path is none that a file can have.
  have split (tree : FileTree) (xs : List Location) :
      ((xs.map (rule, ·)).map (evaluationOf tree plan.limit)).filter
          (·.file ≠ Location.text (plan.root ++ spare)) =
        ((xs.filter (· ≠ plan.root ++ spare)).filter
          (Location.text · ≠ Location.text (plan.root ++ spare))).map
            fun file => evaluationOf tree plan.limit (rule, file) := by
    rw [List.map_map, List.filter_map, List.filter_filter]
    congr 1
    refine List.filter_congr fun file _ => ?_
    have text_ne (ne : Location.text file ≠ Location.text (plan.root ++ spare)) :
        file ≠ plan.root ++ spare := fun same => ne (by rw [same])
    rw [Function.comp_apply, Bool.eq_iff_iff, Bool.and_eq_true, decide_eq_true_eq, decide_eq_true_eq,
      decide_eq_true_eq]
    exact ⟨fun ne => ⟨ne, text_ne ne⟩, And.left⟩
  rw [split, split, ← kept]
  refine List.map_congr_left fun file mem => ?_
  obtain ⟨mem, ne⟩ := List.mem_filter.1 (List.mem_filter.1 mem).1
  obtain ⟨glob, rels, -, rfl, listed, -⟩ :=
    Scan.found_project_ok differ.project hroot noLinks hfiles
  obtain ⟨rel, hrel, rfl⟩ := List.mem_map.1 mem
  have here := (listed rel).1 hrel
  obtain ⟨bytes, found⟩ := here.file
  have other_rel : rel ≠ spare := fun same => by simp [same] at ne
  rw [evaluationOf, evaluationOf,
    importsAt_of_get? wf wf' found ((differ.same rel bytes other_rel).2 found) here.usable]

theorem evaluations_rows (differ : DifferAt session.tree other.tree root spare)
    (usable : Scan.Usable root) (atRoot : plan.root = root)
    (noLinks : plan.options.followLinks = false) {rules : List Rule}
    {rows rows' : List (Rule × List Location)} (hrows : rowsOf session plan rules = .ok rows)
    (hrows' : rowsOf other plan rules = .ok rows') :
    ((unitsOf rows).map (evaluationOf session.tree plan.limit)).filter
        (·.file ≠ Location.text (root ++ spare)) =
      ((unitsOf rows').map (evaluationOf other.tree plan.limit)).filter
        (·.file ≠ Location.text (root ++ spare)) := by
  induction rules generalizing rows rows' with
  | nil =>
      rw [rowsOf_nil] at hrows hrows'
      obtain rfl := Except.ok.inj hrows
      obtain rfl := Except.ok.inj hrows'
      simp only [unitsOf, List.flatMap_nil, List.map_nil, List.filter_nil]
  | cons rule rules ih =>
      rw [rowsOf_cons, bind_eq_ok] at hrows hrows'
      obtain ⟨files, hfiles, hrows⟩ := hrows
      obtain ⟨more, hmore, hrows⟩ := bind_eq_ok.1 hrows
      obtain rfl := Except.ok.inj hrows
      obtain ⟨files', hfiles', hrows'⟩ := hrows'
      obtain ⟨more', hmore', hrows'⟩ := bind_eq_ok.1 hrows'
      obtain rfl := Except.ok.inj hrows'
      simp only [unitsOf, List.flatMap_cons, List.map_append, List.filter_append]
      exact congrArg₂ (· ++ ·) (evaluations_rule differ usable atRoot noLinks hfiles hfiles')
        (ih hmore hmore')

end Differ

/-- The small tree with one more file. -/
def pairTree : FileTree := ⟨[(["a.ts"], .file []), (["b.ts"], .file [])], []⟩

theorem get?_pairTree {rel : List String} (ne : rel ≠ ["b.ts"]) :
    pairTree.get? rel = smallTree.get? rel := by
  unfold FileTree.get? pairTree smallTree
  have miss : (rel == ["b.ts"]) = false := beq_eq_false_iff_ne.2 ne
  simp only [List.lookup_cons, miss]

theorem differ_pairTree : DifferAt smallTree pairTree [] ["b.ts"] := by
  refine ⟨.of_entries (by decide +kernel) (.nil _ _) ?_, .of_entries (by decide +kernel) (.nil _ _) ?_,
    fun rel bytes ne => ?_⟩
  · simp [smallTree]
  · simp [pairTree]
  · rw [List.nil_append, get?_pairTree ne]

theorem fileAt_pairTree (rel : List String) :
    pairTree.FileAt ([] ++ rel) ↔ rel ∈ [["a.ts"], ["b.ts"]] := by
  constructor
  · rintro ⟨bytes, h⟩
    have ne : rel ≠ [] := by
      rintro rfl
      cases h
    have mem : (rel, .file bytes) ∈ pairTree.entries := FileTree.mem_entries ne h
    simp only [pairTree, List.mem_cons, Prod.mk.injEq, List.not_mem_nil, or_false] at mem
    rcases mem with ⟨rfl, -⟩ | ⟨rfl, -⟩ <;> decide
  · intro mem
    simp only [List.mem_cons, List.not_mem_nil, or_false] at mem
    rcases mem with rfl | rfl
    · exact ⟨[], rfl⟩
    · exact ⟨[], rfl⟩

theorem findRoot_pairTree : Scan.findRoot pairTree (pairTree.hold []) ⟨"/", []⟩ = .ok [] :=
  Scan.findRoot_of_real (by decide +kernel) _ (.nil _ _) ⟨rfl, by decide⟩

theorem found_pairTree :
    Scan.found pairTree (pairTree.hold []) ⟨false, false, []⟩ ⟨"/", []⟩ "*.ts" =
      .ok [["a.ts"], ["b.ts"]] := by
  obtain ⟨glob, hglob, selects⟩ : ∃ glob, Glob.compile "*.ts" = .ok glob ∧ glob.selects "a.ts" = true :=
    Scan.exists_compile (by decide +kernel)
  obtain ⟨glob', hglob', selects'⟩ :
      ∃ glob, Glob.compile "*.ts" = .ok glob ∧ glob.selects "b.ts" = true :=
    Scan.exists_compile (by decide +kernel)
  obtain rfl := Except.ok.inj (hglob.symm.trans hglob')
  refine Scan.found_all differ_pairTree.otherProject findRoot_pairTree hglob rfl rfl
    fileAt_pairTree ?_ ?_ (by decide +kernel)
  · simp only [List.forall_mem_cons]
    exact ⟨⟨by simp, by decide, selects⟩, ⟨by simp, by decide, selects'⟩, List.forall_mem_nil _⟩
  · simp only [List.forall_mem_cons]
    exact ⟨⟨rfl, by decide⟩, ⟨rfl, by decide⟩, List.forall_mem_nil _⟩

theorem harmless_smallRequest : ∀ candidate ∈ smallRequest.extra, candidate.IsHarmless := by
  intro candidate mem parts behaviour hparts hbehaviour file imports effect inEffects
  obtain rfl := List.mem_singleton.1 mem
  obtain rfl := Option.some.inj hparts
  obtain rfl := Option.some.inj hbehaviour
  cases inEffects

theorem run_smallRequest {tree : FileTree} (wf : tree.WellFormed)
    (hroot : Scan.findRoot tree (tree.hold []) ⟨"/", []⟩ = .ok []) {files : List Location}
    (found : Scan.found tree (tree.hold []) ⟨false, false, []⟩ ⟨"/", []⟩ "*.ts" = .ok files) :
    ∃ report after, (run smallSettings ⟨[], []⟩ smallRequest false).on (.ofTree tree) =
        (.ok report, after) ∧
      report.violations = files.map fun file => ⟨"no-files", Location.text file, "a file", .error⟩ := by
  obtain ⟨rule, guarded, -, appliesTo, verdict⟩ := guard_smallRule
  have hplan : planOf smallSettings ⟨[], []⟩ smallRequest (.ofTree tree) =
      .ok ⟨[], [.guarded rule], ⟨false, false, []⟩, 1048576, .off⟩ := by
    have listed : Rule.listed ⟨[], []⟩ smallRequest.style smallRequest.extra =
        .ok [.guarded rule] := by
      rw [Rule.listed, smallRequest, List.mapM_cons, guarded]
      rfl
    rw [planOf, show Scan.findRoot (Session.ofTree tree).tree (Session.ofTree tree).folder
      smallRequest.root = .ok [] from hroot, listed]
    rfl
  have hrows : rowsOf (.ofTree tree) ⟨[], [.guarded rule], ⟨false, false, []⟩, 1048576, .off⟩
      [.guarded rule] = .ok [(.guarded rule, files)] := by
    rw [rowsOf_cons, filesOf, show (Rule.guarded rule).appliesTo = "*.ts" from appliesTo]
    show Scan.found tree (tree.hold []) ⟨false, false, []⟩ ⟨"/", []⟩ "*.ts" >>= _ = _
    rw [found]
    rfl
  have all := @run_all (.ofTree tree) smallSettings ⟨[], []⟩ smallRequest wf harmless_smallRequest
    (fun _ _ _ _ _ _ _ _ => .ofTree _ _) false rfl (fun h => by cases h)
  rw [hplan] at all
  change _ = rowsOf (.ofTree tree) _ [.guarded rule] >>= _ at all
  rw [hrows] at all
  refine ⟨_, _, Prod.ext all rfl, ?_⟩
  simp only [reportOf, verdict, List.flatMap_cons, List.flatMap_nil, List.append_nil]
  exact List.map_eq_flatMap.symm

end Check

end LayerLint
