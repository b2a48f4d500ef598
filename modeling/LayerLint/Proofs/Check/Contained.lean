import LayerLint.Proofs.Check.InTurn
import LayerLint.Proofs.Scan.Selected

/-!
# Rules from outside are contained

What a rule from outside can do to the rest of a check: `run_insert` compares a check with the same
check without the rule. As long as no rule changes files or cancels the check, all other rules find what
they find without it, and the rule itself has its own list of violations for a file or one error.
-/

namespace LayerLint

/-! ## Answers -/

namespace Rule

def Candidate.IsHarmless (candidate : Candidate) : Prop :=
  ∀ parts behaviour, candidate.parts = some parts → parts.behaviour = some behaviour →
    behaviour.IsHarmless

theorem listed_isHarmless {registry : Style.Registry} {style : String} {extra : List Candidate}
    (harmless : ∀ candidate ∈ extra, candidate.IsHarmless) {rules : List Rule}
    (h : listed registry style extra = .ok rules) : ∀ rule ∈ rules, rule.IsHarmless := by
  refine listed_all (fun _ => trivial) (fun candidate mem rule hguard => ?_) h
  obtain ⟨parts, hparts, hbehaviour⟩ := parts_of_guard hguard
  exact harmless candidate mem parts _ hparts hbehaviour

def Answer.IsList (answer : Answer) (violations : List Violation) : Prop :=
  answer = .findings (violations.map .violation)

/-- The violations that stand for an answer: the list that was answered, or one error of the rule about
the file. -/
def Guarded.Contains (rule : Guarded) (file : String) (answer : Answer)
    (violations : List Violation) : Prop :=
  answer.IsList violations ∨
    (∀ other, ¬ answer.IsList other) ∧ ∃ message, violations = [⟨rule.id, file, message, .error⟩]

theorem judge_violations (violations : List Violation) :
    (Answer.findings (violations.map .violation)).judge = .ok violations := by
  have list : firstOther? (violations.map .violation) = none ∧
      violationsOf (violations.map .violation) = violations := by
    induction violations with
    | nil => exact ⟨rfl, rfl⟩
    | cons violation violations ih => exact ⟨ih.1, congrArg (violation :: ·) ih.2⟩
  rw [Answer.judge, list.1]
  exact congrArg Except.ok list.2

theorem eq_of_firstOther? {items : List Finding} (h : firstOther? items = none) :
    items = (violationsOf items).map .violation := by
  induction items with
  | nil => rfl
  | cons item items ih =>
      cases item with
      | violation v => exact congrArg (.violation v :: ·) (ih h)
      | other kind => cases h

theorem judge_eq_ok_iff {answer : Answer} {violations : List Violation} :
    answer.judge = .ok violations ↔ answer.IsList violations := by
  constructor
  · intro h
    cases answer with
    | failure kind message => cases h
    | other kind => cases h
    | findings items =>
        rw [Answer.judge] at h
        split at h
        · cases h
        · rename_i none
          rw [← Except.ok.inj h]
          exact congrArg Answer.findings (eq_of_firstOther? none)
  · rintro rfl
    exact judge_violations violations

theorem verdict_contained (rule : Guarded) (file : String) (imports : List String) :
    rule.Contains file (rule.behaviour file imports).answer
      ((Rule.guarded rule).verdict file imports) := by
  rw [verdict]
  cases judged : (rule.behaviour file imports).answer.judge with
  | ok violations => exact .inl (judge_eq_ok_iff.1 judged)
  | error reason =>
      refine .inr ⟨fun other isList => ?_, _, rfl⟩
      cases judged.symm.trans (judge_eq_ok_iff.2 isList)

end Rule

namespace Check

variable {base : Session} {plan : Plan}

/-! ## Rules whose scans come first -/

theorem await_gives (units : Nat) : Run.Gives base plan.watch (await plan units) (.ok ()) [] := by
  unfold await
  split
  · exact .pure ()
  · split
    · exact .pure ()
    · exact .time_bind fun _ => .pure ()

theorem scanAll_gives (wf : base.tree.WellFormed) (rules : List Rule) :
    Run.Gives base plan.watch (scanAll plan rules) (rowsOf base plan rules) [] := by
  induction rules with
  | nil => exact .pure []
  | cons rule rules ih =>
      rw [rowsOf_cons]
      exact (scan_gives wf rule).seq fun files _ => ih.seq fun more _ => .pure _

theorem evaluateRows_gives {rows : List (Rule × List Location)}
    (harmless : ∀ row ∈ rows, row.1.IsHarmless)
    (isFile : ∀ row ∈ rows, ∀ file ∈ row.2, base.tree.isFile file = true)
    (apart : ∀ row ∈ rows, ∀ file ∈ row.2, base.Apart file) (seen : List Location) :
    Run.Gives base plan.watch (evaluateRows plan (cacheOf base.tree plan.limit seen) rows)
      (.ok (bucketsOf base.tree plan.limit rows,
        cacheOf base.tree plan.limit (seen ++ unseen seen (filesIn rows))))
      (unseen seen (filesIn rows)) := by
  induction rows generalizing seen with
  | nil =>
      rw [show filesIn [] = [] from rfl, unseen, List.append_nil]
      exact .pure _
  | cons row rows ih =>
      obtain ⟨rule, files⟩ := row
      rw [List.forall_mem_cons] at harmless isFile apart
      have rest := ih harmless.2 isFile.2 apart.2 (seen ++ unseen seen files)
      rw [List.append_assoc] at rest
      rw [show filesIn ((rule, files) :: rows) = files ++ filesIn rows from rfl, unseen_append]
      refine (evaluateAll_gives harmless.1 isFile.1 apart.1 seen).bind ?_
      exact rest.bind_skip (.pure _)

theorem runTogether_all (wf : base.tree.WellFormed) {rules : List Rule}
    (harmless : ∀ rule ∈ rules, rule.IsHarmless) (undisturbed : Undisturbed base plan rules) :
    Run.Gives base plan.watch (runTogether plan rules)
      ((rowsOf base plan rules).map (resultOf base.tree plan.limit))
      (readsOf (rowsOf base plan rules)) := by
  refine (await_gives _).skip_bind ?_
  cases hrows : rowsOf base plan rules with
  | error failure => exact ((scanAll_gives wf rules).of_eq hrows rfl).bind_error []
  | ok rows =>
      refine ((scanAll_gives wf rules).of_eq hrows rfl).skip_bind ((await_gives _).skip_bind ?_)
      have row {row : Rule × List Location} (mem : row ∈ rows) := mem_rowsOf hrows mem
      have gives := @evaluateRows_gives base plan rows (fun _ mem => harmless _ (row mem).1)
        (fun _ mem => isFile_of_filesOf wf (row mem).2)
        (fun _ mem => undisturbed _ (row mem).1 _ (row mem).2) []
      rw [unseen_nil, List.nil_append] at gives
      exact gives

/-- A check whose rules are harmless reports what it would report without a cache, whether files are
evaluated one after the other or several at a time. -/
theorem run_all {settings : Settings} {registry : Style.Registry} {request : Request}
    (wf : base.tree.WellFormed) (harmless : ∀ candidate ∈ request.extra, candidate.IsHarmless)
    (undisturbed : ∀ plan, planOf settings registry request base = .ok plan →
      Undisturbed base plan plan.rules) {signal : Bool}
    (never : limitOf settings.timeout = .ok none) (calm : signal = true → base.signal = .calm) :
    ((run settings registry request signal).on base).1 =
      planOf settings registry request base >>= fun plan =>
        rowsOf base plan plan.rules >>= fun rows => .ok (reportOf request plan base.tree rows) := by
  have rules_give (plan : Plan)
      (hplan : planOf settings registry request base = .ok { plan with watch := .off }) :
      Run.Gives base plan.watch
        (if settings.parallel then runTogether plan plan.rules else runInTurn plan [] plan.rules)
        ((rowsOf base plan plan.rules).map (resultOf base.tree plan.limit))
        (readsOf (rowsOf base plan plan.rules)) := by
    have rules := Rule.listed_isHarmless harmless (listed_of_planOf hplan)
    have apart := undisturbed _ hplan
    change Undisturbed base plan plan.rules at apart
    split
    · exact runTogether_all wf rules apart
    · exact runInTurn_all wf rules apart
  obtain ⟨reads, hreads⟩ : ∃ reads, ∀ report files,
      plain settings registry request base = .ok (report, files) → reads = files := by
    cases plain settings registry request base with
    | error failure => exact ⟨[], nofun⟩
    | ok pair => exact ⟨pair.2, fun report files same => by rw [Except.ok.inj same]⟩
  rw [← plain_report]
  exact ((run_gives_of rules_give signal hreads).result_eq_of_quiet (.refl wf)
    (watchLike_quiet never calm)).1

/-! ## One more rule -/

section Insert

variable {registry : Style.Registry} {style : String} {before after : List Rule.Candidate}
  {added : Rule.Candidate} {rule : Rule.Guarded}

theorem mapM_length {ε α β : Type} {f : α → Except ε β} {xs : List α} {ys : List β}
    (h : xs.mapM f = .ok ys) : ys.length = xs.length := by
  induction xs generalizing ys with
  | nil =>
      obtain rfl := Except.ok.inj h
      rfl
  | cons x xs ih =>
      rw [List.mapM_cons, bind_eq_ok] at h
      obtain ⟨a, -, h⟩ := h
      obtain ⟨more, hmore, h⟩ := bind_eq_ok.1 h
      obtain rfl := Except.ok.inj h
      rw [List.length_cons, List.length_cons, ih hmore]

theorem listed_insert (guarded : added.guard = .ok rule) :
    (∃ failure, Rule.listed registry style (before ++ after) = .error failure ∧
      Rule.listed registry style (before ++ added :: after) = .error failure) ∨
    ∃ first second, first.length = before.length ∧
      Rule.listed registry style (before ++ after) = .ok (first ++ second) ∧
      Rule.listed registry style (before ++ added :: after) =
        .ok (first ++ .guarded rule :: second) := by
  unfold Rule.listed
  rw [List.mapM_append, List.mapM_append, List.mapM_cons, guarded]
  cases hfirst : before.mapM Rule.Candidate.guard with
  | error failure => exact .inl ⟨failure, rfl, rfl⟩
  | ok first =>
      cases after.mapM Rule.Candidate.guard with
      | error failure => exact .inl ⟨failure, rfl, rfl⟩
      | ok second =>
          cases Rule.ownOf registry style with
          | error failure => exact .inl ⟨failure, rfl, rfl⟩
          | ok own =>
              refine .inr ⟨first.map .guarded, second.map .guarded ++ own.map .builtin, ?_, ?_, ?_⟩
              · rw [List.length_map, mapM_length hfirst]
              · simp [bind, Except.bind, pure, Except.pure]
              · simp [bind, Except.bind, pure, Except.pure]

theorem planOf_insert {settings : Settings} {root : PathName} (guarded : added.guard = .ok rule) :
    (∃ failure, planOf settings registry ⟨root, style, before ++ after⟩ base = .error failure ∧
      planOf settings registry ⟨root, style, before ++ added :: after⟩ base = .error failure) ∨
    ∃ (plan : Plan) (first second : List Rule), first.length = before.length ∧
      planOf settings registry ⟨root, style, before ++ after⟩ base =
        .ok { plan with rules := first ++ second } ∧
      planOf settings registry ⟨root, style, before ++ added :: after⟩ base =
        .ok { plan with rules := first ++ .guarded rule :: second } := by
  unfold planOf
  cases Scan.findRoot base.tree base.folder root with
  | error failure => exact .inl ⟨failure, rfl, rfl⟩
  | ok path =>
      rcases @listed_insert registry style before after added rule guarded with
        ⟨failure, fails, fails'⟩ | ⟨first, second, length, ok, ok'⟩
      · exact .inl ⟨failure, by rw [fails]; rfl, by rw [fails']; rfl⟩
      · rw [ok, ok']
        cases limitOf settings.timeout with
        | error failure => exact .inl ⟨failure, rfl, rfl⟩
        | ok seconds =>
            cases compileExcludes settings.excludePatterns with
            | error failure => exact .inl ⟨failure, rfl, rfl⟩
            | ok excludes =>
                cases settings.maxBytes with
                | error failure => exact .inl ⟨failure, rfl, rfl⟩
                | ok limit => exact .inr ⟨⟨path, [], _, limit, .off⟩, first, second, length, rfl, rfl⟩

theorem rowsOf_append (first second : List Rule) :
    rowsOf base plan (first ++ second) =
      rowsOf base plan first >>= fun rows =>
        rowsOf base plan second >>= fun more => .ok (rows ++ more) :=
  List.mapM_append ..

theorem rowsOf_insert_error {first second : List Rule} (rule : Rule) {failure : Failure}
    (h : rowsOf base plan (first ++ second) = .error failure) :
    rowsOf base plan (first ++ rule :: second) = .error failure ∨
      ∃ other, filesOf base plan rule = .error other ∧
        rowsOf base plan (first ++ rule :: second) = .error other := by
  rw [rowsOf_append, bind_eq_error] at h
  rw [rowsOf_append, rowsOf_cons]
  rcases h with hfirst | ⟨earlier, hfirst, h⟩
  · rw [hfirst]
    exact .inl rfl
  · have hsecond : rowsOf base plan second = .error failure :=
      (bind_eq_error.1 h).resolve_right fun ⟨_, _, h⟩ => nomatch h
    rw [hfirst, hsecond]
    cases hfiles : filesOf base plan rule with
    | error other => exact .inr ⟨other, rfl, rfl⟩
    | ok files => exact .inl rfl

theorem rowsOf_insert_ok {first second : List Rule} (rule : Rule)
    {rows : List (Rule × List Location)} (h : rowsOf base plan (first ++ second) = .ok rows) :
    ∃ earlier later, rows = earlier ++ later ∧ earlier.length = first.length ∧
      rowsOf base plan (first ++ rule :: second) =
        (filesOf base plan rule).map fun files => earlier ++ (rule, files) :: later := by
  rw [rowsOf_append, bind_eq_ok] at h
  obtain ⟨earlier, hfirst, h⟩ := h
  obtain ⟨later, hsecond, h⟩ := bind_eq_ok.1 h
  refine ⟨earlier, later, (Except.ok.inj h).symm, mapM_length hfirst, ?_⟩
  rw [rowsOf_append, rowsOf_cons, hfirst, hsecond]
  cases filesOf base plan rule <;> rfl

theorem rules_of_rowsOf {rules : List Rule} {rows : List (Rule × List Location)}
    (h : rowsOf base plan rules = .ok rows) : rows.map (·.1) = rules := by
  induction rules generalizing rows with
  | nil =>
      obtain rfl := Except.ok.inj (rowsOf_nil.symm.trans h)
      rfl
  | cons rule rules ih =>
      rw [rowsOf_cons, bind_eq_ok] at h
      obtain ⟨files, -, h⟩ := h
      obtain ⟨more, hmore, h⟩ := bind_eq_ok.1 h
      obtain rfl := Except.ok.inj h
      rw [List.map_cons, ih hmore]

theorem reportOf_eq (request : Request) (tree : FileTree) {rows : List (Rule × List Location)}
    (h : rowsOf base plan plan.rules = .ok rows) :
    reportOf request plan tree rows =
      ⟨⟨"/", plan.root⟩, request.style, (bucketsOf tree plan.limit rows).flatten,
        rows.map (·.1.id), (filesIn rows).eraseDups.length⟩ := by
  unfold reportOf
  rw [← rules_of_rowsOf h, List.map_map]
  rfl

end Insert

/-- A rule without an id that changes the imports it is handed and then fails. -/
def failingRule : Rule.Candidate :=
  .foreign
    { label := "Careless"
      id := none
      description := none
      appliesTo := some (.str "*.ts")
      behaviour := some fun _ imports => ⟨[.rewrite ("x" :: imports)], .failure "KeyError" "'k'"⟩ }

theorem guard_failingRule :
    ∃ rule, failingRule.guard = .ok rule ∧ rule.id = "Careless" ∧ rule.appliesTo = "*.ts" ∧
      ∀ file imports, rule.behaviour file imports =
        ⟨[.rewrite ("x" :: imports)], .failure "KeyError" "'k'"⟩ :=
  ⟨_, rfl, rfl, rfl, fun _ _ => rfl⟩

theorem planOf_smallTree {rule : Rule.Guarded} (guarded : smallRule.guard = .ok rule) :
    planOf smallSettings ⟨[], []⟩ ⟨⟨"/", []⟩, "flat", [smallRule]⟩ (.ofTree smallTree) =
      .ok ⟨[], [.guarded rule], ⟨false, false, []⟩, 1048576, .off⟩ := by
  have hroot : Scan.findRoot (Session.ofTree smallTree).tree (Session.ofTree smallTree).folder
      ⟨"/", []⟩ = .ok [] := findRoot_smallTree
  have listed : Rule.listed ⟨[], []⟩ "flat" [smallRule] = .ok [.guarded rule] := by
    rw [Rule.listed, List.mapM_cons, guarded]
    rfl
  rw [planOf, hroot, listed]
  rfl

theorem filesOf_smallTree {rule : Rule.Guarded} (appliesTo : rule.appliesTo = "*.ts") {plan : Plan}
    (options : plan.options = ⟨false, false, []⟩) (root : plan.root = []) :
    filesOf (.ofTree smallTree) plan (.guarded rule) = .ok [["a.ts"]] := by
  rw [filesOf, options, root, show (Rule.guarded rule).appliesTo = "*.ts" from appliesTo]
  exact found_smallTree

/-- From every session within `base` the run returns `a` and comes to a session within `after`. -/
def Takes {α : Type} (x : Run α) (base : Session) (a : α) (after : Session) : Prop :=
  ∀ session, base.Within session → (x.on session).1 = .ok a ∧ after.Within (x.on session).2

section Takes

variable {α β : Type} {x : Run α} {k : α → Run β} {a : α} {b : β} {after last : Session}

theorem Takes.of_gives {watch : Watch} {reads : List Location}
    (h : Run.Gives base watch x (.ok a) reads) (quiet : ∀ session, watch.Quiet session) :
    Takes x base a base :=
  fun session hs => ⟨(h.result_eq_of_quiet hs (quiet session)).1, h.within session hs⟩

theorem Takes.bind (hx : Takes x base a after) (hk : Takes (k a) after b last) :
    Takes (x >>= k) base b last := by
  intro session hs
  obtain ⟨ok, within⟩ := hx session hs
  rw [Run.on_bind_ok ok]
  exact hk _ within

theorem Takes.get {k : Session → Run β}
    (hk : ∀ session, base.Within session → Takes (k session) base b last) :
    Takes (MonadState.get >>= k) base b last :=
  fun session hs => hk session hs session hs

theorem Takes.time_bind {k : Float → Run β} (hk : ∀ now, Takes (k now) base b last) :
    Takes (Run.time >>= k) base b last :=
  fun session hs => hk session.clock.now _ (hs.of_eq rfl rfl rfl)

end Takes

/-- What a check returns, if its rules return from whatever session the check comes to. -/
theorem run_of_takes {registry : Style.Registry} {request : Request} {root : Location}
    {rules : List Rule} {buckets : List (List Violation)} {cache : Cache} {after : Session}
    (wf : base.tree.WellFormed) (hroot : Scan.findRoot base.tree base.folder request.root = .ok root)
    (hrules : Rule.listed registry request.style request.extra = .ok rules)
    (takes : Takes (runInTurn
      ⟨root, rules, ⟨false, false, []⟩, 1048576, ⟨false, .int 0, none⟩⟩ [] rules)
      base (buckets, cache) after) :
    ((run smallSettings registry request false).on base).1 =
      .ok ⟨⟨"/", root⟩, request.style, buckets.flatten, rules.map Rule.id, cache.length⟩ := by
  suffices all : Takes (run smallSettings registry request false) base _ after from
    (all base (.refl wf)).1
  refine .get fun session hs => ?_
  rw [Scan.findRoot_agrees hs.tree, hs.folder, hroot]
  refine (Takes.of_gives (.pure root) Watch.quiet_off).bind ?_
  refine (Takes.of_gives ((selectRules_gives ..).of_eq hrules rfl) Watch.quiet_off).bind ?_
  refine (Takes.of_gives (.pure (Watch.mk false (.int 0) none)) Watch.quiet_off).bind ?_
  refine (Takes.of_gives (.pure []) Watch.quiet_off).bind ?_
  refine (Takes.of_gives (.pure 1048576) Watch.quiet_off).bind ?_
  refine (Takes.of_gives (.note ..) Watch.quiet_off).bind (.time_bind fun start => ?_)
  refine takes.bind (.time_bind fun finish => ?_)
  exact (Takes.of_gives (.note ..) Watch.quiet_off).bind (.of_gives (.pure _) Watch.quiet_off)

def twoFiles (bytes : List UInt8) : FileTree :=
  ⟨[(["a.ts"], .file []), (["b.ts"], .file bytes)], []⟩

def idleRule : Rule.Candidate :=
  .made (.str "idle") (.str "") (.str "*.ts") fun _ _ => ⟨[], .findings []⟩

/-- A rule that empties the second file and objects to all imports. -/
def eraser : Rule.Candidate :=
  .made (.str "eraser") (.str "") (.str "*.ts") fun file imports =>
    ⟨[.edit fun _ => twoFiles []], .findings (imports.map fun name =>
      .violation ⟨"eraser", file, name, .error⟩)⟩

theorem wellFormed_twoFiles (bytes : List UInt8) : (twoFiles bytes).WellFormed := by
  have valid : IsName "a.ts" ∧ IsName "b.ts" := by decide
  rw [FileTree.wellFormed_iff]
  simp [twoFiles, valid, FileTree.get?_nil]

theorem status_twoFiles (bytes : List UInt8) :
    (twoFiles bytes).status ["a.ts"] = .ok (.file []) ∧
      (twoFiles bytes).status ["b.ts"] = .ok (.file bytes) := by
  have first : (twoFiles bytes).locate ["a.ts"] = .ok ["a.ts"] :=
    FileTree.locateFrom_file (by decide) rfl _
  have second : (twoFiles bytes).locate ["b.ts"] = .ok ["b.ts"] :=
    FileTree.locateFrom_file (by decide) rfl _
  exact ⟨Scan.Usable.status ⟨by decide, by decide⟩ first rfl,
    Scan.Usable.status ⟨by decide, by decide⟩ second rfl⟩

theorem importsAt_twoFiles :
    (∀ bytes, importsAt (twoFiles bytes) 1048576 ["a.ts"] = []) ∧
      importsAt (twoFiles []) 1048576 ["b.ts"] = [] ∧
      importsAt (twoFiles (Text.encode "require('x')".toList)) 1048576 ["b.ts"] = ["x"] := by
  refine ⟨fun bytes => ?_, ?_, ?_⟩
  · rw [importsAt_of_status .typescript (status_twoFiles bytes).1 (by decide) (by decide +kernel)]
    decide +kernel
  · rw [importsAt_of_status .typescript (status_twoFiles []).2 (by decide) (by decide +kernel)]
    decide +kernel
  · rw [importsAt_of_status .typescript (status_twoFiles _).2 (by decide +kernel) (by decide +kernel)]
    decide +kernel

theorem findRoot_twoFiles (bytes : List UInt8) :
    Scan.findRoot (twoFiles bytes) ((twoFiles bytes).hold []) ⟨"/", []⟩ = .ok [] :=
  Scan.findRoot_of_real (wellFormed_twoFiles bytes) _ (.nil _ _) ⟨by decide, by decide⟩

theorem found_twoFiles (bytes : List UInt8) :
    Scan.found (twoFiles bytes) ((twoFiles bytes).hold []) ⟨false, false, []⟩ ⟨"/", []⟩ "*.ts" =
      .ok [["a.ts"], ["b.ts"]] := by
  obtain ⟨glob, hglob, inA⟩ : ∃ glob, Glob.compile "*.ts" = .ok glob ∧ glob.selects "a.ts" = true :=
    Scan.exists_compile (by decide +kernel)
  obtain ⟨_, same, inB⟩ : ∃ glob, Glob.compile "*.ts" = .ok glob ∧ glob.selects "b.ts" = true :=
    Scan.exists_compile (by decide +kernel)
  obtain rfl := Except.ok.inj (hglob.symm.trans same)
  have names : (twoFiles bytes).names [] = ["a.ts", "b.ts"] := rfl
  have located : (twoFiles bytes).locate [] = .ok [] := FileTree.locateFrom_nil ..
  have walked : Scan.walk (twoFiles bytes) ⟨false, false, []⟩ glob [] =
      [⟨[], false, false, ["a.ts", "b.ts"]⟩] := by
    simp +decide [Scan.walk, Scan.walkFrom, located, Scan.selectsOverlong, Scan.selectedNames,
      Scan.subfolders, names, Scan.selectedFiles, Scan.Options.keepsName, Scan.Options.drops,
      Scan.relativeText, FileTree.isFile, FileTree.isFolder, status_twoFiles, inA, inB]
  rw [Scan.found_eq (findRoot_twoFiles bytes) hglob, walked]
  simp +decide [Scan.sortPaths, Scan.Visit.paths, List.mergeSort]

def objections (file : Location) (imports : List String) : List Violation :=
  imports.map fun name => ⟨"eraser", Location.text file, name, .error⟩

theorem guard_eraser :
    ∃ rule, eraser.guard = .ok rule ∧ rule.id = "eraser" ∧ rule.appliesTo = "*.ts" ∧
      ∀ file imports, rule.behaviour (Location.text file) imports =
        ⟨[.edit fun _ => twoFiles []], .findings ((objections file imports).map .violation)⟩ :=
  ⟨_, rfl, rfl, rfl, fun _ _ => by simp [objections, Function.comp_def]⟩

theorem guard_idleRule :
    ∃ rule, idleRule.guard = .ok rule ∧ rule.id = "idle" ∧ rule.appliesTo = "*.ts" ∧
      ∀ file imports, rule.behaviour file imports = ⟨[], .findings ([].map .violation)⟩ :=
  ⟨_, rfl, rfl, rfl, fun _ _ => rfl⟩

theorem apply_edits (tree : FileTree) (wf : tree.WellFormed) :
    Takes (Run.change fun session => [Rule.Effect.edit fun _ => tree].foldl Session.apply session)
      base () { base with tree } := by
  intro session hs
  rw [Run.on_change]
  exact ⟨rfl, wf, .refl _ _, hs.folder, hs.logFiles⟩

theorem apply_none :
    Takes (Run.change fun session => ([] : List Rule.Effect).foldl Session.apply session)
      base () base :=
  fun _ hs => ⟨rfl, hs⟩

section Steps

variable {rule : Rule} {rules : List Rule} {guarded : Rule.Guarded} {file : Location}
  {files : List Location} {cache cache' cache'' : Cache} {imports : List String}
  {effects : List Rule.Effect} {violations more : List Violation} {after last : Session}

theorem importsOf_takes_known (known : cache.lookup file = some imports) (limit : Int) :
    Takes (importsOf limit cache file) base (imports, cache) base := by
  unfold importsOf
  rw [known]
  exact .of_gives (.pure _) Watch.quiet_off

theorem importsOf_takes_new (new : cache.lookup file = none) {limit : Int}
    (isFile : base.tree.isFile file = true) (apart : base.Apart file)
    (reads : importsAt base.tree limit file = imports) :
    Takes (importsOf limit cache file) base (imports, cache ++ [(file, imports)]) base := by
  subst reads
  unfold importsOf
  rw [new]
  exact (Takes.of_gives (readImports_gives isFile apart limit) Watch.quiet_off).bind
    (.of_gives (.pure _) Watch.quiet_off)

theorem evaluate_takes (quiet : ∀ session, plan.watch.Quiet session)
    (reads : Takes (importsOf plan.limit cache file) base (imports, cache') base)
    (behaves : guarded.behaviour (Location.text file) imports =
      ⟨effects, .findings (violations.map .violation)⟩)
    (edits : Takes (Run.change fun session => effects.foldl Session.apply session) base () after) :
    Takes (evaluate plan cache (.guarded guarded) file) base (violations, cache') after := by
  refine (Takes.of_gives .check quiet).bind (reads.bind ?_)
  refine Takes.bind ?_ (.of_gives (.pure _) quiet)
  refine (Takes.of_gives (.remember_asked ..) quiet).bind ?_
  dsimp only
  rw [behaves, Rule.judge_violations]
  exact edits.bind (.of_gives (.pure _) quiet)

theorem evaluateAll_takes_nil (quiet : ∀ session, plan.watch.Quiet session) :
    Takes (evaluateAll plan rule cache []) base ([], cache) base :=
  .of_gives (.pure _) quiet

theorem evaluateAll_takes_cons (quiet : ∀ session, plan.watch.Quiet session)
    (first : Takes (evaluate plan cache rule file) base (violations, cache') after)
    (rest : Takes (evaluateAll plan rule cache' files) after (more, cache'') last) :
    Takes (evaluateAll plan rule cache (file :: files)) base (violations ++ more, cache'') last :=
  first.bind (rest.bind (.of_gives (.pure _) quiet))

theorem runInTurn_takes_nil (quiet : ∀ session, plan.watch.Quiet session) :
    Takes (runInTurn plan cache []) base ([], cache) base :=
  .of_gives (.pure _) quiet

theorem runInTurn_takes_cons {buckets : List (List Violation)} (wf : base.tree.WellFormed)
    (quiet : ∀ session, plan.watch.Quiet session) (hfiles : filesOf base plan rule = .ok files)
    (evaluated : Takes (evaluateAll plan rule cache files) base (violations, cache') after)
    (rest : Takes (runInTurn plan cache' rules) after (buckets, cache'') last) :
    Takes (runInTurn plan cache (rule :: rules)) base (violations :: buckets, cache'') last := by
  refine (Takes.of_gives .check quiet).bind ?_
  refine (Takes.of_gives ((scan_gives wf rule).of_eq hfiles rfl) quiet).bind (evaluated.bind ?_)
  exact (Takes.of_gives (.note ..) quiet).bind (rest.bind (.of_gives (.pure _) quiet))

end Steps

end Check

end LayerLint
