import LayerLint.Proofs.Check.Units

/-!
# Checks without a cache

What a check gives whose files are evaluated one after the other: `run_exact`. The specification
(`plain`) scans, reads and asks without a cache and without a session; the cache only makes sure that
each file is read once.
-/

namespace LayerLint

/-! ## Results one after the other -/

theorem bind_eq_ok {ε α β : Type} {x : Except ε α} {f : α → Except ε β} {b : β} :
    x >>= f = .ok b ↔ ∃ a, x = .ok a ∧ f a = .ok b := by
  cases x with
  | error e => exact ⟨nofun, fun ⟨a, h, _⟩ => nomatch h⟩
  | ok a => exact ⟨fun h => ⟨a, rfl, h⟩, fun ⟨a', h, hb⟩ => by rwa [Except.ok.inj h]⟩

theorem bind_eq_error {ε α β : Type} {x : Except ε α} {f : α → Except ε β} {e : ε} :
    x >>= f = .error e ↔ x = .error e ∨ ∃ a, x = .ok a ∧ f a = .error e := by
  cases x with
  | error e' => exact ⟨fun h => .inl (by cases h; rfl), fun h => by
      rcases h with h | ⟨a, h, _⟩
      · cases h
        rfl
      · cases h⟩
  | ok a => exact ⟨fun h => .inr ⟨a, rfl, h⟩, fun h => by
      rcases h with h | ⟨a', h, he⟩
      · cases h
      · rwa [Except.ok.inj h]⟩

theorem exists_of_mem_mapM {ε α β : Type} {f : α → Except ε β} {xs : List α} {ys : List β}
    (h : xs.mapM f = .ok ys) {y : β} (mem : y ∈ ys) : ∃ x ∈ xs, f x = .ok y := by
  induction xs generalizing ys with
  | nil =>
      obtain rfl := Except.ok.inj h
      cases mem
  | cons x xs ih =>
      rw [List.mapM_cons, bind_eq_ok] at h
      obtain ⟨a, ha, h⟩ := h
      obtain ⟨more, hmore, h⟩ := bind_eq_ok.1 h
      obtain rfl := Except.ok.inj h
      rcases List.mem_cons.1 mem with rfl | mem
      · exact ⟨x, by simp, ha⟩
      · obtain ⟨x', hx', hy⟩ := ih hmore mem
        exact ⟨x', by simp [hx'], hy⟩

/-! ## The rules of a check -/

namespace Rule

/-- A candidate that does nothing to its surroundings when it is asked. -/
def Candidate.IsPure (candidate : Candidate) : Prop :=
  ∀ parts behaviour, candidate.parts = some parts → parts.behaviour = some behaviour →
    ∀ file imports, (behaviour file imports).effects = []

def own (id : String) : Except Failure Builtin :=
  match Builtin.ofId? id with
  | none => .error (.unknownRule id)
  | some rule => .ok rule

/-- The built-in rules of a style in the order of its table; none for an unknown style. -/
def ownOf (registry : Style.Registry) (style : String) : Except Failure (List Builtin) :=
  if registry.contains style then (registry.ruleIds style).mapM own else .ok []

/-- The rules of a check: the project's own in order, then those of the style. -/
def listed (registry : Style.Registry) (style : String) (extra : List Candidate) :
    Except Failure (List Rule) := do
  let wrapped ← extra.mapM Candidate.guard
  let own ← ownOf registry style
  return wrapped.map .guarded ++ own.map .builtin

theorem guardAll_eq (extra : List Candidate) :
    guardAll extra = (extra.mapM Candidate.guard).map (·.map .guarded) := by
  induction extra with
  | nil => rfl
  | cons candidate extra ih =>
      rw [guardAll, List.mapM_cons, ih]
      cases candidate.guard with
      | error failure => rfl
      | ok rule => cases extra.mapM Candidate.guard <;> rfl

theorem builtins_eq (ids : List String) :
    builtins ids = (ids.mapM own).map (·.map .builtin) := by
  induction ids with
  | nil => rfl
  | cons id ids ih =>
      rw [builtins, List.mapM_cons, ih, own]
      cases Builtin.ofId? id with
      | none => rfl
      | some rule => cases ids.mapM own <;> rfl

theorem select_eq (registry : Style.Registry) (style : String) (extra : List Candidate) :
    select registry style extra =
      (listed registry style extra).map (⟨·, registry.contains style⟩) := by
  rw [select, listed, ownOf, guardAll_eq, builtins_eq]
  cases extra.mapM Candidate.guard with
  | error failure => rfl
  | ok wrapped =>
      cases registry.contains style with
      | false => simp [Except.map, bind, Except.bind, pure, Except.pure]
      | true => cases (registry.ruleIds style).mapM own <;> rfl

theorem parts_of_guard {candidate : Candidate} {rule : Guarded} (h : candidate.guard = .ok rule) :
    ∃ parts, candidate.parts = some parts ∧ parts.behaviour = some rule.behaviour := by
  unfold Candidate.guard at h
  split at h
  · cases h
  · rename_i parts hparts
    split at h
    · cases h
    · rename_i behaviour hbehaviour
      obtain rfl := Except.ok.inj h
      exact ⟨parts, hparts, hbehaviour⟩

/-- What is true of built-in rules and of all rules behind the guard is true of the rules of a check. -/
theorem listed_all {P : Rule → Prop} {registry : Style.Registry} {style : String}
    {extra : List Candidate} (builtin : ∀ rule, P (.builtin rule))
    (guarded : ∀ candidate ∈ extra, ∀ rule, candidate.guard = .ok rule → P (.guarded rule))
    {rules : List Rule} (h : listed registry style extra = .ok rules) : ∀ rule ∈ rules, P rule := by
  obtain ⟨wrapped, hwrapped, h⟩ := bind_eq_ok.1 h
  obtain ⟨own, -, h⟩ := bind_eq_ok.1 h
  obtain rfl := Except.ok.inj h
  intro rule mem
  rcases List.mem_append.1 mem with mem | mem
  · obtain ⟨inner, hinner, rfl⟩ := List.mem_map.1 mem
    obtain ⟨candidate, hcandidate, hguard⟩ := exists_of_mem_mapM hwrapped hinner
    exact guarded candidate hcandidate inner hguard
  · obtain ⟨inner, -, rfl⟩ := List.mem_map.1 mem
    exact builtin inner

theorem listed_isPure {registry : Style.Registry} {style : String} {extra : List Candidate}
    (pure : ∀ candidate ∈ extra, candidate.IsPure) {rules : List Rule}
    (h : listed registry style extra = .ok rules) : ∀ rule ∈ rules, rule.IsPure := by
  refine listed_all (fun _ => trivial) (fun candidate mem rule hguard => ?_) h
  obtain ⟨parts, hparts, hbehaviour⟩ := parts_of_guard hguard
  exact pure candidate mem parts _ hparts hbehaviour

theorem builtin_of_listed {registry : Style.Registry} {style : String} {rules : List Rule}
    (h : listed registry style [] = .ok rules) {rule : Rule} (mem : rule ∈ rules) :
    ∃ inner, rule = .builtin inner :=
  listed_all (P := fun rule => ∃ inner, rule = .builtin inner) (fun inner => ⟨inner, rfl⟩)
    (List.forall_mem_nil _) h rule mem

end Rule

namespace Check

variable {base : Session} {plan : Plan}

/-! ## Rule by rule -/

def filesOf (base : Session) (plan : Plan) (rule : Rule) : Except Failure (List Location) :=
  Scan.found base.tree base.folder plan.options ⟨"/", plan.root⟩ rule.appliesTo

def rowsOf (base : Session) (plan : Plan) (rules : List Rule) :
    Except Failure (List (Rule × List Location)) :=
  rules.mapM fun rule => (filesOf base plan rule).map (rule, ·)

def filesIn (rows : List (Rule × List Location)) : List Location := rows.flatMap (·.2)

def unitsOf (rows : List (Rule × List Location)) : List (Rule × Location) :=
  rows.flatMap fun (rule, files) => files.map (rule, ·)

/-- The violations of every rule, file by file. -/
def bucketsOf (tree : FileTree) (limit : Int) (rows : List (Rule × List Location)) :
    List (List Violation) :=
  rows.map fun (rule, files) => files.flatMap (unitOf tree limit rule)

/-- No file of a rule is a log file that is written to. -/
def Undisturbed (base : Session) (plan : Plan) (rules : List Rule) : Prop :=
  ∀ rule ∈ rules, ∀ files, filesOf base plan rule = .ok files → ∀ file ∈ files, base.Apart file

theorem scan_gives (wf : base.tree.WellFormed) (rule : Rule) :
    Run.Gives base plan.watch (scan plan rule) (filesOf base plan rule) [] :=
  Scan.files_gives wf _ _ _

theorem rowsOf_nil : rowsOf base plan [] = .ok [] := rfl

theorem rowsOf_cons (rule : Rule) (rules : List Rule) :
    rowsOf base plan (rule :: rules) =
      filesOf base plan rule >>= fun files =>
        rowsOf base plan rules >>= fun more => .ok ((rule, files) :: more) := by
  unfold rowsOf
  rw [List.mapM_cons]
  cases filesOf base plan rule <;> rfl

theorem mem_rowsOf {rules : List Rule} {rows : List (Rule × List Location)}
    (h : rowsOf base plan rules = .ok rows) {rule : Rule} {files : List Location}
    (mem : (rule, files) ∈ rows) : rule ∈ rules ∧ filesOf base plan rule = .ok files := by
  obtain ⟨other, hother, same⟩ := exists_of_mem_mapM h mem
  cases found : filesOf base plan other with
  | error failure =>
      rw [found] at same
      cases same
  | ok files' =>
      rw [found] at same
      cases same
      exact ⟨hother, found⟩

theorem Undisturbed.tail {rule : Rule} {rules : List Rule}
    (h : Undisturbed base plan (rule :: rules)) : Undisturbed base plan rules :=
  fun other mem => h other (by simp [mem])

theorem isFile_of_filesOf (wf : base.tree.WellFormed) {rule : Rule} {files : List Location}
    (h : filesOf base plan rule = .ok files) :
    ∀ file ∈ files, base.tree.isFile file = true :=
  fun _ mem => Scan.isFile_of_found wf h mem

theorem runInTurn_gives (wf : base.tree.WellFormed) {rules : List Rule}
    (harmless : ∀ rule ∈ rules, rule.IsHarmless) (undisturbed : Undisturbed base plan rules)
    {rows : List (Rule × List Location)} (hrows : rowsOf base plan rules = .ok rows)
    (seen : List Location) :
    Run.Gives base plan.watch (runInTurn plan (cacheOf base.tree plan.limit seen) rules)
      (.ok (bucketsOf base.tree plan.limit rows,
        cacheOf base.tree plan.limit (seen ++ unseen seen (filesIn rows))))
      (unseen seen (filesIn rows)) := by
  induction rules generalizing rows seen with
  | nil =>
      obtain rfl := Except.ok.inj (rowsOf_nil.symm.trans hrows)
      rw [show filesIn [] = [] from rfl, unseen, List.append_nil]
      exact .pure _
  | cons rule rules ih =>
      rw [rowsOf_cons, bind_eq_ok] at hrows
      obtain ⟨files, hfiles, hrows⟩ := hrows
      obtain ⟨more, hmore, hrows⟩ := bind_eq_ok.1 hrows
      obtain rfl := Except.ok.inj hrows
      have rest := ih (fun other mem => harmless other (by simp [mem])) undisturbed.tail hmore
        (seen ++ unseen seen files)
      rw [List.append_assoc] at rest
      rw [show filesIn ((rule, files) :: more) = files ++ filesIn more from rfl, unseen_append]
      refine Run.Gives.check.skip_bind ?_
      refine ((scan_gives wf rule).of_eq hfiles rfl).skip_bind ?_
      refine (evaluateAll_gives (harmless rule (by simp)) (isFile_of_filesOf wf hfiles)
        (undisturbed rule (by simp) files hfiles) seen).bind ?_
      refine (Run.Gives.note ..).skip_bind ?_
      exact rest.bind_skip (.pure _)

/-- The first scan that fails makes the check fail. -/
theorem runInTurn_error (wf : base.tree.WellFormed) {rules : List Rule}
    (harmless : ∀ rule ∈ rules, rule.IsHarmless) (undisturbed : Undisturbed base plan rules)
    {failure : Failure} (hrows : rowsOf base plan rules = .error failure) (seen : List Location) :
    Run.Gives base plan.watch (runInTurn plan (cacheOf base.tree plan.limit seen) rules)
      (.error failure) [] := by
  induction rules generalizing seen with
  | nil => cases rowsOf_nil.symm.trans hrows
  | cons rule rules ih =>
      refine Run.Gives.check.skip_bind ?_
      rw [rowsOf_cons, bind_eq_error] at hrows
      rcases hrows with hfiles | ⟨files, hfiles, hrows⟩
      · exact ((scan_gives wf rule).of_eq hfiles rfl).bind_error []
      · have hmore : rowsOf base plan rules = .error failure :=
          (bind_eq_error.1 hrows).resolve_right fun ⟨_, _, h⟩ => nomatch h
        have rest := ih (fun other mem => harmless other (by simp [mem])) undisturbed.tail hmore
          (seen ++ unseen seen files)
        refine ((scan_gives wf rule).of_eq hfiles rfl).skip_bind ?_
        refine (evaluateAll_gives (harmless rule (by simp)) (isFile_of_filesOf wf hfiles)
          (undisturbed rule (by simp) files hfiles) seen).bind_fails ?_
        exact (Run.Gives.note ..).skip_bind (rest.bind_error [])

/-- What rules give, and the files whose imports are in the cache then. -/
def resultOf (tree : FileTree) (limit : Int) (rows : List (Rule × List Location)) :
    List (List Violation) × Cache :=
  (bucketsOf tree limit rows, cacheOf tree limit (filesIn rows).eraseDups)

def readsOf (rows : Except Failure (List (Rule × List Location))) : List Location :=
  match rows with
  | .ok rows => (filesIn rows).eraseDups
  | .error _ => []

theorem runInTurn_all (wf : base.tree.WellFormed) {rules : List Rule}
    (harmless : ∀ rule ∈ rules, rule.IsHarmless) (undisturbed : Undisturbed base plan rules) :
    Run.Gives base plan.watch (runInTurn plan [] rules)
      ((rowsOf base plan rules).map (resultOf base.tree plan.limit))
      (readsOf (rowsOf base plan rules)) := by
  cases hrows : rowsOf base plan rules with
  | error failure => exact runInTurn_error wf harmless undisturbed hrows []
  | ok rows =>
      have gives := runInTurn_gives wf harmless undisturbed hrows []
      rw [unseen_nil, List.nil_append] at gives
      exact gives

/-! ## The whole check -/

/-- After how many seconds a check is given up, if ever. -/
def limitOf (timeout : Value) : Except Failure (Option Float) :=
  match timeout.number? with
  | none => .error .wrongKind
  | some n => if n.above 0 then (seconds n).map some else .ok none

def planOf (settings : Settings) (registry : Style.Registry) (request : Request)
    (session : Session) : Except Failure Plan := do
  let root ← Scan.findRoot session.tree session.folder request.root
  let rules ← Rule.listed registry request.style request.extra
  let _ ← limitOf settings.timeout
  let excludes ← compileExcludes settings.excludePatterns
  let limit ← settings.maxBytes
  return ⟨root, rules, ⟨settings.followLinks.isTrue, settings.allowHidden.isTrue, excludes⟩, limit,
    .off⟩

def reportOf (request : Request) (plan : Plan) (tree : FileTree)
    (rows : List (Rule × List Location)) : Report where
  root := ⟨"/", plan.root⟩
  style := request.style
  violations := rows.flatMap fun (rule, files) => files.flatMap fun file =>
    rule.verdict (Location.text file) (importsAt tree plan.limit file)
  rulesRun := plan.rules.map Rule.id
  filesScanned := (filesIn rows).eraseDups.length

/-- A check without a cache: its report, and the files that it reads. -/
def plain (settings : Settings) (registry : Style.Registry) (request : Request)
    (session : Session) : Except Failure (Report × List Location) := do
  let plan ← planOf settings registry request session
  let rows ← rowsOf session plan plan.rules
  return (reportOf request plan session.tree rows, (filesIn rows).eraseDups)

theorem selectRules_gives {watch : Watch} (registry : Style.Registry) (style : String)
    (extra : List Rule.Candidate) :
    Run.Gives base watch (selectRules registry style extra) (Rule.listed registry style extra) [] := by
  unfold selectRules
  rw [Rule.select_eq]
  cases Rule.listed registry style extra with
  | error failure => exact (Run.Gives.throw failure []).bind_error []
  | ok rules =>
      refine (Run.Gives.pure _).skip_bind ?_
      cases registry.contains style with
      | false => exact (Run.Gives.note ..).skip_bind (.pure _)
      | true => exact .pure _

/-- A watch that can stop the check for the same reasons as the watch that a check starts. -/
def watchLike (signal : Bool) (timeout : Value) : Watch :=
  ⟨signal, timeout, if limitOf timeout matches .ok none then none else some 0⟩

theorem startWatch_bind {signal : Bool} {timeout : Value} {α : Type} {k : Watch → Run α}
    {result : Except Failure α} {reads : List Location}
    (hk : ∀ limit watch, limitOf timeout = .ok limit →
      (∀ session, watch.Quiet session ↔ (watchLike signal timeout).Quiet session) →
      Run.Gives base (watchLike signal timeout) (k watch) result reads) :
    Run.Gives base (watchLike signal timeout) (startWatch signal timeout >>= k)
      (limitOf timeout >>= fun _ => result) reads := by
  have quiet {deadline : Option Float} (h : deadline = none ↔ limitOf timeout = .ok none)
      (session : Session) : Watch.Quiet ⟨signal, timeout, deadline⟩ session ↔
        (watchLike signal timeout).Quiet session := by
    refine and_congr_left fun _ => h.trans ?_
    unfold watchLike
    split <;> simp_all
  unfold startWatch
  cases number : timeout.number? with
  | none =>
      have refused : limitOf timeout = .error .wrongKind := by
        unfold limitOf
        rw [number]
      rw [refused]
      exact (Run.Gives.throw _ []).bind_error reads
  | some n =>
      by_cases above : n.above 0
      · have timed : limitOf timeout = (seconds n).map some := by
          unfold limitOf
          rw [number]
          exact if_pos above
        simp only [above, ↓reduceIte, bind_assoc]
        refine .time_bind fun now => ?_
        cases limit : seconds n with
        | error failure =>
            rw [timed, limit]
            exact (Run.Gives.throw failure []).bind_error reads
        | ok limit' =>
            have some_limit : limitOf timeout = .ok (some limit') := by rw [timed, limit, Except.map]
            rw [some_limit]
            refine (Run.Gives.pure limit').skip_bind ((Run.Gives.pure _).skip_bind (hk _ _ some_limit ?_))
            exact quiet (by simp [some_limit])
      · have never : limitOf timeout = .ok none := by
          unfold limitOf
          rw [number]
          exact if_neg above
        simp only [above, Bool.false_eq_true, ↓reduceIte]
        rw [never]
        exact (Run.Gives.pure _).skip_bind (hk _ _ never (quiet (by simp [never])))

theorem plain_report (settings : Settings) (registry : Style.Registry) (request : Request)
    (session : Session) :
    (plain settings registry request session).map (·.1) =
      planOf settings registry request session >>= fun plan =>
        rowsOf session plan plan.rules >>= fun rows =>
          .ok (reportOf request plan session.tree rows) := by
  unfold plain
  cases planOf settings registry request session with
  | error failure => rfl
  | ok plan =>
      show Except.map _ (rowsOf session plan plan.rules >>= _) =
        rowsOf session plan plan.rules >>= _
      cases rowsOf session plan plan.rules <;> rfl

/-- A check gives what it would give without a cache if its rules do. -/
theorem run_gives_of {settings : Settings} {registry : Style.Registry} {request : Request}
    (rules_give : ∀ plan : Plan,
      planOf settings registry request base = .ok { plan with watch := .off } →
        Run.Gives base plan.watch
          (if settings.parallel then runTogether plan plan.rules else runInTurn plan [] plan.rules)
          ((rowsOf base plan plan.rules).map (resultOf base.tree plan.limit))
          (readsOf (rowsOf base plan plan.rules)))
    (signal : Bool) {reads : List Location}
    (hreads : ∀ report files, plain settings registry request base = .ok (report, files) →
      reads = files) :
    Run.Gives base (watchLike signal settings.timeout) (run settings registry request signal)
      ((plain settings registry request base).map (·.1)) reads := by
  rw [plain_report, planOf]
  simp only [bind_assoc]
  refine .get fun session h => ?_
  rw [Scan.findRoot_agrees h.tree, h.folder]
  refine (Run.Gives.ofExcept _).seq fun root hroot => ?_
  refine (selectRules_gives registry request.style request.extra).seq fun rules hrules => ?_
  refine startWatch_bind fun seconds watch hseconds quiet => ?_
  refine (Run.Gives.ofExcept _).seq fun excludes hexcludes => ?_
  refine (Run.Gives.ofExcept _).seq fun limit hlimit => ?_
  let options : Scan.Options := ⟨settings.followLinks.isTrue, settings.allowHidden.isTrue, excludes⟩
  have hplan : planOf settings registry request base = .ok ⟨root, rules, options, limit, .off⟩ := by
    rw [planOf, hroot, hrules, hseconds, hexcludes, hlimit]
    rfl
  have gives := (rules_give ⟨root, rules, options, limit, watch⟩ hplan).of_quiet_iff quiet
  refine (Run.Gives.note ..).skip_bind (.time_bind fun start => ?_)
  show Run.Gives base _ _ (rowsOf base ⟨root, rules, options, limit, watch⟩ rules >>= _) reads
  cases hrows : rowsOf base ⟨root, rules, options, limit, watch⟩ rules with
  | error failure =>
      rw [hrows] at gives
      cases parallel : settings.parallel <;> rw [parallel] at gives <;> exact gives.bind_error reads
  | ok rows =>
      rw [hrows] at gives
      have plain_eq : plain settings registry request base =
          .ok (reportOf request ⟨root, rules, options, limit, .off⟩ base.tree rows,
            (filesIn rows).eraseDups) := by
        rw [plain, hplan]
        show rowsOf base ⟨root, rules, options, limit, watch⟩ rules >>= _ = _
        rw [hrows]
        rfl
      rw [hreads _ _ plain_eq]
      have counted : (cacheOf base.tree limit (filesIn rows).eraseDups).length =
          (filesIn rows).eraseDups.length := by
        rw [cacheOf, List.length_map]
      cases parallel : settings.parallel <;> rw [parallel] at gives
      all_goals
        refine gives.bind_skip (.time_bind fun finish => ?_)
        refine (Run.Gives.note ..).skip_bind ((Run.Gives.pure _).of_eq ?_ rfl)
        rw [counted]
        rfl

/-- All steps of the preparation succeed, and the plan holds what they return. -/
theorem planOf_cases {settings : Settings} {registry : Style.Registry} {request : Request}
    {session : Session} {plan : Plan} (h : planOf settings registry request session = .ok plan) :
    ∃ root rules seconds excludes limit,
      Scan.findRoot session.tree session.folder request.root = .ok root ∧
      Rule.listed registry request.style request.extra = .ok rules ∧
      limitOf settings.timeout = .ok seconds ∧
      compileExcludes settings.excludePatterns = .ok excludes ∧ settings.maxBytes = .ok limit ∧
      plan = ⟨root, rules, ⟨settings.followLinks.isTrue, settings.allowHidden.isTrue, excludes⟩, limit,
        .off⟩ := by
  obtain ⟨root, hroot, h⟩ := bind_eq_ok.1 h
  obtain ⟨rules, hrules, h⟩ := bind_eq_ok.1 h
  obtain ⟨seconds, hseconds, h⟩ := bind_eq_ok.1 h
  obtain ⟨excludes, hexcludes, h⟩ := bind_eq_ok.1 h
  obtain ⟨limit, hlimit, h⟩ := bind_eq_ok.1 h
  exact ⟨root, rules, seconds, excludes, limit, hroot, hrules, hseconds, hexcludes, hlimit,
    (Except.ok.inj h).symm⟩

theorem listed_of_planOf {settings : Settings} {registry : Style.Registry} {request : Request}
    {session : Session} {plan : Plan} (h : planOf settings registry request session = .ok plan) :
    Rule.listed registry request.style request.extra = .ok plan.rules := by
  obtain ⟨root, rules, seconds, excludes, limit, -, hrules, -, -, -, rfl⟩ := planOf_cases h
  exact hrules

theorem run_gives {settings : Settings} {registry : Style.Registry} {request : Request}
    (wf : base.tree.WellFormed) (inTurn : settings.parallel = false)
    (pure : ∀ candidate ∈ request.extra, candidate.IsPure)
    (undisturbed : ∀ plan, planOf settings registry request base = .ok plan →
      Undisturbed base plan plan.rules) (signal : Bool) {reads : List Location}
    (hreads : ∀ report files, plain settings registry request base = .ok (report, files) →
      reads = files) :
    Run.Gives base (watchLike signal settings.timeout) (run settings registry request signal)
      ((plain settings registry request base).map (·.1)) reads := by
  refine run_gives_of (fun plan hplan => ?_) signal hreads
  have rulesPure := Rule.listed_isPure pure (listed_of_planOf hplan)
  rw [inTurn, if_neg Bool.false_ne_true]
  have apart := undisturbed _ hplan
  change Undisturbed base plan plan.rules at apart
  exact runInTurn_all wf (fun rule mem => (rulesPure rule mem).isHarmless) apart

theorem watchLike_quiet {signal : Bool} {timeout : Value} {session : Session}
    (never : limitOf timeout = .ok none) (calm : signal = true → session.signal = .calm) :
    (watchLike signal timeout).Quiet session := by
  refine ⟨?_, calm⟩
  unfold watchLike
  rw [never]
  rfl

def smallTree : FileTree := ⟨[(["a.ts"], .file [])], []⟩

def smallSettings : Settings :=
  ⟨.int 1, .int 0, .bool false, .bool false, .list [], .int 1, .str "normal"⟩

def smallRule : Rule.Candidate :=
  .made (.str "no-files") (.str "") (.str "*.ts") fun file _ =>
    ⟨[], .findings [.violation ⟨"no-files", file, "a file", .error⟩]⟩

def smallRequest : Request := ⟨⟨"/", []⟩, "flat", [smallRule]⟩

theorem findRoot_smallTree :
    Scan.findRoot smallTree (smallTree.hold []) ⟨"/", []⟩ = .ok [] := by
  simp +decide [Scan.findRoot, FileTree.resolve, FileTree.realPath, FileTree.realPathFrom,
    FileTree.straighten, FileTree.status, FileTree.locate, FileTree.locateFrom, FileTree.get?,
    PathName.isAbsolute]

theorem found_smallTree :
    Scan.found smallTree (smallTree.hold []) ⟨false, false, []⟩ ⟨"/", []⟩ "*.ts" = .ok [["a.ts"]] := by
  obtain ⟨glob, hglob, selects⟩ : ∃ glob, Glob.compile "*.ts" = .ok glob ∧ glob.selects "a.ts" = true :=
    Scan.exists_compile (by decide +kernel)
  have walked : Scan.walk smallTree ⟨false, false, []⟩ glob [] = [⟨[], false, false, ["a.ts"]⟩] := by
    simp +decide [Scan.walk, Scan.walkFrom, smallTree, FileTree.locate, FileTree.locateFrom,
      Scan.selectsOverlong, Scan.selectedNames, Scan.subfolders, FileTree.names, FileTree.nameIn?,
      Scan.selectedFiles, Scan.Options.keepsName, Scan.Options.drops, Scan.relativeText,
      FileTree.isFile, FileTree.isFolder, FileTree.status, FileTree.get?, List.lookup_cons,
      FileTree.maxPathBytes, selects]
  rw [Scan.found_eq findRoot_smallTree hglob, walked]
  simp [Scan.sortPaths, Scan.Visit.paths]

theorem guard_smallRule :
    ∃ rule, smallRule.guard = .ok rule ∧ rule.id = "no-files" ∧ rule.appliesTo = "*.ts" ∧
      ∀ file imports, (Rule.guarded rule).verdict file imports =
        [⟨"no-files", file, "a file", .error⟩] :=
  ⟨_, rfl, rfl, rfl, fun _ _ => rfl⟩

end Check

end LayerLint
