import LayerLint.Proofs.Check.Locality

/-!
# Checks that are stopped

A check that evaluates one file after the other looks at the signal and at the clock before every rule
and before every file. So it stops before the next evaluation once there is a reason, and if nothing
was left to evaluate it returns its whole report (`run_stops`). It never returns a part of one.
-/

namespace LayerLint

/-! ## Reasons to stop -/

/-- Whether the signal is raised for whoever looks at it. -/
def Signal.isSet (signal : Signal) : Bool := signal.poll.1

namespace Watch

/-- There is a reason to stop: the signal is watched and set, or the deadline has passed. -/
def IsDue (watch : Watch) (session : Session) : Prop :=
  (watch.signal && session.signal.isSet) = true ∨
    ∃ deadline, watch.deadline = some deadline ∧ session.clock.now ≥ deadline

/-- The reason, where there is one. -/
def reason (watch : Watch) (session : Session) : String :=
  if watch.signal && session.signal.isSet then "cancelled by caller"
  else "timed out after " ++ watch.timeout.text ++ "s"

variable {watch : Watch} {session : Session}

theorem on_cancelled (watch : Watch) (session : Session) :
    ∃ after, watch.cancelled.on session = (.ok (watch.signal && session.signal.isSet), after) ∧
      after.evaluations = session.evaluations ∧ after.clock = session.clock := by
  unfold cancelled
  cases watch.signal with
  | true => exact ⟨_, rfl, rfl, rfl⟩
  | false => exact ⟨_, rfl, rfl, rfl⟩

theorem on_expired {deadline : Float} (limited : watch.deadline = some deadline)
    (late : session.clock.now ≥ deadline) :
    ∃ after, watch.expired.on session = (.ok true, after) ∧
      after.evaluations = session.evaluations := by
  unfold expired
  rw [limited]
  refine ⟨_, Prod.ext ?_ rfl, rfl⟩
  exact congrArg Except.ok (decide_eq_true late)

/-- A look at a reason to stop stops the check. -/
theorem on_check (due : watch.IsDue session) :
    ∃ after, watch.check.on session = (.error (.cancelled (watch.reason session)), after) ∧
      after.evaluations = session.evaluations := by
  obtain ⟨after, looked, evaluations, clock⟩ := watch.on_cancelled session
  unfold check
  rw [Run.on_bind_ok (congrArg Prod.fst looked), looked]
  by_cases set : (watch.signal && session.signal.isSet) = true
  · refine ⟨after, ?_, evaluations⟩
    rw [reason, set]
    rfl
  · obtain ⟨deadline, limited, late⟩ := due.resolve_left set
    rw [← clock] at late
    obtain ⟨last, expired, same⟩ := on_expired limited late
    refine ⟨last, ?_, same.trans evaluations⟩
    rw [reason, Bool.eq_false_iff.mpr set]
    show (watch.expired >>= _).on after = _
    rw [Run.on_bind_ok (congrArg Prod.fst expired), expired]
    rfl

end Watch

/-! ## Steps that neither evaluate nor look at the signal -/

/-- The session after steps that write to the journal and read the clock. -/
structure Session.Idles (session after : Session) : Prop where
  signal : after.signal = session.signal
  evaluations : after.evaluations = session.evaluations
  within : ∀ base : Session, base.Within session → base.Within after

namespace Session.Idles

variable {session middle after : Session}

theorem refl (session : Session) : session.Idles session :=
  ⟨rfl, rfl, fun _ within => within⟩

theorem trans (first : session.Idles middle) (second : middle.Idles after) : session.Idles after :=
  ⟨second.signal.trans first.signal, second.evaluations.trans first.evaluations,
    fun base within => second.within base (first.within base within)⟩

theorem take (session : Session) (record : Record) : session.Idles (session.take record) :=
  ⟨rfl, session.evaluations_take record, fun _ within => within.take record⟩

theorem time (session : Session) : session.Idles (Run.time.on session).2 :=
  ⟨rfl, rfl, fun _ within => within.of_eq rfl rfl rfl⟩

end Session.Idles

/-! ## Rules that leave files alone -/

namespace Rule

/-- An effect that changes no file. It may let time pass and may ask for the check to be cancelled. -/
def Effect.IsSteady : Effect → Prop
  | .edit change => ∀ tree, change tree = tree
  | _ => True

def Candidate.IsSteady (candidate : Candidate) : Prop :=
  ∀ parts behaviour, candidate.parts = some parts → parts.behaviour = some behaviour →
    ∀ file imports, ∀ effect ∈ (behaviour file imports).effects, effect.IsSteady

theorem within_effects {base session : Session} (within : base.Within session)
    {effects : List Effect} (steady : ∀ effect ∈ effects, effect.IsSteady) :
    base.Within (effects.foldl Session.apply session) := by
  induction effects generalizing session with
  | nil => exact within
  | cons effect effects ih =>
      rw [List.forall_mem_cons] at steady
      rw [List.foldl_cons]
      refine ih ?_ steady.2
      cases effect with
      | edit change => exact within.of_eq (steady.1 session.tree) rfl rfl
      | _ => exact within.of_eq rfl rfl rfl

theorem listed_keeps {registry : Style.Registry} {style : String} {extra : List Candidate}
    (steady : ∀ candidate ∈ extra, candidate.IsSteady) {rules : List Rule}
    (h : listed registry style extra = .ok rules) (base : Session) :
    ∀ rule ∈ rules, rule.Keeps base.Within := by
  refine listed_all (fun _ => trivial) (fun candidate mem rule hguard => ?_) h
  obtain ⟨parts, hparts, hbehaviour⟩ := parts_of_guard hguard
  intro file imports session within
  exact within_effects within (steady candidate mem parts _ hparts hbehaviour file imports)

end Rule

namespace Check

variable {base : Session} {plan : Plan}

open Run (Tells)

/-! ## What was evaluated -/

theorem importsOf_exact {file : Location} (apart : base.Apart file) (limit : Int)
    (seen : List Location) :
    Tells base.Within (importsOf limit (cacheOf base.tree limit seen) file) fun result added =>
      result = (importsAt base.tree limit file,
        cacheOf base.tree limit (seen ++ unseen seen [file])) ∧ added = [] := by
  unfold importsOf
  rw [lookup_cacheOf]
  by_cases mem : file ∈ seen
  · rw [if_pos mem, unseen, if_pos mem, unseen, List.append_nil]
    exact .pure ⟨rfl, rfl⟩
  · rw [if_neg mem, unseen, if_neg mem, unseen]
    refine (readImports_tells (Session.stable_within base) limit file).skip fun imports known => ?_
    rw [eq_of_known apart known]
    refine .pure ⟨?_, rfl⟩
    simp [cacheOf]

/-- A rule that has been asked about files has seen what stood in them from the beginning. -/
theorem evaluateAll_exact {rule : Rule} (keeps : rule.Keeps base.Within) {files : List Location}
    (apart : ∀ file ∈ files, base.Apart file) (seen : List Location) :
    Tells base.Within (evaluateAll plan rule (cacheOf base.tree plan.limit seen) files)
      fun result added =>
        result = (files.flatMap (unitOf base.tree plan.limit rule),
          cacheOf base.tree plan.limit (seen ++ unseen seen files)) ∧
        added = (files.map (rule, ·)).map (evaluationOf base.tree plan.limit) := by
  induction files generalizing seen with
  | nil =>
      rw [unseen, List.append_nil]
      exact .pure ⟨rfl, rfl⟩
  | cons file files ih =>
      rw [List.forall_mem_cons] at apart
      have evaluated : Tells base.Within
          (evaluate plan (cacheOf base.tree plan.limit seen) rule file) fun result added =>
            result = (unitOf base.tree plan.limit rule file,
              cacheOf base.tree plan.limit (seen ++ unseen seen [file])) ∧
            added = [evaluationOf base.tree plan.limit (rule, file)] := by
        refine (Run.check_tells (Session.stable_within base) plan.watch).skip fun _ _ => ?_
        refine (importsOf_exact apart.1 plan.limit seen).skip ?_
        rintro _ rfl
        apply (ask_tells (Session.stable_within base) keeps _ _).bind
        rintro violations _ ⟨rfl, rfl⟩
        exact .pure ⟨rfl, rfl⟩
      apply evaluated.bind
      rintro _ _ ⟨rfl, rfl⟩
      apply (ih apart.2 (seen ++ unseen seen [file])).bind
      rintro _ _ ⟨rfl, rfl⟩
      rw [show unseen seen (file :: files) = _ from unseen_append seen [file] files]
      refine .pure ⟨?_, by simp⟩
      rw [List.append_assoc, List.flatMap_cons]

theorem runInTurn_exact (wf : base.tree.WellFormed) {rules : List Rule}
    (keeps : ∀ rule ∈ rules, rule.Keeps base.Within) (undisturbed : Undisturbed base plan rules)
    (seen : List Location) :
    Tells base.Within (runInTurn plan (cacheOf base.tree plan.limit seen) rules)
      fun result added => ∃ rows, rowsOf base plan rules = .ok rows ∧
        result = (bucketsOf base.tree plan.limit rows,
          cacheOf base.tree plan.limit (seen ++ unseen seen (filesIn rows))) ∧
        added = (unitsOf rows).map (evaluationOf base.tree plan.limit) := by
  induction rules generalizing seen with
  | nil =>
      refine .pure ⟨[], rfl, ?_, rfl⟩
      rw [show filesIn [] = [] from rfl, unseen, List.append_nil]
      rfl
  | cons rule rules ih =>
      rw [List.forall_mem_cons] at keeps
      refine (Run.check_tells (Session.stable_within base) plan.watch).skip fun _ _ => ?_
      refine (scan_tells (Session.stable_within base) rule).skip fun files found => ?_
      have hfiles := filesOf_of_found wf found
      apply (evaluateAll_exact keeps.1 (undisturbed rule (by simp) files hfiles) seen).bind
      rintro _ _ ⟨rfl, rfl⟩
      refine (Run.note_tells (Session.stable_within base) _ _ _).skip fun _ _ => ?_
      apply (ih keeps.2 undisturbed.tail (seen ++ unseen seen files)).bind
      rintro _ _ ⟨rows, hrows, rfl, rfl⟩
      refine .pure ⟨(rule, files) :: rows, ?_, ?_, ?_⟩
      · rw [rowsOf_cons, hfiles, hrows]
        rfl
      · rw [show filesIn ((rule, files) :: rows) = files ++ filesIn rows from rfl, unseen_append,
          List.append_assoc]
        rfl
      · simp [unitsOf]

/-! ## A check in parts -/

theorem evaluateAll_append (plan : Plan) (rule : Rule) (cache : Cache) (files more : List Location) :
    evaluateAll plan rule cache (files ++ more) =
      evaluateAll plan rule cache files >>= fun first =>
        evaluateAll plan rule first.2 more >>= fun second =>
          pure (first.1 ++ second.1, second.2) := by
  induction files generalizing cache with
  | nil => simp [evaluateAll]
  | cons file files ih =>
      simp only [List.cons_append, evaluateAll, ih, bind_assoc, pure_bind, List.append_assoc]

theorem runInTurn_append (plan : Plan) (cache : Cache) (rules more : List Rule) :
    runInTurn plan cache (rules ++ more) =
      runInTurn plan cache rules >>= fun first =>
        runInTurn plan first.2 more >>= fun second =>
          pure (first.1 ++ second.1, second.2) := by
  induction rules generalizing cache with
  | nil => simp [runInTurn]
  | cons rule rules ih =>
      simp only [List.cons_append, runInTurn, ih, bind_assoc, pure_bind]

/-- What a check does before its first rule: the plan, and the time when it starts. -/
def prepare (settings : Settings) (registry : Style.Registry) (request : Request) (signal : Bool) :
    Run (Plan × Float) := do
  let session ← get
  let root ← Run.ofExcept (Scan.findRoot session.tree session.folder request.root)
  let rules ← selectRules registry request.style request.extra
  let watch ← startWatch signal settings.timeout
  let excludes ← Run.ofExcept (compileExcludes settings.excludePatterns)
  let limit ← Run.ofExcept settings.maxBytes
  let options : Scan.Options := ⟨settings.followLinks.isTrue, settings.allowHidden.isTrue, excludes⟩
  Run.note .info source
    ("Checking " ++ Location.text root ++ " as '" ++ request.style ++ "' with "
      ++ toString rules.length ++ " rules ("
      ++ (if settings.parallel then "parallel" else "sequential") ++ ")")
  let start ← Run.time
  return (⟨root, rules, options, limit, watch⟩, start)

/-- What a check does after its last rule. -/
def conclude (request : Request) (plan : Plan) (start : Float)
    (result : List (List Violation) × Cache) : Run Report := do
  let report : Report :=
    { root := ⟨"/", plan.root⟩
      style := request.style
      violations := result.1.flatten
      rulesRun := plan.rules.map Rule.id
      filesScanned := result.2.length }
  let finish ← Run.time
  Run.note .info source
    ("Check complete: " ++ toString report.errors.length ++ " errors, "
      ++ toString report.warnings.length ++ " warnings, " ++ toString report.filesScanned
      ++ " files in " ++ Decimal.twoPlaces (finish - start) ++ "s")
  return report

theorem run_eq {settings : Settings} (inTurn : settings.parallel = false)
    (registry : Style.Registry) (request : Request) (signal : Bool) :
    run settings registry request signal =
      prepare settings registry request signal >>= fun ready =>
        runInTurn ready.1 [] ready.1.rules >>= conclude request ready.1 ready.2 := by
  unfold run prepare conclude
  simp only [inTurn, bind_assoc, pure_bind]
  rfl

theorem selectRules_on (registry : Style.Registry) (style : String) (extra : List Rule.Candidate)
    (session : Session) :
    ∃ after, (selectRules registry style extra).on session =
        (Rule.listed registry style extra, after) ∧ after.clock = session.clock ∧
      session.Idles after := by
  unfold selectRules
  rw [Rule.select_eq]
  cases Rule.listed registry style extra with
  | error failure => exact ⟨session, rfl, rfl, .refl session⟩
  | ok rules =>
      cases known : registry.contains style with
      | false => exact ⟨_, rfl, rfl, .take session _⟩
      | true => exact ⟨session, rfl, rfl, .refl session⟩

/-- The watch of a check that starts when the clock shows `now`. -/
def watchFrom (signal : Bool) (timeout : Value) (now : Float) : Watch where
  signal := signal
  timeout := timeout
  deadline :=
    match limitOf timeout with
    | .ok (some limit) => some (now + limit)
    | _ => none

theorem startWatch_on (signal : Bool) (timeout : Value) (session : Session) :
    ∃ after, (startWatch signal timeout).on session =
        ((limitOf timeout).map fun _ => watchFrom signal timeout session.clock.now, after) ∧
      session.Idles after := by
  unfold startWatch watchFrom limitOf
  cases timeout.number? with
  | none => exact ⟨session, rfl, .refl session⟩
  | some n =>
      dsimp only
      by_cases above : n.above 0
      · rw [if_pos above, if_pos above]
        refine ⟨_, ?_, .time session⟩
        cases seconds n <;> rfl
      · rw [if_neg above, if_neg above]
        exact ⟨session, rfl, .refl session⟩

/-- Before its first rule a check has its plan or fails, and nothing has been evaluated. -/
theorem prepare_on (settings : Settings) (registry : Style.Registry) (request : Request)
    (signal : Bool) (session : Session) :
    ∃ start ready, (prepare settings registry request signal).on session =
        ((planOf settings registry request session).map fun plan =>
          ({ plan with watch := watchFrom signal settings.timeout session.clock.now }, start), ready) ∧
      session.Idles ready := by
  unfold prepare planOf
  rw [Run.on_get_bind]
  cases hroot : Scan.findRoot session.tree session.folder request.root with
  | error failure => exact ⟨0, session, rfl, .refl session⟩
  | ok root =>
      obtain ⟨selected, hselected, clock, idle⟩ :=
        selectRules_on registry request.style request.extra session
      rw [Run.on_bind, Run.on_ofExcept]
      dsimp only
      rw [Run.on_bind, hselected]
      cases Rule.listed registry request.style request.extra with
      | error failure => exact ⟨0, selected, rfl, idle⟩
      | ok rules =>
          obtain ⟨started, hstarted, idle'⟩ := startWatch_on signal settings.timeout selected
          dsimp only
          rw [Run.on_bind, hstarted, clock]
          cases limitOf settings.timeout with
          | error failure => exact ⟨0, started, rfl, idle.trans idle'⟩
          | ok limit =>
              cases compileExcludes settings.excludePatterns with
              | error failure => exact ⟨0, started, rfl, idle.trans idle'⟩
              | ok excludes =>
                  cases settings.maxBytes with
                  | error failure => exact ⟨0, started, rfl, idle.trans idle'⟩
                  | ok bytes =>
                      refine ⟨_, _, rfl, (idle.trans idle').trans ?_⟩
                      exact (Session.Idles.take _ _).trans (Session.Idles.time _)

theorem conclude_on (request : Request) (plan : Plan) (start : Float)
    (result : List (List Violation) × Cache) (session : Session) :
    ∃ after, (conclude request plan start result).on session =
        (.ok ⟨⟨"/", plan.root⟩, request.style, result.1.flatten, plan.rules.map Rule.id,
          result.2.length⟩, after) ∧ session.Idles after :=
  ⟨_, rfl, (Session.Idles.time session).trans (.take _ _)⟩

/-! ## The moment after an evaluation -/

/-- A check until `rule` has been asked about the last of `files`, after all files of the rules
`before`. -/
def runUntil (settings : Settings) (registry : Style.Registry) (request : Request) (signal : Bool)
    (before : List Rule) (rule : Rule) (files : List Location) : Run Unit := do
  let ready ← prepare settings registry request signal
  let earlier ← runInTurn ready.1 [] before
  ready.1.watch.check
  let _ ← scan ready.1 rule
  let _ ← evaluateAll ready.1 rule earlier.2 files
  return

/-- The rest of the rules of a check, when the files `rest` of `rule` and the rules `after` are
left. -/
def resume (plan : Plan) (earlier : List (List Violation)) (rule : Rule)
    (sofar : List Violation × Cache) (rest : List Location) (after : List Rule) :
    Run (List (List Violation) × Cache) := do
  let more ← evaluateAll plan rule sofar.2 rest
  Run.note .debug source
    (rule.id ++ ": " ++ toString (sofar.1 ++ more.1).length ++ " violations")
  let others ← runInTurn plan more.2 after
  return (earlier ++ (sofar.1 ++ more.1) :: others.1, others.2)

theorem runInTurn_resumes {before : List Rule} (after : List Rule) {rule : Rule}
    {files rest : List Location} {ready s₁ s₂ s₃ paused : Session}
    {earlier : List (List Violation) × Cache} {sofar : List Violation × Cache}
    (first : (runInTurn plan [] before).on ready = (.ok earlier, s₁))
    (looked : plan.watch.check.on s₁ = (.ok (), s₂))
    (scanned : (scan plan rule).on s₂ = (.ok (files ++ rest), s₃))
    (asked : (evaluateAll plan rule earlier.2 files).on s₃ = (.ok sofar, paused)) :
    (runInTurn plan [] (before ++ rule :: after)).on ready =
      (resume plan earlier.1 rule sofar rest after).on paused := by
  rw [runInTurn_append, Run.on_bind_of first, runInTurn, bind_assoc, Run.on_bind_of looked, bind_assoc,
    Run.on_bind_of scanned, evaluateAll_append]
  simp only [bind_assoc, pure_bind]
  rw [Run.on_bind_of asked]
  rfl

/-- Where something is left and there is a reason to stop, nothing more is evaluated. -/
theorem resume_due (plan : Plan) {paused : Session} (due : plan.watch.IsDue paused)
    (earlier : List (List Violation)) (rule : Rule) (sofar : List Violation × Cache)
    {rest : List Location} {after : List Rule} (left : ¬ (rest = [] ∧ after = [])) :
    ∃ final, (resume plan earlier rule sofar rest after).on paused =
        (.error (.cancelled (plan.watch.reason paused)), final) ∧
      final.evaluations = paused.evaluations := by
  unfold resume
  cases rest with
  | cons file rest =>
      obtain ⟨final, looked, same⟩ := Watch.on_check due
      refine ⟨final, ?_, same⟩
      rw [evaluateAll, evaluate, bind_assoc, bind_assoc, Run.on_bind, looked]
  | nil =>
      cases after with
      | nil => exact absurd ⟨rfl, rfl⟩ left
      | cons next after =>
          rw [evaluateAll, pure_bind, Run.on_note_bind]
          -- A note changes neither the signal nor the clock.
          have noted (record : Record) : plan.watch.IsDue (paused.take record) := due
          obtain ⟨final, looked, same⟩ := Watch.on_check (noted _)
          refine ⟨final, ?_, same⟩
          rw [runInTurn, bind_assoc, Run.on_bind, looked]
          rfl

theorem runUntil_spec {settings : Settings} {registry : Style.Registry} {request : Request}
    {signal : Bool} {session paused : Session} (wf : session.tree.WellFormed)
    (inTurn : settings.parallel = false)
    (steady : ∀ candidate ∈ request.extra, candidate.IsSteady)
    (hplan : planOf settings registry request session = .ok plan)
    (undisturbed : Undisturbed session plan plan.rules)
    {before after : List Rule} {rule : Rule} (rules : plan.rules = before ++ rule :: after)
    {files rest : List Location} (found : filesOf session plan rule = .ok (files ++ rest))
    (reached : (runUntil settings registry request signal before rule files).on session =
      (.ok (), paused)) :
    ∃ rows start, rowsOf session plan before = .ok rows ∧
      paused.evaluations = session.evaluations ++
        (unitsOf (rows ++ [(rule, files)])).map (evaluationOf session.tree plan.limit) ∧
      (run settings registry request signal).on session =
        (resume { plan with watch := watchFrom signal settings.timeout session.clock.now }
          (bucketsOf session.tree plan.limit rows) rule
          (files.flatMap (unitOf session.tree plan.limit rule),
            cacheOf session.tree plan.limit (unseen [] (filesIn (rows ++ [(rule, files)])))) rest after
          >>= conclude request plan start).on paused := by
  obtain ⟨start, ready, prepared, idle⟩ := prepare_on settings registry request signal session
  rw [hplan] at prepared
  let plan' : Plan := { plan with watch := watchFrom signal settings.timeout session.clock.now }
  rw [runUntil, Run.on_bind_of prepared] at reached
  obtain ⟨earlier, s₁, first, reached⟩ := Run.on_bind_cases reached
  obtain ⟨_, s₂, looked, reached⟩ := Run.on_bind_cases reached
  obtain ⟨scannedFiles, s₃, scanned, reached⟩ := Run.on_bind_cases reached
  obtain ⟨sofar, s₄, asked, reached⟩ := Run.on_bind_cases reached
  obtain rfl : s₄ = paused := congrArg Prod.snd reached
  have keeps := Rule.listed_keeps steady (listed_of_planOf hplan) session
  rw [rules, List.forall_mem_append, List.forall_mem_cons] at keeps
  have stable := Session.stable_within session
  -- Step by step, from the session after the preparation to the one after the last evaluation.
  have apart₁ : Undisturbed session plan' before := fun other mem =>
    undisturbed other (by simp [rules, mem])
  obtain ⟨in₁, _, evaluated₁, rows, hrows, rfl, rfl⟩ :=
    (runInTurn_exact wf keeps.1 apart₁ []).after (idle.within session (.refl wf)) first
  obtain ⟨in₂, _, evaluated₂, -, rfl⟩ := (Run.check_tells stable plan'.watch).after in₁ looked
  obtain ⟨in₃, _, evaluated₃, selected, rfl⟩ := (scan_tells stable rule).after in₂ scanned
  obtain rfl : scannedFiles = files ++ rest :=
    Except.ok.inj ((filesOf_of_found wf selected).symm.trans found)
  have apart₂ : ∀ file ∈ files, session.Apart file := fun file mem =>
    undisturbed rule (by simp [rules]) _ found file (by simp [mem])
  obtain ⟨-, _, evaluated₄, rfl, rfl⟩ := (evaluateAll_exact keeps.2.1 apart₂ _).after in₃ asked
  refine ⟨rows, start, hrows, ?_, ?_⟩
  · rw [evaluated₄, evaluated₃, evaluated₂, evaluated₁, idle.evaluations]
    simp [unitsOf, plan']
  · have resumed := runInTurn_resumes after first looked scanned asked
    rw [← rules] at resumed
    have cached : unseen [] (filesIn (rows ++ [(rule, files)])) =
        [] ++ unseen [] (filesIn rows) ++ unseen ([] ++ unseen [] (filesIn rows)) files := by
      simp [filesIn, unseen_append]
    rw [run_eq inTurn, Run.on_bind_of prepared, Run.on_bind, resumed, ← Run.on_bind, cached]
    rfl

theorem resume_done (plan : Plan) (earlier : List (List Violation)) (rule : Rule)
    (sofar : List Violation × Cache) (paused : Session) :
    ∃ final, (resume plan earlier rule sofar [] []).on paused =
        (.ok (earlier ++ [sofar.1], sofar.2), final) ∧ paused.Idles final := by
  rw [resume, evaluateAll, pure_bind, Run.on_note_bind, runInTurn, pure_bind, List.append_nil]
  exact ⟨_, rfl, .take paused _⟩

theorem reportOf_cached (request : Request) (plan : Plan) (tree : FileTree)
    (rows : List (Rule × List Location)) :
    reportOf request plan tree rows =
      ⟨⟨"/", plan.root⟩, request.style, (bucketsOf tree plan.limit rows).flatten,
        plan.rules.map Rule.id, (cacheOf tree plan.limit (unseen [] (filesIn rows))).length⟩ := by
  rw [unseen_nil, cacheOf, List.length_map]
  rfl

/-- A check that finds the signal set fails before its first evaluation, unless it has no rules. -/
theorem run_of_isSet {settings : Settings} {session : Session} (inTurn : settings.parallel = false)
    (registry : Style.Registry) (request : Request) (set : session.signal.isSet = true) :
    ((run settings registry request true).on session).2.evaluations = session.evaluations ∧
      ((run settings registry request true).on session).1 =
        planOf settings registry request session >>= fun plan =>
          if plan.rules = [] then .ok (reportOf request plan session.tree [])
          else .error (.cancelled "cancelled by caller") := by
  obtain ⟨start, ready, prepared, idle⟩ := prepare_on settings registry request true session
  rw [run_eq inTurn]
  cases hplan : planOf settings registry request session with
  | error failure =>
      rw [hplan] at prepared
      rw [Run.on_bind, prepared]
      exact ⟨idle.evaluations, rfl⟩
  | ok plan =>
      rw [hplan] at prepared
      rw [Run.on_bind_of prepared]
      obtain ⟨root, rules, options, limit, watch⟩ := plan
      cases rules with
      | nil => exact ⟨idle.evaluations, rfl⟩
      | cons rule rules =>
          have found : ready.signal.isSet = true := by rw [idle.signal, set]
          let watch := watchFrom true settings.timeout session.clock.now
          have due : watch.IsDue ready := .inl found
          obtain ⟨final, looked, same⟩ := Watch.on_check due
          have reason : watch.reason ready = "cancelled by caller" := by
            rw [Watch.reason, show (watch.signal && ready.signal.isSet) = true from found]
            rfl
          rw [reason] at looked
          rw [runInTurn, bind_assoc, Run.on_bind, looked]
          exact ⟨same.trans idle.evaluations, rfl⟩

/-- A check that evaluates one file after the other. As soon as the signal is set or the deadline has
passed while a rule is asked about a file, no rule is asked any more. -/
theorem run_stops (settings : Settings) (registry : Style.Registry) (request : Request)
    (session : Session) (inTurn : settings.parallel = false) :
    (∀ (signal : Bool) (plan : Plan) (before after : List Rule) (rule : Rule)
        (done rest : List Location) (file : Location) (paused : Session),
      session.tree.WellFormed →
      (∀ candidate ∈ request.extra, candidate.IsSteady) →
      planOf settings registry request session = .ok plan →
      Undisturbed session plan plan.rules →
      plan.rules = before ++ rule :: after →
      filesOf session plan rule = .ok (done ++ file :: rest) →
      (runUntil settings registry request signal before rule (done ++ [file])).on session =
        (.ok (), paused) →
      (watchFrom signal settings.timeout session.clock.now).IsDue paused →
      ∃ rows, rowsOf session plan before = .ok rows ∧
        ((run settings registry request signal).on session).2.evaluations = session.evaluations ++
          (unitsOf (rows ++ [(rule, done ++ [file])])).map (evaluationOf session.tree plan.limit) ∧
        (¬ (rest = [] ∧ after = []) →
          ((run settings registry request signal).on session).1 = .error (.cancelled
            (if signal && paused.signal.isSet then "cancelled by caller"
             else "timed out after " ++ settings.timeout.text ++ "s"))) ∧
        (rest = [] ∧ after = [] →
          rowsOf session plan plan.rules = .ok (rows ++ [(rule, done ++ [file])]) ∧
          ((run settings registry request signal).on session).1 =
            .ok (reportOf request plan session.tree (rows ++ [(rule, done ++ [file])])))) ∧
    (session.signal.isSet = true →
      ((run settings registry request true).on session).2.evaluations = session.evaluations ∧
      ((run settings registry request true).on session).1 =
        planOf settings registry request session >>= fun plan =>
          if plan.rules = [] then .ok (reportOf request plan session.tree [])
          else .error (.cancelled "cancelled by caller")) := by
  refine ⟨?_, run_of_isSet inTurn registry request⟩
  intro signal plan before after rule done rest file paused wf steady hplan undisturbed rules found
    reached due
  rw [List.append_cons] at found
  obtain ⟨rows, start, hrows, evaluated, ran⟩ :=
    runUntil_spec wf inTurn steady hplan undisturbed rules found reached
  rw [ran]
  refine ⟨rows, hrows, ?_⟩
  by_cases last : rest = [] ∧ after = []
  · obtain ⟨rfl, rfl⟩ := last
    obtain ⟨middle, resumed, idle⟩ := resume_done _ _ rule _ paused
    rw [Run.on_bind_of resumed]
    obtain ⟨final, concluded, idle'⟩ := conclude_on request plan start _ middle
    rw [concluded]
    refine ⟨?_, fun more => absurd ⟨rfl, rfl⟩ more, fun _ => ⟨?_, ?_⟩⟩
    · rw [(idle.trans idle').evaluations, evaluated]
    · rw [rules, rowsOf_append, hrows, rowsOf_cons, found, List.append_nil]
      rfl
    · rw [reportOf_cached]
      simp [bucketsOf]
  · obtain ⟨final, resumed, same⟩ := resume_due
      { plan with watch := watchFrom signal settings.timeout session.clock.now } due _ rule _ last
    rw [Run.on_bind, resumed]
    exact ⟨same.trans evaluated, fun _ => rfl, fun none => absurd none last⟩

/-- A rule that asks for the check to be cancelled whenever it is asked about a file. -/
def stopRule : Rule.Candidate :=
  .made (.str "stop") (.str "") (.str "*.ts") fun _ _ => ⟨[.cancel], .findings []⟩

def stopGuarded : Rule.Guarded :=
  ⟨"stop", "", "*.ts", fun _ _ => ⟨[.cancel], .findings []⟩, stopRule.shown⟩

def stopRequest : Request := ⟨⟨"/", []⟩, "flat", [stopRule]⟩

def stopPlan : Plan := ⟨[], [.guarded stopGuarded], ⟨false, false, []⟩, 1048576, .off⟩

theorem planOf_stopRequest {session : Session}
    (hroot : Scan.findRoot session.tree session.folder ⟨"/", []⟩ = .ok []) :
    planOf smallSettings ⟨[], []⟩ stopRequest session = .ok stopPlan := by
  rw [planOf, show Scan.findRoot session.tree session.folder stopRequest.root = .ok [] from hroot]
  rfl

theorem steady_stopRequest : ∀ candidate ∈ stopRequest.extra, candidate.IsSteady := by
  intro candidate mem parts behaviour hparts hbehaviour file imports effect inEffects
  obtain rfl := List.mem_singleton.1 mem
  obtain rfl := Option.some.inj hparts
  obtain rfl := Option.some.inj hbehaviour
  obtain rfl := List.mem_singleton.1 inEffects
  trivial

theorem ask_stopGuarded (file : String) (imports : List String) (session : Session) :
    ∃ after, (ask (.guarded stopGuarded) file imports).on session = (.ok [], after) ∧
      after.signal.isSet = true :=
  ⟨_, rfl, rfl⟩

/-- The rule is asked about the first file, and the signal is set then. -/
theorem runUntil_pairTree :
    ∃ paused, (runUntil smallSettings ⟨[], []⟩ stopRequest true [] (.guarded stopGuarded)
        [["a.ts"]]).on (.ofTree pairTree) = (.ok (), paused) ∧ paused.signal.isSet = true := by
  let session := Session.ofTree pairTree
  have wf : session.tree.WellFormed := differ_pairTree.otherProject.wellFormed
  obtain ⟨start, ready, prepared, idle⟩ := prepare_on smallSettings ⟨[], []⟩ stopRequest true session
  rw [planOf_stopRequest findRoot_pairTree] at prepared
  let plan : Plan :=
    { stopPlan with watch := watchFrom true smallSettings.timeout session.clock.now }
  have quiet : plan.watch.Quiet ready := ⟨rfl, fun _ => idle.signal⟩
  have found : filesOf session plan (.guarded stopGuarded) = .ok [["a.ts"], ["b.ts"]] := found_pairTree
  obtain ⟨s₁, looked₁, in₁, quiet₁⟩ :=
    Run.Gives.check.runs (idle.within session (.refl wf)) quiet
  obtain ⟨s₂, scanned, in₂, quiet₂⟩ :=
    ((scan_gives wf _).of_eq found rfl).runs in₁ quiet₁
  obtain ⟨s₃, looked₂, in₃, quiet₃⟩ := Run.Gives.check.runs in₂ quiet₂
  have isFile : session.tree.isFile ["a.ts"] = true := isFile_of_filesOf wf found _ (by simp)
  obtain ⟨s₄, read, -, -⟩ :=
    (importsOf_gives isFile (.ofTree pairTree ["a.ts"]) plan.limit []).runs in₃ quiet₃
  let imports := importsAt session.tree plan.limit ["a.ts"]
  obtain ⟨paused, asked, set⟩ := ask_stopGuarded (Location.text ["a.ts"]) imports s₄
  have evaluated : (evaluate plan [] (.guarded stopGuarded) ["a.ts"]).on s₂ =
      (.ok ([], [(["a.ts"], imports)]), paused) := by
    rw [evaluate, Run.on_bind_of looked₂]
    show (importsOf plan.limit (cacheOf session.tree plan.limit []) ["a.ts"] >>= _).on s₃ = _
    rw [Run.on_bind_of read]
    show (ask (.guarded stopGuarded) (Location.text ["a.ts"]) imports >>= _).on s₄ = _
    rw [Run.on_bind_of asked]
    rfl
  refine ⟨paused, ?_, set⟩
  rw [runUntil, Run.on_bind_of prepared, runInTurn, pure_bind, Run.on_bind_of looked₁, Run.on_bind_of scanned,
    evaluateAll, bind_assoc, Run.on_bind_of evaluated]
  rfl

theorem run_stops_pairTree :
    (∃ after, (run smallSettings ⟨[], []⟩ stopRequest true).on (.ofTree pairTree) =
        (.error (.cancelled "cancelled by caller"), after) ∧
      after.evaluations.map (·.file) = ["/a.ts"]) ∧
    ∃ after, (run smallSettings ⟨[], []⟩ stopRequest true).on
        { Session.ofTree pairTree with signal := ⟨true, none⟩ } =
        (.error (.cancelled "cancelled by caller"), after) ∧ after.evaluations = [] := by
  let session := Session.ofTree pairTree
  have wf : session.tree.WellFormed := differ_pairTree.otherProject.wellFormed
  constructor
  · obtain ⟨paused, reached, set⟩ := runUntil_pairTree
    have due : (watchFrom true smallSettings.timeout session.clock.now).IsDue paused := .inl set
    obtain ⟨rows, hrows, evaluated, stopped, -⟩ :=
      (run_stops smallSettings ⟨[], []⟩ stopRequest session rfl).1 true stopPlan [] []
        (.guarded stopGuarded) [] [["b.ts"]] ["a.ts"] paused wf steady_stopRequest
        (planOf_stopRequest findRoot_pairTree) (fun _ _ _ _ _ _ => .ofTree _ _) rfl found_pairTree
        reached due
    obtain rfl := Except.ok.inj (rowsOf_nil.symm.trans hrows)
    refine ⟨_, Prod.ext ((stopped (by simp)).trans ?_) rfl, ?_⟩
    · rw [set]
      rfl
    · rw [evaluated]
      rfl
  · obtain ⟨evaluated, stopped⟩ := (run_stops smallSettings ⟨[], []⟩ stopRequest
      { session with signal := ⟨true, none⟩ } rfl).2 rfl
    rw [planOf_stopRequest findRoot_pairTree] at stopped
    exact ⟨_, Prod.ext stopped rfl, evaluated⟩

end Check

end LayerLint
