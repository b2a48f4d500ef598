import LayerLint.Proofs.Check.InTurn

/-!
# Jobs

The scans and the units of a check, cut into the steps between which other threads may run. What a job
shares with the others is the session and the cache. `Meets` says that a job ends with a given result
after a bounded number of its steps, whatever the others do in between, unless the check is cancelled.
Run without interruption, jobs do what `scan` and `evaluate` do (`whole_scanJob`, `whole_unitJob`).
-/

namespace LayerLint.Check

/-- What the threads of a check share. -/
structure Shared where
  session : Session
  cache : Cache

/-- A computation that may be interrupted between its steps. -/
inductive Job (α : Type) where
  | done (result : Except Failure α)
  /-- A step: what it does to what is shared, and how the job goes on after it. -/
  | more (change : Shared → Shared) (next : Shared → Job α)

namespace Job

variable {α β : Type}

def exec (x : Run β) (k : β → Job α) : Job α :=
  .more (fun shared => { shared with session := (x.on shared.session).2 }) fun shared =>
    match (x.on shared.session).1 with
    | .ok b => k b
    | .error failure => .done (.error failure)

def look (file : Location) (k : Option (List String) → Job α) : Job α :=
  .more id fun shared => k (shared.cache.lookup file)

/-- Puts the imports of a file into the cache, unless another thread has done so in the meantime. The
job goes on with what the cache has. -/
def keep (file : Location) (imports : List String) (k : List String → Job α) : Job α :=
  .more
    (fun shared =>
      match shared.cache.lookup file with
      | some _ => shared
      | none => { shared with cache := shared.cache ++ [(file, imports)] })
    fun shared => k ((shared.cache.lookup file).getD imports)

def whole : Job α → Shared → Except Failure α × Shared
  | .done result, shared => (result, shared)
  | .more change next, shared => (next shared).whole (change shared)

end Job

/-! ## The jobs of a check -/

def followJob {α : Type} (watch : Watch) (root : Location) : List Scan.Visit → Job α → Job α
  | [], job => job
  | visit :: visits, job =>
      .exec (Scan.follow watch root [visit]) fun _ => followJob watch root visits job

def startScan (plan : Plan) (rule : Rule) : Run (Location × List Scan.Visit) := do
  let session ← get
  let root ← Run.ofExcept (Scan.findRoot session.tree session.folder ⟨"/", plan.root⟩)
  let glob ← Run.ofExcept (Glob.compile rule.appliesTo)
  return (root, Scan.walk session.tree plan.options glob root)

def endScan (rule : Rule) (root : Location) (visits : List Scan.Visit) : Run (List Location) := do
  let found := Scan.sortPaths (visits.flatMap Scan.Visit.paths)
  Run.note .debug Scan.source
    ("Scan of " ++ Location.text root ++ " for " ++ Text.quoted rule.appliesTo ++ ": "
      ++ toString found.length ++ " files")
  return found.map (root ++ ·)

def scanJob (plan : Plan) (rule : Rule) : Job (List Location) :=
  .exec (startScan plan rule) fun (root, visits) =>
    followJob plan.watch root visits (.exec (endScan rule root visits) fun files => .done (.ok files))

def askJob (rule : Rule) (file : Location) (imports : List String) : Job (List Violation) :=
  .exec (ask rule (Location.text file) imports) fun violations => .done (.ok violations)

def unitJob (plan : Plan) (rule : Rule) (file : Location) : Job (List Violation) :=
  .exec plan.watch.check fun _ =>
    .look file fun
      | some imports => askJob rule file imports
      | none =>
          .exec (readImports plan.limit file) fun imports =>
            .keep file imports fun imports => askJob rule file imports

/-! ## Jobs without interruption -/

section Whole

variable {α β : Type}

def Shared.run (shared : Shared) (x : Run α) : Except Failure α × Shared :=
  ((x.on shared.session).1, { shared with session := (x.on shared.session).2 })

/-- What follows a result, unless that is a failure. -/
def andThen (result : Except Failure β × Shared) (k : β → Shared → Except Failure α × Shared) :
    Except Failure α × Shared :=
  match result with
  | (.ok b, shared) => k b shared
  | (.error failure, shared) => (.error failure, shared)

theorem andThen_assoc {γ : Type} (result : Except Failure γ × Shared)
    (k : γ → Shared → Except Failure β × Shared) (k' : β → Shared → Except Failure α × Shared) :
    andThen (andThen result k) k' = andThen result fun c shared => andThen (k c shared) k' := by
  rcases result with ⟨_ | c, shared⟩ <;> rfl

theorem Shared.run_bind (shared : Shared) (x : Run β) (k : β → Run α) :
    shared.run (x >>= k) = andThen (shared.run x) fun b shared => shared.run (k b) := by
  unfold Shared.run andThen
  rw [Run.on_bind]
  rcases x.on shared.session with ⟨_ | b, after⟩ <;> rfl

theorem whole_exec (x : Run β) (k : β → Job α) (shared : Shared) :
    (Job.exec x k).whole shared = andThen (shared.run x) fun b shared => (k b).whole shared := by
  rw [Job.exec, Job.whole]
  simp only [Shared.run, andThen]
  cases (x.on shared.session).1 <;> rfl

theorem follow_cons (watch : Watch) (root : Location) (visit : Scan.Visit)
    (visits : List Scan.Visit) :
    Scan.follow watch root (visit :: visits) =
      Scan.follow watch root [visit] >>= fun _ => Scan.follow watch root visits := by
  rw [Scan.follow, Scan.follow, bind_assoc]
  congr 1
  funext set
  cases set with
  | true => rfl
  | false =>
      cases visit.again <;> cases visit.stuck <;>
        simp only [Bool.false_eq_true, ↓reduceIte, Scan.follow, bind_assoc, pure_bind]

theorem whole_followJob (watch : Watch) (root : Location) (visits : List Scan.Visit) (job : Job α)
    (shared : Shared) :
    (followJob watch root visits job).whole shared =
      andThen (shared.run (Scan.follow watch root visits)) fun _ shared => job.whole shared := by
  induction visits generalizing shared with
  | nil => rfl
  | cons visit visits ih =>
      rw [followJob, whole_exec, follow_cons watch root visit visits, Shared.run_bind, andThen_assoc]
      simp only [ih]

/-- Without interruption, the job of a scan is the scan. -/
theorem whole_scanJob (plan : Plan) (rule : Rule) (shared : Shared) :
    (scanJob plan rule).whole shared = shared.run (scan plan rule) := by
  have parts : scan plan rule = startScan plan rule >>= fun found =>
      Scan.follow plan.watch found.1 found.2 >>= fun _ => endScan rule found.1 found.2 := by
    unfold scan Scan.files startScan endScan
    simp only [bind_assoc, pure_bind]
  rw [parts, scanJob, whole_exec, Shared.run_bind]
  refine congrArg (andThen _) (funext fun found => funext fun shared => ?_)
  rw [whole_followJob, Shared.run_bind]
  refine congrArg (andThen _) (funext fun _ => funext fun shared => ?_)
  rw [whole_exec]
  rfl

/-- What a job gives, with the cache as a part of its result. -/
def view (result : Except Failure α × Shared) : Except Failure (α × Cache) × Session :=
  (result.1.map (·, result.2.cache), result.2.session)

theorem view_andThen {result : Except Failure β × Shared} {k : β → Shared → Except Failure α × Shared}
    {x : Run (β × Cache)} {k' : β × Cache → Run (α × Cache)} {session : Session}
    (hx : view result = x.on session)
    (hk : ∀ b shared, view (k b shared) = (k' (b, shared.cache)).on shared.session) :
    view (andThen result k) = (x >>= k').on session := by
  rw [Run.on_bind, ← hx]
  rcases result with ⟨_ | b, shared⟩
  · rfl
  · exact hk b shared

theorem view_exec {x : Run β} {k : β → Job α} {k' : β → Run (α × Cache)} {shared : Shared}
    (hk : ∀ b session, view ((k b).whole { shared with session := session }) = (k' b).on session) :
    view ((Job.exec x k).whole shared) = (x >>= k').on shared.session := by
  rw [whole_exec, Run.on_bind, Shared.run]
  rcases x.on shared.session with ⟨_ | b, session⟩
  · rfl
  · exact hk b session

theorem whole_unitJob (plan : Plan) (rule : Rule) (file : Location) (shared : Shared) :
    view ((unitJob plan rule file).whole shared) =
      (evaluate plan shared.cache rule file).on shared.session := by
  have asked (imports : List String) (cache : Cache) (session : Session) :
      view ((askJob rule file imports).whole ⟨session, cache⟩) =
        (ask rule (Location.text file) imports >>= fun violations =>
          pure (violations, cache) : Run (List Violation × Cache)).on session :=
    view_exec fun _ _ => rfl
  refine view_exec fun _ session => ?_
  rw [Job.look, Job.whole, importsOf]
  cases found : shared.cache.lookup file with
  | some imports => exact asked imports shared.cache session
  | none =>
      simp only [bind_assoc, pure_bind, id]
      refine view_exec fun imports session => ?_
      rw [Job.keep, Job.whole]
      simp only [found, Option.getD_none]
      exact asked imports _ session

end Whole

/-! ## Jobs among others -/

/-- What the threads share while nothing but log files changes: every entry of the cache is what stands
in the file. -/
structure Shared.Within (base : Session) (plan : Plan) (shared : Shared) : Prop where
  session : base.Within shared.session
  cache : ∀ file imports, shared.cache.lookup file = some imports →
    imports = importsAt base.tree plan.limit file

namespace Job

variable {α β : Type} {base : Session} {plan : Plan} {result : Except Failure α}

/-- The job ends with `result` after at most `n` steps, between which others may change what is shared,
unless it is cancelled; and it is not cancelled if nothing makes the check stop. -/
def Meets (base : Session) (plan : Plan) (result : Except Failure α) : Nat → Job α → Prop
  | _, .done outcome => outcome = result
  | 0, .more _ _ => False
  | n + 1, .more change next => ∀ shared, Shared.Within base plan shared →
      Shared.Within base plan (change shared) ∧
      (plan.watch.Quiet shared.session → plan.watch.Quiet (change shared).session) ∧
      (Meets base plan result n (next shared) ∨
        ¬ plan.watch.Quiet shared.session ∧
          ∃ reason, next shared = .done (.error (.cancelled reason)))

theorem Meets.mono {n m : Nat} {job : Job α} (h : Meets base plan result n job) (le : n ≤ m) :
    Meets base plan result m job := by
  induction n generalizing m job with
  | zero =>
      cases job with
      | done outcome => simpa only [Meets] using h
      | more change next => simp only [Meets] at h
  | succ n ih =>
      cases job with
      | done outcome => simpa only [Meets] using h
      | more change next =>
          obtain ⟨m, rfl⟩ := Nat.exists_eq_add_of_le' (Nat.le_trans (Nat.succ_pos n) le)
          intro shared hs
          obtain ⟨within, quiet, goes⟩ := h shared hs
          exact ⟨within, quiet, goes.imp_left fun h => ih h (Nat.le_of_succ_le_succ le)⟩

theorem Meets.exec {x : Run β} {b : β} {reads : List Location}
    (hx : Run.Gives base plan.watch x (.ok b) reads) {n : Nat} {k : β → Job α}
    (hk : Meets base plan result n (k b)) : Meets base plan result (n + 1) (.exec x k) := by
  intro shared hs
  refine ⟨⟨hx.within _ hs.session, hs.cache⟩, hx.quiet _ hs.session, ?_⟩
  dsimp only
  rcases hx.outcome _ hs.session with ⟨ok, -⟩ | ⟨loud, reason, cancelled⟩
  · rw [ok]
    exact .inl hk
  · rw [cancelled]
    exact .inr ⟨loud, reason, rfl⟩

theorem Meets.exec_error {x : Run β} {failure : Failure} {reads : List Location}
    (hx : Run.Gives base plan.watch x (.error failure) reads) (n : Nat) (k : β → Job α) :
    Meets base plan (.error failure) (n + 1) (.exec x k) := by
  intro shared hs
  refine ⟨⟨hx.within _ hs.session, hs.cache⟩, hx.quiet _ hs.session, ?_⟩
  dsimp only
  rcases hx.outcome _ hs.session with ⟨error, -⟩ | ⟨loud, reason, cancelled⟩
  · rw [error]
    cases n <;> exact .inl rfl
  · rw [cancelled]
    exact .inr ⟨loud, reason, rfl⟩

/-- A run that only looks at the session, and returns what the job can go on from. -/
theorem Meets.exec_get {x : Run β} {n : Nat} {k : β → Job α}
    (hx : ∀ session, base.Within session →
      ∃ b, x.on session = (.ok b, session) ∧ Meets base plan result n (k b)) :
    Meets base plan result (n + 1) (.exec x k) := by
  intro shared hs
  obtain ⟨b, on_eq, hk⟩ := hx _ hs.session
  dsimp only
  rw [on_eq]
  exact ⟨hs, id, .inl hk⟩

theorem Meets.look {file : Location} {n : Nat} {k : Option (List String) → Job α}
    (some : Meets base plan result n (k (some (importsAt base.tree plan.limit file))))
    (none : Meets base plan result n (k none)) : Meets base plan result (n + 1) (.look file k) := by
  intro shared hs
  refine ⟨hs, id, .inl ?_⟩
  dsimp only
  cases found : shared.cache.lookup file with
  | none => exact none
  | some imports =>
      rw [hs.cache file imports found]
      exact some

theorem Meets.keep {file : Location} {n : Nat} {k : List String → Job α}
    (hk : Meets base plan result n (k (importsAt base.tree plan.limit file))) :
    Meets base plan result (n + 1) (.keep file (importsAt base.tree plan.limit file) k) := by
  intro shared hs
  dsimp only
  cases found : shared.cache.lookup file with
  | some imports =>
      refine ⟨hs, id, .inl ?_⟩
      rw [Option.getD_some, hs.cache file imports found]
      exact hk
  | none =>
      rw [Option.getD_none]
      refine ⟨⟨hs.session, fun other imports h => ?_⟩, id, .inl hk⟩
      rw [List.lookup_append] at h
      cases old : shared.cache.lookup other with
      | some imports' =>
          rw [old] at h
          exact hs.cache other imports (old.trans h)
      | none =>
          rw [old, Option.none_or, List.lookup_cons] at h
          split at h
          · rename_i same
            rw [beq_iff_eq.1 same, Option.some.inj h]
          · cases h

end Job

variable {base : Session} {plan : Plan}

theorem followJob_meets {α : Type} {result : Except Failure α} (root : Location)
    {visits : List Scan.Visit} (free : visits.any (·.stuck) = false) {n : Nat} {job : Job α}
    (h : job.Meets base plan result n) :
    (followJob plan.watch root visits job).Meets base plan result (visits.length + n) := by
  induction visits with
  | nil => simpa only [followJob, List.length_nil, Nat.zero_add] using h
  | cons visit visits ih =>
      rw [List.any_cons, Bool.or_eq_false_iff] at free
      have step : Run.Gives base plan.watch _ _ [] := Scan.follow_gives root [visit]
      rw [List.any_cons, free.1, List.any_nil] at step
      rw [List.length_cons, Nat.add_right_comm]
      exact .exec step (ih free.2)

theorem followJob_meets_error {α : Type} (root : Location) {visits : List Scan.Visit}
    (stuck : visits.any (·.stuck) = true) (job : Job α) :
    (followJob plan.watch root visits job).Meets base plan (.error (.ofFault .nameTooLong))
      visits.length := by
  induction visits with
  | nil => cases stuck
  | cons visit visits ih =>
      have step : Run.Gives base plan.watch _ _ [] := Scan.follow_gives root [visit]
      rw [List.any_cons, List.any_nil, Bool.or_false] at step
      cases here : visit.stuck with
      | true =>
          rw [here] at step
          exact .exec_error step _ _
      | false =>
          rw [here] at step
          exact .exec step (ih (by simpa [here] using stuck))

theorem endScan_gives (rule : Rule) (root : Location) (visits : List Scan.Visit) :
    Run.Gives base plan.watch (endScan rule root visits)
      (.ok ((Scan.sortPaths (visits.flatMap Scan.Visit.paths)).map (root ++ ·))) [] :=
  (Run.Gives.note ..).skip_bind (.pure _)

theorem startScan_error {rule : Rule} {failure : Failure}
    (h : Scan.findRoot base.tree base.folder ⟨"/", plan.root⟩ >>= (fun _ =>
      Glob.compile rule.appliesTo) = .error failure) :
    Run.Gives base plan.watch (startScan plan rule) (.error failure) [] := by
  refine .get fun session hs => ?_
  rw [Scan.findRoot_agrees hs.tree, hs.folder]
  rcases bind_eq_error.1 h with hroot | ⟨root, hroot, hglob⟩
  · rw [hroot]
    exact (Run.Gives.throw failure []).bind_error []
  · rw [hroot, hglob]
    exact (Run.Gives.pure root).skip_bind ((Run.Gives.throw failure []).bind_error [])

theorem scanJob_meets (wf : base.tree.WellFormed) (rule : Rule) :
    ∃ n, (scanJob plan rule).Meets base plan (filesOf base plan rule) n := by
  unfold filesOf
  cases hroot : Scan.findRoot base.tree base.folder ⟨"/", plan.root⟩ with
  | error failure =>
      rw [Scan.found, hroot]
      exact ⟨1, .exec_error (startScan_error (by rw [hroot]; rfl)) 0 _⟩
  | ok root =>
      cases hglob : Glob.compile rule.appliesTo with
      | error failure =>
          rw [Scan.found, hroot, hglob]
          exact ⟨1, .exec_error (startScan_error (by rw [hroot, hglob]; rfl)) 0 _⟩
      | ok glob =>
          rw [Scan.found_eq hroot hglob]
          let visits := Scan.walk base.tree plan.options glob root
          refine ⟨visits.length + 1 + 1, .exec_get fun session hs => ?_⟩
          refine ⟨(root, Scan.walk session.tree plan.options glob root), ?_, ?_⟩
          · rw [startScan, Run.on_get_bind, Scan.findRoot_agrees hs.tree, hs.folder, hroot, hglob]
            rfl
          · rw [(Scan.walk_agrees hs.tree).length_eq]
            cases stuck : visits.any (·.stuck) with
            | true =>
                rw [if_pos rfl]
                exact (followJob_meets_error root ((Scan.any_stuck_agrees hs.tree).trans stuck) _).mono
                  (Nat.le_succ _)
            | false =>
                rw [if_neg Bool.false_ne_true, ← Scan.sortPaths_agrees wf hs.tree]
                exact followJob_meets root ((Scan.any_stuck_agrees hs.tree).trans stuck)
                  (.exec (endScan_gives rule root _) rfl)

theorem unitJob_meets {rule : Rule} (pure : rule.IsPure) {file : Location}
    (isFile : base.tree.isFile file = true) (apart : base.Apart file) :
    (unitJob plan rule file).Meets base plan (.ok (unitOf base.tree plan.limit rule file)) 5 := by
  have asked : (askJob rule file (importsAt base.tree plan.limit file)).Meets base plan
      (.ok (unitOf base.tree plan.limit rule file)) 1 :=
    .exec (ask_gives pure.isHarmless _ _) rfl
  refine .exec .check (.look (asked.mono (by decide)) ?_)
  exact .exec (readImports_gives isFile apart plan.limit) (.keep asked)

end LayerLint.Check
