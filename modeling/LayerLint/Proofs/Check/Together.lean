import LayerLint.Proofs.Check.Schedule
import Mathlib.Logic.Relation

/-!
# Checks that evaluate several units at a time

`runTogether` is one of the schedules of a pool: its jobs one after the other (`leads_runTogether`). So
what is true of all schedules is true of it, and `runTogether_exact` compares all of them with the rules
one after the other.
-/

namespace LayerLint.Check

variable {α : Type}

open Relation (ReflTransGen)

/-! ## Jobs one after the other -/

def mapped {β : Type} (f : α → β) (result : Except Failure α × Shared) : Except Failure β × Shared :=
  (result.1.map f, result.2)

section Mapped

variable {β γ : Type}

theorem mapped_eq (f : α → β) (result : Except Failure α × Shared) :
    mapped f result = andThen result fun a shared => (.ok (f a), shared) := by
  rcases result with ⟨_ | a, shared⟩ <;> rfl

theorem mapped_mapped (g : β → γ) (f : α → β) (result : Except Failure α × Shared) :
    mapped g (mapped f result) = mapped (g ∘ f) result := by
  rcases result with ⟨_ | a, shared⟩ <;> rfl

theorem mapped_andThen (f : α → β) (result : Except Failure γ × Shared)
    (k : γ → Shared → Except Failure α × Shared) :
    mapped f (andThen result k) = andThen result fun c shared => mapped f (k c shared) := by
  rcases result with ⟨_ | c, shared⟩ <;> rfl

theorem andThen_mapped (f : α → β) (result : Except Failure α × Shared)
    (k : β → Shared → Except Failure γ × Shared) :
    andThen (mapped f result) k = andThen result fun a shared => k (f a) shared := by
  rcases result with ⟨_ | a, shared⟩ <;> rfl

theorem andThen_congr {result : Except Failure β × Shared}
    {k k' : β → Shared → Except Failure α × Shared}
    (h : ∀ b shared, result = (.ok b, shared) → k b shared = k' b shared) :
    andThen result k = andThen result k' := by
  rcases result with ⟨_ | b, shared⟩
  · rfl
  · exact h b shared rfl

end Mapped

/-- The jobs of a batch one after the other, up to the first that fails. -/
def inTurn : List (Job α) → Shared → Except Failure (List α) × Shared
  | [], shared => (.ok [], shared)
  | job :: jobs, shared =>
      andThen (job.whole shared) fun value shared => mapped (value :: ·) (inTurn jobs shared)

def Move.ofResult : Except Failure (List α) → Move α
  | .ok values => .done values
  | .error failure => .failed failure

namespace Batch

variable {workers : Nat}

/-- The second batch can come from the first without anyone raising the signal. -/
def Leads (workers : Nat) : Batch α → Batch α → Prop :=
  ReflTransGen fun batch after => ∃ action, action ≠ .cancel ∧
    batch.move workers action = some (.on after)

theorem Leads.of_move {batch after : Batch α} {action : Action}
    (moved : batch.move workers action = some (.on after)) (h : action ≠ .cancel) :
    Leads workers batch after :=
  .single ⟨action, h, moved⟩

theorem Leads.trans {a b c : Batch α} (first : Leads workers a b) (next : Leads workers b c) :
    Leads workers a c :=
  ReflTransGen.trans first next

theorem leads_whole (job : Job α) {batch : Batch α} {i : Nat}
    (at_i : batch.slots[i]? = some (.running job)) :
    Leads workers batch
      { batch.set i (.finished (job.whole batch.shared).1) with
        shared := (job.whole batch.shared).2 } := by
  induction job generalizing batch with
  | done result => exact .of_move (move_finish at_i) nofun
  | more change next ih =>
      let after : Batch α :=
        { batch.set i (.running (next batch.shared)) with shared := change batch.shared }
      have inside : i < batch.slots.length := (List.getElem?_eq_some_iff.1 at_i).1
      have rest := @ih batch.shared after (List.getElem?_set_self inside)
      refine (Leads.of_move (move_step at_i) nofun).trans ?_
      simpa only [after, set, List.set_set, Job.whole] using rest

def returned (values : List α) : List (Slot α) := values.map fun value => .finished (.ok value)

theorem values_returned (values : List α) : (returned values).mapM Slot.value? = some values := by
  induction values with
  | nil => rfl
  | cons value values ih =>
      rw [returned, List.map_cons, List.mapM_cons, ← returned, ih]
      rfl

theorem idle (values : List α) (jobs : List (Job α)) :
    (returned values ++ jobs.map Slot.waiting).countP Slot.isRunning = 0 := by
  refine List.countP_eq_zero.2 fun slot mem => ?_
  rcases List.mem_append.1 mem with mem | mem
  · obtain ⟨value, -, rfl⟩ := List.mem_map.1 mem
    exact Bool.false_ne_true
  · obtain ⟨job, -, rfl⟩ := List.mem_map.1 mem
    exact Bool.false_ne_true

theorem leads_next (some_worker : 0 < workers) (shared : Shared) (values : List α) (job : Job α)
    (jobs : List (Job α)) :
    Leads workers ⟨shared, returned values ++ (job :: jobs).map .waiting⟩
      ⟨(job.whole shared).2,
        returned values ++ .finished (job.whole shared).1 :: jobs.map .waiting⟩ := by
  let batch : Batch α := ⟨shared, returned values ++ (job :: jobs).map .waiting⟩
  let i := (returned values).length
  have at_i : batch.slots[i]? = some (.waiting job) := by
    simp [batch, i]
  have taken := move_start at_i (lt_of_eq_of_lt (idle values (job :: jobs)) some_worker)
  have inside : i < batch.slots.length := (List.getElem?_eq_some_iff.1 at_i).1
  have rest := @leads_whole α workers job (batch.set i (.running job)) i
    (List.getElem?_set_self inside)
  refine (Leads.of_move taken nofun).trans ?_
  simpa [batch, i, set] using rest

/-- The jobs of a batch can be done one after the other. -/
theorem leads_inTurn (some_worker : 0 < workers) (jobs : List (Job α)) (shared : Shared)
    (values : List α) :
    ∃ batch action, Leads workers ⟨shared, returned values ++ jobs.map .waiting⟩ batch ∧
      action ≠ .cancel ∧ batch.shared = (inTurn jobs shared).2 ∧
      batch.move workers action =
        some (.ofResult ((inTurn jobs shared).1.map (values ++ ·))) := by
  induction jobs generalizing shared values with
  | nil =>
      refine ⟨_, .collect, .refl, nofun, rfl, ?_⟩
      rw [List.map_nil, List.append_nil, move_collect (values_returned values), inTurn, Except.map,
        List.append_nil]
      rfl
  | cons job jobs ih =>
      have first := leads_next some_worker shared values job jobs
      rw [inTurn]
      rcases whole : job.whole shared with ⟨failure | value, after⟩
      · rw [whole] at first
        refine ⟨_, .fail (returned values).length, first, nofun, rfl, move_fail ?_⟩
        simp
      · rw [whole] at first
        obtain ⟨batch, action, leads, hne, hshared, moved⟩ := ih after (values ++ [value])
        have joined : returned values ++ .finished (.ok value) :: jobs.map .waiting =
            returned (values ++ [value]) ++ jobs.map .waiting := by
          simp [returned]
        refine ⟨batch, action, first.trans (joined ▸ leads), hne, ?_, ?_⟩
        · rw [hshared]
          rfl
        · rw [moved, andThen, mapped]
          cases (inTurn jobs after).1 <;> simp [Except.map]

end Batch

/-! ## The batches of a check -/

theorem length_inTurn {jobs : List (Job α)} {shared after : Shared} {values : List α}
    (h : inTurn jobs shared = (.ok values, after)) : values.length = jobs.length := by
  induction jobs generalizing shared values with
  | nil =>
      cases h
      rfl
  | cons job jobs ih =>
      rw [inTurn] at h
      rcases whole : job.whole shared with ⟨_ | value, next⟩
      · rw [whole] at h
        cases h
      · rw [whole] at h
        rcases rest : inTurn jobs next with ⟨_ | more, last⟩
        · rw [andThen, rest] at h
          cases h
        · rw [andThen, rest] at h
          cases h
          rw [List.length_cons, List.length_cons, ih rest]

theorem inTurn_append (jobs jobs' : List (Job α)) (shared : Shared) :
    inTurn (jobs ++ jobs') shared =
      andThen (inTurn jobs shared) fun values shared => mapped (values ++ ·) (inTurn jobs' shared) := by
  induction jobs generalizing shared with
  | nil =>
      rw [List.nil_append, inTurn, andThen, mapped]
      cases h : inTurn jobs' shared with
      | mk result after => cases result <;> rfl
  | cons job jobs ih =>
      rw [List.cons_append, inTurn, inTurn, andThen_assoc]
      refine congrArg (andThen _) (funext fun value => funext fun shared => ?_)
      rw [ih, mapped_andThen, andThen_mapped]
      refine congrArg (andThen _) (funext fun values => funext fun shared => ?_)
      exact mapped_mapped ..

theorem run_scanAll (plan : Plan) (rules : List Rule) (shared : Shared) :
    shared.run (scanAll plan rules) = mapped rules.zip (inTurn (rules.map (scanJob plan)) shared) := by
  induction rules generalizing shared with
  | nil => rfl
  | cons rule rules ih =>
      rw [scanAll, Shared.run_bind, List.map_cons, inTurn, mapped_andThen, whole_scanJob]
      refine congrArg (andThen _) (funext fun files => funext fun shared => ?_)
      rw [Shared.run_bind, ih, andThen_mapped, mapped_mapped]
      exact (mapped_eq ..).symm

theorem view_files (plan : Plan) (rule : Rule) (files : List Location) (shared : Shared) :
    view (mapped List.flatten (inTurn (files.map (unitJob plan rule)) shared)) =
      (evaluateAll plan rule shared.cache files).on shared.session := by
  induction files generalizing shared with
  | nil => rfl
  | cons file files ih =>
      rw [List.map_cons, inTurn, mapped_andThen, evaluateAll]
      refine view_andThen (whole_unitJob plan rule file shared) fun violations shared => ?_
      have flatten : List.flatten ∘ (violations :: ·) = (violations ++ ·) ∘ List.flatten := rfl
      rw [mapped_mapped, flatten, ← mapped_mapped, mapped_eq]
      exact view_andThen (ih shared) fun more shared => rfl

theorem view_rows (plan : Plan) (rows : List (Rule × List Location)) (shared : Shared) :
    view (mapped (regroup rows) (inTurn (unitJobs plan rows) shared)) =
      (evaluateRows plan shared.cache rows).on shared.session := by
  induction rows generalizing shared with
  | nil => rfl
  | cons row rows ih =>
      obtain ⟨rule, files⟩ := row
      have units : unitJobs plan ((rule, files) :: rows) =
          files.map (unitJob plan rule) ++ unitJobs plan rows := by
        simp [unitJobs, unitsOf]
      rw [units, inTurn_append, mapped_andThen, evaluateRows]
      have parts : andThen (inTurn (files.map (unitJob plan rule)) shared) (fun results shared =>
            mapped (regroup ((rule, files) :: rows))
              (mapped (results ++ ·) (inTurn (unitJobs plan rows) shared))) =
          andThen (mapped List.flatten (inTurn (files.map (unitJob plan rule)) shared))
            fun violations shared => mapped (violations :: ·)
              (mapped (regroup rows) (inTurn (unitJobs plan rows) shared)) := by
        rw [andThen_mapped]
        refine andThen_congr fun results shared done => ?_
        have length : results.length = files.length := by simpa using length_inTurn done
        rw [mapped_mapped, mapped_mapped]
        refine congrArg (mapped · _) (funext fun more => ?_)
        simp only [Function.comp, regroup, List.take_left' length, List.drop_left' length]
      rw [parts]
      refine view_andThen (view_files plan rule files shared) fun violations shared => ?_
      rw [mapped_eq]
      exact view_andThen (ih shared) fun more shared => rfl

/-! ## A schedule for `runTogether` -/

section Schedules

variable {plan : Plan} {rules : List Rule} {workers : Nat}

/-- A schedule in which nobody raises the signal makes the second pool of the first. -/
def Pool.Leads (plan : Plan) (rules : List Rule) (workers : Nat) (pool after : Pool) : Prop :=
  ∃ schedule, .cancel ∉ schedule ∧ pool.run plan rules workers schedule = some after

theorem Pool.Leads.trans {a b c : Pool} (first : Leads plan rules workers a b)
    (next : Leads plan rules workers b c) : Leads plan rules workers a c := by
  obtain ⟨schedule, calm, ran⟩ := first
  obtain ⟨schedule', calm', ran'⟩ := next
  refine ⟨schedule ++ schedule', by simp [calm, calm'], ?_⟩
  rw [run] at ran ran' ⊢
  rw [List.foldlM_append, ran]
  exact ran'

theorem Pool.Leads.of_act {pool after : Pool} {action : Action}
    (acted : pool.act plan rules workers action = some after) (h : action ≠ .cancel) :
    Leads plan rules workers pool after :=
  ⟨[action], by simpa using h.symm, by simp [run, acted]⟩

theorem Pool.Leads.of_batch {phase : Batch α → Pool}
    (onward : ∀ batch after action, batch.move workers action = some (.on after) →
      (phase batch).act plan rules workers action = some (phase after))
    {batch after : Batch α} (h : batch.Leads workers after) :
    Leads plan rules workers (phase batch) (phase after) := by
  induction h with
  | refl => exact ⟨[], by simp, rfl⟩
  | tail _ step ih =>
      obtain ⟨action, hne, moved⟩ := step
      exact ih.trans (.of_act (onward _ _ _ moved) hne)

def Pool.conclude (next : Shared → List α → Pool) : Except Failure (List α) × Shared → Pool
  | (.ok values, shared) => next shared values
  | (.error failure, shared) => .raised shared failure

theorem Pool.leads_jobs (some_worker : 0 < workers) {phase : Batch α → Pool}
    {next : Shared → List α → Pool}
    (acts : ∀ batch action, (phase batch).act plan rules workers action =
      (batch.move workers action).map (after phase next batch.shared))
    (jobs : List (Job α)) (shared : Shared) :
    Leads plan rules workers (phase (.ofJobs shared jobs)) (conclude next (inTurn jobs shared)) := by
  obtain ⟨batch, action, leads, hne, hshared, moved⟩ := Batch.leads_inTurn some_worker jobs shared []
  have before : Leads plan rules workers (phase (.ofJobs shared jobs)) (phase batch) :=
    .of_batch (fun _ _ _ onward => by rw [acts, onward]; rfl) leads
  refine before.trans (.of_act ?_ hne)
  rw [acts, moved]
  rcases found : inTurn jobs shared with ⟨failure | values, after⟩
  · rw [found] at hshared
    rw [hshared]
    rfl
  · rw [found] at hshared
    rw [hshared]
    rfl

theorem await_eq (noDeadline : plan.watch.deadline = none) (units : Nat) :
    await plan units = pure () := by
  unfold await
  rw [noDeadline]
  split <;> rfl

/-- With one schedule, a pool gives what `runTogether` gives. -/
theorem leads_runTogether (some_worker : 0 < workers) (noDeadline : plan.watch.deadline = none)
    (session : Session) :
    ∃ pool, Pool.Leads plan rules workers (.start plan rules session) pool ∧
      pool.outcome? = some ((runTogether plan rules).on session) := by
  have scanned : Pool.Leads plan rules workers (.start plan rules session) (Pool.conclude _ _) :=
    Pool.leads_jobs some_worker (fun _ _ => rfl) (rules.map (scanJob plan)) ⟨session, []⟩
  have scans := run_scanAll plan rules ⟨session, []⟩
  rw [runTogether, await_eq noDeadline, pure_bind]
  simp only [await_eq noDeadline, pure_bind]
  rcases found : inTurn (rules.map (scanJob plan)) ⟨session, []⟩ with ⟨failure | lists, shared⟩
  · rw [found] at scanned scans
    refine ⟨_, scanned, ?_⟩
    have failed : (scanAll plan rules).on session = (.error failure, shared.session) :=
      Prod.ext (congrArg (·.1) scans) (congrArg (·.2.session) scans)
    rw [Run.on_bind, failed]
    rfl
  · rw [found] at scanned scans
    have done : (scanAll plan rules).on session = (.ok (rules.zip lists), shared.session) :=
      Prod.ext (congrArg (·.1) scans) (congrArg (·.2.session) scans)
    have fresh : [] = shared.cache := congrArg (·.2.cache) scans
    have evaluated : Pool.Leads plan rules workers (.evaluate plan rules shared lists)
        (Pool.conclude _ _) :=
      Pool.leads_jobs some_worker (fun _ _ => rfl) (unitJobs plan (rules.zip lists)) shared
    refine ⟨_, scanned.trans evaluated, ?_⟩
    rw [Run.on_bind, done]
    dsimp only
    rw [fresh, ← view_rows plan (rules.zip lists) shared]
    rcases inTurn (unitJobs plan (rules.zip lists)) shared with ⟨failure | results, last⟩ <;> rfl

end Schedules

/-! ## All schedules -/

/-- What the rules give one after the other if nobody stops the check. -/
def alone (plan : Plan) (rules : List Rule) (session : Session) :
    Except Failure (List (List Violation) × Cache) :=
  ((runInTurn plan [] rules).on { session with signal := .calm }).1

theorem isOk_map {β : Type} (f : α → β) (result : Except Failure α) :
    (result.map f).isOk = result.isOk := by
  cases result <;> rfl

theorem alone_eq {plan : Plan} {rules : List Rule} {session : Session}
    (wf : session.tree.WellFormed) (pure : ∀ rule ∈ rules, rule.IsPure)
    (undisturbed : Undisturbed session plan rules) (noDeadline : plan.watch.deadline = none) :
    (alone plan rules session).map (·.1) =
      (rowsOf session plan rules).map (bucketsOf session.tree plan.limit) := by
  have within : session.Within { session with signal := .calm } :=
    (Session.Within.refl wf).of_eq rfl rfl rfl
  have quiet : plan.watch.Quiet { session with signal := .calm } := ⟨noDeadline, fun _ => rfl⟩
  have harmless := fun rule mem => (pure rule mem).isHarmless
  unfold alone
  cases hrows : rowsOf session plan rules with
  | error failure =>
      have fails := runInTurn_error wf harmless undisturbed hrows []
      rw [show runInTurn plan [] rules = runInTurn plan (cacheOf session.tree plan.limit []) rules
        from rfl, (fails.result_eq_of_quiet within quiet).1]
      rfl
  | ok rows =>
      have gives := runInTurn_gives wf harmless undisturbed hrows []
      rw [show runInTurn plan [] rules = runInTurn plan (cacheOf session.tree plan.limit []) rules
        from rfl, (gives.result_eq_of_quiet within quiet).1]
      rfl

/-- A pool with several workers, no deadline and rules that only answer comes to its end under every
schedule, whenever somebody raises the signal. If it returns, it returns the violations that the rules
give one after the other when nobody stops the check. If nobody raises the signal, it fails if and only
if the rules one after the other fail. `runTogether` is what the pool gives under one of the
schedules. -/
theorem runTogether_exact (plan : Plan) (rules : List Rule) (workers : Nat) (session : Session)
    (wf : session.tree.WellFormed) (pure : ∀ rule ∈ rules, rule.IsPure)
    (undisturbed : Undisturbed session plan rules) (several : 1 < workers)
    (noDeadline : plan.watch.deadline = none) :
    (∃ bound, ∀ schedule pool,
      (Pool.start plan rules session).run plan rules workers schedule = some pool →
        schedule.countP (· ≠ .cancel) ≤ bound ∧
        (pool.outcome? = none → ∃ action after, action ≠ .cancel ∧
          pool.act plan rules workers action = some after) ∧
        ∀ result after, pool.outcome? = some (result, after) →
          (result.isOk → result.map (·.1) = (alone plan rules session).map (·.1)) ∧
          (plan.watch.Quiet session → .cancel ∉ schedule →
            (result.isOk ↔ (alone plan rules session).isOk))) ∧
    ∃ schedule pool, .cancel ∉ schedule ∧
      (Pool.start plan rules session).run plan rules workers schedule = some pool ∧
      pool.outcome? = some ((runTogether plan rules).on session) := by
  have some_worker : 0 < workers := Nat.zero_lt_of_lt several
  constructor
  · obtain ⟨bound, starts⟩ := @Pool.Sound.start session plan rules wf
    refine ⟨bound, fun schedule pool ran => ?_⟩
    let loud : Prop := ¬ plan.watch.Quiet session ∨ .cancel ∈ schedule
    have start := starts loud fun calm => not_not.1 fun noisy => calm (.inl noisy)
    obtain ⟨n, le, sound⟩ := start.run wf pure undisturbed .inr ran
    refine ⟨by omega, Pool.exists_act plan rules some_worker, fun result after outcome => ?_⟩
    obtain ⟨returns, fails⟩ := sound.outcome outcome
    have same := alone_eq wf pure undisturbed noDeadline
    have ok := congrArg Except.isOk same
    rw [isOk_map, isOk_map] at ok
    refine ⟨fun isOk => (returns isOk).trans same.symm, fun quiet calm => ?_⟩
    rw [ok]
    exact fails (not_or.2 ⟨not_not.2 quiet, calm⟩)
  · obtain ⟨pool, ⟨schedule, calm, ran⟩, outcome⟩ :=
      @leads_runTogether plan rules workers some_worker noDeadline session
    exact ⟨schedule, pool, calm, ran, outcome⟩

def objection (id : String) : Rule :=
  .guarded ⟨id, "", "*.ts", fun file _ => ⟨[], .findings [.violation ⟨id, file, "a file", .error⟩]⟩, ""⟩

def smallPlan : Plan :=
  ⟨[], [objection "first", objection "second"], ⟨false, false, []⟩, 1, ⟨true, .int 0, none⟩⟩

theorem rowsOf_smallPlan : rowsOf (.ofTree smallTree) smallPlan smallPlan.rules =
    .ok [(objection "first", [["a.ts"]]), (objection "second", [["a.ts"]])] := by
  have files (id : String) : filesOf (.ofTree smallTree) smallPlan (objection id) = .ok [["a.ts"]] :=
    found_smallTree
  rw [smallPlan, rowsOf_cons, ← smallPlan, files, rowsOf_cons, files]
  rfl

theorem runTogether_exact_smallTree :
    ∃ schedule shared, .cancel ∉ schedule ∧
      (Pool.start smallPlan smallPlan.rules (.ofTree smallTree)).run smallPlan smallPlan.rules 2
          schedule =
        some (.returned shared [[⟨"first", "/a.ts", "a file", .error⟩],
          [⟨"second", "/a.ts", "a file", .error⟩]]) := by
  have wf : smallTree.WellFormed := by decide +kernel
  have pure : ∀ rule ∈ smallPlan.rules, rule.IsPure := by
    intro rule mem
    rcases List.mem_pair.1 mem with rfl | rfl <;> exact fun _ _ => rfl
  have undisturbed : Undisturbed (.ofTree smallTree) smallPlan smallPlan.rules :=
    fun rule _ files _ file _ location _ => nofun
  obtain ⟨⟨bound, all⟩, schedule, pool, calm, ran, outcome⟩ :=
    runTogether_exact smallPlan smallPlan.rules 2 (.ofTree smallTree) wf pure undisturbed
      (by decide) rfl
  have given := @alone_eq smallPlan smallPlan.rules (.ofTree smallTree) wf pure undisturbed rfl
  rw [rowsOf_smallPlan] at given
  obtain ⟨same, fails⟩ := (all schedule pool ran).2.2 _ _ outcome
  have ok := (fails ⟨rfl, fun _ => rfl⟩ calm).2 (by rw [← isOk_map (·.1), given]; rfl)
  have buckets := (same ok).trans given
  cases pool with
  | scanning batch => cases outcome
  | evaluating rows batch => cases outcome
  | raised shared failure =>
      obtain ⟨failed, -⟩ := Prod.mk.inj (Option.some.inj outcome)
      rw [← failed] at ok
      cases ok
  | returned shared buckets' =>
      obtain ⟨returned, -⟩ := Prod.mk.inj (Option.some.inj outcome)
      rw [← returned] at buckets
      obtain rfl := Except.ok.inj buckets
      exact ⟨schedule, shared, calm, ran⟩

end LayerLint.Check
