import LayerLint.Proofs.Check.Pool

/-!
# Schedules

What a pool ends with does not depend on its schedule: it returns the violations of the rules in order,
or a scan has failed, or somebody has raised the signal. `Pool.Sound` says so of every state on the way,
and bounds the number of actions to the end; `Pool.Sound.act` is the step and `Pool.Sound.run` the run.
-/

namespace LayerLint.Check

variable {α : Type}

/-! ## What a batch ends with -/

section Batches

variable {base : Session} {plan : Plan} {loud : Prop}

/-- The outcome is the expected result, or the check was cancelled. -/
def Ends (loud : Prop) (result outcome : Except Failure α) : Prop :=
  outcome = result ∨ loud ∧ ∃ reason, outcome = .error (.cancelled reason)

/-- The job ends as it should after at most `n` actions. -/
def Slot.Meets (base : Session) (plan : Plan) (loud : Prop) (result : Except Failure α) (n : Nat) :
    Slot α → Prop
  | .waiting job => ∃ m, m + 2 ≤ n ∧ job.Meets base plan result m
  | .running job =>
      ∃ m outcome, m + 1 ≤ n ∧ Ends loud result outcome ∧ job.Meets base plan outcome m
  | .finished outcome => Ends loud result outcome

/-- The jobs end as they should, and they do so after at most `n` actions. -/
inductive Tracked (base : Session) (plan : Plan) (loud : Prop) :
    List (Except Failure α) → Nat → List (Slot α) → Prop where
  | nil : Tracked base plan loud [] 0 []
  | cons {result : Except Failure α} {results : List (Except Failure α)} {n m : Nat} {slot : Slot α}
      {slots : List (Slot α)} :
      slot.Meets base plan loud result n → Tracked base plan loud results m slots →
        Tracked base plan loud (result :: results) (n + m) (slot :: slots)

theorem Tracked.set {results : List (Except Failure α)} {n : Nat} {slots : List (Slot α)}
    (h : Tracked base plan loud results n slots) {i : Nat} {slot : Slot α}
    (at_i : slots[i]? = some slot) (slot' : Slot α)
    (closer : ∀ result k, slot.Meets base plan loud result k →
      ∃ k', k' + 1 ≤ k ∧ slot'.Meets base plan loud result k') :
    ∃ m, m + 1 ≤ n ∧ Tracked base plan loud results m (slots.set i slot') := by
  induction h generalizing i with
  | nil => cases at_i
  | @cons result results k m head slots hhead htail ih =>
      cases i with
      | zero =>
          obtain rfl := Option.some.inj at_i
          obtain ⟨k', lt, hslot⟩ := closer result k hhead
          exact ⟨k' + m, by omega, .cons hslot htail⟩
      | succ i =>
          obtain ⟨m', lt, hslots⟩ := ih at_i
          exact ⟨k + m', by omega, .cons hhead hslots⟩

theorem Tracked.get {results : List (Except Failure α)} {n : Nat} {slots : List (Slot α)}
    (h : Tracked base plan loud results n slots) {i : Nat} {slot : Slot α}
    (at_i : slots[i]? = some slot) :
    ∃ result ∈ results, ∃ k, slot.Meets base plan loud result k := by
  induction h generalizing i with
  | nil => cases at_i
  | @cons result results k m head slots hhead htail ih =>
      cases i with
      | zero =>
          obtain rfl := Option.some.inj at_i
          exact ⟨result, by simp, k, hhead⟩
      | succ i =>
          obtain ⟨other, mem, meets⟩ := ih at_i
          exact ⟨other, by simp [mem], meets⟩

theorem Tracked.values {results : List (Except Failure α)} {n : Nat} {slots : List (Slot α)}
    (h : Tracked base plan loud results n slots) {values : List α}
    (hvalues : slots.mapM Slot.value? = some values) : results = values.map .ok := by
  induction h generalizing values with
  | nil =>
      obtain rfl := Option.some.inj hvalues
      rfl
  | @cons result results k m head slots hhead htail ih =>
      rw [List.mapM_cons] at hvalues
      obtain ⟨value, hvalue, hvalues⟩ := Option.bind_eq_some_iff.1 hvalues
      obtain ⟨more, hmore, hvalues⟩ := Option.bind_eq_some_iff.1 hvalues
      obtain rfl := Option.some.inj hvalues
      rw [List.map_cons, ← ih hmore]
      obtain rfl : head = .finished (.ok value) := by
        unfold Slot.value? at hvalue
        split at hvalue
        · rw [Option.some.inj hvalue]
        · cases hvalue
      -- A job that has returned was not cancelled.
      rcases hhead with same | ⟨_, reason, cancelled⟩
      · rw [same]
      · cases cancelled

/-- The state of a batch that is going to end with `results`, unless it is cancelled, after at most
`n` actions. -/
structure Batch.Sound (base : Session) (plan : Plan) (loud : Prop)
    (results : List (Except Failure α)) (n : Nat) (batch : Batch α) : Prop where
  within : Shared.Within base plan batch.shared
  quiet : ¬ loud → plan.watch.Quiet batch.shared.session
  tracked : Tracked base plan loud results n batch.slots

def Move.Sound (base : Session) (plan : Plan) (loud : Prop) (results : List (Except Failure α))
    (n cost : Nat) : Move α → Prop
  | .on batch => ∃ m, m + cost ≤ n ∧ batch.Sound base plan loud results m
  | .failed failure => ∃ result ∈ results, Ends loud result (.error failure)
  | .done values => results = values.map .ok

/-- How many actions jobs need: one to start, one to finish and the steps of the job. -/
def timeFor {ι : Type} (steps : ι → Nat) (jobs : List ι) : Nat :=
  jobs.foldr (fun i n => steps i + 2 + n) 0

namespace Batch.Sound

variable {results : List (Except Failure α)} {n workers : Nat} {batch : Batch α} {action : Action}

theorem start (h : batch.Sound base plan loud results n) {i : Nat} {job : Job α}
    (at_i : batch.slots[i]? = some (.waiting job)) :
    ∃ m, m + 1 ≤ n ∧ (batch.set i (.running job)).Sound base plan loud results m := by
  obtain ⟨m, le, tracked⟩ := h.tracked.set at_i (.running job) fun result k ⟨m, le, meets⟩ =>
    ⟨m + 1, by omega, m, result, Nat.le_refl _, .inl rfl, meets⟩
  exact ⟨m, le, h.within, h.quiet, tracked⟩

theorem finish (h : batch.Sound base plan loud results n) {i : Nat} {outcome : Except Failure α}
    (at_i : batch.slots[i]? = some (.running (.done outcome))) :
    ∃ m, m + 1 ≤ n ∧ (batch.set i (.finished outcome)).Sound base plan loud results m := by
  have closer (result : Except Failure α) (k : Nat)
      (meets : Slot.Meets base plan loud result k (.running (.done outcome))) :
      ∃ k', k' + 1 ≤ k ∧ Slot.Meets base plan loud result k' (.finished outcome) := by
    obtain ⟨m, outcome', le, ends, meets⟩ := meets
    obtain rfl : outcome = outcome' := by simpa only [Job.Meets] using meets
    exact ⟨0, by omega, ends⟩
  obtain ⟨m, le, tracked⟩ := h.tracked.set at_i _ closer
  exact ⟨m, le, h.within, h.quiet, tracked⟩

theorem step (h : batch.Sound base plan loud results n) {i : Nat} {change : Shared → Shared}
    {next : Shared → Job α} (at_i : batch.slots[i]? = some (.running (.more change next))) :
    ∃ m, m + 1 ≤ n ∧ Sound base plan loud results m
      { batch.set i (.running (next batch.shared)) with shared := change batch.shared } := by
  have goes (result : Except Failure α) (k : Nat)
      (meets : Slot.Meets base plan loud result k (.running (.more change next))) :
      Shared.Within base plan (change batch.shared) ∧
        (plan.watch.Quiet batch.shared.session →
          plan.watch.Quiet (change batch.shared).session) ∧
        ∃ k', k' + 1 ≤ k ∧ Slot.Meets base plan loud result k' (.running (next batch.shared)) := by
    obtain ⟨_ | m, outcome, le, ends, meets⟩ := meets
    · simp only [Job.Meets] at meets
    · obtain ⟨within, quiet, meets | ⟨noisy, reason, cancelled⟩⟩ := meets _ h.within
      · exact ⟨within, quiet, m + 1, le, m, outcome, Nat.le_refl _, ends, meets⟩
      · -- Only a check that somebody stops is cancelled.
        have hloud : loud := by_contra fun calm => noisy (h.quiet calm)
        refine ⟨within, quiet, m + 1, le, m, _, Nat.le_refl _, .inr ⟨hloud, reason, rfl⟩, ?_⟩
        rw [cancelled]
        simp only [Job.Meets]
  obtain ⟨result, -, k, meets⟩ := h.tracked.get at_i
  obtain ⟨within, quiet, -⟩ := goes result k meets
  obtain ⟨m, le, tracked⟩ := h.tracked.set at_i _ fun result k meets => (goes result k meets).2.2
  exact ⟨m, le, within, fun calm => quiet (h.quiet calm), tracked⟩

/-- An action keeps a batch sound, and all but raising the signal bring it closer to its end. What
it gives at its end is what its jobs should give. -/
theorem move (h : batch.Sound base plan loud results n) (told : action = .cancel → loud)
    {moved : Move α} (hmoved : batch.move workers action = some moved) :
    moved.Sound base plan loud results n action.cost := by
  cases moves_of_move hmoved with
  | cancel =>
      have within : base.Within (batch.shared.session.apply .cancel) :=
        h.within.session.of_eq rfl rfl rfl
      exact ⟨n, Nat.le_refl _, ⟨within, h.within.cache⟩, fun calm => absurd (told rfl) calm, h.tracked⟩
  | start at_i => exact h.start at_i
  | finish at_i => exact h.finish at_i
  | step at_i => exact h.step at_i
  | fail at_i =>
      obtain ⟨result, mem, _, ends⟩ := h.tracked.get at_i
      exact ⟨result, mem, ends⟩
  | collect hvalues => exact h.tracked.values hvalues

theorem ofJobs {ι : Type} {job : ι → Job α} {result : ι → Except Failure α} {bound : ι → Nat}
    {items : List ι} (meets : ∀ i ∈ items, (job i).Meets base plan (result i) (bound i))
    {shared : Shared} (within : Shared.Within base plan shared)
    (quiet : ¬ loud → plan.watch.Quiet shared.session) :
    (Batch.ofJobs shared (items.map job)).Sound base plan loud (items.map result)
      (timeFor bound items) := by
  refine ⟨within, quiet, ?_⟩
  unfold Batch.ofJobs
  induction items with
  | nil => exact .nil
  | cons i items ih =>
      have rest := ih fun j mem => meets j (by simp [mem])
      exact .cons ⟨bound i, Nat.le_refl _, meets i (by simp)⟩ rest

end Batch.Sound

end Batches

/-! ## What a pool ends with -/

section Pools

variable {base : Session} {plan : Plan} {loud : Prop} {rules : List Rule}

theorem rowsOf_zip {lists : List (List Location)}
    (h : rules.map (filesOf base plan) = lists.map .ok) :
    rowsOf base plan rules = .ok (rules.zip lists) := by
  induction rules generalizing lists with
  | nil => rw [List.zip_nil_left, rowsOf_nil]
  | cons rule rules ih =>
      cases lists with
      | nil => cases h
      | cons files lists =>
          obtain ⟨head, tail⟩ := List.cons.inj h
          rw [rowsOf_cons, head, ih tail]
          rfl

theorem rowsOf_error {rule : Rule} (mem : rule ∈ rules) {failure : Failure}
    (h : filesOf base plan rule = .error failure) :
    ∃ failure, rowsOf base plan rules = .error failure := by
  induction rules with
  | nil => cases mem
  | cons other rules ih =>
      rw [rowsOf_cons]
      cases found : filesOf base plan other with
      | error failure' => exact ⟨failure', rfl⟩
      | ok files =>
          rcases List.mem_cons.1 mem with rfl | mem
          · cases found.symm.trans h
          · obtain ⟨failure', fails⟩ := ih mem
            exact ⟨failure', by rw [fails]; rfl⟩

theorem regroup_units (f : Rule → Location → List Violation) (rows : List (Rule × List Location)) :
    regroup rows ((unitsOf rows).map fun (rule, file) => f rule file) =
      rows.map fun (rule, files) => files.flatMap (f rule) := by
  induction rows with
  | nil => rfl
  | cons row rows ih =>
      obtain ⟨rule, files⟩ := row
      have parts : (unitsOf ((rule, files) :: rows)).map (fun (rule, file) => f rule file) =
          files.map (f rule) ++ (unitsOf rows).map fun (rule, file) => f rule file := by
        simp [unitsOf]
      rw [parts, regroup, List.take_left' (by simp), List.drop_left' (by simp), ih, List.map_cons]
      dsimp only
      rw [List.flatMap_def]

def expected (base : Session) (plan : Plan) (unit : Rule × Location) :
    Except Failure (List Violation) :=
  .ok (unitOf base.tree plan.limit unit.1 unit.2)

/-- After how many actions the units of a check have been evaluated. -/
def load (base : Session) (plan : Plan) (rules : List Rule) : Nat :=
  match rowsOf base plan rules with
  | .ok rows => timeFor (fun _ => 5) (unitsOf rows)
  | .error _ => 0

/-- The state of a pool that is going to return the violations of the rules in order, unless a scan
fails or it is cancelled, after at most `n` actions. -/
def Pool.Sound (base : Session) (plan : Plan) (loud : Prop) (rules : List Rule) (n : Nat) :
    Pool → Prop
  | .scanning batch => ∃ k, k + load base plan rules + 2 ≤ n ∧
      batch.Sound base plan loud (rules.map (filesOf base plan)) k
  | .evaluating rows batch => rowsOf base plan rules = .ok rows ∧ ∃ k, k + 1 ≤ n ∧
      batch.Sound base plan loud ((unitsOf rows).map (expected base plan)) k
  | .returned _ buckets => ∃ rows, rowsOf base plan rules = .ok rows ∧
      buckets = bucketsOf base.tree plan.limit rows
  | .raised _ failure => (loud ∧ ∃ reason, failure = .cancelled reason) ∨
      ∃ rule ∈ rules, filesOf base plan rule = .error failure

theorem unit_meets (wf : base.tree.WellFormed) (pure : ∀ rule ∈ rules, rule.IsPure)
    (undisturbed : Undisturbed base plan rules) {rows : List (Rule × List Location)}
    (hrows : rowsOf base plan rules = .ok rows) :
    ∀ unit ∈ unitsOf rows,
      (unitJob plan unit.1 unit.2).Meets base plan (expected base plan unit) 5 := by
  intro unit mem
  obtain ⟨⟨rule, files⟩, hrow, hunit⟩ := List.mem_flatMap.1 mem
  obtain ⟨file, hfile, rfl⟩ := List.mem_map.1 hunit
  obtain ⟨hrule, hfiles⟩ := mem_rowsOf hrows hrow
  exact unitJob_meets (pure rule hrule) (isFile_of_filesOf wf hfiles file hfile)
    (undisturbed rule hrule files hfiles file hfile)

theorem Action.cost_le (action : Action) : action.cost ≤ 1 := by
  cases action <;> simp [Action.cost]

theorem Pool.Sound.after_scanning (wf : base.tree.WellFormed) (pure : ∀ rule ∈ rules, rule.IsPure)
    (undisturbed : Undisturbed base plan rules) {n k : Nat} {batch : Batch (List Location)}
    (le : k + load base plan rules + 2 ≤ n)
    (sound : batch.Sound base plan loud (rules.map (filesOf base plan)) k) {action : Action}
    {moved : Move (List Location)}
    (goes : moved.Sound base plan loud (rules.map (filesOf base plan)) k action.cost) :
    ∃ m, m + action.cost ≤ n ∧
      (Pool.after .scanning (.evaluate plan rules) batch.shared moved).Sound base plan loud rules m := by
  have cost := action.cost_le
  cases moved with
  | on batch' =>
      obtain ⟨m, le', sound'⟩ := goes
      exact ⟨m + load base plan rules + 2, by omega, m, Nat.le_refl _, sound'⟩
  | failed failure =>
      obtain ⟨result, mem, ends⟩ := goes
      refine ⟨0, by omega, ?_⟩
      rcases ends with rfl | ⟨hloud, reason, cancelled⟩
      · exact .inr (List.mem_map.1 mem)
      · exact .inl ⟨hloud, reason, Except.error.inj cancelled⟩
  | done lists =>
      have hrows := rowsOf_zip goes
      have units := Batch.Sound.ofJobs (unit_meets wf pure undisturbed hrows) sound.within sound.quiet
      have time : load base plan rules = timeFor (fun _ => 5) (unitsOf (rules.zip lists)) := by
        rw [load, hrows]
      exact ⟨load base plan rules + 1, by omega, hrows, _, Nat.le_of_eq (by rw [time]), units⟩

theorem Pool.Sound.after_evaluating {rows : List (Rule × List Location)}
    (hrows : rowsOf base plan rules = .ok rows) {n k : Nat} (le : k + 1 ≤ n) (shared : Shared)
    {action : Action} {moved : Move (List Violation)}
    (goes : moved.Sound base plan loud ((unitsOf rows).map (expected base plan)) k action.cost) :
    ∃ m, m + action.cost ≤ n ∧
      (Pool.after (.evaluating rows) (fun shared results => .returned shared (regroup rows results))
        shared moved).Sound base plan loud rules m := by
  have cost := action.cost_le
  cases moved with
  | on batch' =>
      obtain ⟨m, le', sound'⟩ := goes
      exact ⟨m + 1, by omega, hrows, m, Nat.le_refl _, sound'⟩
  | failed failure =>
      obtain ⟨result, mem, ends⟩ := goes
      obtain ⟨unit, -, rfl⟩ := List.mem_map.1 mem
      refine ⟨0, by omega, ?_⟩
      -- Units do not fail by themselves.
      rcases ends with same | ⟨hloud, reason, cancelled⟩
      · cases same
      · exact .inl ⟨hloud, reason, Except.error.inj cancelled⟩
  | done results =>
      refine ⟨0, by omega, rows, hrows, ?_⟩
      have values : results =
          (unitsOf rows).map fun (rule, file) => unitOf base.tree plan.limit rule file := by
        refine (List.map_inj_right fun _ _ => Except.ok.inj).1 (goes.symm.trans ?_)
        rw [List.map_map]
        rfl
      rw [values, regroup_units]
      rfl

/-- An action keeps a pool sound, and all but raising the signal bring it closer to its end. -/
theorem Pool.Sound.act (wf : base.tree.WellFormed) (pure : ∀ rule ∈ rules, rule.IsPure)
    (undisturbed : Undisturbed base plan rules) {n workers : Nat} {pool after : Pool}
    {action : Action} (h : pool.Sound base plan loud rules n) (told : action = .cancel → loud)
    (acted : pool.act plan rules workers action = some after) :
    ∃ m, m + action.cost ≤ n ∧ after.Sound base plan loud rules m := by
  cases pool with
  | scanning batch =>
      obtain ⟨k, le, sound⟩ := h
      obtain ⟨moved, hmoved, rfl⟩ := Option.map_eq_some_iff.1 acted
      exact after_scanning wf pure undisturbed le sound (sound.move told hmoved)
  | evaluating rows batch =>
      obtain ⟨hrows, k, le, sound⟩ := h
      obtain ⟨moved, hmoved, rfl⟩ := Option.map_eq_some_iff.1 acted
      exact after_evaluating hrows le batch.shared (sound.move told hmoved)
  | returned shared buckets => cases acted
  | raised shared failure => cases acted

/-- A schedule keeps a pool sound. Apart from raising the signal, it is no longer than the pool has
until its end. -/
theorem Pool.Sound.run (wf : base.tree.WellFormed) (pure : ∀ rule ∈ rules, rule.IsPure)
    (undisturbed : Undisturbed base plan rules) {n workers : Nat} {pool after : Pool}
    {schedule : List Action} (h : pool.Sound base plan loud rules n)
    (told : .cancel ∈ schedule → loud)
    (ran : pool.run plan rules workers schedule = some after) :
    ∃ m, m + schedule.countP (· ≠ .cancel) ≤ n ∧ after.Sound base plan loud rules m := by
  induction schedule generalizing pool n with
  | nil =>
      obtain rfl := Option.some.inj ran
      exact ⟨n, Nat.le_refl _, h⟩
  | cons action schedule ih =>
      obtain ⟨next, acted, ran⟩ := Option.bind_eq_some_iff.1 ran
      obtain ⟨m, le, sound⟩ := h.act wf pure undisturbed (fun same => told (by simp [same])) acted
      obtain ⟨m', le', sound'⟩ := ih sound (fun mem => told (by simp [mem])) ran
      have cost : (if action ≠ .cancel then 1 else 0) = action.cost := by cases action <;> rfl
      refine ⟨m', ?_, sound'⟩
      rw [List.countP_cons]
      simp only [decide_eq_true_eq, cost]
      omega

theorem Pool.Sound.outcome {n : Nat} {pool : Pool} (h : pool.Sound base plan loud rules n)
    {result : Except Failure (List (List Violation) × Cache)} {after : Session}
    (outcome : pool.outcome? = some (result, after)) :
    (result.isOk → result.map (·.1) =
      (rowsOf base plan rules).map (bucketsOf base.tree plan.limit)) ∧
    (¬ loud → (result.isOk ↔ (rowsOf base plan rules).isOk)) := by
  cases pool with
  | scanning batch => cases outcome
  | evaluating rows batch => cases outcome
  | returned shared buckets =>
      obtain ⟨rows, hrows, rfl⟩ := h
      cases outcome
      rw [hrows]
      exact ⟨fun _ => rfl, fun _ => Iff.rfl⟩
  | raised shared failure =>
      cases outcome
      refine ⟨nofun, fun calm => ?_⟩
      obtain ⟨rule, mem, fails⟩ := h.resolve_left fun ⟨hloud, _⟩ => calm hloud
      obtain ⟨failure', hrows⟩ := rowsOf_error mem fails
      rw [hrows]
      exact Iff.rfl

theorem Pool.Sound.start (wf : base.tree.WellFormed) :
    ∃ n, ∀ loud : Prop, (¬ loud → plan.watch.Quiet base) →
      (Pool.start plan rules base).Sound base plan loud rules n := by
  choose bound meets using fun rule => @scanJob_meets base plan wf rule
  have within : Shared.Within base plan ⟨base, []⟩ := ⟨.refl wf, nofun⟩
  exact ⟨_, fun loud quiet => ⟨_, Nat.le_refl _, .ofJobs (fun rule _ => meets rule) within quiet⟩⟩

end Pools

end LayerLint.Check
