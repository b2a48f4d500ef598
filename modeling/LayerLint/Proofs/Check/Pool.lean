import LayerLint.Proofs.Check.Job

/-!
# Pools

A check that evaluates several units at a time. All scans are one batch of jobs, all units the next;
of a batch at most `workers` jobs run at once. A schedule says which job takes the next step, and when
somebody raises the signal. A pool that has not come to its end can go on (`exists_act`).
-/

namespace LayerLint.Check

variable {α : Type}

/-! ## Batches of jobs -/

inductive Slot (α : Type) where
  | waiting (job : Job α)
  | running (job : Job α)
  | finished (result : Except Failure α)

namespace Slot

def isRunning : Slot α → Bool
  | .running _ => true
  | _ => false

def value? : Slot α → Option α
  | .finished (.ok a) => some a
  | _ => none

end Slot

/-- What can happen next while a batch is worked on. -/
inductive Action where
  /-- Somebody raises the signal. -/
  | cancel
  /-- A worker takes a job. -/
  | start (i : Nat)
  /-- A job that a worker has taken goes on. -/
  | step (i : Nat)
  /-- The failure of a job is noticed. -/
  | fail (i : Nat)
  /-- The results of all jobs are read. -/
  | collect
  deriving DecidableEq

/-- What an action costs of the time in which a batch ends. -/
def Action.cost : Action → Nat
  | .cancel => 0
  | _ => 1

structure Batch (α : Type) where
  shared : Shared
  slots : List (Slot α)

inductive Move (α : Type) where
  | on (batch : Batch α)
  | failed (failure : Failure)
  | done (values : List α)

namespace Batch

def ofJobs (shared : Shared) (jobs : List (Job α)) : Batch α := ⟨shared, jobs.map .waiting⟩

def set (batch : Batch α) (i : Nat) (slot : Slot α) : Batch α :=
  { batch with slots := batch.slots.set i slot }

/-- What an action makes of a batch, if it is possible. -/
def move (workers : Nat) (batch : Batch α) : Action → Option (Move α)
  | .cancel => some (.on { batch with shared.session := batch.shared.session.apply .cancel })
  | .start i =>
      match batch.slots[i]? with
      | some (.waiting job) =>
          if batch.slots.countP Slot.isRunning < workers then
            some (.on (batch.set i (.running job)))
          else none
      | _ => none
  | .step i =>
      match batch.slots[i]? with
      | some (.running (.done result)) => some (.on (batch.set i (.finished result)))
      | some (.running (.more change next)) =>
          some (.on
            { batch.set i (.running (next batch.shared)) with shared := change batch.shared })
      | _ => none
  | .fail i =>
      match batch.slots[i]? with
      | some (.finished (.error failure)) => some (.failed failure)
      | _ => none
  | .collect => (batch.slots.mapM Slot.value?).map .done

section Move

variable {workers i : Nat} {batch : Batch α}

theorem move_start {job : Job α} (at_i : batch.slots[i]? = some (.waiting job))
    (free : batch.slots.countP Slot.isRunning < workers) :
    batch.move workers (.start i) = some (.on (batch.set i (.running job))) := by
  simp only [move, at_i, free, ↓reduceIte]

theorem move_finish {result : Except Failure α}
    (at_i : batch.slots[i]? = some (.running (.done result))) :
    batch.move workers (.step i) = some (.on (batch.set i (.finished result))) := by
  simp only [move, at_i]

theorem move_step {change : Shared → Shared} {next : Shared → Job α}
    (at_i : batch.slots[i]? = some (.running (.more change next))) :
    batch.move workers (.step i) = some (.on
      { batch.set i (.running (next batch.shared)) with shared := change batch.shared }) := by
  simp only [move, at_i]

theorem move_fail {failure : Failure} (at_i : batch.slots[i]? = some (.finished (.error failure))) :
    batch.move workers (.fail i) = some (.failed failure) := by
  simp only [move, at_i]

theorem move_collect {values : List α} (hvalues : batch.slots.mapM Slot.value? = some values) :
    batch.move workers .collect = some (.done values) := by
  rw [move, hvalues, Option.map_some]

end Move

inductive Moves (batch : Batch α) : Action → Move α → Prop where
  | cancel : Moves batch .cancel
      (.on { batch with shared.session := batch.shared.session.apply .cancel })
  | start {i : Nat} {job : Job α} : batch.slots[i]? = some (.waiting job) →
      Moves batch (.start i) (.on (batch.set i (.running job)))
  | finish {i : Nat} {result : Except Failure α} :
      batch.slots[i]? = some (.running (.done result)) →
      Moves batch (.step i) (.on (batch.set i (.finished result)))
  | step {i : Nat} {change : Shared → Shared} {next : Shared → Job α} :
      batch.slots[i]? = some (.running (.more change next)) →
      Moves batch (.step i)
        (.on { batch.set i (.running (next batch.shared)) with shared := change batch.shared })
  | fail {i : Nat} {failure : Failure} : batch.slots[i]? = some (.finished (.error failure)) →
      Moves batch (.fail i) (.failed failure)
  | collect {values : List α} : batch.slots.mapM Slot.value? = some values →
      Moves batch .collect (.done values)

theorem moves_of_move {workers : Nat} {batch : Batch α} {action : Action} {moved : Move α}
    (h : batch.move workers action = some moved) : batch.Moves action moved := by
  cases action with
  | cancel =>
      obtain rfl := Option.some.inj h
      exact .cancel
  | start i =>
      simp only [move] at h
      split at h
      · rename_i job at_i
        split at h
        · obtain rfl := Option.some.inj h
          exact .start at_i
        · cases h
      · cases h
  | step i =>
      simp only [move] at h
      split at h
      · rename_i result at_i
        obtain rfl := Option.some.inj h
        exact .finish at_i
      · rename_i change next at_i
        obtain rfl := Option.some.inj h
        exact .step at_i
      · cases h
  | fail i =>
      simp only [move] at h
      split at h
      · rename_i failure at_i
        obtain rfl := Option.some.inj h
        exact .fail at_i
      · cases h
  | collect =>
      obtain ⟨values, hvalues, rfl⟩ := Option.map_eq_some_iff.1 h
      exact .collect hvalues

end Batch

/-! ## The pool of a check -/

def unitJobs (plan : Plan) (rows : List (Rule × List Location)) : List (Job (List Violation)) :=
  (unitsOf rows).map fun (rule, file) => unitJob plan rule file

/-- Puts the results of units together, rule by rule. -/
def regroup : List (Rule × List Location) → List (List Violation) → List (List Violation)
  | [], _ => []
  | (_, files) :: rows, results =>
      (results.take files.length).flatten :: regroup rows (results.drop files.length)

inductive Pool where
  | scanning (batch : Batch (List Location))
  | evaluating (rows : List (Rule × List Location)) (batch : Batch (List Violation))
  | returned (shared : Shared) (buckets : List (List Violation))
  | raised (shared : Shared) (failure : Failure)

namespace Pool

def start (plan : Plan) (rules : List Rule) (session : Session) : Pool :=
  .scanning (.ofJobs ⟨session, []⟩ (rules.map (scanJob plan)))

def evaluate (plan : Plan) (rules : List Rule) (shared : Shared) (lists : List (List Location)) :
    Pool :=
  .evaluating (rules.zip lists) (.ofJobs shared (unitJobs plan (rules.zip lists)))

/-- What becomes of a pool, by what becomes of the batch that it is working on. -/
def after (phase : Batch α → Pool) (next : Shared → List α → Pool) (shared : Shared) :
    Move α → Pool
  | .on batch => phase batch
  | .failed failure => .raised shared failure
  | .done values => next shared values

def act (plan : Plan) (rules : List Rule) (workers : Nat) : Pool → Action → Option Pool
  | .scanning batch, action =>
      (batch.move workers action).map (after .scanning (evaluate plan rules) batch.shared)
  | .evaluating rows batch, action =>
      (batch.move workers action).map (after (.evaluating rows)
        (fun shared results => .returned shared (regroup rows results)) batch.shared)
  | .returned .., _ => none
  | .raised .., _ => none

def run (plan : Plan) (rules : List Rule) (workers : Nat) (pool : Pool) (schedule : List Action) :
    Option Pool :=
  schedule.foldlM (act plan rules workers) pool

/-- The end of a pool: its violations and its cache or a failure, and the session. -/
def outcome? : Pool → Option (Except Failure (List (List Violation) × Cache) × Session)
  | .returned shared buckets => some (.ok (buckets, shared.cache), shared.session)
  | .raised shared failure => some (.error failure, shared.session)
  | _ => none

end Pool

/-! ## Something can always be done -/

theorem exists_values {slots : List (Slot α)}
    (h : ∀ slot ∈ slots, ∃ value, slot = .finished (.ok value)) :
    ∃ values, slots.mapM Slot.value? = some values := by
  induction slots with
  | nil => exact ⟨[], rfl⟩
  | cons slot slots ih =>
      obtain ⟨value, rfl⟩ := h slot (by simp)
      obtain ⟨values, hvalues⟩ := ih fun other mem => h other (by simp [mem])
      refine ⟨value :: values, ?_⟩
      rw [List.mapM_cons, hvalues]
      rfl

/-- A batch can go on or come to its end, without anyone raising the signal. -/
theorem Batch.exists_move {workers : Nat} (some_worker : 0 < workers) (batch : Batch α) :
    ∃ action moved, action ≠ .cancel ∧ batch.move workers action = some moved := by
  by_cases running : ∃ (i : Nat) (job : Job α), batch.slots[i]? = some (.running job)
  · obtain ⟨i, job, at_i⟩ := running
    cases job with
    | done result => exact ⟨.step i, _, nofun, move_finish at_i⟩
    | more change next => exact ⟨.step i, _, nofun, move_step at_i⟩
  by_cases waiting : ∃ (i : Nat) (job : Job α), batch.slots[i]? = some (.waiting job)
  · obtain ⟨i, job, at_i⟩ := waiting
    have idle : batch.slots.countP Slot.isRunning = 0 := by
      refine List.countP_eq_zero.2 fun slot mem busy => ?_
      obtain ⟨j, at_j⟩ := List.mem_iff_getElem?.1 mem
      cases slot with
      | running job => exact running ⟨j, job, at_j⟩
      | waiting job => cases busy
      | finished result => cases busy
    exact ⟨.start i, _, nofun, move_start at_i (idle ▸ some_worker)⟩
  by_cases failed : ∃ (i : Nat) (f : Failure), batch.slots[i]? = some (.finished (.error f))
  · obtain ⟨i, failure, at_i⟩ := failed
    exact ⟨.fail i, _, nofun, move_fail at_i⟩
  obtain ⟨values, hvalues⟩ : ∃ values, batch.slots.mapM Slot.value? = some values := by
    refine exists_values fun slot mem => ?_
    obtain ⟨j, at_j⟩ := List.mem_iff_getElem?.1 mem
    cases slot with
    | running job => exact absurd ⟨j, job, at_j⟩ running
    | waiting job => exact absurd ⟨j, job, at_j⟩ waiting
    | finished result =>
        cases result with
        | error failure => exact absurd ⟨j, failure, at_j⟩ failed
        | ok value => exact ⟨value, rfl⟩
  exact ⟨.collect, _, nofun, move_collect hvalues⟩

theorem Pool.exists_act (plan : Plan) (rules : List Rule) {workers : Nat}
    (some_worker : 0 < workers) {pool : Pool} (going : pool.outcome? = none) :
    ∃ action after, action ≠ .cancel ∧ pool.act plan rules workers action = some after := by
  cases pool with
  | scanning batch =>
      obtain ⟨action, moved, hne, hmoved⟩ := batch.exists_move some_worker
      exact ⟨action, _, hne, by rw [act, hmoved, Option.map_some]⟩
  | evaluating rows batch =>
      obtain ⟨action, moved, hne, hmoved⟩ := batch.exists_move some_worker
      exact ⟨action, _, hne, by rw [act, hmoved, Option.map_some]⟩
  | returned shared buckets => cases going
  | raised shared failure => cases going

end LayerLint.Check
