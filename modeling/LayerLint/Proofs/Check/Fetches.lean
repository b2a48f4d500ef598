import LayerLint.Proofs.Check.Job

/-!
# Imports that threads share

Several threads fetch the imports of files at the same time. A fetch looks into the cache, reads the
file if the imports are not there, and puts them into the cache unless another fetch was faster. Between
these steps others run, and files change. `fetches_agree` says that all fetches of a file end with the
same imports all the same, since what counts is the cache and not what a fetch has read itself.

The steps of a fetch are those of the jobs that units are made of (`job_next`, `unitJob_eq`), and without
interruption they do what `importsOf` does (`whole_importJob`).
-/

namespace LayerLint.Check

/-! ## Steps of a fetch -/

/-- How far a fetch has come. -/
inductive Phase where
  | asked
  | missed
  | read (imports : List String)
  | returned (imports : List String)
  | raised (failure : Failure)

namespace Phase

/-- One step of a fetch, which nothing interrupts. -/
def next (limit : Int) (file : Location) (shared : Shared) : Phase → Phase × Shared
  | .asked =>
      match shared.cache.lookup file with
      | some imports => (.returned imports, shared)
      | none => (.missed, shared)
  | .missed =>
      match (readImports limit file).on shared.session with
      | (.ok imports, session) => (.read imports, { shared with session := session })
      | (.error failure, session) => (.raised failure, { shared with session := session })
  | .read imports =>
      match shared.cache.lookup file with
      | some kept => (.returned kept, shared)
      | none => (.returned imports, { shared with cache := shared.cache ++ [(file, imports)] })
  | .returned imports => (.returned imports, shared)
  | .raised failure => (.raised failure, shared)

end Phase

/-- What stands in a file at the moment, or why that cannot be found out. -/
def extraction (limit : Int) (file : Location) (session : Session) : Except Failure (List String) :=
  ((Import.ofFile (some limit) ⟨"/", file⟩).on session).1

/-- The imports that are made of an extraction. -/
inductive Yields : Except Failure (List String) → List String → Prop
  | found (imports : List String) : Yields (.ok imports) imports
  | unreadable (path reason : String) : Yields (.error (.fileAccess path reason)) []

theorem extraction_remember (limit : Int) (file : Location) (session : Session) (events : List Event) :
    extraction limit file { session with events := events } = extraction limit file session := by
  unfold extraction Import.ofFile
  rw [Run.on_get_bind, Run.on_get_bind]
  have same : Import.inspect session.tree (some limit) ⟨"/", file⟩
      ({ session with events := events }.absolute ⟨"/", file⟩) =
        Import.inspect session.tree (some limit) ⟨"/", file⟩ (session.absolute ⟨"/", file⟩) := rfl
  dsimp only
  rw [same]
  cases Import.inspect session.tree (some limit) ⟨"/", file⟩ (session.absolute ⟨"/", file⟩) <;> rfl

/-- A file that cannot be read counts as one without imports, and any other failure goes on. -/
theorem readImports_cases (limit : Int) (file : Location) (session : Session) :
    (∃ imports after, (readImports limit file).on session = (.ok imports, after) ∧
      Yields (extraction limit file session) imports) ∨
    ∃ failure after, (readImports limit file).on session = (.error failure, after) ∧
      extraction limit file session = .error failure ∧ ∀ imports, ¬ Yields (.error failure) imports := by
  rw [← extraction_remember limit file session (.read file :: session.events), extraction, readImports,
    Run.remember, Run.on_change_bind, Run.on_tryCatch]
  generalize (Import.ofFile (some limit) ⟨"/", file⟩).on
    { session with events := .read file :: session.events } = result
  obtain ⟨failure | imports, after⟩ := result
  · cases failure with
    | fileAccess path reason => exact .inl ⟨[], _, rfl, .unreadable path reason⟩
    | _ =>
        refine .inr ⟨_, after, rfl, rfl, ?_⟩
        intro imports yields
        cases yields
  · exact .inl ⟨imports, after, rfl, .found imports⟩

/-! ## Fetches as jobs -/

def importJob (limit : Int) (file : Location) : Job (List String) :=
  .look file fun
    | some imports => .done (.ok imports)
    | none =>
        .exec (readImports limit file) fun imports =>
          .keep file imports fun imports => .done (.ok imports)

def Job.andThen {α β : Type} : Job α → (α → Job β) → Job β
  | .done (.ok a), k => k a
  | .done (.error failure), _ => .done (.error failure)
  | .more change next, k => .more change fun shared => (next shared).andThen k

theorem andThen_exec {α β γ : Type} (x : Run γ) (k : γ → Job α) (k' : α → Job β) :
    (Job.exec x k).andThen k' = .exec x fun c => (k c).andThen k' := by
  rw [Job.exec, Job.andThen, Job.exec]
  congr 1
  funext shared
  split <;> rfl

/-- A unit is a fetch between looking at the watch and asking the rule. -/
theorem unitJob_eq (plan : Plan) (rule : Rule) (file : Location) :
    unitJob plan rule file = .exec plan.watch.check fun _ =>
      (importJob plan.limit file).andThen (askJob rule file) := by
  unfold unitJob
  congr 1
  funext _
  rw [importJob, Job.look, Job.look, Job.andThen]
  congr 1
  funext shared
  cases shared.cache.lookup file with
  | some imports => rw [Job.andThen]
  | none =>
      rw [andThen_exec]
      rfl

/-- Without interruption, a fetch does what `importsOf` does. -/
theorem whole_importJob (limit : Int) (file : Location) (shared : Shared) :
    view ((importJob limit file).whole shared) =
      (importsOf limit shared.cache file).on shared.session := by
  rw [importJob, Job.look, Job.whole, importsOf]
  cases found : shared.cache.lookup file with
  | some imports => rfl
  | none =>
      simp only [id]
      refine view_exec fun imports session => ?_
      rw [Job.keep, Job.whole]
      simp only [found, Option.getD_none]
      rfl

namespace Phase

/-- What is left to do. -/
def job (limit : Int) (file : Location) : Phase → Job (List String)
  | .asked => importJob limit file
  | .missed =>
      .exec (readImports limit file) fun imports =>
        .keep file imports fun imports => .done (.ok imports)
  | .read imports => .keep file imports fun imports => .done (.ok imports)
  | .returned imports => .done (.ok imports)
  | .raised failure => .done (.error failure)

theorem job_next (limit : Int) (file : Location) (shared : Shared) (phase : Phase) :
    (∃ result, phase.job limit file = .done result ∧ phase.next limit file shared = (phase, shared)) ∨
    ∃ change k, phase.job limit file = .more change k ∧
      change shared = (phase.next limit file shared).2 ∧
      k shared = (phase.next limit file shared).1.job limit file := by
  cases phase with
  | asked =>
      refine .inr ⟨_, _, rfl, ?_, ?_⟩
      · unfold next
        cases shared.cache.lookup file <;> rfl
      · unfold next
        cases shared.cache.lookup file <;> rfl
  | missed =>
      refine .inr ⟨_, _, rfl, ?_, ?_⟩
      · unfold next
        rcases (readImports limit file).on shared.session with ⟨_ | imports, session⟩ <;> rfl
      · unfold next
        rcases (readImports limit file).on shared.session with ⟨_ | imports, session⟩ <;> rfl
  | read imports =>
      refine .inr ⟨_, _, rfl, ?_, ?_⟩
      · unfold next
        cases shared.cache.lookup file <;> rfl
      · unfold next
        cases shared.cache.lookup file <;> rfl
  | returned imports => exact .inl ⟨_, rfl, rfl⟩
  | raised failure => exact .inl ⟨_, rfl, rfl⟩

end Phase

/-! ## Many fetches -/

structure Fetch where
  file : Location
  phase : Phase

/-- Fetches that are under way, with what they have done so far. -/
structure Race where
  shared : Shared
  fetches : List Fetch
  /-- What was found each time that a file was read. -/
  extractions : List (Location × Except Failure (List String))
  /-- The files whose imports were put into the cache, or would have been if they had not been there. -/
  stores : List Location

inductive Turn where
  /-- A fetch takes its next step. -/
  | step (i : Nat)
  /-- Somebody else changes files, or anything that is not the cache. -/
  | disturb (session : Session)

def Turn.fetch? : Turn → Option Nat
  | .step i => some i
  | .disturb _ => none

namespace Phase

def extracted (limit : Int) (file : Location) (session : Session) :
    Phase → List (Location × Except Failure (List String))
  | .missed => [(file, extraction limit file session)]
  | _ => []

def stored (file : Location) : Phase → List Location
  | .read _ => [file]
  | _ => []

end Phase

namespace Race

def start (files : List Location) (session : Session) : Race :=
  ⟨⟨session, []⟩, files.map (⟨·, .asked⟩), [], []⟩

def advance (limit : Int) (race : Race) (i : Nat) (fetch : Fetch) : Race where
  shared := (fetch.phase.next limit fetch.file race.shared).2
  fetches := race.fetches.set i { fetch with phase := (fetch.phase.next limit fetch.file race.shared).1 }
  extractions := race.extractions ++ fetch.phase.extracted limit fetch.file race.shared.session
  stores := race.stores ++ fetch.phase.stored fetch.file

/-- One turn. A fetch that has ended does nothing more. -/
def turn (limit : Int) (race : Race) : Turn → Race
  | .disturb session => { race with shared.session := session }
  | .step i =>
      match race.fetches[i]? with
      | none => race
      | some fetch => race.advance limit i fetch

def run (limit : Int) (race : Race) (schedule : List Turn) : Race :=
  schedule.foldl (turn limit) race

end Race

/-! ## What a turn keeps -/

/-- The imports were made of what was found in the file at some time. -/
def Extracted (extractions : List (Location × Except Failure (List String))) (file : Location)
    (imports : List String) : Prop :=
  ∃ outcome, (file, outcome) ∈ extractions ∧ Yields outcome imports

def Fetch.Sound (race : Race) (fetch : Fetch) : Prop :=
  match fetch.phase with
  | .asked => True
  | .missed => True
  | .read imports => Extracted race.extractions fetch.file imports
  | .returned imports => race.shared.cache.lookup fetch.file = some imports
  | .raised failure => (fetch.file, .error failure) ∈ race.extractions ∧
      ∀ imports, ¬ Yields (.error failure) imports

structure Race.Sound (race : Race) : Prop where
  keys : race.shared.cache.map Prod.fst = race.stores.eraseDups
  entries : ∀ file imports, race.shared.cache.lookup file = some imports →
    Extracted race.extractions file imports
  fetches : ∀ fetch ∈ race.fetches, fetch.Sound race

/-- Nothing is taken back. -/
structure Race.Grows (race later : Race) : Prop where
  cache : race.shared.cache <+: later.shared.cache
  extractions : race.extractions <+: later.extractions

theorem Extracted.mono {extractions later : List (Location × Except Failure (List String))}
    {file : Location} {imports : List String} (h : Extracted extractions file imports)
    (grows : extractions <+: later) : Extracted later file imports := by
  obtain ⟨outcome, mem, yields⟩ := h
  exact ⟨outcome, grows.subset mem, yields⟩

theorem lookup_of_prefix {cache later : Cache} (grows : cache <+: later) {file : Location}
    {imports : List String} (h : cache.lookup file = some imports) :
    later.lookup file = some imports := by
  obtain ⟨more, rfl⟩ := grows
  rw [List.lookup_append, h, Option.some_or]

theorem Fetch.Sound.mono {race later : Race} {fetch : Fetch} (h : fetch.Sound race)
    (grows : race.Grows later) : fetch.Sound later := by
  obtain ⟨file, phase⟩ := fetch
  cases phase with
  | asked => trivial
  | missed => trivial
  | read imports => exact Extracted.mono h grows.extractions
  | returned imports => exact lookup_of_prefix grows.cache h
  | raised failure => exact ⟨grows.extractions.subset h.1, h.2⟩

/-- What one step of a fetch can do. -/
inductive Phase.Next (limit : Int) (file : Location) (shared : Shared) : Phase → Phase → Shared → Prop
  | found {imports : List String} : shared.cache.lookup file = some imports →
      Next limit file shared .asked (.returned imports) shared
  | miss : shared.cache.lookup file = none → Next limit file shared .asked .missed shared
  | read {imports : List String} {session : Session} :
      Yields (extraction limit file shared.session) imports →
      Next limit file shared .missed (.read imports) { shared with session := session }
  | raise {failure : Failure} {session : Session} :
      extraction limit file shared.session = .error failure →
      (∀ imports, ¬ Yields (.error failure) imports) →
      Next limit file shared .missed (.raised failure) { shared with session := session }
  | kept {imports kept : List String} : shared.cache.lookup file = some kept →
      Next limit file shared (.read imports) (.returned kept) shared
  | store {imports : List String} : shared.cache.lookup file = none →
      Next limit file shared (.read imports) (.returned imports)
        { shared with cache := shared.cache ++ [(file, imports)] }
  | returned (imports : List String) :
      Next limit file shared (.returned imports) (.returned imports) shared
  | raised (failure : Failure) : Next limit file shared (.raised failure) (.raised failure) shared

theorem Phase.next_spec (limit : Int) (file : Location) (shared : Shared) (phase : Phase) :
    Next limit file shared phase (phase.next limit file shared).1 (phase.next limit file shared).2 := by
  unfold next
  cases phase with
  | asked =>
      dsimp only
      cases found : shared.cache.lookup file with
      | none => exact .miss found
      | some imports => exact .found found
  | missed =>
      dsimp only
      rcases readImports_cases limit file shared.session with
        ⟨imports, after, on_eq, yields⟩ | ⟨failure, after, on_eq, failed, barren⟩
      · rw [on_eq]
        exact .read yields
      · rw [on_eq]
        exact .raise failed barren
  | read imports =>
      dsimp only
      cases found : shared.cache.lookup file with
      | none => exact .store found
      | some kept => exact .kept found
  | returned imports => exact .returned imports
  | raised failure => exact .raised failure

section Turns

variable {limit : Int} {race later : Race} {i : Nat} {fetch : Fetch}

theorem Phase.Next.cache {file : Location} {shared after : Shared} {phase phase' : Phase}
    (h : Phase.Next limit file shared phase phase' after) : shared.cache <+: after.cache := by
  cases h with
  | store => exact List.prefix_append ..
  | _ => exact List.prefix_rfl

theorem Race.advance_grows : race.Grows (race.advance limit i fetch) :=
  ⟨(Phase.next_spec ..).cache, List.prefix_append ..⟩

theorem Race.Sound.set (h : race.Sound) (grows : race.Grows later)
    (fetches : later.fetches = race.fetches.set i fetch)
    (keys : later.shared.cache.map Prod.fst = later.stores.eraseDups)
    (entries : ∀ file imports, later.shared.cache.lookup file = some imports →
      Extracted later.extractions file imports)
    (own : fetch.Sound later) : later.Sound := by
  refine ⟨keys, entries, ?_⟩
  intro other mem
  rw [fetches] at mem
  rcases List.mem_or_eq_of_mem_set mem with mem | rfl
  · exact (h.fetches other mem).mono grows
  · exact own

/-- A step that leaves the cache alone. -/
theorem Race.Sound.set_quiet (h : race.Sound) (grows : race.Grows later)
    (fetches : later.fetches = race.fetches.set i fetch)
    (cache : later.shared.cache = race.shared.cache) (stores : later.stores = race.stores)
    (own : fetch.Sound later) : later.Sound := by
  apply h.set grows fetches
  · rw [cache, stores]
    exact h.keys
  · intro file imports found
    rw [cache] at found
    exact (h.entries file imports found).mono grows.extractions
  · exact own

theorem Race.Sound.mem_stores (h : race.Sound) {file : Location} {imports : List String}
    (found : race.shared.cache.lookup file = some imports) : file ∈ race.stores := by
  rw [← List.mem_eraseDups, ← h.keys]
  exact List.mem_map_of_mem (mem_of_lookup found)

theorem Race.Sound.not_mem_stores (h : race.Sound) {file : Location}
    (missing : race.shared.cache.lookup file = none) : file ∉ race.stores := by
  rw [← List.mem_eraseDups, ← h.keys, List.mem_map]
  rintro ⟨entry, mem, rfl⟩
  have := List.lookup_eq_none_iff.1 missing entry mem
  simp at this

theorem Race.Sound.advance (h : race.Sound) (at_i : race.fetches[i]? = some fetch) :
    (race.advance limit i fetch).Sound := by
  have own := h.fetches fetch (List.mem_of_getElem? at_i)
  have spec := Phase.next_spec limit fetch.file race.shared fetch.phase
  have grows : race.Grows (race.advance limit i fetch) := advance_grows
  unfold Race.advance at grows ⊢
  generalize fetch.phase.next limit fetch.file race.shared = result at spec grows ⊢
  obtain ⟨file, phase⟩ := fetch
  obtain ⟨phase', after⟩ := result
  dsimp only at spec grows ⊢
  cases spec with
  | found found => exact h.set_quiet grows rfl rfl (List.append_nil _) found
  | miss => exact h.set_quiet grows rfl rfl (List.append_nil _) trivial
  | read yields =>
      refine h.set_quiet grows rfl rfl (List.append_nil _) ⟨_, ?_, yields⟩
      exact List.mem_append_right _ List.mem_cons_self
  | raise failed barren =>
      refine h.set_quiet grows rfl rfl (List.append_nil _) ⟨?_, barren⟩
      rw [← failed]
      exact List.mem_append_right _ List.mem_cons_self
  | kept found =>
      apply h.set grows rfl
      · rw [Phase.stored, eraseDups_concat, if_pos (h.mem_stores found)]
        exact h.keys
      · intro other imports hit
        exact (h.entries other imports hit).mono grows.extractions
      · exact found
  | @store imports missing =>
      apply h.set grows rfl
      · rw [Phase.stored, eraseDups_concat, if_neg (h.not_mem_stores missing), List.map_append, h.keys]
        rfl
      · intro other imports' hit
        rw [List.lookup_append] at hit
        cases old : race.shared.cache.lookup other with
        | some kept =>
            rw [old] at hit
            exact (h.entries other imports' (old.trans hit)).mono grows.extractions
        | none =>
            rw [old, Option.none_or, List.lookup_cons] at hit
            split at hit
            · rename_i same
              rw [beq_iff_eq.1 same, ← Option.some.inj hit]
              exact own.mono grows
            · cases hit
      · show List.lookup file _ = _
        rw [List.lookup_append, missing, Option.none_or, List.lookup_cons_self]
  | returned imports => exact h.set_quiet grows rfl rfl (List.append_nil _) own
  | raised failure => exact h.set_quiet grows rfl rfl (List.append_nil _) (own.mono grows)

theorem Race.turn_none (missing : race.fetches[i]? = none) : race.turn limit (.step i) = race := by
  rw [turn, missing]

theorem Race.turn_step (at_i : race.fetches[i]? = some fetch) :
    race.turn limit (.step i) = race.advance limit i fetch := by
  rw [turn, at_i]

theorem Race.Sound.turn (h : race.Sound) (turn : Turn) : (race.turn limit turn).Sound := by
  cases turn with
  | disturb session => exact ⟨h.keys, h.entries, h.fetches⟩
  | step i =>
      cases at_i : race.fetches[i]? with
      | none =>
          rw [turn_none at_i]
          exact h
      | some fetch =>
          rw [turn_step at_i]
          exact h.advance at_i

theorem Race.turn_cache (turn : Turn) : race.shared.cache <+: (race.turn limit turn).shared.cache := by
  cases turn with
  | disturb session => exact List.prefix_rfl
  | step i =>
      cases at_i : race.fetches[i]? with
      | none => simp only [turn_none at_i, List.prefix_rfl]
      | some fetch =>
          rw [turn_step at_i]
          exact advance_grows.cache

/-! ## How long a fetch takes -/

/-- The steps that a fetch has still to take, at most. -/
def Phase.left : Phase → Nat
  | .asked => 3
  | .missed => 2
  | .read _ => 1
  | .returned _ => 0
  | .raised _ => 0

theorem Phase.Next.left {file : Location} {shared after : Shared} {phase phase' : Phase}
    (h : Phase.Next limit file shared phase phase' after) : phase'.left ≤ phase.left - 1 := by
  cases h <;> simp [Phase.left]

/-- The fetch at `i` is of the file, and has at most `n` steps to take. -/
def Race.Nears (race : Race) (i : Nat) (file : Location) (n : Nat) : Prop :=
  ∃ phase, race.fetches[i]? = some ⟨file, phase⟩ ∧ phase.left ≤ n

def stepsOf (i : Nat) (schedule : List Turn) : Nat :=
  (schedule.filterMap Turn.fetch?).count i

theorem Race.Nears.turn {file : Location} {n : Nat} (h : race.Nears i file n) (turn : Turn) :
    (race.turn limit turn).Nears i file (n - stepsOf i [turn]) := by
  obtain ⟨phase, at_i, left⟩ := h
  cases turn with
  | disturb session => exact ⟨phase, at_i, left⟩
  | step j =>
      by_cases same : j = i
      · subst same
        have one : stepsOf j [.step j] = 1 := by simp [stepsOf, Turn.fetch?]
        have fewer := (Phase.next_spec limit file race.shared phase).left
        rw [turn_step at_i, one]
        refine ⟨_, List.getElem?_set_self (List.getElem?_eq_some_iff.1 at_i).1, ?_⟩
        exact Nat.le_trans fewer (Nat.sub_le_sub_right left 1)
      · have none : stepsOf i [.step j] = 0 := by simp [stepsOf, Turn.fetch?, same]
        rw [none, Nat.sub_zero]
        cases at_j : race.fetches[j]? with
        | none =>
            rw [turn_none at_j]
            exact ⟨phase, at_i, left⟩
        | some other =>
            rw [turn_step at_j]
            exact ⟨phase, (List.getElem?_set_ne same).trans at_i, left⟩

end Turns

/-! ## Runs -/

namespace Race

variable {limit : Int} {race : Race}

theorem Sound.start (files : List Location) (session : Session) : (start files session).Sound := by
  refine ⟨rfl, by simp [Race.start], ?_⟩
  intro fetch mem
  obtain ⟨file, -, rfl⟩ := List.mem_map.1 mem
  trivial

theorem Sound.run (h : race.Sound) (schedule : List Turn) : (race.run limit schedule).Sound := by
  induction schedule generalizing race with
  | nil => exact h
  | cons turn schedule ih => exact ih (h.turn turn)

/-- What is in the cache stays there. -/
theorem run_cache (schedule : List Turn) :
    race.shared.cache <+: (race.run limit schedule).shared.cache := by
  induction schedule generalizing race with
  | nil => exact List.prefix_rfl
  | cons turn schedule ih => exact (turn_cache turn).trans ih

theorem Nears.run {i n : Nat} {file : Location} (h : race.Nears i file n) (schedule : List Turn) :
    (race.run limit schedule).Nears i file (n - stepsOf i schedule) := by
  induction schedule generalizing race n with
  | nil => exact h
  | cons turn schedule ih =>
      have split : stepsOf i (turn :: schedule) = stepsOf i [turn] + stepsOf i schedule := by
        rw [stepsOf, ← List.singleton_append, List.filterMap_append, List.count_append]
        rfl
      rw [split, ← Nat.sub_sub]
      exact ih (h.turn turn)

theorem start_nears {files : List Location} {session : Session} {i : Nat} {file : Location}
    (at_i : files[i]? = some file) : (start files session).Nears i file 3 :=
  ⟨.asked, by simp [start, at_i], Nat.le_refl 3⟩

end Race

/-- Fetches of one file end with the same imports, which were read from the file at some time, whatever
else is fetched and whatever becomes of the files in between. The cache only grows, by one entry for each
file that is stored. A fetch ends after three steps, and fails only if reading did so. -/
theorem fetches_agree (limit : Int) (files : List Location) (session : Session)
    (schedule : List Turn) :
    let race := (Race.start files session).run limit schedule
    (∀ a ∈ race.fetches, ∀ b ∈ race.fetches, a.file = b.file → ∀ imports imports',
      a.phase = .returned imports → b.phase = .returned imports' → imports = imports') ∧
    (∀ fetch ∈ race.fetches, ∀ imports, fetch.phase = .returned imports →
      ∃ outcome, (fetch.file, outcome) ∈ race.extractions ∧ Yields outcome imports) ∧
    (∀ more, race.shared.cache <+: (race.run limit more).shared.cache) ∧
    race.shared.cache.map Prod.fst = race.stores.eraseDups ∧
    race.shared.cache.length = race.stores.eraseDups.length ∧
    ∀ i file, files[i]? = some file → 3 ≤ stepsOf i schedule →
      (∃ imports, race.fetches[i]? = some ⟨file, .returned imports⟩) ∨
      ∃ failure, race.fetches[i]? = some ⟨file, .raised failure⟩ ∧
        (file, .error failure) ∈ race.extractions ∧ ∀ imports, ¬ Yields (.error failure) imports := by
  intro race
  have sound : race.Sound := (Race.Sound.start files session).run schedule
  have entry {fetch : Fetch} (mem : fetch ∈ race.fetches) {imports : List String}
      (returned : fetch.phase = .returned imports) :
      race.shared.cache.lookup fetch.file = some imports := by
    have := sound.fetches fetch mem
    rwa [Fetch.Sound, returned] at this
  refine ⟨?_, ?_, fun more => Race.run_cache more, sound.keys, ?_, ?_⟩
  · intro a ha b hb same imports imports' returned returned'
    have first := entry ha returned
    rw [same, entry hb returned'] at first
    exact (Option.some.inj first).symm
  · intro fetch mem imports returned
    exact sound.entries fetch.file imports (entry mem returned)
  · rw [← sound.keys, List.length_map]
  · intro i file at_i steps
    obtain ⟨phase, at_i, left⟩ : race.Nears i file (3 - stepsOf i schedule) :=
      (Race.start_nears at_i).run schedule
    have own := sound.fetches _ (List.mem_of_getElem? at_i)
    have ended : phase.left = 0 := by omega
    cases phase with
    | returned imports => exact .inl ⟨imports, at_i⟩
    | raised failure => exact .inr ⟨failure, at_i, own⟩
    | _ => cases ended

end LayerLint.Check
