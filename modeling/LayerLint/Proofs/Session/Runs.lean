import LayerLint.Proofs.FileTree.Agreement
import LayerLint.Scan

/-!
# What runs give

`Run.on` is what a run gives in a session. A run that leaves the project alone changes the session in
few ways: it writes to log files, reads the clock and looks at the signal. `Gives` says that its result
is the same in all sessions that come about in this way, unless it is cancelled.
-/

namespace LayerLint

open FileTree (Agrees)

/-! ## Runs step by step -/

namespace Run

variable {α β : Type}

/-- The result of a run in a session, and the session after it. -/
def on (x : Run α) (session : Session) : Except Failure α × Session :=
  x.run.run session

theorem on_throw (failure : Failure) (session : Session) :
    on (throw failure : Run α) session = (.error failure, session) := rfl

theorem on_change (f : Session → Session) (session : Session) :
    on (change f) session = (.ok (), f session) := rfl

theorem on_bind (x : Run α) (k : α → Run β) (session : Session) :
    on (x >>= k) session =
      match on x session with
      | (.ok a, after) => on (k a) after
      | (.error failure, after) => (.error failure, after) := by
  unfold on
  rw [ExceptT.run_bind]
  simp only [StateT.run_bind]
  rcases x.run.run session with ⟨_ | a, after⟩ <;> rfl

theorem on_bind_ok {x : Run α} {session : Session} {a : α} (h : (on x session).1 = .ok a)
    (k : α → Run β) : on (x >>= k) session = on (k a) (on x session).2 := by
  rw [on_bind, show on x session = (.ok a, (on x session).2) from Prod.ext h rfl]

theorem on_bind_error {x : Run α} {session : Session} {failure : Failure}
    (h : (on x session).1 = .error failure) (k : α → Run β) :
    on (x >>= k) session = (.error failure, (on x session).2) := by
  rw [on_bind, show on x session = (.error failure, (on x session).2) from Prod.ext h rfl]

theorem on_bind_of {x : Run α} {session middle : Session} {a : α}
    (h : on x session = (.ok a, middle)) (k : α → Run β) :
    on (x >>= k) session = on (k a) middle := by
  rw [on_bind, h]

theorem on_bind_cases {x : Run α} {k : α → Run β} {session last : Session} {b : β}
    (h : on (x >>= k) session = (.ok b, last)) :
    ∃ a middle, on x session = (.ok a, middle) ∧ on (k a) middle = (.ok b, last) := by
  rw [on_bind] at h
  split at h
  · rename_i a middle first
    exact ⟨a, middle, first, h⟩
  · cases h

theorem on_get_bind (k : Session → Run α) (session : Session) :
    on (get >>= k) session = on (k session) session := rfl

theorem on_change_bind (f : Session → Session) (k : Unit → Run α) (session : Session) :
    on (change f >>= k) session = on (k ()) (f session) := rfl

theorem on_note_bind (level : Level) (source text : String) (k : Unit → Run α)
    (session : Session) :
    on (note level source text >>= k) session = on (k ()) (session.take ⟨level, source, text⟩) := rfl

theorem on_tryCatch (x : Run α) (k : Failure → Run α) (session : Session) :
    on (tryCatch x k) session =
      match on x session with
      | (.ok a, after) => (.ok a, after)
      | (.error failure, after) => on (k failure) after := by
  unfold on ExceptT.run StateT.run
  simp only [tryCatch, tryCatchThe, MonadExceptOf.tryCatch, ExceptT.tryCatch, ExceptT.mk, bind,
    StateT.bind]
  rcases x session with ⟨_ | a, after⟩ <;> rfl

theorem on_ofExcept (result : Except Failure α) (session : Session) :
    on (ofExcept result) session = (result, session) := by
  cases result <;> rfl

end Run

/-! ## Sessions of one check -/

/-- The files that have been read so far, in order. -/
def Session.reads (session : Session) : List Location :=
  session.events.reverse.filterMap fun
    | .read location => some location
    | .asked .. => none

/-- A session with a tree and nothing else in it. -/
def Session.ofTree (tree : FileTree) : Session where
  tree := tree
  folder := tree.hold []
  home := []
  environment := []
  journal := {}
  stamp := ""
  clock := ⟨0, 0⟩
  signal := .calm
  events := []

/-- A session that comes about when nothing but log files has changed. -/
structure Session.Within (base session : Session) : Prop where
  wellFormed : session.tree.WellFormed
  tree : Agrees base.journal.locations base.tree session.tree
  folder : session.folder = base.folder
  logFiles : session.journal.files = base.journal.files

/-- Nothing makes the check stop: there is no deadline, and no one raises a signal that is watched. -/
def Watch.Quiet (watch : Watch) (session : Session) : Prop :=
  watch.deadline = none ∧ (watch.signal = true → session.signal = .calm)

theorem Watch.quiet_off (session : Session) : Watch.off.Quiet session :=
  ⟨rfl, fun watched => Bool.noConfusion watched⟩

theorem Session.Within.refl {base : Session} (wf : base.tree.WellFormed) : base.Within base :=
  ⟨wf, .refl _ _, rfl, rfl⟩

theorem Session.Within.of_eq {base session after : Session} (h : base.Within session)
    (tree : after.tree = session.tree) (folder : after.folder = session.folder)
    (journal : after.journal = session.journal) : base.Within after := by
  refine ⟨?_, ?_, folder.trans h.folder, ?_⟩
  · exact tree ▸ h.wellFormed
  · exact tree ▸ h.tree
  · exact journal ▸ h.logFiles

namespace Session

variable {base session : Session} {watch : Watch}

theorem foldl_append_agrees {spare : List Location} {tree : FileTree} (wf : tree.WellFormed)
    (files : List LogFile) (mem : ∀ file ∈ files, file.location ∈ spare) (bytes : List UInt8) :
    Agrees spare tree (files.foldl (fun tree file => tree.append file.toHandle bytes) tree) := by
  induction files generalizing tree with
  | nil => exact .refl spare tree
  | cons file files ih =>
      have first := FileTree.append_agrees wf (mem file (by simp)) bytes
      exact first.trans (ih (first.wellFormed wf) fun other h => mem other (by simp [h]))

theorem Within.take (h : base.Within session) (record : Record) :
    base.Within (session.take record) := by
  unfold Session.take Journal.take
  by_cases low : record.level < session.journal.threshold
  · rw [if_pos low]
    exact h
  · rw [if_neg low]
    have logs : ∀ file ∈ session.journal.files, file.location ∈ base.journal.locations := by
      rw [h.logFiles]
      exact fun file mem => List.mem_map_of_mem mem
    have agrees := foldl_append_agrees h.wellFormed _ logs
      (Text.encode (Journal.line session.stamp record).toList)
    exact ⟨agrees.wellFormed h.wellFormed, h.tree.trans agrees, h.folder, h.logFiles⟩

theorem reads_take (session : Session) (record : Record) :
    (session.take record).reads = session.reads := rfl

end Session

namespace Run

variable {α β : Type} {base : Session} {watch : Watch}

/-- The run gives `result` in any session within `base`, unless it is cancelled; and it is not cancelled
if nothing makes the check stop. If the result is a success, the run has read the files `reads`. -/
structure Gives (base : Session) (watch : Watch) (x : Run α) (result : Except Failure α)
    (reads : List Location) : Prop where
  within : ∀ session, base.Within session → base.Within (x.on session).2
  quiet : ∀ session, base.Within session → watch.Quiet session → watch.Quiet (x.on session).2
  outcome : ∀ session, base.Within session →
    ((x.on session).1 = result ∧
        (result.isOk → (x.on session).2.reads = session.reads ++ reads)) ∨
      (¬ watch.Quiet session ∧ ∃ reason, (x.on session).1 = .error (.cancelled reason))

namespace Gives

variable {x : Run α} {k : α → Run β} {a : α} {result : Except Failure α} {final : Except Failure β}
  {reads more : List Location}

theorem of_eq (h : Gives base watch x result reads) {result' : Except Failure α}
    {reads' : List Location} (hresult : result = result') (hreads : reads = reads') :
    Gives base watch x result' reads' :=
  hresult ▸ hreads ▸ h

theorem result_eq (h : Gives base watch x result reads) {session : Session}
    (hs : base.Within session)
    (going : ∀ reason, (x.on session).1 ≠ .error (.cancelled reason)) :
    (x.on session).1 = result ∧
      (result.isOk → (x.on session).2.reads = session.reads ++ reads) :=
  (h.outcome session hs).resolve_right fun ⟨_, reason, cancelled⟩ => going reason cancelled

theorem result_eq_of_quiet (h : Gives base watch x result reads) {session : Session}
    (hs : base.Within session) (quiet : watch.Quiet session) :
    (x.on session).1 = result ∧
      (result.isOk → (x.on session).2.reads = session.reads ++ reads) :=
  (h.outcome session hs).resolve_right fun ⟨loud, _⟩ => loud quiet

theorem runs (h : Gives base watch x (.ok a) reads) {session : Session} (hs : base.Within session)
    (quiet : watch.Quiet session) :
    ∃ after, x.on session = (.ok a, after) ∧ base.Within after ∧ watch.Quiet after :=
  ⟨_, Prod.ext (h.result_eq_of_quiet hs quiet).1 rfl, h.within session hs, h.quiet session hs quiet⟩

/-- A run that returns the same in every session, and then leaves the session nearly as it was. -/
theorem of_on {f : Session → Session} (on_eq : ∀ session, base.Within session →
      x.on session = (result, f session))
    (within : ∀ session, base.Within session → base.Within (f session))
    (signal : ∀ session, (f session).signal = session.signal)
    (hreads : ∀ session, (f session).reads = session.reads ++ reads) :
    Gives base watch x result reads where
  within session h := by
    rw [on_eq session h]
    exact within session h
  quiet session h quiet := by
    rw [on_eq session h]
    exact ⟨quiet.1, fun watched => (signal session).trans (quiet.2 watched)⟩
  outcome session h := by
    rw [on_eq session h]
    exact .inl ⟨rfl, fun _ => hreads session⟩

theorem of_take (on_eq : ∀ session, base.Within session →
      x.on session = (result, session) ∨ ∃ record, x.on session = (result, session.take record)) :
    Gives base watch x result [] where
  within session h := by
    rcases on_eq session h with same | ⟨record, taken⟩
    · rwa [same]
    · rw [taken]
      exact h.take record
  quiet session h quiet := by
    rcases on_eq session h with same | ⟨record, taken⟩
    · rwa [same]
    · rw [taken]
      exact quiet
  outcome session h := by
    rcases on_eq session h with same | ⟨record, taken⟩
    · rw [same]
      exact .inl ⟨rfl, fun _ => by simp⟩
    · rw [taken]
      exact .inl ⟨rfl, fun _ => by simp [Session.reads_take]⟩

theorem pure (a : α) : Gives base watch (Pure.pure a) (.ok a) [] :=
  of_on (f := id) (fun _ _ => rfl) (fun _ h => h) (fun _ => rfl) (by simp)

theorem throw (failure : Failure) (reads : List Location) :
    Gives base watch (MonadExcept.throw failure : Run α) (.error failure) reads :=
  ⟨fun _ h => h, fun _ _ quiet => quiet, fun _ _ => .inl ⟨rfl, nofun⟩⟩

theorem ofExcept (result : Except Failure α) :
    Gives base watch (Run.ofExcept result) result [] :=
  of_on (f := id) (fun _ _ => on_ofExcept ..) (fun _ h => h) (fun _ => rfl) (by simp)

theorem note (level : Level) (source text : String) :
    Gives base watch (Run.note level source text) (.ok ()) [] :=
  of_on (fun _ _ => on_change ..) (fun _ h => h.take _) (fun _ => rfl)
    (fun session => by simp [Session.reads_take])

theorem bind (hx : Gives base watch x (.ok a) reads) (hk : Gives base watch (k a) final more) :
    Gives base watch (x >>= k) final (reads ++ more) where
  within session h := by
    rcases hx.outcome session h with ⟨ok, -⟩ | ⟨-, reason, cancelled⟩
    · rw [on_bind_ok ok]
      exact hk.within _ (hx.within session h)
    · rw [on_bind_error cancelled]
      exact hx.within session h
  quiet session h quiet := by
    rcases hx.outcome session h with ⟨ok, -⟩ | ⟨loud, -⟩
    · rw [on_bind_ok ok]
      exact hk.quiet _ (hx.within session h) (hx.quiet session h quiet)
    · exact absurd quiet loud
  outcome session h := by
    rcases hx.outcome session h with ⟨ok, hreads⟩ | ⟨loud, reason, cancelled⟩
    · rw [on_bind_ok ok]
      rcases hk.outcome _ (hx.within session h) with ⟨hfinal, hmore⟩ | ⟨loud, cancelled⟩
      · exact .inl ⟨hfinal, fun h => by rw [hmore h, hreads rfl, List.append_assoc]⟩
      · exact .inr ⟨fun quiet => loud (hx.quiet session h quiet), cancelled⟩
    · rw [on_bind_error cancelled]
      exact .inr ⟨loud, reason, rfl⟩

theorem skip_bind (hx : Gives base watch x (.ok a) []) (hk : Gives base watch (k a) final reads) :
    Gives base watch (x >>= k) final reads :=
  (hx.bind hk).of_eq rfl (List.nil_append _)

theorem bind_skip (hx : Gives base watch x (.ok a) reads) (hk : Gives base watch (k a) final []) :
    Gives base watch (x >>= k) final reads :=
  (hx.bind hk).of_eq rfl (List.append_nil _)

theorem bind_error {failure : Failure} (hx : Gives base watch x (.error failure) reads)
    (more : List Location) : Gives base watch (x >>= k) (.error failure) more := by
  have fails {session : Session} (h : base.Within session) :
      ∃ other, (x.on session).1 = .error other := by
    rcases hx.outcome session h with ⟨error, -⟩ | ⟨-, reason, error⟩
    · exact ⟨_, error⟩
    · exact ⟨_, error⟩
  refine ⟨fun session h => ?_, fun session h quiet => ?_, fun session h => ?_⟩ <;>
    obtain ⟨other, error⟩ := fails h <;> rw [on_bind_error error]
  · exact hx.within session h
  · exact hx.quiet session h quiet
  · rcases hx.outcome session h with ⟨same, -⟩ | ⟨loud, reason, same⟩
    · exact .inl ⟨by rw [← Except.error.inj (error.symm.trans same)], nofun⟩
    · exact .inr ⟨loud, reason, by rw [← Except.error.inj (error.symm.trans same)]⟩

theorem bind_fails {failure : Failure} (hx : Gives base watch x (.ok a) reads)
    (hk : Gives base watch (k a) (.error failure) more) :
    Gives base watch (x >>= k) (.error failure) more where
  within := (hx.bind hk).within
  quiet := (hx.bind hk).quiet
  outcome session hs := ((hx.bind hk).outcome session hs).imp_left fun ⟨error, _⟩ => ⟨error, nofun⟩

theorem seq {f : α → Except Failure β} (hx : Gives base watch x result reads)
    (hk : ∀ a, result = .ok a → Gives base watch (k a) (f a) more) :
    Gives base watch (x >>= k) (result >>= f) (reads ++ more) := by
  cases result with
  | error failure => exact hx.bind_error _
  | ok a => exact hx.bind (hk a rfl)

/-- What a run sees of the session it is in makes no difference. -/
theorem get {k : Session → Run β}
    (h : ∀ session, base.Within session → Gives base watch (k session) final reads) :
    Gives base watch (MonadState.get >>= k) final reads where
  within session hs := (h session hs).within session hs
  quiet session hs := (h session hs).quiet session hs
  outcome session hs := (h session hs).outcome session hs

/-- What the first run returns makes no difference, as long as it has the property `P`. -/
theorem any_bind {P : α → Prop} {f : Session → Session}
    (hx : ∀ session, ∃ a, P a ∧ x.on session = (.ok a, f session))
    (within : ∀ session, base.Within session → base.Within (f session))
    (signal : ∀ session, (f session).signal = session.signal)
    (hreads : ∀ session, (f session).reads = session.reads)
    (hk : ∀ a, P a → Gives base watch (k a) final reads) :
    Gives base watch (x >>= k) final reads := by
  have quiet {session : Session} (h : watch.Quiet session) : watch.Quiet (f session) :=
    ⟨h.1, fun watched => (signal session).trans (h.2 watched)⟩
  have on_eq (session : Session) : ∃ a, P a ∧ (x >>= k).on session = (k a).on (f session) := by
    obtain ⟨a, ha, on_eq⟩ := hx session
    exact ⟨a, ha, by rw [on_bind, on_eq]⟩
  refine ⟨fun session h => ?_, fun session h hq => ?_, fun session h => ?_⟩ <;>
    obtain ⟨a, ha, eq⟩ := on_eq session <;> rw [eq]
  · exact (hk a ha).within _ (within session h)
  · exact (hk a ha).quiet _ (within session h) (quiet hq)
  · rw [← hreads session]
    exact ((hk a ha).outcome _ (within session h)).imp_right
      fun ⟨loud, cancelled⟩ => ⟨fun hq => loud (quiet hq), cancelled⟩

theorem time_bind {k : Float → Run β} (hk : ∀ now, Gives base watch (k now) final reads) :
    Gives base watch (Run.time >>= k) final reads :=
  any_bind (P := fun _ => True) (fun session => ⟨session.clock.now, trivial, rfl⟩)
    (fun _ h => h.of_eq rfl rfl rfl) (fun _ => rfl) (fun _ => rfl) fun now _ => hk now

theorem of_quiet_iff {other : Watch} (h : Gives base other x result reads)
    (quiet : ∀ session, other.Quiet session ↔ watch.Quiet session) :
    Gives base watch x result reads where
  within := h.within
  quiet session hs hq := (quiet _).1 (h.quiet session hs ((quiet session).2 hq))
  outcome session hs := (h.outcome session hs).imp_right
    fun ⟨loud, cancelled⟩ => ⟨fun hq => loud ((quiet session).2 hq), cancelled⟩

theorem remember_asked (rule : Rule) (file : String) (imports : List String) :
    Gives base watch (Run.remember (.asked rule file imports)) (.ok ()) [] :=
  of_on (fun _ _ => on_change ..) (fun _ h => h.of_eq rfl rfl rfl) (fun _ => rfl)
    (by simp [Session.reads])

theorem remember_read (location : Location) :
    Gives base watch (Run.remember (.read location)) (.ok ()) [location] :=
  of_on (fun _ _ => on_change ..) (fun _ h => h.of_eq rfl rfl rfl) (fun _ => rfl)
    (by simp [Session.reads])

end Gives

/-! ## Looking for reasons to stop -/

/-- A look that sees nothing if nothing makes the check stop. -/
structure Looks (base : Session) (watch : Watch) (x : Run Bool) : Prop where
  within : ∀ session, base.Within session → base.Within (x.on session).2
  quiet : ∀ session, watch.Quiet session → watch.Quiet (x.on session).2
  reads : ∀ session, (x.on session).2.reads = session.reads
  outcome : ∀ session,
    (x.on session).1 = .ok false ∨ (¬ watch.Quiet session ∧ (x.on session).1 = .ok true)

theorem Looks.bind {x : Run Bool} {k : Bool → Run α} {result : Except Failure α}
    {reads : List Location} (hx : Looks base watch x)
    (stop : ∃ reason, ∀ session, (k true).on session = (.error (.cancelled reason), session))
    (hk : Gives base watch (k false) result reads) : Gives base watch (x >>= k) result reads := by
  obtain ⟨reason, stop⟩ := stop
  refine ⟨fun session h => ?_, fun session h quiet => ?_, fun session h => ?_⟩
  · rcases hx.outcome session with ok | ⟨-, set⟩
    · rw [on_bind_ok ok]
      exact hk.within _ (hx.within session h)
    · rw [on_bind_ok set, stop]
      exact hx.within session h
  · rcases hx.outcome session with ok | ⟨loud, -⟩
    · rw [on_bind_ok ok]
      exact hk.quiet _ (hx.within session h) (hx.quiet session quiet)
    · exact absurd quiet loud
  · rcases hx.outcome session with ok | ⟨loud, set⟩
    · rw [on_bind_ok ok, ← hx.reads session]
      refine (hk.outcome _ (hx.within session h)).imp_right ?_
      exact fun ⟨loud, cancelled⟩ => ⟨fun quiet => loud (hx.quiet session quiet), cancelled⟩
    · rw [on_bind_ok set, stop]
      exact .inr ⟨loud, reason, rfl⟩

theorem looks_cancelled : Looks base watch watch.cancelled := by
  unfold Watch.cancelled
  split
  · rename_i watched
    refine ⟨fun session h => h.of_eq rfl rfl rfl, fun session quiet => ⟨quiet.1, fun _ => ?_⟩,
      fun _ => rfl, fun session => ?_⟩
    · show session.signal.poll.2 = .calm
      rw [quiet.2 watched]
      rfl
    · show Except.ok session.signal.poll.1 = _ ∨ _ ∧ Except.ok session.signal.poll.1 = _
      by_cases quiet : watch.Quiet session
      · rw [quiet.2 watched]
        exact .inl rfl
      · cases session.signal.poll.1 with
        | false => exact .inl rfl
        | true => exact .inr ⟨quiet, rfl⟩
  · exact ⟨fun _ h => h, fun _ quiet => quiet, fun _ => rfl, fun _ => .inl rfl⟩

theorem looks_expired : Looks base watch watch.expired := by
  unfold Watch.expired
  split
  · exact ⟨fun _ h => h, fun _ quiet => quiet, fun _ => rfl, fun _ => .inl rfl⟩
  · rename_i deadline hdeadline
    have loud (session : Session) : ¬ watch.Quiet session := by
      rintro ⟨none, -⟩
      rw [hdeadline] at none
      cases none
    refine ⟨fun session h => h.of_eq rfl rfl rfl, fun session quiet => absurd quiet (loud session),
      fun _ => rfl, fun session => ?_⟩
    show Except.ok (decide (session.clock.now ≥ deadline)) = _ ∨
      _ ∧ Except.ok (decide (session.clock.now ≥ deadline)) = _
    cases decide (session.clock.now ≥ deadline) with
    | false => exact .inl rfl
    | true => exact .inr ⟨loud session, rfl⟩

theorem Looks.orElse {x y : Run Bool} (hx : Looks base watch x) (hy : Looks base watch y) :
    Looks base watch (x >>= fun set => if set then pure true else y) where
  within session h := by
    rcases hx.outcome session with clear | ⟨-, set⟩
    · rw [on_bind_ok clear]
      exact hy.within _ (hx.within session h)
    · rw [on_bind_ok set]
      exact hx.within session h
  quiet session quiet := by
    rcases hx.outcome session with clear | ⟨loud, -⟩
    · rw [on_bind_ok clear]
      exact hy.quiet _ (hx.quiet session quiet)
    · exact absurd quiet loud
  reads session := by
    rcases hx.outcome session with clear | ⟨-, set⟩
    · rw [on_bind_ok clear]
      exact (hy.reads _).trans (hx.reads session)
    · rw [on_bind_ok set]
      exact hx.reads session
  outcome session := by
    rcases hx.outcome session with clear | ⟨loud, set⟩
    · rw [on_bind_ok clear]
      refine (hy.outcome (x.on session).2).imp_right ?_
      exact fun ⟨loud, set⟩ => ⟨fun quiet => loud (hx.quiet session quiet), set⟩
    · rw [on_bind_ok set]
      exact .inr ⟨loud, rfl⟩

theorem looks_isSet : Looks base watch watch.isSet :=
  looks_cancelled.orElse looks_expired

theorem Gives.check : Gives base watch watch.check (.ok ()) [] := by
  refine looks_cancelled.bind ⟨_, fun _ => rfl⟩ ?_
  exact looks_expired.bind ⟨_, fun _ => rfl⟩ (.pure ())

end Run

end LayerLint
