import LayerLint.Proofs.Check.Contained

/-!
# Why a check fails

A check fails while it prepares, or because a scan fails, or because its time is up; `run_error` says
that these are all the reasons. Reading imports and asking rules never fails, whatever is in the files.
-/

namespace LayerLint

namespace Run

variable {α β : Type} {base : Session} {watch : Watch} {P : Failure → Prop} {x : Run α}
  {k : α → Run β} {result : Except Failure α} {reads : List Location}

/-- In every session within `base` the run stays within `base`, and it fails only by failures with the
property `P`. -/
def FailsBy (base : Session) (P : Failure → Prop) (x : Run α) : Prop :=
  ∀ session, base.Within session →
    base.Within (x.on session).2 ∧ ∀ failure, (x.on session).1 = .error failure → P failure

/-- Being cancelled is among the failures `P`, unless nothing can stop the check. -/
def Covers (P : Failure → Prop) (watch : Watch) : Prop :=
  watch.deadline ≠ none ∨ watch.signal = true → ∀ reason, P (.cancelled reason)

theorem covers_off : Covers P .off :=
  fun loud => absurd loud (by simp [Watch.off])

namespace FailsBy

theorem of_gives (h : Gives base watch x result reads) (covers : Covers P watch)
    (fails : ∀ failure, result = .error failure → P failure) : FailsBy base P x := by
  refine fun session hs => ⟨h.within session hs, fun failure failed => ?_⟩
  rcases h.outcome session hs with ⟨same, -⟩ | ⟨loud, reason, cancelled⟩
  · exact fails failure (same.symm.trans failed)
  · obtain rfl := Except.error.inj (cancelled.symm.trans failed)
    refine covers ?_ reason
    by_contra silent
    rw [not_or, ne_eq, not_not] at silent
    exact loud ⟨silent.1, fun watched => absurd watched silent.2⟩

theorem of_ok {a : α} (h : Gives base .off x (.ok a) reads) : FailsBy base P x :=
  of_gives h covers_off nofun

theorem pure (a : α) : FailsBy base P (Pure.pure a) := of_ok (.pure a)

theorem throw_bind {failure : Failure} (h : P failure) :
    FailsBy base P ((throw failure : Run α) >>= k) :=
  fun _ hs => ⟨hs, fun _ same => Except.error.inj same ▸ h⟩

theorem bind (hx : FailsBy base P x) (hk : ∀ a, FailsBy base P (k a)) :
    FailsBy base P (x >>= k) := by
  intro session hs
  obtain ⟨within, fails⟩ := hx session hs
  cases result : (x.on session).1 with
  | ok a =>
      rw [on_bind_ok result]
      exact hk a _ within
  | error failure =>
      rw [on_bind_error result]
      exact ⟨within, fun other same => Except.error.inj same ▸ fails failure result⟩

theorem seq (hx : Gives base watch x result reads) (covers : Covers P watch)
    (fails : ∀ failure, result = .error failure → P failure)
    (hk : ∀ a, result = .ok a → FailsBy base P (k a)) : FailsBy base P (x >>= k) := by
  intro session hs
  cases returned : (x.on session).1 with
  | ok a =>
      rw [on_bind_ok returned]
      rcases hx.outcome session hs with ⟨same, -⟩ | ⟨-, reason, cancelled⟩
      · exact hk a (same.symm.trans returned) _ (hx.within session hs)
      · cases cancelled.symm.trans returned
  | error failure =>
      rw [on_bind_error returned]
      obtain ⟨within, fails⟩ := of_gives hx covers fails session hs
      exact ⟨within, fun other same => Except.error.inj same ▸ fails failure returned⟩

theorem get {k : Session → Run β} (h : ∀ session, base.Within session → FailsBy base P (k session)) :
    FailsBy base P (MonadState.get >>= k) :=
  fun session hs => h session hs session hs

theorem time_bind {k : Float → Run β} (hk : ∀ now, FailsBy base P (k now)) :
    FailsBy base P (Run.time >>= k) :=
  fun session hs => hk session.clock.now _ (hs.of_eq rfl rfl rfl)

end FailsBy

end Run

/-! ## Scans that fail -/

namespace Scan

variable {tree : FileTree} {options : Options} {glob : Glob} {root : Location}

theorem findRoot_error {folder : Handle} {given : PathName} {failure : Failure}
    (h : findRoot tree folder given = .error failure) :
    (∃ path reason, failure = .invalidPath path reason) ∨ given.parts.any FileTree.hasNull = true ∨
      ∃ path, tree.resolve folder given = .ok path ∧ tree.status path.parts = .error .nameTooLong := by
  unfold findRoot at h
  split at h
  · rename_i failed
    refine .inr (.inl ?_)
    by_contra noNull
    unfold FileTree.resolve at failed
    rw [if_neg noNull] at failed
    dsimp only at failed
    split at failed
    · cases failed
    · split at failed <;> cases failed
  · cases h
    exact .inl ⟨_, _, rfl⟩
  · rename_i path resolved
    split at h
    · cases h
      exact .inl ⟨_, _, rfl⟩
    · rename_i overlong
      exact .inr (.inr ⟨path, resolved, overlong⟩)
    · cases h
      exact .inl ⟨_, _, rfl⟩
    · cases h
    · cases h
      exact .inl ⟨_, _, rfl⟩

/-- A path below the root that a scan selects, other than a folder, and that is too long to be looked
up, or where a link leads on to a name that is too long. -/
structure Overlong (tree : FileTree) (options : Options) (glob : Glob) (root : Location)
    (rel : List String) : Prop where
  shown : ∀ name ∈ rel, options.keepsName name = true
  selected : glob.selects (relativeText rel) = true
  notExcluded : options.drops (relativeText rel) = false
  foldersNotExcluded : ∀ above, IsAncestor above rel → options.dropsFolder (relativeText above) = false
  notFolder : ∃ entry, entryOf? tree (root ++ rel) = some entry ∧ entry ≠ .folder
  overlong : tree.status (root ++ rel) = .error .nameTooLong

def Kept (options : Options) (parts : List String) : Prop :=
  (∀ name ∈ parts, options.keepsName name = true) ∧
    ∀ above, above ≠ [] → above <+: parts → options.dropsFolder (relativeText above) = false

theorem Kept.nil : Kept options [] :=
  ⟨by simp, fun _ ne front => absurd (List.prefix_nil.1 front) ne⟩

theorem Kept.concat {parts : List String} {name : String} (h : Kept options parts)
    (keeps : options.keepsName name = true)
    (drops : options.dropsFolder (relativeText (parts ++ [name])) = false) :
    Kept options (parts ++ [name]) := by
  refine ⟨fun other mem => ?_, fun above ne front => ?_⟩
  · rcases List.mem_append.1 mem with mem | mem
    · exact h.1 other mem
    · exact List.mem_singleton.1 mem ▸ keeps
  · rcases List.prefix_concat_iff.1 front with rfl | front
    · exact drops
    · exact h.2 above ne front

theorem overlong_of_selectsOverlong {parts : List String} {location : Location}
    (kept : Kept options parts) (located : tree.locate (root ++ parts) = .ok location)
    (stuck : selectsOverlong tree options glob root parts location = true) :
    ∃ rel, Overlong tree options glob root rel := by
  obtain ⟨name, selected, notFolder, overlong⟩ := selectsOverlong_iff.1 stuck
  simp only [selectedNames, List.mem_filter, Bool.and_eq_true, Bool.not_eq_true', and_assoc] at selected
  obtain ⟨mem, keeps, selects, drops⟩ := selected
  refine ⟨parts ++ [name], ?_, selects, drops, fun above ancestor => ?_, ?_, ?_⟩
  · intro other mem
    rcases List.mem_append.1 mem with mem | mem
    · exact kept.1 other mem
    · exact List.mem_singleton.1 mem ▸ keeps
  · obtain ⟨ne, front⟩ := isAncestor_concat.1 ancestor
    exact kept.2 above ne front
  · obtain ⟨entry, hentry⟩ := get?_of_mem_names mem
    refine ⟨entry, ?_, fun folder => notFolder (folder ▸ hentry)⟩
    unfold entryOf?
    rw [← List.append_assoc, List.getLast?_concat, List.dropLast_concat]
    simp only [located, hentry]
  · rw [← List.append_assoc]
    exact overlong

theorem overlong_of_walkFrom (depth : Nat) {parts : List String} (kept : Kept options parts)
    (seen : List Location) :
    ∀ visit ∈ (walkFrom tree options glob root depth parts seen).1, visit.stuck = true →
      ∃ rel, Overlong tree options glob root rel := by
  induction depth generalizing parts seen with
  | zero => simp [walkFrom]
  | succ depth ih =>
      rw [walkFrom]
      split
      · simp
      · rename_i location located
        split
        · simp
        · refine foldl_visits_all _ (fun name mem seen => ?_) _ _ fun visit mem stuck => ?_
          · simp only [subfolders, List.mem_filter, List.mem_mergeSort, Bool.and_eq_true,
              Bool.not_eq_true'] at mem
            exact ih (kept.concat mem.1.2.1.2 mem.1.2.2) seen
          · obtain rfl := List.mem_singleton.1 mem
            exact overlong_of_selectsOverlong kept located stuck

theorem found_error {folder : Handle} {given : PathName} {pattern : String} {failure : Failure}
    (h : found tree folder options given pattern = .error failure) :
    findRoot tree folder given = .error failure ∨ Glob.compile pattern = .error failure ∨
      ∃ root glob rel, findRoot tree folder given = .ok root ∧ Glob.compile pattern = .ok glob ∧
        Overlong tree options glob root rel := by
  rcases bind_eq_error.1 h with h | ⟨root, hroot, h⟩
  · exact .inl h
  rcases bind_eq_error.1 h with h | ⟨glob, hglob, h⟩
  · exact .inr (.inl h)
  dsimp only at h
  split at h
  · rename_i stuck
    obtain ⟨visit, mem, stuck⟩ := List.any_eq_true.1 stuck
    obtain ⟨rel, overlong⟩ := overlong_of_walkFrom _ .nil _ visit mem stuck
    exact .inr (.inr ⟨root, glob, rel, hroot, hglob, overlong⟩)
  · cases h

end Scan

namespace Check

open Run (FailsBy Covers covers_off)

variable {base : Session} {plan : Plan} {P : Failure → Prop}

/-! ## Units -/

theorem readImports_failsBy {file : Location} (isFile : base.tree.isFile file = true) (limit : Int) :
    FailsBy base P (readImports limit file) := by
  refine .bind (.of_ok (.remember_read file)) fun _ session hs => ?_
  have possible := inspect_possible ((hs.tree.isFile file).trans isFile) (some limit) ⟨"/", file⟩
  rw [Run.on_tryCatch, Import.ofFile, Run.on_get_bind]
  change Import.inspect session.tree (some limit) ⟨"/", file⟩ (session.absolute ⟨"/", file⟩) ≠ _
    at possible
  -- imports that cannot be read count as none; only a path that cannot be asked for would fail
  cases extraction : Import.inspect session.tree (some limit) ⟨"/", file⟩
      (session.absolute ⟨"/", file⟩) with
  | noLanguage => exact ⟨hs.take _, fun _ failed => by cases failed⟩
  | tooLarge size => exact ⟨hs.take _, fun _ failed => by cases failed⟩
  | found imports => exact ⟨hs, fun _ failed => by cases failed⟩
  | unreadable reason => exact ⟨hs.take _, fun _ failed => by cases failed⟩
  | impossible => exact absurd extraction possible

theorem importsOf_failsBy {file : Location} (isFile : base.tree.isFile file = true) (limit : Int)
    (cache : Cache) : FailsBy base P (importsOf limit cache file) := by
  unfold importsOf
  split
  · exact .pure _
  · exact (readImports_failsBy isFile limit).bind fun _ => .pure _

theorem evaluateAll_failsBy (covers : Covers P plan.watch) {rule : Rule} (harmless : rule.IsHarmless)
    {files : List Location} (isFile : ∀ file ∈ files, base.tree.isFile file = true) (cache : Cache) :
    FailsBy base P (evaluateAll plan rule cache files) := by
  induction files generalizing cache with
  | nil => exact .pure _
  | cons file files ih =>
      rw [List.forall_mem_cons] at isFile
      refine .bind (.bind (.of_gives .check covers nofun) fun _ => ?_) fun _ =>
        (ih isFile.2 _).bind fun _ => .pure _
      refine (importsOf_failsBy isFile.1 _ cache).bind fun _ => ?_
      exact (FailsBy.of_ok (ask_gives harmless _ _)).bind fun _ => .pure _

/-! ## All rules -/

theorem exists_of_rowsOf_error {rules : List Rule} {failure : Failure}
    (h : rowsOf base plan rules = .error failure) :
    ∃ rule ∈ rules, filesOf base plan rule = .error failure := by
  induction rules with
  | nil => cases rowsOf_nil.symm.trans h
  | cons rule rules ih =>
      rw [rowsOf_cons] at h
      rcases bind_eq_error.1 h with h | ⟨files, -, h⟩
      · exact ⟨rule, by simp, h⟩
      rcases bind_eq_error.1 h with h | ⟨more, -, h⟩
      · obtain ⟨other, mem, failed⟩ := ih h
        exact ⟨other, by simp [mem], failed⟩
      · cases h

section Rules

variable (wf : base.tree.WellFormed) (covers : Covers P plan.watch) {rules : List Rule}
  (harmless : ∀ rule ∈ rules, rule.IsHarmless)
  (scans : ∀ rule ∈ rules, ∀ failure, filesOf base plan rule = .error failure → P failure)

include wf covers harmless scans

theorem runInTurn_failsBy (cache : Cache) : FailsBy base P (runInTurn plan cache rules) := by
  induction rules generalizing cache with
  | nil => exact .pure _
  | cons rule rules ih =>
      rw [List.forall_mem_cons] at harmless scans
      refine .bind (.of_gives .check covers nofun) fun _ => ?_
      refine .seq (scan_gives wf rule) covers scans.1 fun files hfiles => ?_
      refine (evaluateAll_failsBy covers harmless.1 (isFile_of_filesOf wf hfiles) cache).bind fun _ => ?_
      refine .bind (.of_ok (.note ..)) fun _ => ?_
      exact (ih harmless.2 scans.2 _).bind fun _ => .pure _

theorem runTogether_failsBy : FailsBy base P (runTogether plan rules) := by
  have evaluated {rows : List (Rule × List Location)} (cache : Cache)
      (known : ∀ row ∈ rows, row.1 ∈ rules ∧ filesOf base plan row.1 = .ok row.2) :
      FailsBy base P (evaluateRows plan cache rows) := by
    induction rows generalizing cache with
    | nil => exact .pure _
    | cons row rows ih =>
        rw [List.forall_mem_cons] at known
        refine (evaluateAll_failsBy covers (harmless _ known.1.1)
          (isFile_of_filesOf wf known.1.2) cache).bind fun _ => ?_
        exact (ih _ known.2).bind fun _ => .pure _
  have scanned : ∀ failure, rowsOf base plan rules = .error failure → P failure := by
    intro failure failed
    obtain ⟨rule, mem, failed⟩ := exists_of_rowsOf_error failed
    exact scans rule mem failure failed
  refine .bind (.of_gives (await_gives _) covers nofun) fun _ => ?_
  refine .seq (scanAll_gives wf rules) covers scanned fun rows hrows => ?_
  refine .bind (.of_gives (await_gives _) covers nofun) fun _ => ?_
  exact evaluated [] fun row mem => mem_rowsOf hrows mem

end Rules

/-! ## The whole check -/

theorem startWatch_failsBy {signal : Bool} {timeout : Value} {α : Type} {k : Watch → Run α}
    (fails : ∀ failure, limitOf timeout = .error failure → P failure)
    (hk : ∀ limit watch, limitOf timeout = .ok limit → watch.signal = signal →
      (watch.deadline = none ↔ limit = none) → FailsBy base P (k watch)) :
    FailsBy base P (startWatch signal timeout >>= k) := by
  unfold startWatch
  unfold limitOf at fails hk
  cases number : timeout.number? with
  | none =>
      simp only [number] at fails
      exact .throw_bind (fails _ rfl)
  | some n =>
      simp only [number] at fails hk ⊢
      by_cases above : n.above 0
      · simp only [above, ↓reduceIte, bind_assoc] at fails hk ⊢
        refine .time_bind fun now => ?_
        cases limit : seconds n with
        | error failure =>
            rw [limit] at fails
            exact .throw_bind (fails _ rfl)
        | ok seconds =>
            rw [limit] at hk
            exact hk _ _ rfl rfl (by simp)
      · simp only [above, Bool.false_eq_true, ↓reduceIte] at hk ⊢
        exact hk _ _ rfl rfl .rfl

/-- A check whose rules are harmless fails only while it prepares, because the scan of a rule fails, or
because it is cancelled; and without a deadline and a signal it is not cancelled. -/
theorem run_error {settings : Settings} {registry : Style.Registry} {request : Request}
    {signal : Bool} (wf : base.tree.WellFormed) {session : Session} (hs : base.Within session)
    (harmless : ∀ candidate ∈ request.extra, candidate.IsHarmless) {failure : Failure}
    (h : ((run settings registry request signal).on session).1 = .error failure) :
    planOf settings registry request base = .error failure ∨
      (∃ plan rule, planOf settings registry request base = .ok plan ∧ rule ∈ plan.rules ∧
        filesOf base plan rule = .error failure) ∨
      ∃ reason, failure = .cancelled reason ∧
        (limitOf settings.timeout ≠ .ok none ∨ signal = true) := by
  let Q (failure : Failure) : Prop :=
    planOf settings registry request base = .error failure ∨
      (∃ plan rule, planOf settings registry request base = .ok plan ∧ rule ∈ plan.rules ∧
        filesOf base plan rule = .error failure) ∨
      ∃ reason, failure = .cancelled reason ∧
        (limitOf settings.timeout ≠ .ok none ∨ signal = true)
  suffices all : FailsBy base Q (run settings registry request signal) from
    (all session hs).2 failure h
  refine .get fun current hs => ?_
  rw [Scan.findRoot_agrees hs.tree, hs.folder]
  refine .seq (.ofExcept _) covers_off (fun failure failed => .inl ?_) fun root hroot => ?_
  · rw [planOf, failed]
    rfl
  refine .seq (selectRules_gives ..) covers_off (fun failure failed => .inl ?_) fun rules hrules => ?_
  · rw [planOf, hroot, failed]
    rfl
  refine startWatch_failsBy (fun failure failed => .inl ?_) fun limit watch hlimit hsignal hdeadline => ?_
  · rw [planOf, hroot, hrules, failed]
    rfl
  refine .seq (.ofExcept _) covers_off (fun failure failed => .inl ?_) fun excludes hexcludes => ?_
  · rw [planOf, hroot, hrules, hlimit, failed]
    rfl
  refine .seq (.ofExcept _) covers_off (fun failure failed => .inl ?_) fun size hsize => ?_
  · rw [planOf, hroot, hrules, hlimit, hexcludes, failed]
    rfl
  let options : Scan.Options := ⟨settings.followLinks.isTrue, settings.allowHidden.isTrue, excludes⟩
  have hplan : planOf settings registry request base = .ok ⟨root, rules, options, size, .off⟩ := by
    rw [planOf, hroot, hrules, hlimit, hexcludes, hsize]
    rfl
  have covers : Covers Q watch := by
    intro loud reason
    refine .inr (.inr ⟨reason, rfl, loud.imp (fun deadline never => ?_) hsignal.symm.trans⟩)
    exact deadline (hdeadline.2 (Except.ok.inj (hlimit.symm.trans never)))
  have scans : ∀ rule ∈ rules, ∀ failure,
      filesOf base ⟨root, rules, options, size, watch⟩ rule = .error failure → Q failure :=
    fun rule mem failure failed => .inr (.inl ⟨_, rule, hplan, mem, failed⟩)
  have calm := Rule.listed_isHarmless harmless hrules
  refine .bind (.of_ok (.note ..)) fun _ => .time_bind fun start => ?_
  cases settings.parallel
  · refine (runInTurn_failsBy wf covers calm scans []).bind fun _ => .time_bind fun finish => ?_
    exact .bind (.of_ok (.note ..)) fun _ => .pure _
  · refine (runTogether_failsBy wf covers calm scans).bind fun _ => .time_bind fun finish => ?_
    exact .bind (.of_ok (.note ..)) fun _ => .pure _

/-! ## What a check does not guard against -/

/-- The paths that a check takes as its root: first the one it is given, then the folder it has found. -/
inductive IsRoot (session : Session) (root : PathName) : PathName → Prop where
  | given : IsRoot session root root
  | found {location : Location}
      (found : Scan.findRoot session.tree session.folder root = .ok location) :
      IsRoot session root ⟨"/", location⟩

/-- What makes a check fail although its settings have been accepted: a root whose path cannot be asked
for, a deadline or a size that is no number of the right type, an excluded pattern that is none, or a
file that a rule selects and whose path is too long. -/
inductive Unguarded (settings : Settings) (registry : Style.Registry) (request : Request)
    (session : Session) : Prop where
  | nullCharacter (null : request.root.parts.any FileTree.hasNull = true)
  | overlongRoot {given path : PathName} (root : IsRoot session request.root given)
      (resolved : session.tree.resolve session.folder given = .ok path)
      (overlong : session.tree.status path.parts = .error .nameTooLong)
  | timeout {n : Int} (given : settings.timeout.number? = some (.exact n))
      (large : (Float.ofInt n).isInf = true)
  | excludes {v : Value} (mem : v ∈ settings.excludePatterns)
      (wrong : ∀ s glob, v = .str s → Glob.compile s ≠ .ok glob)
  | size {x : Float} (given : settings.maxFileSize = .float x)
      (unbounded : (x * 1024 * 1024).isNaN = true ∨ Decimal.Binary.ofFloat? (x * 1024 * 1024) = none)
  | file {plan : Plan} {rule : Rule} {root : Location} {glob : Glob} {rel : List String}
      (prepared : planOf settings registry request session = .ok plan) (mem : rule ∈ plan.rules)
      (hroot : Scan.findRoot session.tree session.folder ⟨"/", plan.root⟩ = .ok root)
      (hglob : Glob.compile rule.appliesTo = .ok glob)
      (overlong : Scan.Overlong session.tree plan.options glob root rel)

section Unguarded

variable {settings : Settings} {registry : Style.Registry} {request : Request} {session : Session}
  {failure : Failure}

theorem compileExcludes_error {patterns : List Value} (h : compileExcludes patterns = .error failure) :
    ∃ v ∈ patterns, ∀ s glob, v = .str s → Glob.compile s ≠ .ok glob := by
  fun_induction compileExcludes patterns with
  | case1 => cases h
  | case2 pattern rest failure' wrong =>
      refine ⟨.str pattern, by simp, fun s glob same => ?_⟩
      rw [← Value.str.inj same, wrong]
      nofun
  | case3 pattern rest glob _ failure' failed ih =>
      obtain ⟨v, mem, wrong⟩ := ih (failed.trans h)
      exact ⟨v, by simp [mem], wrong⟩
  | case4 => cases h
  | case5 v rest other => exact ⟨v, by simp, fun s _ same => absurd same (other s)⟩

theorem unguarded_of_maxBytes (accepted : ∃ n, settings.maxFileSize.number? = some n)
    (h : settings.maxBytes = .error failure) : Unguarded settings registry request session := by
  obtain ⟨n, number⟩ := accepted
  unfold Settings.maxBytes at h
  rw [number] at h
  cases n with
  | exact n => cases h
  | floating x =>
      have given : settings.maxFileSize = .float x := by
        cases value : settings.maxFileSize <;> simp_all [Value.number?]
      refine .size given ?_
      dsimp only at h
      split at h
      · exact .inl ‹_›
      · split at h
        · cases h
        · exact .inr ‹_›

theorem unguarded_of_limitOf (accepted : ∃ n, settings.timeout.number? = some n)
    (h : limitOf settings.timeout = .error failure) :
    Unguarded settings registry request session := by
  obtain ⟨n, number⟩ := accepted
  unfold limitOf at h
  simp only [number] at h
  split at h
  · cases n with
    | floating x => cases h
    | exact n =>
        refine .timeout number ?_
        by_contra small
        simp only [seconds, small, ↓reduceIte] at h
        cases h
  · cases h

/-- The failures of a check that are reported: its root is no folder, or its time is up. -/
inductive Fatal (settings : Settings) (request : Request) (session : Session) : Failure → Prop where
  | root {given : PathName} {path reason : String} (root : IsRoot session request.root given)
      (failed : Scan.findRoot session.tree session.folder given = .error (.invalidPath path reason)) :
      Fatal settings request session (.invalidPath path reason)
  | deadline (reason : String) (limited : limitOf settings.timeout ≠ .ok none) :
      Fatal settings request session (.cancelled reason)

theorem findRoot_of_planOf {plan : Plan} (h : planOf settings registry request session = .ok plan) :
    Scan.findRoot session.tree session.folder request.root = .ok plan.root := by
  obtain ⟨root, rules, seconds, excludes, limit, hroot, -, -, -, -, rfl⟩ := planOf_cases h
  exact hroot

theorem findRoot_fatal {given : PathName} (root : IsRoot session request.root given)
    (h : Scan.findRoot session.tree session.folder given = .error failure) :
    Fatal settings request session failure ∨ Unguarded settings registry request session := by
  rcases Scan.findRoot_error h with ⟨path, reason, rfl⟩ | null | ⟨path, resolved, overlong⟩
  · exact .inl (.root root h)
  · cases root with
    | given => exact .inr (.nullCharacter null)
    | found found =>
        have usable := Scan.usable_of_status (Scan.status_of_findRoot found)
        cases null.symm.trans usable.1
  · exact .inr (.overlongRoot root resolved overlong)

/-- A check whose settings have been accepted and whose rules have patterns ends with a report, with a
failure that is reported, or because of something that it does not guard against. -/
theorem run_fatal (wf : base.tree.WellFormed) (hs : base.Within session)
    (harmless : ∀ candidate ∈ request.extra, candidate.IsHarmless)
    (timeout : ∃ n, settings.timeout.number? = some n)
    (size : ∃ n, settings.maxFileSize.number? = some n) {rules : List Rule}
    (hrules : Rule.listed registry request.style request.extra = .ok rules)
    (patterns : ∀ rule ∈ rules, ∃ glob, Glob.compile rule.appliesTo = .ok glob)
    (h : ((run settings registry request false).on session).1 = .error failure) :
    Fatal settings request base failure ∨ Unguarded settings registry request base := by
  rcases run_error wf hs harmless h with failed | ⟨plan, rule, prepared, mem, failed⟩ |
    ⟨reason, rfl, limited⟩
  · rcases bind_eq_error.1 failed with failed | ⟨root, -, failed⟩
    · exact findRoot_fatal .given failed
    rcases bind_eq_error.1 failed with failed | ⟨_, -, failed⟩
    · cases hrules.symm.trans failed
    rcases bind_eq_error.1 failed with failed | ⟨limit, -, failed⟩
    · exact .inr (unguarded_of_limitOf timeout failed)
    rcases bind_eq_error.1 failed with failed | ⟨excludes, -, failed⟩
    · obtain ⟨v, mem, wrong⟩ := compileExcludes_error failed
      exact .inr (.excludes mem wrong)
    rcases bind_eq_error.1 failed with failed | ⟨bytes, -, failed⟩
    · exact .inr (unguarded_of_maxBytes size failed)
    · cases failed
  · rcases Scan.found_error failed with failed | failed | ⟨root, glob, rel, hroot, hglob, overlong⟩
    · exact findRoot_fatal (.found (findRoot_of_planOf prepared)) failed
    · obtain rfl := Except.ok.inj (hrules.symm.trans (listed_of_planOf prepared))
      obtain ⟨glob, hglob⟩ := patterns rule mem
      cases hglob.symm.trans failed
    · exact .inr (.file prepared mem hroot hglob overlong)
  · exact .inl (.deadline reason (limited.resolve_right (by simp)))

end Unguarded

end Check

end LayerLint
