import LayerLint.Proofs.Check.InTurn

/-!
# The evaluations of a check

A check that returns has asked rules about files, one evaluation after the other, and its report lists
what they said: `run_tells`. This is true of every check, also of one whose rules change files. What
is read on the way depends on the session of the moment; all that is known of it is an invariant.
-/

namespace LayerLint

/-- A rule, a file, and the imports of the file that the rule was handed. -/
structure Evaluation where
  rule : Rule
  file : String
  imports : List String

def Evaluation.violations (e : Evaluation) : List Violation :=
  e.rule.verdict e.file e.imports

/-- The evaluations so far, in order. -/
def Session.evaluations (session : Session) : List Evaluation :=
  session.events.reverse.filterMap fun
    | .asked rule file imports => some ⟨rule, file, imports⟩
    | .read _ => none

theorem Session.evaluations_take (session : Session) (record : Record) :
    (session.take record).evaluations = session.evaluations := rfl

/-- An invariant that is about files, folder and log files, and that survives writing to the log. -/
structure Session.Stable (I : Session → Prop) : Prop where
  take : ∀ session record, I session → I (session.take record)
  of_eq : ∀ session after : Session, I session → after.tree = session.tree →
    after.folder = session.folder → after.journal = session.journal → I after

theorem Session.stable_true : Session.Stable fun _ => True :=
  ⟨fun _ _ _ => trivial, fun _ _ _ _ _ _ => trivial⟩

theorem Session.stable_within (base : Session) : Session.Stable base.Within :=
  ⟨fun _ record h => h.take record, fun _ _ h => h.of_eq⟩

/-! ## Runs and what they add -/

namespace Run

variable {α β : Type} {I : Session → Prop} {x : Run α} {k : α → Run β}
  {R : α → List Evaluation → Prop} {S : β → List Evaluation → Prop}

/-- A run that returns keeps the invariant, and `R` relates what it returns to the evaluations that it
adds. -/
def Tells (I : Session → Prop) (x : Run α) (R : α → List Evaluation → Prop) : Prop :=
  ∀ session, I session → ∀ a, (x.on session).1 = .ok a →
    I (x.on session).2 ∧
      ∃ added, (x.on session).2.evaluations = session.evaluations ++ added ∧ R a added

namespace Tells

theorem of_on {f : Session → Session} {a : α} (on_eq : ∀ session, x.on session = (.ok a, f session))
    (keeps : ∀ session, I session → I (f session))
    (same : ∀ session, (f session).evaluations = session.evaluations) (h : R a []) : Tells I x R := by
  intro session inv b ok
  rw [on_eq] at ok ⊢
  obtain rfl := Except.ok.inj ok
  exact ⟨keeps session inv, [], by rw [same, List.append_nil], h⟩

theorem pure {a : α} (h : R a []) : Tells I (Pure.pure a) R :=
  of_on (f := id) (fun _ => rfl) (fun _ inv => inv) (fun _ => rfl) h

theorem throw (failure : Failure) : Tells I (MonadExcept.throw failure : Run α) R := by
  intro session inv a ok
  rw [on_throw] at ok
  cases ok

theorem ofExcept {result : Except Failure α} (h : ∀ a, result = .ok a → R a []) :
    Tells I (Run.ofExcept result) R := by
  cases result with
  | error failure => exact throw failure
  | ok a => exact pure (h a rfl)

theorem bind (hx : Tells I x R)
    (hk : ∀ a first, R a first → Tells I (k a) fun b second => S b (first ++ second)) :
    Tells I (x >>= k) S := by
  intro session inv b ok
  rw [on_bind] at ok ⊢
  cases result : (x.on session).1 with
  | error failure =>
      rw [show x.on session = (.error failure, (x.on session).2) from Prod.ext result rfl] at ok
      cases ok
  | ok a =>
      obtain ⟨inv', first, hfirst, ha⟩ := hx session inv a result
      rw [show x.on session = (.ok a, (x.on session).2) from Prod.ext result rfl] at ok ⊢
      obtain ⟨inv'', second, hsecond, hb⟩ := hk a first ha _ inv' b ok
      refine ⟨inv'', first ++ second, ?_, hb⟩
      rw [hsecond, hfirst, List.append_assoc]

/-- A run that adds nothing may be passed over. -/
theorem skip {P : α → Prop} (hx : Tells I x fun a added => P a ∧ added = [])
    (hk : ∀ a, P a → Tells I (k a) S) : Tells I (x >>= k) S := by
  apply hx.bind
  rintro a _ ⟨ha, rfl⟩
  exact hk a ha

theorem after (hx : Tells I x R) {session after : Session} {a : α} (inv : I session)
    (ran : x.on session = (.ok a, after)) :
    I after ∧ ∃ added, after.evaluations = session.evaluations ++ added ∧ R a added := by
  have told := hx session inv a (congrArg Prod.fst ran)
  rwa [ran] at told

theorem get {k : Session → Run β} (h : ∀ session, I session → Tells I (k session) S) :
    Tells I (MonadState.get >>= k) S :=
  fun session inv => h session inv session inv

theorem mono {R' : α → List Evaluation → Prop} (hx : Tells I x R)
    (imp : ∀ a added, R a added → R' a added) : Tells I x R' := by
  intro session inv a ok
  obtain ⟨inv', added, hadded, h⟩ := hx session inv a ok
  exact ⟨inv', added, hadded, imp a added h⟩

end Tells

section Stable

variable (stable : Session.Stable I)

include stable

theorem note_tells (level : Level) (source text : String) :
    Tells I (note level source text) fun _ added => True ∧ added = [] :=
  .of_on (fun _ => on_change ..) (fun _ => stable.take _ _)
    (fun session => session.evaluations_take _) ⟨trivial, rfl⟩

theorem time_tells : Tells I time fun _ added => True ∧ added = [] := by
  intro session inv now ok
  exact ⟨stable.of_eq session _ inv rfl rfl rfl, [], (List.append_nil _).symm, trivial, rfl⟩

theorem poll_tells : Tells I poll fun _ added => True ∧ added = [] := by
  intro session inv raised ok
  exact ⟨stable.of_eq session _ inv rfl rfl rfl, [], (List.append_nil _).symm, trivial, rfl⟩

theorem remember_read_tells (location : Location) :
    Tells I (remember (.read location)) fun _ added => True ∧ added = [] :=
  .of_on (fun _ => on_change ..) (fun session inv => stable.of_eq session _ inv rfl rfl rfl)
    (fun session => by simp [Session.evaluations]) ⟨trivial, rfl⟩

theorem remember_asked_tells (rule : Rule) (file : String) (imports : List String) :
    Tells I (remember (.asked rule file imports)) fun _ added => added = [⟨rule, file, imports⟩] := by
  intro session inv _ ok
  refine ⟨stable.of_eq session _ inv rfl rfl rfl, [⟨rule, file, imports⟩], ?_, rfl⟩
  rw [remember, on_change]
  simp [Session.evaluations]

theorem cancelled_tells (watch : Watch) :
    Tells I watch.cancelled fun _ added => True ∧ added = [] := by
  unfold Watch.cancelled
  split
  · exact poll_tells stable
  · exact .pure ⟨trivial, rfl⟩

theorem expired_tells (watch : Watch) : Tells I watch.expired fun _ added => True ∧ added = [] := by
  unfold Watch.expired
  split
  · exact .pure ⟨trivial, rfl⟩
  · exact (time_tells stable).skip fun now _ => .pure ⟨trivial, rfl⟩

theorem isSet_tells (watch : Watch) : Tells I watch.isSet fun _ added => True ∧ added = [] := by
  refine (cancelled_tells stable watch).skip fun set _ => ?_
  cases set with
  | true => exact .pure ⟨trivial, rfl⟩
  | false => exact expired_tells stable watch

theorem check_tells (watch : Watch) : Tells I watch.check fun _ added => True ∧ added = [] := by
  refine (cancelled_tells stable watch).skip fun set _ => ?_
  cases set with
  | true => exact (Tells.throw _).bind (R := fun _ _ => False) fun _ _ h => h.elim
  | false =>
      refine (expired_tells stable watch).skip fun late _ => ?_
      cases late with
      | true => exact .throw _
      | false => exact .pure ⟨trivial, rfl⟩

end Stable

end Run

open Run (Tells)

/-! ## Scans -/

namespace Scan

variable {I : Session → Prop}

theorem follow_tells (stable : Session.Stable I) (watch : Watch) (root : Location)
    (visits : List Visit) :
    Tells I (follow watch root visits) fun _ added =>
      visits.any (·.stuck) = false ∧ added = [] := by
  induction visits with
  | nil => exact .pure ⟨rfl, rfl⟩
  | cons visit visits ih =>
      rw [follow]
      refine (Run.isSet_tells stable watch).skip fun set _ => ?_
      cases set with
      | true => exact (Tells.throw _).bind (R := fun _ _ => False) fun _ _ h => h.elim
      | false =>
          have rest : Tells I
              (if visit.stuck then do throw (Failure.ofFault .nameTooLong); follow watch root visits
                else follow watch root visits)
              fun _ added => (visit :: visits).any (·.stuck) = false ∧ added = [] := by
            cases stuck : visit.stuck with
            | true => exact (Tells.throw _).bind (R := fun _ _ => False) fun _ _ h => h.elim
            | false => exact ih.mono fun _ added h => ⟨by simp [stuck, h.1], h.2⟩
          cases visit.again with
          | true => exact (Run.note_tells stable _ _ _).skip fun _ _ => rest
          | false => exact rest

/-- A scan that returns has found what there was to be found when it started. -/
theorem files_tells (stable : Session.Stable I) (options : Options) (watch : Watch)
    (given : PathName) (pattern : String) :
    Tells I (files options watch given pattern) fun result added =>
      (∃ session, I session ∧ found session.tree session.folder options given pattern = .ok result) ∧
        added = [] := by
  refine .get fun session inv => ?_
  refine Tells.skip (.ofExcept fun root hroot => ⟨hroot, rfl⟩) fun root hroot => ?_
  refine Tells.skip (.ofExcept fun glob hglob => ⟨hglob, rfl⟩) fun glob hglob => ?_
  refine (follow_tells stable watch root (walk session.tree options glob root)).skip fun _ clear => ?_
  refine (Run.note_tells stable _ _ _).skip fun _ _ => .pure ⟨⟨session, inv, ?_⟩, rfl⟩
  rw [found_eq hroot hglob, clear]
  rfl

end Scan

/-! ## Units -/

/-- What the rule does to its surroundings keeps the invariant. -/
def Rule.Keeps (I : Session → Prop) : Rule → Prop
  | .builtin _ => True
  | .guarded rule => ∀ file imports session, I session →
      I ((rule.behaviour file imports).effects.foldl Session.apply session)

namespace Check

variable {I : Session → Prop} {plan : Plan}

/-- Imports that stood in the file at some moment. -/
def Known (I : Session → Prop) (limit : Int) (file : Location) (imports : List String) : Prop :=
  ∃ session, I session ∧ imports = importsAt session.tree limit file

/-- Files that the rule selected at some moment. -/
def Found (I : Session → Prop) (plan : Plan) (rule : Rule) (files : List Location) : Prop :=
  ∃ session, I session ∧ filesOf session plan rule = .ok files

def AllKnown (I : Session → Prop) (limit : Int) (cache : Cache) : Prop :=
  ∀ entry ∈ cache, Known I limit entry.1 entry.2

/-- The evaluation is one of the rule and the file. -/
structure IsOf (I : Session → Prop) (limit : Int) (unit : Rule × Location) (e : Evaluation) :
    Prop where
  rule : e.rule = unit.1
  file : e.file = Location.text unit.2
  imports : Known I limit unit.2 e.imports

theorem evaluations_effects (effects : List Rule.Effect) (session : Session) :
    (effects.foldl Session.apply session).evaluations = session.evaluations := by
  induction effects generalizing session with
  | nil => rfl
  | cons effect effects ih =>
      rw [List.foldl_cons, ih]
      cases effect <;> rfl

theorem readImports_tells (stable : Session.Stable I) (limit : Int) (file : Location) :
    Tells I (readImports limit file) fun imports added => Known I limit file imports ∧ added = [] := by
  refine (Run.remember_read_tells stable file).skip fun _ _ => ?_
  intro session inv
  have same : Import.inspect session.tree (some limit) ⟨"/", file⟩ (session.absolute ⟨"/", file⟩) =
      Import.inspect session.tree (some limit) ⟨"/", file⟩ (.ok file) := rfl
  have known : Known I limit file (importsAt session.tree limit file) := ⟨session, inv, rfl⟩
  have noted (record : Record) (imports : List String) (h : Known I limit file imports) :
      I (session.take record) ∧ ∃ added,
        (session.take record).evaluations = session.evaluations ++ added ∧
          Known I limit file imports ∧ added = [] :=
    ⟨stable.take session record inv, [], (List.append_nil _).symm, h, rfl⟩
  rw [Run.on_tryCatch, Import.ofFile, Run.on_get_bind, same]
  rw [importsAt] at known
  cases extraction : Import.inspect session.tree (some limit) ⟨"/", file⟩ (.ok file) with
  | noLanguage =>
      rw [extraction] at known
      rintro imports ⟨⟩
      exact noted _ _ known
  | tooLarge size =>
      rw [extraction] at known
      rintro imports ⟨⟩
      exact noted _ _ known
  | found found =>
      rw [extraction] at known
      rintro imports ⟨⟩
      exact ⟨inv, [], (List.append_nil _).symm, known, rfl⟩
  | unreadable reason =>
      rw [extraction] at known
      rintro imports ⟨⟩
      exact noted _ _ known
  | impossible =>
      rintro imports ⟨⟩

theorem importsOf_tells (stable : Session.Stable I) {limit : Int} {cache : Cache}
    (known : AllKnown I limit cache) (file : Location) :
    Tells I (importsOf limit cache file) fun result added =>
      (Known I limit file result.1 ∧ AllKnown I limit result.2) ∧ added = [] := by
  unfold importsOf
  split
  · rename_i imports hit
    exact .pure ⟨⟨known (file, imports) (mem_of_lookup hit), known⟩, rfl⟩
  · refine (readImports_tells stable limit file).skip fun imports new => .pure ⟨⟨new, ?_⟩, rfl⟩
    intro entry mem
    rcases List.mem_append.1 mem with mem | mem
    · exact known entry mem
    · obtain rfl := List.mem_singleton.1 mem
      exact new

theorem ask_tells (stable : Session.Stable I) {rule : Rule} (keeps : rule.Keeps I) (file : String)
    (imports : List String) :
    Tells I (ask rule file imports) fun violations added =>
      violations = rule.verdict file imports ∧ added = [⟨rule, file, imports⟩] := by
  apply (Run.remember_asked_tells stable rule file imports).bind
  rintro _ _ rfl
  cases rule with
  | builtin rule => exact .pure ⟨rfl, rfl⟩
  | guarded rule =>
      have changed : Tells I (Run.change fun session =>
          (rule.behaviour file imports).effects.foldl Session.apply session)
          fun _ added => True ∧ added = [] :=
        .of_on (fun _ => Run.on_change ..) (keeps file imports)
          (fun session => evaluations_effects _ session) ⟨trivial, rfl⟩
      refine changed.skip fun _ _ => ?_
      rw [Rule.verdict]
      cases (rule.behaviour file imports).answer.judge with
      | ok violations => exact .pure ⟨rfl, rfl⟩
      | error reason => exact (Run.note_tells stable _ _ _).skip fun _ _ => .pure ⟨rfl, rfl⟩

theorem evaluateAll_tells (stable : Session.Stable I) {rule : Rule} (keeps : rule.Keeps I)
    {cache : Cache} (known : AllKnown I plan.limit cache) (files : List Location) :
    Tells I (evaluateAll plan rule cache files) fun result added =>
      AllKnown I plan.limit result.2 ∧ result.1 = added.flatMap (·.violations) ∧
        List.Forall₂ (IsOf I plan.limit) (files.map (rule, ·)) added := by
  induction files generalizing cache with
  | nil => exact .pure ⟨known, rfl, .nil⟩
  | cons file files ih =>
      have evaluated : Tells I (evaluate plan cache rule file) fun result added =>
          AllKnown I plan.limit result.2 ∧
            ∃ e, IsOf I plan.limit (rule, file) e ∧ result.1 = e.violations ∧ added = [e] := by
        refine (Run.check_tells stable plan.watch).skip fun _ _ => ?_
        refine (importsOf_tells stable known file).skip fun read hread => ?_
        apply (ask_tells stable keeps (Location.text file) read.1).bind
        rintro violations _ ⟨rfl, rfl⟩
        exact .pure ⟨hread.2, _, ⟨rfl, rfl, hread.1⟩, rfl, rfl⟩
      apply evaluated.bind
      rintro ⟨violations, cache'⟩ _ ⟨known', e, isOf, rfl, rfl⟩
      apply (ih known').bind
      rintro ⟨more, cache''⟩ added ⟨known'', rfl, all⟩
      refine .pure ⟨known'', by simp, ?_⟩
      rw [List.append_nil]
      exact .cons isOf all

/-! ## All rules -/

/-- The rows hold the rules with files that they selected, and every unit of them was evaluated. -/
structure Evaluated (I : Session → Prop) (plan : Plan) (rows : List (Rule × List Location))
    (rules : List Rule) (added : List Evaluation) : Prop where
  rules : rows.map (·.1) = rules
  found : ∀ row ∈ rows, Found I plan row.1 row.2
  units : List.Forall₂ (IsOf I plan.limit) (unitsOf rows) added

theorem scan_tells (stable : Session.Stable I) (rule : Rule) :
    Tells I (scan plan rule) fun files added => Found I plan rule files ∧ added = [] :=
  Scan.files_tells stable _ _ _ _

theorem runInTurn_tells (stable : Session.Stable I) {rules : List Rule}
    (keeps : ∀ rule ∈ rules, rule.Keeps I) {cache : Cache} (known : AllKnown I plan.limit cache) :
    Tells I (runInTurn plan cache rules) fun result added =>
      result.1.flatten = added.flatMap (·.violations) ∧ ∃ rows, Evaluated I plan rows rules added := by
  induction rules generalizing cache with
  | nil => exact .pure ⟨rfl, [], rfl, List.forall_mem_nil _, .nil⟩
  | cons rule rules ih =>
      rw [List.forall_mem_cons] at keeps
      refine (Run.check_tells stable plan.watch).skip fun _ _ => ?_
      refine (scan_tells stable rule).skip fun files found => ?_
      apply (evaluateAll_tells stable keeps.1 known files).bind
      rintro ⟨violations, cache'⟩ first ⟨known', rfl, all⟩
      refine (Run.note_tells stable _ _ _).skip fun _ _ => ?_
      apply (ih keeps.2 known').bind
      rintro ⟨buckets, cache''⟩ second ⟨same, rows, evaluated⟩
      refine .pure ⟨by simp [same], (rule, files) :: rows, ?_, ?_, ?_⟩
      · rw [List.map_cons, evaluated.rules]
      · exact List.forall_mem_cons.2 ⟨found, evaluated.found⟩
      · rw [List.append_nil]
        exact List.rel_append all evaluated.units

theorem scanAll_tells (stable : Session.Stable I) (rules : List Rule) :
    Tells I (scanAll plan rules) fun rows added =>
      (rows.map (·.1) = rules ∧ ∀ row ∈ rows, Found I plan row.1 row.2) ∧ added = [] := by
  induction rules with
  | nil => exact .pure ⟨⟨rfl, List.forall_mem_nil _⟩, rfl⟩
  | cons rule rules ih =>
      refine (scan_tells stable rule).skip fun files found => ?_
      refine ih.skip fun rows ⟨same, all⟩ => .pure ⟨⟨?_, ?_⟩, rfl⟩
      · rw [List.map_cons, same]
      · exact List.forall_mem_cons.2 ⟨found, all⟩

theorem evaluateRows_tells (stable : Session.Stable I) {rows : List (Rule × List Location)}
    (keeps : ∀ row ∈ rows, row.1.Keeps I) {cache : Cache} (known : AllKnown I plan.limit cache) :
    Tells I (evaluateRows plan cache rows) fun result added =>
      result.1.flatten = added.flatMap (·.violations) ∧
        List.Forall₂ (IsOf I plan.limit) (unitsOf rows) added := by
  induction rows generalizing cache with
  | nil => exact .pure ⟨rfl, .nil⟩
  | cons row rows ih =>
      rw [List.forall_mem_cons] at keeps
      apply (evaluateAll_tells stable keeps.1 known row.2).bind
      rintro ⟨violations, cache'⟩ first ⟨known', rfl, all⟩
      apply (ih keeps.2 known').bind
      rintro ⟨buckets, cache''⟩ second ⟨same, units⟩
      refine .pure ⟨by simp [same], ?_⟩
      rw [List.append_nil]
      exact List.rel_append all units

theorem await_tells (stable : Session.Stable I) (units : Nat) :
    Tells I (await plan units) fun _ added => True ∧ added = [] := by
  unfold await
  split
  · exact .pure ⟨trivial, rfl⟩
  · split
    · exact .pure ⟨trivial, rfl⟩
    · exact (Run.time_tells stable).skip fun _ _ => .pure ⟨trivial, rfl⟩

theorem runTogether_tells (stable : Session.Stable I) {rules : List Rule}
    (keeps : ∀ rule ∈ rules, rule.Keeps I) :
    Tells I (runTogether plan rules) fun result added =>
      result.1.flatten = added.flatMap (·.violations) ∧ ∃ rows, Evaluated I plan rows rules added := by
  refine (await_tells stable _).skip fun _ _ => ?_
  refine (scanAll_tells stable rules).skip fun rows ⟨same, found⟩ => ?_
  refine (await_tells stable _).skip fun _ _ => ?_
  have keeps' : ∀ row ∈ rows, row.1.Keeps I := fun row mem =>
    keeps row.1 (same ▸ List.mem_map_of_mem mem)
  apply (evaluateRows_tells stable keeps' (List.forall_mem_nil _)).mono
  rintro result added ⟨flat, units⟩
  exact ⟨flat, rows, same, found, units⟩

/-! ## The whole check -/

theorem startWatch_tells (stable : Session.Stable I) (signal : Bool) (timeout : Value) :
    Tells I (startWatch signal timeout) fun _ added =>
      (∃ limit, limitOf timeout = .ok limit) ∧ added = [] := by
  unfold startWatch limitOf
  cases timeout.number? with
  | none => exact .throw _
  | some n =>
      dsimp only
      by_cases positive : n.above 0
      · rw [if_pos positive, if_pos positive]
        refine (Run.time_tells stable).skip fun now _ => ?_
        refine Tells.skip (.ofExcept fun limit h => ⟨h, rfl⟩) fun limit h => .pure ⟨?_, rfl⟩
        exact ⟨some limit, by rw [h]; rfl⟩
      · rw [if_neg positive, if_neg positive]
        exact .pure ⟨⟨none, rfl⟩, rfl⟩

theorem selectRules_tells (stable : Session.Stable I) (registry : Style.Registry) (style : String)
    (extra : List Rule.Candidate) :
    Tells I (selectRules registry style extra) fun rules added =>
      Rule.listed registry style extra = .ok rules ∧ added = [] := by
  unfold selectRules
  rw [Rule.select_eq]
  cases Rule.listed registry style extra with
  | error failure => exact (Tells.throw failure).bind (R := fun _ _ => False) fun _ _ h => h.elim
  | ok rules =>
      refine Tells.skip (P := (· = ⟨rules, registry.contains style⟩)) (.pure ⟨rfl, rfl⟩) ?_
      rintro _ rfl
      cases registry.contains style with
      | false => exact (Run.note_tells stable _ _ _).skip fun _ _ => .pure ⟨rfl, rfl⟩
      | true => exact .pure ⟨rfl, rfl⟩

/-- A check that returns a report has evaluated every rule on every file that the rule selected when
it was scanned, and the report lists what was said, in this order. -/
theorem run_tells (stable : Session.Stable I) (settings : Settings) (registry : Style.Registry)
    (request : Request) (signal : Bool)
    (keeps : ∀ rules, Rule.listed registry request.style request.extra = .ok rules →
      ∀ rule ∈ rules, rule.Keeps I) :
    Tells I (run settings registry request signal) fun report added =>
      report.violations = added.flatMap (·.violations) ∧
        ∃ session plan rows, I session ∧ planOf settings registry request session = .ok plan ∧
          Evaluated I plan rows plan.rules added ∧ report.rulesRun = plan.rules.map Rule.id := by
  refine .get fun session inv => ?_
  refine Tells.skip (.ofExcept fun root h => ⟨h, rfl⟩) fun root hroot => ?_
  refine (selectRules_tells stable _ _ _).skip fun rules hrules => ?_
  refine (startWatch_tells stable _ _).skip fun watch ⟨seconds, hseconds⟩ => ?_
  refine Tells.skip (.ofExcept fun excludes h => ⟨h, rfl⟩) fun excludes hexcludes => ?_
  refine Tells.skip (.ofExcept fun limit h => ⟨h, rfl⟩) fun limit hlimit => ?_
  refine (Run.note_tells stable _ _ _).skip fun _ _ => ?_
  refine (Run.time_tells stable).skip fun start _ => ?_
  let options : Scan.Options := ⟨settings.followLinks.isTrue, settings.allowHidden.isTrue, excludes⟩
  have hplan : planOf settings registry request session = .ok ⟨root, rules, options, limit, .off⟩ := by
    rw [planOf, hroot, hrules, hseconds, hexcludes, hlimit]
    rfl
  let plan : Plan := ⟨root, rules, options, limit, watch⟩
  have ran : Tells I
      (if settings.parallel then runTogether plan rules else runInTurn plan [] rules)
      fun result added => result.1.flatten = added.flatMap (·.violations) ∧
        ∃ rows, Evaluated I plan rows rules added := by
    split
    · exact runTogether_tells stable (keeps rules hrules)
    · exact runInTurn_tells stable (keeps rules hrules) (List.forall_mem_nil _)
  cases parallel : settings.parallel <;> rw [parallel] at ran
  all_goals
    apply ran.bind
    rintro ⟨buckets, cache⟩ added ⟨flat, rows, evaluated⟩
    refine (Run.time_tells stable).skip fun finish _ => ?_
    refine (Run.note_tells stable _ _ _).skip fun _ _ => .pure ?_
    rw [List.append_nil]
    exact ⟨flat, session, _, rows, inv, hplan, ⟨evaluated.rules, evaluated.found, evaluated.units⟩, rfl⟩

end Check

end LayerLint
