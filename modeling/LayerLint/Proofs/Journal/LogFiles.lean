import LayerLint.Proofs.FileTree.Growth
import LayerLint.Proofs.Session.Runs
import Mathlib.Data.List.Induction

/-!
# Configuring the journal again and again

The journal may be configured many times, each time with a log file that is spelled in some way. As
long as the files can be opened, there is one log file for every path without links that was asked
for, in the order in which they were asked for first, the last call decides the level, and the terminal
is attached once: `configured_exact`. The files that are made on the way change neither what a
spelling stands for nor whether a file can be opened, so both are said about the session before the
first call.
-/

namespace LayerLint

open FileTree (Grown)

/-- A call that configures the journal, by flags or by the name of a verbosity. -/
inductive Setup where
  | flags (verbose quiet : Bool) (file : Option PathName)
  | named (verbosity : String) (file : Option PathName)

namespace Setup

def run : Setup → Run Unit
  | .flags verbose quiet file => Run.configure (.ofFlags verbose quiet) file
  | .named verbosity file => Run.configureFor verbosity file

def file : Setup → Option PathName
  | .flags _ _ file => file
  | .named _ file => file

/-- The level that is asked for, if the verbosity is a known one. -/
def level? : Setup → Option Level
  | .flags verbose quiet _ => some (if quiet then 40 else if verbose then 10 else 30)
  | .named verbosity _ =>
      if verbosity = "quiet" then some 40
      else if verbosity = "normal" then some 30
      else if verbosity = "verbose" then some 10
      else none

def result : Setup → Except Failure Unit
  | .flags .. => .ok ()
  | .named verbosity _ =>
      if verbosity ∈ ["quiet", "normal", "verbose"] then .ok ()
      else .error (.badValue ("Unknown verbosity '" ++ verbosity ++ "'"))

/-- The log file that is asked for. A call with an unknown verbosity asks for none. -/
def file? (setup : Setup) : Option PathName :=
  if setup.level?.isSome then setup.file else none

theorem run_cases (setup : Setup) :
    (∃ verbosity : Journal.Verbosity, setup.level? = some verbosity.level ∧ setup.result = .ok () ∧
      setup.run = Run.configure verbosity setup.file) ∨
    ∃ failure, setup.level? = none ∧ setup.result = .error failure ∧ setup.run = throw failure := by
  cases setup with
  | flags verbose quiet file =>
      have level : level? (.flags verbose quiet file) =
          some (Journal.Verbosity.ofFlags verbose quiet).level := by
        cases verbose <;> cases quiet <;> rfl
      exact .inl ⟨.ofFlags verbose quiet, level, rfl, rfl⟩
  | named verbosity file =>
      by_cases known : verbosity ∈ ["quiet", "normal", "verbose"]
      · rcases List.mem_cons.1 known with rfl | known
        · exact .inl ⟨.quiet, rfl, rfl, rfl⟩
        · rcases List.mem_cons.1 known with rfl | known
          · exact .inl ⟨.normal, rfl, rfl, rfl⟩
          · obtain rfl := List.mem_singleton.1 known
            exact .inl ⟨.verbose, rfl, rfl, rfl⟩
      · have unknown : Journal.Verbosity.ofName? verbosity = none := by
          unfold Journal.Verbosity.ofName?
          split <;> simp_all
        refine .inr ⟨_, ?_, if_neg known, ?_⟩
        · simp_all [level?]
        · rw [run, Run.configureFor, unknown]

end Setup

/-! ## One call -/

theorem Journal.attach_eq (journal : Journal) {tree after : FileTree} {folder : Handle}
    {path target : PathName} (resolved : tree.resolve folder path = .ok target)
    (opened : tree.openForAppend target.parts = .ok after) :
    journal.attach tree folder path =
      .ok (if target ∈ journal.files.map (·.path) then (journal, tree)
        else ({ journal with files := journal.files ++ [⟨after.hold target.parts, target⟩] }, after)) := by
  have found : journal.files.any (·.path = target) = true ↔ target ∈ journal.files.map (·.path) := by
    simp
  unfold attach
  rw [resolved]
  dsimp only
  split
  · rename_i loop
    rcases FileTree.openForAppend_cases opened with ⟨-, bytes, status⟩ | ⟨-, -, -, -, status, -⟩
    · rw [status] at loop
      cases loop
    · rw [status] at loop
      cases loop
  · by_cases mem : target ∈ journal.files.map (·.path)
    · rw [if_pos (found.2 mem), if_pos mem]
    · rw [if_neg (mt found.1 mem), if_neg mem, opened]

theorem Run.on_configure_none (verbosity : Journal.Verbosity) (session : Session) :
    (Run.configure verbosity none).on session =
      (.ok (), { session with journal := session.journal.setLevel verbosity }) := rfl

theorem Run.on_configure_some {verbosity : Journal.Verbosity} {session : Session} {path : PathName}
    {journal : Journal} {tree : FileTree}
    (attached : (session.journal.setLevel verbosity).attach session.tree session.folder path =
      .ok (journal, tree)) :
    (Run.configure verbosity (some path)).on session =
      (.ok (), { session with journal := journal, tree := tree }) := by
  unfold Run.configure
  rw [on_change_bind]
  dsimp only
  rw [on_get_bind]
  dsimp only
  rw [attached]
  rfl

/-! ## Many calls -/

namespace Session

def after (session : Session) (setups : List Setup) : Session :=
  setups.foldl (fun session setup => (setup.run.on session).2) session

theorem after_concat (session : Session) (setups : List Setup) (setup : Setup) :
    session.after (setups ++ [setup]) = (setup.run.on (session.after setups)).2 := by
  rw [after, List.foldl_append]
  rfl

/-- The path without links that the log file of a call stands for. -/
def target? (session : Session) (setup : Setup) : Option PathName :=
  setup.file?.bind fun path => (session.tree.resolve session.folder path).toOption

def CanOpen (session : Session) (path : PathName) : Prop :=
  ∃ target after, session.tree.resolve session.folder path = .ok target ∧
    session.tree.openForAppend target.parts = .ok after

/-- What the calls `done` have made of a session `base` in which nothing was configured. -/
structure Configured (base : Session) (done : List Setup) (now : Session) : Prop where
  tree : Grown base.tree now.tree
  folder : now.folder = base.folder
  paths : now.journal.files.map (·.path) = (done.filterMap base.target?).eraseDups
  locations : ∀ file ∈ now.journal.files, file.location = file.path.parts
  level : now.journal.level = (done.filterMap Setup.level?).getLast?.getD base.journal.level
  terminals : now.journal.terminals = if done.any (·.level?.isSome) then 1 else 0

namespace Configured

variable {base now : Session} {done : List Setup} {setup : Setup}

theorem start (noFiles : base.journal.files = []) (noTerminal : base.journal.terminals = 0) :
    Configured base [] base where
  tree := .refl base.tree
  folder := rfl
  paths := by
    rw [noFiles]
    rfl
  locations := by simp [noFiles]
  level := rfl
  terminals := noTerminal

/-- Files that can be opened at first can be opened later, and are the same. -/
theorem canOpen (h : Configured base done now) {path : PathName} (can : base.CanOpen path) :
    ∃ target after, base.tree.resolve base.folder path = .ok target ∧
      now.tree.resolve now.folder path = .ok target ∧
      now.tree.openForAppend target.parts = .ok after := by
  obtain ⟨target, after, resolved, opened⟩ := can
  obtain ⟨names, straight, -⟩ := FileTree.straight_of_resolve resolved
  have noUp : ".." ∉ target.parts := by
    intro mem
    rw [straight] at mem
    exact (FileTree.mem_straighten mem).2 rfl
  obtain ⟨after', opened'⟩ := h.tree.openForAppend opened noUp
  have resolved' : now.tree.resolve now.folder path = .ok target := by
    rw [h.folder, h.tree.resolve, resolved]
  exact ⟨target, after', resolved, resolved', opened'⟩

theorem unknown (h : Configured base done now) (noLevel : setup.level? = none) :
    Configured base (done ++ [setup]) now where
  tree := h.tree
  folder := h.folder
  paths := by
    have target : base.target? setup = none := by simp [target?, Setup.file?, noLevel]
    simp [target, h.paths]
  locations := h.locations
  level := by simp [noLevel, h.level]
  terminals := by simp [noLevel, h.terminals]

theorem known (h : Configured base done now) {verbosity : Journal.Verbosity}
    (level : setup.level? = some verbosity.level) {tree : FileTree} (grown : Grown now.tree tree)
    {files : List LogFile} (locations : ∀ file ∈ files, file.location = file.path.parts)
    (paths : files.map (·.path) = ((done ++ [setup]).filterMap base.target?).eraseDups) :
    Configured base (done ++ [setup])
      { now with tree, journal := { now.journal.setLevel verbosity with files } } where
  tree := h.tree.trans grown
  folder := h.folder
  paths := paths
  locations := locations
  level := by simp [level, Journal.setLevel]
  terminals := by
    have before := h.terminals
    simp only [Journal.setLevel, List.any_append, List.any_cons, level, Option.isSome_some,
      Bool.true_or, Bool.or_true, if_true]
    split at before <;> simp [before]

theorem targets_concat (h : Configured base done now) {target : PathName}
    (isTarget : base.target? setup = some target) :
    ((done ++ [setup]).filterMap base.target?).eraseDups =
      if target ∈ now.journal.files.map (·.path) then now.journal.files.map (·.path)
      else now.journal.files.map (·.path) ++ [target] := by
  simp [isTarget, eraseDups_concat, h.paths]

theorem attached (h : Configured base done now) {verbosity : Journal.Verbosity}
    (level : setup.level? = some verbosity.level) {path target : PathName}
    (isTarget : base.target? setup = some target)
    (resolved : now.tree.resolve now.folder path = .ok target) {after : FileTree}
    (opened : now.tree.openForAppend target.parts = .ok after) :
    ∃ next, (Run.configure verbosity (some path)).on now = (.ok (), next) ∧
      Configured base (done ++ [setup]) next := by
  have attach := Journal.attach_eq (now.journal.setLevel verbosity) resolved opened
  have targets := h.targets_concat isTarget
  by_cases old : target ∈ now.journal.files.map (·.path)
  · rw [if_pos old] at targets
    exact ⟨_, Run.on_configure_some (attach.trans (congrArg _ (if_pos old))),
      h.known level (.refl now.tree) h.locations targets.symm⟩
  · rw [if_neg old] at targets
    let file : LogFile := ⟨after.hold target.parts, target⟩
    have paths : (now.journal.files ++ [file]).map (·.path) =
        ((done ++ [setup]).filterMap base.target?).eraseDups := by
      rw [targets, List.map_append]
      rfl
    have locations : ∀ other ∈ now.journal.files ++ [file], other.location = other.path.parts := by
      intro other mem
      rcases List.mem_append.1 mem with mem | mem
      · exact h.locations other mem
      · obtain rfl := List.mem_singleton.1 mem
        rfl
    exact ⟨_, Run.on_configure_some (attach.trans (congrArg _ (if_neg old))),
      h.known level (FileTree.grown_of_openForAppend opened) locations paths⟩

theorem step (h : Configured base done now) (can : ∀ path ∈ setup.file?, base.CanOpen path) :
    (setup.run.on now).1 = setup.result ∧
      (setup.result ≠ .ok () → (setup.run.on now).2 = now) ∧
      Configured base (done ++ [setup]) (setup.run.on now).2 := by
  rcases setup.run_cases with ⟨verbosity, level, result, run⟩ | ⟨failure, noLevel, result, run⟩
  · have file? : setup.file? = setup.file := by simp [Setup.file?, level]
    rw [run, result]
    cases file : setup.file with
    | none =>
        have noTarget : base.target? setup = none := by simp [target?, file?, file]
        have paths : now.journal.files.map (·.path) =
            ((done ++ [setup]).filterMap base.target?).eraseDups := by
          simp [noTarget, h.paths]
        rw [Run.on_configure_none]
        exact ⟨rfl, absurd rfl, h.known level (.refl now.tree) h.locations paths⟩
    | some path =>
        obtain ⟨target, after, resolved, resolved', opened⟩ := h.canOpen (can path (file?.trans file))
        have isTarget : base.target? setup = some target := by
          simp [target?, file?, file, resolved, Except.toOption]
        obtain ⟨next, gives, configured⟩ := h.attached level isTarget resolved' opened
        rw [gives]
        exact ⟨rfl, absurd rfl, configured⟩
  · rw [run, result]
    exact ⟨rfl, fun _ => rfl, h.unknown noLevel⟩

theorem after (start : Configured base [] base)
    (can : ∀ setup ∈ done, ∀ path ∈ setup.file?, base.CanOpen path) :
    Configured base done (base.after done) := by
  induction done using List.reverseRecOn with
  | nil => exact start
  | append_singleton done setup ih =>
      have before := ih fun other mem => can other (List.mem_append_left _ mem)
      rw [after_concat]
      exact (before.step (can setup (by simp))).2.2

end Configured

/-- At any point in a list of calls there is one log file for each of the paths without links that were
asked for so far, in the order in which they were asked for first, the last call with a known verbosity
has decided the level, and the terminal is attached once if there was such a call. The next call
succeeds if its verbosity is known, and otherwise it changes nothing. -/
theorem configured_exact (session : Session) (noFiles : session.journal.files = [])
    (noTerminal : session.journal.terminals = 0) (setups : List Setup)
    (can : ∀ setup ∈ setups, ∀ path ∈ setup.file?, session.CanOpen path) (done : List Setup)
    (front : done <+: setups) :
    (session.after done).journal.files.map (·.path) = (done.filterMap session.target?).eraseDups ∧
    (∀ file ∈ (session.after done).journal.files, file.location = file.path.parts) ∧
    (session.after done).journal.level =
      (done.filterMap Setup.level?).getLast?.getD session.journal.level ∧
    (session.after done).journal.terminals = (if done.any (·.level?.isSome) then 1 else 0) ∧
    ∀ setup, done ++ [setup] <+: setups →
      (setup.run.on (session.after done)).1 = setup.result ∧
      (setup.result ≠ .ok () → session.after (done ++ [setup]) = session.after done) := by
  have configured : Configured session done (session.after done) :=
    .after (.start noFiles noTerminal) fun setup mem => can setup (front.subset mem)
  refine ⟨configured.paths, configured.locations, configured.level, configured.terminals, ?_⟩
  intro setup next
  obtain ⟨result, unchanged, -⟩ := configured.step (can setup (next.subset (by simp)))
  rw [after_concat]
  exact ⟨result, unchanged⟩

/-- A folder with a link that leads back to it. -/
def loopedTree : FileTree where
  entries := [(["work"], .folder), (["work", "here"], .link "../work")]
  removed := []

def looped : Session := { Session.ofTree loopedTree with folder := loopedTree.hold ["work"] }

/-- Four calls, three of which spell the same log file. -/
def loopedSetups : List Setup :=
  [.flags true false (some ⟨"", ["log"]⟩), .named "loud" (some ⟨"", ["other"]⟩),
    .flags true true (some ⟨"", ["..", "work", "log"]⟩),
    .named "verbose" (some ⟨"/", ["work", "here", "log"]⟩)]

theorem resolve_log : loopedTree.resolve looped.folder ⟨"", ["log"]⟩ = .ok ⟨"/", ["work", "log"]⟩ := by
  simp +decide [FileTree.resolve, FileTree.realPath, FileTree.realPathFrom]

theorem resolve_log_up :
    loopedTree.resolve looped.folder ⟨"", ["..", "work", "log"]⟩ = .ok ⟨"/", ["work", "log"]⟩ := by
  simp +decide [FileTree.resolve, FileTree.realPath, FileTree.realPathFrom]

theorem resolve_log_link :
    loopedTree.resolve looped.folder ⟨"/", ["work", "here", "log"]⟩ = .ok ⟨"/", ["work", "log"]⟩ := by
  have folder : loopedTree.entryAt? looped.folder ⟨"/", ["work"]⟩ = some .folder := rfl
  have link : loopedTree.entryAt? looped.folder ⟨"/", ["work", "here"]⟩ = some (.link "../work") := rfl
  have free : loopedTree.entryAt? looped.folder ⟨"/", ["work", "log"]⟩ = none := rfl
  have depth : 2 * loopedTree.linkCount = 2 := rfl
  have pieces : PathName.pieces ['.', '.', '/', 'w', 'o', 'r', 'k'] = ["..", "work"] := by decide
  have noNull : ["work", "here", "log"].any FileTree.hasNull = false := by decide
  rw [FileTree.resolve, noNull]
  simp [FileTree.realPath, FileTree.realPathFrom, folder, link, free, depth, PathName.isAbsolute,
    PathName.down, PathName.up, FileTree.targetStart, pieces, FileTree.straighten]

theorem openForAppend_log : ∃ after, loopedTree.openForAppend ["work", "log"] = .ok after := by
  have located : loopedTree.locate ["work"] = .ok ["work"] := by
    rw [FileTree.locate, FileTree.locateFrom_folder (by decide) rfl, FileTree.locateFrom_nil]
    rfl
  have ends : FileTree.EndsIn (["work"] ++ ["log"]) "log" := by
    constructor <;> decide
  have missing := ends.status located rfl fun target link => by cases link
  exact ⟨_, FileTree.openForAppend_new missing located rfl rfl⟩

theorem configured_exact_looped :
    (looped.after loopedSetups).journal.files.map (·.path) = [⟨"/", ["work", "log"]⟩] ∧
      (looped.after loopedSetups).journal.level = 10 ∧
      (looped.after loopedSetups).journal.terminals = 1 ∧
      looped.after (loopedSetups.take 2) = looped.after (loopedSetups.take 1) := by
  have can : ∀ setup ∈ loopedSetups, ∀ path ∈ setup.file?, looped.CanOpen path := by
    obtain ⟨after, opened⟩ := openForAppend_log
    intro setup mem path wanted
    simp only [loopedSetups, List.mem_cons, List.not_mem_nil, or_false] at mem
    rcases mem with rfl | rfl | rfl | rfl
    · cases wanted
      exact ⟨_, after, resolve_log, opened⟩
    · cases wanted
    · cases wanted
      exact ⟨_, after, resolve_log_up, opened⟩
    · cases wanted
      exact ⟨_, after, resolve_log_link, opened⟩
  obtain ⟨paths, -, level, terminals, -⟩ :=
    configured_exact looped rfl rfl loopedSetups can loopedSetups List.prefix_rfl
  obtain ⟨-, -, -, -, next⟩ := configured_exact looped rfl rfl loopedSetups can
    (loopedSetups.take 1) (List.take_prefix 1 loopedSetups)
  have targets : loopedSetups.filterMap looped.target? =
      [⟨"/", ["work", "log"]⟩, ⟨"/", ["work", "log"]⟩, ⟨"/", ["work", "log"]⟩] := by
    have tree : looped.tree = loopedTree := rfl
    simp [loopedSetups, target?, Setup.file?, Setup.level?, Setup.file, tree, resolve_log,
      resolve_log_up, resolve_log_link, Except.toOption]
  rw [targets] at paths
  refine ⟨paths, level, terminals, ?_⟩
  apply (next (.named "loud" (some ⟨"", ["other"]⟩)) (List.take_prefix 2 loopedSetups)).2
  simp [Setup.result]

end Session

end LayerLint
