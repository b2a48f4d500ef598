import LayerLint.Command
import LayerLint.Proofs.Check.Failing
import LayerLint.Proofs.Glob.Selection
import LayerLint.Proofs.Settings.Loading

/-!
# How a check on the command line ends

A check that returns ends with code 1 if its report has an error and with code 0 otherwise. A check that
fails ends with code 2 and the failure, as long as it fails in one of the ways that are reported
(`Fatal`). It fails in another way, and ends with code 1 as well, only if something is wrong that neither
the settings nor the check guard against (`Unguarded`).
-/

namespace LayerLint.Command

variable {session : Session} {options : LintOptions} {failure : Failure}

def LintOptions.settings (options : LintOptions) (session : Session) : Except Failure Settings :=
  Settings.load session (options.config.map PathName.ofString) options.toTable

def LintOptions.request (options : LintOptions) (d : Style.Definition) : Request :=
  ⟨options.path, d.style.id, []⟩

/-- The failures that are reported: an unknown style, settings that are refused, a root that is no
folder, and a check whose time is up. -/
inductive Fatal (session : Session) (options : LintOptions) : Failure → Prop where
  | style (unknown : Style.standard.get? options.style = none) :
      Fatal session options (.unknownStyle options.style Style.standard.styleIds)
  | settings {failure : Failure}
      (refused : Settings.Refused session (options.config.map PathName.ofString) options.toTable failure) :
      Fatal session options failure
  | check {d : Style.Definition} {settings : Settings} {failure : Failure}
      (loaded : options.settings session = .ok settings)
      (fatal : Check.Fatal settings (options.request d) session failure) :
      Fatal session options failure

/-- What makes a check of a known style fail in another way, while its settings are loaded or later. -/
inductive Unguarded (session : Session) (options : LintOptions) : Prop where
  | settings {d : Style.Definition} (known : Style.standard.require options.style = .ok d)
      (unguarded : Settings.Unguarded session (options.config.map PathName.ofString) options.toTable) :
      Unguarded session options
  | check {d : Style.Definition} {settings : Settings}
      (known : Style.standard.require options.style = .ok d)
      (loaded : options.settings session = .ok settings)
      (unguarded : Check.Unguarded settings Style.standard (options.request d) session) :
      Unguarded session options

theorem Fatal.isReported (h : Fatal session options failure) : isReported failure = true := by
  cases h with
  | style => rfl
  | settings refused => cases refused <;> rfl
  | check _ fatal => cases fatal <;> rfl

/-! ## The rules of the standard styles -/

theorem compile_appliesTo (rule : Rule.Builtin) : ∃ glob, Glob.compile rule.appliesTo = .ok glob := by
  have plain : ∀ p ∈ Glob.expandBraces rule.appliesTo.toList, Glob.PlainSets p := by
    cases rule <;> decide +kernel
  have shallow : Glob.isShallow rule.appliesTo.toList = true := by
    cases rule <;> decide +kernel
  rw [Glob.compile, if_pos shallow, Glob.compile?_plain plain]
  exact ⟨_, rfl⟩

theorem listed_standard (style : Style) :
    ∃ rules, Rule.listed Style.standard style.id [] = .ok rules ∧
      ∀ rule ∈ rules, ∃ glob, Glob.compile rule.appliesTo = .ok glob := by
  have listable : (Rule.ownOf Style.standard style.id).isOk = true := by
    cases style <;> decide +kernel
  cases own : Rule.ownOf Style.standard style.id with
  | error failure =>
      rw [own] at listable
      cases listable
  | ok rules =>
      have listed : Rule.listed Style.standard style.id [] = .ok (rules.map .builtin) := by
        rw [Rule.listed, own]
        rfl
      exact ⟨_, listed, Rule.listed_all compile_appliesTo (List.forall_mem_nil _) listed⟩

/-! ## Checks that fail -/

theorem lookup_fileOption (options : LintOptions) :
    options.toTable.lookup Settings.fileOption = none := by
  obtain ⟨path, style, json, workers, timeout, config, verbose, quiet⟩ := options
  cases workers <;> cases timeout <;> cases verbose <;> cases quiet <;> rfl

def LintOptions.started (options : LintOptions) (session : Session) : Session :=
  { session with
    journal := session.journal.setLevel (.ofFlags options.verbose options.quiet) }

theorem on_checkProject (options : LintOptions) (session : Session) :
    ((checkProject options).on session).1 =
      Style.standard.require options.style >>= fun d =>
        options.settings session >>= fun settings =>
          ((Check.run settings Style.standard (options.request d) false).on
            (options.started session)).1 := by
  -- the journal's level is set first, and neither the style nor the settings depend on it
  show ((Run.ofExcept (Style.standard.require options.style) >>= _).on (options.started session)).1 = _
  cases Style.standard.require options.style with
  | error failure => rfl
  | ok d =>
      show ((Run.ofExcept (options.settings session) >>= _).on (options.started session)).1 = _
      cases options.settings session <;> rfl

theorem checkProject_error (wf : session.tree.WellFormed)
    (h : ((checkProject options).on session).1 = .error failure) :
    Fatal session options failure ∨ Unguarded session options := by
  rw [on_checkProject] at h
  rcases bind_eq_error.1 h with h | ⟨d, known, h⟩
  · unfold Style.Registry.require at h
    cases unknown : Style.standard.get? options.style with
    | some d =>
        rw [unknown] at h
        cases h
    | none =>
        rw [unknown] at h
        cases h
        exact .inl (.style unknown)
  rcases bind_eq_error.1 h with h | ⟨settings, loaded, h⟩
  · exact (Settings.load_error (lookup_fileOption options) h).imp .settings (.settings known)
  have accepts := Settings.load_accepts (lookup_fileOption options) loaded
  obtain ⟨timeout, htimeout, -⟩ := accepts .timeout
  obtain ⟨size, hsize, -⟩ := accepts .maxFileSize
  obtain ⟨rules, listed, patterns⟩ := listed_standard d.style
  have within : session.Within (options.started session) := ⟨wf, .refl _ _, rfl, rfl⟩
  exact (Check.run_fatal wf within (List.forall_mem_nil _) ⟨timeout, htimeout⟩ ⟨size, hsize⟩ listed
    patterns h).imp (.check loaded) (.check known loaded)

/-! ## Exit codes -/

def HasError (report : Report) : Prop := ∃ v ∈ report.violations, v.severity = .error

theorem exitCode_eq_one {report : Report} : exitCode report.violations = 1 ↔ HasError report := by
  simp [exitCode, anyError, HasError]

theorem exitCode_eq_zero {report : Report} : exitCode report.violations = 0 ↔ ¬ HasError report := by
  simp [exitCode, anyError, HasError]

def reportText (json : Bool) (report : Report) : String :=
  if json then report.toJson ++ "\n" else report.render

def domainTree : FileTree :=
  ⟨[(["domain"], .folder),
    (["domain", "a.ts"], .file (Text.encode "require('infrastructure')".toList))], []⟩

def lintRoot : LintOptions := ⟨⟨"/", []⟩, "clean", false, none, none, none, false, false⟩

theorem wellFormed_domainTree : domainTree.WellFormed := by decide +kernel

theorem locate_domainTree :
    domainTree.locate ["domain"] = .ok ["domain"] ∧
      domainTree.locate ["domain", "a.ts"] = .ok ["domain", "a.ts"] := by
  unfold FileTree.locate
  constructor
  · rw [FileTree.locateFrom_folder (by decide) rfl, FileTree.locateFrom_nil]
    rfl
  · rw [FileTree.locateFrom_folder (by decide) rfl]
    exact FileTree.locateFrom_file (by decide) rfl _

section Missing

variable {tree : FileTree} {location : Location} (missing : tree.status location = .error .missing)

include missing

theorem readIfPresent_of_missing : Settings.readIfPresent tree location = .ok [] := by
  rw [Settings.readIfPresent, missing]
  rfl

theorem not_unread_of_missing : ¬ Settings.Unread tree (.ok location) := by
  have contents {bytes : List UInt8} : (Except.ok location).bind tree.contents ≠ .ok bytes := by
    show tree.contents location ≠ _
    unfold FileTree.contents
    rw [missing]
    nofun
  rintro (status | text | text)
  · cases missing.symm.trans status
  · exact contents text
  · exact contents text

end Missing

theorem sources_ofTree {tree : FileTree} {table : Table}
    (home : Settings.readIfPresent tree [Settings.homeFileName] = .ok [])
    (here : Settings.readIfPresent tree [Settings.folderFileName] = .ok table) (options : Table) :
    Settings.sources (.ofTree tree) none options =
      .ok [[], table, [], [], Settings.ofOptions options] := by
  unfold Settings.sources Settings.readFolder
  rw [Session.folder?_ofTree]
  simp only [Session.ofTree, List.nil_append, home, here]
  rfl

theorem missing_domainTree :
    domainTree.status [Settings.homeFileName] = .error .missing ∧
      domainTree.status [Settings.folderFileName] = .error .missing :=
  ⟨Scan.missing_of_absent (by decide) ⟨by decide, by decide⟩ rfl,
    Scan.missing_of_absent (by decide) ⟨by decide, by decide⟩ rfl⟩

theorem sources_domainTree :
    Settings.sources (.ofTree domainTree) none lintRoot.toTable = .ok [[], [], [], [], []] :=
  sources_ofTree (readIfPresent_of_missing missing_domainTree.1)
    (readIfPresent_of_missing missing_domainTree.2) []

theorem settings_domainTree : lintRoot.settings (.ofTree domainTree) = .ok .standard := by
  rw [LintOptions.settings, Settings.load_eq (lookup_fileOption _)]
  change Settings.sources (.ofTree domainTree) none lintRoot.toTable >>= _ = _
  rw [sources_domainTree]
  show Settings.ofSources [[], [], [], [], []] = _
  rw [Settings.ofSources_of_known (by simp [Settings.strayName?, Settings.merge, Table.update])]
  show (Settings.standard.check >>= fun _ => pure Settings.standard) = _
  rw [Settings.check_standard]
  rfl

theorem not_unguarded_settings :
    ¬ Settings.Unguarded (.ofTree domainTree) none lintRoot.toTable := by
  have same {tables : List Table}
      (merged : Settings.sources (.ofTree domainTree) none lintRoot.toTable = .ok tables) :
      Settings.merge tables = [] := by
    obtain rfl := Except.ok.inj (sources_domainTree.symm.trans merged)
    rfl
  have accepts := Settings.accepts_of_check Settings.check_standard
  intro unguarded
  cases unguarded with
  | file source unread =>
      cases source with
      | home => exact not_unread_of_missing missing_domainTree.1 unread
      | folder here =>
          obtain rfl := Option.some.inj ((Session.folder?_ofTree domainTree).symm.trans here)
          exact not_unread_of_missing missing_domainTree.2 unread
      | named given => cases given
  | noFolder gone => cases (Session.folder?_ofTree domainTree).symm.trans gone
  | unknown merged given =>
      rw [same merged] at given
      cases given
  | kind merged numeric wrong =>
      rw [same merged] at wrong
      rcases numeric with rfl | rfl | rfl <;> cases wrong
  | value merged wrong =>
      rw [same merged] at wrong
      exact wrong (accepts _)

theorem eq_of_locateFrom {tree : FileTree} (noLinks : ∀ location target,
      tree.get? location ≠ some (.link target)) {links : Nat} {here location : Location}
    {path : List String} (plain : ∀ name ∈ path, name ≠ "." ∧ name ≠ "..")
    (h : tree.locateFrom links here path = .ok location) : location = here ++ path := by
  fun_induction FileTree.locateFrom tree links here path <;> simp_all

theorem not_overlong {tree : FileTree} (noLinks : ∀ location target,
      tree.get? location ≠ some (.link target))
    (short : ∀ location ∈ tree.entries.map (·.1), tree.status location ≠ .error .nameTooLong)
    {options : Scan.Options} (hidden : options.allowHidden = false) {glob : Glob} {rel : List String} :
    ¬ Scan.Overlong tree options glob [] rel := by
  intro h
  obtain ⟨entry, found, notFolder⟩ := h.notFolder
  have plain : ∀ name ∈ rel, name ≠ "." ∧ name ≠ ".." := by
    intro name mem
    have shown := (Scan.keepsName_iff name).1 (h.shown name mem)
    rw [hidden] at shown
    constructor <;> rintro rfl <;> simp at shown
  rcases List.eq_nil_or_concat rel with rfl | ⟨parts, name, rfl⟩
  · exact notFolder (Option.some.inj found).symm
  · unfold Scan.entryOf? at found
    rw [List.nil_append, List.concat_eq_append, List.getLast?_concat, List.dropLast_concat] at found
    cases located : tree.locate parts with
    | error fault =>
        simp only [located] at found
        cases found
    | ok location =>
        simp only [located] at found
        have same := eq_of_locateFrom noLinks (fun other mem => plain other (by simp [mem])) located
        rw [List.nil_append] at same
        subst same
        exact short _ (FileTree.mem_locations (by simp) found) (by simpa using h.overlong)

theorem findRoot_domainTree :
    Scan.findRoot domainTree (domainTree.hold []) ⟨"/", []⟩ = .ok [] :=
  Scan.findRoot_of_real wellFormed_domainTree _ (.nil _ _) ⟨by decide, by decide⟩

theorem status_domainTree :
    domainTree.status ["domain"] = .ok .folder ∧
      domainTree.status ["domain", "a.ts"] =
        .ok (.file (Text.encode "require('infrastructure')".toList)) :=
  ⟨Scan.Usable.status ⟨by decide, by decide⟩ locate_domainTree.1 rfl,
    Scan.Usable.status ⟨by decide, by decide⟩ locate_domainTree.2 rfl⟩

theorem findRoot_overlong {tree : FileTree} {folder : Handle} {given path : PathName}
    (resolved : tree.resolve folder given = .ok path)
    (overlong : tree.status path.parts = .error .nameTooLong) :
    Scan.findRoot tree folder given = .error (.ofFault .nameTooLong) := by
  unfold Scan.findRoot
  rw [resolved]
  simp only [overlong]

theorem not_unguarded_check {d : Style.Definition} :
    ¬ Check.Unguarded .standard Style.standard (lintRoot.request d) (.ofTree domainTree) := by
  have noLinks : ∀ location target, domainTree.get? location ≠ some (.link target) := by
    intro location target found
    by_cases top : location = []
    · rw [top, FileTree.get?_nil] at found
      cases found
    · rw [FileTree.get?_of_ne_nil _ top] at found
      have mem := mem_of_lookup found
      simp [domainTree] at mem
  have short : ∀ location ∈ domainTree.entries.map (·.1),
      domainTree.status location ≠ .error .nameTooLong := by
    obtain ⟨folder, file⟩ := status_domainTree
    intro location mem
    rcases List.mem_pair.1 mem with rfl | rfl
    · rw [folder]
      nofun
    · rw [file]
      nofun
  intro unguarded
  cases unguarded with
  | nullCharacter null => cases null
  | overlongRoot root resolved overlong =>
      have found : Scan.findRoot domainTree (domainTree.hold []) _ = .error (.ofFault .nameTooLong) :=
        findRoot_overlong resolved overlong
      cases root with
      | given => cases findRoot_domainTree.symm.trans found
      | found root =>
          obtain rfl := Except.ok.inj (findRoot_domainTree.symm.trans root)
          cases findRoot_domainTree.symm.trans found
  | timeout given large =>
      cases given
      revert large
      decide +kernel
  | excludes mem => cases mem
  | size given unbounded =>
      cases given
      revert unbounded
      decide +kernel
  | file prepared mem hroot hglob overlong =>
      obtain ⟨root, rules, seconds, excludes, limit, given, -, -, -, -, rfl⟩ :=
        Check.planOf_cases prepared
      obtain rfl := Except.ok.inj (findRoot_domainTree.symm.trans given)
      obtain rfl := Except.ok.inj (findRoot_domainTree.symm.trans hroot)
      exact not_overlong noLinks short rfl overlong

theorem guarded_domainTree : ¬ Unguarded (.ofTree domainTree) lintRoot := by
  rintro (⟨known, unguarded⟩ | ⟨known, loaded, unguarded⟩)
  · exact not_unguarded_settings unguarded
  · obtain rfl := Except.ok.inj (settings_domainTree.symm.trans loaded)
    exact not_unguarded_check unguarded

theorem mem_files_domainTree {files : List Location}
    (found : Scan.found domainTree (domainTree.hold []) ⟨false, false, []⟩ ⟨"/", []⟩
      Rule.Builtin.domainIsolation.appliesTo = .ok files) : ["domain", "a.ts"] ∈ files := by
  obtain ⟨glob, hglob, selects⟩ : ∃ glob,
      Glob.compile Rule.Builtin.domainIsolation.appliesTo = .ok glob ∧
        glob.selects "domain/a.ts" = true := Scan.exists_compile (by decide +kernel)
  obtain ⟨blocked, clear⟩ := @Scan.found_exact domainTree ⟨false, false, []⟩ glob [] _ _ _
    wellFormed_domainTree findRoot_domainTree hglob rfl
  obtain ⟨rels, returned, mem, -⟩ := clear fun blocks => by cases found.symm.trans (blocked blocks)
  obtain rfl := Except.ok.inj (returned.symm.trans found)
  refine List.mem_map.2 ⟨_, (mem _).2 ⟨?_, Scan.isFile_iff.2 ⟨_, status_domainTree.2⟩⟩, rfl⟩
  have folder : Scan.entryOf? domainTree ["domain"] = some .folder := by
    have located : domainTree.locate [] = .ok [] := FileTree.locateFrom_nil ..
    simp only [Scan.entryOf?, List.getLast?_singleton, List.dropLast_singleton, located]
    rfl
  refine ⟨by simp, fun above h => ?_, .inr (by decide), selects, nofun, fun above h => nofun⟩
  change Scan.IsAncestor above (["domain"] ++ ["a.ts"]) at h
  obtain ⟨ne, front⟩ := Scan.isAncestor_concat.1 h
  rcases List.prefix_cons_iff.1 front with rfl | ⟨rest, rfl, more⟩
  · exact absurd rfl ne
  · obtain rfl := List.prefix_nil.1 more
    exact folder

theorem imports_domainTree :
    Check.importsAt domainTree 10485760 ["domain", "a.ts"] = ["infrastructure"] := by
  rw [Check.importsAt_of_status .typescript status_domainTree.2 (by decide +kernel) (by decide +kernel)]
  decide +kernel

theorem violation_domainTree {session : Session} {plan : Check.Plan}
    {rows : List (Rule × List Location)} (htree : session.tree = domainTree)
    (hfolder : session.folder = domainTree.hold [])
    (prepared : Check.planOf .standard Style.standard (lintRoot.request Style.cleanDefinition) session =
      .ok plan) (hrows : Check.rowsOf session plan plan.rules = .ok rows) :
    HasError (Check.reportOf (lintRoot.request Style.cleanDefinition) plan session.tree rows) := by
  have listed : Rule.listed Style.standard "clean" [] =
      .ok [.builtin .domainIsolation, .builtin .applicationIsolation, .builtin .noImplInDomain] := rfl
  have size : Settings.standard.maxBytes.toOption = some 10485760 := by decide +kernel
  obtain ⟨root, rules, seconds, excludes, limit, hroot, hrules, -, hexcludes, hlimit, rfl⟩ :=
    Check.planOf_cases prepared
  rw [htree, hfolder] at hroot
  obtain rfl := Except.ok.inj (findRoot_domainTree.symm.trans hroot)
  obtain rfl := Except.ok.inj (listed.symm.trans hrules)
  obtain rfl := Except.ok.inj hexcludes
  rw [hlimit] at size
  obtain rfl := Option.some.inj size
  rw [Check.rowsOf_cons] at hrows
  obtain ⟨files, hfiles, hrows⟩ := bind_eq_ok.1 hrows
  obtain ⟨more, -, hrows⟩ := bind_eq_ok.1 hrows
  obtain rfl := Except.ok.inj hrows
  rw [Check.filesOf, htree, hfolder] at hfiles
  refine ⟨⟨"clean/domain-isolation", "/domain/a.ts",
    "Domain layer file imports from forbidden layer \"infrastructure\": infrastructure", .error⟩,
    List.mem_flatMap.2 ⟨_, List.mem_cons_self, List.mem_flatMap.2 ⟨_, mem_files_domainTree hfiles, ?_⟩⟩,
    rfl⟩
  rw [htree, imports_domainTree]
  decide +kernel

theorem report_domainTree :
    ∃ report, ((checkProject lintRoot).on (.ofTree domainTree)).1 = .ok report ∧ HasError report := by
  let base := lintRoot.started (.ofTree domainTree)
  let request := lintRoot.request Style.cleanDefinition
  have ran : ((checkProject lintRoot).on (.ofTree domainTree)).1 =
      ((Check.run .standard Style.standard request false).on base).1 := by
    have known : Style.standard.require lintRoot.style = .ok Style.cleanDefinition := rfl
    rw [on_checkProject, settings_domainTree, known]
    rfl
  have never : Check.limitOf Settings.standard.timeout = .ok none := rfl
  cases returned : ((Check.run .standard Style.standard request false).on base).1 with
  | error failure =>
      obtain ⟨rules, listed, patterns⟩ := listed_standard .clean
      have within : (Session.ofTree domainTree).Within base :=
        ⟨wellFormed_domainTree, .refl _ _, rfl, rfl⟩
      rcases Check.run_fatal wellFormed_domainTree within (List.forall_mem_nil _) ⟨_, rfl⟩ ⟨_, rfl⟩
        listed patterns returned with fatal | unguarded
      · cases fatal with
        | root root failed =>
            cases root with
            | given => cases findRoot_domainTree.symm.trans failed
            | found found =>
                obtain rfl := Except.ok.inj (findRoot_domainTree.symm.trans found)
                cases findRoot_domainTree.symm.trans failed
        | deadline reason limited => exact absurd never limited
      · exact (not_unguarded_check unguarded).elim
  | ok report =>
      refine ⟨report, ran.trans returned, ?_⟩
      rw [@Check.run_all base .standard Style.standard request wellFormed_domainTree
        (List.forall_mem_nil _) (fun _ _ _ _ _ _ _ _ => .ofTree _ _) false never
        nofun] at returned
      obtain ⟨plan, prepared, returned⟩ := bind_eq_ok.1 returned
      obtain ⟨rows, hrows, returned⟩ := bind_eq_ok.1 returned
      obtain rfl := Except.ok.inj returned
      exact violation_domainTree rfl rfl prepared hrows

def wordyBytes : List UInt8 := Text.encode "workers = \"four\"".toList

def wordyTree : FileTree := ⟨[(["layerguard.toml"], .file wordyBytes)], []⟩

theorem parse_wordyBytes :
    Settings.parse "/layerguard.toml" wordyBytes = .ok [("workers", .str "four")] := by
  have names : ((Text.decode? wordyBytes).bind fun text =>
      (Toml.read text).toOption.map (·.map (·.1))) = some ["workers"] := by decide +kernel
  have value : ((Text.decode? wordyBytes).bind fun text =>
      (Toml.read text).toOption.bind fun table => (table.lookup "workers").bind Value.string?) =
        some "four" := by decide +kernel
  cases decoded : Text.decode? wordyBytes with
  | none =>
      rw [decoded] at names
      cases names
  | some text =>
      rw [decoded] at names value
      cases read : Toml.read text with
      | error fault =>
          rw [Option.bind_some, read] at names
          cases names
      | ok table =>
          rw [Option.bind_some, read] at names value
          obtain ⟨⟨name, v⟩, rest, rfl, rfl, empty⟩ := List.map_eq_cons_iff.1 (Option.some.inj names)
          obtain rfl := List.map_eq_nil_iff.1 empty
          cases v with
          | str s =>
              obtain rfl : s = "four" := by simpa [Except.toOption, Value.string?] using value
              unfold Settings.parse
              simp only [decoded, read]
              rfl
          | _ => cases value

theorem readIfPresent_wordyTree :
    Settings.readIfPresent wordyTree ["layerguard.toml"] = .ok [("workers", .str "four")] := by
  have status : wordyTree.status ["layerguard.toml"] = .ok (.file wordyBytes) :=
    Scan.Usable.status ⟨by decide, by decide⟩ (FileTree.locateFrom_file (by decide) rfl _) rfl
  have contents := FileTree.contents_of_status status
  rw [Settings.readIfPresent, status]
  show Settings.readFrom wordyTree _ (.ok _) = _
  rw [Settings.readFrom, Except.bind, contents]
  exact parse_wordyBytes

theorem settings_wordyTree : lintRoot.settings (.ofTree wordyTree) = .error .wrongKind := by
  have home : wordyTree.status [Settings.homeFileName] = .error .missing :=
    Scan.missing_of_absent (by decide) ⟨by decide, by decide⟩ rfl
  have merged := sources_ofTree (readIfPresent_of_missing home) readIfPresent_wordyTree lintRoot.toTable
  rw [LintOptions.settings, Settings.load_eq (lookup_fileOption _)]
  change Settings.sources (.ofTree wordyTree) none lintRoot.toTable >>= _ = _
  rw [merged]
  show Settings.ofSources [[], [("workers", .str "four")], [], [], []] = _
  rw [Settings.ofSources_of_known]
  · rfl
  · simp +decide [Settings.strayName?, Settings.merge, Table.update, Table.set]

end LayerLint.Command
