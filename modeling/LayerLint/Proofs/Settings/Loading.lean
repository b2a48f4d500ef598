import LayerLint.Proofs.Check.InTurn

/-!
# Settings that cannot be loaded

Loading settings fails in two ways. Either a file, a variable or a value is refused, with a failure
about the settings that a command reports (`Refused`). Or a file or a value is used that nobody looked
at before (`Unguarded`). `load_error` says that there is no third way.
-/

namespace LayerLint

theorem Session.folder?_ofTree (tree : FileTree) : (Session.ofTree tree).folder? = some [] := by
  simp [Session.folder?, Session.ofTree, FileTree.holds, FileTree.hold]

namespace Settings

variable {session : Session} {file : Option PathName} {options : Table} {failure : Failure}

/-! ## Sources -/

/-- The paths of the files that settings come from, if there is a way to them. -/
inductive IsSource (session : Session) (file : Option PathName) :
    Except PathFault (List String) → Prop where
  | home : IsSource session file (.ok (session.home ++ [homeFileName]))
  | folder {folder : Location} (here : session.folder? = some folder) :
      IsSource session file (.ok (folder ++ [folderFileName]))
  | named {path : PathName} (given : file = some path) : IsSource session file (session.absolute path)

def ofNamed (session : Session) : Option PathName → Except Failure Table
  | none => .ok []
  | some path => readNamed session.tree path.toString (session.absolute path)

def sources (session : Session) (file : Option PathName) (options : Table) :
    Except Failure (List Table) := do
  let home ← readIfPresent session.tree (session.home ++ [homeFileName])
  let folder ← readFolder session
  let named ← ofNamed session file
  let environment ← ofEnvironment session.environment Setting.all
  return [home, folder, named, environment, ofOptions options]

theorem load_eq (h : options.lookup fileOption = none) :
    load session file options = sources session file options >>= ofSources := by
  -- no option names a file, so that the file comes from the command alone
  unfold load sources
  rw [h]
  simp only [bind_assoc]
  cases file <;> rfl

/-! ## What is accepted -/

/-- What a setting may be, as far as that is checked. -/
def Accepts : Setting → Value → Prop
  | .workers, v => ∃ n, v.number? = some n ∧ n.below 1 = false
  | .timeout, v => ∃ n, v.number? = some n ∧ n.below 0 = false
  | .maxFileSize, v => ∃ n, v.number? = some n ∧ n.atMost 0 = false
  | .verbosity, v => ∃ s ∈ verbosities, v = .str s
  | .excludes, v => ∃ items, v = .list items
  | .followLinks, _ => True
  | .allowHidden, _ => True

def IsNumeric (setting : Setting) : Prop :=
  setting = .workers ∨ setting = .timeout ∨ setting = .maxFileSize

def Unshowable (v : Value) : Prop :=
  maxShownDepth < v.depth ∨ v.isWritable = false

/-! ## Two ways to fail -/

/-- A settings file that fails before its settings are known: its path cannot even be asked for, its
bytes are no text, or the text has an integer that is too long or lists that lie too deep. -/
inductive Unread (tree : FileTree) (path : Except PathFault (List String)) : Prop where
  | overlong (status : path.bind tree.status = .error .nameTooLong)
  | notText {bytes : List UInt8} (contents : path.bind tree.contents = .ok bytes)
      (decoded : Text.decode? bytes = none)
  | notRead {bytes : List UInt8} {text : List Char} {fault : Toml.Fault}
      (contents : path.bind tree.contents = .ok bytes) (decoded : Text.decode? bytes = some text)
      (read : Toml.read text = .error fault) (other : fault ≠ .malformed)

/-- The failures that are about settings: a file, a variable or a value is refused. -/
inductive Refused (session : Session) (file : Option PathName) (options : Table) : Failure → Prop where
  | notFound {path : PathName} {fault : PathFault} (given : file = some path)
      (status : (session.absolute path).bind session.tree.status = .error fault) :
      Refused session file options (.invalidSetting "config_file" path.toString "file not found")
  | unreadable {path : Except PathFault (List String)} {entry : Entry} {fault : PathFault}
      (shown reason : String) (source : IsSource session file path)
      (status : path.bind session.tree.status = .ok entry)
      (contents : path.bind session.tree.contents = .error fault) :
      Refused session file options (.invalidSetting "config_file" shown reason)
  | malformed {path : Except PathFault (List String)} {bytes : List UInt8} {text : List Char}
      (shown : String) (source : IsSource session file path)
      (contents : path.bind session.tree.contents = .ok bytes) (decoded : Text.decode? bytes = some text)
      (read : Toml.read text = .error .malformed) :
      Refused session file options (.malformedSettings shown)
  | variable {setting : Setting} {s reason : String}
      (given : session.environment.lookup (variableName setting) = some s)
      (read : readVariable setting s = .error reason) :
      Refused session file options (.invalidSetting (variableName setting) s reason)
  | unknown {tables : List Table} {name : String} {v : Value} (shown reason : String)
      (merged : sources session file options = .ok tables)
      (given : (merge tables).lookup name = some v) (stray : Setting.ofName? name = none) :
      Refused session file options (.invalidSetting name shown reason)
  | value {tables : List Table} {setting : Setting} (shown reason : String)
      (merged : sources session file options = .ok tables)
      (wrong : ¬ Accepts setting ((ofTable (merge tables)).get setting)) :
      Refused session file options (.invalidSetting setting.name shown reason)

/-- What makes loading settings fail otherwise: a file that fails before its settings are known, a
current folder that is gone, a value that is no number where one is needed, and a value that would be
refused but cannot be shown. -/
inductive Unguarded (session : Session) (file : Option PathName) (options : Table) : Prop where
  | file {path : Except PathFault (List String)} (source : IsSource session file path)
      (unread : Unread session.tree path)
  | noFolder (gone : session.folder? = none)
  | unknown {tables : List Table} {name : String} {v : Value}
      (merged : sources session file options = .ok tables)
      (given : (merge tables).lookup name = some v) (stray : Setting.ofName? name = none)
      (unshowable : Unshowable v)
  | kind {tables : List Table} {setting : Setting} (merged : sources session file options = .ok tables)
      (numeric : IsNumeric setting) (wrong : ((ofTable (merge tables)).get setting).number? = none)
  | value {tables : List Table} {setting : Setting} (merged : sources session file options = .ok tables)
      (wrong : ¬ Accepts setting ((ofTable (merge tables)).get setting))
      (unshowable : Unshowable ((ofTable (merge tables)).get setting))

/-! ## Files that cannot be read -/

section Files

variable {path : Except PathFault (List String)} {shown : String}

theorem readFrom_error {entry : Entry} (source : IsSource session file path)
    (status : path.bind session.tree.status = .ok entry)
    (h : readFrom session.tree shown path = .error failure) :
    Refused session file options failure ∨ Unread session.tree path := by
  unfold readFrom at h
  cases contents : path.bind session.tree.contents with
  | error fault =>
      rw [contents] at h
      cases h
      exact .inl (.unreadable _ _ source status contents)
  | ok bytes =>
      rw [contents] at h
      dsimp only at h
      unfold parse at h
      cases decoded : Text.decode? bytes with
      | none => exact .inr (.notText contents decoded)
      | some text =>
          rw [decoded] at h
          dsimp only at h
          cases read : Toml.read text with
          | ok table =>
              rw [read] at h
              dsimp only at h
              split at h <;> cases h
          | error fault =>
              cases fault with
              | malformed =>
                  rw [read] at h
                  cases h
                  exact .inl (.malformed _ source contents decoded read)
              | tooManyDigits digits => exact .inr (.notRead contents decoded read nofun)
              | tooDeep => exact .inr (.notRead contents decoded read nofun)

theorem presence_error {α : Type} {found : Except PathFault α} {fault : PathFault}
    (h : PathFault.presence found = .error fault) : found = .error .nameTooLong := by
  unfold PathFault.presence at h
  split at h
  · cases h
  · rfl
  · cases h

theorem presence_false {α : Type} {found : Except PathFault α}
    (h : PathFault.presence found = .ok false) : ∃ fault, found = .error fault := by
  cases found with
  | ok a => cases h
  | error fault => exact ⟨fault, rfl⟩

theorem presence_true {α : Type} {found : Except PathFault α}
    (h : PathFault.presence found = .ok true) : ∃ a, found = .ok a := by
  unfold PathFault.presence at h
  split at h
  · exact ⟨_, rfl⟩
  · cases h
  · cases h

theorem readIfPresent_error {location : Location} (source : IsSource session file (.ok location))
    (h : readIfPresent session.tree location = .error failure) :
    Refused session file options failure ∨ Unread session.tree (.ok location) := by
  unfold readIfPresent at h
  split at h
  · rename_i unknown
    exact .inr (.overlong (presence_error unknown))
  · cases h
  · rename_i present
    obtain ⟨entry, status⟩ := presence_true present
    exact readFrom_error source status h

theorem readNamed_error {name : PathName} (given : file = some name)
    (h : readNamed session.tree name.toString (session.absolute name) = .error failure) :
    Refused session file options failure ∨ Unread session.tree (session.absolute name) := by
  unfold readNamed at h
  split at h
  · rename_i unknown
    exact .inr (.overlong (presence_error unknown))
  · rename_i absent
    cases h
    obtain ⟨fault, status⟩ := presence_false absent
    exact .inl (.notFound given status)
  · rename_i present
    obtain ⟨entry, status⟩ := presence_true present
    exact readFrom_error (.named given) status h

theorem readFolder_error (h : readFolder session = .error failure) :
    Refused session file options failure ∨ Unguarded session file options := by
  unfold readFolder at h
  split at h
  · rename_i gone
    exact .inr (.noFolder gone)
  · rename_i folder here
    exact (readIfPresent_error (.folder here) h).imp_right (.file (.folder here))

end Files

theorem ofEnvironment_error {settings : List Setting}
    (h : ofEnvironment session.environment settings = .error failure) :
    Refused session file options failure := by
  fun_induction ofEnvironment session.environment settings with
  | case1 => cases h
  | case2 setting rest _ ih => exact ih h
  | case3 setting rest s given reason read =>
      cases h
      exact .variable given read
  | case4 setting rest s given v read other failed ih => exact ih (failed.trans h)
  | case5 => cases h

theorem sources_error (h : sources session file options = .error failure) :
    Refused session file options failure ∨ Unguarded session file options := by
  rcases bind_eq_error.1 h with h | ⟨home, -, h⟩
  · exact (readIfPresent_error .home h).imp_right (.file .home)
  rcases bind_eq_error.1 h with h | ⟨folder, -, h⟩
  · exact readFolder_error h
  rcases bind_eq_error.1 h with h | ⟨named, -, h⟩
  · cases file with
    | none => cases h
    | some path => exact (readNamed_error rfl h).imp_right (.file (.named rfl))
  rcases bind_eq_error.1 h with h | ⟨environment, -, h⟩
  · exact .inl (ofEnvironment_error h)
  · cases h

/-! ## Values that are refused -/

theorem invalid_cases (name : String) (v : Value) (reason : String) :
    (∃ shown, invalid name v reason = .invalidSetting name shown reason) ∨ Unshowable v := by
  unfold invalid shown
  by_cases deep : maxShownDepth < v.depth
  · exact .inr (.inl deep)
  · cases writable : v.isWritable with
    | false => exact .inr (.inr writable)
    | true =>
        rw [if_neg deep, if_pos rfl]
        exact .inl ⟨_, rfl⟩

/-- A test of a setting that passes what is accepted, and whose failure is about the value. -/
def Judges (setting : Setting) (v : Value) (result : Except Failure Unit) : Prop :=
  Accepts setting v ∧ result = .ok () ∨
    ¬ Accepts setting v ∧
      (IsNumeric setting ∧ v.number? = none ∧ result = .error .wrongKind ∨
        ∃ reason, result = .error (invalid setting.name v reason))

theorem demand_judges {setting : Setting} {v : Value} {fails : Value.Number → Bool}
    (numeric : IsNumeric setting)
    (accepts : Accepts setting v ↔ ∃ n, v.number? = some n ∧ fails n = false) (reason : String) :
    Judges setting v (demand setting v fails reason) := by
  unfold Judges demand refuse
  rw [accepts]
  cases v.number? with
  | none => exact .inr ⟨nofun, .inl ⟨numeric, rfl, rfl⟩⟩
  | some n =>
      cases failing : fails n with
      | false => exact .inl ⟨⟨n, rfl, failing⟩, by simp [failing]⟩
      | true => exact .inr ⟨by simp [failing], .inr ⟨reason, by simp [failing]⟩⟩

theorem checkVerbosity_judges (v : Value) : Judges .verbosity v (checkVerbosity v) := by
  cases v with
  | str s =>
      by_cases known : s ∈ verbosities
      · exact .inl ⟨⟨s, known, rfl⟩, if_pos (List.contains_iff_mem.2 known)⟩
      · refine .inr ⟨fun ⟨other, mem, same⟩ => ?_, .inr ⟨_, if_neg (mt List.contains_iff_mem.1 known)⟩⟩
        exact known (Value.str.inj same ▸ mem)
  | _ => exact .inr ⟨by rintro ⟨s, -, ⟨⟩⟩, .inr ⟨_, rfl⟩⟩

theorem checkExcludes_judges (v : Value) : Judges .excludes v (checkExcludes v) := by
  cases v with
  | list items => exact .inl ⟨⟨items, rfl⟩, rfl⟩
  | _ => exact .inr ⟨by rintro ⟨items, ⟨⟩⟩, .inr ⟨_, rfl⟩⟩

def tests (settings : Settings) : List (Setting × Except Failure Unit) :=
  [(.workers, demand .workers settings.workers (·.below 1) "must be at least 1"),
   (.timeout, demand .timeout settings.timeout (·.below 0) "must be non-negative"),
   (.maxFileSize, demand .maxFileSize settings.maxFileSize (·.atMost 0) "must be positive"),
   (.verbosity, checkVerbosity settings.verbosity), (.excludes, checkExcludes settings.excludes)]

theorem tests_judge (settings : Settings) :
    ∀ test ∈ tests settings, Judges test.1 (settings.get test.1) test.2 := by
  intro test mem
  simp only [tests, List.mem_cons, List.not_mem_nil, or_false] at mem
  rcases mem with rfl | rfl | rfl | rfl | rfl
  · exact demand_judges (.inl rfl) .rfl _
  · exact demand_judges (.inr (.inl rfl)) .rfl _
  · exact demand_judges (.inr (.inr rfl)) .rfl _
  · exact checkVerbosity_judges _
  · exact checkExcludes_judges _

theorem check_eq (settings : Settings) : settings.check = (tests settings).forM (·.2) := by
  simp [check, tests, List.forM_cons]

theorem exists_of_forM_error {ε α : Type} {f : α → Except ε Unit} {xs : List α} {e : ε}
    (h : xs.forM f = .error e) : ∃ x ∈ xs, f x = .error e := by
  induction xs with
  | nil => cases h
  | cons x xs ih =>
      rcases bind_eq_error.1 h with h | ⟨-, -, h⟩
      · exact ⟨x, by simp, h⟩
      · obtain ⟨other, mem, failed⟩ := ih h
        exact ⟨other, by simp [mem], failed⟩

theorem forall_of_forM_ok {ε α : Type} {f : α → Except ε Unit} {xs : List α}
    (h : xs.forM f = .ok ()) : ∀ x ∈ xs, f x = .ok () := by
  induction xs with
  | nil => nofun
  | cons x xs ih =>
      obtain ⟨_, first, rest⟩ := bind_eq_ok.1 h
      exact List.forall_mem_cons.2 ⟨first, ih rest⟩

theorem check_error {settings : Settings} (h : settings.check = .error failure) :
    ∃ setting, ¬ Accepts setting (settings.get setting) ∧
      (IsNumeric setting ∧ (settings.get setting).number? = none ∨
        ∃ reason, failure = invalid setting.name (settings.get setting) reason) := by
  rw [check_eq] at h
  obtain ⟨test, mem, failed⟩ := exists_of_forM_error h
  refine ⟨test.1, ?_⟩
  rcases tests_judge settings test mem with ⟨-, passed⟩ | ⟨wrong, ⟨numeric, none, -⟩ | ⟨reason, same⟩⟩
  · cases failed.symm.trans passed
  · exact ⟨wrong, .inl ⟨numeric, none⟩⟩
  · exact ⟨wrong, .inr ⟨reason, Except.error.inj (failed.symm.trans same)⟩⟩

theorem accepts_of_check {settings : Settings} (h : settings.check = .ok ()) (setting : Setting) :
    Accepts setting (settings.get setting) := by
  rw [check_eq] at h
  have passed := forall_of_forM_ok h
  have accepts {test : Setting × Except Failure Unit} (mem : test ∈ tests settings) :
      Accepts test.1 (settings.get test.1) := by
    rcases tests_judge settings test mem with ⟨accepts, -⟩ | ⟨-, ⟨-, -, failed⟩ | ⟨reason, failed⟩⟩
    · exact accepts
    · cases failed.symm.trans (passed test mem)
    · cases failed.symm.trans (passed test mem)
  cases setting with
  | followLinks => trivial
  | allowHidden => trivial
  | workers => exact accepts (.head _)
  | timeout => exact accepts (.tail _ (.head _))
  | maxFileSize => exact accepts (.tail _ (.tail _ (.head _)))
  | verbosity => exact accepts (.tail _ (.tail _ (.tail _ (.head _))))
  | excludes => exact accepts (.tail _ (.tail _ (.tail _ (.tail _ (.head _)))))

theorem check_standard : standard.check = .ok () := by
  have passes : standard.check.isOk = true := by decide +kernel
  cases checked : standard.check with
  | ok _ => rfl
  | error failure =>
      rw [checked] at passes
      cases passes

theorem lookup_of_strayName? {table : Table} {name : String} (h : strayName? table = some name) :
    Setting.ofName? name = none ∧ ∃ v, table.lookup name = some v := by
  have mem := List.mem_of_mem_head? h
  rw [List.mem_mergeSort, List.mem_filter] at mem
  refine ⟨Option.isNone_iff_eq_none.1 mem.2, Option.isSome_iff_exists.1 ?_⟩
  have key := mem.1
  clear h mem
  induction table with
  | nil => cases key
  | cons entry table ih => grind

theorem ofSources_of_known {tables : List Table} (known : strayName? (merge tables) = none) :
    ofSources tables = make (merge tables) := by
  unfold ofSources
  simp only [known]

theorem ofSources_error {tables : List Table} (merged : sources session file options = .ok tables)
    (h : ofSources tables = .error failure) :
    Refused session file options failure ∨ Unguarded session file options := by
  unfold ofSources at h
  dsimp only at h
  split at h
  · rename_i name stray
    obtain ⟨unknown, v, given⟩ := lookup_of_strayName? stray
    rw [given] at h
    cases h
    rcases invalid_cases name v "unknown configuration key" with ⟨shown, same⟩ | unshowable
    · rw [Option.getD_some, same]
      exact .inl (.unknown _ _ merged given unknown)
    · exact .inr (.unknown merged given unknown unshowable)
  · rcases bind_eq_error.1 h with h | ⟨-, -, h⟩
    · obtain ⟨setting, wrong, ⟨numeric, none⟩ | ⟨reason, rfl⟩⟩ := check_error h
      · exact .inr (.kind merged numeric none)
      · rcases invalid_cases setting.name _ reason with ⟨shown, same⟩ | unshowable
        · rw [same]
          exact .inl (.value _ _ merged wrong)
        · exact .inr (.value merged wrong unshowable)
    · cases h

theorem load_error (noFile : options.lookup fileOption = none)
    (h : load session file options = .error failure) :
    Refused session file options failure ∨ Unguarded session file options := by
  rw [load_eq noFile] at h
  rcases bind_eq_error.1 h with h | ⟨tables, merged, h⟩
  · exact sources_error h
  · exact ofSources_error merged h

theorem load_accepts (noFile : options.lookup fileOption = none) {settings : Settings}
    (h : load session file options = .ok settings) (setting : Setting) :
    Accepts setting (settings.get setting) := by
  rw [load_eq noFile] at h
  obtain ⟨tables, -, h⟩ := bind_eq_ok.1 h
  unfold ofSources at h
  dsimp only at h
  split at h
  · cases h
  · obtain ⟨_, checked, h⟩ := bind_eq_ok.1 h
    obtain rfl := Except.ok.inj h
    exact accepts_of_check checked setting

end Settings

end LayerLint
