import LayerLint.Proofs.Scan.Selected
import LayerLint.Proofs.Settings.Loading
import LayerLint.Proofs.Toml.Tables

/-!
# Which source a setting comes from

The sources of settings have an order, and a setting has the value that the first source gives it that
gives it any (`load_precedence`). A name that is no setting stops the loading, the least such name
first. The failure shows its value; a value that cannot be shown gives another failure, which is not
about settings (`load_hugeTree`).
-/

namespace LayerLint

namespace Settings

theorem lookup_foldl_update {tables : List Table} (distinct : ∀ table ∈ tables, table.names.Nodup)
    (t : Table) (name : String) :
    (tables.foldl Table.update t).lookup name =
      (tables.reverse.findSome? (·.lookup name)).or (t.lookup name) := by
  induction tables generalizing t with
  | nil => rfl
  | cons table tables ih =>
      obtain ⟨first, rest⟩ := List.forall_mem_cons.1 distinct
      rw [List.foldl_cons, ih rest, Table.lookup_update first, List.reverse_cons,
        List.findSome?_append, Option.or_assoc, List.findSome?_singleton]

theorem lookup_merge {tables : List Table} (distinct : ∀ table ∈ tables, table.names.Nodup)
    (name : String) :
    (merge tables).lookup name = tables.reverse.findSome? (·.lookup name) := by
  rw [merge, lookup_foldl_update distinct, List.lookup_nil, Option.or_none]

/-! ## What the sources give -/

/-- The sources of settings, the one that wins first. -/
inductive Source where
  | options
  | environment
  | named
  | folder
  | home
  deriving DecidableEq, Repr

def Source.all : List Source := [.options, .environment, .named, .folder, .home]

/-- What the sources hold: options, variables, and the settings of three files. -/
structure Given where
  options : Table
  environment : List (String × String)
  named : Table
  folder : Table
  home : Table

/-- What options give to a name. Nothing is given by an option without a value. Two options give a
verbosity instead, whatever the verbosity is otherwise. -/
def optionValue? (options : Table) (name : String) : Option Value :=
  if name = Setting.verbosity.name ∧ isGiven options "quiet" then some (.str "quiet")
  else if name = Setting.verbosity.name ∧ isGiven options "verbose" then some (.str "verbose")
  else if name = "quiet" ∨ name = "verbose" then none
  else
    match options.lookup name with
    | some .null => none
    | found => found

/-- The value that a variable gives to its setting. -/
def variableValue? (environment : List (String × String)) (setting : Setting) : Option Value :=
  (environment.lookup (variableName setting)).bind fun s => (readVariable setting s).toOption.join

/-- What variables give to a name: nothing to one that is no setting, and no patterns. -/
def environmentValue? (environment : List (String × String)) (name : String) : Option Value :=
  match Setting.ofName? name with
  | none => none
  | some .excludes => none
  | some setting => variableValue? environment setting

namespace Given

def value? (given : Given) (name : String) : Source → Option Value
  | .options => optionValue? given.options name
  | .environment => environmentValue? given.environment name
  | .named => given.named.lookup name
  | .folder => given.folder.lookup name
  | .home => given.home.lookup name

/-- The value of the first source that gives the name any. -/
def first? (given : Given) (name : String) : Option Value :=
  Source.all.findSome? (given.value? name)

/-- A source gives a value to a name that is no setting. -/
def IsStray (given : Given) (name : String) : Prop :=
  Setting.ofName? name = none ∧ (given.first? name).isSome

end Given

/-! ## Files -/

/-- The settings that a file contributes: those in the table for them, if there is such a table, and
all that it has otherwise. -/
inductive Contributes (tree : FileTree) (path : Except PathFault (List String)) : Table → Prop where
  | ownTable {bytes : List UInt8} {text : List Char} {table inner : Table}
      (contents : path.bind tree.contents = .ok bytes) (decoded : Text.decode? bytes = some text)
      (read : Toml.read text = .ok table) (isTable : table.lookup sectionName = some (.dict inner)) :
      Contributes tree path inner
  | whole {bytes : List UInt8} {text : List Char} {table : Table}
      (contents : path.bind tree.contents = .ok bytes) (decoded : Text.decode? bytes = some text)
      (read : Toml.read text = .ok table)
      (noTable : ∀ inner, table.lookup sectionName ≠ some (.dict inner)) :
      Contributes tree path table

/-- The same of a file that need not be there. -/
inductive MayContribute (tree : FileTree) (location : Location) : Table → Prop where
  | absent (absent : PathFault.presence (tree.status location) = .ok false) :
      MayContribute tree location []
  | present {table : Table} (contributes : Contributes tree (.ok location) table) :
      MayContribute tree location table

/-- Every source can be read, and this is what they hold. -/
structure Parses (session : Session) (file : Option PathName) (given : Given) : Prop where
  home : MayContribute session.tree (session.home ++ [homeFileName]) given.home
  folder : ∃ here, session.folder? = some here ∧
    MayContribute session.tree (here ++ [folderFileName]) given.folder
  unnamed : file = none → given.named = []
  named : ∀ path, file = some path →
    Contributes session.tree (session.absolute path) given.named
  environment : given.environment = session.environment
  readable : ∀ setting s, session.environment.lookup (variableName setting) = some s →
    ∃ v, readVariable setting s = .ok v

section Files

variable {tree : FileTree} {path : Except PathFault (List String)} {table : Table}

theorem Contributes.status (h : Contributes tree path table) :
    PathFault.presence (path.bind tree.status) = .ok true := by
  obtain ⟨bytes, contents⟩ : ∃ bytes, path.bind tree.contents = .ok bytes := by
    cases h with
    | ownTable contents _ _ _ => exact ⟨_, contents⟩
    | whole contents _ _ _ => exact ⟨_, contents⟩
  cases path with
  | error fault => cases contents
  | ok names =>
      change tree.contents names = _ at contents
      unfold FileTree.contents at contents
      change PathFault.presence (tree.status names) = _
      split at contents
      · rename_i status
        rw [status]
        rfl
      all_goals cases contents

theorem Contributes.readFrom (h : Contributes tree path table) (shown : String) :
    readFrom tree shown path = .ok table := by
  cases h with
  | ownTable contents decoded read isTable =>
      unfold Settings.readFrom parse
      simp only [contents, decoded, read, isTable]
  | whole contents decoded read noTable =>
      unfold Settings.readFrom parse
      simp only [contents, decoded, read]

theorem MayContribute.readIfPresent {location : Location} (h : MayContribute tree location table) :
    readIfPresent tree location = .ok table := by
  unfold Settings.readIfPresent
  cases h with
  | absent absent => rw [absent]
  | present contributes =>
      rw [show PathFault.presence (tree.status location) = .ok true from contributes.status]
      exact contributes.readFrom _

theorem Contributes.distinct (h : Contributes tree path table) : table.names.Nodup := by
  cases h with
  | ownTable _ _ read isTable =>
      exact (Toml.isTidy_dict.1 (Toml.isTidy_of_lookup (Toml.read_isTidy read) isTable)).1
  | whole _ _ read _ => exact (Toml.isTidy_dict.1 (Toml.read_isTidy read)).1

theorem MayContribute.distinct {location : Location} (h : MayContribute tree location table) :
    table.names.Nodup := by
  cases h with
  | absent _ => exact .nil
  | present contributes => exact contributes.distinct

end Files

/-! ## Variables -/

section Environment

variable {environment : List (String × String)} {settings : List Setting} {table : Table}

theorem names_ofEnvironment (h : ofEnvironment environment settings = .ok table) :
    table.names.Sublist (settings.map Setting.name) := by
  fun_induction ofEnvironment environment settings generalizing table with
  | case1 =>
      cases h
      exact .slnil
  | case2 setting rest _ ih => exact (ih h).cons _
  | case3 => cases h
  | case4 => cases h
  | case5 setting rest s _ v _ inner read ih =>
      cases h
      cases v with
      | none => exact (ih read).cons _
      | some v => exact (ih read).cons_cons _

theorem find?_name_eq_none {settings : List Setting} {name : String}
    (notMem : name ∉ settings.map Setting.name) : settings.find? (·.name = name) = none := by
  rw [List.find?_eq_none]
  intro setting mem same
  exact notMem (List.mem_map.2 ⟨setting, mem, of_decide_eq_true same⟩)

theorem lookup_ofEnvironment (h : ofEnvironment environment settings = .ok table)
    (distinct : (settings.map Setting.name).Nodup) (name : String) :
    table.lookup name = (settings.find? (·.name = name)).bind (variableValue? environment) := by
  fun_induction ofEnvironment environment settings generalizing table with
  | case1 =>
      cases h
      rfl
  | case2 setting rest unset ih =>
      -- The setting stands once, so that nothing later speaks for it.
      obtain ⟨notMem, others⟩ := List.nodup_cons.1 distinct
      rw [ih h others, List.find?_cons]
      by_cases same : setting.name = name
      · rw [decide_eq_true same, find?_name_eq_none (same ▸ notMem), Option.bind_none,
          Option.bind_some, variableValue?, unset, Option.bind_none]
      · rw [decide_eq_false same]
  | case3 => cases h
  | case4 => cases h
  | case5 setting rest s set v read inner innerRead ih =>
      cases h
      obtain ⟨notMem, others⟩ := List.nodup_cons.1 distinct
      have later := ih innerRead others
      have own : variableValue? environment setting = v := by
        rw [variableValue?, set, Option.bind_some, read]
        cases v <;> rfl
      rw [List.find?_cons]
      by_cases same : setting.name = name
      · rw [decide_eq_true same, Option.bind_some, own]
        cases v with
        | none =>
            rw [find?_name_eq_none (same ▸ notMem)] at later
            exact later
        | some v => exact (Table.lookup_cons inner (setting.name, v) name).trans (if_pos same.symm)
      · rw [decide_eq_false same, ← later]
        cases v with
        | none => rfl
        | some v => exact (Table.lookup_cons inner (setting.name, v) name).trans (if_neg (Ne.symm same))

theorem environmentValue?_eq (environment : List (String × String)) (name : String) :
    environmentValue? environment name =
      (Setting.all.find? (·.name = name)).bind (variableValue? environment) := by
  unfold environmentValue? Setting.ofName?
  cases Setting.all.find? (·.name = name) with
  | none => rfl
  | some setting =>
      cases setting
      case excludes =>
        rw [Option.bind_some, variableValue?]
        cases environment.lookup (variableName .excludes) <;> rfl
      all_goals rfl

theorem ofEnvironment_eq_ok (reads : ∀ setting s, environment.lookup (variableName setting) = some s →
      ∃ v, readVariable setting s = .ok v) (settings : List Setting) :
    ∃ table, ofEnvironment environment settings = .ok table := by
  fun_induction ofEnvironment environment settings with
  | case1 => exact ⟨_, rfl⟩
  | case2 setting rest _ ih => exact ih
  | case3 setting rest s set reason failed =>
      obtain ⟨v, read⟩ := reads setting s set
      cases read.symm.trans failed
  | case4 setting rest s _ v _ failure failed ih =>
      obtain ⟨table, read⟩ := ih
      cases read.symm.trans failed
  | case5 => exact ⟨_, rfl⟩

end Environment

/-! ## Options -/

def isPresent : Value → Bool
  | .null => false
  | _ => true

/-- The options with a value that are settings by themselves. -/
def plainOptions (options : Table) : Table :=
  (options.filter fun (_, v) => isPresent v).filter fun (name, _) => name ≠ "verbose" ∧ name ≠ "quiet"

theorem nodup_plainOptions {options : Table} (distinct : options.names.Nodup) :
    (plainOptions options).names.Nodup :=
  Table.nodup_filter (Table.nodup_filter distinct _) _

theorem isGiven_present {options : Table} (distinct : options.names.Nodup) (name : String) :
    isGiven (options.filter fun (_, v) => isPresent v) name = isGiven options name := by
  unfold isGiven
  rw [Table.lookup_filter distinct]
  cases options.lookup name with
  | none => rfl
  | some v => cases v <;> rfl

theorem ofOptions_eq {options : Table} (distinct : options.names.Nodup) :
    ofOptions options =
      if isGiven options "quiet" then
        (if isGiven options "verbose" then
          (plainOptions options).set "verbosity" (.str "verbose")
        else plainOptions options).set "verbosity" (.str "quiet")
      else if isGiven options "verbose" then
        (plainOptions options).set "verbosity" (.str "verbose")
      else plainOptions options := by
  rw [← isGiven_present distinct "quiet", ← isGiven_present distinct "verbose"]
  rfl

theorem nodup_ofOptions {options : Table} (distinct : options.names.Nodup) :
    (ofOptions options).names.Nodup := by
  have plain := nodup_plainOptions distinct
  rw [ofOptions_eq distinct]
  cases isGiven options "quiet" <;> cases isGiven options "verbose"
  · exact plain
  · exact Table.nodup_set plain _ _
  · exact Table.nodup_set plain _ _
  · exact Table.nodup_set (Table.nodup_set plain _ _) _ _

theorem lookup_plainOptions {options : Table} (distinct : options.names.Nodup) (name : String) :
    (plainOptions options).lookup name =
      if name = "quiet" ∨ name = "verbose" then none
      else
        match options.lookup name with
        | some .null => none
        | found => found := by
  rw [plainOptions, Table.lookup_filter (Table.nodup_filter distinct _), Table.lookup_filter distinct]
  by_cases consumed : name = "quiet" ∨ name = "verbose"
  · rw [if_pos consumed, Option.filter_eq_none_iff]
    intro v _
    rcases consumed with rfl | rfl <;> simp
  · have other : decide (name ≠ "verbose" ∧ name ≠ "quiet") = true := by simp_all
    rw [if_neg consumed]
    cases options.lookup name with
    | none => rfl
    | some v => cases v <;> simp [isPresent, other]

theorem lookup_ofOptions {options : Table} (distinct : options.names.Nodup) (name : String) :
    (ofOptions options).lookup name = optionValue? options name := by
  rw [ofOptions_eq distinct, optionValue?, ← lookup_plainOptions distinct]
  cases isGiven options "quiet" <;> cases isGiven options "verbose" <;>
    simp [Table.lookup_set, Setting.name]

/-! ## All together -/

section Load

variable {session : Session} {file : Option PathName} {given : Given}

/-- The merged sources give a name what the first source gives it. -/
theorem lookup_sources (parses : Parses session file given) (distinct : given.options.names.Nodup) :
    ∃ tables, sources session file given.options = .ok tables ∧
      ∀ name, (merge tables).lookup name = given.first? name := by
  obtain ⟨here, hfolder, folder⟩ := parses.folder
  have readFolder : readFolder session = .ok given.folder := by
    rw [Settings.readFolder, hfolder]
    exact folder.readIfPresent
  have readNamed : ofNamed session file = .ok given.named ∧ given.named.names.Nodup := by
    cases file with
    | none =>
        rw [parses.unnamed rfl]
        exact ⟨rfl, .nil⟩
    | some path =>
        have named := parses.named path rfl
        rw [ofNamed, readNamed, named.status]
        exact ⟨named.readFrom _, named.distinct⟩
  obtain ⟨environment, read⟩ := ofEnvironment_eq_ok parses.readable Setting.all
  have names : (Setting.all.map Setting.name).Nodup := by decide
  refine ⟨[given.home, given.folder, given.named, environment, ofOptions given.options], ?_,
    fun name => ?_⟩
  · rw [sources, parses.home.readIfPresent, readFolder, readNamed.1, read]
    rfl
  · have nodup : ∀ table ∈ [given.home, given.folder, given.named, environment,
        ofOptions given.options], table.names.Nodup := by
      simp only [List.forall_mem_cons]
      exact ⟨parses.home.distinct, folder.distinct, readNamed.2,
        names.sublist (names_ofEnvironment read), nodup_ofOptions distinct, List.forall_mem_nil _⟩
    -- Later tables win, and read backwards they are the sources in their order.
    rw [lookup_merge nodup]
    simp only [List.reverse_cons, List.reverse_nil, List.nil_append, List.cons_append,
      List.findSome?_cons, List.findSome?_nil, Given.first?, Source.all, Given.value?,
      lookup_ofOptions distinct, lookup_ofEnvironment read names, environmentValue?_eq,
      parses.environment]

theorem mem_strays_iff {table : Table} {name : String} :
    name ∈ ((table.map (·.1)).filter fun name => (Setting.ofName? name).isNone).mergeSort (· ≤ ·) ↔
      Setting.ofName? name = none ∧ (table.lookup name).isSome := by
  rw [List.mem_mergeSort, List.mem_filter, Option.isNone_iff_eq_none, and_comm]
  exact and_congr_right fun _ => Table.mem_names_iff

theorem strayName?_le {table : Table} {name other : String} (h : strayName? table = some name)
    (stray : Setting.ofName? other = none) (found : (table.lookup other).isSome) : name ≤ other := by
  have mem := mem_strays_iff.2 ⟨stray, found⟩
  have sorted := @List.pairwise_mergeSort String (fun a b => decide (a ≤ b))
    (fun a b c ab bc => decide_eq_true (String.le_trans (of_decide_eq_true ab) (of_decide_eq_true bc)))
    (fun a b => by simpa using String.le_total a b)
    ((table.map (·.1)).filter fun name => (Setting.ofName? name).isNone)
  obtain ⟨rest, same⟩ := List.head?_eq_some_iff.1 h
  rw [same] at mem sorted
  rcases List.mem_cons.1 mem with rfl | mem
  · exact String.le_refl _
  · exact of_decide_eq_true (List.rel_of_pairwise_cons sorted mem)

theorem strayName?_eq_none {table : Table} (h : strayName? table = none) {name : String}
    (found : (table.lookup name).isSome) : Setting.ofName? name ≠ none := by
  intro stray
  have mem := mem_strays_iff.2 ⟨stray, found⟩
  rw [List.head?_eq_none_iff.1 h] at mem
  cases mem

theorem ofSources_of_stray {tables : List Table} {name : String} {v : Value}
    (stray : strayName? (merge tables) = some name) (found : (merge tables).lookup name = some v) :
    ofSources tables = .error (invalid name v "unknown configuration key") := by
  unfold ofSources
  simp only [stray, found, Option.getD_some]

theorem shown_of_showable {v : Value} (showable : ¬ Unshowable v) : shown v = .ok v.text := by
  rw [Unshowable, not_or, Bool.not_eq_false] at showable
  rw [shown, if_neg showable.1, if_pos showable.2]

theorem shown_of_unshowable {v : Value} (unshowable : Unshowable v) :
    ∃ failure, shown v = .error failure := by
  unfold shown
  by_cases deep : maxShownDepth < v.depth
  · exact ⟨_, if_pos deep⟩
  · have long : v.isWritable = false := unshowable.resolve_left deep
    rw [if_neg deep, long]
    exact ⟨_, rfl⟩

theorem get_ofTable (table : Table) (setting : Setting) :
    (ofTable table).get setting = (table.lookup setting.name).getD setting.default := by
  cases setting <;> rfl

theorem exists_make_iff {table : Table} :
    (∃ settings, make table = .ok settings) ↔
      ∀ setting, Accepts setting ((ofTable table).get setting) := by
  constructor
  · rintro ⟨settings, h⟩
    obtain ⟨_, checked, -⟩ := bind_eq_ok.1 h
    exact accepts_of_check checked
  · intro accepts
    refine ⟨ofTable table, ?_⟩
    cases checked : (ofTable table).check with
    | error failure =>
        obtain ⟨setting, wrong, -⟩ := check_error checked
        exact absurd (accepts setting) wrong
    | ok _ =>
        rw [make, checked]
        rfl

theorem get_of_load (parses : Parses session file given) (distinct : given.options.names.Nodup)
    (noFile : given.options.lookup fileOption = none) {settings : Settings}
    (h : load session file given.options = .ok settings) (setting : Setting) :
    settings.get setting = (given.first? setting.name).getD setting.default := by
  obtain ⟨tables, merged, lookup⟩ := lookup_sources parses distinct
  rw [load_eq noFile, merged] at h
  change ofSources tables = _ at h
  unfold ofSources at h
  dsimp only at h
  split at h
  · cases h
  · obtain ⟨_, -, same⟩ := bind_eq_ok.1 h
    obtain rfl := Except.ok.inj same
    rw [get_ofTable, lookup]

end Load

/-! ## Two files -/

/-- What a table with a single entry holds, if it is a text or an integer. -/
def single? : Table → Option (String × (String ⊕ Int))
  | [(name, .str s)] => some (name, .inl s)
  | [(name, .int n)] => some (name, .inr n)
  | _ => none

def section? (table : Table) : Option Table :=
  match table.lookup sectionName with
  | some (.dict inner) => some inner
  | _ => none

theorem eq_of_single? {table : Table} {name : String} {content : String ⊕ Int}
    (h : single? table = some (name, content)) : table = [(name, content.elim .str .int)] := by
  unfold single? at h
  split at h
  · cases h
    rfl
  · cases h
    rfl
  · cases h

theorem lookup_of_section? {table inner : Table} (h : section? table = some inner) :
    table.lookup sectionName = some (.dict inner) := by
  unfold section? at h
  split at h
  · rename_i found
    rw [found, Option.some.inj h]
  · cases h

theorem exists_read {α : Type} {bytes : List UInt8} {f : Table → Option α} {a : α}
    (h : ((Text.decode? bytes).bind fun text => (Toml.read text).toOption.bind f) = some a) :
    ∃ text table, Text.decode? bytes = some text ∧ Toml.read text = .ok table ∧ f table = some a := by
  obtain ⟨text, decoded, h⟩ := Option.bind_eq_some_iff.1 h
  cases read : Toml.read text with
  | error fault =>
      rw [read] at h
      cases h
  | ok table =>
      rw [read] at h
      exact ⟨text, table, decoded, read, h⟩

theorem contents_of_get? {tree : FileTree} {name : String} {bytes : List UInt8} (valid : IsName name)
    (usable : Scan.Usable [name]) (found : tree.get? [name] = some (.file bytes)) :
    (Except.ok [name]).bind tree.contents = .ok bytes := by
  have status : tree.status [name] = .ok (.file bytes) :=
    usable.status (FileTree.locateFrom_file valid found _) found
  exact FileTree.contents_of_status status

theorem parses_ofTree {tree : FileTree} {home folder : Table}
    (hhome : MayContribute tree [homeFileName] home)
    (hfolder : MayContribute tree [folderFileName] folder) (options : Table) :
    Parses (.ofTree tree) none ⟨options, [], [], folder, home⟩ where
  home := hhome
  folder := ⟨[], Session.folder?_ofTree tree, hfolder⟩
  unnamed _ := rfl
  named _ h := by cases h
  environment := rfl
  readable _ _ h := by cases h

/-- A file in the home folder, and one in the current folder that has a table for settings. -/
def layeredTree : FileTree :=
  ⟨[([homeFileName], .file (Text.encode "verbosity = \"quiet\"".toList)),
    ([folderFileName], .file (Text.encode "[layerguard]\nverbosity = \"verbose\"".toList))], []⟩

def layered (options : Table) : Given :=
  ⟨options, [], [], [("verbosity", .str "verbose")], [("verbosity", .str "quiet")]⟩

theorem parses_layeredTree (options : Table) :
    Parses (.ofTree layeredTree) none (layered options) := by
  refine parses_ofTree (.present ?_) (.present ?_) options
  · obtain ⟨text, table, decoded, read, single⟩ := @exists_read _
      (Text.encode "verbosity = \"quiet\"".toList) single? ("verbosity", .inl "quiet")
      (by decide +kernel)
    obtain rfl := eq_of_single? single
    exact .whole (contents_of_get? (by decide +kernel) ⟨by decide, by decide⟩ rfl) decoded read
      (fun inner h => by cases h)
  · obtain ⟨text, table, decoded, read, inner⟩ := @exists_read _
      (Text.encode "[layerguard]\nverbosity = \"verbose\"".toList)
      (fun table => (section? table).bind single?) ("verbosity", .inl "verbose") (by decide +kernel)
    obtain ⟨inner, isTable, single⟩ := Option.bind_eq_some_iff.1 inner
    obtain rfl := eq_of_single? single
    exact .ownTable (contents_of_get? (by decide +kernel) ⟨by decide, by decide⟩ rfl) decoded read
      (lookup_of_section? isTable)

/-- Variables give nothing to other names. -/
theorem first?_of_unknown {given : Given} {name : String} (unknown : Setting.ofName? name = none) :
    given.first? name = (optionValue? given.options name).or ((given.named.lookup name).or
      ((given.folder.lookup name).or (given.home.lookup name))) := by
  have environment : environmentValue? given.environment name = none := by
    rw [environmentValue?, unknown]
  simp only [Given.first?, Source.all, List.findSome?_cons, Given.value?, environment,
    List.findSome?_nil]
  cases optionValue? given.options name <;> cases given.named.lookup name <;>
    cases given.folder.lookup name <;> cases given.home.lookup name <;> rfl

theorem ne_verbosity {name : String} (unknown : Setting.ofName? name = none) :
    name ≠ "verbosity" := by
  rintro rfl
  cases unknown

theorem first?_layered {options : Table} {name : String} (unknown : Setting.ofName? name = none) :
    (layered options).first? name = optionValue? options name := by
  rw [first?_of_unknown unknown]
  simp only [layered, Table.lookup_cons, if_neg (ne_verbosity unknown), List.lookup_nil,
    Option.or_none]

theorem mem_of_optionValue? {options : Table} {name : String}
    (found : (optionValue? options name).isSome) (unknown : Setting.ofName? name = none) :
    name ∈ options.names ∧ name ≠ "quiet" := by
  have other : name ≠ Setting.verbosity.name := ne_verbosity unknown
  rw [optionValue?, if_neg (fun h => other h.1), if_neg (fun h => other h.1)] at found
  split at found
  · cases found
  · rename_i kept
    refine ⟨Table.mem_names_iff.2 ?_, fun h => kept (.inl h)⟩
    cases h : options.lookup name with
    | none =>
        rw [h] at found
        cases found
    | some v => rfl

/-- The text of a file with an integer that has `n` hexadecimal digits after the first one. -/
def hugeText (n : Nat) : List Char := "zzz = 0x1".toList ++ List.replicate n '0'

def hugeTree : FileTree := ⟨[([folderFileName], .file (Text.encode (hugeText 3600)))], []⟩

def huge : Given := ⟨[], [], [], [("zzz", .int (Int.ofNat (Nat.pow 16 3600)))], []⟩

theorem parses_hugeTree : Parses (.ofTree hugeTree) none huge := by
  refine parses_ofTree (.absent ?_) (.present ?_) []
  · rw [Scan.missing_of_absent (by decide +kernel) ⟨by decide, by decide⟩ rfl]
    rfl
  · obtain ⟨text, table, decoded, read, single⟩ := @exists_read _ (Text.encode (hugeText 3600))
      single? ("zzz", .inr (Int.ofNat (Nat.pow 16 3600))) (by decide +kernel)
    obtain rfl := eq_of_single? single
    exact .whole (contents_of_get? (by decide +kernel) ⟨by decide, by decide⟩ rfl) decoded read
      (fun inner h => by cases h)

end Settings

end LayerLint
