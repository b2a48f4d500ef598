import LayerLint.Proofs.Check.Relocation
import LayerLint.Proofs.Rule.Scope

/-!
# Rules that never see a slash

Two rules keep the parts of a project apart by the folder that the parts stand in. They look for this
folder in imports, with a slash behind it. The imports of Java and C# are dotted names, so there is
nothing to be found in them, though the files are selected: `isolation_passes_dotted`.
-/

namespace LayerLint

/-! ## Dotted names -/

namespace Import

/-- Word characters and dots. -/
def IsDotted (imported : String) : Prop :=
  ∀ c ∈ imported.toList, Text.isWord c = true ∨ c = '.'

def Language.HasDottedImports (language : Language) : Prop :=
  language = .java ∨ language = .csharp

theorem dottedStatement?_target {keyword cs target rest : List Char}
    (h : dottedStatement? keyword cs = some (target, rest)) : ∀ c ∈ target, isNameChar c = true := by
  simp only [dottedStatement?, Option.bind_eq_bind, Option.bind_eq_some_iff] at h
  obtain ⟨-, -, after, -, h⟩ := h
  split at h
  · cases h
  · split at h
    · cases h
      exact fun c mem => List.all_eq_true.1 List.all_takeWhile c mem
    · cases h

theorem targets_nameChars {language : Language} (dotted : language.HasDottedImports)
    (cs : List Char) : ∀ target ∈ targets language cs, ∀ c ∈ target, isNameChar c = true := by
  fun_induction targets language cs with
  | case1 => exact List.forall_mem_nil _
  | case2 c rest target after found ih =>
      refine List.forall_mem_cons.2 ⟨?_, ih⟩
      rcases dotted with rfl | rfl
      · exact dottedStatement?_target found
      · exact dottedStatement?_target found
  | case3 c rest none ih => exact ih

theorem imports_isDotted {language : Language} (dotted : language.HasDottedImports) (text : String) :
    ∀ imported ∈ imports language text, IsDotted imported := by
  intro imported mem c hc
  obtain ⟨target, htarget, rfl⟩ := List.mem_map.1 mem
  rw [String.toList_ofList] at hc
  simpa [isNameChar] using targets_nameChars dotted text.toList target htarget c hc

/-- The path is not written in a language whose imports may have slashes. -/
def Unslashed (path : PathName) : Prop :=
  ∀ language, Language.ofPath? path = some language → language.HasDottedImports

theorem importsIn_isDotted {path : PathName} (unslashed : Unslashed path) (text : List Char) :
    ∀ imported ∈ importsIn text path, IsDotted imported := by
  unfold importsIn
  split
  · exact List.forall_mem_nil _
  · exact imports_isDotted (unslashed _ ‹_›) _

theorem inspect_isDotted {given : PathName} (unslashed : Unslashed given) (tree : FileTree)
    (limit : Option Int) (path : Except PathFault (List String)) :
    ∀ imported ∈ (inspect tree limit given path).imports, IsDotted imported := by
  unfold inspect
  split
  · exact List.forall_mem_nil _
  · rename_i language hlanguage
    have dotted := unslashed language hlanguage
    have faulty (attempt : String) (fault : PathFault) :
        ∀ imported ∈ (Extraction.ofFault attempt given fault).imports, IsDotted imported := by
      cases fault <;> exact List.forall_mem_nil _
    dsimp only
    split
    · split
      · exact faulty _ _
      · exact imports_isDotted dotted _
    · split
      · exact faulty _ _
      · split
        · exact List.forall_mem_nil _
        · split
          · exact faulty _ _
          · exact imports_isDotted dotted _

/-! ### Extensions of names -/

/-- The text ends as the names of Java and C# files do. -/
def EndsDotted (file : String) : Prop :=
  ∃ extension ∈ Language.java.extensions ++ Language.csharp.extensions,
    extension.toList <:+ file.toList

theorem dotted_extension {extension : String}
    (mem : extension ∈ Language.java.extensions ++ Language.csharp.extensions) :
    ∃ language, Language.HasDottedImports language ∧ extension ∈ language.extensions := by
  rcases List.mem_append.1 mem with java | csharp
  · exact ⟨.java, .inl rfl, java⟩
  · exact ⟨.csharp, .inr rfl, csharp⟩

/-- A file whose path ends in one of the extensions has dotted imports, if it has a language at all:
a name that is nothing but the extension has none. -/
theorem unslashed_of_endsDotted {file : Location} (ends : EndsDotted (Location.text file)) :
    Unslashed ⟨"/", file⟩ := by
  obtain ⟨extension, mem, ends⟩ := ends
  obtain ⟨language, dotted, known⟩ := dotted_extension mem
  obtain ⟨-, tail, rfl, -, -, noSlash⟩ := Language.extension_spec known
  rw [String.toList_ofList] at ends
  have free : '/' ∉ '.' :: tail := by simpa using noSlash
  rcases List.eq_nil_or_concat file with rfl | ⟨init, name, rfl⟩
  · intro other h
    have unknown : Language.ofExtension? "" = none := by decide +kernel
    cases unknown.symm.trans h
  · rw [List.concat_eq_append] at ends ⊢
    obtain ⟨front, hfront⟩ := Scan.slashed_toList init
    have whole : (Location.text (init ++ [name])).toList = front ++ '/' :: name.toList := by
      rw [Scan.text_append init (by simp), String.toList_append, hfront, Scan.relativeText]
      simp
    rw [whole] at ends
    have inName : '.' :: tail <:+ name.toList := by
      rcases List.suffix_or_suffix_of_suffix ends (List.suffix_append front ('/' :: name.toList))
        with inside | outside
      · rcases List.suffix_cons_iff.1 inside with same | inside
        · rw [same] at free
          exact absurd List.mem_cons_self free
        · exact inside
      · exact absurd (outside.mem List.mem_cons_self) free
    intro other h
    rw [Language.ofPath?_of_suffix known (by simpa [PathName.name] using inName)] at h
    split at h
    · cases h
    · exact Option.some.inj h ▸ dotted

end Import

open Import (Language IsDotted EndsDotted importsIn)

/-! ## Rules that look for a folder -/

namespace Rule

theorem nameAfter?_eq_none {marker : List Char} (slash : '/' ∈ marker) (closed : Bool)
    {text : List Char} (free : '/' ∉ text) : nameAfter? marker closed text = none := by
  induction text with
  | nil => rfl
  | cons c cs ih =>
      have here : Text.dropFront? marker (c :: cs) = none := by
        rw [Option.eq_none_iff_forall_ne_some]
        intro rest h
        rw [Text.eq_append_of_dropFront? h] at free
        exact free (List.mem_append_left rest slash)
      rw [nameAfter?, here]
      exact ih fun mem => free (List.mem_cons_of_mem c mem)

theorem slash_not_mem_of_isDotted {imported : String} (dotted : IsDotted imported) :
    '/' ∉ forwardSlashes imported := by
  unfold forwardSlashes
  intro mem
  obtain ⟨c, hc, same⟩ := List.mem_map.1 mem
  split at same
  · rename_i backslash
    subst backslash
    exact absurd (dotted '\\' hc) (by decide)
  · subst same
    exact absurd (dotted '/' hc) (by decide)

namespace Builtin

/-- The folder whose subfolders a rule keeps apart. -/
def partsFolder? : Builtin → Option String
  | .featureIsolation => some "features"
  | .moduleIsolation => some "modules"
  | _ => none

theorem partsFolder?_cases {rule : Builtin} {folder : String} (h : rule.partsFolder? = some folder) :
    rule = .featureIsolation ∧ folder = "features" ∨ rule = .moduleIsolation ∧ folder = "modules" := by
  cases rule
  case featureIsolation => exact .inl ⟨rfl, (Option.some.inj h).symm⟩
  case moduleIsolation => exact .inr ⟨rfl, (Option.some.inj h).symm⟩
  all_goals cases h

/-- The rules that look for a folder have nothing to say about dotted imports. -/
theorem violations_dotted {rule : Builtin} {folder : String} (h : rule.partsFolder? = some folder)
    (file : String) {imports : List String} (dotted : ∀ imported ∈ imports, IsDotted imported) :
    rule.violations file imports = [] := by
  have feature (current : List Char) : ∀ imported ∈ imports, foreignFeature current imported = [] := by
    intro imported mem
    rw [foreignFeature,
      nameAfter?_eq_none (by decide) false (slash_not_mem_of_isDotted (dotted imported mem))]
  have module (current : List Char) : ∀ imported ∈ imports, foreignModule current imported = [] := by
    intro imported mem
    simp only [foreignModule]
    rw [nameAfter?_eq_none (by decide) false (slash_not_mem_of_isDotted (dotted imported mem))]
  have silent : rule.complaints file imports = [] := by
    obtain ⟨rfl, -⟩ | ⟨rfl, -⟩ := partsFolder?_cases h
    · rw [complaints]
      split
      · exact List.flatMap_eq_nil_iff.2 (feature _)
      · rfl
    · rw [complaints]
      split
      · exact List.flatMap_eq_nil_iff.2 (module _)
      · rfl
  rw [violations, silent, List.map_nil]

end Builtin

end Rule

/-! ## What the rules select -/

theorem Rule.Builtin.selects_dotted {rule : Builtin} {folder extension : String}
    (h : rule.partsFolder? = some folder)
    (mem : extension ∈ Language.java.extensions ++ Language.csharp.extensions)
    {above below : List String} (named : ∀ part ∈ above ++ below, part ≠ "" ∧ '/' ∉ part.toList)
    {name : String} (free : '/' ∉ name.toList) :
    ∃ glob, Glob.compile rule.appliesTo = .ok glob ∧
      glob.selects (Scan.relativeText (above ++ [folder] ++ below ++ [name ++ extension])) = true := by
  have listed : rule.folders = [folder] ∧ "java" ∈ rule.extensions ∧ "cs" ∈ rule.extensions ∧
      folder ≠ "" := by
    obtain ⟨rfl, rfl⟩ | ⟨rfl, rfl⟩ := partsFolder?_cases h <;> decide
  obtain ⟨ending, hending, rfl⟩ : ∃ ending ∈ rule.extensions, extension = "." ++ ending := by
    change extension ∈ [".java", ".cs"] at mem
    simp only [List.mem_cons, List.not_mem_nil, or_false] at mem
    rcases mem with rfl | rfl
    · exact ⟨"java", listed.2.1, rfl⟩
    · exact ⟨"cs", listed.2.2.1, rfl⟩
  have slashless := rule.slash_free folder (by simp [listed]) ending hending
  rw [List.mem_append, not_or] at slashless
  refine (rule.sees_iff (fun part mem => ?_) ?_).2 ⟨⟨folder, by simp [listed], by simp⟩, ending,
    hending, .inl ?_⟩
  · simp only [List.mem_append, List.mem_singleton] at mem named
    rcases mem with (inFront | rfl) | behind
    · exact named part (.inl inFront)
    · exact ⟨listed.2.2.2, slashless.1⟩
    · exact named part (.inr behind)
  · simp [free, slashless.2]
  · exact ⟨name.toList, String.toList_append.symm⟩

/-! ## Checks -/

theorem Rule.Builtin.id_injective : Function.Injective Rule.Builtin.id := by
  intro rule other
  cases rule <;> cases other <;> decide

namespace Check

variable {I : Session → Prop}

theorem exists_isOf {limit : Int} {units : List (Rule × Location)} {added : List Evaluation}
    (all : List.Forall₂ (IsOf I limit) units added) {e : Evaluation} (mem : e ∈ added) :
    ∃ unit ∈ units, IsOf I limit unit e := by
  induction all with
  | nil => cases mem
  | cons isOf all ih =>
      rcases List.mem_cons.1 mem with rfl | mem
      · exact ⟨_, List.mem_cons_self, isOf⟩
      · obtain ⟨unit, hunit, h⟩ := ih mem
        exact ⟨unit, List.mem_cons_of_mem _ hunit, h⟩

/-- Every evaluation of a check is one of a rule of the check on imports that stood in the file. -/
theorem asked_of_run {settings : Settings} {registry : Style.Registry} {request : Request}
    {signal : Bool} {session after : Session} {report : Report}
    (ran : (run settings registry request signal).on session = (.ok report, after)) :
    ∃ rules asked, Rule.listed registry request.style request.extra = .ok rules ∧
      after.evaluations = session.evaluations ++ asked ∧
      report.violations = asked.flatMap (·.violations) ∧
      ∀ e ∈ asked, e.rule ∈ rules ∧ ∃ file, e.file = Location.text file ∧
        ∃ tree limit, e.imports = importsAt tree limit file := by
  have keeps (rules : List Rule) : ∀ rule ∈ rules, rule.Keeps fun _ => True := by
    intro rule _
    cases rule with
    | builtin rule => trivial
    | guarded rule => exact fun _ _ _ _ => trivial
  obtain ⟨-, asked, hasked, violations, before, plan, rows, -, hplan, evaluated, -⟩ :=
    run_tells Session.stable_true settings registry request signal (fun rules _ => keeps rules)
      session trivial report (congrArg Prod.fst ran)
  rw [ran] at hasked
  refine ⟨plan.rules, asked, listed_of_planOf hplan, hasked, violations, fun e mem => ?_⟩
  obtain ⟨unit, hunit, isOf⟩ := exists_isOf evaluated.units mem
  obtain ⟨row, hrow, hunit⟩ := List.mem_flatMap.1 hunit
  obtain ⟨file, hfile, rfl⟩ := List.mem_map.1 hunit
  obtain ⟨then_, -, imports⟩ := isOf.imports
  refine ⟨?_, file, isOf.file, then_.tree, plan.limit, imports⟩
  rw [isOf.rule, ← evaluated.rules]
  exact List.mem_map_of_mem hrow

/-- The imports of Java and C# files are dotted names. The two rules that tell the parts of a project
apart by a folder select these files, and no check reports them under these rules. -/
theorem isolation_passes_dotted (rule : Rule.Builtin) (folder : String)
    (h : rule.partsFolder? = some folder) :
    (∀ (text : List Char) (path : PathName) (language : Language),
      Language.ofPath? path = some language → language.HasDottedImports →
        (∀ imported ∈ importsIn text path, IsDotted imported) ∧
          ∀ file, rule.violations file (importsIn text path) = []) ∧
    (∀ extension ∈ Language.java.extensions ++ Language.csharp.extensions,
      ∀ (above below : List String) (name : String),
        (∀ part ∈ above ++ below, part ≠ "" ∧ '/' ∉ part.toList) → '/' ∉ name.toList →
          ∃ glob, Glob.compile rule.appliesTo = .ok glob ∧
            glob.selects (Scan.relativeText (above ++ [folder] ++ below ++ [name ++ extension])) =
              true) ∧
    ∀ (settings : Settings) (registry : Style.Registry) (request : Request) (signal : Bool)
      (session after : Session) (report : Report),
      (run settings registry request signal).on session = (.ok report, after) →
        ∃ asked, after.evaluations = session.evaluations ++ asked ∧
          report.violations = asked.flatMap (·.violations) ∧
          (∀ e ∈ asked, e.rule = .builtin rule → EndsDotted e.file → e.violations = []) ∧
          (request.extra = [] →
            ∀ v ∈ report.violations, v.ruleId = rule.id → ¬ EndsDotted v.file) := by
  refine ⟨?_, ?_, ?_⟩
  · intro text path language detected dotted
    have unslashed : Import.Unslashed path := fun other same =>
      Option.some.inj (detected.symm.trans same) ▸ dotted
    have all := Import.importsIn_isDotted unslashed text
    exact ⟨all, fun file => Rule.Builtin.violations_dotted h file all⟩
  · intro extension mem above below name named free
    exact Rule.Builtin.selects_dotted h mem named free
  · intro settings registry request signal session after report ran
    obtain ⟨rules, asked, hrules, hasked, violations, all⟩ := asked_of_run ran
    have silent : ∀ e ∈ asked, e.rule = .builtin rule → EndsDotted e.file → e.violations = [] := by
      intro e mem same ends
      obtain ⟨-, file, hfile, tree, limit, imports⟩ := all e mem
      rw [hfile] at ends
      rw [Evaluation.violations, same, Rule.verdict, imports]
      exact Rule.Builtin.violations_dotted h e.file
        (Import.inspect_isDotted (Import.unslashed_of_endsDotted ends) tree _ _)
    refine ⟨asked, hasked, violations, silent, fun none v mem same ends => ?_⟩
    rw [violations] at mem
    obtain ⟨e, he, hv⟩ := List.mem_flatMap.1 mem
    obtain ⟨other, hother⟩ := Rule.builtin_of_listed (none ▸ hrules) (all e he).1
    rw [Evaluation.violations, hother] at hv
    obtain ⟨complaint, -, rfl⟩ := List.mem_map.1 hv
    obtain rfl := Rule.Builtin.id_injective same
    rw [← hother, ← Evaluation.violations, silent e he hother ends] at hv
    cases hv

/-- The orders are used as in `crossShop`, and nothing is said. -/
theorem isolation_passes_dotted_shop :
    Import.importsIn "import features.order.Order;".toList
      ⟨"/", ["p", "shop", "features", "cart", "Cart.java"]⟩ = ["features.order.Order"] ∧
    ((run smallSettings Style.standard ⟨⟨"/", ["p"]⟩, "feature-based", []⟩ false).on
      (.ofTree (FileTree.placeAt ["p"] (shop "Cart.java" "import features.order.Order;")))).1 =
      .ok ⟨⟨"/", ["p"]⟩, "feature-based", [], ["feature/isolation"], 1⟩ := by
  refine ⟨by decide +kernel, ?_⟩
  have ran := @run_shop ["p"] "Cart.java" "import features.order.Order;" (by decide +kernel)
    (by decide +kernel) (by decide) (by decide +kernel) ⟨rfl, by decide⟩
  obtain ⟨asked, -, -, -, unreported⟩ :=
    (isolation_passes_dotted .featureIsolation "features" rfl).2.2 _ _ _ _ _ _ _ (Prod.ext ran rfl)
  have none : Rule.Builtin.featureIsolation.violations
      (Location.text (["p"] ++ ["shop", "features", "cart", "Cart.java"]))
      (importsAt (FileTree.placeAt ["p"] (shop "Cart.java" "import features.order.Order;")) 1048576
        (["p"] ++ ["shop", "features", "cart", "Cart.java"])) = [] := by
    have ends : EndsDotted (Location.text (["p"] ++ ["shop", "features", "cart", "Cart.java"])) :=
      ⟨".java", by decide, by decide +kernel⟩
    rw [List.eq_nil_iff_forall_not_mem]
    intro v mem
    obtain ⟨complaint, -, rfl⟩ := List.mem_map.1 mem
    exact unreported rfl _ mem rfl ends
  rwa [none] at ran

end Check

end LayerLint
