import LayerLint.Import.Language
import LayerLint.Proofs.Glob.Slashes
import LayerLint.Proofs.Scan.Found
import LayerLint.Rule.Builtin

/-!
# The files that a rule sees

The pattern of a built-in rule names folders and extensions. The rule sees a file if one of the folders
stands somewhere on the way to it and its name ends in one of the extensions, and nothing else matters:
`sees_exact`. All extensions belong to languages, so that such a file has imports to look at.
-/

namespace LayerLint

open Import (Language)
open Scan (relativeText)

/-! ## Patterns with a folder and an extension -/

namespace Glob

/-- Items for the characters of a text, each for itself. -/
def literal (cs : List Char) : List Item :=
  cs.map fun c => .one (.single c)

/-- The items of `**/folder/**/*.extension`. -/
def below (folder extension : String) : List Item :=
  .folders :: (literal (folder.toList ++ ['/']) ++ .folders :: .many .notSlash ::
    literal ("." ++ extension).toList)

theorem leaves_literal {rest text s : List Char} {items : List Item} :
    Leaves rest (literal text ++ items) s ↔ ∃ t, s = text ++ t ∧ Leaves rest items t := by
  induction text generalizing s with
  | nil => simp [literal]
  | cons c text ih =>
      constructor
      · intro h
        cases h with
        | one hc h =>
            obtain ⟨t, rfl, ht⟩ := ih.1 h
            exact ⟨t, by rw [CharClass.mem_single.1 hc, List.cons_append], ht⟩
      · rintro ⟨t, rfl, ht⟩
        exact .one (CharClass.mem_single.2 rfl) (ih.2 ⟨t, rfl, ht⟩)

theorem leaves_literal_end {rest text s : List Char} :
    Leaves rest (literal text) s ↔ s = text ++ rest := by
  have := @leaves_literal rest text s []
  simpa [leaves_nil] using this

theorem leaves_below {rest s : List Char} {folder extension : String} :
    Leaves rest (below folder extension) s ↔
      ∃ (above names : List String) (name : String),
        (∀ part ∈ above ++ names, part ≠ "" ∧ '/' ∉ part.toList) ∧ '/' ∉ name.toList ∧
        s = (relativeText (above ++ folder :: names ++
          [name ++ ("." ++ extension) ++ String.ofList rest])).toList := by
  constructor
  · intro h
    cases h with
    | folders above habove h =>
    obtain ⟨t, rfl, behind⟩ := leaves_literal.1 h
    cases behind with
    | folders names hnames behind =>
    cases behind with
    | many name hname behind =>
    rw [leaves_literal_end.1 behind]
    refine ⟨above.map String.ofList, names.map String.ofList, String.ofList name, ?_, ?_, ?_⟩
    · intro part mem
      rw [← List.map_append, List.mem_map] at mem
      obtain ⟨text, mem, rfl⟩ := mem
      rw [String.toList_ofList, ne_eq, String.ofList_eq_empty_iff]
      exact (List.mem_append.1 mem).elim (habove text) (hnames text)
    · rw [String.toList_ofList]
      exact fun mem => CharClass.mem_notSlash.1 (hname _ mem) rfl
    · rw [Scan.toList_relativeText]
      simp
  · rintro ⟨above, names, name, named, free, rfl⟩
    have plain {parts : List String} (sub : parts ⊆ above ++ names) :
        ∀ part ∈ parts.map String.toList, part ≠ [] ∧ '/' ∉ part := by
      intro text mem
      obtain ⟨part, hpart, rfl⟩ := List.mem_map.1 mem
      have := named part (sub hpart)
      exact ⟨fun empty => this.1 (String.toList_eq_nil_iff.1 empty), this.2⟩
    have file : Leaves rest (.many .notSlash :: literal ("." ++ extension).toList)
        (name.toList ++ (("." ++ extension).toList ++ rest)) := by
      apply Leaves.many
      · intro c mem
        exact CharClass.mem_notSlash.2 fun same => free (same ▸ mem)
      · exact leaves_literal_end.2 rfl
    have inside := Leaves.folders _ (plain (List.subset_append_right ..)) file
    have all : Leaves rest (below folder extension) _ :=
      .folders _ (plain (List.subset_append_left ..)) (leaves_literal.2 ⟨_, rfl, inside⟩)
    rw [Scan.toList_relativeText]
    simpa using all

/-- Nothing in front of a folder or behind it matters to the pattern. -/
theorem leaves_below_iff {rest : List Char} {folder extension : String}
    (free : '/' ∉ folder.toList ++ extension.toList ++ rest) {parts : List String} {name : String}
    (plain : ∀ part ∈ parts, part ≠ "" ∧ '/' ∉ part.toList) (bare : '/' ∉ name.toList) :
    Leaves rest (below folder extension) (relativeText (parts ++ [name])).toList ↔
      folder ∈ parts ∧ ("." ++ extension).toList ++ rest <:+ name.toList := by
  rw [leaves_below]
  simp only [List.mem_append, not_or] at free
  constructor
  · rintro ⟨above, names, front, named, bareFront, same⟩
    have slashless : ∀ part ∈ above ++ folder :: names ++
        [front ++ ("." ++ extension) ++ String.ofList rest], '/' ∉ part.toList := by
      intro part mem
      simp only [List.mem_append, List.mem_cons, List.not_mem_nil, or_false] at mem
      rcases mem with (above | rfl | below) | rfl
      · exact (named part (List.mem_append_left _ above)).2
      · exact free.1.1
      · exact (named part (List.mem_append_right _ below)).2
      · simp [bareFront, free]
    have whole := Scan.relativeText_inj (String.toList_injective same)
      (List.forall_mem_append.2 ⟨fun part mem => (plain part mem).2, by simpa using bare⟩)
      slashless (by simp) (by simp)
    obtain ⟨rfl, last⟩ := List.append_inj' whole rfl
    obtain rfl := List.singleton_inj.1 last
    constructor
    · simp
    · refine ⟨front.toList, ?_⟩
      simp
  · rintro ⟨mem, front, same⟩
    obtain ⟨above, names, rfl⟩ := List.append_of_mem mem
    refine ⟨above, names, String.ofList front, ?_, ?_, ?_⟩
    · intro part mem
      apply plain
      simp only [List.mem_append, List.mem_cons] at mem ⊢
      tauto
    · rw [String.toList_ofList]
      exact fun mem => bare (same ▸ List.mem_append_left _ mem)
    · have whole : name = String.ofList front ++ ("." ++ extension) ++ String.ofList rest := by
        apply String.toList_injective
        simp [← same]
      rw [whole, List.append_cons]

end Glob

/-! ## Extensions and languages -/

namespace Import

theorem extensionOf_append {name : String} {front tail : List Char} (free : '.' ∉ tail)
    (ne : tail ≠ []) (same : name.toList = front ++ '.' :: tail) :
    PathName.extensionOf name = if front = [] then "" else String.ofList ('.' :: tail) := by
  have cut : (name.toList.reverse.takeWhile (· != '.')).reverse = tail := by
    rw [same, List.reverse_append, List.reverse_cons, List.append_assoc,
      List.takeWhile_append_of_pos]
    · simp
    · intro c mem
      rw [List.mem_reverse] at mem
      exact bne_iff_ne.2 fun dot => free (dot ▸ mem)
  have length : name.toList.length = front.length + tail.length + 1 := by
    rw [same, List.length_append, List.length_cons, Nat.add_assoc]
  have before : name.toList.take (name.toList.length - tail.length - 1) = front := by
    rw [length, show front.length + tail.length + 1 - tail.length - 1 = front.length by omega, same,
      List.take_left]
  have longer : tail.length ≠ name.toList.length := by omega
  unfold PathName.extensionOf
  simp only [cut, before, longer]
  by_cases first : front = []
  · simp [first]
  · simp [first, ne]

theorem Language.extension_spec {language : Language} {extension : String}
    (mem : extension ∈ language.extensions) :
    Language.ofExtension? extension = some language ∧
      ∃ tail, extension = String.ofList ('.' :: tail) ∧ tail ≠ [] ∧ '.' ∉ tail ∧ '/' ∉ tail := by
  have all : ∀ extension ∈ language.extensions, Language.ofExtension? extension = some language ∧
      extension = String.ofList ('.' :: extension.toList.tail) ∧ extension.toList.tail ≠ [] ∧
        '.' ∉ extension.toList.tail ∧ '/' ∉ extension.toList.tail := by
    cases language <;> decide +kernel
  have spec := all extension mem
  exact ⟨spec.1, _, spec.2⟩

/-- The extension tells the language, but a name that is nothing but an extension has none. -/
theorem Language.ofPath?_of_suffix {path : PathName} {language : Language} {extension : String}
    (mem : extension ∈ language.extensions) (ends : extension.toList <:+ path.name.toList) :
    Language.ofPath? path = if path.name = extension then none else some language := by
  obtain ⟨known, tail, rfl, ne, free, -⟩ := extension_spec mem
  obtain ⟨front, same⟩ := ends
  rw [String.toList_ofList] at same
  have alone : front = [] ↔ path.name = String.ofList ('.' :: tail) := by
    rw [← String.toList_inj, ← same, String.toList_ofList, List.append_left_eq_self]
  rw [ofPath?, PathName.suffix, extensionOf_append free ne same.symm, if_congr alone rfl rfl]
  split
  · decide +kernel
  · exact known

end Import

theorem PathName.name_ofString {parts : List String} {name : String}
    (plain : ∀ part ∈ parts ++ [name], '/' ∉ part.toList) (ne : name ≠ "" ∧ name ≠ ".") :
    (PathName.ofString (relativeText (parts ++ [name]))).name = name := by
  have cut : pieces (relativeText (parts ++ [name])).toList = parts ++ [name] := by
    rw [pieces, Glob.splitOn_eq, Scan.splitOn_relativeText plain (by simp), List.map_map]
    simp [Function.comp_def]
  rw [PathName.name, ofString]
  simp [components, cut, ne]

/-! ## Rules -/

namespace Rule.Builtin

/-- The folders whose files a rule looks at. -/
def folders : Builtin → List String
  | .domainIsolation => ["domain"]
  | .applicationIsolation => ["application"]
  | .featureIsolation => ["features"]
  | .noImplInDomain => ["domain"]
  | .portIsolation => ["ports"]
  | .aggregateIsolation => ["domain"]
  | .layerOrder => slicedLayers
  | .segregation => ["command", "query"]
  | .moduleIsolation => ["modules"]

/-- The extensions of the files that a rule looks at, without their dots. -/
def extensions : Builtin → List String
  | .featureIsolation => ["ts", "tsx", "java", "cs"]
  | .layerOrder => ["ts", "tsx"]
  | _ => ["ts", "java", "cs"]

/-- The pattern of a rule selects a path. -/
def Sees (rule : Builtin) (path : String) : Prop :=
  ∃ glob, Glob.compile rule.appliesTo = .ok glob ∧ glob.selects path = true

theorem compile_appliesTo (rule : Builtin) :
    Glob.compile rule.appliesTo = .ok ⟨rule.appliesTo,
      rule.folders.flatMap fun folder => rule.extensions.map (Glob.below folder)⟩ := by
  apply Glob.compile_of_read
  · cases rule <;> decide +kernel
  · cases rule <;> decide +kernel

theorem slash_free (rule : Builtin) : ∀ folder ∈ rule.folders, ∀ extension ∈ rule.extensions,
    '/' ∉ folder.toList ++ extension.toList := by
  cases rule <;> decide

variable {parts : List String} {name : String}

/-- A line break at the end of a name does not count. -/
theorem sees_iff (rule : Builtin) (plain : ∀ part ∈ parts, part ≠ "" ∧ '/' ∉ part.toList)
    (bare : '/' ∉ name.toList) :
    rule.Sees (relativeText (parts ++ [name])) ↔
      (∃ folder ∈ rule.folders, folder ∈ parts) ∧ ∃ extension ∈ rule.extensions,
        ("." ++ extension).toList <:+ name.toList ∨
          ("." ++ extension).toList ++ ['\n'] <:+ name.toList := by
  have selects (folder) (hfolder : folder ∈ rule.folders) (extension)
      (hextension : extension ∈ rule.extensions) :
      Glob.Regex.accepts (Glob.below folder extension) (relativeText (parts ++ [name])).toList = true ↔
        folder ∈ parts ∧ (("." ++ extension).toList <:+ name.toList ∨
          ("." ++ extension).toList ++ ['\n'] <:+ name.toList) := by
    have free := rule.slash_free folder hfolder extension hextension
    rw [Glob.accepts_iff, Glob.Fulfils, Glob.leaves_below_iff (by simpa using free) plain bare,
      Glob.leaves_below_iff (by simpa using free) plain bare, List.append_nil, ← and_or_left]
  simp only [Sees, rule.compile_appliesTo, Except.ok.injEq, exists_eq_left', Glob.selects,
    List.any_eq_true, List.mem_flatMap, List.mem_map]
  constructor
  · rintro ⟨-, ⟨folder, hfolder, extension, hextension, rfl⟩, accepted⟩
    have := (selects folder hfolder extension hextension).1 accepted
    exact ⟨⟨folder, hfolder, this.1⟩, extension, hextension, this.2⟩
  · rintro ⟨⟨folder, hfolder, mem⟩, extension, hextension, ends⟩
    exact ⟨_, ⟨folder, hfolder, extension, hextension, rfl⟩,
      (selects folder hfolder extension hextension).2 ⟨mem, ends⟩⟩

theorem exists_language (rule : Builtin) : ∀ extension ∈ rule.extensions,
    ∃ language ∈ Language.all, "." ++ extension ∈ language.extensions := by
  cases rule <;> decide

/-- A rule sees the files with one of its extensions that have one of its folders above them. Such a
file has a language, unless its name starts with a dot. -/
theorem sees_exact (rule : Builtin)
    (plain : ∀ part ∈ parts ++ [name], part ≠ "" ∧ '/' ∉ part.toList ∧ '\n' ∉ part.toList) :
    (rule.Sees (relativeText (parts ++ [name])) ↔
      (∃ folder ∈ rule.folders, folder ∈ parts) ∧
        ∃ extension ∈ rule.extensions, ("." ++ extension).toList <:+ name.toList) ∧
    (name.toList.head? ≠ some '.' → ∀ extension ∈ rule.extensions,
      ("." ++ extension).toList <:+ name.toList →
        ∃ language : Language, "." ++ extension ∈ language.extensions ∧
          Language.ofPath? (.ofString (relativeText (parts ++ [name]))) = some language ∧
          ∀ root, Language.ofPath? ⟨"/", root ++ (parts ++ [name])⟩ = some language) := by
  have last := plain name (by simp)
  constructor
  · rw [rule.sees_iff (fun part mem => ?_) last.2.1]
    · -- A name without line breaks does not end in one.
      have unbroken (text : List Char) : ¬ text ++ ['\n'] <:+ name.toList := fun ends =>
        last.2.2 (ends.subset (by simp))
      simp only [unbroken, or_false]
    · have := plain part (List.mem_append_left _ mem)
      exact ⟨this.1, this.2.1⟩
  · intro visible extension hextension ends
    obtain ⟨language, -, known⟩ := rule.exists_language extension hextension
    -- The name starts with something else than the extension.
    have more : name ≠ "." ++ extension := by
      rintro rfl
      exact visible (by simp)
    have tells {path : PathName} (same : path.name = name) :
        Language.ofPath? path = some language := by
      rw [Language.ofPath?_of_suffix known (same ▸ ends), if_neg (same ▸ more)]
    refine ⟨language, known, tells ?_, fun root => tells ?_⟩
    · apply PathName.name_ofString
      · exact fun part mem => (plain part mem).2.1
      · refine ⟨last.1, ?_⟩
        rintro rfl
        exact visible (by simp)
    · simp [PathName.name, ← List.append_assoc]

/-- A folder may stand anywhere above a file, and more than once. A part of a name is no folder. -/
theorem sees_exact_shop :
    layerOrder.Sees "src/pages/app/cart/pages/index.d.ts" ∧
      ¬ layerOrder.Sees "src/my-pages/application/index.ts" ∧
      Language.ofPath? (.ofString "src/pages/app/cart/pages/index.d.ts") = some .typescript := by
  have deep := @sees_exact ["src", "pages", "app", "cart", "pages"] "index.d.ts" layerOrder
    (by decide +kernel)
  have flat := @sees_exact ["src", "my-pages", "application"] "index.ts" layerOrder (by decide +kernel)
  refine ⟨deep.1.2 (by decide +kernel), fun seen => ?_, ?_⟩
  · exact absurd (flat.1.1 seen).1 (by decide +kernel)
  · obtain ⟨language, known, tells, -⟩ := deep.2 (by decide +kernel) "ts" (by decide) (by decide +kernel)
    exact tells.trans (congrArg some (by cases language <;> first | rfl | revert known; decide))

end Rule.Builtin

end LayerLint
