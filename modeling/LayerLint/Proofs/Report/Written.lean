import LayerLint.Report
import LayerLint.Proofs.Glob.Selection
import LayerLint.Proofs.Json.RoundTrip
import Mathlib.Data.List.Basic

/-!
# What a written report tells

The JSON text of a report holds all of it: reading the text gives the report as data, so two reports
have one text only if they have the same root, style, rules, files and violations
(`toJson_lossless`). The root is written as a text, and paths that were read from texts differ if
their texts do.
-/

namespace LayerLint

/-! ## Paths as texts -/

namespace PathName

/-- A path as `ofString` makes it. -/
structure IsClean (p : PathName) : Prop where
  root : p.root = "" ∨ p.root = "/" ∨ p.root = "//"
  parts : ∀ part ∈ p.parts, part ≠ "" ∧ part ≠ "." ∧ '/' ∉ part.toList

theorem isClean_ofString (s : String) : (ofString s).IsClean where
  root := by
    simp only [ofString]
    split
    · simp
    · split <;> simp
  parts := by
    intro part mem
    simp only [ofString, components, pieces, List.mem_filter, List.mem_map, decide_eq_true_eq] at mem
    obtain ⟨⟨piece, cut, rfl⟩, ne⟩ := mem
    exact ⟨ne.1, ne.2, by simpa using (Glob.mem_splitOn cut).1⟩

theorem components_slash (cs : List Char) : components ('/' :: cs) = components cs := by
  simp [components, pieces, Text.splitOn]

theorem components_joined {parts : List String}
    (clean : ∀ part ∈ parts, part ≠ "" ∧ part ≠ "." ∧ '/' ∉ part.toList) :
    components (['/'].intercalate (parts.map String.toList)) = parts := by
  by_cases empty : parts = []
  · subst empty
    decide
  · have cut : Text.splitOn '/' (['/'].intercalate (parts.map String.toList)) =
        parts.map String.toList := by
      rw [Glob.splitOn_eq]
      apply List.splitOn_intercalate
      · intro piece mem
        obtain ⟨part, inside, rfl⟩ := List.mem_map.mp mem
        exact (clean part inside).2.2
      · simpa using empty
    rw [components, pieces, cut, List.map_map]
    have same : parts.map (String.ofList ∘ String.toList) = parts := by
      simp [Function.comp_def]
    rw [same, List.filter_eq_self]
    intro part mem
    simpa using ⟨(clean part mem).1, (clean part mem).2.1⟩

theorem head_joined {parts : List String}
    (clean : ∀ part ∈ parts, part ≠ "" ∧ part ≠ "." ∧ '/' ∉ part.toList) :
    (['/'].intercalate (parts.map String.toList)).takeWhile (· == '/') = [] := by
  cases parts with
  | nil => rfl
  | cons part parts =>
      obtain ⟨ne, -, free⟩ := clean part (by simp)
      obtain ⟨c, cs, text⟩ := List.exists_cons_of_ne_nil (by simpa using ne : part.toList ≠ [])
      rw [text, List.mem_cons, not_or] at free
      cases parts <;> simp [List.intercalate_cons_cons, text, Ne.symm free.1]

theorem ofString_toString {p : PathName} (clean : p.IsClean) : ofString p.toString = p := by
  obtain ⟨root, parts⟩ := p
  obtain ⟨roots, parts_clean⟩ := clean
  simp only at roots parts_clean
  by_cases dot : root = "" ∧ parts = []
  · obtain ⟨rfl, rfl⟩ := dot
    decide
  · have text : (PathName.toString ⟨root, parts⟩).toList =
        root.toList ++ ['/'].intercalate (parts.map String.toList) := by
      rw [PathName.toString, if_neg dot, String.toList_append, String.toList_intercalate]
      rfl
    have first := head_joined parts_clean
    rcases roots with rfl | rfl | rfl <;>
      simp [ofString, text, components_slash, components_joined parts_clean, first]

theorem toString_ofString_inj (s t : String) :
    (ofString s).toString = (ofString t).toString ↔ ofString s = ofString t := by
  constructor
  · intro same
    rw [← ofString_toString (isClean_ofString s), same, ofString_toString (isClean_ofString t)]
  · intro same
    rw [same]

end PathName

/-! ## Reports as texts -/

theorem Severity.name_inj {a b : Severity} (same : a.name = b.name) : a = b := by
  cases a <;> cases b <;> simp_all [Severity.name]

theorem Violation.toValue_inj {v w : Violation} (same : v.toValue = w.toValue) : v = w := by
  simp only [Violation.toValue, Value.dict.injEq, List.cons.injEq, Prod.mk.injEq, Value.str.injEq,
    true_and, and_true] at same
  obtain ⟨ruleId, file, message, severity⟩ := same
  cases v
  cases w
  have severity := Severity.name_inj severity
  simp_all

theorem Violation.isPortable_toValue (v : Violation) : v.toValue.IsPortable := by
  apply Value.IsPortable.dict
  · simp
  · simp [Value.IsPortable.str]

theorem Value.isPortable_texts (texts : List String) : (Value.list (texts.map .str)).IsPortable := by
  apply Value.IsPortable.list
  intro item mem
  obtain ⟨text, -, rfl⟩ := List.mem_map.mp mem
  exact .str text

namespace Report

theorem isPortable_toValue (report : Report) : report.toValue.IsPortable := by
  have summary (errors warnings : Int) :
      (Value.dict [("errors", .int errors), ("warnings", .int warnings)]).IsPortable := by
    apply Value.IsPortable.dict
    · simp
    · simp [Value.IsPortable.int]
  have violations : (Value.list (report.violations.map Violation.toValue)).IsPortable := by
    apply Value.IsPortable.list
    intro item mem
    obtain ⟨v, -, rfl⟩ := List.mem_map.mp mem
    exact v.isPortable_toValue
  apply Value.IsPortable.dict
  · simp
  · simp [Value.IsPortable.str, Value.IsPortable.int, Value.isPortable_texts, summary, violations]

theorem read?_toJson (report : Report) : Json.read? report.toJson = some report.toValue :=
  Json.read?_render report.isPortable_toValue

theorem toValue_eq_iff (report other : Report) :
    other.toValue = report.toValue ↔
      other.root.toString = report.root.toString ∧ other.style = report.style ∧
        other.rulesRun = report.rulesRun ∧ other.filesScanned = report.filesScanned ∧
        other.violations = report.violations := by
  constructor
  · intro same
    simp only [toValue, Value.dict.injEq, List.cons.injEq, Prod.mk.injEq, Value.str.injEq,
      Value.list.injEq, Value.int.injEq, true_and, and_true] at same
    obtain ⟨root, style, rules, files, -, violations⟩ := same
    refine ⟨root, style, ?_, Int.ofNat_inj.mp files, ?_⟩
    · exact List.map_injective_iff.2 (fun _ _ => Value.str.inj) rules
    · exact List.map_injective_iff.2 (fun _ _ => Violation.toValue_inj) violations
  · rintro ⟨root, style, rules, files, violations⟩
    simp only [toValue, errors, warnings, root, style, rules, files, violations]

/-- The JSON text of a report is plain, and reading it gives the report back. -/
theorem toJson_lossless (report : Report) :
    (∀ c ∈ report.toJson.toList, c.toNat < 128) ∧
    Json.read? report.toJson = some report.toValue ∧
    report.toValue = .dict
      [("project_root", .str report.root.toString),
       ("architecture", .str report.style),
       ("rules", .list (report.rulesRun.map .str)),
       ("files_scanned", .int report.filesScanned),
       ("summary", .dict
         [("errors", .int (report.violations.countP (·.severity = .error))),
          ("warnings", .int (report.violations.countP (·.severity = .warning)))]),
       ("violations", .list (report.violations.map fun v => .dict
         [("rule_id", .str v.ruleId), ("file", .str v.file), ("message", .str v.message),
          ("severity", .str v.severity.name)]))] ∧
    (∀ other : Report, other.toJson = report.toJson ↔
      other.root.toString = report.root.toString ∧ other.style = report.style ∧
        other.rulesRun = report.rulesRun ∧ other.filesScanned = report.filesScanned ∧
        other.violations = report.violations) ∧
    ∀ s t : String, (PathName.ofString s).toString = (PathName.ofString t).toString ↔
      PathName.ofString s = PathName.ofString t := by
  refine ⟨?_, report.read?_toJson, ?_, ?_, PathName.toString_ofString_inj⟩
  · rw [toJson, Json.render, String.toList_ofList]
    exact Json.isPlain_renderAt report.isPortable_toValue 0
  · simp only [toValue, errors, warnings, violationsWith, ← List.countP_eq_length_filter]
    rfl
  · intro other
    rw [← toValue_eq_iff]
    constructor
    · intro same
      have read := other.read?_toJson
      rw [same, report.read?_toJson] at read
      exact (Option.some.inj read).symm
    · intro same
      rw [toJson, toJson, same]

end Report

end LayerLint
