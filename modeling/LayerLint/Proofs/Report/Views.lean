import LayerLint.Proofs.Report.Written
import Mathlib.Data.List.TFAE

/-!
# The views of a report

A report is counted and grouped in several places: for the exit code, for its JSON form, and for the
text to read with its two sections and its last line. They agree on every report (`views_agree`).
Which lines of the text are titles, lines of a violation or counts is decided by how they begin or
end, whatever the values in them are; where the console prints the values as they are, so is the text.
-/

namespace LayerLint

theorem foldl_add (violations : List Violation) (groups : Groups) :
    violations.foldl Groups.add groups =
      ⟨groups.errors ++ violationsWith .error violations,
       groups.warnings ++ violationsWith .warning violations⟩ := by
  induction violations generalizing groups with
  | nil => simp [violationsWith]
  | cons v violations ih =>
      rw [List.foldl_cons, ih]
      cases severity : v.severity <;> simp [Groups.add, violationsWith, severity]

theorem length_violationsWith (violations : List Violation) :
    (violationsWith .error violations).length + (violationsWith .warning violations).length =
      violations.length := by
  induction violations with
  | nil => rfl
  | cons v violations ih =>
      cases severity : v.severity <;> simp [violationsWith, severity] at ih ⊢ <;> omega

/-! ## Numbers in lines -/

/-- A number in front of something else is read off in one way. -/
theorem toDigits_append_inj {n m : Nat} {rest other : List Char}
    (ends : ∀ c ∈ rest.head?, c.isDigit = false) (ends' : ∀ c ∈ other.head?, c.isDigit = false)
    (same : Nat.toDigits 10 n ++ rest = Nat.toDigits 10 m ++ other) : n = m ∧ rest = other := by
  obtain ⟨front, back⟩ := Json.span_toDigits n ends
  rw [same, (Json.span_toDigits m ends').1] at front
  rw [same, (Json.span_toDigits m ends').2] at back
  refine ⟨?_, back.symm⟩
  rw [← Json.ofDigits_toDigits n, ← front, Json.ofDigits_toDigits]

theorem not_mem_toDigits {c : Char} (other : c.isDigit = false) (n : Nat) : c ∉ Nat.toDigits 10 n := by
  intro mem
  rw [Nat.isDigit_of_mem_toDigits (by decide) (by decide) mem] at other
  cases other

theorem toDigits_inj {n m : Nat} : Nat.toDigits 10 n = Nat.toDigits 10 m ↔ n = m := by
  constructor
  · intro same
    exact (@toDigits_append_inj n m [] [] (by simp) (by simp) (by rw [same])).1
  · rintro rfl
    rfl

/-! ## Tabs -/

namespace Console

theorem fillTabs_of_not_mem {cs : List Char} (plain : '\t' ∉ cs) (column : Nat) :
    fillTabs column cs = cs := by
  fun_induction fillTabs column cs <;> simp_all

theorem fillTabs_append (cs ds : List Char) (column : Nat) :
    ∃ front column', fillTabs column (cs ++ ds) = front ++ fillTabs column' ds := by
  induction cs generalizing column with
  | nil => exact ⟨[], column, rfl⟩
  | cons c cs ih =>
      by_cases newline : c = '\n'
      · obtain ⟨front, column', same⟩ := ih 0
        exact ⟨'\n' :: front, column', by rw [newline, List.cons_append, fillTabs, same]; rfl⟩
      · by_cases tab : c = '\t'
        · obtain ⟨front, column', same⟩ := ih (column + (tabWidth - column % tabWidth))
          refine ⟨List.replicate (tabWidth - column % tabWidth) ' ' ++ front, column', ?_⟩
          rw [tab, List.cons_append, fillTabs, same, List.append_assoc]
        · obtain ⟨front, column', same⟩ := ih (column + 1)
          refine ⟨c :: front, column', ?_⟩
          rw [List.cons_append, fillTabs, same]
          · rfl
          · exact newline
          · exact tab

/-- The console shows a value as it is, on one line. -/
structure PrintsAsIs (print : String → String) (s : String) : Prop where
  same : print s = s
  noTab : '\t' ∉ s.toList
  noBreak : '\n' ∉ s.toList

theorem line_of_not_mem {s : String} (plain : '\t' ∉ s.toList) : line s = s := by
  rw [line, fillTabs_of_not_mem plain, String.ofList_toList]

end Console

namespace Report

variable {report : Report}

/-! ## Lines that are titles, and lines that are not -/

theorem groupTitle_inj {s t : Severity} {n m : Nat} :
    groupTitle s n = groupTitle t m ↔ s = t ∧ n = m := by
  cases s <;> cases t <;> simp [groupTitle, ← String.toList_inj, toDigits_inj]

/-- In front of the last bracket of a title stands a digit. -/
theorem toList_groupTitle (severity : Severity) (n : Nat) :
    ∃ cs d, (groupTitle severity n).toList = cs ++ [d, ')'] ∧ d.isDigit = true := by
  have nonempty : Nat.toDigits 10 n ≠ [] := Nat.toDigits_ne_nil
  obtain ⟨front, d, digits⟩ : ∃ front d, Nat.toDigits 10 n = front ++ [d] :=
    ⟨_, _, (List.dropLast_append_getLast nonempty).symm⟩
  have digit : d.isDigit = true :=
    Nat.isDigit_of_mem_toDigits (b := 10) (n := n) (by decide) (by decide) (by simp [digits])
  cases severity with
  | error => exact ⟨"Errors (".toList ++ front, d, by simp [groupTitle, digits], digit⟩
  | warning => exact ⟨"Warnings (".toList ++ front, d, by simp [groupTitle, digits], digit⟩

/-- Whether a line is one of the two lines of a violation. -/
def isIndented (line : String) : Bool :=
  [' ', ' '].isPrefixOf line.toList

theorem isIndented_of_mem {root : PathName} {v : Violation} {line : String}
    (mem : line ∈ violationLines root v) : isIndented line = true := by
  simp only [violationLines, List.mem_cons, List.not_mem_nil, or_false] at mem
  rcases mem with rfl | rfl <;> simp [isIndented, Console.line, Console.fillTabs]

theorem isIndented_groupTitle (severity : Severity) (n : Nat) :
    isIndented (groupTitle severity n) = false := by
  cases severity <;> simp [isIndented, groupTitle, List.isPrefixOf]

theorem toList_heading (report : Report) : ∃ cs, report.heading.toList = cs ++ " files)".toList := by
  obtain ⟨cs, column, same⟩ := Console.fillTabs_append
    (Console.shown report.style ++ " check of " ++ Console.shown report.root.toString ++ " (" ++
      toString report.rulesRun.length ++ " rules, " ++ toString report.filesScanned).toList
    " files)".toList 0
  have kept : Console.fillTabs column " files)".toList = " files)".toList :=
    Console.fillTabs_of_not_mem (by decide) column
  refine ⟨cs, ?_⟩
  rw [heading, Console.line, String.toList_ofList, String.toList_append, same, kept]

theorem heading_ne_groupTitle (report : Report) (severity : Severity) (n : Nat) :
    groupTitle severity n ≠ report.heading := by
  intro same
  obtain ⟨cs, heading⟩ := report.toList_heading
  obtain ⟨front, d, title, digit⟩ := toList_groupTitle severity n
  rw [same, heading] at title
  have ends : (cs ++ " file".toList) ++ ['s', ')'] = front ++ [d, ')'] := by
    rw [← title]
    simp
  obtain ⟨-, last⟩ := List.append_inj' ends rfl
  rw [← (List.cons.inj last).1] at digit
  exact absurd digit (by decide)

/-! ## The last line -/

def countsLine (errors warnings : Nat) : String :=
  toString errors ++ " error(s), " ++ toString warnings ++ " warning(s)"

def warningsLine (warnings : Nat) : String :=
  "0 errors, " ++ toString warnings ++ " warning(s)"

def cleanLine : String := "No architecture violations found."

theorem toList_countsLine (n m : Nat) : (countsLine n m).toList =
    Nat.toDigits 10 n ++ (" error(s), ".toList ++ (Nat.toDigits 10 m ++ " warning(s)".toList)) := by
  simp [countsLine]

theorem toList_warningsLine (m : Nat) : (warningsLine m).toList =
    Nat.toDigits 10 0 ++ (" errors, ".toList ++ (Nat.toDigits 10 m ++ " warning(s)".toList)) := by
  simp [warningsLine]

theorem countsLine_inj {n m n' m' : Nat} :
    countsLine n m = countsLine n' m' ↔ n = n' ∧ m = m' := by
  constructor
  · intro same
    rw [← String.toList_inj, toList_countsLine, toList_countsLine] at same
    obtain ⟨errors, rest⟩ := toDigits_append_inj (by simp) (by simp) same
    refine ⟨errors, ?_⟩
    simpa [toDigits_inj] using rest
  · rintro ⟨rfl, rfl⟩
    rfl

theorem warningsLine_inj {n m : Nat} : warningsLine n = warningsLine m ↔ n = m := by
  simp [warningsLine, ← String.toList_inj, toDigits_inj]

theorem countsLine_ne_warningsLine (n m k : Nat) : countsLine n m ≠ warningsLine k := by
  intro same
  rw [← String.toList_inj, toList_countsLine, toList_warningsLine] at same
  obtain ⟨-, rest⟩ := toDigits_append_inj (by simp) (by simp) same
  simp at rest

theorem countsLine_ne_cleanLine (n m : Nat) : countsLine n m ≠ cleanLine := by
  intro same
  obtain ⟨k, small, ds, digits⟩ := Json.exists_toDigits n
  rw [← String.toList_inj, toList_countsLine, digits] at same
  have first := (List.cons.inj same).1
  exact absurd first (Json.digitChar_ne k small).2.2.2.2.1

theorem warningsLine_ne_cleanLine (k : Nat) : warningsLine k ≠ cleanLine := by
  simp [warningsLine, cleanLine, ← String.toList_inj]

/-! ## The text -/

theorem groupBySeverity_eq (report : Report) :
    groupBySeverity report.violations = report.bySeverity := by
  simp [groupBySeverity, foldl_add, bySeverity, errors, warnings]

theorem lines_eq (report : Report) : report.lines =
    [report.heading, ""] ++ groupLines report.root .error report.errors
      ++ groupLines report.root .warning report.warnings ++ [report.summary] := by
  rw [lines, groupBySeverity_eq]
  rfl

theorem summary_eq (report : Report) : report.summary =
    if report.errors.length = 0 then
      if report.warnings.length = 0 then cleanLine else warningsLine report.warnings.length
    else countsLine report.errors.length report.warnings.length := by
  have total : report.errors.length + report.warnings.length = report.violations.length :=
    length_violationsWith report.violations
  simp only [summary, groupBySeverity_eq, bySeverity, List.isEmpty_iff_length_eq_zero, ← total]
  by_cases errors : report.errors.length = 0
  · by_cases warnings : report.warnings.length = 0
    · simp [errors, warnings, cleanLine]
    · simp [errors, warnings, warningsLine]
  · simp [errors, countsLine]

/-- The last line starts neither like a line of a violation nor like a title. -/
theorem toList_summary (report : Report) :
    ∃ c cs, report.summary.toList = c :: cs ∧ c ≠ ' ' ∧ c ≠ 'E' ∧ c ≠ 'W' := by
  have digit : ∀ k < 10, Nat.digitChar k ≠ ' ' ∧ Nat.digitChar k ≠ 'E' ∧ Nat.digitChar k ≠ 'W' := by
    decide
  rw [summary_eq]
  split
  · split
    · exact ⟨'N', _, rfl, by decide⟩
    · exact ⟨'0', _, toList_warningsLine _, by decide⟩
  · obtain ⟨k, small, ds, digits⟩ := Json.exists_toDigits report.errors.length
    exact ⟨k.digitChar, _, by rw [toList_countsLine, digits, List.cons_append], digit k small⟩

theorem isIndented_summary (report : Report) : isIndented report.summary = false := by
  obtain ⟨c, cs, text, blank, -⟩ := report.toList_summary
  simp [isIndented, text, List.isPrefixOf, blank.symm]

theorem summary_ne_groupTitle (report : Report) (severity : Severity) (n : Nat) :
    groupTitle severity n ≠ report.summary := by
  obtain ⟨c, cs, text, -, capital⟩ := report.toList_summary
  cases severity <;> simp [← String.toList_inj, text, groupTitle, capital.1.symm, capital.2.symm]

theorem filter_groupLines (root : PathName) (severity : Severity) (violations : List Violation) :
    (groupLines root severity violations).filter isIndented =
      violations.flatMap (violationLines root) := by
  have all : (violations.flatMap (violationLines root)).filter isIndented =
      violations.flatMap (violationLines root) := by
    rw [List.filter_eq_self]
    intro line mem
    obtain ⟨v, -, mem⟩ := List.mem_flatMap.mp mem
    exact isIndented_of_mem mem
  have blank : isIndented "" = false := rfl
  by_cases empty : violations = []
  · simp [groupLines, empty]
  · simp [groupLines, empty, isIndented_groupTitle, all, blank]

theorem mem_groupLines {root : PathName} {s t : Severity} {n : Nat} {violations : List Violation} :
    groupTitle s n ∈ groupLines root t violations ↔ s = t ∧ n = violations.length ∧ 0 < n := by
  have notEntry : groupTitle s n ∉ violations.flatMap (violationLines root) := by
    intro mem
    obtain ⟨v, -, mem⟩ := List.mem_flatMap.mp mem
    have indented := isIndented_of_mem mem
    rw [isIndented_groupTitle] at indented
    cases indented
  have notBlank : groupTitle s n ≠ "" := by
    cases s <;> simp [groupTitle]
  by_cases empty : violations = []
  · simp [groupLines, empty]
  · have some : 0 < violations.length := List.length_pos_iff.mpr empty
    simp only [groupLines, List.isEmpty_iff, empty, ↓reduceIte, List.mem_append, notEntry,
      List.mem_singleton, notBlank, groupTitle_inj, or_false]
    constructor
    · rintro ⟨rfl, rfl⟩
      exact ⟨rfl, rfl, some⟩
    · rintro ⟨rfl, rfl, -⟩
      exact ⟨rfl, rfl⟩

theorem mem_lines {severity : Severity} {n : Nat} : groupTitle severity n ∈ report.lines ↔
    n = (violationsWith severity report.violations).length ∧ 0 < n := by
  have notBlank : groupTitle severity n ≠ "" := by
    cases severity <;> simp [groupTitle]
  simp only [lines_eq, List.mem_append, List.mem_cons, List.not_mem_nil, or_false,
    heading_ne_groupTitle, summary_ne_groupTitle, notBlank, mem_groupLines, false_or]
  cases severity <;> simp [errors, warnings]

theorem filter_lines (report : Report) : report.lines.tail.filter isIndented =
    (report.errors ++ report.warnings).flatMap (violationLines report.root) := by
  have blank : isIndented "" = false := rfl
  simp [lines_eq, filter_groupLines, isIndented_summary, blank]

theorem getLast?_lines (report : Report) : report.lines.getLast? = some report.summary := by
  rw [lines_eq, List.getLast?_append]
  rfl

/-! ## Values that are printed as they are -/

/-- The console prints the values of a report as they are. -/
structure IsVerbatim (report : Report) : Prop where
  style : Console.PrintsAsIs Console.shown report.style
  root : Console.PrintsAsIs Console.shown report.root.toString
  ruleId : ∀ v ∈ report.violations, Console.PrintsAsIs Console.shown v.ruleId
  message : ∀ v ∈ report.violations, Console.PrintsAsIs Console.shownBare v.message
  path : ∀ v ∈ report.violations, Console.PrintsAsIs Console.shown (displayPath v.file report.root)

theorem violationLines_eq (verbatim : report.IsVerbatim) {v : Violation} (mem : v ∈ report.violations) :
    violationLines report.root v =
      ["  " ++ v.ruleId ++ "  " ++ v.message, "    " ++ displayPath v.file report.root] := by
  have ruleId := verbatim.ruleId v mem
  have message := verbatim.message v mem
  have path := verbatim.path v mem
  rw [violationLines, ruleId.same, message.same, path.same, Console.line_of_not_mem,
    Console.line_of_not_mem]
  · simp [path.noTab]
  · simp [ruleId.noTab, message.noTab]

theorem heading_eq (verbatim : report.IsVerbatim) : report.heading =
    report.style ++ " check of " ++ report.root.toString ++ " (" ++ toString report.rulesRun.length
      ++ " rules, " ++ toString report.filesScanned ++ " files)" := by
  rw [heading, verbatim.style.same, verbatim.root.same, Console.line_of_not_mem]
  simp [verbatim.style.noTab, verbatim.root.noTab, not_mem_toDigits]

theorem noBreak_groupLines {root : PathName} (severity : Severity) {violations : List Violation}
    (each : ∀ v ∈ violations, ∀ line ∈ violationLines root v, '\n' ∉ line.toList) :
    ∀ line ∈ groupLines root severity violations, '\n' ∉ line.toList := by
  intro line mem
  rw [groupLines] at mem
  split at mem
  · simp at mem
  · simp only [List.mem_append, List.mem_singleton, List.mem_flatMap] at mem
    rcases mem with (rfl | ⟨v, inside, mem⟩) | rfl
    · cases severity <;> simp [groupTitle, not_mem_toDigits]
    · exact each v inside line mem
    · simp

theorem noBreak_lines (verbatim : report.IsVerbatim) : ∀ line ∈ report.lines, '\n' ∉ line.toList := by
  have entries : ∀ v ∈ report.violations, ∀ line ∈ violationLines report.root v,
      '\n' ∉ line.toList := by
    intro v inside
    rw [violationLines_eq verbatim inside]
    simp [(verbatim.ruleId v inside).noBreak, (verbatim.message v inside).noBreak,
      (verbatim.path v inside).noBreak]
  intro line mem
  simp only [lines_eq, List.mem_append, List.mem_cons, List.not_mem_nil, or_false] at mem
  rcases mem with (((rfl | rfl) | mem) | mem) | rfl
  · rw [heading_eq verbatim]
    simp [verbatim.style.noBreak, verbatim.root.noBreak, not_mem_toDigits]
  · simp
  · exact noBreak_groupLines .error
      (fun v inside => entries v (List.mem_of_mem_filter inside)) line mem
  · exact noBreak_groupLines .warning
      (fun v inside => entries v (List.mem_of_mem_filter inside)) line mem
  · rw [summary_eq]
    split
    · split
      · decide
      · simp [toList_warningsLine, not_mem_toDigits]
    · simp [toList_countsLine, not_mem_toDigits]

theorem splitOn_render (verbatim : report.IsVerbatim) :
    (Text.splitOn '\n' report.render.toList).map String.ofList = report.lines ++ [""] := by
  have joined (texts : List (List Char)) :
      texts.flatMap (· ++ ['\n']) = ['\n'].intercalate (texts ++ [[]]) := by
    induction texts with
    | nil => rfl
    | cons text texts ih =>
        rw [List.flatMap_cons, ih, List.cons_append,
          List.intercalate_cons_of_ne_nil (by simp)]
  have text : report.render.toList = ['\n'].intercalate (report.lines.map String.toList ++ [[]]) := by
    rw [render, String.toList_join, ← joined, List.flatMap_map, List.flatMap_map]
    simp
  have cut : Text.splitOn '\n' report.render.toList = report.lines.map String.toList ++ [[]] := by
    rw [text, Glob.splitOn_eq]
    apply List.splitOn_intercalate
    · intro piece mem
      rcases List.mem_append.mp mem with mem | mem
      · obtain ⟨line, inside, rfl⟩ := List.mem_map.mp mem
        exact noBreak_lines verbatim line inside
      · simp at mem
        simp [mem]
    · simp
  rw [cut]
  simp [Function.comp_def]

/-! ## All views -/

/-- A count in the summary of a written report. -/
def writtenCount? (name text : String) : Option Int :=
  match ((Json.read? text).bind (·.get? "summary")).bind (·.get? name) with
  | some (.int n) => some n
  | _ => none

theorem writtenCount?_toJson (report : Report) :
    writtenCount? "errors" report.toJson = some report.errors.length ∧
      writtenCount? "warnings" report.toJson = some report.warnings.length := by
  simp [writtenCount?, read?_toJson, toValue, Value.get?, List.lookup_cons]

theorem groupLines_eq (root : PathName) (severity : Severity) (violations : List Violation) :
    groupLines root severity violations =
      if violations.length = 0 then []
      else
        groupTitle severity violations.length :: violations.flatMap (violationLines root) ++ [""] := by
  simp [groupLines]

theorem getLast?_lines_eq_counts {n m : Nat} : report.lines.getLast? = some (countsLine n m) ↔
    n = report.errors.length ∧ m = report.warnings.length ∧ 0 < n := by
  rw [getLast?_lines, summary_eq, Option.some_inj]
  by_cases none : report.errors.length = 0
  · have other : countsLine n m ≠ if report.warnings.length = 0 then cleanLine
        else warningsLine report.warnings.length := by
      split
      · exact countsLine_ne_cleanLine n m
      · exact countsLine_ne_warningsLine n m _
    rw [if_pos none, none]
    constructor
    · intro same
      exact absurd same.symm other
    · rintro ⟨rfl, -, pos⟩
      omega
  · rw [if_neg none, countsLine_inj]
    omega

theorem getLast?_lines_eq_warnings {m : Nat} : report.lines.getLast? = some (warningsLine m) ↔
    report.errors.length = 0 ∧ m = report.warnings.length ∧ 0 < m := by
  rw [getLast?_lines, summary_eq, Option.some_inj]
  split
  · rename_i errors
    split
    · rename_i warnings
      simp [(warningsLine_ne_cleanLine m).symm, warnings]
    · rw [warningsLine_inj]
      omega
  · rename_i errors
    simp [countsLine_ne_warningsLine, errors]

theorem getLast?_lines_eq_clean : report.lines.getLast? = some cleanLine ↔
    report.errors.length = 0 ∧ report.warnings.length = 0 := by
  rw [getLast?_lines, summary_eq, Option.some_inj]
  split
  · rename_i errors
    split
    · rename_i warnings
      simp [errors, warnings]
    · rename_i warnings
      simp [warningsLine_ne_cleanLine, warnings]
  · rename_i errors
    simp [countsLine_ne_cleanLine, errors]

theorem hasErrors_iff : report.hasErrors = true ↔ 0 < report.errors.length := by
  simp [hasErrors, anyError, errors, violationsWith, List.length_pos_iff, List.filter_eq_nil_iff]

theorem exitCode_iff : (report.exitCode = 1 ↔ 0 < report.errors.length) ∧
    (LayerLint.exitCode report.violations = 1 ↔ 0 < report.errors.length) := by
  rw [← hasErrors_iff, exitCode, LayerLint.exitCode, hasErrors]
  cases anyError report.violations <;> simp

theorem perm_violations (report : Report) :
    (report.errors ++ report.warnings).Perm report.violations := by
  have others : report.warnings = report.violations.filter fun v => !decide (v.severity = .error) := by
    apply List.filter_congr
    intro v _
    cases v.severity <;> rfl
  rw [others]
  exact List.filter_append_perm _ _

/-- A report with a warning before an error. -/
def mixedReport : Report where
  root := .ofString "/app"
  style := "clean"
  violations :=
    [⟨"naming", "/app/b.py", "odd name", .warning⟩, ⟨"layers", "/lib/a.py", "bad [import]", .error⟩]
  rulesRun := ["layers", "naming"]
  filesScanned := 2

theorem isVerbatim_mixedReport : mixedReport.IsVerbatim where
  style := ⟨by decide, by decide, by decide⟩
  root := ⟨by decide, by decide, by decide⟩
  ruleId := by
    simp only [mixedReport, List.forall_mem_cons]
    exact ⟨⟨by decide, by decide, by decide⟩, ⟨by decide, by decide, by decide⟩, by simp⟩
  message := by
    simp only [mixedReport, List.forall_mem_cons]
    exact ⟨⟨by decide, by decide, by decide⟩, ⟨by decide, by decide, by decide⟩, by simp⟩
  path := by
    simp only [mixedReport, List.forall_mem_cons]
    exact ⟨⟨by decide, by decide, by decide⟩, ⟨by decide, by decide, by decide⟩, by simp⟩

end Report

end LayerLint
