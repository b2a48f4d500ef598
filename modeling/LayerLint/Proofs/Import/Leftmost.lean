import LayerLint.Proofs.Import.Forms

/-!
# Statements from left to right

The imports of a text are the targets of its statements: the leftmost statement is taken, then the
leftmost of what is behind it, and so on. `Finds` says this with positions in the text, and
`imports_leftmost` says that it is what `imports` gives.
-/

namespace LayerLint.Import

/-- The targets that are found from a position of a text on. -/
inductive Finds (language : Language) (text : List Char) : Nat → List (List Char) → Prop
  | done {start : Nat} : (∀ i, start ≤ i → ¬ Starts language (text.drop i)) →
      Finds language text start []
  | next {start first stop : Nat} {target : List Char} {targets : List (List Char)} :
      start ≤ first → (∀ i, start ≤ i → i < first → ¬ Starts language (text.drop i)) →
      Takes language (text.drop first) target (text.drop stop) →
      Finds language text stop targets → Finds language text start (target :: targets)

section Targets

variable {language : Language} {text : List Char}

theorem statement?_eq_none_iff {cs : List Char} :
    statement? language cs = none ↔ ¬ Starts language cs := by
  rw [← exists_statement?_iff, Option.not_isSome_iff_eq_none]

theorem targets_found {cs target rest : List Char}
    (h : statement? language cs = some (target, rest)) :
    targets language cs = target :: targets language rest := by
  cases cs with
  | nil => exact absurd (statement?_length h) (Nat.not_lt_zero _)
  | cons c cs =>
      rw [targets]
      split
      · rename_i found
        rw [h] at found
        cases found
        rfl
      · rename_i found
        rw [h] at found
        cases found

theorem targets_missing {c : Char} {cs : List Char} (h : statement? language (c :: cs) = none) :
    targets language (c :: cs) = targets language cs := by
  rw [targets]
  split
  · rename_i found
    rw [h] at found
    cases found
  · rfl

theorem targets_drop_succ {i : Nat} (h : statement? language (text.drop i) = none) :
    targets language (text.drop i) = targets language (text.drop (i + 1)) := by
  by_cases inside : i < text.length
  · rw [List.drop_eq_getElem_cons inside] at h ⊢
    exact targets_missing h
  · rw [List.drop_eq_nil_of_le (Nat.le_of_not_lt inside),
      List.drop_eq_nil_of_le (Nat.le_succ_of_le (Nat.le_of_not_lt inside))]

/-- Where no statement starts, nothing is found. -/
theorem targets_skip {start first : Nat} (le : start ≤ first)
    (h : ∀ i, start ≤ i → i < first → statement? language (text.drop i) = none) :
    targets language (text.drop start) = targets language (text.drop first) := by
  induction le with
  | refl => rfl
  | @step first le ih =>
      rw [ih fun i low high => h i low (Nat.lt_succ_of_lt high)]
      exact targets_drop_succ (h first le (Nat.lt_succ_self first))

theorem Finds.targets_eq {start : Nat} {found : List (List Char)}
    (h : Finds language text start found) : targets language (text.drop start) = found := by
  induction h with
  | @done start missing =>
      have all := targets_skip (Nat.le_max_left start text.length) fun i low _ =>
        statement?_eq_none_iff.2 (missing i low)
      rw [all, List.drop_eq_nil_of_le (Nat.le_max_right start text.length), targets]
  | @next start first stop target found le missing takes _ ih =>
      rw [targets_skip le fun i low high => statement?_eq_none_iff.2 (missing i low high),
        targets_found (statement?_eq_some_iff.2 takes), ih]

theorem Finds.back {start : Nat} {found : List (List Char)} (h : Finds language text (start + 1) found)
    (missing : ¬ Starts language (text.drop start)) : Finds language text start found := by
  cases h with
  | done later =>
      apply Finds.done
      intro i low
      rcases Nat.eq_or_lt_of_le low with rfl | low
      · exact missing
      · exact later i low
  | next le later takes finds =>
      apply Finds.next (Nat.le_of_succ_le le) _ takes finds
      intro i low high
      rcases Nat.eq_or_lt_of_le low with rfl | low
      · exact missing
      · exact later i low high

theorem not_starts_nil : ¬ Starts language [] := by
  rw [← statement?_eq_none_iff]
  cases language <;> rfl

theorem Takes.suffix {cs target rest : List Char} (h : Takes language cs target rest) :
    rest <:+ cs := by
  cases h <;> exact List.suffix_append _ _

theorem finds_targets (start : Nat) :
    Finds language text start (targets language (text.drop start)) := by
  -- By the recursion of `targets`: it goes on behind a statement, or else one character later.
  generalize front : text.drop start = cs
  fun_induction targets language cs generalizing start with
  | case1 =>
      apply Finds.done
      intro i low
      have behind : text.drop i = [] :=
        List.drop_eq_nil_of_le (Nat.le_trans (List.drop_eq_nil_iff.1 front) low)
      rw [behind]
      exact not_starts_nil
  | case2 c cs target rest found ih =>
      have takes := statement?_eq_some_iff.1 found
      have stop : text.drop (text.length - rest.length) = rest := by
        apply Eq.symm
        apply List.suffix_iff_eq_drop.1
        exact (front ▸ takes.suffix).trans (List.drop_suffix start text)
      have here : ∀ i, start ≤ i → i < start → ¬ Starts language (text.drop i) :=
        fun i low high => absurd high (Nat.not_lt_of_le low)
      exact Finds.next (Nat.le_refl start) here (by rw [front, stop]; exact takes) (ih _ stop)
  | case3 c cs missing ih =>
      have next : text.drop (start + 1) = cs := by
        rw [← List.tail_drop, front, List.tail_cons]
      apply (ih (start + 1) next).back
      rw [front]
      exact statement?_eq_none_iff.1 missing

theorem finds_iff {start : Nat} {found : List (List Char)} :
    Finds language text start found ↔ targets language (text.drop start) = found := by
  constructor
  · exact Finds.targets_eq
  · rintro rfl
    exact finds_targets start

theorem targets_eq_nil_iff :
    targets language text = [] ↔ ∀ s target, s <:+: text → ¬ IsStatement language s target := by
  rw [← List.drop_zero (l := text), ← finds_iff, List.drop_zero]
  constructor
  · intro h s target ⟨before, rest, inside⟩ statement
    cases h with
    | done missing =>
        apply missing before.length (Nat.zero_le _)
        rw [← inside, List.append_assoc, List.drop_left]
        exact ⟨s, target, List.prefix_append s rest, statement⟩
  · intro h
    apply Finds.done
    rintro i - ⟨s, target, front, statement⟩
    exact h s target (front.isInfix.trans (List.drop_suffix i text).isInfix) statement

end Targets

/-- The imports of a text are the targets of its statements from left to right, none of which
overlaps another. There are none only if no part of the text is a statement. -/
theorem imports_leftmost (language : Language) (text : String) :
    (∀ found : List String,
      imports language text = found ↔ Finds language text.toList 0 (found.map String.toList)) ∧
    (imports language text = [] ↔
      ∀ s target, s <:+: text.toList → ¬ IsStatement language s target) := by
  constructor
  · intro found
    rw [finds_iff, List.drop_zero, imports]
    constructor
    · rintro rfl
      simp [Function.comp_def]
    · intro h
      simp [h, Function.comp_def]
  · rw [imports, List.map_eq_nil_iff]
    exact targets_eq_nil_iff

/-- Two blanks and no clause: a second source on the line decides which target is taken. -/
example : imports .typescript "import  from 'a'" = ["a"] ∧
    imports .typescript "import  from 'a' x from 'b'" = ["b"] := by decide +kernel

end LayerLint.Import
