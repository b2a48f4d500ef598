import LayerLint.Glob.Brace

/-!
# Resolving choices

`resolveChoices` and `choiceDepth` by the leftmost choice of a pattern, and patterns in which the
choices lie inside each other.
-/

namespace LayerLint.Glob

theorem resolveChoices_of_none {p : List Char} (h : firstChoice? p = none) :
    resolveChoices p = [p] := by
  rw [resolveChoices]
  split
  · rfl
  · rename_i heq
    rw [h] at heq
    cases heq

theorem resolveChoices_of_some {p : List Char} {choice : Choice} (h : firstChoice? p = some choice) :
    resolveChoices p = choice.options.flatMap fun option =>
      resolveChoices (choice.before ++ option ++ choice.after) := by
  rw [resolveChoices]
  split <;> rename_i heq <;> rw [h] at heq
  · cases heq
  · obtain rfl := Option.some.inj heq
    rw [List.flatMap_subtype (fun _ _ => rfl), List.unattach_attach]

theorem choiceDepth_of_some {p : List Char} {choice : Choice} (h : firstChoice? p = some choice) :
    choiceDepth p = 1 + (choice.options.map fun option =>
      choiceDepth (choice.before ++ option ++ choice.after)).foldl max 0 := by
  rw [choiceDepth]
  split <;> rename_i heq <;> rw [h] at heq
  · cases heq
  · obtain rfl := Option.some.inj heq
    rw [List.map_subtype (fun _ _ => rfl), List.unattach_attach]

/-! ## Choices inside each other -/

/-- Choices that lie `n` deep inside each other, each between nothing and the next one. -/
def nested : Nat → List Char
  | 0 => []
  | n + 1 => '\x7b' :: ',' :: nested n ++ ['\x7d']

theorem closeGroup_nested (n depth : Nat) (rest : List Char) :
    closeGroup depth (nested n ++ rest) =
      (closeGroup depth rest).map fun (body, after) => (nested n ++ body, after) := by
  induction n generalizing depth rest with
  | zero => simp [nested]
  | succ n ih =>
      have inner : closeGroup (depth + 1) (nested n ++ '\x7d' :: rest) =
          (closeGroup depth rest).map fun (body, after) => (nested n ++ '\x7d' :: body, after) := by
        rw [ih, closeGroup]
        simp [depthAfter, Function.comp_def]
      simp [nested, closeGroup, depthAfter, inner, Function.comp_def]

theorem alternatives_ne_nil (depth : Nat) (cs : List Char) : alternatives depth cs ≠ [] := by
  cases cs with
  | nil => simp [alternatives]
  | cons c cs =>
      rw [alternatives]
      split
      · simp
      · split <;> simp

theorem alternatives_nested (n depth : Nat) (rest : List Char) :
    ∃ first others, alternatives depth rest = first :: others ∧
      alternatives depth (nested n ++ rest) = (nested n ++ first) :: others := by
  obtain ⟨first, others, hrest⟩ := List.exists_cons_of_ne_nil (alternatives_ne_nil depth rest)
  refine ⟨first, others, hrest, ?_⟩
  induction n generalizing depth rest first others with
  | zero => simpa [nested] using hrest
  | succ n ih =>
      have closing : alternatives (depth + 1) ('\x7d' :: rest) = ('\x7d' :: first) :: others := by
        simp [alternatives, depthAfter, hrest]
      have inner := ih (depth + 1) _ _ _ closing
      simp [nested, alternatives, depthAfter, inner]

theorem firstChoice?_nested (n : Nat) :
    firstChoice? (nested (n + 1)) = some ⟨[], [[], nested n], []⟩ := by
  have close : closeGroup 0 (',' :: (nested n ++ ['\x7d'])) = some (',' :: nested n, []) := by
    simp [closeGroup, closeGroup_nested, depthAfter]
  have cut : alternatives 0 (',' :: nested n) = [[], nested n] := by
    obtain ⟨first, others, hnil, hn⟩ := alternatives_nested n 0 []
    obtain ⟨rfl, rfl⟩ := List.cons.inj hnil
    simpa [alternatives] using hn
  rw [nested, List.cons_append, List.cons_append, firstChoice?, if_pos rfl]
  split <;> rename_i heq <;> rw [close] at heq
  · cases heq
  · obtain ⟨rfl, rfl⟩ := Prod.mk.inj (Option.some.inj heq)
    rw [cut]
    rfl

theorem lt_choiceDepth_nested (n : Nat) : n < choiceDepth (nested n) := by
  induction n with
  | zero =>
      rw [choiceDepth]
      split <;> omega
  | succ n ih =>
      rw [choiceDepth_of_some (firstChoice?_nested n)]
      simp only [List.nil_append, List.append_nil, List.map_cons, List.map_nil, List.foldl_cons,
        List.foldl_nil]
      omega

theorem resolveChoices_nested (n : Nat) : ∀ p ∈ resolveChoices (nested n), p = [] := by
  have nothing : resolveChoices [] = [[]] := resolveChoices_of_none (by rw [firstChoice?])
  induction n with
  | zero => simp [nested, nothing]
  | succ n ih =>
      rw [resolveChoices_of_some (firstChoice?_nested n)]
      simpa [nothing] using ih

end LayerLint.Glob
