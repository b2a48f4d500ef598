import LayerLint.Proofs.Glob.Denotation
import Mathlib.Data.List.Nodup

/-!
# Settled patterns

A pattern is settled if it can be read to its end without meeting a choice. To work out a pattern means
to put each option in the place of the leftmost choice and to work out what this gives (`Calls`). Every
such call loses two braces and a comma, and the calls end at settled patterns. These are the answers, and
each of them is worked out to itself (`expand_settled`).
-/

namespace LayerLint.Glob

/-! ## Texts that offer no choice -/

/-- A text without a choice, where the text is read once from the left. -/
inductive Settled : List Char → Prop where
  | nil : Settled []
  | literal {c : Char} {rest : List Char} (plain : c ≠ '\x7b') (settled : Settled rest) :
      Settled (c :: rest)
  | unclosed {cs : List Char} (never : ∀ body rest, cs = body ++ '\x7d' :: rest → ¬ Balances 0 body) :
      Settled ('\x7b' :: cs)
  -- a choice inside a group without a comma of its own is not read as one
  | group {body rest : List Char} (closed : Balances 0 body) (uncut : Uncut 0 body)
      (settled : Settled rest) : Settled ('\x7b' :: body ++ '\x7d' :: rest)

theorem Settled.firstChoice?_eq_none {p : List Char} (h : Settled p) : firstChoice? p = none := by
  induction h with
  | nil => exact firstChoice?_nil
  | @literal c rest plain settled ih =>
      have inert := inert_literal plain rest
      simpa [ih] using inert
  | unclosed never => exact firstChoice?_unclosed never
  | @group body rest closed uncut settled ih =>
      have inert := inert_group closed uncut rest
      simpa [ih] using inert

theorem uncut_of_alternatives {body : List Char} (closed : Balances 0 body)
    (one : ¬ 1 < (alternatives 0 body).length) : Uncut 0 body := by
  obtain ⟨first, others, cuts, joined, -, uncut, -⟩ := alternatives_spec closed
  have last : others = [] := by
    rw [cuts, List.length_cons] at one
    exact List.length_eq_zero_iff.1 (by omega)
  rw [last, List.intercalate_singleton] at joined
  exact joined ▸ uncut

theorem settled_of_firstChoice? {p : List Char} (h : firstChoice? p = none) : Settled p := by
  fun_induction firstChoice? p with
  | case1 => exact .nil
  | case2 cs close => exact .unclosed (not_balances_of_closeGroup close)
  | case3 => cases h
  | case4 cs body rest close one ih =>
      obtain ⟨closed, rfl⟩ := balances_of_closeGroup close
      exact .group closed (uncut_of_alternatives closed one) (ih (Option.map_eq_none_iff.1 h))
  | case5 c cs plain ih => exact .literal plain (ih (Option.map_eq_none_iff.1 h))

theorem firstChoice?_options {p : List Char} {choice : Choice} (h : firstChoice? p = some choice) :
    choice.options ≠ [] := by
  fun_induction firstChoice? p generalizing choice with
  | case1 => cases h
  | case2 => cases h
  | case3 cs body rest close several =>
      obtain rfl := Option.some.inj h
      exact alternatives_ne_nil 0 body
  | case4 cs body rest close one ih =>
      obtain ⟨inner, found, rfl⟩ := Option.map_eq_some_iff.1 h
      exact @ih inner found
  | case5 c cs plain ih =>
      obtain ⟨inner, found, rfl⟩ := Option.map_eq_some_iff.1 h
      exact @ih inner found

/-! ## Calls inside each other -/

/-- To work out `p`, it is necessary to work out `q`, by `n` calls of which each makes the next one. -/
inductive Calls : Nat → List Char → List Char → Prop where
  | here (p : List Char) : Calls 0 p p
  | option {n : Nat} {p q option : List Char} {choice : Choice} (first : firstChoice? p = some choice)
      (mem : option ∈ choice.options) (calls : Calls n (choice.before ++ option ++ choice.after) q) :
      Calls (n + 1) p q

theorem Calls.length_le {n : Nat} {p q : List Char} (h : Calls n p q) :
    q.length + 3 * n ≤ p.length := by
  induction h with
  | here => simp
  | option first mem calls ih =>
      have := firstChoice?_length first mem
      omega

theorem Settled.of_calls {n : Nat} {p q : List Char} (settled : Settled p) (h : Calls n p q) :
    n = 0 ∧ q = p := by
  cases h with
  | here => exact ⟨rfl, rfl⟩
  | option first =>
      rw [settled.firstChoice?_eq_none] at first
      cases first

theorem mem_resolveChoices_iff {p r : List Char} :
    r ∈ resolveChoices p ↔ (∃ n, Calls n p r) ∧ Settled r := by
  induction p using resolveChoices.induct with
  | case1 p first =>
      have settled := settled_of_firstChoice? first
      rw [resolveChoices_of_none first, List.mem_singleton]
      constructor
      · rintro rfl
        exact ⟨⟨0, .here _⟩, settled⟩
      · rintro ⟨⟨n, calls⟩, -⟩
        exact (settled.of_calls calls).2
  | case2 p choice first ih =>
      rw [resolveChoices_of_some first, List.mem_flatMap]
      constructor
      · rintro ⟨option, mem, found⟩
        obtain ⟨⟨n, calls⟩, settled⟩ := (ih option mem).1 found
        exact ⟨⟨n + 1, .option first mem calls⟩, settled⟩
      · rintro ⟨⟨n, calls⟩, settled⟩
        cases calls with
        | here =>
            -- `p` itself offers a choice
            rw [settled.firstChoice?_eq_none] at first
            cases first
        | option first' mem calls =>
            obtain rfl := Option.some.inj (first.symm.trans first')
            exact ⟨_, mem, (ih _ mem).2 ⟨⟨_, calls⟩, settled⟩⟩

theorem resolveChoices_ne_nil (p : List Char) : resolveChoices p ≠ [] := by
  induction p using resolveChoices.induct with
  | case1 p first => simp [resolveChoices_of_none first]
  | case2 p choice first ih =>
      obtain ⟨option, mem⟩ := List.exists_mem_of_ne_nil _ (firstChoice?_options first)
      obtain ⟨r, found⟩ := List.exists_mem_of_ne_nil _ (ih option mem)
      rw [resolveChoices_of_some first]
      exact List.ne_nil_of_mem (List.mem_flatMap.2 ⟨option, mem, found⟩)

/-! ## The depth of the calls -/

theorem choiceDepth_of_none {p : List Char} (h : firstChoice? p = none) : choiceDepth p = 1 := by
  rw [choiceDepth]
  split
  · rfl
  · rename_i heq
    rw [h] at heq
    cases heq

theorem lt_foldl_max {n least : Nat} {depths : List Nat} :
    n < depths.foldl max least ↔ n < least ∨ ∃ depth ∈ depths, n < depth := by
  induction depths generalizing least with
  | nil => simp
  | cons depth depths ih =>
      have either : n < max least depth ↔ n < least ∨ n < depth := by omega
      rw [List.foldl_cons, ih, either, List.exists_mem_cons_iff, or_assoc]

theorem lt_choiceDepth_iff {n : Nat} {p : List Char} : n < choiceDepth p ↔ ∃ q, Calls n p q := by
  -- the calls are followed from the outermost one, so that each case opens `choiceDepth` once
  induction n generalizing p with
  | zero =>
      refine iff_of_true ?_ ⟨p, .here p⟩
      cases first : firstChoice? p with
      | none => simp [choiceDepth_of_none first]
      | some choice =>
          rw [choiceDepth_of_some first]
          omega
  | succ n ih =>
      cases first : firstChoice? p with
      | none =>
          rw [choiceDepth_of_none first]
          refine iff_of_false (by omega) ?_
          rintro ⟨q, calls⟩
          cases ((settled_of_firstChoice? first).of_calls calls).1
      | some choice =>
          rw [choiceDepth_of_some first, Nat.add_comm 1, Nat.add_lt_add_iff_right, lt_foldl_max]
          constructor
          · rintro (none | ⟨depth, listed, deep⟩)
            · omega
            · obtain ⟨option, mem, rfl⟩ := List.mem_map.1 listed
              obtain ⟨q, calls⟩ := ih.1 deep
              exact ⟨q, .option first mem calls⟩
          · rintro ⟨q, calls⟩
            cases calls with
            | option first' mem calls =>
                obtain rfl := Option.some.inj (first.symm.trans first')
                exact .inr ⟨_, List.mem_map.2 ⟨_, mem, rfl⟩, ih.2 ⟨q, calls⟩⟩

theorem isShallow_iff {p : List Char} : isShallow p = true ↔ ¬ ∃ q, Calls 990 p q := by
  rw [← lt_choiceDepth_iff, isShallow, decide_eq_true_iff, Nat.not_lt]

/-! ## Answers -/

theorem nodup_eraseDups {α : Type} [BEq α] [LawfulBEq α] (xs : List α) : xs.eraseDups.Nodup := by
  induction size : xs.length using Nat.strongRecOn generalizing xs with
  | ind _ ih =>
      subst size
      cases xs with
      | nil => simp
      | cons x xs =>
          have shorter := List.length_filter_le (fun y => !y == x) xs
          rw [List.eraseDups_cons, List.nodup_cons]
          refine ⟨?_, ih _ (Nat.lt_succ_of_le shorter) _ rfl⟩
          simp [List.mem_eraseDups]

theorem expand_of_settled {pattern : String} (settled : Settled pattern.toList) :
    Glob.expand pattern = .ok [pattern] := by
  have shallow : isShallow pattern.toList = true := by
    refine isShallow_iff.2 ?_
    rintro ⟨q, calls⟩
    cases (settled.of_calls calls).1
  rw [expand, if_pos shallow, expandBraces, resolveChoices_of_none settled.firstChoice?_eq_none]
  simp [List.eraseDups_cons]

theorem calls_nested (n m : Nat) : Calls n (nested (m + n)) (nested m) := by
  induction n with
  | zero => exact .here _
  | succ n ih =>
      refine .option (firstChoice?_nested (m + n)) (List.mem_cons_of_mem _ List.mem_cons_self) ?_
      simpa using ih

end LayerLint.Glob
