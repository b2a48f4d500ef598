import LayerLint.Glob
import LayerLint.Proofs.Glob.Choices
import Mathlib.Data.List.Basic
import Mathlib.Tactic.Choose

/-!
# What choices stand for

`Denotes` reads a pattern once, from left to right, as a sequence of literal texts and choices. The
choices are never worked out in this way: an alternative is put into the pattern in the place of its
choice, and the pattern is read again from the start. Both give the same list (`expand_denotes`), since
alternatives are balanced and nothing before the leftmost choice can change its meaning.
-/

namespace LayerLint.Glob

/-! ## Depth -/

/-- Reading the text with `depth` groups open closes all of them, and no others. -/
structure Balances (depth : Nat) (cs : List Char) : Prop where
  level : depth + cs.count '\x7b' = cs.count '\x7d'
  below : ∀ front, front <+: cs → front.count '\x7d' ≤ depth + front.count '\x7b'

/-- The text has no comma outside all groups that are opened in it or were open before. -/
def Uncut (depth : Nat) (cs : List Char) : Prop :=
  ∀ front back, cs = front ++ ',' :: back → ¬ Balances depth front

theorem balances_nil {depth : Nat} : Balances depth [] ↔ depth = 0 := by
  constructor
  · intro h
    simpa using h.level
  · rintro rfl
    exact ⟨by simp, by simp⟩

theorem balances_cons {depth : Nat} {c : Char} {cs : List Char} :
    Balances depth (c :: cs) ↔ ¬ (c = '\x7d' ∧ depth = 0) ∧ Balances (depthAfter depth c) cs := by
  have step (front : List Char) (closes : ¬ (c = '\x7d' ∧ depth = 0)) :
      depth + (c :: front).count '\x7b' + front.count '\x7d' =
        depthAfter depth c + front.count '\x7b' + (c :: front).count '\x7d' := by
    unfold depthAfter
    by_cases opening : c = '\x7b'
    · subst opening
      simp
      omega
    · by_cases closing : c = '\x7d'
      · subst closing
        simp at closes ⊢
        omega
      · simp [opening, closing]
  constructor
  · intro h
    have closes : ¬ (c = '\x7d' ∧ depth = 0) := by
      rintro ⟨rfl, rfl⟩
      have := h.below ['\x7d'] (by simp)
      simp at this
    refine ⟨closes, ?_, fun front starts => ?_⟩
    · have := h.level
      have := step cs closes
      omega
    · have := h.below (c :: front) (by simpa using starts)
      have := step front closes
      omega
  · rintro ⟨closes, h⟩
    refine ⟨?_, fun front starts => ?_⟩
    · have := h.level
      have := step cs closes
      omega
    · rcases List.prefix_cons_iff.1 starts with rfl | ⟨inner, rfl, starts'⟩
      · simp
      · have := h.below inner starts'
        have := step inner closes
        omega

theorem balances_append {inner outer : Nat} {body : List Char} (h : Balances inner body)
    (cs : List Char) : Balances (inner + outer) (body ++ cs) ↔ Balances outer cs := by
  induction body generalizing inner with
  | nil => simp [balances_nil.1 h]
  | cons c body ih =>
      obtain ⟨closes, h⟩ := balances_cons.1 h
      have deeper : depthAfter (inner + outer) c = depthAfter inner c + outer := by
        unfold depthAfter
        grind
      rw [List.cons_append, balances_cons, deeper, ih h]
      grind

theorem balances_group {body : List Char} (h : Balances 0 body) (rest : List Char) :
    Balances 0 ('\x7b' :: body ++ '\x7d' :: rest) ↔ Balances 0 rest := by
  have inside := @balances_append 0 1 body h ('\x7d' :: rest)
  simp_all [balances_cons, depthAfter]

theorem exists_close {inner outer : Nat} {cs : List Char} (h : Balances (inner + outer + 1) cs) :
    ∃ body rest, cs = body ++ '\x7d' :: rest ∧ Balances inner body := by
  induction cs generalizing inner with
  | nil => cases balances_nil.1 h
  | cons c cs ih =>
      by_cases closes : c = '\x7d' ∧ inner = 0
      · exact ⟨[], cs, by simp [closes.1], balances_nil.2 closes.2⟩
      · have deeper : depthAfter (inner + outer + 1) c = depthAfter inner c + outer + 1 := by
          unfold depthAfter
          grind
        obtain ⟨body, rest, rfl, balances⟩ := ih (deeper ▸ (balances_cons.1 h).2)
        exact ⟨c :: body, rest, rfl, balances_cons.2 ⟨closes, balances⟩⟩

theorem uncut_nil (depth : Nat) : Uncut depth [] := by
  intro front back h
  simp at h

theorem uncut_cons {depth : Nat} {c : Char} {cs : List Char} :
    Uncut depth (c :: cs) ↔ ¬ (c = ',' ∧ depth = 0) ∧
      (¬ (c = '\x7d' ∧ depth = 0) → Uncut (depthAfter depth c) cs) := by
  constructor
  · intro h
    constructor
    · rintro ⟨rfl, rfl⟩
      exact h [] cs rfl (balances_nil.2 rfl)
    · rintro closes front back rfl
      intro inner
      exact h (c :: front) back rfl (balances_cons.2 ⟨closes, inner⟩)
  · rintro ⟨comma, rest⟩ front back h balances
    cases front with
    | nil =>
        simp only [List.nil_append, List.cons.injEq] at h
        exact comma ⟨h.1, balances_nil.1 balances⟩
    | cons d front =>
        simp only [List.cons_append, List.cons.injEq] at h
        obtain ⟨rfl, rfl⟩ := h
        obtain ⟨closes, balances⟩ := balances_cons.1 balances
        exact rest closes front back rfl balances

/-! ## Groups and their alternatives -/

theorem closeGroup_of_balances {depth : Nat} {body : List Char} (h : Balances depth body)
    (rest : List Char) : closeGroup depth (body ++ '\x7d' :: rest) = some (body, rest) := by
  induction body generalizing depth with
  | nil => simp [closeGroup, balances_nil.1 h]
  | cons c body ih =>
      obtain ⟨closes, h⟩ := balances_cons.1 h
      simp [closeGroup, closes, ih h]

theorem balances_of_closeGroup {depth : Nat} {cs body rest : List Char}
    (h : closeGroup depth cs = some (body, rest)) :
    Balances depth body ∧ cs = body ++ '\x7d' :: rest := by
  induction cs generalizing depth body rest with
  | nil => simp [closeGroup] at h
  | cons c cs ih =>
      rw [closeGroup] at h
      split at h
      · rename_i closes
        simp only [Option.some.injEq, Prod.mk.injEq] at h
        obtain ⟨rfl, rfl⟩ := h
        exact ⟨balances_nil.2 closes.2, by simp [closes.1]⟩
      · rename_i closes
        obtain ⟨⟨inner, behind⟩, hinner, h⟩ := Option.map_eq_some_iff.1 h
        simp only [Prod.mk.injEq] at h
        obtain ⟨rfl, rfl⟩ := h
        obtain ⟨balances, rfl⟩ := ih hinner
        exact ⟨balances_cons.2 ⟨closes, balances⟩, rfl⟩

theorem not_balances_of_closeGroup {depth : Nat} {cs : List Char} (h : closeGroup depth cs = none)
    (body rest : List Char) (same : cs = body ++ '\x7d' :: rest) : ¬ Balances depth body := by
  intro balances
  rw [same, closeGroup_of_balances balances] at h
  cases h

/-- A piece of the body of a group between two commas of its own level. -/
def IsAlternative (cs : List Char) : Prop := Balances 0 cs ∧ Uncut 0 cs

theorem alternatives_of_uncut {depth : Nat} {first : List Char} (balances : Balances depth first)
    (uncut : Uncut depth first) : alternatives depth first = [first] := by
  induction first generalizing depth with
  | nil => rfl
  | cons c first ih =>
      obtain ⟨closes, balances⟩ := balances_cons.1 balances
      obtain ⟨comma, uncut⟩ := uncut_cons.1 uncut
      simp [alternatives, comma, ih balances (uncut closes)]

theorem alternatives_append {depth : Nat} {first : List Char} (balances : Balances depth first)
    (uncut : Uncut depth first) (rest : List Char) :
    alternatives depth (first ++ ',' :: rest) = first :: alternatives 0 rest := by
  induction first generalizing depth with
  | nil => simp [alternatives, balances_nil.1 balances]
  | cons c first ih =>
      obtain ⟨closes, balances⟩ := balances_cons.1 balances
      obtain ⟨comma, uncut⟩ := uncut_cons.1 uncut
      simp [alternatives, comma, ih balances (uncut closes)]

theorem balances_intercalate {options : List (List Char)}
    (all : ∀ option ∈ options, Balances 0 option) : Balances 0 ([','].intercalate options) := by
  induction options with
  | nil => exact balances_nil.2 rfl
  | cons first others ih =>
      rw [List.forall_mem_cons] at all
      cases others with
      | nil => simpa using all.1
      | cons second others =>
          have behind := ih all.2
          have front := @balances_append 0 0 first all.1
            (',' :: [','].intercalate (second :: others))
          simp_all [List.intercalate_cons_cons, balances_cons, depthAfter]

theorem alternatives_intercalate {options : List (List Char)} (some : options ≠ [])
    (all : ∀ option ∈ options, IsAlternative option) :
    alternatives 0 ([','].intercalate options) = options := by
  induction options with
  | nil => exact absurd rfl some
  | cons first others ih =>
      rw [List.forall_mem_cons] at all
      cases others with
      | nil => simp [alternatives_of_uncut all.1.1 all.1.2]
      | cons second others =>
          simp [List.intercalate_cons_cons, alternatives_append all.1.1 all.1.2, ih (by simp) all.2]

theorem alternatives_spec {depth : Nat} {body : List Char} (h : Balances depth body) :
    ∃ first others, alternatives depth body = first :: others ∧
      body = [','].intercalate (first :: others) ∧
      Balances depth first ∧ Uncut depth first ∧ ∀ option ∈ others, IsAlternative option := by
  induction body generalizing depth with
  | nil => exact ⟨[], [], rfl, by simp, h, uncut_nil depth, by simp⟩
  | cons c body ih =>
      obtain ⟨closes, h⟩ := balances_cons.1 h
      obtain ⟨first, others, cut, joined, balances, uncut, all⟩ := ih h
      by_cases comma : c = ',' ∧ depth = 0
      · obtain ⟨rfl, rfl⟩ := comma
        refine ⟨[], first :: others, ?_, ?_, balances_nil.2 rfl, uncut_nil 0, ?_⟩
        · simpa [alternatives, depthAfter] using cut
        · simp [List.intercalate_cons_cons, joined]
        · exact List.forall_mem_cons.2 ⟨⟨balances, uncut⟩, all⟩
      · refine ⟨c :: first, others, ?_, ?_, balances_cons.2 ⟨closes, balances⟩,
          uncut_cons.2 ⟨comma, fun _ => uncut⟩, all⟩
        · simp [alternatives, comma, cut]
        · cases others <;> simp_all [List.intercalate_cons_cons]

/-! ## Denotations -/

/-- All texts of the first list, each before all texts of the second. -/
def product (xs ys : List (List Char)) : List (List Char) :=
  xs.flatMap fun x => ys.map (x ++ ·)

/-- The texts that a pattern stands for, in order, where the pattern is read once from the left. -/
inductive Denotes : List Char → List (List Char) → Prop where
  | nil : Denotes [] [[]]
  | literal {c : Char} {rest : List Char} {behind : List (List Char)} (plain : c ≠ '\x7b')
      (denotes : Denotes rest behind) : Denotes (c :: rest) (product [[c]] behind)
  /-- An opening brace that is never closed, and all that follows it. -/
  | unclosed {cs : List Char} (never : ∀ body rest, cs = body ++ '\x7d' :: rest → ¬ Balances 0 body) :
      Denotes ('\x7b' :: cs) ['\x7b' :: cs]
  /-- A group without a comma of its own. -/
  | group {body rest : List Char} {behind : List (List Char)} (closed : Balances 0 body)
      (uncut : Uncut 0 body) (denotes : Denotes rest behind) :
      Denotes ('\x7b' :: body ++ '\x7d' :: rest) (product [('\x7b' :: body ++ ['\x7d'])] behind)
  | choice {options : List (List Char)} {meaning : List Char → List (List Char)} {rest : List Char}
      {behind : List (List Char)} (several : 1 < options.length)
      (cut : ∀ option ∈ options, IsAlternative option)
      (each : ∀ option ∈ options, Denotes option (meaning option)) (denotes : Denotes rest behind) :
      Denotes ('\x7b' :: [','].intercalate options ++ '\x7d' :: rest)
        (product (options.flatMap meaning) behind)

theorem product_one (x : List Char) (ys : List (List Char)) : product [x] ys = ys.map (x ++ ·) := by
  simp [product]

theorem product_nil_one (xs : List (List Char)) : product xs [[]] = xs := by
  simp [product]

theorem product_flatMap {α : Type} (xs : List α) (f : α → List (List Char))
    (ys : List (List Char)) : product (xs.flatMap f) ys = xs.flatMap fun x => product (f x) ys := by
  simp [product, List.flatMap_assoc]

theorem product_assoc (xs ys zs : List (List Char)) :
    product (product xs ys) zs = product xs (product ys zs) := by
  simp [product, List.flatMap_assoc, List.flatMap_map, List.map_flatMap, Function.comp_def]

theorem exists_denotes (p : List Char) : ∃ list, Denotes p list := by
  induction size : p.length using Nat.strongRecOn generalizing p with
  | ind _ ih =>
      subst size
      have smaller (q : List Char) (h : q.length < p.length) : ∃ list, Denotes q list := ih _ h q rfl
      cases p with
      | nil => exact ⟨_, .nil⟩
      | cons c cs =>
          by_cases opening : c = '\x7b'
          · subst opening
            cases close : closeGroup 0 cs with
            | none => exact ⟨_, .unclosed (not_balances_of_closeGroup close)⟩
            | some found =>
                obtain ⟨body, rest⟩ := found
                obtain ⟨closed, rfl⟩ := balances_of_closeGroup close
                obtain ⟨behind, denotes⟩ := smaller rest (by simp; omega)
                obtain ⟨first, others, cuts, joined, balances, uncut, all⟩ := alternatives_spec closed
                cases others with
                | nil =>
                    rw [List.intercalate_singleton] at joined
                    exact ⟨_, .group closed (joined ▸ uncut) denotes⟩
                | cons second others =>
                    have options : ∀ option ∈ first :: second :: others, IsAlternative option :=
                      List.forall_mem_cons.2 ⟨⟨balances, uncut⟩, all⟩
                    have each : ∀ option ∈ first :: second :: others, ∃ list, Denotes option list := by
                      intro option mem
                      have shorter := alternatives_length (cuts ▸ mem)
                      apply smaller
                      simp only [List.length_cons, List.length_append, cuts] at shorter ⊢
                      omega
                    choose! meaning each using each
                    rw [joined]
                    exact ⟨_, .choice (by simp) options each denotes⟩
          · obtain ⟨behind, denotes⟩ := smaller cs (by simp)
            exact ⟨_, .literal opening denotes⟩

/-! ## Resolving choices -/

theorem firstChoice?_nil : firstChoice? [] = none := by
  rw [firstChoice?]

theorem firstChoice?_open (cs : List Char) :
    firstChoice? ('\x7b' :: cs) =
      (closeGroup 0 cs).bind fun (body, rest) =>
        if 1 < (alternatives 0 body).length then some ⟨[], alternatives 0 body, rest⟩
        else (firstChoice? rest).map fun choice =>
          { choice with before := '\x7b' :: body ++ '\x7d' :: choice.before } := by
  rw [firstChoice?, if_pos rfl]
  split <;> rename_i close <;> rw [close]
  · rfl
  · rfl

/-- The choices of a pattern stay what they are when the text is put in front of it. -/
def Inert (front : List Char) : Prop :=
  ∀ cs, firstChoice? (front ++ cs) = (firstChoice? cs).map fun choice =>
    { choice with before := front ++ choice.before }

theorem inert_literal {c : Char} (plain : c ≠ '\x7b') : Inert [c] := by
  intro cs
  rw [List.singleton_append, firstChoice?, if_neg plain]
  rfl

theorem inert_group {body : List Char} (closed : Balances 0 body) (uncut : Uncut 0 body) :
    Inert ('\x7b' :: body ++ ['\x7d']) := by
  intro cs
  simp [firstChoice?_open, closeGroup_of_balances closed, alternatives_of_uncut closed uncut]

theorem firstChoice?_choice {options : List (List Char)} (several : 1 < options.length)
    (cut : ∀ option ∈ options, IsAlternative option) (rest : List Char) :
    firstChoice? ('\x7b' :: [','].intercalate options ++ '\x7d' :: rest) =
      some ⟨[], options, rest⟩ := by
  have closed := balances_intercalate fun option mem => (cut option mem).1
  have some : options ≠ [] := List.ne_nil_of_length_pos (by omega)
  simp [firstChoice?_open, closeGroup_of_balances closed, alternatives_intercalate some cut, several]

theorem firstChoice?_unclosed {cs : List Char}
    (never : ∀ body rest, cs = body ++ '\x7d' :: rest → ¬ Balances 0 body) :
    firstChoice? ('\x7b' :: cs) = none := by
  rw [firstChoice?_open]
  cases close : closeGroup 0 cs with
  | none => rfl
  | some found =>
      obtain ⟨balances, same⟩ := balances_of_closeGroup close
      exact absurd balances (never _ _ same)

theorem resolveChoices_inert {front : List Char} (inert : Inert front) (cs : List Char) :
    resolveChoices (front ++ cs) = product [front] (resolveChoices cs) := by
  induction cs using resolveChoices.induct with
  | case1 cs first =>
      have none : firstChoice? (front ++ cs) = none := by simp [inert cs, first]
      simp [resolveChoices_of_none first, resolveChoices_of_none none, product]
  | case2 cs choice first ih =>
      have found : firstChoice? (front ++ cs) =
          some { choice with before := front ++ choice.before } := by simp [inert cs, first]
      rw [resolveChoices_of_some found, resolveChoices_of_some first, product_one, List.map_flatMap]
      apply List.flatMap_congr
      intro option mem
      have inner := ih option mem
      rw [product_one] at inner
      simpa using inner

theorem resolveChoices_nil : resolveChoices [] = [[]] :=
  resolveChoices_of_none firstChoice?_nil

/-- A text in front of a pattern is worked out by itself, unless it leaves a group open. The
alternatives of a choice leave none open, and so each of them can stand in the place of the choice. -/
theorem Denotes.resolveChoices_append {front : List Char} {list : List (List Char)}
    (h : Denotes front list) {rest : List Char} (closed : Balances 0 front ∨ rest = []) :
    resolveChoices (front ++ rest) = product list (resolveChoices rest) := by
  induction h generalizing rest with
  | nil => simp [product_one]
  | @literal c front behind plain denotes ih =>
      have closed' : Balances 0 front ∨ rest = [] := by
        refine closed.imp_left fun h => ?_
        have := balances_cons.1 h
        simp_all [depthAfter]
      rw [product_assoc, ← ih closed', ← resolveChoices_inert (inert_literal plain)]
      rfl
  | @unclosed cs never =>
      rcases closed with h | rfl
      · obtain ⟨body, rest, same, balances⟩ :=
          @exists_close 0 0 cs (by simpa [depthAfter] using (balances_cons.1 h).2)
        exact absurd balances (never body rest same)
      · rw [List.append_nil, resolveChoices_nil, product_nil_one, resolveChoices_of_none]
        exact firstChoice?_unclosed never
  | @group body front behind balances uncut denotes ih =>
      have closed' := closed.imp_left (balances_group balances front).1
      rw [product_assoc, ← ih closed', ← resolveChoices_inert (inert_group balances uncut)]
      simp
  | @choice options meaning front behind several cut each denotes ihs ih =>
      have inside := balances_intercalate fun option mem => (cut option mem).1
      have closed' := closed.imp_left (balances_group inside front).1
      have found : firstChoice? ('\x7b' :: [','].intercalate options ++ '\x7d' :: front ++ rest) =
          some ⟨[], options, front ++ rest⟩ := by
        simpa using firstChoice?_choice several cut (front ++ rest)
      rw [product_assoc, ← ih closed', product_flatMap, resolveChoices_of_some found]
      apply List.flatMap_congr
      intro option mem
      exact ihs option mem (.inl (cut option mem).1)

theorem Denotes.resolveChoices_eq {p : List Char} {list : List (List Char)} (h : Denotes p list) :
    resolveChoices p = list := by
  simpa [resolveChoices_nil, product_nil_one] using h.resolveChoices_append (.inr rfl)

end LayerLint.Glob
