/-!
# Brace groups

`{a,b}` in a pattern stands for a choice. `expandBraces` lists the patterns without choices that a
pattern stands for, in order and without repetition.

A group is closed by counting depth. A closed group with no comma at its own level is literal text,
and so is everything after a brace that is never closed.
-/

namespace LayerLint.Glob

/-- The number of open groups after reading `c` with `depth` groups open. -/
def depthAfter (depth : Nat) (c : Char) : Nat :=
  if c = '\x7b' then depth + 1 else if c = '\x7d' then depth - 1 else depth

/-- Reads the body of a group whose opening brace has been read, with `depth` groups open inside it.
The result is the body and the text after the closing brace. -/
def closeGroup : Nat → List Char → Option (List Char × List Char)
  | _, [] => none
  | depth, c :: cs =>
      if c = '\x7d' ∧ depth = 0 then some ([], cs)
      else (closeGroup (depthAfter depth c) cs).map fun (body, rest) => (c :: body, rest)

/-- Cuts the body of a group at the commas of its own level. -/
def alternatives : Nat → List Char → List (List Char)
  | _, [] => [[]]
  | depth, c :: cs =>
      if c = ',' ∧ depth = 0 then [] :: alternatives 0 cs
      else
        match alternatives (depthAfter depth c) cs with
        | [] => [[c]]
        | first :: others => (c :: first) :: others

/-- The leftmost group of a pattern that offers a choice. -/
structure Choice where
  before : List Char
  options : List (List Char)
  after : List Char

theorem closeGroup_length {depth : Nat} {cs body rest : List Char}
    (h : closeGroup depth cs = some (body, rest)) : body.length + rest.length + 1 = cs.length := by
  induction cs generalizing depth body rest with
  | nil => simp [closeGroup] at h
  | cons c cs ih =>
      rw [closeGroup] at h
      split at h
      · simp only [Option.some.injEq, Prod.mk.injEq] at h
        obtain ⟨rfl, rfl⟩ := h
        simp
      · obtain ⟨⟨b, r⟩, hb, h⟩ := Option.map_eq_some_iff.1 h
        simp only [Prod.mk.injEq] at h
        obtain ⟨rfl, rfl⟩ := h
        have := ih hb
        simp only [List.length_cons]
        omega

/-- Finds the leftmost closed group with more than one alternative. -/
def firstChoice? : List Char → Option Choice
  | [] => none
  | c :: cs =>
      if c = '\x7b' then
        match _close : closeGroup 0 cs with
        | none => none
        | some (body, rest) =>
            if 1 < (alternatives 0 body).length then some ⟨[], alternatives 0 body, rest⟩
            else
              (firstChoice? rest).map fun choice =>
                { choice with before := c :: body ++ '\x7d' :: choice.before }
      else (firstChoice? cs).map fun choice => { choice with before := c :: choice.before }
termination_by cs => cs.length
decreasing_by
  · have := closeGroup_length _close
    simp only [List.length_cons]
    omega
  · simp

/-- Alternatives are at least as many commas shorter than the body as there are cuts. -/
theorem alternatives_length {depth : Nat} {body option : List Char}
    (h : option ∈ alternatives depth body) :
    option.length + (alternatives depth body).length ≤ body.length + 1 := by
  induction body generalizing depth option with
  | nil =>
      simp only [alternatives, List.mem_singleton] at h
      subst h
      simp [alternatives]
  | cons c cs ih =>
      rw [alternatives] at h ⊢
      split at h <;> rename_i hc
      · simp only [hc, and_self, ↓reduceIte, List.length_cons]
        rcases List.mem_cons.1 h with rfl | h
        · obtain ⟨first, hf⟩ : ∃ first, first ∈ alternatives 0 cs := by
            cases cs with
            | nil => exact ⟨[], by simp [alternatives]⟩
            | cons d ds =>
                rw [alternatives]
                split
                · exact ⟨[], by simp⟩
                · split
                  · exact ⟨[d], by simp⟩
                  · exact ⟨_, List.mem_cons_self⟩
          have := ih hf
          simp only [List.length_nil]
          omega
        · have := ih h
          omega
      · simp only [hc, ↓reduceIte, List.length_cons]
        split at h <;> rename_i heq
        · simp only [List.mem_singleton] at h
          subst h
          simp
        · simp only [List.length_cons]
          rcases List.mem_cons.1 h with rfl | h
          · have := @ih (depthAfter depth c) _ (by rw [heq]; exact List.mem_cons_self)
            rw [heq] at this
            simp only [List.length_cons] at this ⊢
            omega
          · have := @ih (depthAfter depth c) option (by rw [heq]; exact List.mem_cons_of_mem _ h)
            rw [heq] at this
            simp only [List.length_cons] at this ⊢
            omega

/-- Taking one option of a choice drops both braces and at least one comma. -/
theorem firstChoice?_length {p : List Char} {choice : Choice} (h : firstChoice? p = some choice)
    {option : List Char} (mem : option ∈ choice.options) :
    (choice.before ++ option ++ choice.after).length + 3 ≤ p.length := by
  fun_induction firstChoice? p generalizing choice with
  | case1 => simp at h
  | case2 => simp_all
  | case3 cs body rest hclose hmany =>
      simp only [Option.some.injEq] at h
      subst h
      have := closeGroup_length hclose
      have := alternatives_length mem
      simp only [List.nil_append, List.length_append, List.length_cons]
      omega
  | case4 cs body rest hclose hone ih =>
      obtain ⟨inner, hi, rfl⟩ := Option.map_eq_some_iff.1 h
      have := closeGroup_length hclose
      have := ih hi mem
      simp only [List.length_append, List.length_cons] at this ⊢
      omega
  | case5 c cs hc ih =>
      obtain ⟨inner, hi, rfl⟩ := Option.map_eq_some_iff.1 h
      have := ih hi mem
      simp only [List.length_append, List.length_cons] at this ⊢
      omega

/-- Every way to resolve the choices of a pattern, leftmost choice first, repetitions kept. -/
def resolveChoices (p : List Char) : List (List Char) :=
  match _first : firstChoice? p with
  | none => [p]
  | some choice =>
      choice.options.attach.flatMap fun ⟨option, _⟩ =>
        resolveChoices (choice.before ++ option ++ choice.after)
termination_by p.length
decreasing_by
  have := firstChoice?_length _first (by assumption)
  omega

/-- How many choices have to be resolved one after the other, at most, and one more. -/
def choiceDepth (p : List Char) : Nat :=
  match _first : firstChoice? p with
  | none => 1
  | some choice =>
      1 + (choice.options.attach.map fun ⟨option, _⟩ =>
        choiceDepth (choice.before ++ option ++ choice.after)).foldl max 0
termination_by p.length
decreasing_by
  have := firstChoice?_length _first (by assumption)
  omega

/-- Whether few enough choices lie inside each other for a pattern to be worked out. -/
def isShallow (p : List Char) : Bool :=
  choiceDepth p ≤ 990

/-- The patterns without choices that `p` stands for, each once, in order of first occurrence. -/
def expandBraces (p : List Char) : List (List Char) :=
  (resolveChoices p).eraseDups

end LayerLint.Glob
