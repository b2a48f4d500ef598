import LayerLint.Proofs.Glob.Selection
import LayerLint.Proofs.Import.Leftmost
import Mathlib.Data.List.Induction

/-!
# Cutting texts at semicolons

A statement of Java or C# has one semicolon, at its end. So no statement reaches over a semicolon of the
text, and reading goes on behind one as if the text started there: the imports of a text are those of
its pieces up to each semicolon, put together (`imports_semicolons`).
-/

namespace LayerLint.Import

/-! ## Statements and semicolons -/

theorem IsNamed.ends {keyword s target : List Char} (h : IsNamed keyword s target)
    (free : ';' ∉ keyword) : ∃ body, s = body ++ [';'] ∧ ';' ∉ body := by
  obtain @⟨gap, _, space, gap_ok, name, space_ok⟩ := h
  have notBlank : Text.isBlank ';' = false := by decide
  have notName : isNameChar ';' = false := by decide
  refine ⟨_, rfl, ?_⟩
  simp only [List.mem_append, not_or]
  refine ⟨⟨⟨free, fun mem => ?_⟩, fun mem => ?_⟩, fun mem => ?_⟩
  · exact absurd (gap_ok.2 _ mem) (by simp [notBlank])
  · exact absurd (name.all _ mem) (by simp [notName])
  · exact absurd (space_ok _ mem) (by simp [notBlank])

theorem exists_keyword {language : Language} (dotted : language ≠ .typescript) :
    ∃ keyword, ';' ∉ keyword ∧ statement? language = dottedStatement? keyword := by
  cases language with
  | typescript => exact absurd rfl dotted
  | java => exact ⟨"import".toList, by decide, rfl⟩
  | csharp => exact ⟨"using".toList, by decide, rfl⟩

/-- A text that nothing behind it can be a part of. -/
def IsClosed (cs : List Char) : Prop := cs = [] ∨ ∃ front, cs = front ++ [';']

theorem IsClosed.of_suffix {cs after : List Char} (closed : IsClosed cs) (suffix : after <:+ cs) :
    IsClosed after := by
  rcases closed with rfl | ⟨front, rfl⟩
  · exact .inl (List.suffix_nil.1 suffix)
  · rcases List.suffix_concat_iff.1 suffix with none | ⟨rest, same, -⟩
    · exact .inl none
    · exact .inr ⟨rest, same⟩

section Dotted

variable {language : Language} (dotted : language ≠ .typescript)
include dotted

theorem statement?_append {cs target after : List Char}
    (found : statement? language cs = some (target, after)) (more : List Char) :
    statement? language (cs ++ more) = some (target, after ++ more) := by
  obtain ⟨keyword, -, same⟩ := exists_keyword dotted
  rw [same] at found ⊢
  obtain ⟨s, rfl, named⟩ := dottedStatement?_eq_some_iff.1 found
  exact dottedStatement?_eq_some_iff.2 ⟨s, List.append_assoc .., named⟩

theorem statement?_append_eq_none {cs : List Char} (closed : IsClosed cs) (ne : cs ≠ [])
    (missing : statement? language cs = none) (more : List Char) :
    statement? language (cs ++ more) = none := by
  obtain ⟨keyword, free, same⟩ := exists_keyword dotted
  rw [same] at missing ⊢
  apply Option.eq_none_iff_forall_ne_some.2
  rintro ⟨target, after⟩ found
  obtain ⟨s, text, named⟩ := dottedStatement?_eq_some_iff.1 found
  obtain ⟨body, rfl, unclosed⟩ := named.ends free
  have inside : body ++ [';'] <+: cs := by
    -- Otherwise the semicolon that closes the text stands inside the statement.
    rcases List.prefix_or_prefix_of_prefix ⟨after, text.symm⟩ (List.prefix_append cs more) with h | h
    · exact h
    · rcases List.prefix_concat_iff.1 h with whole | front
      · exact whole ▸ List.prefix_rfl
      · obtain none | ⟨start, rfl⟩ := closed
        · exact absurd none ne
        · exact absurd (front.mem (by simp)) unclosed
  obtain ⟨rest, rfl⟩ := inside
  rw [dottedStatement?_eq_some_iff.2 ⟨_, rfl, named⟩] at missing
  cases missing

theorem targets_append {cs : List Char} (closed : IsClosed cs) (more : List Char) :
    targets language (cs ++ more) = targets language cs ++ targets language more := by
  fun_induction targets language cs with
  | case1 => rfl
  | case2 c cs target after found ih =>
      have suffix := (statement?_eq_some_iff.1 found).suffix
      rw [targets_found (statement?_append dotted found more), ih (closed.of_suffix suffix),
        List.cons_append]
  | case3 c cs missing ih =>
      have none : statement? language (c :: (cs ++ more)) = none :=
        statement?_append_eq_none dotted closed (by simp) missing more
      rw [List.cons_append, targets_missing none]
      exact ih (closed.of_suffix (List.suffix_cons c cs))

theorem targets_unclosed {cs : List Char} (free : ';' ∉ cs) : targets language cs = [] := by
  have all : ∀ s target, s <:+: cs → ¬ IsStatement language s target := by
    intro s target inside statement
    have named : ∃ keyword, ';' ∉ keyword ∧ IsNamed keyword s target := by
      cases statement with
      | java named => exact ⟨_, by decide, named⟩
      | csharp named => exact ⟨_, by decide, named⟩
      | required _ => exact absurd rfl dotted
      | imported _ => exact absurd rfl dotted
    obtain ⟨keyword, plain, named⟩ := named
    obtain ⟨body, rfl, -⟩ := named.ends plain
    exact free (inside.mem (by simp))
  exact targets_eq_nil_iff.2 all

end Dotted

/-! ## Pieces of texts -/

theorem exists_closed (cs : List Char) :
    ∃ closed tail, cs = closed ++ tail ∧ IsClosed closed ∧ ';' ∉ tail := by
  induction cs using List.reverseRecOn with
  | nil => exact ⟨[], [], rfl, .inl rfl, by simp⟩
  | append_singleton cs c ih =>
      by_cases ends : c = ';'
      · subst ends
        exact ⟨cs ++ [';'], [], by simp, .inr ⟨cs, rfl⟩, by simp⟩
      · obtain ⟨closed, tail, rfl, isClosed, free⟩ := ih
        exact ⟨closed, tail ++ [c], by simp, isClosed, by simp [free, Ne.symm ends]⟩

/-- The pieces of a text that end in a semicolon. What stands behind the last semicolon is none. -/
def closedPieces (text : String) : List String :=
  (Text.splitOn ';' text.toList).dropLast.map fun piece => String.ofList (piece ++ [';'])

theorem targets_pieces {language : Language} (dotted : language ≠ .typescript) (cs : List Char) :
    targets language cs =
      (Text.splitOn ';' cs).dropLast.flatMap fun piece => targets language (piece ++ [';']) := by
  rw [Glob.splitOn_eq]
  generalize cut : cs.splitOn ';' = pieces
  have free : ∀ piece ∈ pieces, ';' ∉ piece := by
    intro piece mem
    rw [← cut, ← Glob.splitOn_eq] at mem
    exact (Glob.mem_splitOn mem).1
  have joined : cs = [';'].intercalate pieces := by
    rw [← cut, List.intercalate_splitOn]
  subst joined
  clear cut
  induction pieces with
  | nil => exact targets_unclosed dotted (by simp)
  | cons piece pieces ih =>
      cases pieces with
      | nil =>
          apply targets_unclosed dotted
          simpa using free
      | cons next pieces =>
          rw [List.intercalate_cons_cons, targets_append dotted (.inr ⟨piece, rfl⟩),
            ih fun other mem => free other (List.mem_cons_of_mem piece mem)]
          rfl

/-- The imports of a Java or C# text that is cut at a semicolon are those of the part up to it and
those of the part behind it. -/
theorem imports_semicolons (language : Language) (dotted : language ≠ .typescript) :
    (∀ a b : String,
      imports language (a ++ ";" ++ b) = imports language (a ++ ";") ++ imports language b) ∧
    (∀ text : String,
      imports language text = (closedPieces text).flatMap (imports language)) ∧
    ∀ a b : String, imports language a <+: imports language (a ++ b) := by
  refine ⟨fun a b => ?_, fun text => ?_, fun a b => ?_⟩
  · have closed : IsClosed (a ++ ";").toList := .inr ⟨a.toList, String.toList_append⟩
    rw [imports, String.toList_append, targets_append dotted closed, List.map_append]
    rfl
  · rw [imports, targets_pieces dotted, closedPieces, List.map_flatMap, List.flatMap_map]
    simp only [imports, String.toList_ofList]
  · obtain ⟨closed, tail, text, isClosed, free⟩ := exists_closed a.toList
    simp only [imports, String.toList_append, text]
    rw [List.append_assoc, targets_append dotted isClosed, targets_append dotted isClosed,
      targets_unclosed dotted free, List.append_nil, List.map_append]
    exact List.prefix_append ..

/-- The first keyword starts nothing, and reading starts again inside the failed attempt. -/
theorem imports_semicolons_restart :
    Language.csharp ≠ .typescript ∧
      imports .csharp ("using using A" ++ ";" ++ "B; using C ;") = ["A"] ++ ["C"] := by
  have first : imports .csharp ("using using A" ++ ";") = ["A"] := by decide +kernel
  have second : imports .csharp "B; using C ;" = ["C"] := by decide +kernel
  refine ⟨by decide, ?_⟩
  rw [(imports_semicolons .csharp (by decide)).1, first, second]

-- The clause of an import of TypeScript may hold a semicolon.
example : imports .typescript ("import x" ++ ";" ++ " from 'y'") = ["y"] ∧
    imports .typescript ("import x" ++ ";") ++ imports .typescript " from 'y'" = [] := by
  decide +kernel

end LayerLint.Import
