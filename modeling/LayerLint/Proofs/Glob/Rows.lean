import LayerLint.Glob.Regex
import Mathlib.Tactic.Tauto

/-!
# What expressions match

`Leaves` says what is left of a text when an expression has used up its front, item by item.
`Regex.accepts`, which works with rows, decides whether all can be used up: `accepts_iff`.
-/

namespace LayerLint.Glob

/-- An expression uses up the front of a text and leaves `rest` of it. -/
inductive Leaves (rest : List Char) : List Item → List Char → Prop
  | nil : Leaves rest [] rest
  | one {k : CharClass} {c : Char} {items : List Item} {s : List Char} :
      k.mem c = true → Leaves rest items s → Leaves rest (.one k :: items) (c :: s)
  | many {k : CharClass} {items : List Item} {s : List Char} (run : List Char) :
      (∀ c ∈ run, k.mem c = true) → Leaves rest items s → Leaves rest (.many k :: items) (run ++ s)
  | folders {items : List Item} {s : List Char} (names : List (List Char)) :
      (∀ name ∈ names, name ≠ [] ∧ '/' ∉ name) → Leaves rest items s →
        Leaves rest (.folders :: items) (names.flatMap (· ++ ['/']) ++ s)

/-- The closing anchor stands at the end of a text and also before one final line break. -/
def Fulfils (items : List Item) (s : List Char) : Prop :=
  Leaves [] items s ∨ Leaves ['\n'] items s

section Leaves
variable {rest s : List Char} {items : List Item} {k : CharClass}

theorem leaves_nil : Leaves rest [] s ↔ s = rest :=
  ⟨fun h => by cases h; rfl, fun h => h ▸ .nil⟩

theorem leaves_append {xs ys : List Item} :
    Leaves rest (xs ++ ys) s ↔ ∃ t, Leaves t xs s ∧ Leaves rest ys t := by
  constructor
  · intro h
    induction xs generalizing s with
    | nil => exact ⟨s, .nil, h⟩
    | cons x xs ih =>
        cases h with
        | one hc h =>
            obtain ⟨t, ht, hu⟩ := ih h
            exact ⟨t, .one hc ht, hu⟩
        | many run hrun h =>
            obtain ⟨t, ht, hu⟩ := ih h
            exact ⟨t, .many run hrun ht, hu⟩
        | folders names hnames h =>
            obtain ⟨t, ht, hu⟩ := ih h
            exact ⟨t, .folders names hnames ht, hu⟩
  · rintro ⟨t, ht, hu⟩
    induction ht with
    | nil => exact hu
    | one hc _ ih => exact .one hc ih
    | many run hrun _ ih => exact .many run hrun ih
    | folders names hnames _ ih => exact .folders names hnames ih

theorem leaves_iff : Leaves rest items s ↔ ∃ t, s = t ++ rest ∧ Leaves [] items t := by
  constructor
  · intro h
    induction h with
    | nil => exact ⟨[], rfl, .nil⟩
    | one hc _ ih =>
        obtain ⟨t, rfl, ht⟩ := ih
        exact ⟨_ :: t, rfl, .one hc ht⟩
    | many run hrun _ ih =>
        obtain ⟨t, rfl, ht⟩ := ih
        exact ⟨run ++ t, (List.append_assoc ..).symm, .many run hrun ht⟩
    | folders names hnames _ ih =>
        obtain ⟨t, rfl, ht⟩ := ih
        exact ⟨_ ++ t, (List.append_assoc ..).symm, .folders names hnames ht⟩
  · rintro ⟨t, rfl, h⟩
    induction h with
    | nil => exact .nil
    | one hc _ ih => exact .one hc ih
    | many run hrun _ ih => rw [List.append_assoc]; exact .many run hrun ih
    | folders names hnames _ ih => rw [List.append_assoc]; exact .folders names hnames ih

/-! ## One item in front -/

theorem leaves_one_nil : ¬ Leaves rest (.one k :: items) [] := by
  intro h
  cases h

theorem leaves_one_cons {c : Char} :
    Leaves rest (.one k :: items) (c :: s) ↔ k.mem c = true ∧ Leaves rest items s := by
  constructor
  · intro h
    cases h with
    | one hc h => exact ⟨hc, h⟩
  · rintro ⟨hc, h⟩
    exact .one hc h

theorem leaves_many_nil : Leaves rest (.many k :: items) [] ↔ Leaves rest items [] := by
  constructor
  · intro h
    generalize hs : ([] : List Char) = s at h
    cases h with
    | many run hrun h =>
        obtain ⟨rfl, rfl⟩ := List.append_eq_nil_iff.1 hs.symm
        exact h
  · exact fun h => .many [] (by simp) h

theorem leaves_many_cons {c : Char} :
    Leaves rest (.many k :: items) (c :: s) ↔
      Leaves rest items (c :: s) ∨ k.mem c = true ∧ Leaves rest (.many k :: items) s := by
  constructor
  · intro h
    generalize ht : c :: s = t at h
    cases h with
    | many run hrun h =>
        cases run with
        | nil => exact .inl h
        | cons d run =>
            obtain ⟨rfl, rfl⟩ := List.cons.inj ht
            exact .inr ⟨hrun c (by simp), .many run (fun d hd => hrun d (by simp [hd])) h⟩
  · rintro (h | ⟨hc, h⟩)
    · exact .many [] (by simp) h
    · cases h with
      | many run hrun h => exact .many (c :: run) (by simpa [hc] using hrun) h

/-- From inside the name of a folder on: the rest of the name, a slash, and what comes then. -/
def Inside (rest : List Char) (items : List Item) (s : List Char) : Prop :=
  ∃ name t, s = name ++ '/' :: t ∧ '/' ∉ name ∧ Leaves rest (.folders :: items) t

theorem inside_cons {c : Char} :
    Inside rest items (c :: s) ↔
      if c = '/' then Leaves rest (.folders :: items) s else Inside rest items s := by
  split
  · rename_i hc
    subst hc
    constructor
    · rintro ⟨name, t, hs, hname, h⟩
      cases name with
      | nil =>
          obtain ⟨-, rfl⟩ := List.cons.inj hs
          exact h
      | cons d name =>
          obtain ⟨rfl, -⟩ := List.cons.inj hs
          simp at hname
    · exact fun h => ⟨[], s, rfl, by simp, h⟩
  · rename_i hc
    constructor
    · rintro ⟨name, t, hs, hname, h⟩
      cases name with
      | nil => exact absurd (List.cons.inj hs).1 hc
      | cons d name =>
          obtain ⟨rfl, rfl⟩ := List.cons.inj hs
          exact ⟨name, t, rfl, by simp_all, h⟩
    · rintro ⟨name, t, rfl, hname, h⟩
      exact ⟨c :: name, t, rfl, by simp [hname, Ne.symm hc], h⟩

theorem leaves_folders_nil : Leaves rest (.folders :: items) [] ↔ Leaves rest items [] := by
  constructor
  · intro h
    generalize hs : ([] : List Char) = s at h
    cases h with
    | folders names hnames h =>
        obtain ⟨-, rfl⟩ := List.append_eq_nil_iff.1 hs.symm
        rw [← hs]
        exact h
  · exact fun h => .folders [] (by simp) h

theorem leaves_folders_cons {c : Char} :
    Leaves rest (.folders :: items) (c :: s) ↔
      Leaves rest items (c :: s) ∨ c ≠ '/' ∧ Inside rest items s := by
  constructor
  · intro h
    generalize ht : c :: s = t at h
    cases h with
    | @folders _ u names hnames h =>
        cases names with
        | nil => exact .inl h
        | cons name names =>
            obtain ⟨hne, hslash⟩ := hnames name (by simp)
            cases name with
            | nil => exact absurd rfl hne
            | cons d name =>
                simp only [List.flatMap_cons, List.cons_append, List.append_assoc, List.cons.injEq,
                  List.nil_append] at ht
                obtain ⟨rfl, rfl⟩ := ht
                simp only [List.mem_cons, not_or] at hslash
                exact .inr ⟨Ne.symm hslash.1, name, _, rfl, hslash.2,
                  .folders names (fun n hn => hnames n (by simp [hn])) h⟩
  · rintro (h | ⟨hc, name, t, rfl, hname, h⟩)
    · exact .folders [] (by simp) h
    · cases h with
      | @folders _ u names hnames h =>
          have first : Leaves rest (.folders :: items)
              (((c :: name) :: names).flatMap (· ++ ['/']) ++ u) :=
            .folders _ (by simpa [hname, Ne.symm hc] using hnames) h
          simpa using first

end Leaves

/-! ## Rows -/

/-- A row says for every end of a text whether it has a property. -/
inductive IsRow (p : List Char → Prop) : List Char → List Bool → Prop
  | nil {b : Bool} : (b = true ↔ p []) → IsRow p [] [b]
  | cons {b : Bool} {row : List Bool} {c : Char} {s : List Char} :
      (b = true ↔ p (c :: s)) → IsRow p s row → IsRow p (c :: s) (b :: row)

section Rows
variable {p : List Char → Prop} {s : List Char} {row : List Bool} {items : List Item}
  {k : CharClass}

theorem IsRow.headD (h : IsRow p s row) : row.headD false = true ↔ p s := by
  cases h with
  | nil hb => simpa using hb
  | cons hb _ => simpa using hb

theorem isRow_endRow (s : List Char) : IsRow (Fulfils []) s (Regex.endRow s) := by
  induction s with
  | nil => exact .nil (by simp [Fulfils, leaves_nil])
  | cons c s ih => exact .cons (by simp [Fulfils, leaves_nil]) ih

theorem isRow_oneRow (h : IsRow (Fulfils items) s row) :
    IsRow (Fulfils (.one k :: items)) s (Regex.oneRow k s row) := by
  induction h with
  | nil => exact .nil (by simp [Fulfils, leaves_one_nil])
  | @cons b row c s hb hrow ih =>
      have front : Regex.oneRow k (c :: s) (b :: row) =
          (k.mem c && row.headD false) :: Regex.oneRow k s row := by
        cases hrow <;> simp [Regex.oneRow]
      rw [front]
      refine .cons ?_ ih
      rw [Bool.and_eq_true, hrow.headD]
      simp only [Fulfils, leaves_one_cons, and_or_left]

theorem isRow_manyRow (h : IsRow (Fulfils items) s row) :
    IsRow (Fulfils (.many k :: items)) s (Regex.manyRow k s row) := by
  induction h with
  | nil hb => exact .nil (by simpa [Fulfils, leaves_many_nil] using hb)
  | @cons b row c s hb hrow ih =>
      have front : Regex.manyRow k (c :: s) (b :: row) =
          (b || (k.mem c && (Regex.manyRow k s row).headD false)) :: Regex.manyRow k s row := by
        simp [Regex.manyRow]
      rw [front]
      refine .cons ?_ ih
      rw [Bool.or_eq_true, Bool.and_eq_true, hb, ih.headD]
      simp only [Fulfils, leaves_many_cons]
      tauto

/-- The row with folders in front, and beside it whether the expression matches from inside a folder
name on. -/
def foldersRowFrom (s : List Char) (row : List Bool) : List Bool × Bool :=
  (s.zip row).foldr
    (fun (c, here) (later, inside) =>
      if c = '/' then (here :: later, later.headD false) else ((here || inside) :: later, inside))
    (row.drop s.length, false)

theorem isRow_foldersRowFrom (h : IsRow (Fulfils items) s row) :
    IsRow (Fulfils (.folders :: items)) s (foldersRowFrom s row).1 ∧
      ((foldersRowFrom s row).2 = true ↔ Inside [] items s ∨ Inside ['\n'] items s) := by
  induction h with
  | nil hb =>
      refine ⟨.nil (by simpa [Fulfils, leaves_folders_nil] using hb), ?_⟩
      simp [foldersRowFrom, Inside]
  | @cons b row c s hb hrow ih =>
      have front : foldersRowFrom (c :: s) (b :: row) =
          if c = '/' then
            (b :: (foldersRowFrom s row).1, (foldersRowFrom s row).1.headD false)
          else
            ((b || (foldersRowFrom s row).2) :: (foldersRowFrom s row).1, (foldersRowFrom s row).2) := by
        simp [foldersRowFrom]
      rw [front]
      simp only [inside_cons]
      split
      · rename_i hc
        refine ⟨.cons ?_ ih.1, ih.1.headD⟩
        rw [hb]
        simp [Fulfils, leaves_folders_cons, hc]
      · rename_i hc
        refine ⟨.cons ?_ ih.1, ih.2⟩
        rw [Bool.or_eq_true, hb, ih.2]
        simp only [Fulfils, leaves_folders_cons]
        tauto

theorem isRow_row (s : List Char) (items : List Item) :
    IsRow (Fulfils items) s (Regex.row s items) := by
  induction items with
  | nil => exact isRow_endRow s
  | cons item items ih =>
      cases item with
      | one k => exact isRow_oneRow ih
      | many k => exact isRow_manyRow ih
      | folders => exact (isRow_foldersRowFrom ih).1

theorem accepts_iff (items : List Item) (s : List Char) :
    Regex.accepts items s = true ↔ Fulfils items s :=
  (isRow_row s items).headD

end Rows

end LayerLint.Glob
