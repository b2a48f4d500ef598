import LayerLint.Glob
import LayerLint.Proofs.Glob.Reading

/-!
# What a pattern selects

A pattern without choices means what its segments mean, one after the other. `Fits` is the meaning of
one segment as it is written, `SegmentsFit` that of all segments and `Meets` that of the whole
pattern. A glob selects the paths that meet one of the patterns its choices stand for:
`compile_exact`. Only a pattern whose choices lie too deep inside each other is refused.
-/

namespace LayerLint.Glob

/-! ## The meaning of segments -/

/-- A segment as it is written fits a text without slashes. -/
inductive Fits : List Char → List Char → Prop
  | nil : Fits [] []
  /-- A run of asterisks. -/
  | stars {rest s : List Char} (n : Nat) (run : List Char) : rest.head? ≠ some '*' → '/' ∉ run →
      Fits rest s → Fits (List.replicate (n + 1) '*' ++ rest) (run ++ s)
  | any {c : Char} {rest s : List Char} : c ≠ '/' → Fits rest s → Fits ('?' :: rest) (c :: s)
  | listed {c : Char} {members rest s : List Char} : IsPlainSet members → c ∈ members →
      Fits rest s → Fits ('[' :: members ++ ']' :: rest) (c :: s)
  | itself {c : Char} {rest s : List Char} : c ≠ '*' → c ≠ '?' → c ≠ '[' →
      Fits rest s → Fits (c :: rest) (c :: s)

/-- Segments as they are written, in order, fit a path. -/
inductive SegmentsFit : List (List Char) → List Char → Prop
  | nil : SegmentsFit [] []
  | lastDepth (s : List Char) : SegmentsFit [['*', '*']] s
  | lastName {segment s : List Char} : segment ≠ ['*', '*'] → '/' ∉ s → Fits segment s →
      SegmentsFit [segment] s
  | depth {segments : List (List Char)} {s : List Char} (names : List (List Char)) :
      segments ≠ [] → (∀ name ∈ names, name ≠ [] ∧ '/' ∉ name) → SegmentsFit segments s →
        SegmentsFit (['*', '*'] :: segments) (names.flatMap (· ++ ['/']) ++ s)
  | name {segment piece s : List Char} {segments : List (List Char)} : segment ≠ ['*', '*'] →
      segments ≠ [] → '/' ∉ piece → Fits segment piece → SegmentsFit segments s →
        SegmentsFit (segment :: segments) (piece ++ '/' :: s)

/-- What is left of a pattern with slashes only, without `./` as often as it stands at the front and
then without the slashes at the front. -/
def Strips (p body : List Char) : Prop :=
  ∃ n m,
    p.map (fun c => if c = '\\' then '/' else c) =
        (List.replicate n ['.', '/']).flatten ++ (List.replicate m '/' ++ body) ∧
      ¬ ['.', '/'] <+: List.replicate m '/' ++ body ∧ ¬ ['/'] <+: body

/-- A pattern without choices fits a path. -/
def Meets (p s : List Char) : Prop :=
  ∃ body, Strips p body ∧ SegmentsFit ((body.splitOn '/').filter (· ≠ [])) s

/-- Every opening bracket starts a plain set. -/
def PlainSets (p : List Char) : Prop :=
  ∀ before after, p = before ++ '[' :: after →
    ∃ members rest, after = members ++ ']' :: rest ∧ IsPlainSet members

/-! ## Classes of characters -/

theorem CharClass.mem_single {c d : Char} : (CharClass.single d).mem c = true ↔ c = d := by
  simp only [CharClass.mem, CharClass.single, List.any_cons, List.any_nil, Bool.or_false,
    Bool.bne_false, Bool.and_eq_true, decide_eq_true_eq]
  exact ⟨fun h => Char.le_antisymm h.2 h.1, fun h => h ▸ ⟨Char.le_refl _, Char.le_refl _⟩⟩

theorem CharClass.mem_notSlash {c : Char} : CharClass.notSlash.mem c = true ↔ c ≠ '/' := by
  have := CharClass.mem_single (c := c) (d := '/')
  simp only [CharClass.mem, CharClass.single, CharClass.notSlash, Bool.bne_false,
    bne_iff_ne, ne_eq] at this ⊢
  rw [← this]

theorem CharClass.mem_notBreak {c : Char} : CharClass.notBreak.mem c = true ↔ c ≠ '\n' := by
  have := CharClass.mem_single (c := c) (d := '\n')
  simp only [CharClass.mem, CharClass.single, CharClass.notBreak, Bool.bne_false,
    bne_iff_ne, ne_eq] at this ⊢
  rw [← this]

theorem CharClass.mem_members {members : List Char} {c : Char} :
    CharClass.mem ⟨false, members.map fun d => (d, d)⟩ c = true ↔ c ∈ members := by
  simp only [CharClass.mem, Bool.bne_false, List.any_map, List.any_eq_true, Function.comp_def,
    Bool.and_eq_true, decide_eq_true_eq]
  constructor
  · rintro ⟨d, hd, low, high⟩
    exact Char.le_antisymm low high ▸ hd
  · exact fun h => ⟨c, h, Char.le_refl c, Char.le_refl c⟩

/-! ## Plain sets -/

theorem PlainSets.of_suffix {p q : List Char} (h : PlainSets p) (suffix : q <:+ p) :
    PlainSets q := by
  obtain ⟨front, rfl⟩ := suffix
  rintro before after rfl
  exact h (front ++ before) after (by simp)

theorem IsPlainSet.bracket_not_mem {members : List Char} (h : IsPlainSet members) :
    ']' ∉ members :=
  fun mem => (h.2 ']' mem).isOrdinary.2.1 rfl

theorem IsPlainSet.slash_not_mem {members : List Char} (h : IsPlainSet members) :
    '/' ∉ members :=
  fun mem => (h.2 '/' mem).ne (by decide) (by decide) rfl

theorem cutAt?_eq_some_iff {sep : Char} {cs before rest : List Char} :
    Text.cutAt? sep cs = some (before, rest) ↔ cs = before ++ sep :: rest ∧ sep ∉ before := by
  unfold Text.cutAt?
  constructor
  · intro h
    split at h
    · cases h
    · rename_i c tail heq
      obtain ⟨rfl, rfl⟩ := Prod.mk.inj (Option.some.inj h)
      have hc : c = sep := by
        have := List.head?_dropWhile_not (· != sep) cs
        simpa [heq] using this
      constructor
      · rw [hc] at heq
        rw [← heq, List.takeWhile_append_dropWhile]
      · intro mem
        simpa using List.all_eq_true.1 List.all_takeWhile sep mem
  · rintro ⟨rfl, free⟩
    have inside : ∀ c ∈ before, (c != sep) = true := by
      intro c hc
      rw [bne_iff_ne]
      rintro rfl
      exact free hc
    rw [List.dropWhile_append_of_pos inside, List.takeWhile_append_of_pos inside]
    simp

theorem readSet?_plain {members : List Char} (h : IsPlainSet members) (rest : List Char) :
    readSet? (members ++ ']' :: rest) = some (.oneOf members, rest) := by
  have cut : Text.cutAt? ']' (members ++ ']' :: rest) = some (members, rest) :=
    cutAt?_eq_some_iff.2 ⟨rfl, h.bracket_not_mem⟩
  cases members with
  | nil => exact absurd rfl h.1
  | cons c members =>
      have hc := h.2 c (by simp)
      have noMark : ¬ (c = '!' ∨ c = '^') := by
        rintro (h | h)
        · exact hc.ne (by decide) (by decide) h
        · exact hc.ne (by decide) (by decide) h
      rw [List.cons_append, readSet?, if_neg noMark, ← List.cons_append, cut]
      rfl

instance (c : Char) : Decidable (IsPlainMember c) :=
  inferInstanceAs (Decidable (_ ∨ _))

instance (members : List Char) : Decidable (IsPlainSet members) :=
  @instDecidableAnd _ _ inferInstance (List.decidableBAll IsPlainMember members)

def hasPlainSets : List Char → Bool
  | [] => true
  | c :: cs =>
      (c ≠ '[' || (Text.cutAt? ']' cs).any fun (members, _) => decide (IsPlainSet members))
        && hasPlainSets cs

theorem hasPlainSets_iff {p : List Char} : hasPlainSets p = true ↔ PlainSets p := by
  induction p with
  | nil => simp [hasPlainSets, PlainSets]
  | cons c cs ih =>
      rw [hasPlainSets, Bool.and_eq_true, ih]
      constructor
      · rintro ⟨front, back⟩ before after heq
        cases before with
        | nil =>
            obtain ⟨rfl, rfl⟩ := List.cons.inj heq
            obtain ⟨⟨members, rest⟩, hcut, set⟩ : ∃ cut, Text.cutAt? ']' cs = some cut ∧
                IsPlainSet cut.1 := by simpa [Option.any_eq_true] using front
            exact ⟨members, rest, (cutAt?_eq_some_iff.1 hcut).1, set⟩
        | cons d before => exact back before after (List.cons.inj heq).2
      · intro h
        refine ⟨?_, h.of_suffix (List.suffix_cons ..)⟩
        by_cases hc : c = '['
        · subst hc
          obtain ⟨members, rest, rfl, set⟩ := h [] cs rfl
          rw [cutAt?_eq_some_iff.2 ⟨rfl, set.bracket_not_mem⟩]
          simpa using set
        · simp [hc]

instance (p : List Char) : Decidable (PlainSets p) :=
  decidable_of_iff _ hasPlainSets_iff

theorem readPieces_plain {segment : List Char} (h : PlainSets segment) :
    ∀ piece ∈ readPieces segment, piece.IsPlain := by
  fun_induction readPieces segment with
  | case1 => simp
  | case2 cs ih =>
      have rest := ih (h.of_suffix ((List.dropWhile_suffix _).trans (List.suffix_cons ..)))
      simpa [Piece.IsPlain] using rest
  | case3 cs _ ih =>
      have rest := ih (h.of_suffix (List.suffix_cons ..))
      simpa [Piece.IsPlain] using rest
  | case4 cs piece rest hset _ _ ih =>
      obtain ⟨members, after, rfl, plain⟩ := h [] cs rfl
      rw [readSet?_plain plain] at hset
      obtain ⟨rfl, rfl⟩ := Prod.mk.inj (Option.some.inj hset)
      have rest := ih (h.of_suffix ⟨'[' :: members ++ [']'], by simp⟩)
      simpa [Piece.IsPlain, plain] using rest
  | case5 cs hset =>
      obtain ⟨members, after, rfl, plain⟩ := h [] cs rfl
      rw [readSet?_plain plain] at hset
      cases hset
  | case6 c cs _ _ _ ih =>
      have rest := ih (h.of_suffix (List.suffix_cons ..))
      simpa [Piece.IsPlain] using rest

/-! ## Runs of one character -/

theorem replicate_append_dropWhile (d : Char) (cs : List Char) :
    List.replicate (cs.takeWhile (· == d)).length d ++ cs.dropWhile (· == d) = cs := by
  have run : cs.takeWhile (· == d) = List.replicate (cs.takeWhile (· == d)).length d :=
    List.eq_replicate_iff.2 ⟨rfl, fun c hc => by simpa using List.all_eq_true.1 List.all_takeWhile c hc⟩
  rw [← run, List.takeWhile_append_dropWhile]

theorem head?_dropWhile_ne (d : Char) (cs : List Char) :
    (cs.dropWhile (· == d)).head? ≠ some d := by
  intro head
  have := List.head?_dropWhile_not (· == d) cs
  rw [head] at this
  simp at this

theorem dropWhile_of_head?_ne {d : Char} {cs : List Char} (h : cs.head? ≠ some d) :
    cs.dropWhile (· == d) = cs := by
  cases cs with
  | nil => rfl
  | cons c cs => exact List.dropWhile_cons_of_neg (by simpa using h)

theorem dropWhile_replicate_append (n : Nat) {d : Char} {cs : List Char} (h : cs.head? ≠ some d) :
    (List.replicate n d ++ cs).dropWhile (· == d) = cs := by
  have run : ∀ c ∈ List.replicate n d, (c == d) = true := by simp
  rw [List.dropWhile_append_of_pos run, dropWhile_of_head?_ne h]

/-! ## Segments by their first piece -/

theorem fits_nil {s : List Char} : Fits [] s ↔ s = [] := by
  constructor
  · intro h
    generalize hp : ([] : List Char) = p at h
    cases h with
    | nil => rfl
    | stars n run => simp [List.replicate_succ] at hp
    | any | itself => cases hp
    | listed => cases hp
  · rintro rfl
    exact .nil

theorem fits_stars {cs s : List Char} :
    Fits ('*' :: cs) s ↔
      ∃ run t, s = run ++ t ∧ '/' ∉ run ∧ Fits (cs.dropWhile (· == '*')) t := by
  constructor
  · intro h
    generalize hp : '*' :: cs = p at h
    cases h with
    | nil => cases hp
    | @stars rest t n run head free h =>
        rw [List.replicate_succ, List.cons_append] at hp
        obtain ⟨-, rfl⟩ := List.cons.inj hp
        rw [dropWhile_replicate_append n head]
        exact ⟨run, t, rfl, free, h⟩
    | any => simp at hp
    | listed => simp at hp
    | itself star => exact absurd (List.cons.inj hp).1.symm star
  · rintro ⟨run, t, rfl, free, h⟩
    have split : '*' :: cs = List.replicate ((cs.takeWhile (· == '*')).length + 1) '*'
        ++ cs.dropWhile (· == '*') := by
      rw [List.replicate_succ, List.cons_append, replicate_append_dropWhile]
    rw [split]
    exact .stars _ run (head?_dropWhile_ne '*' cs) free h

theorem fits_any {cs s : List Char} :
    Fits ('?' :: cs) s ↔ ∃ c t, s = c :: t ∧ c ≠ '/' ∧ Fits cs t := by
  constructor
  · intro h
    generalize hp : '?' :: cs = p at h
    cases h with
    | nil => cases hp
    | stars n run => simp [List.replicate_succ] at hp
    | any hc h =>
        obtain ⟨-, rfl⟩ := List.cons.inj hp
        exact ⟨_, _, rfl, hc, h⟩
    | listed => simp at hp
    | itself _ mark => exact absurd (List.cons.inj hp).1.symm mark
  · rintro ⟨c, t, rfl, hc, h⟩
    exact .any hc h

theorem fits_listed {members rest s : List Char} (plain : IsPlainSet members) :
    Fits ('[' :: members ++ ']' :: rest) s ↔ ∃ c t, s = c :: t ∧ c ∈ members ∧ Fits rest t := by
  constructor
  · intro h
    generalize hp : '[' :: members ++ ']' :: rest = p at h
    cases h with
    | nil => cases hp
    | stars n run => simp [List.replicate_succ] at hp
    | any => simp at hp
    | @listed c members' rest' t plain' hc h =>
        -- Both sets end at the first closing bracket.
        have tails : members ++ ']' :: rest = members' ++ ']' :: rest' := (List.cons.inj hp).2
        have hset := readSet?_plain plain rest
        rw [tails, readSet?_plain plain'] at hset
        obtain ⟨hmembers, rfl⟩ := Prod.mk.inj (Option.some.inj hset)
        obtain rfl := Piece.oneOf.inj hmembers
        exact ⟨c, t, rfl, hc, h⟩
    | itself _ _ bracket => exact absurd (List.cons.inj hp).1.symm bracket
  · rintro ⟨c, t, rfl, hc, h⟩
    exact .listed plain hc h

theorem fits_itself {c : Char} {cs s : List Char} (star : c ≠ '*') (mark : c ≠ '?')
    (bracket : c ≠ '[') : Fits (c :: cs) s ↔ ∃ t, s = c :: t ∧ Fits cs t := by
  constructor
  · intro h
    generalize hp : c :: cs = p at h
    cases h with
    | nil => cases hp
    | stars n run =>
        rw [List.replicate_succ, List.cons_append] at hp
        exact absurd (List.cons.inj hp).1 star
    | any => exact absurd (List.cons.inj hp).1 mark
    | listed => exact absurd (List.cons.inj hp).1 bracket
    | itself _ _ _ h =>
        obtain ⟨rfl, rfl⟩ := List.cons.inj hp
        exact ⟨_, rfl, h⟩
  · rintro ⟨t, rfl, h⟩
    exact .itself star mark bracket h

/-- A segment fits what its pieces use up. -/
theorem fits_iff {segment : List Char} (plain : PlainSets segment) (s : List Char) :
    Fits segment s ↔ Leaves [] ((readPieces segment).map Piece.item) s := by
  fun_induction readPieces segment generalizing s with
  | case1 => simp [fits_nil, leaves_nil]
  | case2 cs ih =>
      have ih := ih (plain.of_suffix ((List.dropWhile_suffix _).trans (List.suffix_cons ..)))
      rw [fits_stars, List.map_cons]
      constructor
      · rintro ⟨run, t, rfl, free, h⟩
        refine .many run (fun c hc => CharClass.mem_notSlash.2 ?_) ((ih t).1 h)
        rintro rfl
        exact free hc
      · intro h
        cases h with
        | many run hrun h =>
            exact ⟨run, _, rfl, fun hc => CharClass.mem_notSlash.1 (hrun _ hc) rfl, (ih _).2 h⟩
  | case3 cs _ ih =>
      have ih := ih (plain.of_suffix (List.suffix_cons ..))
      rw [fits_any, List.map_cons]
      constructor
      · rintro ⟨c, t, rfl, hc, h⟩
        exact .one (CharClass.mem_notSlash.2 hc) ((ih t).1 h)
      · intro h
        cases h with
        | one hc h => exact ⟨_, _, rfl, CharClass.mem_notSlash.1 hc, (ih _).2 h⟩
  | case4 cs piece rest hset _ _ ih =>
      obtain ⟨members, after, rfl, set⟩ := plain [] cs rfl
      rw [readSet?_plain set] at hset
      obtain ⟨rfl, rfl⟩ := Prod.mk.inj (Option.some.inj hset)
      have ih := ih (plain.of_suffix ⟨'[' :: members ++ [']'], by simp⟩)
      rw [← List.cons_append, fits_listed set, List.map_cons]
      constructor
      · rintro ⟨c, t, rfl, hc, h⟩
        exact .one (CharClass.mem_members.2 hc) ((ih t).1 h)
      · intro h
        cases h with
        | one hc h => exact ⟨_, _, rfl, CharClass.mem_members.1 hc, (ih _).2 h⟩
  | case5 cs hset =>
      obtain ⟨members, after, rfl, set⟩ := plain [] cs rfl
      rw [readSet?_plain set] at hset
      cases hset
  | case6 c cs star mark bracket ih =>
      have ih := ih (plain.of_suffix (List.suffix_cons ..))
      rw [fits_itself star mark bracket, List.map_cons]
      constructor
      · rintro ⟨t, rfl, h⟩
        exact .one (CharClass.mem_single.2 rfl) ((ih t).1 h)
      · intro h
        cases h with
        | one hc h =>
            obtain rfl := CharClass.mem_single.1 hc
            exact ⟨_, rfl, (ih _).2 h⟩

theorem Fits.slash_not_mem {segment s : List Char} (h : Fits segment s) (free : '/' ∉ segment) :
    '/' ∉ s := by
  induction h with
  | nil => simp
  | stars n run _ hrun _ ih =>
      have := ih (by simp_all)
      simp [hrun, this]
  | any hc _ ih =>
      have := ih (by simp_all)
      simp [Ne.symm hc, this]
  | listed set hc _ ih =>
      have := ih (by simp_all)
      simp only [List.mem_cons, this, or_false]
      rintro rfl
      exact set.slash_not_mem hc
  | itself _ _ _ _ ih =>
      simp only [List.mem_cons, not_or] at free ⊢
      exact ⟨free.1, ih free.2⟩

end LayerLint.Glob
