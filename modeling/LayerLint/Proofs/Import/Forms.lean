import LayerLint.Import.Statement

/-!
# Statement forms

What import statements look like, part by part. `IsStatement` says that a text is a statement with a
target. A longer text may start with several statements, and `Takes` says which of them is taken.
Reading a statement takes that one (`statement?_eq_some_iff`), and it takes one whenever the text
starts with one (`exists_statement?_iff`).
-/

namespace LayerLint.Import

/-! ## Parts of statements -/

def IsSpace (cs : List Char) : Prop := ∀ c ∈ cs, Text.isBlank c = true

def IsGap (cs : List Char) : Prop := cs ≠ [] ∧ IsSpace cs

/-- A run of name characters that goes on neither before nor after. -/
structure IsName (before name after : List Char) : Prop where
  ne_nil : name ≠ []
  all : ∀ c ∈ name, isNameChar c = true
  starts : ∀ c ∈ before.getLast?, isNameChar c = false
  ends : ∀ c ∈ after.head?, isNameChar c = false

inductive IsQuoted : List Char → List Char → Prop
  /-- The two quotes may differ. -/
  | mk {q r : Char} {target : List Char} : isQuote q = true → isQuote r = true → target ≠ [] →
      (∀ c ∈ target, isQuote c = false) → IsQuoted (q :: target ++ [r]) target

/-! ## Forms -/

inductive IsNamed (keyword : List Char) : List Char → List Char → Prop
  | mk {gap target space : List Char} : IsGap gap → IsName gap target (space ++ [';']) →
      IsSpace space → IsNamed keyword (keyword ++ gap ++ target ++ space ++ [';']) target

inductive IsRequired : List Char → List Char → Prop
  | mk {before inside quoted after target : List Char} : IsSpace before → IsSpace inside →
      IsQuoted quoted target → IsSpace after →
      IsRequired ("require".toList ++ before ++ ['('] ++ inside ++ quoted ++ after ++ [')']) target

/-- What stands behind the clause of an import. -/
inductive IsSource : List Char → List Char → Prop
  | mk {before after quoted target : List Char} : IsGap before → IsGap after →
      IsQuoted quoted target → IsSource (before ++ "from".toList ++ after ++ quoted) target

inductive IsImported (lead clause : List Char) : List Char → List Char → Prop
  | mk {source target : List Char} : IsGap lead → '\n' ∉ clause → IsSource source target →
      IsImported lead clause ("import".toList ++ lead ++ clause ++ source) target

inductive IsStatement : Language → List Char → List Char → Prop
  | java {s target : List Char} : IsNamed "import".toList s target → IsStatement .java s target
  | csharp {s target : List Char} : IsNamed "using".toList s target → IsStatement .csharp s target
  | required {s target : List Char} : IsRequired s target → IsStatement .typescript s target
  | imported {lead clause s target : List Char} : IsImported lead clause s target →
      IsStatement .typescript s target

theorem IsNamed.front {keyword s target : List Char} (h : IsNamed keyword s target) :
    keyword <+: s := by
  obtain ⟨-, -, -⟩ := h
  simp only [List.append_assoc]
  exact List.prefix_append _ _

theorem IsRequired.front {s target : List Char} (h : IsRequired s target) : "require".toList <+: s := by
  obtain ⟨-, -, -, -⟩ := h
  simp only [List.append_assoc]
  exact List.prefix_append _ _

theorem IsImported.front {lead clause s target : List Char} (h : IsImported lead clause s target) :
    "import".toList <+: s := by
  obtain ⟨-, -, -⟩ := h
  simp only [List.append_assoc]
  exact List.prefix_append _ _

/-- Whether a text starts with a statement. -/
def Starts (language : Language) (cs : List Char) : Prop :=
  ∃ s target, s <+: cs ∧ IsStatement language s target

/-- A longer lead is better, and with the same lead a shorter clause. -/
def Precedes (lead clause lead' clause' : List Char) : Prop :=
  lead'.length < lead.length ∨ lead'.length = lead.length ∧ clause.length ≤ clause'.length

/-- The statement that is taken from the front of a text, with its target and the text behind it. -/
inductive Takes : Language → List Char → List Char → List Char → Prop
  | java {s target rest : List Char} : IsNamed "import".toList s target →
      Takes .java (s ++ rest) target rest
  | csharp {s target rest : List Char} : IsNamed "using".toList s target →
      Takes .csharp (s ++ rest) target rest
  | required {s target rest : List Char} : IsRequired s target →
      Takes .typescript (s ++ rest) target rest
  | imported {lead clause s target rest : List Char} : IsImported lead clause s target →
      (∀ lead' clause' s' target', IsImported lead' clause' s' target' → s' <+: s ++ rest →
        Precedes lead clause lead' clause') →
      Takes .typescript (s ++ rest) target rest

/-! ## Characters -/

theorem isAlphanum_le {c : Char} (h : c.isAlphanum = true) : '0'.toNat ≤ c.toNat := by
  have upper : '0'.val.toNat ≤ 'A'.val.toNat := by decide
  have lower : '0'.val.toNat ≤ 'a'.val.toNat := by decide
  unfold Char.isAlphanum Char.isAlpha Char.isUpper Char.isLower Char.isDigit at h
  simp only [Bool.or_eq_true, Bool.and_eq_true, decide_eq_true_eq, ge_iff_le,
    UInt32.le_iff_toNat_le] at h
  unfold Char.toNat
  omega

theorem isNameChar_of_isBlank {c : Char} (h : Text.isBlank c = true) : isNameChar c = false := by
  have apart : ∀ blank ∈ Text.blankRanges, ∀ word ∈ Text.wordRanges,
      blank.2 < word.1 ∨ word.2 < blank.1 := by decide +kernel
  have early : ∀ blank ∈ Text.blankRanges, blank.2 < 46 ∨ 128 ≤ blank.1 := by decide
  obtain ⟨blank, mem, inside⟩ := List.any_eq_true.1 h
  simp only [Bool.and_eq_true, decide_eq_true_eq] at inside
  have early := early blank mem
  rw [isNameChar, Bool.or_eq_false_iff, decide_eq_false_iff_not, Text.isWord]
  constructor
  · split
    · rw [Bool.or_eq_false_iff, beq_eq_false_iff_ne]
      constructor
      · apply Bool.eq_false_iff.2
        intro alphanum
        have : 48 ≤ c.toNat := isAlphanum_le alphanum
        omega
      · rintro rfl
        have : '_'.toNat = 95 := rfl
        omega
    · rw [List.any_eq_false]
      intro word mem' inside'
      simp only [Bool.and_eq_true, decide_eq_true_eq] at inside'
      have := apart blank mem word mem'
      omega
  · rintro rfl
    have : '.'.toNat = 46 := rfl
    omega

theorem isBlank_of_isNameChar {c : Char} (h : isNameChar c = true) : Text.isBlank c = false := by
  apply Bool.eq_false_iff.2
  intro blank
  rw [isNameChar_of_isBlank blank] at h
  cases h

theorem isBlank_of_isQuote {c : Char} (h : isQuote c = true) : Text.isBlank c = false := by
  simp only [isQuote, Bool.or_eq_true, decide_eq_true_eq] at h
  rcases h with rfl | rfl <;> decide

/-! ## Runs of characters -/

theorem head_dropWhile (p : Char → Bool) (cs : List Char) :
    ∀ c ∈ (cs.dropWhile p).head?, p c = false := by
  intro c mem
  have := List.head?_dropWhile_not p cs
  rw [Option.mem_def.1 mem] at this
  simpa using this

theorem dropWhile_run {p : Char → Bool} {run rest : List Char} (all : ∀ c ∈ run, p c = true)
    (stop : ∀ c ∈ rest.head?, p c = false) : (run ++ rest).dropWhile p = rest := by
  rw [List.dropWhile_append_of_pos all]
  cases rest with
  | nil => rfl
  | cons c rest => rw [List.dropWhile_cons_of_neg (by simp [stop c rfl])]

theorem takeWhile_run {p : Char → Bool} {run rest : List Char} (all : ∀ c ∈ run, p c = true)
    (stop : ∀ c ∈ rest.head?, p c = false) : (run ++ rest).takeWhile p = run := by
  rw [List.takeWhile_append_of_pos all]
  cases rest with
  | nil => simp
  | cons c rest => rw [List.takeWhile_cons_of_neg (by simp [stop c rfl]), List.append_nil]

theorem takeWhile_all (p : Char → Bool) (cs : List Char) : ∀ c ∈ cs.takeWhile p, p c = true :=
  List.all_eq_true.1 List.all_takeWhile

theorem dropFront?_eq_some_iff {front cs rest : List Char} :
    Text.dropFront? front cs = some rest ↔ cs = front ++ rest := by
  constructor
  · exact Text.eq_append_of_dropFront?
  · rintro rfl
    induction front with
    | nil => rfl
    | cons c front ih => simpa [Text.dropFront?] using ih

theorem blanks?_eq_some_iff {cs rest : List Char} :
    blanks? cs = some rest ↔
      ∃ gap, cs = gap ++ rest ∧ IsGap gap ∧ ∀ c ∈ rest.head?, Text.isBlank c = false := by
  unfold blanks?
  constructor
  · intro h
    split at h
    · cases h
    · rename_i some_blank
      obtain rfl := Option.some.inj h
      refine ⟨cs.takeWhile Text.isBlank, List.takeWhile_append_dropWhile.symm, ⟨?_, ?_⟩, ?_⟩
      · intro none
        exact some_blank (List.isEmpty_iff.2 none)
      · exact takeWhile_all _ cs
      · exact head_dropWhile _ cs
  · rintro ⟨gap, rfl, ⟨ne, space⟩, stop⟩
    rw [takeWhile_run space stop, dropWhile_run space stop, if_neg]
    exact fun none => ne (List.isEmpty_iff.1 none)

/-! ## Reading parts -/

theorem quotedTarget?_eq_some_iff {cs target rest : List Char} :
    quotedTarget? cs = some (target, rest) ↔ ∃ quoted, cs = quoted ++ rest ∧ IsQuoted quoted target := by
  constructor
  · intro h
    cases cs with
    | nil => cases h
    | cons q cs =>
        rw [quotedTarget?] at h
        split at h
        · rename_i hq
          split at h
          · cases h
          · cases h
          · rename_i r after drop ne
            cases h
            have hr := head_dropWhile (!isQuote ·) cs r (by rw [drop]; rfl)
            refine ⟨_, ?_, .mk hq (by simpa using hr) ne ?_⟩
            · have whole := List.takeWhile_append_dropWhile (p := (!isQuote ·)) (l := cs)
              rw [drop] at whole
              simpa using whole.symm
            · intro c mem
              simpa using takeWhile_all _ cs c mem
        · cases h
  · rintro ⟨quoted, rfl, ⟨hq, hr, ne, free⟩⟩
    rename_i q r
    have all : ∀ c ∈ target, (!isQuote c) = true := fun c mem => by simp [free c mem]
    have stop : ∀ c ∈ (r :: rest).head?, (!isQuote c) = false := by simp [hr]
    have text : q :: target ++ [r] ++ rest = q :: (target ++ r :: rest) := by simp
    rw [text, quotedTarget?, if_pos hq, takeWhile_run all stop, dropWhile_run all stop]
    cases target with
    | nil => exact absurd rfl ne
    | cons c target => rfl

theorem IsQuoted.head {quoted target : List Char} (h : IsQuoted quoted target) (rest : List Char) :
    ∀ c ∈ (quoted ++ rest).head?, Text.isBlank c = false := by
  obtain ⟨hq, -, -, -⟩ := h
  intro c mem
  obtain rfl := Option.some.inj mem
  exact isBlank_of_isQuote hq

theorem fromTarget?_eq_some_iff {cs target rest : List Char} :
    fromTarget? cs = some (target, rest) ↔ ∃ source, cs = source ++ rest ∧ IsSource source target := by
  simp only [fromTarget?, Option.bind_eq_bind, Option.bind_eq_some_iff, blanks?_eq_some_iff,
    dropFront?_eq_some_iff, quotedTarget?_eq_some_iff]
  constructor
  · rintro ⟨_, ⟨before, rfl, gap, -⟩, _, rfl, _, ⟨after, rfl, gap', -⟩, quoted, rfl, hquoted⟩
    exact ⟨_, by simp only [List.append_assoc], .mk gap gap' hquoted⟩
  · rintro ⟨source, rfl, hsource⟩
    obtain @⟨before, after, quoted, _, gap, gap', hquoted⟩ := hsource
    refine ⟨_, ⟨before, ?_, gap, ?_⟩, _, rfl, _, ⟨after, rfl, gap', hquoted.head rest⟩, quoted, rfl,
      hquoted⟩
    · simp only [List.append_assoc]
    · intro c mem
      obtain rfl : 'f' = c := Option.some.inj mem
      decide

theorem IsSource.read {source target : List Char} (h : IsSource source target) (rest : List Char) :
    fromTarget? (source ++ rest) = some (target, rest) :=
  fromTarget?_eq_some_iff.2 ⟨source, rfl, h⟩

/-! ## Dotted names -/

theorem name_ends {space rest : List Char} (h : IsSpace space) :
    ∀ c ∈ (space ++ ';' :: rest).head?, isNameChar c = false := by
  intro c mem
  cases space with
  | nil =>
      obtain rfl : ';' = c := Option.some.inj mem
      decide
  | cons blank space =>
      obtain rfl : blank = c := Option.some.inj mem
      exact isNameChar_of_isBlank (h blank (by simp))

theorem isNamed_mk {keyword gap target space : List Char} (gap_ok : IsGap gap) (ne : target ≠ [])
    (all : ∀ c ∈ target, isNameChar c = true) (space_ok : IsSpace space) :
    IsNamed keyword (keyword ++ gap ++ target ++ space ++ [';']) target := by
  refine .mk gap_ok ⟨ne, all, ?_, name_ends space_ok⟩ space_ok
  intro c mem
  exact isNameChar_of_isBlank (gap_ok.2 c (List.mem_of_getLast? mem))

theorem dottedStatement?_eq_some_iff {keyword cs target rest : List Char} :
    dottedStatement? keyword cs = some (target, rest) ↔
      ∃ s, cs = s ++ rest ∧ IsNamed keyword s target := by
  simp only [dottedStatement?, Option.bind_eq_bind, Option.bind_eq_some_iff, blanks?_eq_some_iff,
    dropFront?_eq_some_iff]
  constructor
  · rintro ⟨_, rfl, after, ⟨gap, rfl, gap_ok, -⟩, h⟩
    split at h
    · cases h
    · rename_i ne
      split at h
      · rename_i behind drop
        cases h
        refine ⟨_, ?_, isNamed_mk gap_ok (mt List.isEmpty_iff.2 ne) (takeWhile_all _ after)
          (takeWhile_all _ (after.dropWhile isNameChar))⟩
        have parts : after = after.takeWhile isNameChar ++
            ((after.dropWhile isNameChar).takeWhile Text.isBlank ++ ';' :: rest) := by
          rw [← drop, List.takeWhile_append_dropWhile, List.takeWhile_append_dropWhile]
        exact (congrArg (fun cs => keyword ++ (gap ++ cs)) parts).trans (by simp)
      · cases h
  · rintro ⟨s, rfl, @⟨gap, _, space, gap_ok, ⟨ne, all, -, -⟩, space_ok⟩⟩
    have stop : ∀ c ∈ (target ++ (space ++ ';' :: rest)).head?, Text.isBlank c = false := by
      intro c mem
      obtain ⟨first, name, rfl⟩ := List.exists_cons_of_ne_nil ne
      obtain rfl : first = c := Option.some.inj mem
      exact isBlank_of_isNameChar (all first (by simp))
    refine ⟨_, ?_, _, ⟨gap, rfl, gap_ok, stop⟩, ?_⟩
    · simp
    · rw [takeWhile_run all (name_ends space_ok), dropWhile_run all (name_ends space_ok),
        dropWhile_run space_ok (by simp; decide), if_neg (mt List.isEmpty_iff.1 ne)]
      rfl

/-! ## Required modules -/

theorem requireStatement?_eq_some_iff {cs target rest : List Char} :
    requireStatement? cs = some (target, rest) ↔ ∃ s, cs = s ++ rest ∧ IsRequired s target := by
  simp only [requireStatement?, Option.bind_eq_bind, Option.bind_eq_some_iff, dropFront?_eq_some_iff]
  constructor
  · rintro ⟨after, rfl, h⟩
    split at h
    · rename_i inner opened
      obtain ⟨⟨target', behind⟩, hquoted, h⟩ := Option.bind_eq_some_iff.1 h
      split at h
      · rename_i rest' closed
        cases h
        obtain ⟨quoted, text, hquoted⟩ := quotedTarget?_eq_some_iff.1 hquoted
        refine ⟨_, ?_, .mk (takeWhile_all _ after) (takeWhile_all _ inner) hquoted
          (takeWhile_all _ behind)⟩
        have parts : after = after.takeWhile Text.isBlank ++ '(' ::
            (inner.takeWhile Text.isBlank ++ (quoted ++ (behind.takeWhile Text.isBlank ++ ')' :: rest))) := by
          rw [← closed, List.takeWhile_append_dropWhile, ← text, List.takeWhile_append_dropWhile,
            ← opened, List.takeWhile_append_dropWhile]
        exact (congrArg ("require".toList ++ ·) parts).trans (by simp)
      · cases h
    · cases h
  · rintro ⟨s, rfl, @⟨before, inside, quoted, after, _, before_ok, inside_ok, hquoted, after_ok⟩⟩
    refine ⟨before ++ '(' :: (inside ++ (quoted ++ (after ++ ')' :: rest))), by simp, ?_⟩
    have read : quotedTarget? (quoted ++ (after ++ ')' :: rest)) = some (target, after ++ ')' :: rest) :=
      quotedTarget?_eq_some_iff.2 ⟨quoted, rfl, hquoted⟩
    have closing : (after ++ ')' :: rest).dropWhile Text.isBlank = ')' :: rest :=
      dropWhile_run after_ok (by simp; decide)
    rw [dropWhile_run before_ok (by simp; decide)]
    simp only [dropWhile_run inside_ok (hquoted.head _), read, Option.bind_some, closing]

/-! ## Imported modules -/

theorem exists_clauseTarget? {clause tail : List Char} (line : '\n' ∉ clause)
    (h : (fromTarget? tail).isSome) : (clauseTarget? (clause ++ tail)).isSome := by
  induction clause with
  | nil =>
      cases tail with
      | nil => cases h
      | cons c tail =>
          obtain ⟨found, hfound⟩ := Option.isSome_iff_exists.1 h
          rw [List.nil_append, clauseTarget?, hfound]
          rfl
  | cons c clause ih =>
      rw [List.cons_append, clauseTarget?]
      split
      · rfl
      · rw [if_neg (fun same => line (by simp [same]))]
        exact ih fun mem => line (by simp [mem])

/-- The clause that is found is the shortest one. -/
theorem clauseTarget?_eq_some {cs : List Char} {found : List Char × List Char}
    (h : clauseTarget? cs = some found) :
    ∃ clause tail, cs = clause ++ tail ∧ '\n' ∉ clause ∧ fromTarget? tail = some found ∧
      ∀ clause' tail', cs = clause' ++ tail' → (fromTarget? tail').isSome →
        clause.length ≤ clause'.length := by
  induction cs with
  | nil => cases h
  | cons c cs ih =>
      rw [clauseTarget?] at h
      split at h
      · rename_i found' here
        obtain rfl := Option.some.inj h
        exact ⟨[], c :: cs, rfl, by simp, here, fun _ _ _ _ => Nat.zero_le _⟩
      · rename_i missing
        split at h
        · cases h
        · rename_i inLine
          obtain ⟨clause, tail, rfl, line, hfound, shortest⟩ := ih h
          refine ⟨c :: clause, tail, rfl, by simp [line, Ne.symm inLine], hfound, ?_⟩
          intro clause' tail' text works
          cases clause' with
          | nil =>
              rw [← List.nil_append tail', ← text, missing] at works
              cases works
          | cons c' clause' =>
              obtain ⟨-, text⟩ := List.cons.inj text
              exact Nat.succ_le_succ (shortest clause' tail' text works)

theorem exists_importTarget? {lead after : List Char} (gap : IsGap lead)
    (h : (clauseTarget? after).isSome) : (importTarget? (lead ++ after)).isSome := by
  obtain ⟨ne, space⟩ := gap
  induction lead with
  | nil => exact absurd rfl ne
  | cons c lead ih =>
      rw [List.cons_append, importTarget?, if_pos (space c (by simp))]
      split
      · rfl
      · rename_i missing
        cases lead with
        | nil => exact h
        | cons c' lead =>
            have := ih (by simp) fun d mem => space d (by simp [mem])
            rw [missing] at this
            cases this

theorem IsGap.front {c : Char} {cs lead after : List Char} (gap : IsGap lead)
    (text : c :: cs = lead ++ after) :
    lead = [c] ∧ cs = after ∨ ∃ more, lead = c :: more ∧ IsGap more ∧ cs = more ++ after := by
  obtain ⟨ne, space⟩ := gap
  cases lead with
  | nil => exact absurd rfl ne
  | cons c' lead =>
      obtain ⟨rfl, rfl⟩ := List.cons.inj text
      by_cases last : lead = []
      · subst last
        exact .inl ⟨rfl, rfl⟩
      · exact .inr ⟨lead, rfl, ⟨last, fun d mem => space d (by simp [mem])⟩, rfl⟩

/-- The lead that is found is the longest one that a clause can follow. -/
theorem importTarget?_eq_some {cs : List Char} {found : List Char × List Char}
    (h : importTarget? cs = some found) :
    ∃ lead after, cs = lead ++ after ∧ IsGap lead ∧ clauseTarget? after = some found ∧
      ∀ lead' after', cs = lead' ++ after' → IsGap lead' → (clauseTarget? after').isSome →
        lead'.length ≤ lead.length := by
  induction cs with
  | nil => cases h
  | cons c cs ih =>
      rw [importTarget?] at h
      split at h
      · rename_i blank
        split at h
        · rename_i found' later
          obtain rfl := Option.some.inj h
          obtain ⟨lead, after, text, ⟨ne, space⟩, hfound, longest⟩ := ih later
          refine ⟨c :: lead, after, by rw [text, List.cons_append],
            ⟨by simp, List.forall_mem_cons.2 ⟨blank, space⟩⟩, hfound, ?_⟩
          intro lead' after' text' gap' works
          obtain ⟨rfl, -⟩ | ⟨more, rfl, gap', text'⟩ := gap'.front text'
          · exact Nat.succ_le_succ (Nat.zero_le _)
          · exact Nat.succ_le_succ (longest more after' text' gap' works)
        · rename_i missing
          refine ⟨[c], cs, rfl, ⟨by simp, by simpa [IsSpace] using blank⟩, h, ?_⟩
          intro lead' after' text' gap' works
          obtain ⟨rfl, -⟩ | ⟨more, rfl, gap', rfl⟩ := gap'.front text'
          · exact Nat.le_refl _
          · -- A longer lead would have been found before.
            have := exists_importTarget? gap' works
            rw [missing] at this
            cases this
      · cases h

theorem importStatement?_eq_some {cs target rest : List Char}
    (h : importStatement? cs = some (target, rest)) :
    ∃ lead clause s, cs = s ++ rest ∧ IsImported lead clause s target ∧
      ∀ lead' clause' s' target', IsImported lead' clause' s' target' → s' <+: cs →
        Precedes lead clause lead' clause' := by
  simp only [importStatement?, Option.bind_eq_bind, Option.bind_eq_some_iff,
    dropFront?_eq_some_iff] at h
  obtain ⟨_, rfl, h⟩ := h
  obtain ⟨lead, after, rfl, gap, hclause, longest⟩ := importTarget?_eq_some h
  obtain ⟨clause, tail, rfl, line, hsource, shortest⟩ := clauseTarget?_eq_some hclause
  obtain ⟨source, rfl, isSource⟩ := fromTarget?_eq_some_iff.1 hsource
  refine ⟨lead, clause, "import".toList ++ lead ++ clause ++ source, by simp, .mk gap line isSource, ?_⟩
  intro lead' clause' s' target' imported front
  obtain ⟨rest', text⟩ := front
  obtain @⟨source', _, gap', line', hsource'⟩ := imported
  have works : (fromTarget? (source' ++ rest')).isSome := by
    rw [hsource'.read]
    rfl
  have text : lead ++ (clause ++ (source ++ rest)) = lead' ++ (clause' ++ (source' ++ rest')) := by
    simpa using text.symm
  have le := longest lead' _ text gap' (exists_clauseTarget? line' works)
  rcases Nat.lt_or_eq_of_le le with lt | same
  · exact .inl lt
  · obtain ⟨-, text⟩ := List.append_inj text same.symm
    exact .inr ⟨same, shortest clause' _ text works⟩

theorem exists_importStatement? {cs lead clause s target : List Char}
    (imported : IsImported lead clause s target) (front : s <+: cs) :
    (importStatement? cs).isSome := by
  obtain ⟨rest, rfl⟩ := front
  obtain @⟨source, _, gap, line, hsource⟩ := imported
  have works : (fromTarget? (source ++ rest)).isSome := by
    rw [hsource.read]
    rfl
  have text : Text.dropFront? "import".toList ("import".toList ++ lead ++ clause ++ source ++ rest) =
      some (lead ++ (clause ++ (source ++ rest))) :=
    dropFront?_eq_some_iff.2 (by simp)
  rw [importStatement?, text]
  exact exists_importTarget? gap (exists_clauseTarget? line works)

/-- Of two ways to read an import, each of which precedes the other, both give the same. -/
theorem IsImported.unique {lead clause s target rest lead' clause' s' target' rest' : List Char}
    (h : IsImported lead clause s target) (h' : IsImported lead' clause' s' target')
    (text : s ++ rest = s' ++ rest') (le : Precedes lead clause lead' clause')
    (ge : Precedes lead' clause' lead clause) : target = target' ∧ rest = rest' := by
  obtain @⟨source, _, -, -, hsource⟩ := h
  obtain @⟨source', _, -, -, hsource'⟩ := h'
  have text : lead ++ (clause ++ (source ++ rest)) = lead' ++ (clause' ++ (source' ++ rest')) := by
    simpa using text
  have sameLead : lead.length = lead'.length := by
    unfold Precedes at le ge
    omega
  have sameClause : clause.length = clause'.length := by
    unfold Precedes at le ge
    omega
  obtain ⟨-, text⟩ := List.append_inj text sameLead
  obtain ⟨-, text⟩ := List.append_inj text sameClause
  have found := hsource.read rest
  rw [text, hsource'.read rest'] at found
  exact Prod.mk.inj (Option.some.inj found.symm)

/-! ## Statements -/

theorem importStatement?_required {s target rest : List Char} (h : IsRequired s target) :
    importStatement? (s ++ rest) = none := by
  obtain ⟨-, -, -, -⟩ := h
  rfl

theorem statement?_eq_some_iff {language : Language} {cs target rest : List Char} :
    statement? language cs = some (target, rest) ↔ Takes language cs target rest := by
  constructor
  · intro h
    cases language with
    | java =>
        obtain ⟨s, rfl, dotted⟩ := dottedStatement?_eq_some_iff.1 h
        exact .java dotted
    | csharp =>
        obtain ⟨s, rfl, dotted⟩ := dottedStatement?_eq_some_iff.1 h
        exact .csharp dotted
    | typescript =>
        rw [statement?] at h
        split at h
        · rename_i found here
          obtain rfl := Option.some.inj h
          obtain ⟨lead, clause, s, rfl, imported, first⟩ := importStatement?_eq_some here
          exact .imported imported first
        · obtain ⟨s, rfl, required⟩ := requireStatement?_eq_some_iff.1 h
          exact .required required
  · intro h
    cases h with
    | java dotted => exact dottedStatement?_eq_some_iff.2 ⟨_, rfl, dotted⟩
    | csharp dotted => exact dottedStatement?_eq_some_iff.2 ⟨_, rfl, dotted⟩
    | required required =>
        rw [statement?, importStatement?_required required]
        exact requireStatement?_eq_some_iff.2 ⟨_, rfl, required⟩
    | imported imported first =>
        obtain ⟨⟨target', rest'⟩, found⟩ :=
          Option.isSome_iff_exists.1 (exists_importStatement? imported (List.prefix_append _ _))
        obtain ⟨lead', clause', s', text, imported', first'⟩ := importStatement?_eq_some found
        have same := imported.unique imported' text (first _ _ _ _ imported' ⟨rest', text.symm⟩)
          (first' _ _ _ _ imported (List.prefix_append _ _))
        rw [statement?, found, same.1, same.2]

theorem exists_statement?_iff {language : Language} {cs : List Char} :
    (statement? language cs).isSome ↔ Starts language cs := by
  constructor
  · intro h
    obtain ⟨⟨target, rest⟩, found⟩ := Option.isSome_iff_exists.1 h
    cases statement?_eq_some_iff.1 found with
    | java dotted => exact ⟨_, _, List.prefix_append _ _, .java dotted⟩
    | csharp dotted => exact ⟨_, _, List.prefix_append _ _, .csharp dotted⟩
    | required required => exact ⟨_, _, List.prefix_append _ _, .required required⟩
    | imported imported _ => exact ⟨_, _, List.prefix_append _ _, .imported imported⟩
  · rintro ⟨s, target, ⟨rest, rfl⟩, statement⟩
    cases statement with
    | java dotted => rw [statement?_eq_some_iff.2 (.java dotted)]; rfl
    | csharp dotted => rw [statement?_eq_some_iff.2 (.csharp dotted)]; rfl
    | required required => rw [statement?_eq_some_iff.2 (.required required)]; rfl
    | imported imported =>
        obtain ⟨found, here⟩ :=
          Option.isSome_iff_exists.1 (exists_importStatement? imported (List.prefix_append s rest))
        rw [statement?, here]
        rfl

end LayerLint.Import
