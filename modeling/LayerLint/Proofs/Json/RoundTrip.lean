import LayerLint.Json.Reader

/-!
# Written JSON is read back

What `render` writes uses plain characters only, and `read?` gives the value back, for every value of
texts, integers, truth values and nothing, in lists and in tables that name each thing once
(`read?_render`). A character outside the plain ones is written as one or two UTF-16 units, and the
reader puts the units together again.
-/

namespace LayerLint

/-- A value that JSON can hold: no floating-point numbers, no dates and times, and no table with two
entries of one name. -/
inductive Value.IsPortable : Value → Prop where
  | null : IsPortable .null
  | bool (b : Bool) : IsPortable (.bool b)
  | int (n : Int) : IsPortable (.int n)
  | str (s : String) : IsPortable (.str s)
  | list {items : List Value} (inner : ∀ item ∈ items, IsPortable item) : IsPortable (.list items)
  | dict {entries : Table} (distinct : (entries.map (·.1)).Nodup)
      (inner : ∀ entry ∈ entries, IsPortable entry.2) : IsPortable (.dict entries)

/-- An entry of a new name goes to the end. -/
theorem Table.set_of_nodup {t entries : Table} {e : String × Value}
    (distinct : ((t ++ e :: entries).map (·.1)).Nodup) : t.set e.1 e.2 = t ++ [e] := by
  induction t with
  | nil => rfl
  | cons first t ih =>
      rw [List.cons_append, List.map_cons, List.nodup_cons] at distinct
      have ne : first.1 ≠ e.1 := by
        intro same
        apply distinct.1
        simp [same]
      rw [Table.set, if_neg ne, ih distinct.2]
      rfl

namespace Json

/-! ## Characters -/

theorem hex_four {n : Nat} (small : n < 0x10000) :
    Text.hex 4 n = [(n / 4096).digitChar, (n / 256 % 16).digitChar, (n / 16 % 16).digitChar,
      (n % 16).digitChar] := by
  have zero : Nat.digitChar 0 = '0' := rfl
  unfold Text.hex
  by_cases h₁ : n < 16
  · simp [Nat.toDigits_of_lt_base h₁, Nat.div_eq_of_lt, Nat.mod_eq_of_lt, h₁, zero,
      show n < 256 by omega, show n < 4096 by omega, List.replicate]
  by_cases h₂ : n < 256
  · rw [Nat.toDigits_of_base_le (by decide) (by omega), Nat.toDigits_of_lt_base (by omega)]
    simp [Nat.div_eq_of_lt, Nat.mod_eq_of_lt, zero, h₂, show n < 4096 by omega,
      show n / 16 < 16 by omega, List.replicate]
  by_cases h₃ : n < 4096
  · rw [Nat.toDigits_of_base_le (by decide) (by omega), Nat.toDigits_of_base_le (by decide) (by omega),
      Nat.toDigits_of_lt_base (by omega)]
    simp [Nat.div_div_eq_div_mul, Nat.div_eq_of_lt, Nat.mod_eq_of_lt, zero, h₃,
      show n / 256 < 16 by omega]
  · rw [Nat.toDigits_of_base_le (by decide) (by omega), Nat.toDigits_of_base_le (by decide) (by omega),
      Nat.toDigits_of_base_le (by decide) (by omega), Nat.toDigits_of_lt_base (by omega)]
    simp [Nat.div_div_eq_div_mul]

theorem hexValue?_digitChar : ∀ d < 16, hexValue? (Nat.digitChar d) = some d := by
  decide

theorem readUnits?_escapeUnit {n : Nat} (small : n < 0x10000) (found : List Nat) (cs : List Char) :
    readUnits? found (escapeUnit n ++ cs) = readUnits? (n :: found) cs := by
  have read : unit? (n / 4096).digitChar (n / 256 % 16).digitChar (n / 16 % 16).digitChar
      (n % 16).digitChar = some n := by
    rw [unit?, hexValue?_digitChar _ (by omega), hexValue?_digitChar _ (by omega),
      hexValue?_digitChar _ (by omega), hexValue?_digitChar _ (by omega)]
    simp
    omega
  simp [escapeUnit, hex_four small, readUnits?, read]

theorem toNat_valid (c : Char) : c.toNat < 0xd800 ∨ 0xdfff < c.toNat ∧ c.toNat < 0x110000 :=
  c.valid

theorem units_lt {c : Char} {n : Nat} (mem : n ∈ units c) : n < 0x10000 := by
  have := toNat_valid c
  unfold units at mem
  split at mem <;> simp at mem <;> omega

/-- A character is written with a letter of its own behind a backslash, as it is, or by its units. -/
theorem escapeChar_cases (c : Char) :
    (∃ letter, escapeChar c = ['\\', letter] ∧ shortEscape? letter = some c.toNat ∧
        units c = [c.toNat] ∧ letter.toNat < 128) ∨
      (escapeChar c = [c] ∧ c ≠ '"' ∧ c ≠ '\\' ∧ c.toNat < 128) ∨
      escapeChar c = (units c).flatMap escapeUnit := by
  by_cases short : c ∈ ['"', '\\', '\n', '\r', '\t', Char.ofNat 0x0c, Char.ofNat 0x08]
  · simp only [List.mem_cons, List.not_mem_nil, or_false] at short
    left
    rcases short with rfl | rfl | rfl | rfl | rfl | rfl | rfl <;> exact ⟨_, rfl, rfl, rfl, by decide⟩
  · simp only [List.mem_cons, List.not_mem_nil, or_false, not_or] at short
    right
    by_cases printable : 0x20 ≤ c.toNat ∧ c.toNat ≤ 0x7e
    · left
      refine ⟨?_, short.1, short.2.1, by omega⟩
      simp only [escapeChar, short, printable, and_self, ↓reduceIte]
    · right
      simp only [escapeChar, short, printable, ↓reduceIte]

theorem readUnits?_escapeChar (c : Char) (found : List Nat) (cs : List Char) :
    readUnits? found (escapeChar c ++ cs) = readUnits? ((units c).reverse ++ found) cs := by
  rcases escapeChar_cases c with ⟨letter, escaped, short, one, -⟩ | ⟨escaped, quote, slash, -⟩ | escaped
  · have letter_ne : letter ≠ 'u' := by
      rintro rfl
      cases short
    rw [escaped, one, List.cons_append, List.singleton_append, readUnits?]
    · simp [short]
    · simp [letter_ne]
  · rw [escaped, List.singleton_append, readUnits?, if_neg slash] <;> simp_all
  · have small : ∀ n ∈ units c, n < 0x10000 := fun _ => units_lt
    rw [escaped]
    revert small
    generalize units c = list
    intro small
    induction list generalizing found with
    | nil => simp
    | cons n list ih =>
        rw [List.forall_mem_cons] at small
        simp [readUnits?_escapeUnit small.1, ih _ small.2]

theorem ofUnits_append (c : Char) (more : List Nat) :
    ofUnits (units c ++ more) = c :: ofUnits more := by
  have valid := toNat_valid c
  unfold units
  split
  · have alone : lone c.toNat = c := by
      rw [lone, if_neg (by omega), Char.ofNat_toNat]
    cases more with
    | nil => simp [ofUnits, alone]
    | cons m more => rw [List.singleton_append, ofUnits, if_neg (by omega), alone]
  · rw [List.cons_append, List.singleton_append, ofUnits, if_pos (by omega)]
    have same : 0x10000 + (0xd800 + (c.toNat - 0x10000) / 0x400 - 0xd800) * 0x400 +
        (0xdc00 + (c.toNat - 0x10000) % 0x400 - 0xdc00) = c.toNat := by omega
    rw [same, Char.ofNat_toNat]

theorem readString?_escaped (s : String) (rest : List Char) :
    readString? (s.toList.flatMap escapeChar ++ '"' :: rest) = some (s, rest) := by
  have units (cs : List Char) (found : List Nat) :
      readUnits? found (cs.flatMap escapeChar ++ '"' :: rest) =
        some (found.reverse ++ cs.flatMap units, rest) := by
    induction cs generalizing found with
    | nil => simp [readUnits?]
    | cons c cs ih => simp [readUnits?_escapeChar, ih]
  have joined (cs : List Char) : ofUnits (cs.flatMap Json.units) = cs := by
    induction cs with
    | nil => rfl
    | cons c cs ih => rw [List.flatMap_cons, ofUnits_append, ih]
  simp [readString?, units, joined]

/-! ## Numbers -/

/-- What may stand behind a number without being read as a part of it. -/
def EndsNumber (rest : List Char) : Prop :=
  ∀ c ∈ rest.head?, c.isDigit = false ∧ c ≠ '.' ∧ c ≠ 'e' ∧ c ≠ 'E'

theorem ofDigits_toDigits (n : Nat) :
    Decimal.ofDigits ((Nat.toDigits 10 n).map (·.toNat - 48)) = n := by
  have same (ds : List Char) (start : Nat) :
      (ds.map (·.toNat - 48)).foldl (fun n d => n * 10 + d) start = Nat.ofDigitChars 10 ds start := by
    induction ds generalizing start with
    | nil => simp
    | cons d ds ih =>
        rw [List.map_cons, List.foldl_cons, ih, Nat.ofDigitChars_cons, Nat.mul_comm]
        rfl
  rw [Decimal.ofDigits, same, Nat.ofDigitChars_toDigits (by decide) (by decide)]

/-- Digits end where something else begins. -/
theorem span_toDigits (n : Nat) {rest : List Char} (ends : ∀ c ∈ rest.head?, c.isDigit = false) :
    (Nat.toDigits 10 n ++ rest).takeWhile Char.isDigit = Nat.toDigits 10 n ∧
      (Nat.toDigits 10 n ++ rest).dropWhile Char.isDigit = rest := by
  have digits : ∀ c ∈ Nat.toDigits 10 n, c.isDigit = true := fun c mem =>
    Nat.isDigit_of_mem_toDigits (by decide) (by decide) mem
  rw [List.takeWhile_append_of_pos digits, List.dropWhile_append_of_pos digits]
  cases rest with
  | nil => simp
  | cons c rest => simp [ends c rfl]

theorem readMagnitude?_toDigits (negative : Bool) (n : Nat) {rest : List Char}
    (ends : EndsNumber rest) :
    readMagnitude? negative (Nat.toDigits 10 n ++ rest) =
      some (.int (if negative then -(n : Int) else n), rest) := by
  obtain ⟨taken, dropped⟩ := span_toDigits n fun c first => (ends c first).1
  unfold readMagnitude?
  simp only [taken, dropped]
  cases rest with
  | nil => simp [ofDigits_toDigits]
  | cons c rest =>
      obtain ⟨-, point, e, E⟩ := ends c rfl
      simp [ofDigits_toDigits, point, e, E]

theorem exists_toDigits (n : Nat) :
    ∃ k < 10, ∃ ds, Nat.toDigits 10 n = Nat.digitChar k :: ds := by
  induction n using Nat.strongRecOn with
  | ind n ih =>
      by_cases small : n < 10
      · exact ⟨n, small, [], Nat.toDigits_of_lt_base small⟩
      · obtain ⟨k, hk, ds, digits⟩ := ih (n / 10) (by omega)
        refine ⟨k, hk, ds ++ [(n % 10).digitChar], ?_⟩
        rw [Nat.toDigits_of_base_le (by decide) (by omega), digits, List.cons_append]

/-- No digit starts a word, a text, a list or a table, and none is a sign or white space. -/
theorem digitChar_ne : ∀ k < 10, isSpace (Nat.digitChar k) = false ∧
    Nat.digitChar k ≠ 'n' ∧ Nat.digitChar k ≠ 't' ∧ Nat.digitChar k ≠ 'f' ∧ Nat.digitChar k ≠ 'N' ∧
    Nat.digitChar k ≠ 'I' ∧ Nat.digitChar k ≠ '-' ∧ Nat.digitChar k ≠ '"' ∧ Nat.digitChar k ≠ '[' ∧
    Nat.digitChar k ≠ ']' ∧ Nat.digitChar k ≠ '\x7b' ∧ Nat.digitChar k ≠ '\x7d' := by
  decide

theorem readScalar?_digit {k : Nat} (small : k < 10) (cs : List Char) :
    readScalar? (k.digitChar :: cs) = readMagnitude? false (k.digitChar :: cs) ∧
      readScalar? ('-' :: k.digitChar :: cs) = readMagnitude? true (k.digitChar :: cs) := by
  obtain ⟨-, n, t, f, N, I, minus, -⟩ := digitChar_ne k small
  simp [readScalar?, Text.dropFront?, n.symm, t.symm, f.symm, N.symm, I.symm, minus, minus.symm]

theorem toList_int (n : Int) :
    (toString n).toList = Nat.toDigits 10 n.natAbs ∧ 0 ≤ n ∨
      (toString n).toList = '-' :: Nat.toDigits 10 n.natAbs ∧ n < 0 := by
  cases n with
  | ofNat n => exact .inl ⟨Nat.toList_repr, Int.natCast_nonneg n⟩
  | negSucc n =>
      refine .inr ⟨?_, Int.negSucc_lt_zero n⟩
      show ("-" ++ (n + 1).repr).toList = _
      simp [Nat.toList_repr]

theorem readScalar?_int (n : Int) {rest : List Char} (ends : EndsNumber rest) :
    readScalar? ((toString n).toList ++ rest) = some (.int n, rest) := by
  obtain ⟨k, small, ds, digits⟩ := exists_toDigits n.natAbs
  have read (negative : Bool) := readMagnitude?_toDigits negative n.natAbs ends
  rw [digits, List.cons_append] at read
  rcases toList_int n with ⟨text, sign⟩ | ⟨text, sign⟩
  · rw [text, digits, List.cons_append, (readScalar?_digit small _).1, read]
    simp [Int.natAbs_of_nonneg sign]
  · rw [text, digits, List.cons_append, List.cons_append, (readScalar?_digit small _).2, read]
    have magnitude : -(n.natAbs : Int) = n := by omega
    simp only [↓reduceIte, magnitude]

/-! ## Values -/

/-- The first character of a written value: no white space and no closing bracket. -/
theorem renderAt_cons {v : Value} (h : v.IsPortable) (level : Nat) :
    ∃ c cs, renderAt level v = c :: cs ∧ isSpace c = false ∧ c ≠ ']' ∧ c ≠ '\x7d' := by
  cases h with
  | null => exact ⟨'n', _, rfl, by decide⟩
  | bool b => cases b <;> exact ⟨_, _, rfl, by decide⟩
  | int n =>
      obtain ⟨k, small, ds, digits⟩ := exists_toDigits n.natAbs
      rcases toList_int n with ⟨text, -⟩ | ⟨text, -⟩
      · refine ⟨k.digitChar, ds, by rw [renderAt, text, digits], ?_⟩
        have ne := digitChar_ne k small
        simp [ne]
      · exact ⟨'-', _, by rw [renderAt, text], by decide⟩
  | str s => exact ⟨'"', _, rfl, by decide⟩
  | @list items inner => cases items <;> exact ⟨'[', _, rfl, by decide⟩
  | @dict entries distinct inner => cases entries <;> exact ⟨'\x7b', _, rfl, by decide⟩

theorem isSpace_newLine (level : Nat) : ∀ c ∈ newLine level, isSpace c = true := by
  intro c mem
  simp only [newLine, List.mem_cons, List.mem_replicate] at mem
  rcases mem with rfl | ⟨-, rfl⟩ <;> rfl

theorem dropWhile_newLine (level : Nat) {c : Char} (solid : isSpace c = false) (cs : List Char) :
    (newLine level ++ c :: cs).dropWhile isSpace = c :: cs := by
  rw [List.dropWhile_append_of_pos (isSpace_newLine level),
    List.dropWhile_cons_of_neg (by simp [solid])]

theorem readValue?_newLine (level fuel : Nat) (cs : List Char) :
    readValue? fuel (newLine level ++ cs) = readValue? fuel cs := by
  cases fuel with
  | zero => rfl
  | succ fuel => rw [readValue?, readValue?, List.dropWhile_append_of_pos (isSpace_newLine level)]

theorem readValue?_scalar {c : Char} (solid : isSpace c = false)
    (other : c ≠ '"' ∧ c ≠ '[' ∧ c ≠ '\x7b') (fuel : Nat) (cs : List Char) :
    readValue? (fuel + 1) (c :: cs) = readScalar? (c :: cs) := by
  rw [readValue?, List.dropWhile_cons_of_neg (by simp [solid])]
  split <;> simp_all

theorem readValue?_int (n : Int) {rest : List Char} (ends : EndsNumber rest) (fuel : Nat) :
    readValue? (fuel + 1) ((toString n).toList ++ rest) = some (.int n, rest) := by
  have read := readScalar?_int n ends
  obtain ⟨k, small, ds, digits⟩ := exists_toDigits n.natAbs
  have ne := digitChar_ne k small
  rcases toList_int n with ⟨text, -⟩ | ⟨text, -⟩
  · rw [text, digits] at read ⊢
    rw [List.cons_append, readValue?_scalar (by simp [ne]) (by simp [ne])]
    exact read
  · rw [text] at read ⊢
    rw [List.cons_append, readValue?_scalar (by decide) (by decide)]
    exact read

theorem readValue?_list {cs : List Char} (fuel : Nat)
    (some : ∀ rest, cs.dropWhile isSpace ≠ ']' :: rest) :
    readValue? (fuel + 1) ('[' :: cs) =
      (readItems? fuel [] cs).map fun (items, rest) => (.list items, rest) := by
  rw [readValue?, List.dropWhile_cons_of_neg (by decide)]
  simp only

theorem readValue?_dict {cs : List Char} (fuel : Nat)
    (some : ∀ rest, cs.dropWhile isSpace ≠ '\x7d' :: rest) :
    readValue? (fuel + 1) ('\x7b' :: cs) =
      (readEntries? fuel [] cs).map fun (entries, rest) => (.dict entries, rest) := by
  rw [readValue?, List.dropWhile_cons_of_neg (by decide)]
  simp only

/-- A value at any level is read back from in front of any text that cannot continue a number, with as
much fuel as it has characters. -/
def IsReadBack (v : Value) : Prop :=
  ∀ level fuel rest, (renderAt level v).length < fuel → EndsNumber rest →
    readValue? fuel (renderAt level v ++ rest) = some (v, rest)

theorem endsNumber_newLine (level : Nat) (cs : List Char) : EndsNumber (newLine level ++ cs) := by
  simp [EndsNumber, newLine]

theorem endsNumber_renderItems (level outer : Nat) (items : List Value) (rest : List Char) :
    EndsNumber (renderItems level items ++ (newLine outer ++ rest)) := by
  cases items with
  | nil => exact endsNumber_newLine outer rest
  | cons v items => simp [EndsNumber, renderItems]

theorem endsNumber_renderEntries (level outer : Nat) (entries : Table) (rest : List Char) :
    EndsNumber (renderEntries level entries ++ (newLine outer ++ rest)) := by
  cases entries with
  | nil => exact endsNumber_newLine outer rest
  | cons e entries => simp [EndsNumber, renderEntries]

theorem readItems?_rendered {v : Value} {items : List Value} (level outer : Nat)
    (each : ∀ item ∈ v :: items, IsReadBack item) (rest : List Char) (fuel : Nat)
    (found : List Value)
    (enough : (renderAt level v).length + (renderItems level items).length + 1 < fuel) :
    readItems? fuel found (newLine level ++ (renderAt level v ++ (renderItems level items ++
        (newLine outer ++ ']' :: rest)))) =
      some (found.reverse ++ v :: items, rest) := by
  induction items generalizing v fuel found with
  | nil =>
      obtain ⟨fuel, rfl⟩ : ∃ n, fuel = n + 1 := ⟨fuel - 1, by omega⟩
      have read := each v (by simp) level fuel (newLine outer ++ ']' :: rest) (by omega)
        (endsNumber_newLine _ _)
      simp [readItems?, readValue?_newLine, renderItems, read,
        dropWhile_newLine outer (c := ']') rfl]
  | cons next items ih =>
      obtain ⟨fuel, rfl⟩ : ∃ n, fuel = n + 1 := ⟨fuel - 1, by omega⟩
      simp only [renderItems, List.length_append, List.length_cons] at enough
      have read := each v (by simp) level fuel _ (by omega)
        (endsNumber_renderItems level outer (next :: items) (']' :: rest))
      have more := ih (v := next) (fun item mem => each item (by simp [mem])) fuel (v :: found)
        (by omega)
      simp only [renderItems, List.cons_append, List.append_assoc] at read ⊢
      rw [readItems?, readValue?_newLine, read]
      simp [isSpace, more]

/-- After an entry another one follows, or the table ends. -/
theorem readEntries?_entry {level fuel : Nat} {key : String} {v : Value} {cs rest more : List Char}
    (found : Table) (read : readValue? fuel cs = some (v, rest)) :
    (rest.dropWhile isSpace = ',' :: more →
      readEntries? (fuel + 1) found (newLine level ++ (renderString key ++ (": ".toList ++ cs))) =
        readEntries? fuel (found.set key v) more) ∧
    (rest.dropWhile isSpace = '\x7d' :: more →
      readEntries? (fuel + 1) found (newLine level ++ (renderString key ++ (": ".toList ++ cs))) =
        some (found.set key v, more)) := by
  have blank : readValue? fuel (' ' :: cs) = some (v, rest) := by
    rw [← read]
    cases fuel with
    | zero => rfl
    | succ fuel => simp [readValue?, isSpace]
  have colon : (':' :: ' ' :: cs).dropWhile isSpace = ':' :: ' ' :: cs :=
    List.dropWhile_cons_of_neg (by decide)
  have text : renderString key ++ (": ".toList ++ cs) =
      '"' :: (key.toList.flatMap escapeChar ++ '"' :: ':' :: ' ' :: cs) := by
    simp [renderString]
  rw [readEntries?, text, dropWhile_newLine level (by decide)]
  constructor <;>
  · intro next
    simp only [readString?_escaped, colon, blank, next]

theorem readEntries?_rendered {e : String × Value} {entries : Table} (level outer : Nat)
    (each : ∀ entry ∈ e :: entries, IsReadBack entry.2) (rest : List Char) (fuel : Nat)
    (found : Table) (distinct : ((found ++ e :: entries).map (·.1)).Nodup)
    (enough : (renderAt level e.2).length + (renderEntries level entries).length + 1 < fuel) :
    readEntries? fuel found (newLine level ++ (renderString e.1 ++ (": ".toList ++
        (renderAt level e.2 ++ (renderEntries level entries ++ (newLine outer ++ '\x7d' :: rest)))))) =
      some (found ++ e :: entries, rest) := by
  induction entries generalizing e fuel found with
  | nil =>
      obtain ⟨fuel, rfl⟩ : ∃ n, fuel = n + 1 := ⟨fuel - 1, by omega⟩
      have read := each e (by simp) level fuel (newLine outer ++ '\x7d' :: rest) (by omega)
        (endsNumber_newLine _ _)
      have closed : (newLine outer ++ '\x7d' :: rest).dropWhile isSpace = '\x7d' :: rest :=
        dropWhile_newLine outer rfl rest
      rw [renderEntries, List.nil_append, (readEntries?_entry found read).2 closed,
        Table.set_of_nodup distinct]
  | cons next entries ih =>
      obtain ⟨fuel, rfl⟩ : ∃ n, fuel = n + 1 := ⟨fuel - 1, by omega⟩
      simp only [renderEntries, List.length_append, List.length_cons] at enough
      have read := each e (by simp) level fuel _ (by omega)
        (endsNumber_renderEntries level outer (next :: entries) ('\x7d' :: rest))
      have more := ih (e := next) (fun entry mem => each entry (by simp [mem])) fuel (found ++ [e])
        (by simpa using distinct) (by omega)
      simp only [renderEntries, List.cons_append, List.append_assoc] at read ⊢
      rw [(readEntries?_entry found read).1 (List.dropWhile_cons_of_neg (by decide)),
        Table.set_of_nodup distinct, more, List.append_assoc, List.singleton_append]

theorem readValue?_items {items : List Value} (nonempty : items ≠ [])
    (inner : ∀ item ∈ items, item.IsPortable) (each : ∀ item ∈ items, IsReadBack item) :
    IsReadBack (.list items) := by
  intro level fuel rest enough _
  obtain ⟨v, items, rfl⟩ := List.exists_cons_of_ne_nil nonempty
  obtain ⟨fuel, rfl⟩ : ∃ n, fuel = n + 1 := ⟨fuel - 1, by omega⟩
  obtain ⟨c, cs, text, solid, open_, -⟩ := renderAt_cons (inner v (by simp)) (level + 1)
  simp only [renderAt, List.cons_append, List.append_assoc, List.length_cons,
    List.length_append] at enough ⊢
  rw [readValue?_list, List.nil_append,
    readItems?_rendered (level + 1) level each rest fuel [] (by omega)]
  · rfl
  · intro rest
    rw [text, List.cons_append, dropWhile_newLine _ solid]
    simp [open_]

theorem readValue?_entries {entries : Table} (nonempty : entries ≠ [])
    (distinct : (entries.map (·.1)).Nodup) (each : ∀ entry ∈ entries, IsReadBack entry.2) :
    IsReadBack (.dict entries) := by
  intro level fuel rest enough _
  obtain ⟨⟨key, v⟩, entries, rfl⟩ := List.exists_cons_of_ne_nil nonempty
  obtain ⟨fuel, rfl⟩ : ∃ n, fuel = n + 1 := ⟨fuel - 1, by omega⟩
  simp only [renderAt, List.cons_append, List.append_assoc, List.length_cons,
    List.length_append] at enough ⊢
  have read := readEntries?_rendered (e := (key, v)) (level + 1) level each rest fuel [] distinct
    (by simp only; omega)
  rw [readValue?_dict, List.nil_append, read]
  · rfl
  · intro rest
    rw [renderString, List.cons_append, List.cons_append, dropWhile_newLine _ (by decide)]
    simp

/-- The induction is on how the value is built; behind a value inside another one stands a comma or
a new line, so that a number ends where it was written to end. -/
theorem readValue?_renderAt {v : Value} (h : v.IsPortable) : IsReadBack v := by
  induction h with
  | null =>
      rintro level (_ | fuel) rest enough ends
      · omega
      · exact readValue?_scalar (by decide) (by decide) fuel _
  | bool b =>
      rintro level (_ | fuel) rest enough ends
      · omega
      · cases b <;> exact readValue?_scalar (by decide) (by decide) fuel _
  | int n =>
      rintro level (_ | fuel) rest enough ends
      · omega
      · exact readValue?_int n ends fuel
  | str s =>
      rintro level (_ | fuel) rest enough ends
      · omega
      · simp [renderAt, renderString, readValue?, isSpace, readString?_escaped]
  | @list items inner ih =>
      by_cases nonempty : items = []
      · subst nonempty
        rintro level (_ | fuel) rest enough ends
        · omega
        · simp [renderAt, readValue?, isSpace]
      · exact readValue?_items nonempty inner ih
  | @dict entries distinct inner ih =>
      by_cases nonempty : entries = []
      · subst nonempty
        rintro level (_ | fuel) rest enough ends
        · omega
        · simp [renderAt, readValue?, isSpace]
      · exact readValue?_entries nonempty distinct ih

theorem read?_render {v : Value} (h : v.IsPortable) : read? (render v) = some v := by
  have read := readValue?_renderAt h 0 ((renderAt 0 v).length + 1) [] (by omega) (by simp [EndsNumber])
  rw [List.append_nil] at read
  simp [read?, render, read]

/-! ## Plain characters -/

def IsPlain (cs : List Char) : Prop :=
  ∀ c ∈ cs, c.toNat < 128

@[simp] theorem isPlain_nil : IsPlain [] := by
  simp [IsPlain]

@[simp] theorem isPlain_cons {c : Char} {cs : List Char} :
    IsPlain (c :: cs) ↔ c.toNat < 128 ∧ IsPlain cs :=
  List.forall_mem_cons

@[simp] theorem isPlain_append {cs ds : List Char} : IsPlain (cs ++ ds) ↔ IsPlain cs ∧ IsPlain ds :=
  List.forall_mem_append

theorem isPlain_toDigits (n : Nat) : IsPlain (Nat.toDigits 10 n) := by
  intro c mem
  have digit := Nat.isDigit_of_mem_toDigits (by decide) (by decide) mem
  have bounds := Char.isDigit_iff_toNat.mp digit
  exact Nat.lt_of_le_of_lt bounds.2 (by decide)

theorem isPlain_escapeUnit {n : Nat} (small : n < 0x10000) : IsPlain (escapeUnit n) := by
  have plain : ∀ d < 16, (Nat.digitChar d).toNat < 128 := by decide
  rw [escapeUnit, hex_four small]
  simp only [isPlain_cons, isPlain_nil, and_true]
  exact ⟨by decide, by decide, plain _ (by omega), plain _ (by omega), plain _ (by omega),
    plain _ (by omega)⟩

theorem isPlain_escapeChar (c : Char) : IsPlain (escapeChar c) := by
  rcases escapeChar_cases c with ⟨letter, escaped, -, -, plain⟩ | ⟨escaped, -, -, plain⟩ | escaped
  · simp [escaped, plain]
  · simp [escaped, plain]
  · intro d mem
    rw [escaped, List.mem_flatMap] at mem
    obtain ⟨n, unit, mem⟩ := mem
    exact isPlain_escapeUnit (units_lt unit) d mem

theorem isPlain_renderString (s : String) : IsPlain (renderString s) := by
  have inner : IsPlain (s.toList.flatMap escapeChar) := by
    intro c mem
    obtain ⟨d, -, mem⟩ := List.mem_flatMap.mp mem
    exact isPlain_escapeChar d c mem
  simp [renderString, inner]

theorem isPlain_newLine (level : Nat) : IsPlain (newLine level) := by
  intro c mem
  simp only [newLine, List.mem_cons, List.mem_replicate] at mem
  rcases mem with rfl | ⟨-, rfl⟩ <;> decide

theorem isPlain_renderItems {level : Nat} {items : List Value}
    (each : ∀ item ∈ items, ∀ level, IsPlain (renderAt level item)) :
    IsPlain (renderItems level items) := by
  induction items with
  | nil => simp [renderItems]
  | cons v items ih =>
      rw [List.forall_mem_cons] at each
      simp [renderItems, isPlain_newLine, each.1, ih each.2]

theorem isPlain_renderEntries {level : Nat} {entries : Table}
    (each : ∀ entry ∈ entries, ∀ level, IsPlain (renderAt level entry.2)) :
    IsPlain (renderEntries level entries) := by
  induction entries with
  | nil => simp [renderEntries]
  | cons e entries ih =>
      rw [List.forall_mem_cons] at each
      simp [renderEntries, isPlain_newLine, isPlain_renderString, each.1, ih each.2]

theorem isPlain_renderAt {v : Value} (h : v.IsPortable) (level : Nat) : IsPlain (renderAt level v) := by
  induction h generalizing level with
  | null => simp [renderAt]
  | bool b => cases b <;> simp [renderAt]
  | int n =>
      rw [renderAt]
      rcases toList_int n with ⟨text, -⟩ | ⟨text, -⟩ <;> rw [text] <;> simp [isPlain_toDigits]
  | str s => exact isPlain_renderString s
  | @list items inner ih =>
      cases items with
      | nil => simp [renderAt]
      | cons v items =>
          rw [List.forall_mem_cons] at ih
          simp [renderAt, isPlain_newLine, ih.1, isPlain_renderItems ih.2]
  | @dict entries distinct inner ih =>
      cases entries with
      | nil => simp [renderAt]
      | cons e entries =>
          rw [List.forall_mem_cons] at ih
          simp [renderAt, isPlain_newLine, isPlain_renderString, ih.1, isPlain_renderEntries ih.2]

end Json

end LayerLint
