import LayerLint.Toml.Reader

/-!
# Tables that name each thing once

A settings file is read into a table in which each name stands once, and the same is true of every
table in it (`read_isTidy`). So it does not matter which entry with a name is looked up.
-/

namespace LayerLint

namespace Table

def names (t : Table) : List String := t.map (·.1)

theorem lookup_cons (t : Table) (e : String × Value) (name : String) :
    List.lookup name (e :: t) = if name = e.1 then some e.2 else t.lookup name := by
  by_cases same : name = e.1
  · rw [List.lookup_cons, beq_iff_eq.2 same, if_pos same]
  · rw [List.lookup_cons, beq_eq_false_iff_ne.2 same, if_neg same]

theorem lookup_set (t : Table) (key : String) (v : Value) (name : String) :
    (t.set key v).lookup name = if name = key then some v else t.lookup name := by
  induction t with
  | nil => exact lookup_cons [] (key, v) name
  | cons e t ih =>
      unfold Table.set
      by_cases here : e.1 = key
      · rw [if_pos here, lookup_cons, lookup_cons, here]
        by_cases same : name = key <;> simp [same]
      · rw [if_neg here, lookup_cons, lookup_cons, ih]
        by_cases same : name = e.1
        · rw [if_pos same, if_pos same, if_neg (same ▸ here)]
        · rw [if_neg same, if_neg same]

theorem mem_set {t : Table} {key : String} {v : Value} {e : String × Value}
    (mem : e ∈ t.set key v) : e ∈ t ∨ e = (key, v) := by
  induction t with
  | nil => exact .inr (List.mem_singleton.1 mem)
  | cons first t ih =>
      unfold Table.set at mem
      by_cases here : first.1 = key
      · rw [if_pos here, here] at mem
        rcases List.mem_cons.1 mem with rfl | mem
        · exact .inr rfl
        · exact .inl (List.mem_cons_of_mem _ mem)
      · rw [if_neg here] at mem
        rcases List.mem_cons.1 mem with rfl | mem
        · exact .inl List.mem_cons_self
        · exact (ih mem).imp_left (List.mem_cons_of_mem _)

theorem nodup_set {t : Table} (distinct : t.names.Nodup) (key : String) (v : Value) :
    (t.set key v).names.Nodup := by
  induction t with
  | nil => simp [Table.set, names]
  | cons first t ih =>
      obtain ⟨notMem, rest⟩ := List.nodup_cons.1 distinct
      unfold Table.set
      by_cases here : first.1 = key
      · rw [if_pos here]
        exact distinct
      · rw [if_neg here]
        refine List.nodup_cons.2 ⟨fun mem => ?_, ih rest⟩
        obtain ⟨e, mem, same⟩ := List.mem_map.1 mem
        rcases mem_set mem with mem | rfl
        · exact notMem (List.mem_map.2 ⟨e, mem, same⟩)
        · exact here same.symm

theorem lookup_eq_none {t : Table} {name : String} (notMem : name ∉ t.names) :
    t.lookup name = none := by
  rw [List.lookup_eq_none_iff]
  intro e mem
  rw [bne_iff_ne]
  rintro rfl
  exact notMem (List.mem_map_of_mem mem)

theorem lookup_update {changes : Table} (distinct : changes.names.Nodup) (t : Table) (name : String) :
    (t.update changes).lookup name = (changes.lookup name).or (t.lookup name) := by
  induction changes generalizing t with
  | nil => rfl
  | cons e changes ih =>
      obtain ⟨notMem, rest⟩ := List.nodup_cons.1 distinct
      change ((t.set e.1 e.2).update changes).lookup name = _
      rw [ih rest, lookup_set, lookup_cons]
      by_cases same : name = e.1
      · rw [if_pos same, if_pos same, same, lookup_eq_none notMem]
        rfl
      · rw [if_neg same, if_neg same]

theorem lookup_filter {table : Table} (distinct : table.names.Nodup) (p : String × Value → Bool)
    (name : String) :
    List.lookup name (table.filter p) = (table.lookup name).filter (fun v => p (name, v)) := by
  induction table with
  | nil => rfl
  | cons e table ih =>
      obtain ⟨notMem, rest⟩ := List.nodup_cons.1 distinct
      rw [List.filter_cons, lookup_cons]
      by_cases same : name = e.1
      · rw [if_pos same, Option.filter_some, show (name, e.2) = e from Prod.ext same rfl]
        cases p e with
        | true => exact (lookup_cons _ e name).trans (if_pos same)
        | false =>
            refine (ih rest).trans ?_
            rw [lookup_eq_none (same ▸ notMem)]
            rfl
      · rw [if_neg same, ← ih rest]
        cases p e with
        | true => exact (lookup_cons _ e name).trans (if_neg same)
        | false => rfl

theorem nodup_filter {table : Table} (distinct : table.names.Nodup) (p : String × Value → Bool) :
    names (table.filter p) |>.Nodup :=
  distinct.sublist (List.filter_sublist.map _)

theorem mem_names_iff {table : Table} {name : String} :
    name ∈ table.names ↔ (table.lookup name).isSome := by
  induction table with
  | nil => simp [names]
  | cons e table ih =>
      rw [names, List.map_cons, List.mem_cons, lookup_cons]
      by_cases same : name = e.1
      · simp [same]
      · rw [if_neg same, ← ih]
        simp [same, names]

end Table

/-- Every table in the value names each thing once. -/
inductive Value.IsTidy : Value → Prop where
  | single {v : Value} (single : Toml.Document.isWhole v = false) : IsTidy v
  | list {items : List Value} (inner : ∀ item ∈ items, IsTidy item) : IsTidy (.list items)
  | dict {entries : Table} (distinct : entries.names.Nodup) (inner : ∀ e ∈ entries, IsTidy e.2) :
      IsTidy (.dict entries)

namespace Toml

open Value (IsTidy)

variable {table table' : Table} {v : Value}

theorem isTidy_dict : IsTidy (.dict table) ↔ table.names.Nodup ∧ ∀ e ∈ table, IsTidy e.2 := by
  constructor
  · rintro (⟨⟨⟩⟩ | _ | ⟨distinct, inner⟩)
    exact ⟨distinct, inner⟩
  · exact fun ⟨distinct, inner⟩ => .dict distinct inner

theorem isTidy_list {items : List Value} :
    IsTidy (.list items) ↔ ∀ item ∈ items, IsTidy item := by
  constructor
  · rintro (⟨⟨⟩⟩ | ⟨inner⟩ | _)
    exact inner
  · exact .list

theorem isTidy_nil : IsTidy (.dict []) := isTidy_dict.2 ⟨.nil, List.forall_mem_nil _⟩

theorem isTidy_of_lookup {name : String} (tidy : IsTidy (.dict table))
    (found : table.lookup name = some v) : IsTidy v := by
  obtain ⟨before, after, same, -⟩ := List.lookup_eq_some_iff.1 found
  exact (isTidy_dict.1 tidy).2 (name, v) (by simp [same])

theorem isTidy_set (tidy : IsTidy (.dict table)) (name : String) (inner : IsTidy v) :
    IsTidy (.dict (table.set name v)) := by
  obtain ⟨distinct, entries⟩ := isTidy_dict.1 tidy
  refine isTidy_dict.2 ⟨Table.nodup_set distinct name v, fun e mem => ?_⟩
  rcases Table.mem_set mem with mem | rfl
  · exact entries e mem
  · exact inner

/-! ## Changes -/

/-- A change that leaves every name at one place. -/
def KeepsTidy (f : Table → Option Table) : Prop :=
  ∀ table table', f table = some table' → IsTidy (.dict table) → IsTidy (.dict table')

theorem addNew?_keepsTidy (name : String) (tidy : IsTidy v) : KeepsTidy (addNew? name v) := by
  intro table table' h before
  unfold addNew? at h
  split at h
  · cases h
    exact isTidy_set before name tidy
  · cases h

theorem addTable?_keepsTidy (name : String) : KeepsTidy (addTable? name) := by
  intro table table' h before
  unfold addTable? at h
  split at h
  · cases h
    exact isTidy_set before name (isTidy_list.2 (by simpa using isTidy_nil))
  · rename_i items found
    cases h
    refine isTidy_set before name (isTidy_list.2 (List.forall_mem_append.2 ⟨?_, ?_⟩))
    · exact isTidy_list.1 (isTidy_of_lookup before found)
    · simpa using isTidy_nil
  · cases h

theorem changeTable?_keepsTidy {f : Table → Option Table} (keeps : KeepsTidy f) (lists : Bool)
    (key : Key) : KeepsTidy (changeTable? lists f key) := by
  induction key with
  | nil => exact keeps
  | cons part parts ih =>
      intro table table' h before
      unfold changeTable? at h
      split at h
      · obtain ⟨inner, changed, rfl⟩ := Option.map_eq_some_iff.1 h
        exact isTidy_set before part (ih _ _ changed isTidy_nil)
      · rename_i inner found
        obtain ⟨inner', changed, rfl⟩ := Option.map_eq_some_iff.1 h
        exact isTidy_set before part (ih _ _ changed (isTidy_of_lookup before found))
      · rename_i items found
        have all := isTidy_list.1 (isTidy_of_lookup before found)
        split at h
        · split at h
          · rename_i inner last
            obtain ⟨inner', changed, rfl⟩ := Option.map_eq_some_iff.1 h
            have mem := List.mem_of_getLast? last
            refine isTidy_set before part (isTidy_list.2 (List.forall_mem_append.2 ⟨?_, ?_⟩))
            · exact fun item mem => all item (List.dropLast_subset items mem)
            · simpa using ih _ _ changed (all _ mem)
          · cases h
        · cases h
      · cases h

/-! ## Values -/

theorem readScalar_isTidy {cs rest : List Char} (h : readScalar cs = .ok (v, rest)) : IsTidy v := by
  refine .single ?_
  unfold readScalar at h
  split at h
  · cases h
    rfl
  · cases h
  · split at h
    · cases h
      rfl
    · split at h
      · rename_i result decimal
        subst h
        unfold readDecimal? at decimal
        dsimp only at decimal
        split at decimal
        · cases decimal
        · split at decimal
          · split at decimal
            · cases decimal
            · cases decimal
              rfl
          · cases decimal
            rfl
      · split at h
        · cases h
          rfl
        · cases h

theorem addInline?_isTidy {inline inline' : Inline} {key : Key}
    (h : addInline? inline key v = some inline') (tidy : IsTidy v)
    (before : IsTidy (.dict inline.1)) : IsTidy (.dict inline'.1) := by
  unfold addInline? at h
  split at h
  · cases h
  · obtain ⟨table, changed, rfl⟩ := Option.map_eq_some_iff.1 h
    exact changeTable?_keepsTidy (addNew?_keepsTidy _ tidy) false _ _ _ changed before

theorem map_eq_ok {ε α β : Type} {f : α → β} {x : Except ε α} {b : β} (h : x.map f = .ok b) :
    ∃ a, x = .ok a ∧ f a = b := by
  cases x with
  | error e => cases h
  | ok a => exact ⟨a, rfl, Except.ok.inj h⟩

/-- The three readers call each other, with less fuel every time. -/
theorem readers_isTidy (fuel : Nat) :
    (∀ room cs v rest, readValue room fuel cs = .ok (v, rest) → IsTidy v) ∧
    (∀ room found cs v rest, (∀ item ∈ found, IsTidy item) →
      readItems room fuel found cs = .ok (v, rest) → IsTidy v) ∧
    ∀ room inline cs v rest, IsTidy (.dict inline.1) →
      readEntries room fuel inline cs = .ok (v, rest) → IsTidy v := by
  induction fuel with
  | zero =>
      refine ⟨fun room cs v rest h => ?_, fun room found cs v rest _ h => ?_,
        fun room inline cs v rest _ h => ?_⟩
      · rw [readValue] at h
        cases h
      · rw [readItems] at h
        cases h
      · rw [readEntries] at h
        cases h
  | succ fuel ih =>
      obtain ⟨ihValue, ihItems, ihEntries⟩ := ih
      refine ⟨fun room cs v rest h => ?_, fun room found cs v rest before h => ?_,
        fun room inline cs v rest before h => ?_⟩
      · unfold readValue at h
        -- In the order of the patterns: four kinds of texts, two truth values, lists, inline tables,
        -- and all that is single.
        split at h
        case h_5 | h_6 =>
          cases h
          exact .single rfl
        case h_7 =>
          split at h
          · cases h
          · exact ihItems _ _ _ _ _ (List.forall_mem_nil _) h
        case h_8 =>
          split at h
          · cases h
            exact isTidy_nil
          · split at h
            · cases h
            · exact ihEntries _ _ _ _ _ isTidy_nil h
        case h_9 => exact readScalar_isTidy h
        all_goals
          obtain ⟨⟨s, rest'⟩, -, same⟩ := map_eq_ok h
          cases same
          exact .single rfl
      · rw [readItems] at h
        have reversed {items : List Value} (all : ∀ item ∈ items, IsTidy item) :
            IsTidy (.list items.reverse) := isTidy_list.2 (by simpa using all)
        split at h
        · cases h
        · cases h
          exact reversed before
        · split at h
          · cases h
          · rename_i item rest' read
            have all := List.forall_mem_cons.2 ⟨ihValue _ _ _ _ read, before⟩
            split at h
            · cases h
            · exact ihItems _ _ _ _ _ all h
            · cases h
              exact reversed all
            · cases h
      · rw [readEntries] at h
        split at h
        · cases h
        · split at h
          · cases h
          · rename_i item rest' read
            split at h
            · cases h
            · rename_i inline' added
              have after := addInline?_isTidy added (ihValue _ _ _ _ read) before
              split at h
              · cases h
                exact after
              · exact ihEntries _ _ _ _ _ after h
              · cases h
        · cases h

/-! ## Statements -/

theorem orMalformed_eq_ok {α : Type} {x : Option α} {a : α} (h : orMalformed x = .ok a) :
    x = some a := by
  cases x with
  | none => cases h
  | some b => exact congrArg some (Except.ok.inj h)

section Statements

variable {doc doc' : Document} {rest : List Char}

theorem add?_isTidy {key : Key} (h : doc.add? key v = some doc') (tidy : IsTidy v)
    (before : IsTidy (.dict doc.table)) : IsTidy (.dict doc'.table) := by
  unfold Document.add? at h
  dsimp only at h
  split at h
  · cases h
  · obtain ⟨table, changed, rfl⟩ := Option.map_eq_some_iff.1 h
    exact changeTable?_keepsTidy (addNew?_keepsTidy _ tidy) true _ _ _ changed before

theorem readSetting_isTidy {size : Nat} {cs : List Char}
    (h : readSetting size doc cs = .ok (doc', rest)) (before : IsTidy (.dict doc.table)) :
    IsTidy (.dict doc'.table) := by
  unfold readSetting at h
  split at h
  · cases h
  · split at h
    · cases h
    · rename_i read
      obtain ⟨changed, added, same⟩ := map_eq_ok h
      cases same
      exact add?_isTidy (orMalformed_eq_ok added) ((readers_isTidy _).1 _ _ _ _ read) before
  · cases h

theorem openTable?_isTidy {key : Key} (h : doc.openTable? key = some doc')
    (before : IsTidy (.dict doc.table)) : IsTidy (.dict doc'.table) := by
  unfold Document.openTable? at h
  split at h
  · cases h
  · obtain ⟨table, changed, rfl⟩ := Option.map_eq_some_iff.1 h
    have keeps : KeepsTidy some := fun _ _ same tidy => Option.some.inj same ▸ tidy
    exact changeTable?_keepsTidy keeps true _ _ _ changed before

theorem openListItem?_isTidy {key : Key} (h : doc.openListItem? key = some doc')
    (before : IsTidy (.dict doc.table)) : IsTidy (.dict doc'.table) := by
  unfold Document.openListItem? at h
  split at h
  · cases h
  · obtain ⟨table, changed, rfl⟩ := Option.map_eq_some_iff.1 h
    exact changeTable?_keepsTidy (addTable?_keepsTidy _) true _ _ _ changed before

theorem readHeader_isTidy {cs : List Char} (h : readHeader doc cs = .ok (doc', rest))
    (before : IsTidy (.dict doc.table)) : IsTidy (.dict doc'.table) := by
  unfold readHeader at h
  split at h
  · split at h
    · obtain ⟨changed, opened, same⟩ := map_eq_ok h
      cases same
      exact openListItem?_isTidy (orMalformed_eq_ok opened) before
    · cases h
    · cases h
  · split at h
    · obtain ⟨changed, opened, same⟩ := map_eq_ok h
      cases same
      exact openTable?_isTidy (orMalformed_eq_ok opened) before
    · cases h
    · cases h

theorem readStatement_isTidy {size : Nat} {cs : List Char}
    (h : readStatement size doc cs = .ok (doc', rest)) (before : IsTidy (.dict doc.table)) :
    IsTidy (.dict doc'.table) := by
  unfold readStatement at h
  split at h
  · cases h
    exact before
  · split at h
    · exact readSetting_isTidy h before
    · split at h
      · exact readHeader_isTidy h before
      · cases h
        exact before

theorem readStatements_isTidy {size fuel : Nat} {cs : List Char}
    (h : readStatements size fuel doc cs = .ok doc') (before : IsTidy (.dict doc.table)) :
    IsTidy (.dict doc'.table) := by
  induction fuel generalizing doc cs with
  | zero => cases h
  | succ fuel ih =>
      unfold readStatements at h
      split at h
      · cases h
      · rename_i next rest' read
        have after := readStatement_isTidy read before
        split at h
        · cases h
        · cases h
          exact after
        · exact ih h after
        · cases h

end Statements

theorem read_isTidy {text : List Char} (h : read text = .ok table) : IsTidy (.dict table) := by
  obtain ⟨doc, read, rfl⟩ := map_eq_ok h
  exact readStatements_isTidy read isTidy_nil

end Toml

end LayerLint
