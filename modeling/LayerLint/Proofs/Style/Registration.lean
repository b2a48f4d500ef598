import LayerLint.Rule
import Mathlib.Data.List.Duplicate

/-!
# Registration of styles

What tables a registry is built from, and what it answers. A `Fault` is something wrong with tables,
with the failure that reports it. Tables are refused if and only if they have a fault, and what is
reported is one of their faults. In a registry that was built, all ways to ask for a style agree, and
rules are listed for none but its own styles (`build_exact`).
-/

namespace LayerLint.Style

/-! ## Faults of tables -/

/-- What stands in a constraint for a layer: its name, or the name with the mark of its slices. A name
with the mark stands for nothing else, even if a layer has that name. -/
def RefersTo (name layer : String) : Prop :=
  name = layer ++ "/*" ∨ name = layer ∧ ¬ "/*".toList <:+ name.toList

inductive Definition.Fault (d : Definition) : Failure → Prop
  | layer {name : String} : List.Duplicate name d.layerNames →
      d.Fault (.invalidSetting "layers" d.style.id "duplicate layer name")
  | constraint {c : Constraint} {name : String} : c ∈ d.constraints →
      name ∈ c.source :: c.forbidden → (∀ layer ∈ d.layerNames, ¬ RefersTo name layer) →
      d.Fault (.invalidSetting "constraints" d.style.id ("unknown layer '" ++ name ++ "'"))

inductive Fault (definitions : List Definition) (ruleTable : List (Style × List String)) :
    Failure → Prop
  | style {style : Style} : List.Duplicate style (definitions.map (·.style)) →
      Fault definitions ruleTable (.invalidSetting "architecture" style.id "duplicate id")
  | definition {d : Definition} {failure : Failure} : d ∈ definitions → d.Fault failure →
      Fault definitions ruleTable failure
  | rules {style : Style} {ids : List String} : (style, ids) ∈ ruleTable →
      style ∉ definitions.map (·.style) →
      Fault definitions ruleTable (.invalidSetting "style_rules" style.id "no such architecture")

theorem Fault.kind {definitions : List Definition} {ruleTable : List (Style × List String)}
    {failure : Failure} (h : Fault definitions ruleTable failure) :
    failure.kind = "InvalidConfigError" := by
  cases h with
  | style _ => rfl
  | definition _ fault => cases fault <;> rfl
  | rules _ _ => rfl

theorem baseLayer_eq_iff {name layer : String} : baseLayer name = layer ↔ RefersTo name layer := by
  unfold baseLayer RefersTo
  by_cases ends : "/*".toList <:+ name.toList
  · rw [if_pos (List.isSuffixOf_iff_suffix.2 ends)]
    obtain ⟨front, text⟩ := ends
    obtain rfl : String.ofList front ++ "/*" = name := by
      rw [← String.toList_inj, String.toList_append, String.toList_ofList, text]
    have base : (String.ofList front ++ "/*").toList.take
        ((String.ofList front ++ "/*").toList.length - 2) = front := by
      simp
    rw [base]
    simp [← String.toList_inj]
  · rw [if_neg fun h => ends (List.isSuffixOf_iff_suffix.1 h)]
    constructor
    · intro same
      exact .inr ⟨same, ends⟩
    · rintro (rfl | ⟨same, -⟩)
      · exact absurd (String.toList_append ▸ List.suffix_append _ _) ends
      · exact same

/-! ## Checks of tables -/

theorem Definition.strayLayer?_eq_none_iff {d : Definition} :
    d.strayLayer? = none ↔ ∀ c ∈ d.constraints, ∀ name ∈ c.source :: c.forbidden,
      ∃ layer ∈ d.layerNames, RefersTo name layer := by
  simp only [strayLayer?, List.find?_eq_none, List.mem_flatMap, Bool.not_eq_true',
    Bool.not_eq_false, List.contains_iff_mem, ← baseLayer_eq_iff, exists_eq_right']
  exact ⟨fun h c mem name inside => h name ⟨c, mem, inside⟩,
    fun h name ⟨c, mem, inside⟩ => h c mem name inside⟩

theorem Definition.fault_of_check {d : Definition} {failure : Failure}
    (h : d.check = .error failure) : d.Fault failure := by
  unfold check at h
  split at h
  · rename_i repeated
    obtain rfl := Except.error.inj h
    obtain ⟨name, twice⟩ := List.exists_duplicate_iff_not_nodup.2 (by simpa using repeated)
    exact .layer twice
  · split at h
    · rename_i name stray
      obtain rfl := Except.error.inj h
      obtain ⟨c, mem, inside⟩ := List.mem_flatMap.1 (List.mem_of_find?_eq_some stray)
      apply Fault.constraint mem inside
      intro layer known refers
      have unknown := List.find?_some stray
      rw [baseLayer_eq_iff.2 refers] at unknown
      simp [known] at unknown
    · cases h

theorem Definition.not_fault_of_check {d : Definition} (h : d.check = .ok ()) (failure : Failure) :
    ¬ d.Fault failure := by
  unfold check at h
  split at h
  · cases h
  · rename_i distinct
    split at h
    · cases h
    · rename_i known
      intro fault
      cases fault with
      | layer twice => exact twice.not_nodup (by simpa using distinct)
      | constraint mem inside stray =>
          obtain ⟨layer, hlayer, refers⟩ := strayLayer?_eq_none_iff.1 known _ mem _ inside
          exact stray layer hlayer refers

theorem fault_of_checkDefinitions {seen : List Style} {definitions : List Definition}
    {failure : Failure} (h : checkDefinitions seen definitions = .error failure) :
    (∃ d ∈ definitions, d.Fault failure) ∨
      ∃ d ∈ definitions, failure = .invalidSetting "architecture" d.style.id "duplicate id" ∧
        (d.style ∈ seen ∨ List.Duplicate d.style (definitions.map (·.style))) := by
  fun_induction checkDefinitions seen definitions with
  | case1 => cases h
  | case2 seen d rest repeated =>
      exact .inr ⟨d, by simp, (Except.error.inj h).symm, .inl (by simpa using repeated)⟩
  | case3 seen d rest fresh other refused =>
      obtain rfl := Except.error.inj h
      exact .inl ⟨d, by simp, Definition.fault_of_check refused⟩
  | case4 seen d rest fresh passed ih =>
      rcases ih h with ⟨e, mem, fault⟩ | ⟨e, mem, text, repeated⟩
      · exact .inl ⟨e, by simp [mem], fault⟩
      · refine .inr ⟨e, by simp [mem], text, ?_⟩
        have inRest : e.style ∈ rest.map (·.style) := List.mem_map_of_mem mem
        rcases repeated with before | twice
        · rcases List.mem_cons.1 before with same | before
          · exact .inr (List.duplicate_cons_iff.2 (.inl ⟨same.symm, inRest⟩))
          · exact .inl before
        · exact .inr (twice.duplicate_cons _)

theorem not_fault_of_checkDefinitions {seen : List Style} {definitions : List Definition}
    (h : checkDefinitions seen definitions = .ok ()) :
    (∀ d ∈ definitions, d.style ∉ seen ∧ d.check = .ok ()) ∧ (definitions.map (·.style)).Nodup := by
  fun_induction checkDefinitions seen definitions with
  | case1 => simp
  | case2 => cases h
  | case3 => cases h
  | case4 seen d rest fresh passed ih =>
      obtain ⟨each, distinct⟩ := ih h
      refine ⟨List.forall_mem_cons.2 ⟨⟨by simpa using fresh, passed⟩, fun e mem => ?_⟩, ?_⟩
      · exact ⟨fun before => (each e mem).1 (List.mem_cons_of_mem _ before), (each e mem).2⟩
      · refine List.nodup_cons.2 ⟨fun again => ?_, distinct⟩
        obtain ⟨e, mem, same⟩ := List.mem_map.1 again
        exact (each e mem).1 (by simp [same])

namespace Registry

variable {definitions : List Definition} {ruleTable : List (Style × List String)}

theorem fault_of_build {failure : Failure} (h : build definitions ruleTable = .error failure) :
    Fault definitions ruleTable failure := by
  unfold build at h
  split at h
  · rename_i refused
    obtain rfl := Except.error.inj h
    rcases fault_of_checkDefinitions refused with ⟨d, mem, fault⟩ | ⟨d, mem, rfl, seen | twice⟩
    · exact .definition mem fault
    · cases seen
    · exact .style twice
  · split at h
    · rename_i style ids stray
      obtain rfl := Except.error.inj h
      apply Fault.rules (List.mem_of_find?_eq_some stray)
      simpa using List.find?_some stray
    · cases h

theorem build_eq_ok {r : Registry} (h : build definitions ruleTable = .ok r) :
    r = ⟨definitions, ruleTable⟩ ∧ (definitions.map (·.style)).Nodup ∧
      (∀ d ∈ definitions, d.check = .ok ()) ∧
      ∀ row ∈ ruleTable, row.1 ∈ definitions.map (·.style) := by
  unfold build at h
  split at h
  · cases h
  · rename_i passed
    split at h
    · cases h
    · rename_i known
      obtain ⟨each, distinct⟩ := not_fault_of_checkDefinitions passed
      refine ⟨(Except.ok.inj h).symm, distinct, fun d mem => (each d mem).2, fun row mem => ?_⟩
      simpa using List.find?_eq_none.1 known row mem

theorem not_fault_of_build {r : Registry} (h : build definitions ruleTable = .ok r)
    (failure : Failure) : ¬ Fault definitions ruleTable failure := by
  obtain ⟨-, distinct, passed, known⟩ := build_eq_ok h
  intro fault
  cases fault with
  | style twice => exact twice.not_nodup distinct
  | definition mem fault => exact Definition.not_fault_of_check (passed _ mem) _ fault
  | rules mem unknown => exact unknown (known _ mem)

end Registry

/-! ## Lookups -/

theorem ofId?_eq_some_iff {id : String} {style : Style} : ofId? id = some style ↔ style.id = id := by
  constructor
  · intro h
    simpa using List.find?_some h
  · rintro rfl
    cases style <;> rfl

theorem id_inj {style other : Style} (same : style.id = other.id) : style = other := by
  have found := ofId?_eq_some_iff.2 same
  rw [ofId?_eq_some_iff.2 rfl] at found
  exact (Option.some.inj found).symm

namespace Registry

theorem get?_eq_some_iff {r : Registry} (distinct : (r.definitions.map (·.style)).Nodup)
    {id : String} {d : Definition} : r.get? id = some d ↔ d ∈ r.definitions ∧ d.style.id = id := by
  simp only [get?, Option.bind_eq_some_iff, ofId?_eq_some_iff]
  constructor
  · rintro ⟨style, rfl, found⟩
    have same : d.style = style := by simpa using List.find?_some found
    exact ⟨List.mem_of_find?_eq_some found, by rw [same]⟩
  · rintro ⟨mem, rfl⟩
    refine ⟨d.style, rfl, ?_⟩
    cases found : r.definitions.find? (·.style = d.style) with
    | none => simpa using List.find?_eq_none.1 found d mem
    | some e =>
        have same : e.style = d.style := by simpa using List.find?_some found
        exact congrArg some (List.inj_on_of_nodup_map distinct (List.mem_of_find?_eq_some found) mem same)

theorem isSome_get?_iff {r : Registry} (distinct : (r.definitions.map (·.style)).Nodup)
    (id : String) : (r.get? id).isSome ↔ id ∈ r.styleIds := by
  simp only [Option.isSome_iff_exists, get?_eq_some_iff distinct, styleIds, List.mem_map]

theorem nodup_styleIds {r : Registry} (distinct : (r.definitions.map (·.style)).Nodup) :
    r.styleIds.Nodup := by
  have ids : r.styleIds = (r.definitions.map (·.style)).map Style.id := by simp [styleIds]
  rw [ids]
  exact distinct.map fun _ _ => id_inj

theorem require_of_get? {r : Registry} {id : String} {d : Definition} (h : r.get? id = some d) :
    r.require id = .ok d := by
  rw [require, h]

theorem exists_require_iff {r : Registry} {id : String} :
    (∃ d, r.require id = .ok d) ↔ (r.get? id).isSome := by
  rw [require]
  cases r.get? id <;> simp

theorem mem_styleIds_of_ruleIds {r : Registry}
    (known : ∀ row ∈ r.ruleTable, row.1 ∈ r.definitions.map (·.style)) {id : String}
    (listed : r.ruleIds id ≠ []) : id ∈ r.styleIds := by
  unfold ruleIds at listed
  cases found : (ofId? id).bind fun style => r.ruleTable.lookup style with
  | none => simp [found] at listed
  | some ids =>
      obtain ⟨style, parsed, row⟩ := Option.bind_eq_some_iff.1 found
      obtain ⟨before, after, table, -⟩ := List.lookup_eq_some_iff.1 row
      obtain ⟨d, mem, same⟩ := List.mem_map.1 (known (style, ids) (by simp [table]))
      obtain rfl := ofId?_eq_some_iff.1 parsed
      exact List.mem_map.2 ⟨d, mem, by rw [same]⟩

end Registry

end LayerLint.Style

/-! ## Selected rules -/

namespace LayerLint.Rule

theorem Builtin.id_of_ofId? {id : String} {rule : Builtin} (h : ofId? id = some rule) :
    rule.id = id := by
  simpa using List.find?_some h

theorem ids_of_builtins {ids : List String} {rules : List Rule} (h : builtins ids = .ok rules) :
    rules.map Rule.id = ids := by
  induction ids generalizing rules with
  | nil =>
      obtain rfl := Except.ok.inj h
      rfl
  | cons id ids ih =>
      rw [builtins] at h
      split at h
      · cases h
      · rename_i rule found
        split at h
        · cases h
        · rename_i more tail
          obtain rfl := Except.ok.inj h
          rw [List.map_cons, ih tail]
          exact congrArg (· :: ids) (Builtin.id_of_ofId? found)

/-- Asking whether a style is known first loses no rule of the table. -/
theorem ids_of_select {r : Style.Registry} {style : String}
    (known : r.ruleIds style ≠ [] → r.contains style = true) {extra : List Candidate}
    {selection : Selection} (h : select r style extra = .ok selection) :
    ∃ brought, guardAll extra = .ok brought ∧
      selection.rules.map Rule.id = brought.map Rule.id ++ r.ruleIds style := by
  unfold select at h
  split at h
  · cases h
  · rename_i brought guarded
    refine ⟨brought, guarded, ?_⟩
    split at h
    · split at h
      · cases h
      · rename_i own builtin
        obtain rfl := Except.ok.inj h
        rw [List.map_append, ids_of_builtins builtin]
    · rename_i unknown
      obtain rfl := Except.ok.inj h
      have none : r.ruleIds style = [] := Classical.not_not.1 (mt known unknown)
      rw [none, List.append_nil]

end LayerLint.Rule

/-! ## The whole registry -/

namespace LayerLint.Style.Registry

/-- Tables make a registry unless they have a fault. All ways to ask a registry for a style agree, and
the lists that it gives have the order of the table. -/
theorem build_exact (definitions : List Definition) (ruleTable : List (Style × List String)) :
    ((∃ failure, build definitions ruleTable = .error failure) ↔
      ∃ failure, Fault definitions ruleTable failure) ∧
    (∀ failure, build definitions ruleTable = .error failure →
      Fault definitions ruleTable failure ∧ failure.kind = "InvalidConfigError") ∧
    ∀ r, build definitions ruleTable = .ok r →
      r.definitions = definitions ∧ r.styleIds = definitions.map (·.style.id) ∧ r.styleIds.Nodup ∧
      (∀ style : Style, style.id ∈ r.styleIds ↔ ∃ d ∈ definitions, d.style = style) ∧
      (∀ id : String,
        ((r.get? id).isSome ↔ id ∈ r.styleIds) ∧ (r.contains id = true ↔ id ∈ r.styleIds) ∧
        ((∃ d, r.require id = .ok d) ↔ id ∈ r.styleIds) ∧
        (∀ d, r.get? id = some d →
          d ∈ definitions ∧ d.style.id = id ∧ r.require id = .ok d) ∧
        (r.ruleIds id ≠ [] → id ∈ r.styleIds) ∧
        ∀ extra selection, Rule.select r id extra = .ok selection →
          ∃ brought, Rule.guardAll extra = .ok brought ∧
            selection.rules.map Rule.id = brought.map Rule.id ++ r.ruleIds id) ∧
      ∀ profile : String, (r.forProfile profile).Sublist definitions ∧
        ∀ d, d ∈ r.forProfile profile ↔ d ∈ definitions ∧ profile ∈ d.profiles := by
  refine ⟨⟨?_, ?_⟩, fun failure refused => ?_, fun r built => ?_⟩
  · rintro ⟨failure, refused⟩
    exact ⟨failure, fault_of_build refused⟩
  · rintro ⟨failure, fault⟩
    cases built : build definitions ruleTable with
    | error failure => exact ⟨failure, rfl⟩
    | ok r => exact absurd fault (not_fault_of_build built failure)
  · exact ⟨fault_of_build refused, (fault_of_build refused).kind⟩
  · obtain ⟨rfl, distinct, -, known⟩ := build_eq_ok built
    have listed (id : String) : ruleIds ⟨definitions, ruleTable⟩ id ≠ [] →
        id ∈ styleIds ⟨definitions, ruleTable⟩ := mem_styleIds_of_ruleIds known
    refine ⟨rfl, rfl, nodup_styleIds distinct, fun style => ?_, fun id => ?_, fun profile => ?_⟩
    · rw [styleIds, List.mem_map]
      exact exists_congr fun d => and_congr_right fun _ => ⟨id_inj, congrArg Style.id⟩
    · have found := @isSome_get?_iff ⟨definitions, ruleTable⟩ distinct id
      refine ⟨found, found, exists_require_iff.trans found, fun d here => ?_, listed id, ?_⟩
      · obtain ⟨mem, same⟩ := (get?_eq_some_iff distinct).1 here
        exact ⟨mem, same, require_of_get? here⟩
      · intro extra selection
        exact Rule.ids_of_select fun some => found.2 (listed id some)
    · refine ⟨List.filter_sublist, fun d => ?_⟩
      simp [forProfile, Definition.supports]

theorem build_standard : build Style.definitions Style.ruleTable = .ok standard := by
  have passed : checkDefinitions [] Style.definitions = .ok () := by decide +kernel
  have known : ∀ row ∈ Style.ruleTable, row.1 ∈ Style.definitions.map (·.style) := by decide
  have none : Style.ruleTable.find? (fun row => !(Style.definitions.map (·.style)).contains row.1) =
      none := List.find?_eq_none.2 fun row mem => by simpa using known row mem
  unfold build
  rw [passed]
  simp only [none]
  rfl

/-- The tables that are there make a registry, and with one definition twice they do not. -/
theorem build_exact_standard :
    build Style.definitions Style.ruleTable = .ok standard ∧ standard.styleIds.Nodup ∧
      (∃ d, standard.require "ddd" = .ok d) ∧ standard.ruleIds "onion" = [] ∧
      ∃ failure, build (cleanDefinition :: Style.definitions) Style.ruleTable = .error failure := by
  obtain ⟨-, -, exact⟩ := build_exact Style.definitions Style.ruleTable
  obtain ⟨-, -, distinct, -, asked, -⟩ := exact standard build_standard
  have twice : List.Duplicate Style.clean
      ((cleanDefinition :: Style.definitions).map (·.style)) :=
    List.duplicate_cons_iff.2 (.inl ⟨rfl, by decide⟩)
  refine ⟨build_standard, distinct, (asked "ddd").2.2.1.2 (by decide), ?_, ?_⟩
  · exact Classical.not_not.1 fun listed =>
      absurd ((asked "onion").2.2.2.2.1 listed) (by decide)
  · exact (build_exact _ _).1.2 ⟨_, .style twice⟩

-- A layer may have the mark of slices in its name, but no constraint can stand for it.
example : RefersTo "a/*" "a" ∧ ¬ RefersTo "a/*" "a/*" := by
  simp only [← baseLayer_eq_iff]
  decide

end LayerLint.Style.Registry
