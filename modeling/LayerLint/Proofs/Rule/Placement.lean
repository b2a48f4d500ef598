import LayerLint.Proofs.Scan.Selected
import LayerLint.Rule.Builtin

/-!
# Where a project lies

The built-in rules look for names in the whole path of a file. A root is neutral if it has none of
these names in its own path. Below a neutral root a rule says what it would say if the project were
at the top: `complaints_neutral`. What a rule looks for has slashes at its ends only, so it does not
begin in the root and end below it.
-/

namespace LayerLint

/-! ## Looking across a slash -/

namespace Text

theorem occursIn_iff {part text : List Char} : occursIn part text = true ↔ part <:+: text := by
  induction text with
  | nil => rw [occursIn, List.isEmpty_iff, List.infix_nil]
  | cons c cs ih =>
      rw [occursIn, Bool.or_eq_true, ih, List.isPrefixOf_iff_prefix, List.infix_cons_iff]

/-- What has no slash inside lies on one side of a slash, with the slash or without it. -/
theorem infix_slash {marker front rest : List Char} (inner : '/' ∉ marker.tail.dropLast)
    (h : marker <:+: front ++ '/' :: rest) : marker <:+: front ++ ['/'] ∨ marker <:+: '/' :: rest := by
  obtain ⟨before, after, same⟩ := h
  rw [List.append_assoc] at same
  rcases List.append_eq_append_iff.1 same with ⟨more, rfl, tail⟩ | ⟨more, rfl, tail⟩
  · rcases List.append_eq_append_iff.1 tail with ⟨gap, rfl, -⟩ | ⟨beyond, rfl, reached⟩
    · exact .inl ⟨before, gap ++ ['/'], by simp⟩
    · -- The marker starts in front of the slash and may reach it.
      rcases List.cons_eq_append_iff.1 reached with ⟨rfl, -⟩ | ⟨end_, rfl, -⟩
      · exact .inl ⟨before, ['/'], by simp⟩
      · cases more with
        | nil => exact .inr ⟨[], after, by rw [reached]; rfl⟩
        | cons c more =>
            by_cases last : end_ = []
            · exact .inl ⟨before, [], by simp [last]⟩
            · rw [List.cons_append, List.tail_cons, List.dropLast_append_of_ne_nil (by simp)] at inner
              refine absurd (List.mem_append_right more ?_) inner
              rw [List.dropLast_cons_of_ne_nil last]
              exact List.mem_cons_self
  · exact .inr ⟨more, after, by rw [List.append_assoc, tail]⟩

theorem occursIn_slash {marker front : List Char} (inner : '/' ∉ marker.tail.dropLast)
    (absent : occursIn marker (front ++ ['/']) = false) (rest : List Char) :
    occursIn marker (front ++ '/' :: rest) = occursIn marker ('/' :: rest) := by
  rw [Bool.eq_iff_iff, occursIn_iff, occursIn_iff]
  constructor
  · intro h
    refine (infix_slash inner h).resolve_left fun inFront => ?_
    rw [occursIn_iff.2 inFront] at absent
    cases absent
  · rintro ⟨before, after, same⟩
    exact ⟨front ++ before, after, by rw [← same]; simp⟩

theorem lower_append (xs ys : List Char) : lower (xs ++ ys) = lower xs ++ lower ys :=
  List.flatMap_append

end Text

namespace Rule

theorem forwardSlashes_append (s t : String) :
    forwardSlashes (s ++ t) = forwardSlashes s ++ forwardSlashes t := by
  rw [forwardSlashes, String.toList_append, List.map_append]
  rfl

theorem baseName_slash (front rest : List Char) : baseName (front ++ '/' :: rest) = baseName rest := by
  unfold baseName
  rw [List.reverse_append, List.reverse_cons, List.append_assoc, List.takeWhile_append]
  split
  · rename_i all
    have whole := (List.takeWhile_prefix (· != '/')).eq_of_length all
    simp [whole]
  · rfl

/-- A marker whose only slash is at its end is not found across another slash. -/
theorem dropFront?_slash {marker front : List Char} (inner : '/' ∉ marker.dropLast)
    (absent : Text.occursIn marker (front ++ ['/']) = false) (rest : List Char) :
    Text.dropFront? marker (front ++ '/' :: rest) = none := by
  rw [Option.eq_none_iff_forall_ne_some]
  intro after h
  have same : (front ++ ['/']) ++ rest = marker ++ after := by
    rw [← Text.eq_append_of_dropFront? h, List.append_assoc]
    rfl
  have missing : ¬ marker <:+: front ++ ['/'] := fun inFront => by
    rw [Text.occursIn_iff.2 inFront] at absent
    cases absent
  rcases List.append_eq_append_iff.1 same with ⟨more, hmarker, -⟩ | ⟨more, hfront, -⟩
  · by_cases last : more = []
    · exact missing (by simp [hmarker, last])
    · rw [hmarker, List.dropLast_append_of_ne_nil last] at inner
      exact inner (by simp)
  · exact missing ⟨[], more, hfront.symm⟩

theorem nameAfter?_slash {marker front : List Char} (inner : '/' ∉ marker.dropLast)
    (absent : Text.occursIn marker (front ++ ['/']) = false) (closed : Bool) (rest : List Char) :
    nameAfter? marker closed (front ++ '/' :: rest) = nameAfter? marker closed rest := by
  have here := dropFront?_slash inner absent rest
  induction front with
  | nil =>
      rw [List.nil_append, nameAfter?]
      rw [List.nil_append] at here
      rw [here]
      rfl
  | cons c front ih =>
      rw [List.cons_append, Text.occursIn, Bool.or_eq_false_iff] at absent
      rw [List.cons_append] at here
      rw [List.cons_append, nameAfter?, here]
      exact ih absent.2 (dropFront?_slash inner absent.2 rest)

/-! ## Neutral roots -/

/-- The path of a root, as the rules look at it. -/
def rootText (root : Location) : List Char :=
  forwardSlashes (Location.text root ++ "/")

/-- The path of the root has nothing in it that a rule looks for. -/
structure IsNeutral (root : Location) : Prop where
  parts : ∀ marker ∈ ["features/", "modules/"], mentions marker (rootText root) = false
  layers : ∀ layer ∈ slicedLayers, mentions ("/" ++ layer ++ "/") (rootText root) = false
  sides : ∀ side ∈ ["/command", "/query"], mentions side (Text.lower (rootText root)) = false

instance (root : Location) : Decidable (IsNeutral root) :=
  decidable_of_iff
    ((∀ marker ∈ ["features/", "modules/"], mentions marker (rootText root) = false) ∧
      (∀ layer ∈ slicedLayers, mentions ("/" ++ layer ++ "/") (rootText root) = false) ∧
      ∀ side ∈ ["/command", "/query"], mentions side (Text.lower (rootText root)) = false)
    ⟨fun ⟨parts, layers, sides⟩ => ⟨parts, layers, sides⟩,
      fun ⟨parts, layers, sides⟩ => ⟨parts, layers, sides⟩⟩

section Neutral

variable {root : Location}

theorem forwardSlashes_slashed (ne : root ≠ []) (rest : String) :
    forwardSlashes (Scan.slashed root ++ rest) =
      forwardSlashes (Location.text root) ++ '/' :: forwardSlashes rest := by
  rw [Scan.slashed, if_neg ne, forwardSlashes_append, forwardSlashes_append, List.append_assoc]
  rfl

theorem rootText_eq (root : Location) :
    rootText root = forwardSlashes (Location.text root) ++ ['/'] :=
  forwardSlashes_append ..

theorem nameAfter?_neutral (neutral : IsNeutral root) (ne : root ≠ []) {marker : String}
    (mem : marker ∈ ["features/", "modules/"]) (rest : String) :
    nameAfter? marker.toList true (forwardSlashes (Scan.slashed root ++ rest)) =
      nameAfter? marker.toList true (forwardSlashes ("/" ++ rest)) := by
  have absent := neutral.parts marker mem
  rw [rootText_eq] at absent
  have inner : '/' ∉ marker.toList.dropLast ∧ Text.occursIn marker.toList ['/'] = false := by
    simp only [List.mem_cons, List.not_mem_nil, or_false] at mem
    rcases mem with rfl | rfl <;> decide
  rw [forwardSlashes_slashed ne, forwardSlashes_append, nameAfter?_slash inner.1 absent]
  exact (@nameAfter?_slash marker.toList [] inner.1 inner.2 true _).symm

theorem slicedLayer?_neutral (neutral : IsNeutral root) (ne : root ≠ []) (rest : String) :
    slicedLayer? (Scan.slashed root ++ rest) = slicedLayer? ("/" ++ rest) := by
  have each : ∀ layer ∈ slicedLayers,
      mentions ("/" ++ layer ++ "/") (forwardSlashes (Scan.slashed root ++ rest)) =
        mentions ("/" ++ layer ++ "/") (forwardSlashes ("/" ++ rest)) := by
    intro layer mem
    have absent := neutral.layers layer mem
    rw [rootText_eq] at absent
    have inner : ∀ layer ∈ slicedLayers, '/' ∉ ("/" ++ layer ++ "/").toList.tail.dropLast := by
      decide
    rw [forwardSlashes_slashed ne, forwardSlashes_append]
    exact Text.occursIn_slash (inner layer mem) absent _
  unfold slicedLayer?
  generalize slicedLayers = layers at each ⊢
  induction layers with
  | nil => rfl
  | cons layer layers ih =>
      rw [List.forall_mem_cons] at each
      rw [List.findIdx?_cons, List.findIdx?_cons, each.1, ih each.2]

theorem mentions_lower_neutral (neutral : IsNeutral root) (ne : root ≠ []) {side : String}
    (mem : side ∈ ["/command", "/query"]) (rest : String) :
    mentions side (Text.lower (forwardSlashes (Scan.slashed root ++ rest))) =
      mentions side (Text.lower (forwardSlashes ("/" ++ rest))) := by
  have absent := neutral.sides side mem
  rw [rootText_eq, Text.lower_append] at absent
  have inner : ∀ side ∈ ["/command", "/query"], '/' ∉ side.toList.tail.dropLast := by decide
  rw [forwardSlashes_slashed ne, forwardSlashes_append, Text.lower_append]
  exact Text.occursIn_slash (inner side mem) absent _

/-- Below a neutral root a rule says what it says at the top. -/
theorem Builtin.complaints_neutral (rule : Builtin) (neutral : IsNeutral root) (rest : String)
    (imports : List String) :
    rule.complaints (Scan.slashed root ++ rest) imports = rule.complaints ("/" ++ rest) imports := by
  by_cases top : root = []
  · rw [Scan.slashed, if_pos top]
  cases rule
  case featureIsolation =>
    rw [complaints, complaints, nameAfter?_neutral neutral top (by simp)]
  case moduleIsolation =>
    rw [complaints, complaints, nameAfter?_neutral neutral top (by simp)]
  case noImplInDomain =>
    have base : baseName (forwardSlashes ("/" ++ rest)) = baseName (forwardSlashes rest) :=
      (congrArg baseName (forwardSlashes_append ..)).trans (baseName_slash [] _)
    rw [complaints, complaints, base, forwardSlashes_slashed top, baseName_slash]
  case layerOrder =>
    rw [complaints, complaints, slicedLayer?_neutral neutral top]
  case segregation =>
    simp only [complaints]
    rw [mentions_lower_neutral neutral top (by simp), mentions_lower_neutral neutral top (by simp)]
  all_goals rfl

end Neutral

end Rule

end LayerLint
