import LayerLint.Proofs.Import.Forms
import LayerLint.Proofs.Rule.Placement
import LayerLint.Proofs.Rule.Scope

/-!
# What a rule recognises in the files it sees

A pattern selects a file by the components of its relative path. The rule then looks for its folders
once more, as texts in the whole path. It finds them, wherever the project lies: `sees_recognised`. It
may find more than the pattern did, since other folders and the root are looked at too.
-/

namespace LayerLint.Rule

open Scan (relativeText)

/-! ## Names between slashes -/

theorem slash_flatMap (names : List (List Char)) (rest : List Char) :
    '/' :: (names.flatMap (· ++ ['/']) ++ rest) = names.flatMap ('/' :: ·) ++ '/' :: rest := by
  induction names with
  | nil => rfl
  | cons name names ih =>
      rw [List.flatMap_cons, List.flatMap_cons, List.append_assoc, List.append_assoc, List.append_assoc,
        List.singleton_append, ih, List.cons_append]

theorem map_forward {cs : List Char} (free : '\\' ∉ cs) :
    cs.map (fun c => if c = '\\' then '/' else c) = cs := by
  have keeps : ∀ c ∈ cs, (if c = '\\' then '/' else c) = c := by
    intro c mem
    exact if_neg fun (same : c = '\\') => free (same ▸ mem)
  rw [List.map_congr_left keeps, List.map_id']

variable {root name : String} {parts : List String}

/-- The folders that follow each other in a path do so in its text, with slashes around them. -/
theorem infix_forwardSlashes {middle : List String} (inside : middle <:+: parts)
    (free : ∀ part ∈ middle, '\\' ∉ part.toList) :
    '/' :: (middle.map String.toList).flatMap (· ++ ['/']) <:+:
      forwardSlashes (root ++ "/" ++ relativeText (parts ++ [name])) := by
  have text : ('/' :: (middle.map String.toList).flatMap (· ++ ['/'])) <:+:
      (root ++ "/" ++ relativeText (parts ++ [name])).toList := by
    obtain ⟨above, after, rfl⟩ := inside
    refine ⟨root.toList ++ (above.map String.toList).flatMap ('/' :: ·),
      (after.map String.toList).flatMap (· ++ ['/']) ++ name.toList, ?_⟩
    rw [String.toList_append, Scan.toList_relativeText, String.toList_append]
    simp only [List.map_append, List.flatMap_append, List.append_assoc, List.cons_append,
      String.reduceToList, List.nil_append, List.append_cancel_left_eq]
    rw [slash_flatMap (above.map String.toList)]
  have same : ('/' :: (middle.map String.toList).flatMap (· ++ ['/'])).map
      (fun c => if c = '\\' then '/' else c) =
        '/' :: (middle.map String.toList).flatMap (· ++ ['/']) := by
    apply map_forward
    simpa using free
  exact same ▸ text.map _

/-! ## Looking for a name behind a marker -/

theorem nameAfter?_isSome {marker next text : List Char} (ne : next ≠ []) (free : '/' ∉ next)
    (h : marker ++ next ++ ['/'] <:+: text) : (nameAfter? marker true text).isSome = true := by
  induction text with
  | nil => simp at h
  | cons c cs ih =>
      rw [nameAfter?]
      rcases List.infix_cons_iff.1 h with ⟨more, here⟩ | later
      · have dropped : Text.dropFront? marker (c :: cs) = some (next ++ '/' :: more) :=
          Import.dropFront?_eq_some_iff.2 (by simp [← here])
        have taken : (next ++ '/' :: more).takeWhile (· != '/') = next := by
          rw [List.takeWhile_append_of_pos]
          · simp
          · intro c mem
            exact bne_iff_ne.2 fun same => free (same ▸ mem)
        have closed : (next.isEmpty ||
            (true && decide (next.length = (next ++ '/' :: more).length))) = false := by
          simp [ne]
        simp only [dropped, Option.bind_some, taken]
        rw [closed]
        rfl
      · split
        · rfl
        · exact ih later

/-! ## Files that are seen -/

namespace Builtin

theorem mentions_folder {folder : String} (mem : folder ∈ parts) (free : '\\' ∉ folder.toList) :
    mentions ("/" ++ folder ++ "/")
      (forwardSlashes (root ++ "/" ++ relativeText (parts ++ [name]))) = true := by
  have inside : [folder] <:+: parts := by
    obtain ⟨above, after, rfl⟩ := List.append_of_mem mem
    exact ⟨above, after, by simp⟩
  apply Text.occursIn_iff.2
  simpa using @infix_forwardSlashes root name parts [folder] inside (by simpa using free)

theorem mentions_lower {folder : String} {text : List Char}
    (small : Text.lower ("/" ++ folder ++ "/").toList = ("/" ++ folder ++ "/").toList)
    (h : mentions ("/" ++ folder ++ "/") text = true) :
    mentions ("/" ++ folder) (Text.lower text) = true := by
  obtain ⟨front, rest, rfl⟩ := Text.occursIn_iff.1 h
  apply Text.occursIn_iff.2
  rw [Text.lower_append, Text.lower_append, small]
  refine ⟨Text.lower front, '/' :: Text.lower rest, ?_⟩
  simp

theorem nameAfter?_folder {folder next : String} (inside : [folder, next] <:+: parts)
    (plain : ∀ part ∈ parts, part ≠ "" ∧ '/' ∉ part.toList ∧ '\\' ∉ part.toList) :
    (nameAfter? (folder ++ "/").toList true
      (forwardSlashes (root ++ "/" ++ relativeText (parts ++ [name])))).isSome = true := by
  have named := plain next (inside.subset (by simp))
  have both := @infix_forwardSlashes root name parts _ inside fun part mem =>
    (plain part (inside.subset mem)).2.2
  have ne : next.toList ≠ [] := fun empty => named.1 (String.toList_eq_nil_iff.1 empty)
  apply nameAfter?_isSome ne named.2.1
  apply List.IsInfix.trans _ both
  exact ⟨['/'], [], by simp⟩

/-- The first layer that a path mentions comes no later than a layer that stands in it. -/
theorem slicedLayer?_le {file layer : String} (listed : layer ∈ slicedLayers)
    (found : mentions ("/" ++ layer ++ "/") (forwardSlashes file) = true) :
    ∃ index, slicedLayer? file = some index ∧ ∀ i layer, slicedLayers[i]? = some layer →
      mentions ("/" ++ layer ++ "/") (forwardSlashes file) = true → index ≤ i := by
  have some_ : (slicedLayer? file).isSome = true := by
    rw [slicedLayer?, List.findIdx?_isSome, List.any_eq_true]
    exact ⟨layer, listed, found⟩
  obtain ⟨index, first⟩ := Option.isSome_iff_exists.1 some_
  refine ⟨index, first, fun i other there mentioned => Nat.le_of_not_lt fun earlier => ?_⟩
  obtain ⟨_, -, before⟩ := List.findIdx?_eq_some_iff_getElem.1 first
  obtain ⟨inside, rfl⟩ := List.getElem?_eq_some_iff.1 there
  exact before i earlier mentioned

/-- A rule finds its folders in the path of every file that it sees. The first of several layers
counts. -/
theorem sees_recognised (root : String) {parts : List String} {name : String}
    (plain : ∀ part ∈ parts ++ [name], part ≠ "" ∧ '/' ∉ part.toList ∧ '\\' ∉ part.toList)
    {file : String} (path : file = root ++ "/" ++ relativeText (parts ++ [name])) :
    (layerOrder.Sees (relativeText (parts ++ [name])) →
      ∃ index, slicedLayer? file = some index ∧
        ∀ i layer, slicedLayers[i]? = some layer → layer ∈ parts → index ≤ i) ∧
    (segregation.Sees (relativeText (parts ++ [name])) →
      mentions "/command" (Text.lower (forwardSlashes file)) = true ∨
        mentions "/query" (Text.lower (forwardSlashes file)) = true) ∧
    (featureIsolation.Sees (relativeText (parts ++ [name])) →
      (∃ next, ["features", next] <:+: parts) →
        (nameAfter? "features/".toList true (forwardSlashes file)).isSome = true) ∧
    (moduleIsolation.Sees (relativeText (parts ++ [name])) →
      (∃ next, ["modules", next] <:+: parts) →
        (nameAfter? "modules/".toList true (forwardSlashes file)).isSome = true) := by
  subst path
  have inParts : ∀ part ∈ parts, part ≠ "" ∧ '/' ∉ part.toList ∧ '\\' ∉ part.toList :=
    fun part mem => plain part (List.mem_append_left _ mem)
  have above (rule : Builtin) (seen : rule.Sees (relativeText (parts ++ [name]))) :
      ∃ folder ∈ rule.folders, folder ∈ parts := by
    have bare := (plain name (by simp)).2.1
    exact ((rule.sees_iff (fun part mem => ⟨(inParts part mem).1, (inParts part mem).2.1⟩) bare).1
      seen).1
  have mentioned {folder : String} (mem : folder ∈ parts) := @mentions_folder root name parts folder mem
    (inParts folder mem).2.2
  refine ⟨fun seen => ?_, fun seen => ?_, fun _ => ?_, fun _ => ?_⟩
  · obtain ⟨layer, listed, mem⟩ := above layerOrder seen
    obtain ⟨index, first, least⟩ := slicedLayer?_le listed (mentioned mem)
    exact ⟨index, first, fun i other there mem => least i other there (mentioned mem)⟩
  · obtain ⟨folder, listed, mem⟩ := above segregation seen
    change folder ∈ ["command", "query"] at listed
    simp only [List.mem_cons, List.not_mem_nil, or_false] at listed
    rcases listed with rfl | rfl
    · exact .inl (mentions_lower (by decide +kernel) (mentioned mem))
    · exact .inr (mentions_lower (by decide +kernel) (mentioned mem))
  · rintro ⟨next, inside⟩
    exact nameAfter?_folder inside inParts
  · rintro ⟨next, inside⟩
    exact nameAfter?_folder inside inParts

/-- The root may lie in a layer too, and then this one counts. -/
theorem sees_recognised_nested :
    layerOrder.Sees "pages/cart/widgets/list.tsx" ∧
      (∃ index, slicedLayer? "/home/shared/shop/pages/cart/widgets/list.tsx" = some index ∧
        index ≤ 3) ∧
      featureIsolation.Sees "features/features/cart/index.ts" ∧
      (nameAfter? "features/".toList true
        (forwardSlashes "C:\\features/features/features/cart/index.ts")).isSome = true := by
  have layers : layerOrder.Sees "pages/cart/widgets/list.tsx" :=
    (@sees_iff ["pages", "cart", "widgets"] "list.tsx" layerOrder (by decide +kernel) (by decide)).2
      (by decide +kernel)
  have features : featureIsolation.Sees "features/features/cart/index.ts" :=
    (@sees_iff ["features", "features", "cart"] "index.ts" featureIsolation (by decide +kernel)
      (by decide)).2 (by decide +kernel)
  obtain ⟨ordered, -⟩ := @sees_recognised "/home/shared/shop" ["pages", "cart", "widgets"] "list.tsx"
    (by decide +kernel) _ rfl
  obtain ⟨-, -, isolated, -⟩ := @sees_recognised "C:\\features" ["features", "features", "cart"]
    "index.ts" (by decide +kernel) _ rfl
  refine ⟨layers, ?_, features, ?_⟩
  · obtain ⟨index, first, least⟩ := ordered layers
    exact ⟨index, first, least 3 "widgets" rfl (by simp)⟩
  · exact isolated features ⟨"features", [], ["cart"], rfl⟩

end Builtin

end LayerLint.Rule
