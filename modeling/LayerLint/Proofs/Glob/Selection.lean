import LayerLint.Proofs.Glob.Choices
import LayerLint.Proofs.Glob.Meaning

/-!
# Selected paths

From the meaning of one segment to the paths that a glob selects: a pattern is cut into segments at
its slashes, its segments are the items of its expression, and the expression of every pattern that
the choices of a glob stand for can be read.
-/

namespace LayerLint.Glob

/-! ## Cutting at slashes -/

theorem splitOn_eq (sep : Char) (cs : List Char) : Text.splitOn sep cs = cs.splitOn sep := by
  induction cs with
  | nil => rfl
  | cons c cs ih =>
      rw [Text.splitOn, List.splitOn_cons_eq_if_modifyHead, ih]
      by_cases hc : c = sep
      · simp [hc]
      · rw [if_neg hc, if_neg (by simpa using hc)]
        cases h : cs.splitOn sep with
        | nil => exact absurd h (List.splitOn_ne_nil sep cs)
        | cons piece pieces => rfl

theorem splitOn_first {sep : Char} {cs first : List Char} {pieces : List (List Char)}
    (h : Text.splitOn sep cs = first :: pieces) :
    ∃ after, cs = first ++ after ∧ ∀ c, after.head? = some c → c = sep := by
  induction cs generalizing first pieces with
  | nil =>
      obtain ⟨rfl, -⟩ := List.cons.inj h
      exact ⟨[], rfl, by simp⟩
  | cons c cs ih =>
      rw [Text.splitOn] at h
      split at h
      · rename_i hc
        obtain ⟨rfl, -⟩ := List.cons.inj h
        exact ⟨c :: cs, rfl, by simp [hc]⟩
      · split at h <;> rename_i heq <;> obtain ⟨rfl, -⟩ := List.cons.inj h
        · rw [splitOn_eq] at heq
          exact absurd heq (List.splitOn_ne_nil sep cs)
        · obtain ⟨after, rfl, hafter⟩ := ih heq
          exact ⟨after, rfl, hafter⟩

theorem mem_splitOn {sep : Char} {cs piece : List Char} (h : piece ∈ Text.splitOn sep cs) :
    sep ∉ piece ∧ ∃ before after, cs = before ++ piece ++ after ∧
      ∀ c, after.head? = some c → c = sep := by
  induction cs generalizing piece with
  | nil =>
      obtain rfl : piece = [] := by simpa [Text.splitOn] using h
      exact ⟨by simp, [], [], rfl, by simp⟩
  | cons c cs ih =>
      rw [Text.splitOn] at h
      split at h
      · rename_i hc
        subst hc
        rcases List.mem_cons.1 h with rfl | h
        · exact ⟨by simp, [], c :: cs, rfl, by simp⟩
        · obtain ⟨free, before, after, rfl, hafter⟩ := ih h
          exact ⟨free, c :: before, after, by simp, hafter⟩
      · rename_i hc
        split at h
        · rename_i heq
          rw [splitOn_eq] at heq
          exact absurd heq (List.splitOn_ne_nil sep cs)
        · rename_i first pieces heq
          rcases List.mem_cons.1 h with rfl | h
          · obtain ⟨free, -⟩ := ih (heq ▸ List.mem_cons_self)
            obtain ⟨after, hcs, hafter⟩ := splitOn_first heq
            exact ⟨by simp [free, Ne.symm hc], [], after, by simp [hcs], hafter⟩
          · obtain ⟨free, before, after, rfl, hafter⟩ := ih (heq ▸ List.mem_cons_of_mem _ h)
            exact ⟨free, c :: before, after, by simp, hafter⟩

/-- Cutting at slashes cuts no plain set. -/
theorem PlainSets.of_mem_splitOn {cs piece : List Char} (h : PlainSets cs)
    (mem : piece ∈ Text.splitOn '/' cs) : PlainSets piece := by
  obtain ⟨-, before, after, rfl, hafter⟩ := mem_splitOn mem
  rintro front back rfl
  obtain ⟨members, rest, heq, set⟩ := h (before ++ front) (back ++ after) (by simp)
  have closed : back ++ after = (members ++ [']']) ++ rest := by simp [heq]
  rcases List.append_eq_append_iff.1 closed with ⟨inner, hset, hinner⟩ | ⟨inner, hback, -⟩
  · cases inner with
    | nil => exact ⟨members, [], by simp_all, set⟩
    | cons c inner =>
        -- The piece would end inside the set, at a slash.
        obtain rfl := hafter c (by simp [hinner])
        have : '/' ∈ members ++ [']'] := by simp [hset]
        simp [set.slash_not_mem] at this
  · exact ⟨members, inner, by simp [hback], set⟩

/-! ## The front of a pattern -/

theorem dropHere_spec (cs : List Char) :
    ∃ n, cs = (List.replicate n ['.', '/']).flatten ++ dropHere cs ∧
      ¬ ['.', '/'] <+: dropHere cs := by
  fun_induction dropHere cs with
  | case1 cs ih =>
      obtain ⟨n, heq, hn⟩ := ih
      refine ⟨n + 1, ?_, hn⟩
      rw [List.replicate_succ, List.flatten_cons, List.append_assoc, ← heq]
      rfl
  | case2 cs hcs =>
      refine ⟨0, rfl, ?_⟩
      rintro ⟨t, rfl⟩
      exact hcs t rfl

theorem dropHere_flatten (n : Nat) {cs : List Char} (h : ¬ ['.', '/'] <+: cs) :
    dropHere ((List.replicate n ['.', '/']).flatten ++ cs) = cs := by
  induction n with
  | zero =>
      rw [List.replicate_zero, List.flatten_nil, List.nil_append]
      unfold dropHere
      split
      · rename_i t
        exact absurd ⟨t, rfl⟩ h
      · rfl
  | succ n ih => simpa [List.replicate_succ, dropHere] using ih

theorem slash_isPrefix {cs : List Char} : ['/'] <+: cs ↔ cs.head? = some '/' := by
  cases cs with
  | nil => simp
  | cons c cs => simp [List.cons_prefix_cons, eq_comm]

/-- The path that a pattern is written as is what its front leaves. -/
theorem strips_iff {p body : List Char} : Strips p body ↔ body = normalize p := by
  unfold Strips normalize
  generalize p.map (fun c => if c = '\\' then '/' else c) = cs
  simp only [slash_isPrefix]
  constructor
  · rintro ⟨n, m, rfl, here, slash⟩
    rw [dropHere_flatten n here, dropWhile_replicate_append m slash]
  · rintro rfl
    obtain ⟨n, heq, here⟩ := dropHere_spec cs
    refine ⟨n, ((dropHere cs).takeWhile (· == '/')).length, ?_, ?_, head?_dropWhile_ne '/' _⟩
    · rw [replicate_append_dropWhile]
      exact heq
    · rw [replicate_append_dropWhile]
      exact here

theorem PlainSets.map_slash {p : List Char} (h : PlainSets p) :
    PlainSets (p.map fun c => if c = '\\' then '/' else c) := by
  intro before after heq
  obtain ⟨front, back, rfl, -, hback⟩ := List.map_eq_append_iff.1 heq
  obtain ⟨c, tail, rfl, hc, rfl⟩ := List.map_eq_cons_iff.1 hback
  obtain rfl : c = '[' := by
    split at hc
    · simp at hc
    · exact hc
  obtain ⟨members, rest, rfl, set⟩ := h front tail rfl
  refine ⟨members, rest.map fun c => if c = '\\' then '/' else c, ?_, set⟩
  have same : members.map (fun c => if c = '\\' then '/' else c) = members.map id :=
    List.map_congr_left fun c hc => if_neg (set.2 c hc).isOrdinary.1
  rw [List.map_append, List.map_cons, same, List.map_id, if_neg (by decide)]

theorem PlainSets.normalize {p : List Char} (h : PlainSets p) : PlainSets (normalize p) := by
  obtain ⟨n, heq, -⟩ := dropHere_spec (p.map fun c => if c = '\\' then '/' else c)
  refine h.map_slash.of_suffix ((List.dropWhile_suffix _).trans ?_)
  exact ⟨_, heq.symm⟩

/-! ## All segments -/

theorem itemsOf_depth_cons {others : List Segment} (ne : others ≠ []) :
    itemsOf (.anyDepth :: others) = .folders :: itemsOf others := by
  cases others with
  | nil => exact absurd rfl ne
  | cons other others => rfl

theorem itemsOf_name_cons {pieces : List Piece} {others : List Segment} (ne : others ≠ []) :
    itemsOf (.name pieces :: others) =
      pieces.map Piece.item ++ .one (.single '/') :: itemsOf others := by
  cases others with
  | nil => exact absurd rfl ne
  | cons other others => rfl

theorem leaves_notBreak {s : List Char} : Leaves [] [.many .notBreak] s ↔ '\n' ∉ s := by
  constructor
  · intro h
    cases h with
    | many run hrun h =>
        rw [leaves_nil.1 h, List.append_nil]
        exact fun mem => CharClass.mem_notBreak.1 (hrun _ mem) rfl
  · intro free
    rw [← List.append_nil s]
    refine .many s (fun c hc => CharClass.mem_notBreak.2 ?_) .nil
    rintro rfl
    exact free hc

theorem leaves_name {segment : List Char} (plain : PlainSets segment) {items : List Item}
    {s : List Char} :
    Leaves [] ((readPieces segment).map Piece.item ++ .one (.single '/') :: items) s ↔
      ∃ piece t, s = piece ++ '/' :: t ∧ Fits segment piece ∧ Leaves [] items t := by
  rw [leaves_append]
  constructor
  · rintro ⟨t, hname, ht⟩
    obtain ⟨piece, rfl, hpiece⟩ := leaves_iff.1 hname
    cases ht with
    | one hc ht =>
        obtain rfl := CharClass.mem_single.1 hc
        exact ⟨piece, _, rfl, (fits_iff plain piece).2 hpiece, ht⟩
  · rintro ⟨piece, t, rfl, hpiece, ht⟩
    exact ⟨'/' :: t, leaves_iff.2 ⟨piece, rfl, (fits_iff plain piece).1 hpiece⟩,
      .one (CharClass.mem_single.2 rfl) ht⟩

/-- Segments fit the paths that their items use up. -/
theorem segmentsFit_iff {segments : List (List Char)}
    (plain : ∀ segment ∈ segments, PlainSets segment ∧ '/' ∉ segment) {s : List Char}
    (line : '\n' ∉ s) :
    SegmentsFit segments s ↔ Leaves [] (itemsOf (segments.map readSegment)) s := by
  induction segments generalizing s with
  | nil =>
      rw [List.map_nil, itemsOf, leaves_nil]
      constructor
      · intro h
        cases h
        rfl
      · rintro rfl
        exact .nil
  | cons segment segments ih =>
      obtain ⟨sets, free⟩ := plain segment (by simp)
      have ih {t : List Char} (line : '\n' ∉ t) := ih (fun q hq => plain q (by simp [hq])) line
      by_cases last : segments = []
      · subst last
        by_cases deep : segment = ['*', '*']
        · subst deep
          have : itemsOf (List.map readSegment [['*', '*']]) = [.many .notBreak] := rfl
          rw [this, leaves_notBreak]
          exact ⟨fun _ => line, fun _ => .lastDepth s⟩
        · have : itemsOf (List.map readSegment [segment]) = (readPieces segment).map Piece.item := by
            simp [readSegment, deep, itemsOf]
          rw [this, ← fits_iff sets]
          constructor
          · intro h
            cases h with
            | lastDepth => exact absurd rfl deep
            | lastName _ _ h => exact h
            | depth _ ne => exact absurd rfl ne
            | name _ ne => exact absurd rfl ne
          · exact fun h => .lastName deep (h.slash_not_mem free) h
      · have ne : segments.map readSegment ≠ [] := by simpa using last
        by_cases deep : segment = ['*', '*']
        · subst deep
          rw [List.map_cons, readSegment, if_pos rfl, itemsOf_depth_cons ne]
          constructor
          · intro h
            cases h with
            | lastDepth => exact absurd rfl last
            | lastName => exact absurd rfl last
            | depth names _ hnames h => exact .folders names hnames ((ih (by simp_all)).1 h)
            | name deep => exact absurd rfl deep
          · intro h
            cases h with
            | folders names hnames h => exact .depth names last hnames ((ih (by simp_all)).2 h)
        · rw [List.map_cons, readSegment, if_neg deep, itemsOf_name_cons ne, leaves_name sets]
          constructor
          · intro h
            cases h with
            | lastDepth => exact absurd rfl last
            | lastName => exact absurd rfl last
            | depth => exact absurd rfl deep
            | name _ _ _ hpiece h => exact ⟨_, _, rfl, hpiece, (ih (by simp_all)).1 h⟩
          · rintro ⟨piece, t, rfl, hpiece, h⟩
            exact .name deep last (hpiece.slash_not_mem free) hpiece ((ih (by simp_all)).2 h)

/-! ## Whole patterns -/

theorem mem_segments {p segment : List Char} (plain : PlainSets p)
    (mem : segment ∈ (Text.splitOn '/' (normalize p)).filter (!·.isEmpty)) :
    PlainSets segment ∧ '/' ∉ segment :=
  have piece := (List.mem_filter.1 mem).1
  ⟨plain.normalize.of_mem_splitOn piece, (mem_splitOn piece).1⟩

theorem readSegments_plain {p : List Char} (plain : PlainSets p) :
    ∀ segment ∈ readSegments p, segment.IsPlain := by
  intro segment mem
  obtain ⟨text, htext, rfl⟩ := List.mem_map.1 mem
  unfold readSegment
  split
  · trivial
  · exact readPieces_plain (mem_segments plain htext).1

theorem accepts_itemsOf {p s : List Char} (plain : PlainSets p) (line : '\n' ∉ s) :
    Regex.accepts (itemsOf (readSegments p)) s = true ↔ Meets p s := by
  have noBreak : ¬ Leaves ['\n'] (itemsOf (readSegments p)) s := by
    intro h
    obtain ⟨t, rfl, -⟩ := leaves_iff.1 h
    simp at line
  have cut : (List.splitOn '/' (normalize p)).filter (· ≠ []) =
      (Text.splitOn '/' (normalize p)).filter (!·.isEmpty) := by
    rw [splitOn_eq]
    exact List.filter_congr fun segment _ => by cases segment <;> rfl
  rw [accepts_iff, Fulfils, or_iff_left noBreak, readSegments,
    ← segmentsFit_iff (fun segment => mem_segments plain) line, ← cut]
  constructor
  · exact fun h => ⟨normalize p, strips_iff.2 rfl, h⟩
  · rintro ⟨body, hbody, h⟩
    rwa [strips_iff.1 hbody] at h

theorem mapM_some {α β : Type} {f : α → Option β} {g : α → β} {xs : List α}
    (h : ∀ x ∈ xs, f x = some (g x)) : xs.mapM f = some (xs.map g) := by
  induction xs with
  | nil => rfl
  | cons x xs ih =>
      rw [List.mapM_cons, h x (by simp), ih fun y hy => h y (by simp [hy])]
      rfl

theorem compile?_plain {pattern : String}
    (plain : ∀ p ∈ expandBraces pattern.toList, PlainSets p) :
    compile? pattern =
      some ⟨pattern, (expandBraces pattern.toList).map fun p => itemsOf (readSegments p)⟩ := by
  unfold compile?
  rw [mapM_some fun p hp => read?_regexText (readSegments_plain (plain p hp))]
  rfl

end LayerLint.Glob
