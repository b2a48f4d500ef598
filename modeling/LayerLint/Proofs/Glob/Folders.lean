import LayerLint.Proofs.Glob.Denotation
import LayerLint.Proofs.Glob.Selection

/-!
# Patterns and folders

What a pattern without brackets says about a folder it says about what lies in the folder. If it selects
the path of the folder with a slash behind it, its last segment can be left empty or be filled with any
name (`selects_inside`). If it selects the path itself, then with `/**` behind it the pattern selects
everything below the folder (`selects_below`).
-/

namespace LayerLint.Glob

/-! ## Segments -/

/-- A segment that fits the empty text is a run of asterisks. -/
theorem Fits.of_empty {segment name : List Char} (h : Fits segment []) (ne : segment ≠ [])
    (free : '/' ∉ name) : Fits segment name := by
  generalize hs : ([] : List Char) = s at h
  cases h with
  | nil => exact absurd rfl ne
  | @stars rest s n run next _ h =>
      obtain ⟨rfl, rfl⟩ := List.append_eq_nil_iff.1 hs.symm
      have last : rest = [] := by
        generalize hs : ([] : List Char) = s at h
        cases h with
        | nil => rfl
        | stars n => simp [List.replicate_succ] at next
        | any => cases hs
        | listed => cases hs
        | itself => cases hs
      subst last
      have whole : Fits (List.replicate (n + 1) '*' ++ []) (name ++ []) :=
        .stars n name (by simp) free .nil
      rwa [List.append_nil name] at whole
  | any => cases hs
  | listed => cases hs
  | itself => cases hs

/-- A path that ends in a slash, or is empty, leaves nothing for the last segment. -/
theorem SegmentsFit.inside {segments : List (List Char)} {s name : List Char}
    (h : SegmentsFit segments s) (ne : segments ≠ []) (filled : ∀ segment ∈ segments, segment ≠ [])
    (ends : ∀ c, s.getLast? = some c → c = '/') (free : '/' ∉ name) :
    SegmentsFit segments (s ++ name) := by
  induction h with
  | nil => exact absurd rfl ne
  | lastDepth s => exact .lastDepth _
  | @lastName segment s deep bare fits =>
      have empty : s = [] := by
        cases last : s.getLast? with
        | none => exact List.getLast?_eq_none_iff.1 last
        | some c =>
            obtain rfl := ends c last
            exact absurd (List.mem_of_getLast? last) bare
      subst empty
      exact .lastName deep free (fits.of_empty (filled segment (by simp)) free)
  | @depth segments s names more named fits ih =>
      rw [List.append_assoc]
      apply SegmentsFit.depth names more named
      apply ih more fun segment mem => filled segment (List.mem_cons_of_mem _ mem)
      intro c last
      apply ends c
      rw [List.getLast?_append, last, Option.some_or]
  | @name segment piece s segments deep more bare fits _ ih =>
      rw [List.append_assoc, List.cons_append]
      apply SegmentsFit.name deep more bare fits
      apply ih more fun segment mem => filled segment (List.mem_cons_of_mem _ mem)
      intro c last
      apply ends c
      rw [List.getLast?_append, List.getLast?_cons, last]
      rfl

theorem SegmentsFit.append_depth {segments : List (List Char)} {s : List Char} (h : SegmentsFit segments s)
    (ne : segments ≠ []) (rest : List Char) :
    SegmentsFit (segments ++ [['*', '*']]) (s ++ '/' :: rest) := by
  induction h with
  | nil => exact absurd rfl ne
  | lastDepth s => exact .depth [] (by simp) (by simp) (.lastDepth _)
  | lastName deep bare fits => exact .name deep (by simp) bare fits (.lastDepth rest)
  | depth names more named _ ih =>
      rw [List.append_assoc]
      exact .depth names (by simp) named (ih more)
  | name deep more bare fits _ ih =>
      rw [List.append_assoc, List.cons_append]
      exact .name deep (by simp) bare fits (ih more)

theorem SegmentsFit.ne_nil {segments : List (List Char)} {s : List Char} (h : SegmentsFit segments s)
    (ne : s ≠ []) : segments ≠ [] := by
  rintro rfl
  cases h
  exact ne rfl

/-! ## Patterns without choices -/

theorem Meets.inside {p folder name : List Char} (h : Meets p (folder ++ ['/'])) (free : '/' ∉ name) :
    Meets p (folder ++ '/' :: name) := by
  obtain ⟨body, strips, fits⟩ := h
  have more := fits.inside (fits.ne_nil (by simp)) (by simp) (by simp) free
  exact ⟨body, strips, by simpa using more⟩

theorem Meets.append_depth {p folder : List Char} (h : Meets p folder) (ne : folder ≠ []) (rest : List Char) :
    Meets (p ++ "/**".toList) (folder ++ '/' :: rest) := by
  obtain ⟨body, ⟨n, m, cut, here, top⟩, fits⟩ := h
  have segments := fits.ne_nil ne
  have start : body ≠ [] := by
    rintro rfl
    exact segments (by simp)
  have mapped : (p ++ "/**".toList).map (fun c => if c = '\\' then '/' else c) =
      (List.replicate n ['.', '/']).flatten ++ (List.replicate m '/' ++ (body ++ "/**".toList)) := by
    rw [List.map_append, cut]
    simp
  by_cases dot : ['.', '/'] <+: List.replicate m '/' ++ (body ++ "/**".toList)
  · -- The pattern is a dot, and with a slash behind it the dot means nothing.
    obtain ⟨rfl, rfl⟩ : m = 0 ∧ body = ['.'] := by
      cases m with
      | succ m => simp [List.replicate_succ] at dot
      | zero =>
          obtain ⟨c, body, rfl⟩ := List.exists_cons_of_ne_nil start
          simp only [List.replicate_zero, List.nil_append, List.cons_append, List.cons_prefix_cons]
            at dot here
          cases body with
          | nil => exact ⟨rfl, by rw [← dot.1]⟩
          | cons d body =>
              simp only [List.cons_append, List.cons_prefix_cons, List.nil_prefix, and_true] at dot here
              exact absurd dot here
    refine ⟨['*', '*'], ⟨n + 1, 0, ?_, by decide, by decide⟩, .lastDepth _⟩
    rw [mapped, List.replicate_succ', List.flatten_append]
    simp
  · refine ⟨body ++ "/**".toList, ⟨n, m, mapped, dot, ?_⟩, ?_⟩
    · rw [slash_isPrefix, List.head?_append_of_ne_nil _ start, ← slash_isPrefix]
      exact top
    · have split : ((body ++ "/**".toList).splitOn '/').filter (· ≠ []) =
          (body.splitOn '/').filter (· ≠ []) ++ [['*', '*']] := by
        have cutBehind : (body ++ "/**".toList).splitOn '/' = body.splitOn '/' ++ [['*', '*']] :=
          @List.splitOnP_append_cons _ (· == '/') body ['*', '*'] '/' rfl
        rw [cutBehind, List.filter_append]
        rfl
      rw [split]
      exact fits.append_depth segments rest

/-! ## Choices -/

theorem closeGroup_plain {cs : List Char} (plain : '\x7d' ∉ cs) (depth : Nat) :
    closeGroup depth cs = none := by
  induction cs generalizing depth with
  | nil => rfl
  | cons c cs ih =>
      simp only [List.mem_cons, not_or] at plain
      rw [closeGroup, if_neg fun h => plain.1 h.1.symm, ih plain.2]
      rfl

theorem closeGroup_behind {more : List Char} (plain : '\x7d' ∉ more) (depth : Nat) (cs : List Char) :
    closeGroup depth (cs ++ more) =
      (closeGroup depth cs).map fun found => (found.1, found.2 ++ more) := by
  induction cs generalizing depth with
  | nil => exact closeGroup_plain plain depth
  | cons c cs ih =>
      rw [List.cons_append, closeGroup, closeGroup]
      split
      · rfl
      · rw [ih, Option.map_map, Option.map_map]
        rfl

theorem firstChoice?_plain {cs : List Char} (plain : '\x7b' ∉ cs) : firstChoice? cs = none := by
  induction cs with
  | nil => exact firstChoice?_nil
  | cons c cs ih =>
      simp only [List.mem_cons, not_or] at plain
      rw [firstChoice?, if_neg fun h => plain.1 h.symm, ih plain.2]
      rfl

theorem firstChoice?_behind {more : List Char} (opens : '\x7b' ∉ more) (closes : '\x7d' ∉ more)
    (p : List Char) :
    firstChoice? (p ++ more) =
      (firstChoice? p).map fun choice => { choice with after := choice.after ++ more } := by
  fun_induction firstChoice? p with
  | case1 => exact firstChoice?_plain opens
  | case2 cs none =>
      rw [List.cons_append, firstChoice?_open, closeGroup_behind closes, none]
      rfl
  | case3 cs body rest close several =>
      rw [List.cons_append, firstChoice?_open, closeGroup_behind closes, close]
      simp [several]
  | case4 cs body rest close single ih =>
      rw [List.cons_append, firstChoice?_open, closeGroup_behind closes, close]
      simp [single, ih, Function.comp_def]
  | case5 c cs plain ih =>
      rw [List.cons_append, firstChoice?, if_neg plain, ih]
      simp [Function.comp_def]

/-- Text behind a pattern that has no braces stands behind each of the patterns it stands for. -/
theorem resolveChoices_behind {more : List Char} (opens : '\x7b' ∉ more) (closes : '\x7d' ∉ more)
    (p : List Char) : resolveChoices (p ++ more) = (resolveChoices p).map (· ++ more) := by
  induction p using resolveChoices.induct with
  | case1 p none =>
      have same : firstChoice? (p ++ more) = Option.none := by
        rw [firstChoice?_behind opens closes, none]
        rfl
      rw [resolveChoices_of_none none, resolveChoices_of_none same]
      rfl
  | case2 p choice first ih =>
      have same : firstChoice? (p ++ more) = some { choice with after := choice.after ++ more } := by
        rw [firstChoice?_behind opens closes, first]
        rfl
      rw [resolveChoices_of_some first, resolveChoices_of_some same, List.map_flatMap]
      apply List.flatMap_congr
      intro option mem
      rw [← ih option mem, List.append_assoc _ choice.after]

theorem subset_of_mem_product {xs ys : List (List Char)} {front rest q : List Char}
    (inFront : ∀ x ∈ xs, x ⊆ front) (behind : ∀ y ∈ ys, y ⊆ rest) (mem : q ∈ product xs ys) :
    q ⊆ front ++ rest := by
  obtain ⟨x, hx, mem⟩ := List.mem_flatMap.1 mem
  obtain ⟨y, hy, rfl⟩ := List.mem_map.1 mem
  exact List.append_subset.2 ⟨List.subset_append_of_subset_left _ (inFront x hx),
    List.subset_append_of_subset_right _ (behind y hy)⟩

theorem subset_intercalate {options : List (List Char)} {option : List Char} (mem : option ∈ options) :
    option ⊆ [','].intercalate options := by
  induction options with
  | nil => cases mem
  | cons first others ih =>
      by_cases last : others = []
      · subst last
        obtain rfl := List.mem_singleton.1 mem
        simp
      · rw [List.intercalate_cons_of_ne_nil last]
        rcases List.mem_cons.1 mem with rfl | mem
        · simp
        · exact List.subset_append_of_subset_right _ (ih mem)

/-- The patterns that a pattern stands for have no characters of their own. -/
theorem Denotes.subset {p : List Char} {list : List (List Char)} (h : Denotes p list) :
    ∀ q ∈ list, q ⊆ p := by
  induction h with
  | nil => simp
  | @literal c rest behind plain _ ih =>
      intro q mem
      exact @subset_of_mem_product _ _ [c] rest q (by simp) ih mem
  | unclosed never => simp
  | @group body rest behind closed uncut _ ih =>
      intro q mem
      have all := @subset_of_mem_product _ _ ('\x7b' :: body ++ ['\x7d']) rest q (by simp) ih mem
      simpa using all
  | @choice options meaning rest behind several cut _ _ each ih =>
      intro q mem
      have inFront : ∀ x ∈ options.flatMap meaning,
          x ⊆ '\x7b' :: [','].intercalate options ++ ['\x7d'] := by
        intro x hx
        obtain ⟨option, hoption, hx⟩ := List.mem_flatMap.1 hx
        have inside := List.Subset.trans (each option hoption x hx) (subset_intercalate hoption)
        exact List.subset_append_of_subset_left _ (List.subset_cons_of_subset _ inside)
      have all := subset_of_mem_product inFront ih mem
      simpa using all

/-! ## Globs -/

theorem pattern_of_compile {pattern : String} {glob : Glob} (compiled : compile pattern = .ok glob) :
    glob.pattern = pattern := by
  unfold compile compile? at compiled
  split at compiled
  · split at compiled
    · cases compiled
    · rename_i read
      obtain rfl := Except.ok.inj compiled
      obtain ⟨expressions, -, rfl⟩ := Option.map_eq_some_iff.1 read
      rfl
  · cases compiled

theorem selects_iff_meets {pattern : String} {glob : Glob} (compiled : compile pattern = .ok glob)
    (free : '[' ∉ pattern.toList) {path : String} (line : '\n' ∉ path.toList) :
    glob.selects path = true ↔ ∃ p ∈ resolveChoices pattern.toList, Meets p path.toList := by
  have plain : ∀ p ∈ expandBraces pattern.toList, PlainSets p := by
    intro p mem
    obtain ⟨list, denotes⟩ := exists_denotes pattern.toList
    rw [expandBraces, List.mem_eraseDups, denotes.resolveChoices_eq] at mem
    rintro before after rfl
    exact absurd (denotes.subset _ mem (by simp)) free
  rw [compile] at compiled
  split at compiled
  · rw [compile?_plain plain] at compiled
    obtain rfl := Except.ok.inj compiled
    simp only [selects, List.any_map, List.any_eq_true, Function.comp_apply]
    simp only [expandBraces, List.mem_eraseDups] at plain ⊢
    exact exists_congr fun p => and_congr_right fun mem => accepts_itemsOf (plain p mem) line
  · cases compiled

variable {pattern folder : String} {glob : Glob}

/-- If a pattern selects a folder with a slash behind it, it selects all that lies in the folder. -/
theorem selects_inside (compiled : compile pattern = .ok glob) (free : '[' ∉ pattern.toList)
    {name : String} (line : '\n' ∉ (folder ++ "/" ++ name).toList) (bare : '/' ∉ name.toList)
    (h : glob.selects (folder ++ "/") = true) : glob.selects (folder ++ "/" ++ name) = true := by
  have shorter : '\n' ∉ (folder ++ "/").toList := by
    rw [String.toList_append] at line
    exact fun mem => line (List.mem_append_left _ mem)
  obtain ⟨p, mem, meets⟩ := (selects_iff_meets compiled free shorter).1 h
  rw [String.toList_append] at meets
  apply (selects_iff_meets compiled free line).2
  refine ⟨p, mem, ?_⟩
  simpa using meets.inside bare

/-- If a pattern selects a folder, then with `/**` behind it, it selects all that lies below the
folder. -/
theorem selects_below {deep : Glob} (compiled : compile pattern = .ok glob)
    (compiledDeep : compile (pattern ++ "/**") = .ok deep) (free : '[' ∉ pattern.toList)
    {rest : String} (line : '\n' ∉ (folder ++ "/" ++ rest).toList) (ne : folder ≠ "")
    (h : glob.selects folder = true) : deep.selects (folder ++ "/" ++ rest) = true := by
  have shorter : '\n' ∉ folder.toList := by
    simp only [String.toList_append, List.mem_append, not_or] at line
    exact line.1.1
  obtain ⟨p, mem, meets⟩ := (selects_iff_meets compiled free shorter).1 h
  apply (selects_iff_meets compiledDeep (by simpa using free) line).2
  have nonempty : folder.toList ≠ [] := fun empty => ne (String.toList_eq_nil_iff.1 empty)
  refine ⟨p ++ "/**".toList, ?_, ?_⟩
  · rw [String.toList_append, resolveChoices_behind (by decide) (by decide)]
    exact List.mem_map_of_mem mem
  · simpa using meets.append_depth nonempty rest.toList

end LayerLint.Glob
