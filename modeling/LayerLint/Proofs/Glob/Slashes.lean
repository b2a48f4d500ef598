import LayerLint.Proofs.Glob.Selection
import Mathlib.Data.List.Forall2

/-!
# Slashes in selected paths

A pattern without `**` should select paths with as many components as it has segments. What `*`, `?` and
a plain character stand for has no slash, but a set may have one, if it is negated or has a range that
goes past the slash. `slashes_exact` says that nothing else goes wrong as long as no pair of brackets is
empty; an empty pair takes what follows it for its members, and then the items have to be asked.
-/

namespace LayerLint.Glob

/-! ## Slashes of an expression -/

/-- The number of slashes is settled item by item: an item takes only slashes or none. -/
inductive HasSlashes : List Item → Nat → Prop
  | nil : HasSlashes [] 0
  | one {k items n} : k.mem '/' = false → HasSlashes items n → HasSlashes (.one k :: items) n
  | slash {k items n} : (∀ c, k.mem c = true → c = '/') → HasSlashes items n →
      HasSlashes (.one k :: items) (n + 1)
  | many {k items n} : k.mem '/' = false → HasSlashes items n → HasSlashes (.many k :: items) n

/-- An item that no text gets past. -/
def HasEmpty (items : List Item) : Prop := ∃ k, .one k ∈ items ∧ ∀ c, k.mem c = false

theorem HasEmpty.cons {items : List Item} (item : Item) (h : HasEmpty items) :
    HasEmpty (item :: items) := by
  obtain ⟨k, mem, empty⟩ := h
  exact ⟨k, List.mem_cons_of_mem _ mem, empty⟩

theorem hasEmpty_one {items : List Item} {k : CharClass} :
    HasEmpty (.one k :: items) ↔ (∀ c, k.mem c = false) ∨ HasEmpty items := by
  simp [HasEmpty, or_and_right, exists_or]

theorem hasEmpty_many {items : List Item} {k : CharClass} :
    HasEmpty (.many k :: items) ↔ HasEmpty items := by
  simp [HasEmpty]

theorem exists_mem {items : List Item} {k : CharClass} (possible : ¬ HasEmpty (.one k :: items)) :
    ∃ c, k.mem c = true := by
  by_contra none
  apply possible
  rw [hasEmpty_one]
  left
  intro c
  rw [Bool.eq_false_iff]
  exact fun hc => none ⟨c, hc⟩

theorem HasSlashes.count {items : List Item} {n : Nat} (h : HasSlashes items n) {rest s : List Char}
    (leaves : Leaves rest items s) : s.count '/' = n + rest.count '/' := by
  induction h generalizing s with
  | nil => rw [leaves_nil.1 leaves, Nat.zero_add]
  | one free _ ih =>
      cases leaves with
      | one hc leaves =>
          rw [List.count_cons_of_ne, ih leaves]
          rintro rfl
          rw [free] at hc
          cases hc
  | slash only _ ih =>
      cases leaves with
      | one hc leaves =>
          rw [only _ hc, List.count_cons_self, ih leaves]
          omega
  | many free _ ih =>
      cases leaves with
      | many run hrun leaves =>
          have none : run.count '/' = 0 := by
            rw [List.count_eq_zero]
            intro mem
            rw [hrun _ mem] at free
            cases free
          rw [List.count_append, none, ih leaves, Nat.zero_add]

theorem HasEmpty.not_leaves {items : List Item} (h : HasEmpty items) {rest s : List Char} :
    ¬ Leaves rest items s := by
  obtain ⟨k, mem, empty⟩ := h
  intro leaves
  induction leaves with
  | nil => cases mem
  | one hc _ ih =>
      rcases List.mem_cons.1 mem with heq | mem
      · obtain rfl := Item.one.inj heq
        rw [empty] at hc
        cases hc
      · exact ih mem
  | many _ _ _ ih => exact ih (by simpa using mem)
  | folders _ _ _ ih => exact ih (by simpa using mem)

theorem exists_leaves {items : List Item} (h : ¬ HasEmpty items) : ∃ s, Leaves [] items s := by
  induction items with
  | nil => exact ⟨[], .nil⟩
  | cons item items ih =>
      obtain ⟨s, hs⟩ := ih fun empty => h (empty.cons item)
      cases item with
      | one k =>
          obtain ⟨c, hc⟩ := exists_mem h
          exact ⟨c :: s, .one hc hs⟩
      | many k => exact ⟨s, .many [] (by simp) hs⟩
      | folders => exact ⟨s, .folders [] (by simp) hs⟩

theorem hasSlashes_of_count {items : List Item} {n : Nat} (possible : ¬ HasEmpty items)
    (h : ∀ s, Leaves [] items s → s.count '/' = n) : HasSlashes items n := by
  induction items generalizing n with
  | nil =>
      obtain rfl : 0 = n := h [] .nil
      exact .nil
  | cons item items ih =>
      have rest : ¬ HasEmpty items := fun empty => possible (empty.cons item)
      obtain ⟨t, ht⟩ := exists_leaves rest
      cases item with
      | one k =>
          by_cases slash : k.mem '/' = true
          · have first := h ('/' :: t) (.one slash ht)
            have only (c : Char) (hc : k.mem c = true) : c = '/' := by
              by_contra ne
              have other := h (c :: t) (.one hc ht)
              rw [List.count_cons_self] at first
              rw [List.count_cons_of_ne ne] at other
              omega
            rw [List.count_cons_self] at first
            subst first
            apply HasSlashes.slash only
            apply ih rest
            intro s hs
            have := h ('/' :: s) (.one slash hs)
            rw [List.count_cons_self] at this
            omega
          · simp only [Bool.not_eq_true] at slash
            apply HasSlashes.one slash
            apply ih rest
            intro s hs
            obtain ⟨c, hc⟩ := exists_mem possible
            have ne : c ≠ '/' := by
              rintro rfl
              rw [slash] at hc
              cases hc
            rw [← h (c :: s) (.one hc hs), List.count_cons_of_ne ne]
      | many k =>
          have free : k.mem '/' = false := by
            by_contra slash
            have once := h ('/' :: t) (.many ['/'] (by simpa using slash) ht)
            have never := h t (.many [] (by simp) ht)
            rw [List.count_cons_self] at once
            omega
          exact .many free (ih rest fun s hs => h s (.many [] (by simp) hs))
      | folders =>
          have once := h ("a/".toList ++ t) (.folders [['a']] (by simp) ht)
          have never := h t (.folders [] (by simp) ht)
          rw [List.count_append, never] at once
          exact absurd once (by simp)

/-- An expression accepts texts with one number of slashes only if no text tells otherwise. -/
theorem accepts_count_iff {items : List Item} {n : Nat} :
    (∀ path : String, Regex.accepts items path.toList = true → path.toList.count '/' = n) ↔
      HasEmpty items ∨ HasSlashes items n := by
  simp only [accepts_iff, Fulfils]
  constructor
  · intro h
    by_cases possible : HasEmpty items
    · exact .inl possible
    · right
      apply hasSlashes_of_count possible
      intro s hs
      simpa using h (String.ofList s) (.inl (by simpa using hs))
  · rintro (empty | slashes) path (leaves | leaves)
    · exact absurd leaves empty.not_leaves
    · exact absurd leaves empty.not_leaves
    · exact slashes.count leaves
    · simpa using slashes.count leaves

/-! ## Sets -/

def setClass? (negated : Bool) (members : List Char) : Option CharClass :=
  (readMembers? [] (members ++ [']'])).map fun (ranges, _) => ⟨negated, ranges⟩

/-- The class of characters that a set stands for. -/
def Piece.class? : Piece → Option CharClass
  | .oneOf members => setClass? false members
  | .noneOf members => setClass? true members
  | _ => none

/-- No empty pair of brackets. -/
def Piece.IsClosed (piece : Piece) : Prop := piece ≠ .oneOf [] ∧ piece ≠ .noneOf []

instance : DecidablePred Piece.IsClosed := fun _ => inferInstanceAs (Decidable (_ ∧ _))

def Segment.pieces : Segment → List Piece
  | .anyDepth => []
  | .name pieces => pieces

def piecesOf (p : List Char) : List Piece := (readSegments p).flatMap Segment.pieces

/-- The classes that the sets of a pattern stand for. -/
def setsOf (p : List Char) : List CharClass := (piecesOf p).filterMap Piece.class?

def Piece.item? : Piece → Option Item
  | .anyRun => some (.many .notSlash)
  | .anyOne => some (.one .notSlash)
  | .exactly c => some (.one (.single c))
  | .oneOf members => (setClass? false members).map .one
  | .noneOf members => (setClass? true members).map .one

/-! ## Reading sets -/

/-- What the pieces of a segment are like. -/
def Piece.IsTidy : Piece → Prop
  | .oneOf members => ']' ∉ members ∧ '\\' ∉ members ∧ members.head? ≠ some '^'
  | .noneOf members => ']' ∉ members ∧ '\\' ∉ members
  | .exactly c => c ≠ '/'
  | _ => True

section Members

variable {found : List (Char × Char)} {low high : Char} {cs : List Char}

theorem readMembers?_dash (plain : low ≠ '\\') (stop : low ≠ ']') :
    readMembers? found (low :: '-' :: ']' :: cs) =
      some ((('-', '-') :: (low, low) :: found).reverse, cs) := by
  rw [readMembers?, if_neg (by simp [stop])]
  split <;> rename_i heq <;> rw [readMember?_of_ne plain] at heq <;> cases heq
  · rfl
  · rename_i closed
    exact absurd rfl (closed cs)
  · rename_i dashed
    exact absurd rfl (dashed (']' :: cs))

theorem readMembers?_range (plain : low ≠ '\\') (stop : low ≠ ']') (plain' : high ≠ '\\')
    (stop' : high ≠ ']') :
    readMembers? found (low :: '-' :: high :: cs) =
      if high < low then none else readMembers? ((low, high) :: found) cs := by
  rw [readMembers?, if_neg (by simp [stop])]
  split <;> rename_i heq <;> rw [readMember?_of_ne plain] at heq <;> cases heq
  · exact absurd rfl stop'
  · split <;> rename_i heq' <;> rw [readMember?_of_ne plain'] at heq' <;> cases heq'
    rfl
  · rename_i dashed
    exact absurd rfl (dashed (high :: cs))

/-- A set that has members ends at the first closing bracket, whatever follows. -/
theorem readMembers?_append {members : List Char} (rest : List Char) (stop : ']' ∉ members)
    (plain : '\\' ∉ members) (some_member : members ≠ [] ∨ found ≠ []) :
    readMembers? found (members ++ ']' :: rest) =
      (readMembers? found (members ++ [']'])).map fun (ranges, _) => (ranges, rest) := by
  -- One step reads one member or a range, which is up to three characters.
  induction h : members.length using Nat.strongRecOn generalizing members found with
  | ind n ih =>
  subst h
  cases members with
  | nil =>
      have some_found := some_member.resolve_left (fun h => h rfl)
      rw [List.nil_append, List.nil_append, readMembers?_close some_found,
        readMembers?_close some_found, Option.map_some]
  | cons low members =>
      simp only [List.mem_cons, not_or, ne_comm (b := low)] at stop plain
      by_cases dash : members.head? = some '-'
      · obtain ⟨members, rfl⟩ := List.head?_eq_some_iff.1 dash
        cases members with
        | nil =>
            simp only [List.cons_append, List.nil_append]
            rw [readMembers?_dash plain.1 stop.1, readMembers?_dash plain.1 stop.1, Option.map_some]
        | cons high members =>
            simp only [List.mem_cons, not_or, ne_comm (b := high)] at stop plain
            simp only [List.cons_append]
            rw [readMembers?_range plain.1 stop.1 plain.2.2.1 stop.2.2.1,
              readMembers?_range plain.1 stop.1 plain.2.2.1 stop.2.2.1]
            split
            · rfl
            · exact ih _ (by simp; omega) stop.2.2.2 plain.2.2.2 (.inr (by simp)) rfl
      · have noDash (after : List Char) : (members ++ ']' :: after).head? ≠ some '-' := by
          cases members with
          | nil => simp
          | cons c members => exact dash
        rw [List.cons_append, List.cons_append, readMembers?_single plain.1 stop.1 (noDash rest),
          readMembers?_single plain.1 stop.1 (noDash [])]
        exact ih _ (by simp) stop.2 plain.2 (.inr (by simp)) rfl

end Members

theorem readClass?_closed {members : List Char} (rest : List Char) (negated : Bool) (ne : members ≠ [])
    (stop : ']' ∉ members) (plain : '\\' ∉ members) :
    (readMembers? [] (members ++ ']' :: rest)).map (fun (ranges, rest) => (⟨negated, ranges⟩, rest)) =
      (setClass? negated members).map fun k => (k, rest) := by
  rw [readMembers?_append rest stop plain (.inl ne), setClass?]
  cases readMembers? [] (members ++ [']']) <;> rfl

theorem readItems?_missing {cs : List Char} (group : cs.head? ≠ some '(') (anchor : cs ≠ ['$'])
    (atom : readAtom? cs = none) : readItems? cs = none := by
  rw [readItems?, if_neg anchor]
  have noGroup : Text.dropFront? "(?:[^/]+/)*".toList cs = none := dropFront?_of_head_ne group
  split <;> rename_i heq <;> rw [noGroup] at heq
  · cases heq
  · split <;> rename_i heq' <;> rw [atom] at heq'
    · cases heq'
    · cases heq'

theorem readAtom?_oneOf {members : List Char} (rest : List Char) (tidy : (Piece.oneOf members).IsTidy)
    (ne : members ≠ []) :
    readAtom? ((Piece.oneOf members).regexText ++ rest) =
      (setClass? false members).map fun k => (k, rest) := by
  obtain ⟨stop, plain, mark⟩ := tidy
  have text : (Piece.oneOf members).regexText ++ rest = '[' :: (members ++ ']' :: rest) := by
    simp [Piece.regexText]
  have unmarked : (members ++ ']' :: rest).head? ≠ some '^' := by
    cases members with
    | nil => exact absurd rfl ne
    | cons c members => exact mark
  rw [text, readAtom?, readClass?_of_head_ne unmarked, readClass?_closed rest false ne stop plain]

theorem readAtom?_noneOf {members : List Char} (rest : List Char)
    (tidy : (Piece.noneOf members).IsTidy) (ne : members ≠ []) :
    readAtom? ((Piece.noneOf members).regexText ++ rest) =
      (setClass? true members).map fun k => (k, rest) := by
  obtain ⟨stop, plain⟩ := tidy
  have text : (Piece.noneOf members).regexText ++ rest = '[' :: '^' :: (members ++ ']' :: rest) := by
    simp [Piece.regexText]
  rw [text, readAtom?, ← readClass?_closed rest true ne stop plain]
  rfl

/-- A piece whose brackets are not empty is read by itself. -/
theorem readItems?_closed {piece : Piece} (tidy : piece.IsTidy) (closed : piece.IsClosed)
    {rest : List Char} (star : rest.head? ≠ some '*') :
    readItems? (piece.regexText ++ rest) =
      piece.item?.bind fun item => (readItems? rest).map (item :: ·) := by
  have group := piece.regexText_head (d := '(') (by decide) (by decide) (by decide) rest
  have anchor := piece.regexText_ne_anchor rest
  have set {class? : Option CharClass}
      (atom : readAtom? (piece.regexText ++ rest) = class?.map fun k => (k, rest)) :
      readItems? (piece.regexText ++ rest) =
        (class?.map Item.one).bind fun item => (readItems? rest).map (item :: ·) := by
    cases class? with
    | none => exact readItems?_missing group anchor atom
    | some k => exact readItems?_one group anchor atom star
  cases piece with
  | anyRun => exact @readItems?_piece .anyRun trivial rest star
  | anyOne => exact @readItems?_piece .anyOne trivial rest star
  | exactly c => exact @readItems?_piece (.exactly c) trivial rest star
  | oneOf members => exact set (readAtom?_oneOf rest tidy fun h => closed.1 (by rw [h]))
  | noneOf members => exact set (readAtom?_noneOf rest tidy fun h => closed.2 (by rw [h]))

theorem readItems?_closed_pieces {pieces : List Piece} (tidy : ∀ piece ∈ pieces, piece.IsTidy)
    (closed : ∀ piece ∈ pieces, piece.IsClosed) {rest : List Char} (star : rest.head? ≠ some '*')
    {items : List Item} (h : readItems? (pieces.flatMap Piece.regexText ++ rest) = some items) :
    ∃ front back, items = front ++ back ∧
      List.Forall₂ (fun piece item => piece.item? = some item) pieces front ∧
      readItems? rest = some back := by
  induction pieces generalizing items with
  | nil => exact ⟨[], items, rfl, .nil, h⟩
  | cons piece pieces ih =>
      rw [List.flatMap_cons, List.append_assoc, readItems?_closed (tidy piece (by simp))
        (closed piece (by simp)) (pieces_head star)] at h
      obtain ⟨item, hitem, h⟩ := Option.bind_eq_some_iff.1 h
      obtain ⟨others, hothers, rfl⟩ := Option.map_eq_some_iff.1 h
      obtain ⟨front, back, rfl, hfront, hback⟩ := ih (fun q hq => tidy q (by simp [hq]))
        (fun q hq => closed q (by simp [hq])) hothers
      exact ⟨item :: front, back, rfl, .cons hitem hfront, hback⟩

/-- The items of segments none of which is `**`. -/
inductive Spells : List Segment → List Item → Prop
  | last {pieces items} : List.Forall₂ (fun piece item => piece.item? = some item) pieces items →
      Spells [.name pieces] items
  | name {pieces others front back} :
      List.Forall₂ (fun piece item => piece.item? = some item) pieces front →
      Spells others back → Spells (.name pieces :: others) (front ++ .one (.single '/') :: back)

theorem spells_of_read {segments : List Segment} {items : List Item} (ne : segments ≠ [])
    (names : .anyDepth ∉ segments)
    (tidy : ∀ piece ∈ segments.flatMap Segment.pieces, piece.IsTidy)
    (closed : ∀ piece ∈ segments.flatMap Segment.pieces, piece.IsClosed)
    (h : readItems? (segmentsText segments ++ ['$']) = some items) : Spells segments items := by
  fun_induction segmentsText segments generalizing items with
  | case1 => exact absurd rfl ne
  | case2 => simp at names
  | case3 pieces =>
      simp only [List.flatMap_cons, List.flatMap_nil, List.append_nil, Segment.pieces] at tidy closed
      obtain ⟨front, back, rfl, hfront, hback⟩ :=
        readItems?_closed_pieces tidy closed (by simp) h
      obtain rfl : [] = back := by simpa [readItems?_anchor] using hback
      rw [List.append_nil]
      exact .last hfront
  | case4 => simp at names
  | case5 pieces others ne' ih =>
      simp only [List.flatMap_cons, Segment.pieces, List.mem_append] at tidy closed
      rw [List.append_assoc] at h
      obtain ⟨front, back, rfl, hfront, hback⟩ := readItems?_closed_pieces
        (fun q hq => tidy q (.inl hq)) (fun q hq => closed q (.inl hq)) (by simp) h
      rw [List.cons_append, readItems?_slash (segmentsText_head others)] at hback
      obtain ⟨others', hothers, rfl⟩ := Option.map_eq_some_iff.1 hback
      exact .name hfront (ih ne' (fun hn => names (by simp [hn])) (fun q hq => tidy q (.inr hq))
        (fun q hq => closed q (.inr hq)) hothers)

/-! ## Tidy segments -/

theorem readSet?_tidy {cs rest : List Char} {piece : Piece} (plain : '\\' ∉ cs)
    (h : readSet? cs = some (piece, rest)) : piece.IsTidy ∧ rest <:+ cs := by
  cases cs with
  | nil => cases h
  | cons c cs =>
      rw [readSet?] at h
      split at h <;> rename_i mark
      · obtain ⟨⟨members, after⟩, hcut, heq⟩ := Option.map_eq_some_iff.1 h
        obtain ⟨rfl, rfl⟩ := Prod.mk.inj heq
        obtain ⟨rfl, stop⟩ := cutAt?_eq_some_iff.1 hcut
        exact ⟨⟨stop, fun mem => plain (by simp [mem])⟩, ⟨c :: members ++ [']'], by simp⟩⟩
      · obtain ⟨⟨members, after⟩, hcut, heq⟩ := Option.map_eq_some_iff.1 h
        obtain ⟨rfl, rfl⟩ := Prod.mk.inj heq
        obtain ⟨hcs, stop⟩ := cutAt?_eq_some_iff.1 hcut
        refine ⟨⟨stop, fun mem => plain (by simp [hcs, mem]), fun head => ?_⟩, ?_⟩
        · obtain ⟨others, rfl⟩ := List.head?_eq_some_iff.1 head
          exact mark (.inr (List.cons.inj hcs).1)
        · exact ⟨members ++ [']'], by simp [hcs]⟩

theorem readPieces_tidy {segment : List Char} (slash : '/' ∉ segment) (plain : '\\' ∉ segment) :
    ∀ piece ∈ readPieces segment, piece.IsTidy := by
  fun_induction readPieces segment with
  | case1 => simp
  | case2 cs ih =>
      have suffix := (List.dropWhile_suffix (l := cs) (· == '*')).trans (List.suffix_cons '*' cs)
      have rest := ih (fun mem => slash (suffix.mem mem)) (fun mem => plain (suffix.mem mem))
      simpa [Piece.IsTidy] using rest
  | case3 cs _ ih =>
      have rest := ih (fun mem => slash (by simp [mem])) (fun mem => plain (by simp [mem]))
      simpa [Piece.IsTidy] using rest
  | case4 cs piece rest hset _ _ ih =>
      obtain ⟨tidy, suffix⟩ := readSet?_tidy (fun mem => plain (by simp [mem])) hset
      have suffix := suffix.trans (List.suffix_cons '[' cs)
      have rest := ih (fun mem => slash (suffix.mem mem)) (fun mem => plain (suffix.mem mem))
      simpa [tidy] using rest
  | case5 cs _ _ _ ih =>
      have rest := ih (fun mem => slash (by simp [mem])) (fun mem => plain (by simp [mem]))
      simpa [Piece.IsTidy] using rest
  | case6 c cs _ _ _ ih =>
      simp only [List.mem_cons, not_or] at slash plain
      have rest := ih slash.2 plain.2
      simpa [Piece.IsTidy, Ne.symm slash.1] using rest

theorem normalize_plain (p : List Char) : '\\' ∉ normalize p := by
  intro mem
  obtain ⟨n, heq, -⟩ := dropHere_spec (p.map fun c => if c = '\\' then '/' else c)
  have mem : '\\' ∈ p.map fun c => if c = '\\' then '/' else c := by
    rw [heq]
    exact List.mem_append_right _ ((List.dropWhile_suffix _).mem mem)
  obtain ⟨c, -, hc⟩ := List.mem_map.1 mem
  split at hc
  · simp at hc
  · contradiction

theorem piecesOf_tidy (p : List Char) : ∀ piece ∈ piecesOf p, piece.IsTidy := by
  intro piece mem
  obtain ⟨segment, hsegment, hpiece⟩ := List.mem_flatMap.1 mem
  obtain ⟨text, htext, rfl⟩ := List.mem_map.1 hsegment
  obtain ⟨slash, before, after, heq, -⟩ := mem_splitOn (List.mem_filter.1 htext).1
  have plain : '\\' ∉ text := fun mem => normalize_plain p (by rw [heq]; simp [mem])
  unfold readSegment at hpiece
  split at hpiece
  · cases hpiece
  · exact readPieces_tidy slash plain piece hpiece

/-! ## Slashes of a pattern -/

/-- An item comes from a set, or takes some character but no slash. -/
theorem Piece.item?_cases {piece : Piece} {item : Item} (tidy : piece.IsTidy)
    (h : piece.item? = some item) :
    (∃ k, piece.class? = some k ∧ item = .one k) ∨ piece.class? = none ∧
      (item = .many .notSlash ∨ ∃ k c, item = .one k ∧ k.mem c = true ∧ k.mem '/' = false) := by
  cases piece with
  | anyRun =>
      obtain rfl := Option.some.inj h
      exact .inr ⟨rfl, .inl rfl⟩
  | anyOne =>
      obtain rfl := Option.some.inj h
      exact .inr ⟨rfl, .inr ⟨.notSlash, 'a', rfl, by decide, by decide⟩⟩
  | exactly c =>
      obtain rfl := Option.some.inj h
      refine .inr ⟨rfl, .inr ⟨.single c, c, rfl, CharClass.mem_single.2 rfl, ?_⟩⟩
      rw [Bool.eq_false_iff]
      exact fun slash => tidy (CharClass.mem_single.1 slash).symm
  | oneOf members =>
      obtain ⟨k, hk, rfl⟩ := Option.map_eq_some_iff.1 h
      exact .inl ⟨k, hk, rfl⟩
  | noneOf members =>
      obtain ⟨k, hk, rfl⟩ := Option.map_eq_some_iff.1 h
      exact .inl ⟨k, hk, rfl⟩

section Pieces

variable {pieces : List Piece} {front back : List Item} {n : Nat}
  (items : List.Forall₂ (fun piece item => piece.item? = some item) pieces front)
  (tidy : ∀ piece ∈ pieces, piece.IsTidy)

include items tidy

theorem hasSlashes_pieces (free : ∀ k ∈ pieces.filterMap Piece.class?, k.mem '/' = false)
    (h : HasSlashes back n) : HasSlashes (front ++ back) n := by
  induction items with
  | nil => exact h
  | @cons piece item pieces front hitem _ ih =>
      have rest := ih (fun q hq => tidy q (by simp [hq]))
        fun k hk => free k (by
          obtain ⟨q, hq, heq⟩ := List.mem_filterMap.1 hk
          exact List.mem_filterMap.2 ⟨q, by simp [hq], heq⟩)
      rcases Piece.item?_cases (tidy piece (by simp)) hitem with
        ⟨k, hk, rfl⟩ | ⟨-, rfl | ⟨k, c, rfl, -, hslash⟩⟩
      · exact .one (free k (List.mem_filterMap.2 ⟨piece, by simp, hk⟩)) rest
      · exact .many (by decide) rest
      · exact .one hslash rest

/-- The slashes that a name may have come on top of those of the rest. -/
theorem HasSlashes.of_pieces (h : HasSlashes (front ++ back) n) :
    ∃ m, HasSlashes back m ∧ m ≤ n ∧
      (m = n → ∀ k ∈ pieces.filterMap Piece.class?, k.mem '/' = false) := by
  induction items generalizing n with
  | nil => exact ⟨n, h, Nat.le_refl n, by simp⟩
  | @cons piece item pieces front hitem _ ih =>
      have tidy' : ∀ piece ∈ pieces, piece.IsTidy := fun q hq => tidy q (by simp [hq])
      rcases Piece.item?_cases (tidy piece (by simp)) hitem with
        ⟨k, hk, rfl⟩ | ⟨hk, rfl | ⟨k, c, rfl, hc, hslash⟩⟩
      · rw [List.filterMap_cons_some hk]
        cases h with
        | one free h =>
            obtain ⟨m, hm, le, sets⟩ := ih tidy' h
            exact ⟨m, hm, le, fun heq => by simpa [free] using sets heq⟩
        | slash _ h =>
            obtain ⟨m, hm, le, -⟩ := ih tidy' h
            exact ⟨m, hm, by omega, by omega⟩
      · rw [List.filterMap_cons_none hk]
        cases h with
        | many _ h => exact ih tidy' h
      · rw [List.filterMap_cons_none hk]
        cases h with
        | one _ h => exact ih tidy' h
        | slash only h =>
            rw [only c hc, hslash] at hc
            cases hc

theorem hasEmpty_pieces : HasEmpty (front ++ back) ↔
    (∃ k ∈ pieces.filterMap Piece.class?, ∀ c, k.mem c = false) ∨ HasEmpty back := by
  induction items with
  | nil => simp
  | @cons piece item pieces front hitem _ ih =>
      have rest := ih fun q hq => tidy q (by simp [hq])
      rcases Piece.item?_cases (tidy piece (by simp)) hitem with
        ⟨k, hk, rfl⟩ | ⟨hk, rfl | ⟨k, c, rfl, hc, -⟩⟩
      · rw [List.filterMap_cons_some hk, List.cons_append, hasEmpty_one, rest]
        simp [or_assoc]
      · rw [List.filterMap_cons_none hk, List.cons_append, hasEmpty_many, rest]
      · rw [List.filterMap_cons_none hk, List.cons_append, hasEmpty_one, rest, or_iff_right]
        intro empty
        rw [empty] at hc
        cases hc

end Pieces

section Segments

variable {segments : List Segment} {items : List Item} (h : Spells segments items)
  (tidy : ∀ piece ∈ segments.flatMap Segment.pieces, piece.IsTidy)

include h tidy

theorem Spells.hasSlashes
    (free : ∀ k ∈ (segments.flatMap Segment.pieces).filterMap Piece.class?, k.mem '/' = false) :
    HasSlashes items (segments.length - 1) := by
  induction h with
  | last hitems =>
      simp only [List.flatMap_cons, List.flatMap_nil, List.append_nil, Segment.pieces] at tidy free
      have := hasSlashes_pieces hitems tidy free .nil
      rwa [List.append_nil] at this
  | @name pieces others front back hitems rest ih =>
      simp only [List.flatMap_cons, Segment.pieces, List.filterMap_append, List.mem_append] at tidy free
      have after := ih (fun q hq => tidy q (.inr hq)) fun k hk => free k (.inr hk)
      have slash : ∀ c, (CharClass.single '/').mem c = true → c = '/' :=
        fun c hc => CharClass.mem_single.1 hc
      have length : others.length - 1 + 1 = (Segment.name pieces :: others).length - 1 := by
        cases rest <;> simp
      rw [← length]
      exact hasSlashes_pieces hitems (fun q hq => tidy q (.inl hq)) (fun k hk => free k (.inl hk))
        (.slash slash after)

/-- Each segment but the last ends in a slash, and only sets can add to these. -/
theorem Spells.slashes {n : Nat} (slashes : HasSlashes items n) :
    segments.length ≤ n + 1 ∧ (segments.length = n + 1 →
      ∀ k ∈ (segments.flatMap Segment.pieces).filterMap Piece.class?, k.mem '/' = false) := by
  induction h generalizing n with
  | @last pieces items hitems =>
      simp only [List.flatMap_cons, List.flatMap_nil, List.append_nil, Segment.pieces] at tidy ⊢
      rw [← List.append_nil items] at slashes
      obtain ⟨m, hm, -, sets⟩ := slashes.of_pieces hitems tidy
      cases hm
      refine ⟨by simp, fun heq => sets ?_⟩
      rw [List.length_singleton] at heq
      omega
  | @name pieces others front back hitems rest ih =>
      simp only [List.flatMap_cons, Segment.pieces, List.filterMap_append, List.mem_append] at tidy ⊢
      obtain ⟨m, hm, le, sets⟩ := slashes.of_pieces hitems fun q hq => tidy q (.inl hq)
      cases hm with
      | one free => cases free
      | slash _ hm =>
          obtain ⟨le', sets'⟩ := ih (fun q hq => tidy q (.inr hq)) hm
          rw [List.length_cons]
          refine ⟨by omega, ?_⟩
          rintro heq k (hk | hk)
          · exact sets (by omega) k hk
          · exact sets' (by omega) k hk

theorem Spells.hasEmpty_iff : HasEmpty items ↔
    ∃ k ∈ (segments.flatMap Segment.pieces).filterMap Piece.class?, ∀ c, k.mem c = false := by
  induction h with
  | last hitems =>
      simp only [List.flatMap_cons, List.flatMap_nil, List.append_nil, Segment.pieces] at tidy ⊢
      have nil : ¬ HasEmpty [] := fun ⟨_, mem, _⟩ => by cases mem
      have := @hasEmpty_pieces _ _ [] hitems tidy
      rwa [List.append_nil, or_iff_left nil] at this
  | name hitems _ ih =>
      simp only [List.flatMap_cons, Segment.pieces, List.filterMap_append, List.mem_append] at tidy ⊢
      have separator : ¬ ∀ c, (CharClass.single '/').mem c = false := fun empty => by
        have := empty '/'
        cases this
      have rest := ih fun q hq => tidy q (.inr hq)
      rw [hasEmpty_pieces hitems fun q hq => tidy q (.inl hq), hasEmpty_one, or_iff_right separator, rest]
      simp [or_and_right, exists_or]

end Segments

theorem eq_some_of_mem_zip {α β : Type} {f : α → Option β} {xs : List α} {ys : List β}
    (h : xs.mapM f = some ys) {x : α} {y : β} (mem : (x, y) ∈ xs.zip ys) : f x = some y := by
  induction xs generalizing ys with
  | nil => cases mem
  | cons a xs ih =>
      rw [List.mapM_cons] at h
      obtain ⟨b, hb, h⟩ := Option.bind_eq_some_iff.1 h
      obtain ⟨bs, hbs, h⟩ := Option.bind_eq_some_iff.1 h
      obtain rfl := Option.some.inj h
      rcases List.mem_cons.1 mem with heq | mem
      · obtain ⟨rfl, rfl⟩ := Prod.mk.inj heq
        exact hb
      · exact ih hbs mem

theorem read?_of_compile {pattern : String} {glob : Glob} (compiled : compile pattern = .ok glob)
    {p : List Char} {items : List Item}
    (mem : (p, items) ∈ (expandBraces pattern.toList).zip glob.expressions) :
    Regex.read? (regexText p) = some items := by
  unfold compile at compiled
  split at compiled
  · split at compiled <;> rename_i heq
    · cases compiled
    · obtain rfl := Except.ok.inj compiled
      obtain ⟨expressions, hread, rfl⟩ := Option.map_eq_some_iff.1 heq
      exact eq_some_of_mem_zip hread mem
  · cases compiled

theorem compile_of_read {pattern : String} {expressions : List (List Item)}
    (shallow : isShallow pattern.toList = true)
    (read : (expandBraces pattern.toList).mapM (fun p => Regex.read? (regexText p)) = some expressions) :
    compile pattern = .ok ⟨pattern, expressions⟩ := by
  rw [compile, if_pos shallow, compile?, read]
  rfl

/-- Whether all paths that a pattern without `**` selects have a slash between two components and no
other. -/
theorem slashes_exact {pattern : String} {glob : Glob} (compiled : compile pattern = .ok glob)
    {p : List Char} {items : List Item}
    (mem : (p, items) ∈ (expandBraces pattern.toList).zip glob.expressions)
    (some_segment : readSegments p ≠ []) (names : .anyDepth ∉ readSegments p) :
    ((∀ path : String, Regex.accepts items path.toList = true →
        path.toList.count '/' = (readSegments p).length - 1) ↔
      HasEmpty items ∨ HasSlashes items ((readSegments p).length - 1)) ∧
    ((∀ piece ∈ piecesOf p, piece.IsClosed) →
      ((∀ path : String, Regex.accepts items path.toList = true →
        path.toList.count '/' = (readSegments p).length - 1) ↔
      (∃ k ∈ setsOf p, ∀ c, k.mem c = false) ∨ ∀ k ∈ setsOf p, k.mem '/' = false)) := by
  refine ⟨accepts_count_iff, fun closed => ?_⟩
  have tidy := piecesOf_tidy p
  have spells : Spells (readSegments p) items :=
    spells_of_read some_segment names tidy closed (read?_of_compile compiled mem)
  rw [accepts_count_iff, spells.hasEmpty_iff tidy]
  apply or_congr_right
  constructor
  · intro slashes
    apply (spells.slashes tidy slashes).2
    have := List.length_pos_iff.2 some_segment
    omega
  · exact spells.hasSlashes tidy

theorem slashes_exact_scripts :
    ∃ glob items, compile "[a-c]/*.\x7bts,j[sx]\x7d" = .ok glob ∧
      ("[a-c]/*.j[sx]".toList, items) ∈
        (expandBraces "[a-c]/*.\x7bts,j[sx]\x7d".toList).zip glob.expressions ∧
      ∀ path : String, Regex.accepts items path.toList = true → path.toList.count '/' = 1 := by
  have compiled := @compile_of_read "[a-c]/*.\x7bts,j[sx]\x7d" _ (by decide +kernel)
    (mapM_some (g := fun p => (Regex.read? (regexText p)).getD []) (by decide +kernel))
  have mem : ("[a-c]/*.j[sx]".toList, (Regex.read? (regexText "[a-c]/*.j[sx]".toList)).getD []) ∈
      (expandBraces "[a-c]/*.\x7bts,j[sx]\x7d".toList).zip
        ((expandBraces "[a-c]/*.\x7bts,j[sx]\x7d".toList).map
          fun p => (Regex.read? (regexText p)).getD []) := by
    decide +kernel
  have length : (readSegments "[a-c]/*.j[sx]".toList).length = 2 := by decide +kernel
  have exact := slashes_exact compiled mem (by decide +kernel) (by decide +kernel)
  refine ⟨_, _, compiled, mem, ?_⟩
  rw [length] at exact
  exact (exact.2 (by decide +kernel)).2 (.inr (by decide +kernel))

/-- A negated set takes a slash for one of its characters. An empty pair of brackets takes the slash
behind it for a member, and so two segments select one component. -/
theorem slashes_brackets :
    (∃ glob, compile "a[!x]b" = .ok glob ∧ glob.selects "a/b" = true) ∧
      (∃ glob, compile "[]a/[b]" = .ok glob ∧ glob.selects "a" = true) ∧
      readSegments "a[!x]b".toList = [.name [.exactly 'a', .noneOf ['x'], .exactly 'b']] ∧
      readSegments "[]a/[b]".toList = [.name [.oneOf [], .exactly 'a'], .name [.oneOf ['b']]] := by
  have negated := @compile_of_read "a[!x]b" _ (by decide +kernel)
    (mapM_some (g := fun p => (Regex.read? (regexText p)).getD []) (by decide +kernel))
  have empty := @compile_of_read "[]a/[b]" _ (by decide +kernel)
    (mapM_some (g := fun p => (Regex.read? (regexText p)).getD []) (by decide +kernel))
  exact ⟨⟨_, negated, by decide +kernel⟩, ⟨_, empty, by decide +kernel⟩, by decide +kernel,
    by decide +kernel⟩

end LayerLint.Glob
