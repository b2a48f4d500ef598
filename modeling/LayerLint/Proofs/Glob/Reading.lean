import LayerLint.Proofs.Glob.Rows
import LayerLint.Text.Word

/-!
# Expressions read back

The expression of a pattern is written as text and read again. For a pattern whose sets are plain,
reading gives back one item for each piece: `read?_regexText`.
-/

namespace LayerLint.Glob

/-! ## Plain pieces -/

/-- A letter, a digit, an underscore or a dot. -/
def IsPlainMember (c : Char) : Prop := Text.isWord c = true ∨ c = '.'

/-- The members of a set that means no more than it says. -/
def IsPlainSet (members : List Char) : Prop := members ≠ [] ∧ ∀ c ∈ members, IsPlainMember c

def Piece.IsPlain : Piece → Prop
  | .oneOf members => IsPlainSet members
  | .noneOf _ => False
  | _ => True

def Segment.IsPlain : Segment → Prop
  | .anyDepth => True
  | .name pieces => ∀ piece ∈ pieces, piece.IsPlain

/-! ## Items of a pattern -/

def Piece.item : Piece → Item
  | .anyRun => .many .notSlash
  | .anyOne => .one .notSlash
  | .oneOf members => .one ⟨false, members.map fun c => (c, c)⟩
  | .noneOf members => .one ⟨true, members.map fun c => (c, c)⟩
  | .exactly c => .one (.single c)

def itemsOf : List Segment → List Item
  | [] => []
  | [.anyDepth] => [.many .notBreak]
  | [.name pieces] => pieces.map Piece.item
  | .anyDepth :: others => .folders :: itemsOf others
  | .name pieces :: others => pieces.map Piece.item ++ .one (.single '/') :: itemsOf others

/-! ## Sets -/

/-- A character with no meaning of its own inside a set. -/
def IsOrdinary (c : Char) : Prop := c ≠ '\\' ∧ c ≠ ']' ∧ c ≠ '-'

theorem IsPlainMember.ne {c d : Char} (h : IsPlainMember c) (word : Text.isWord d = false)
    (dot : d ≠ '.') : c ≠ d := by
  rintro rfl
  rcases h with h | h
  · rw [word] at h
    cases h
  · exact dot h

theorem IsPlainMember.isOrdinary {c : Char} (h : IsPlainMember c) : IsOrdinary c :=
  ⟨h.ne (by decide) (by decide), h.ne (by decide) (by decide), h.ne (by decide) (by decide)⟩

theorem readMember?_of_ne {c : Char} (h : c ≠ '\\') (cs : List Char) :
    readMember? (c :: cs) = some (c, cs) := by
  unfold readMember?
  split <;> simp_all

/-- Without a dash behind it, a member stands for itself alone. -/
theorem readMembers?_single {found : List (Char × Char)} {c : Char} {cs : List Char} (plain : c ≠ '\\')
    (stop : c ≠ ']') (dash : cs.head? ≠ some '-') :
    readMembers? found (c :: cs) = readMembers? ((c, c) :: found) cs := by
  rw [readMembers?, if_neg (by simp [stop])]
  split <;> rename_i heq <;> rw [readMember?_of_ne plain] at heq <;> cases heq
  · exact absurd rfl dash
  · exact absurd rfl dash
  · rfl

theorem readMembers?_close {found : List (Char × Char)} {cs : List Char} (some_found : found ≠ []) :
    readMembers? found (']' :: cs) = some (found.reverse, cs) := by
  rw [readMembers?, if_pos ⟨rfl, some_found⟩, List.tail_cons]

theorem readMembers?_ordinary {members : List Char} (h : ∀ c ∈ members, IsOrdinary c)
    (found : List (Char × Char)) (rest : List Char) (some_found : members ≠ [] ∨ found ≠ []) :
    readMembers? found (members ++ ']' :: rest) =
      some (found.reverse ++ members.map (fun c => (c, c)), rest) := by
  induction members generalizing found with
  | nil =>
      rw [List.nil_append, readMembers?_close (some_found.resolve_left (fun h => h rfl))]
      simp
  | cons c members ih =>
      obtain ⟨plain, bracket, -⟩ := h c (by simp)
      have noDash : (members ++ ']' :: rest).head? ≠ some '-' := by
        cases members with
        | nil => simp
        | cons d members => simpa using (h d (by simp)).2.2
      have next := ih (fun d hd => h d (by simp [hd])) ((c, c) :: found) (by simp)
      rw [List.cons_append, readMembers?_single plain bracket noDash, next]
      simp

theorem readClass?_of_head_ne {cs : List Char} (h : cs.head? ≠ some '^') :
    readClass? cs = (readMembers? [] cs).map fun (ranges, rest) => (⟨false, ranges⟩, rest) := by
  unfold readClass?
  split
  · exact absurd rfl h
  · rfl

theorem readClass?_plain {members : List Char} (h : IsPlainSet members) (rest : List Char) :
    readClass? (members ++ ']' :: rest) = some (⟨false, members.map fun c => (c, c)⟩, rest) := by
  obtain ⟨ne, plain⟩ := h
  have unmarked : (members ++ ']' :: rest).head? ≠ some '^' := by
    cases members with
    | nil => exact absurd rfl ne
    | cons c members => simpa using (plain c (by simp)).ne (by decide) (by decide)
  rw [readClass?_of_head_ne unmarked,
    readMembers?_ordinary (fun c hc => (plain c hc).isOrdinary) [] rest (.inl ne)]
  simp

theorem readClass?_notSlash (rest : List Char) :
    readClass? ('^' :: '/' :: ']' :: rest) = some (.notSlash, rest) := by
  have read : readMembers? [] ('/' :: ']' :: rest) = some ([('/', '/')], rest) :=
    readMembers?_ordinary (by simp [IsOrdinary]) [] rest (by simp : ['/'] ≠ [] ∨ [] ≠ [])
  simp [readClass?, read, CharClass.notSlash]

/-! ## Pieces -/

theorem dropFront?_of_head_ne {d : Char} {ds cs : List Char} (h : cs.head? ≠ some d) :
    Text.dropFront? (d :: ds) cs = none := by
  cases cs with
  | nil => rfl
  | cons c cs =>
      have : d ≠ c := by
        rintro rfl
        exact h rfl
      simp [Text.dropFront?, this]

theorem readItems?_one {cs rest : List Char} {k : CharClass} (group : cs.head? ≠ some '(')
    (anchor : cs ≠ ['$']) (atom : readAtom? cs = some (k, rest)) (star : rest.head? ≠ some '*') :
    readItems? cs = (readItems? rest).map (.one k :: ·) := by
  rw [readItems?, if_neg anchor]
  have noGroup : Text.dropFront? "(?:[^/]+/)*".toList cs = none := dropFront?_of_head_ne group
  split <;> rename_i heq <;> rw [noGroup] at heq
  · cases heq
  · split <;> rename_i heq' <;> rw [atom] at heq'
    · cases heq'
    · simp only [Option.some.injEq, Prod.mk.injEq] at heq'
      rw [heq'.2] at star
      simp at star
    · simp only [Option.some.injEq, Prod.mk.injEq] at heq'
      rw [heq'.1, heq'.2]

theorem readItems?_many {cs rest : List Char} {k : CharClass} (group : cs.head? ≠ some '(')
    (anchor : cs ≠ ['$']) (atom : readAtom? cs = some (k, '*' :: rest)) :
    readItems? cs = (readItems? rest).map (.many k :: ·) := by
  rw [readItems?, if_neg anchor]
  have noGroup : Text.dropFront? "(?:[^/]+/)*".toList cs = none := dropFront?_of_head_ne group
  split <;> rename_i heq <;> rw [noGroup] at heq
  · cases heq
  · split <;> rename_i heq' <;> rw [atom] at heq'
    · cases heq'
    · simp only [Option.some.injEq, Prod.mk.injEq, List.cons.injEq, true_and] at heq'
      rw [heq'.1, heq'.2]
    · rename_i noStar
      simp only [Option.some.injEq, Prod.mk.injEq] at heq'
      exact (noStar rest heq'.2.symm).elim

theorem readItems?_folders (rest : List Char) :
    readItems? ("(?:[^/]+/)*".toList ++ rest) = (readItems? rest).map (.folders :: ·) := by
  rw [readItems?, if_neg (by simp)]
  have group : Text.dropFront? "(?:[^/]+/)*".toList ("(?:[^/]+/)*".toList ++ rest) = some rest := by
    simp [Text.dropFront?]
  split <;> rename_i heq <;> rw [group] at heq
  · simp only [Option.some.injEq] at heq
    rw [heq]
  · cases heq

theorem readAtom?_escapeChar (c : Char) (rest : List Char) :
    readAtom? (escapeChar c ++ rest) = some (.single c, rest) := by
  unfold escapeChar
  split
  · rfl
  · rename_i plain
    simp only [needsEscape, List.contains_eq_mem] at plain
    simp only [List.cons_append, List.nil_append]
    unfold readAtom?
    split <;> simp_all

theorem escapeChar_head {c d : Char} (h : needsEscape d = true) (ne : d ≠ '\\') (rest : List Char) :
    (escapeChar c ++ rest).head? ≠ some d := by
  unfold escapeChar
  split
  · simpa using Ne.symm ne
  · rename_i plain
    intro heq
    simp only [List.cons_append, List.head?_cons, Option.some.injEq] at heq
    rw [heq] at plain
    exact plain h

theorem Piece.regexText_head (piece : Piece) {d : Char} (h : needsEscape d = true) (ne : d ≠ '\\')
    (bracket : d ≠ '[') (rest : List Char) : (piece.regexText ++ rest).head? ≠ some d := by
  cases piece with
  | exactly c => exact escapeChar_head h ne rest
  | anyRun => simpa [Piece.regexText] using Ne.symm bracket
  | anyOne => simpa [Piece.regexText] using Ne.symm bracket
  | oneOf members => simpa [Piece.regexText] using Ne.symm bracket
  | noneOf members => simpa [Piece.regexText] using Ne.symm bracket

theorem Piece.regexText_ne_anchor (piece : Piece) (rest : List Char) :
    piece.regexText ++ rest ≠ ['$'] := by
  intro heq
  have := piece.regexText_head (d := '$') (by decide) (by decide) (by decide) rest
  rw [heq] at this
  exact this rfl

theorem readItems?_piece {piece : Piece} (plain : piece.IsPlain) {rest : List Char}
    (star : rest.head? ≠ some '*') :
    readItems? (piece.regexText ++ rest) = (readItems? rest).map (piece.item :: ·) := by
  have group := piece.regexText_head (d := '(') (by decide) (by decide) (by decide) rest
  have anchor := piece.regexText_ne_anchor rest
  cases piece with
  | anyRun => exact readItems?_many group anchor (readClass?_notSlash ('*' :: rest))
  | anyOne => exact readItems?_one group anchor (readClass?_notSlash rest) star
  | oneOf members =>
      refine readItems?_one group anchor ?_ star
      simp only [Piece.regexText, List.cons_append, List.append_assoc, List.nil_append]
      exact readClass?_plain plain rest
  | noneOf members => exact plain.elim
  | exactly c => exact readItems?_one group anchor (readAtom?_escapeChar c rest) star

theorem pieces_head {pieces : List Piece} {rest : List Char} (star : rest.head? ≠ some '*') :
    (pieces.flatMap Piece.regexText ++ rest).head? ≠ some '*' := by
  cases pieces with
  | nil => exact star
  | cons piece pieces =>
      rw [List.flatMap_cons, List.append_assoc]
      exact piece.regexText_head (by decide) (by decide) (by decide) _

theorem readItems?_pieces {pieces : List Piece} (plain : ∀ piece ∈ pieces, piece.IsPlain)
    {rest : List Char} (star : rest.head? ≠ some '*') :
    readItems? (pieces.flatMap Piece.regexText ++ rest) =
      (readItems? rest).map (pieces.map Piece.item ++ ·) := by
  induction pieces with
  | nil => simp
  | cons piece pieces ih =>
      rw [List.flatMap_cons, List.append_assoc,
        readItems?_piece (plain piece (by simp)) (pieces_head star),
        ih fun p hp => plain p (by simp [hp])]
      simp [Function.comp_def]

/-! ## Segments -/

theorem readItems?_anchor : readItems? ['$'] = some [] := by
  rw [readItems?, if_pos rfl]

theorem readItems?_slash {rest : List Char} (star : rest.head? ≠ some '*') :
    readItems? ('/' :: rest) = (readItems? rest).map (.one (.single '/') :: ·) :=
  readItems?_one (by simp) (by simp) (by simp [readAtom?]) star

theorem segmentsText_head (segments : List Segment) :
    (segmentsText segments ++ ['$']).head? ≠ some '*' := by
  unfold segmentsText
  split
  · simp
  · simp
  · exact pieces_head (by simp)
  · simp
  · rw [List.append_assoc]
    exact pieces_head (by simp)

theorem readItems?_segmentsText {segments : List Segment}
    (plain : ∀ segment ∈ segments, segment.IsPlain) :
    readItems? (segmentsText segments ++ ['$']) = some (itemsOf segments) := by
  fun_induction segmentsText segments with
  | case1 => exact readItems?_anchor
  | case2 =>
      have atom : readAtom? (".*".toList ++ ['$']) = some (.notBreak, '*' :: ['$']) := rfl
      rw [readItems?_many (by simp) (by simp) atom, readItems?_anchor]
      rfl
  | case3 pieces =>
      rw [readItems?_pieces (plain (.name pieces) (by simp)) (by simp), readItems?_anchor]
      simp [itemsOf]
  | case4 others ne ih =>
      rw [List.append_assoc, readItems?_folders, ih fun s hs => plain s (by simp [hs])]
      simp [itemsOf]
  | case5 pieces others ne ih =>
      rw [List.append_assoc, readItems?_pieces (plain (.name pieces) (by simp)) (by simp),
        List.cons_append, readItems?_slash (segmentsText_head others),
        ih fun s hs => plain s (by simp [hs])]
      simp [itemsOf]

/-- The text of an expression is read back as the items of its pattern. -/
theorem read?_regexText {p : List Char} (plain : ∀ segment ∈ readSegments p, segment.IsPlain) :
    Regex.read? (regexText p) = some (itemsOf (readSegments p)) :=
  readItems?_segmentsText plain

end LayerLint.Glob
