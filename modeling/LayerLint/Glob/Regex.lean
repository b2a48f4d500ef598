import LayerLint.Glob.Brace
import LayerLint.Glob.Pattern

/-!
# The regular expression of a pattern

A pattern without choices is written as an anchored regular expression, `regexText`. The text is
then read back as a list of items, `Regex.read?`, by the ordinary rules for regular expressions: in
a set a closing bracket at the front is a member, a dash between two members makes a range, and a
reversed range or a set that is never closed is refused. Reading the text, and not the pattern, is
what decides how a set with an odd body behaves.

`Regex.accepts` matches the items with a path. The end of the expression also stands before one
final line break.
-/

namespace LayerLint.Glob

/-! ## Writing -/

/-- The characters that are written with a backslash. -/
def needsEscape (c : Char) : Bool :=
  "()[]\x7b\x7d?*+-|^$\\.&~# \t\n\r\x0b\x0c".toList.contains c

def escapeChar (c : Char) : List Char :=
  if needsEscape c then ['\\', c] else [c]

def Piece.regexText : Piece → List Char
  | .anyRun => "[^/]*".toList
  | .anyOne => "[^/]".toList
  | .oneOf members => '[' :: members ++ [']']
  | .noneOf members => '[' :: '^' :: members ++ [']']
  | .exactly c => escapeChar c

def segmentsText : List Segment → List Char
  | [] => []
  | [.anyDepth] => ".*".toList
  | [.name pieces] => pieces.flatMap Piece.regexText
  | .anyDepth :: others => "(?:[^/]+/)*".toList ++ segmentsText others
  | .name pieces :: others => pieces.flatMap Piece.regexText ++ '/' :: segmentsText others

/-- The anchored regular expression of a pattern without choices. -/
def regexText (p : List Char) : List Char :=
  '^' :: segmentsText (readSegments p) ++ ['$']

/-! ## Reading -/

/-- A class of characters: those inside one of the ranges, or, negated, those inside none. -/
structure CharClass where
  negated : Bool
  ranges : List (Char × Char)
  deriving DecidableEq, Repr

def CharClass.mem (k : CharClass) (c : Char) : Bool :=
  k.ranges.any (fun (low, high) => low ≤ c && c ≤ high) != k.negated

def CharClass.notSlash : CharClass := ⟨true, [('/', '/')]⟩

def CharClass.notBreak : CharClass := ⟨true, [('\n', '\n')]⟩

def CharClass.single (c : Char) : CharClass := ⟨false, [(c, c)]⟩

/-- One step of an expression. -/
inductive Item where
  /-- One character of a class. -/
  | one (k : CharClass)
  /-- Any number of characters of a class. -/
  | many (k : CharClass)
  /-- Any number of non-empty path components, each with the slash after it. -/
  | folders
  deriving DecidableEq, Repr

/-- One member of a set: a character, or a backslash and the character it stands before. -/
def readMember? : List Char → Option (Char × List Char)
  | [] => none
  | '\\' :: c :: cs => some (c, cs)
  | '\\' :: [] => none
  | c :: cs => some (c, cs)

theorem readMember?_length {cs rest : List Char} {c : Char} (h : readMember? cs = some (c, rest)) :
    rest.length < cs.length := by
  unfold readMember? at h
  split at h <;> simp only [Option.some.injEq, Prod.mk.injEq, reduceCtorEq] at h
  all_goals
    obtain ⟨-, rfl⟩ := h
    simp only [List.length_cons]
    omega

/-- Reads the members of a set up to its closing bracket; `found` holds those read so far, latest
first. -/
def readMembers? (found : List (Char × Char)) (cs : List Char) :
    Option (List (Char × Char) × List Char) :=
  if cs.head? = some ']' ∧ found ≠ [] then some (found.reverse, cs.tail)
  else
    match _low : readMember? cs with
    | none => none
    | some (low, '-' :: ']' :: rest) => some ((('-', '-') :: (low, low) :: found).reverse, rest)
    | some (low, '-' :: rest) =>
        match _high : readMember? rest with
        | none => none
        | some (high, rest) => if high < low then none else readMembers? ((low, high) :: found) rest
    | some (low, rest) => readMembers? ((low, low) :: found) rest
termination_by cs.length
decreasing_by
  · have := readMember?_length _low
    have := readMember?_length _high
    simp only [List.length_cons] at *
    omega
  · exact readMember?_length _low

def readClass? : List Char → Option (CharClass × List Char)
  | '^' :: cs => (readMembers? [] cs).map fun (ranges, rest) => (⟨true, ranges⟩, rest)
  | cs => (readMembers? [] cs).map fun (ranges, rest) => (⟨false, ranges⟩, rest)

def readAtom? : List Char → Option (CharClass × List Char)
  | [] => none
  | '[' :: cs => readClass? cs
  | '.' :: cs => some (.notBreak, cs)
  | '\\' :: c :: cs => some (.single c, cs)
  | c :: cs => if "\\()*+?|^$\x7b\x7d".toList.contains c then none else some (.single c, cs)

theorem readMembers?_length {found ranges : List (Char × Char)} {cs rest : List Char}
    (h : readMembers? found cs = some (ranges, rest)) : rest.length < cs.length := by
  fun_induction readMembers? found cs with
  | case1 found cs hclose =>
      simp only [Option.some.injEq, Prod.mk.injEq] at h
      obtain ⟨-, rfl⟩ := h
      cases cs with
      | nil => simp at hclose
      | cons c cs => simp
  | case2 => cases h
  | case3 found cs hopen low tail hlow =>
      simp only [Option.some.injEq, Prod.mk.injEq] at h
      obtain ⟨-, rfl⟩ := h
      have := readMember?_length hlow
      simp only [List.length_cons] at this
      omega
  | case4 => cases h
  | case5 => cases h
  | case6 found cs hopen low tail hdash hlow high after hhigh hle ih =>
      have := readMember?_length hlow
      have := readMember?_length hhigh
      have := ih h
      simp only [List.length_cons] at *
      omega
  | case7 found cs hopen low tail hend hdash hlow ih =>
      have := readMember?_length hlow
      have := ih h
      omega

theorem readClass?_length {cs rest : List Char} {k : CharClass}
    (h : readClass? cs = some (k, rest)) : rest.length < cs.length := by
  unfold readClass? at h
  split at h
  all_goals
    obtain ⟨⟨ranges, r⟩, hm, h⟩ := Option.map_eq_some_iff.1 h
    simp only [Prod.mk.injEq] at h
    obtain ⟨-, rfl⟩ := h
    have := readMembers?_length hm
    grind

theorem readAtom?_length {cs rest : List Char} {k : CharClass} (h : readAtom? cs = some (k, rest)) :
    rest.length < cs.length := by
  unfold readAtom? at h
  split at h
  · cases h
  · have := readClass?_length h
    simp only [List.length_cons]
    omega
  · simp only [Option.some.injEq, Prod.mk.injEq] at h
    obtain ⟨-, rfl⟩ := h
    simp
  · simp only [Option.some.injEq, Prod.mk.injEq] at h
    obtain ⟨-, rfl⟩ := h
    simp only [List.length_cons]
    omega
  · split at h
    · cases h
    · simp only [Option.some.injEq, Prod.mk.injEq] at h
      obtain ⟨-, rfl⟩ := h
      simp

/-- Reads items up to the closing anchor, which ends the text. -/
def readItems? (cs : List Char) : Option (List Item) :=
  if cs = ['$'] then some []
  else
    match _group : Text.dropFront? "(?:[^/]+/)*".toList cs with
    | some rest => (readItems? rest).map (.folders :: ·)
    | none =>
        match _atom : readAtom? cs with
        | none => none
        | some (k, '*' :: rest) => (readItems? rest).map (.many k :: ·)
        | some (k, rest) => (readItems? rest).map (.one k :: ·)
termination_by cs.length
decreasing_by
  · rw [Text.eq_append_of_dropFront? _group]
    simp
    omega
  · have := readAtom?_length _atom
    simp only [List.length_cons] at *
    omega
  · exact readAtom?_length _atom

/-- The items of an anchored expression, or nothing for a text that is no expression. -/
def Regex.read? : List Char → Option (List Item)
  | '^' :: cs => readItems? cs
  | _ => none

/-! ## Matching

A row says for each end of a text, the whole text first and nothing last, whether an expression
matches it. The row of an expression comes from the row of what stands behind its first item, so
that the work grows with the text and the expression and never with the ways to divide the text.
-/

/-- The row of the empty expression: nothing may be left but one final line break. -/
def Regex.endRow : List Char → List Bool
  | [] => [true]
  | c :: cs => (c = '\n' && cs.isEmpty) :: Regex.endRow cs

/-- The row with one character of a class in front. -/
def Regex.oneRow (k : CharClass) (s : List Char) (row : List Bool) : List Bool :=
  s.zipWith (fun c next => k.mem c && next) row.tail ++ [false]

/-- The row with any number of characters of a class in front. -/
def Regex.manyRow (k : CharClass) (s : List Char) (row : List Bool) : List Bool :=
  (s.zip row).foldr (fun (c, here) later => (here || (k.mem c && later.headD false)) :: later)
    (row.drop s.length)

/-- The row with any number of folders in front. Beside it goes whether the expression matches from
inside a folder name on. -/
def Regex.foldersRow (s : List Char) (row : List Bool) : List Bool :=
  ((s.zip row).foldr
    (fun (c, here) (later, inside) =>
      if c = '/' then (here :: later, later.headD false) else ((here || inside) :: later, inside))
    (row.drop s.length, false)).1

/-- The row of an expression. -/
def Regex.row (s : List Char) : List Item → List Bool
  | [] => Regex.endRow s
  | .one k :: rest => Regex.oneRow k s (Regex.row s rest)
  | .many k :: rest => Regex.manyRow k s (Regex.row s rest)
  | .folders :: rest => Regex.foldersRow s (Regex.row s rest)

/-- Whether an anchored expression matches a text, up to its end or up to one final line break. -/
def Regex.accepts (items : List Item) (s : List Char) : Bool :=
  (Regex.row s items).headD false

end LayerLint.Glob
