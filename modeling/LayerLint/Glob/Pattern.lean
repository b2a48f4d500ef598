import LayerLint.Text.Split

/-!
# Patterns without choices

A pattern is a sequence of segments between slashes. A segment is either `**`, which stands for any
number of directories, or a name built of pieces: `*`, `?`, a set in brackets, or a plain character.
Backslashes count as slashes; a leading `./`, leading slashes and empty segments are dropped.
-/

namespace LayerLint.Glob

inductive Piece where
  /-- A run of asterisks: any text inside one path component. -/
  | anyRun
  /-- A question mark: one character. -/
  | anyOne
  /-- A set in brackets, with the text between them. -/
  | oneOf (members : List Char)
  /-- A set in brackets that starts with `!` or `^`, with the text after that mark. -/
  | noneOf (members : List Char)
  /-- A character that stands for itself. -/
  | exactly (c : Char)
  deriving DecidableEq, Repr

/-- What stands between two slashes of a pattern. -/
inductive Segment where
  | anyDepth
  | name (pieces : List Piece)
  deriving DecidableEq, Repr

/-- Reads a set whose opening bracket has been read. The closing bracket is the first one that is
not the mark of a negated set. -/
def readSet? : List Char → Option (Piece × List Char)
  | [] => none
  | c :: cs =>
      if c = '!' ∨ c = '^' then
        (Text.cutAt? ']' cs).map fun (members, rest) => (.noneOf members, rest)
      else
        (Text.cutAt? ']' (c :: cs)).map fun (members, rest) => (.oneOf members, rest)

theorem readSet?_length {cs rest : List Char} {piece : Piece}
    (h : readSet? cs = some (piece, rest)) : rest.length < cs.length := by
  cases cs with
  | nil => simp [readSet?] at h
  | cons c cs =>
      rw [readSet?] at h
      split at h
      all_goals
        obtain ⟨⟨members, r⟩, hcut, h⟩ := Option.map_eq_some_iff.1 h
        simp only [Prod.mk.injEq] at h
        obtain ⟨-, rfl⟩ := h
        have := Text.cutAt?_length hcut
        simp only [List.length_cons] at this ⊢
        omega

/-- The pieces of a name. A bracket that is never closed stands for itself. -/
def readPieces : List Char → List Piece
  | [] => []
  | c :: cs =>
      if c = '*' then .anyRun :: readPieces (cs.dropWhile (· == '*'))
      else if c = '?' then .anyOne :: readPieces cs
      else if c = '[' then
        match _set : readSet? cs with
        | some (piece, rest) => piece :: readPieces rest
        | none => .exactly c :: readPieces cs
      else .exactly c :: readPieces cs
termination_by cs => cs.length
decreasing_by
  · have := (List.dropWhile_suffix (l := cs) (· == '*')).length_le
    simp only [List.length_cons]
    omega
  · simp
  · have := readSet?_length _set
    simp only [List.length_cons]
    omega
  · simp
  · simp

def readSegment (text : List Char) : Segment :=
  if text = ['*', '*'] then .anyDepth else .name (readPieces text)

/-- Drops `./` as often as it stands at the front. -/
def dropHere : List Char → List Char
  | '.' :: '/' :: cs => dropHere cs
  | cs => cs

/-- The path that a pattern is written as, with slashes only and nothing before the first segment.
-/
def normalize (p : List Char) : List Char :=
  (dropHere (p.map fun c => if c = '\\' then '/' else c)).dropWhile (· == '/')

def readSegments (p : List Char) : List Segment :=
  ((Text.splitOn '/' (normalize p)).filter (!·.isEmpty)).map readSegment

end LayerLint.Glob
