import LayerLint.Text.Split

/-!
# Strings and keys of settings files

Strings come in four forms: quoted once or three times, with escapes or literally. A key is a list
of parts with dots between them; a part is bare or a string quoted once.
-/

namespace LayerLint.Toml

inductive Fault where
  | malformed
  /-- An integer with more digits than are converted. -/
  | tooManyDigits (digits : Nat)
  /-- Lists and inline tables that lie too deep inside each other. -/
  | tooDeep
  deriving DecidableEq, Repr

/-- Something read from the front of a text, and the text after it. -/
abbrev Parse (α : Type) := Except Fault (α × List Char)

/-! ## Blanks and comments -/

def isSpace (c : Char) : Bool := c = ' ' || c = '\t'

def isControl (c : Char) : Bool := c.toNat < 32 || c.toNat = 127

/-- Characters that stand for themselves in comments and on one line of a string. -/
def isPlain (c : Char) : Bool := !isControl c || c = '\t'

/-- Characters that stand for themselves in a string of several lines. -/
def isPlainOrBreak (c : Char) : Bool := isPlain c || c = '\n'

def skipSpaces (cs : List Char) : List Char := cs.dropWhile isSpace

def skipComment : List Char → Except Fault (List Char)
  | '#' :: cs =>
      if (cs.takeWhile (· != '\n')).all isPlain then .ok (cs.dropWhile (· != '\n'))
      else .error .malformed
  | cs => .ok cs

/-! ## Strings -/

def hexDigit? (c : Char) : Option Nat :=
  if '0' ≤ c ∧ c ≤ '9' then some (c.toNat - 48)
  else if 'a' ≤ c ∧ c ≤ 'f' then some (c.toNat - 87)
  else if 'A' ≤ c ∧ c ≤ 'F' then some (c.toNat - 55)
  else none

def ofHex? (cs : List Char) : Option Nat :=
  cs.foldl (fun n c => n.bind fun n => (hexDigit? c).map (n * 16 + ·)) (some 0)

/-- The character with a code point of `width` hexadecimal digits. -/
def readCodePoint (width : Nat) (cs : List Char) : Parse Char :=
  if (cs.take width).length < width then .error .malformed
  else
    match ofHex? (cs.take width) with
    | none => .error .malformed
    | some n =>
        if n < 0xd800 ∨ (0xe000 ≤ n ∧ n < 0x110000) then .ok (Char.ofNat n, cs.drop width)
        else .error .malformed

def escape? : Char → Option Char
  | 'b' => some '\x08'
  | 't' => some '\t'
  | 'n' => some '\n'
  | 'f' => some '\x0c'
  | 'r' => some '\r'
  | '"' => some '"'
  | '\\' => some '\\'
  | _ => none

/-- Skips an escaped line break: nothing but blanks up to the break, and all blanks and breaks after
it. -/
def skipBreak (cs : List Char) : Except Fault (List Char) :=
  match skipSpaces cs with
  | [] => .ok []
  | '\n' :: rest => .ok (rest.dropWhile fun c => isSpace c || c = '\n')
  | _ => .error .malformed

/-- The text after a backslash: the character that the escape stands for, if it stands for one. -/
def readEscape (multiline : Bool) : List Char → Parse (Option Char)
  | [] => .error .malformed
  | c :: cs =>
      if multiline && (isSpace c || c = '\n') then
        (skipBreak (c :: cs)).map fun rest => (none, rest)
      else if c = 'u' then (readCodePoint 4 cs).map fun (d, rest) => (some d, rest)
      else if c = 'U' then (readCodePoint 8 cs).map fun (d, rest) => (some d, rest)
      else
        match escape? c with
        | some d => .ok (some d, cs)
        | none => .error .malformed

theorem skipSpaces_length (cs : List Char) : (skipSpaces cs).length ≤ cs.length :=
  (List.dropWhile_sublist isSpace).length_le

theorem readCodePoint_length {width : Nat} {cs rest : List Char} {c : Char}
    (h : readCodePoint width cs = .ok (c, rest)) : rest.length ≤ cs.length := by
  unfold readCodePoint at h
  grind

theorem skipBreak_length {cs rest : List Char} (h : skipBreak cs = .ok rest) :
    rest.length ≤ cs.length := by
  have spaces := skipSpaces_length cs
  unfold skipBreak at h
  split at h <;> rename_i heq
  · grind
  · rename_i after
    have := (List.dropWhile_sublist (l := after) fun c => isSpace c || c = '\n').length_le
    grind
  · cases h

theorem readEscape_length {multiline : Bool} {cs rest : List Char} {c : Option Char}
    (h : readEscape multiline cs = .ok (c, rest)) : rest.length ≤ cs.length := by
  have mapped {α β : Type} {f : α → β} {r : Except Fault α} {b : β} (h : r.map f = .ok b) :
      ∃ a, r = .ok a ∧ f a = b := by
    cases r <;> simp_all [Except.map]
  cases cs with
  | nil => simp [readEscape] at h
  | cons c cs =>
      rw [readEscape] at h
      split at h
      · obtain ⟨a, ha, h⟩ := mapped h
        have := skipBreak_length ha
        simp_all
      · split at h
        · obtain ⟨⟨d, a⟩, ha, h⟩ := mapped h
          have := readCodePoint_length ha
          grind
        · split at h
          · obtain ⟨⟨d, a⟩, ha, h⟩ := mapped h
            have := readCodePoint_length ha
            grind
          · split at h <;> grind

/-- Reads a string with escapes up to its closing quotes; `found` is what stands before, latest
first. -/
def readEscaped (multiline : Bool) (found : List Char) : List Char → Parse String
  | [] => .error .malformed
  | c :: cs =>
      if c = '"' then
        if multiline then
          match Text.dropFront? ['"', '"'] cs with
          | some rest => .ok (String.ofList found.reverse, rest)
          | none => readEscaped multiline ('"' :: found) cs
        else .ok (String.ofList found.reverse, cs)
      else if c = '\\' then
        match _escape : readEscape multiline cs with
        | .error fault => .error fault
        | .ok (some d, rest) => readEscaped multiline (d :: found) rest
        | .ok (none, rest) => readEscaped multiline found rest
      else if if multiline then isPlainOrBreak c else isPlain c then
        readEscaped multiline (c :: found) cs
      else .error .malformed
termination_by cs => cs.length
decreasing_by
  · simp
  · have := readEscape_length _escape
    simp only [List.length_cons]
    omega
  · have := readEscape_length _escape
    simp only [List.length_cons]
    omega
  · simp

theorem readEscaped_length {multiline : Bool} {found cs rest : List Char} {text : String}
    (h : readEscaped multiline found cs = .ok (text, rest)) : rest.length < cs.length := by
  fun_induction readEscaped multiline found cs with
  | case1 => cases h
  | case2 =>
      rename_i front
      have := congrArg List.length (Text.eq_append_of_dropFront? front)
      simp_all
      omega
  | case3 => grind
  | case4 => grind
  | case5 => cases h
  | case6 =>
      rename_i escape _ ih
      have := readEscape_length escape
      grind
  | case7 =>
      rename_i escape _ ih
      have := readEscape_length escape
      grind
  | case8 => grind
  | case9 => cases h

/-- Reads a string with escapes whose opening quotes have been read. -/
def readBasic (multiline : Bool) (cs : List Char) : Parse String :=
  readEscaped multiline [] cs

/-- Reads a literal string of one line whose opening quote has been read. -/
def readLiteral (cs : List Char) : Parse String :=
  match Text.cutAt? '\'' cs with
  | none => .error .malformed
  | some (text, rest) =>
      if text.all isPlain then .ok (String.ofList text, rest) else .error .malformed

/-- The text before the first three apostrophes and the text after them. -/
def cutAtTriple? : List Char → Option (List Char × List Char)
  | [] => none
  | c :: cs =>
      match Text.dropFront? ['\'', '\'', '\''] (c :: cs) with
      | some rest => some ([], rest)
      | none => (cutAtTriple? cs).map fun (text, rest) => (c :: text, rest)

/-- Up to two further quotes at the end of a string belong to it. -/
def addQuotes (quote : Char) (text : String) : List Char → String × List Char
  | c :: d :: rest =>
      if c = quote then
        if d = quote then (text.push quote |>.push quote, rest) else (text.push quote, d :: rest)
      else (text, c :: d :: rest)
  | [c] => if c = quote then (text.push quote, []) else (text, [c])
  | [] => (text, [])

/-- A line break right after the opening quotes does not count. -/
def skipFirstBreak : List Char → List Char
  | '\n' :: cs => cs
  | cs => cs

/-- Reads a string of several lines whose opening quotes have been read. -/
def readMultiline (literal : Bool) (cs : List Char) : Parse String :=
  if literal then
    match cutAtTriple? (skipFirstBreak cs) with
    | none => .error .malformed
    | some (text, rest) =>
        if text.all isPlainOrBreak then .ok (addQuotes '\'' (String.ofList text) rest)
        else .error .malformed
  else
    (readBasic true (skipFirstBreak cs)).map fun (text, rest) => addQuotes '"' text rest

/-! ## Keys -/

abbrev Key := List String

def isBare (c : Char) : Bool :=
  c.isAlpha || c.isDigit || c = '-' || c = '_'

def readKeyPart : List Char → Parse String
  | [] => .error .malformed
  | c :: cs =>
      if isBare c then .ok (String.ofList (c :: cs.takeWhile isBare), cs.dropWhile isBare)
      else if c = '\'' then readLiteral cs
      else if c = '"' then readBasic false cs
      else .error .malformed

theorem readLiteral_length {cs rest : List Char} {text : String}
    (h : readLiteral cs = .ok (text, rest)) : rest.length < cs.length := by
  unfold readLiteral at h
  split at h
  · cases h
  · rename_i cut
    have := Text.cutAt?_length cut
    grind

theorem readKeyPart_length {cs rest : List Char} {part : String}
    (h : readKeyPart cs = .ok (part, rest)) : rest.length < cs.length := by
  cases cs with
  | nil => simp [readKeyPart] at h
  | cons c cs =>
      rw [readKeyPart] at h
      split at h
      · have := (List.dropWhile_sublist (l := cs) isBare).length_le
        grind
      · split at h
        · have := readLiteral_length h
          grind
        · split at h
          · have := readEscaped_length h
            grind
          · cases h

/-- Reads a key, parts with dots between them, and the blanks after it. -/
def readKey (cs : List Char) : Parse Key :=
  match _part : readKeyPart cs with
  | .error fault => .error fault
  | .ok (part, rest) =>
      match _spaces : skipSpaces rest with
      | '.' :: rest =>
          match readKey (skipSpaces rest) with
          | .error fault => .error fault
          | .ok (parts, rest) => .ok (part :: parts, rest)
      | rest => .ok ([part], rest)
termination_by cs.length
decreasing_by
  have := readKeyPart_length _part
  have := congrArg List.length _spaces
  have := skipSpaces_length
  grind

end LayerLint.Toml
