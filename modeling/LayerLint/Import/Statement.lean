import LayerLint.Import.Language
import LayerLint.Text.Blank
import LayerLint.Text.Split
import LayerLint.Text.Word

/-!
# Import statements

`statement?` recognises an import statement at the front of a text and gives its target and the text
after it. `targets` collects the targets of a text from left to right: at each position a statement
is taken if there is one, and reading goes on behind it.

Recognition is textual. Comments, strings and multi-line lists are not told apart, and a keyword
counts wherever its letters stand.
-/

namespace LayerLint.Import

/-! ## Elements -/

def blanks? (cs : List Char) : Option (List Char) :=
  if (cs.takeWhile Text.isBlank).isEmpty then none else some (cs.dropWhile Text.isBlank)

def isQuote (c : Char) : Bool := c = '\'' || c = '"'

/-- A quote, a non-empty target without quotes, and a quote. The two quotes may differ. -/
def quotedTarget? : List Char → Option (List Char × List Char)
  | [] => none
  | q :: cs =>
      if isQuote q then
        match cs.takeWhile (!isQuote ·), cs.dropWhile (!isQuote ·) with
        | [], _ => none
        | _, [] => none
        | target, _ :: rest => some (target, rest)
      else none

def isNameChar (c : Char) : Bool := Text.isWord c || c = '.'

/-! ## Statement forms -/

/-- A keyword, blanks, a dotted name and a semicolon. -/
def dottedStatement? (keyword : List Char) (cs : List Char) : Option (List Char × List Char) := do
  let cs ← Text.dropFront? keyword cs
  let cs ← blanks? cs
  let target := cs.takeWhile isNameChar
  if target.isEmpty then none
  else
    match (cs.dropWhile isNameChar).dropWhile Text.isBlank with
    | ';' :: rest => some (target, rest)
    | _ => none

/-- Blanks, `from`, blanks and a quoted target. -/
def fromTarget? (cs : List Char) : Option (List Char × List Char) := do
  let cs ← blanks? cs
  let cs ← Text.dropFront? "from".toList cs
  let cs ← blanks? cs
  quotedTarget? cs

/-- The shortest clause on one line that `from` and a target follow. -/
def clauseTarget? : List Char → Option (List Char × List Char)
  | [] => none
  | c :: cs =>
      match fromTarget? (c :: cs) with
      | some found => some found
      | none => if c = '\n' then none else clauseTarget? cs

/-- Tries to start the clause behind as many blanks as possible, then behind fewer, at least one. -/
def importTarget? : List Char → Option (List Char × List Char)
  | [] => none
  | c :: cs =>
      if Text.isBlank c then
        match importTarget? cs with
        | some found => some found
        | none => clauseTarget? cs
      else none

/-- `import`, a clause, `from` and a quoted target. -/
def importStatement? (cs : List Char) : Option (List Char × List Char) := do
  let cs ← Text.dropFront? "import".toList cs
  importTarget? cs

def requireStatement? (cs : List Char) : Option (List Char × List Char) := do
  let cs ← Text.dropFront? "require".toList cs
  match cs.dropWhile Text.isBlank with
  | '(' :: cs =>
      let (target, cs) ← quotedTarget? (cs.dropWhile Text.isBlank)
      match cs.dropWhile Text.isBlank with
      | ')' :: rest => some (target, rest)
      | _ => none
  | _ => none

/-- The statement of a language at the front of a text: its target and the text behind it. -/
def statement? : Language → List Char → Option (List Char × List Char)
  | .typescript, cs =>
      match importStatement? cs with
      | some found => some found
      | none => requireStatement? cs
  | .java, cs => dottedStatement? "import".toList cs
  | .csharp, cs => dottedStatement? "using".toList cs

/-! ## Statements are not empty -/

theorem dropWhile_length_le (p : Char → Bool) (cs : List Char) :
    (cs.dropWhile p).length ≤ cs.length :=
  (List.dropWhile_suffix p).length_le

theorem dropFront?_length {front cs rest : List Char} (h : Text.dropFront? front cs = some rest) :
    rest.length + front.length = cs.length := by
  rw [Text.eq_append_of_dropFront? h, List.length_append]
  omega

theorem blanks?_length {cs rest : List Char} (h : blanks? cs = some rest) :
    rest.length ≤ cs.length := by
  unfold blanks? at h
  split at h
  · cases h
  · cases h
    exact dropWhile_length_le _ cs

theorem quotedTarget?_length {cs target rest : List Char}
    (h : quotedTarget? cs = some (target, rest)) : rest.length < cs.length := by
  cases cs with
  | nil => cases h
  | cons q cs =>
      rw [quotedTarget?] at h
      split at h
      · split at h
        · cases h
        · cases h
        · rename_i hd _
          cases h
          have := dropWhile_length_le (!isQuote ·) cs
          rw [hd] at this
          simp only [List.length_cons] at this ⊢
          omega
      · cases h

theorem fromTarget?_length {cs target rest : List Char}
    (h : fromTarget? cs = some (target, rest)) : rest.length < cs.length := by
  simp only [fromTarget?, Option.bind_eq_bind, Option.bind_eq_some_iff] at h
  obtain ⟨a, ha, b, hb, c, hc, h⟩ := h
  have := blanks?_length ha
  have := dropFront?_length hb
  have := blanks?_length hc
  have := quotedTarget?_length h
  omega

theorem clauseTarget?_length {cs target rest : List Char}
    (h : clauseTarget? cs = some (target, rest)) : rest.length < cs.length := by
  induction cs with
  | nil => cases h
  | cons c cs ih =>
      rw [clauseTarget?] at h
      split at h
      · rename_i heq
        cases h
        exact fromTarget?_length heq
      · split at h
        · cases h
        · have := ih h
          simp only [List.length_cons]
          omega

theorem importTarget?_length {cs target rest : List Char}
    (h : importTarget? cs = some (target, rest)) : rest.length < cs.length := by
  induction cs with
  | nil => cases h
  | cons c cs ih =>
      rw [importTarget?] at h
      split at h
      · split at h
        · rename_i heq
          cases h
          have := ih heq
          simp only [List.length_cons]
          omega
        · have := clauseTarget?_length h
          simp only [List.length_cons]
          omega
      · cases h

theorem requireStatement?_length {cs target rest : List Char}
    (h : requireStatement? cs = some (target, rest)) : rest.length < cs.length := by
  simp only [requireStatement?, Option.bind_eq_bind, Option.bind_eq_some_iff] at h
  obtain ⟨a, ha, h⟩ := h
  have := dropFront?_length ha
  have la := dropWhile_length_le Text.isBlank a
  split at h
  · rename_i b heq
    obtain ⟨⟨t, c⟩, hc, h⟩ := Option.bind_eq_some_iff.1 h
    have := quotedTarget?_length hc
    have := dropWhile_length_le Text.isBlank b
    have lc := dropWhile_length_le Text.isBlank c
    split at h
    · rename_i d hd
      cases h
      rw [heq, List.length_cons] at la
      rw [hd, List.length_cons] at lc
      omega
    · cases h
  · cases h

theorem dottedStatement?_length {keyword cs target rest : List Char}
    (h : dottedStatement? keyword cs = some (target, rest)) : rest.length < cs.length := by
  simp only [dottedStatement?, Option.bind_eq_bind, Option.bind_eq_some_iff] at h
  obtain ⟨a, ha, b, hb, h⟩ := h
  have := dropFront?_length ha
  have := blanks?_length hb
  split at h
  · cases h
  · have := dropWhile_length_le isNameChar b
    have lc := dropWhile_length_le Text.isBlank (b.dropWhile isNameChar)
    split at h
    · rename_i d hd
      cases h
      rw [hd, List.length_cons] at lc
      omega
    · cases h

theorem statement?_length {language : Language} {cs target rest : List Char}
    (h : statement? language cs = some (target, rest)) : rest.length < cs.length := by
  cases language with
  | typescript =>
      rw [statement?] at h
      split at h
      · rename_i heq
        cases h
        simp only [importStatement?, Option.bind_eq_bind, Option.bind_eq_some_iff] at heq
        obtain ⟨a, ha, heq⟩ := heq
        have := dropFront?_length ha
        have := importTarget?_length heq
        omega
      · exact requireStatement?_length h
  | java => exact dottedStatement?_length h
  | csharp => exact dottedStatement?_length h

/-! ## All statements of a text -/

/-- The targets of the statements of a text, in order, with repetitions. -/
def targets (language : Language) (cs : List Char) : List (List Char) :=
  match cs with
  | [] => []
  | c :: rest =>
      match _found : statement? language (c :: rest) with
      | some (target, after) => target :: targets language after
      | none => targets language rest
termination_by cs.length
decreasing_by
  · exact statement?_length _found
  · simp

def imports (language : Language) (text : String) : List String :=
  (targets language text.toList).map String.ofList

end LayerLint.Import
