import LayerLint.Proofs.Import.Leftmost

/-!
# Written imports

A source text written line by line, some of the lines being import statements: reading gives back their
targets, in order (`imports_render`). Nothing keeps a statement to its line. So it has to be shown that
none starts before its keyword, that none reaches into the next line, and that what is left of a line
starts nothing.
-/

namespace LayerLint.Import

/-! ## Lines -/

inductive Line where
  | noise (text : String)
  /-- A statement of Java or C#. -/
  | dotted (target : String)
  /-- An import of TypeScript. -/
  | imported (clause target : String)
  /-- A required module of TypeScript under the name it gets. -/
  | required (name target : String)

def Line.text (language : Language) : Line → String
  | .noise text => text
  | .dotted target => (if language = .csharp then "using " else "import ") ++ target ++ ";"
  | .imported clause target => "import " ++ clause ++ " from '" ++ target ++ "';"
  | .required name target => "const " ++ name ++ " = require('" ++ target ++ "');"

def Line.target? : Line → Option String
  | .noise _ => none
  | .dotted target => some target
  | .imported _ target => some target
  | .required _ target => some target

def render (language : Language) : List Line → String
  | [] => ""
  | line :: lines => line.text language ++ "\n" ++ render language lines

def keywords : Language → List String
  | .typescript => ["import", "require"]
  | .java => ["import"]
  | .csharp => ["using"]

/-- What is asked of an identifier. Every language asks for more. -/
def IsIdentifier (name : String) : Prop :=
  name ≠ "" ∧ ∀ c ∈ name.toList, Text.isBlank c = false ∧ isQuote c = false ∧ c ≠ '(' ∧ c ≠ ')'

def IsTarget (target : String) : Prop := target ≠ "" ∧ ∀ c ∈ target.toList, isQuote c = false

def Line.WellFormed (language : Language) : Line → Prop
  | .noise text => ∀ keyword ∈ keywords language, ¬ keyword.toList <:+: text.toList
  | .dotted target =>
      language ≠ .typescript ∧ target ≠ "" ∧ ∀ c ∈ target.toList, isNameChar c = true
  | .imported clause target =>
      language = .typescript ∧ (∀ c ∈ clause.toList, isQuote c = false ∧ c ≠ '\n') ∧
        (∃ c ∈ clause.toList, Text.isBlank c = false) ∧ IsTarget target
  | .required name target =>
      language = .typescript ∧ IsIdentifier name ∧ ¬ "import".toList <:+: name.toList ∧
        IsTarget target

instance (name : String) : Decidable (IsIdentifier name) :=
  have := List.decidableBAll
    (fun c => Text.isBlank c = false ∧ isQuote c = false ∧ c ≠ '(' ∧ c ≠ ')') name.toList
  instDecidableAnd

instance (target : String) : Decidable (IsTarget target) :=
  have := List.decidableBAll (fun c => isQuote c = false) target.toList
  instDecidableAnd

def decidableAbsent (keyword text : String) : Decidable (¬ keyword.toList <:+: text.toList) :=
  @instDecidableNot _ (List.instDecidableIsInfixOfDecidableEq keyword.toList text.toList)

instance (language : Language) : (line : Line) → Decidable (line.WellFormed language)
  | .noise text =>
      have := (decidableAbsent · text)
      List.decidableBAll (fun (keyword : String) => ¬ keyword.toList <:+: text.toList) _
  | .dotted target =>
      have := List.decidableBAll (fun c => isNameChar c = true) target.toList
      instDecidableAnd
  | .imported clause _ =>
      have := List.decidableBAll (fun c => isQuote c = false ∧ c ≠ '\n') clause.toList
      have := List.decidableBEx (fun c => Text.isBlank c = false) clause.toList
      instDecidableAnd
  | .required name _ =>
      have := decidableAbsent "import" name
      instDecidableAnd

/-! ## Texts without statements -/

theorem prefix_of_append_cons {k front rest : List Char} {c : Char} (h : k <+: front ++ c :: rest)
    (free : c ∉ k) : k <+: front := by
  obtain ⟨behind, text⟩ := h
  rcases List.append_eq_append_iff.1 text with ⟨more, rfl, -⟩ | ⟨more, rfl, tail⟩
  · exact List.prefix_append k more
  · rcases List.append_eq_cons_iff.1 tail.symm with ⟨rfl, -⟩ | ⟨_, rfl, -⟩
    · simp
    · simp at free

theorem infix_of_append_cons {k front rest : List Char} {c : Char} (h : k <:+: front ++ c :: rest)
    (free : c ∉ k) : k <:+: front ∨ k <:+: rest := by
  obtain ⟨before, behind, text⟩ := h
  rw [List.append_assoc] at text
  rcases List.append_eq_append_iff.1 text with ⟨more, rfl, tail⟩ | ⟨more, rfl, tail⟩
  · have inFront : k <+: more := prefix_of_append_cons ⟨behind, tail⟩ free
    exact .inl (inFront.isInfix.trans (List.suffix_append before more).isInfix)
  · rcases List.append_eq_cons_iff.1 tail.symm with ⟨rfl, here⟩ | ⟨more, rfl, rfl⟩
    · have none : k <+: [] := prefix_of_append_cons ⟨behind, here⟩ free
      exact .inl (none.isInfix.trans List.nil_infix)
    · exact .inr ⟨more, behind, by simp⟩

section Skipped

variable {language : Language}

theorem targets_skip_front {before rest : List Char}
    (h : ∀ back, back <:+ before → back ≠ [] → statement? language (back ++ rest) = none) :
    targets language (before ++ rest) = targets language rest := by
  induction before with
  | nil => rfl
  | cons c before ih =>
      have here : statement? language (c :: (before ++ rest)) = none :=
        h (c :: before) List.suffix_rfl (by simp)
      rw [List.cons_append, targets_missing here]
      exact ih fun back suffix => h back (suffix.trans (List.suffix_cons c before))

theorem keyword_of_statement? {cs : List Char} {found : List Char × List Char}
    (h : statement? language cs = some found) :
    ∃ keyword ∈ keywords language, keyword.toList <+: cs := by
  have starts := exists_statement?_iff.1 (Option.isSome_iff_exists.2 ⟨found, h⟩)
  obtain ⟨s, target, front, statement⟩ := starts
  cases statement with
  | java dotted => exact ⟨"import", by simp [keywords], dotted.front.trans front⟩
  | csharp dotted => exact ⟨"using", by simp [keywords], dotted.front.trans front⟩
  | required required => exact ⟨"require", by simp [keywords], required.front.trans front⟩
  | imported imported => exact ⟨"import", by simp [keywords], imported.front.trans front⟩

theorem keyword_inLine : ∀ keyword ∈ keywords language, '\n' ∉ keyword.toList := by
  cases language <;> decide

theorem targets_noise {text : List Char} (rest : List Char)
    (free : ∀ keyword ∈ keywords language, ¬ keyword.toList <:+: text) :
    targets language (text ++ '\n' :: rest) = targets language rest := by
  have line : text ++ '\n' :: rest = text ++ ['\n'] ++ rest := by simp
  rw [line]
  apply targets_skip_front
  intro back suffix ne
  obtain rfl | ⟨front, rfl, inText⟩ := List.suffix_concat_iff.1 suffix
  · exact absurd rfl ne
  · apply Option.eq_none_iff_forall_ne_some.2
    intro found h
    obtain ⟨keyword, mem, starts⟩ := keyword_of_statement? h
    rw [List.append_assoc, List.cons_append] at starts
    have inFront := prefix_of_append_cons starts (keyword_inLine keyword mem)
    exact free keyword mem (inFront.isInfix.trans inText.isInfix)

end Skipped

/-! ## Imported modules -/

theorem IsQuoted.first {quoted target front : List Char} (h : IsQuoted quoted target)
    (free : ∀ c ∈ front, isQuote c = false) (rest : List Char) :
    quotedTarget? ((front ++ (quoted ++ rest)).dropWhile (!isQuote ·)) = some (target, rest) := by
  have stop : ∀ c ∈ (quoted ++ rest).head?, (!isQuote c) = false := by
    obtain ⟨hq, -, -, -⟩ := h
    intro c mem
    obtain rfl := Option.some.inj mem
    rw [hq]
    rfl
  rw [dropWhile_run (fun c mem => by rw [free c mem]; rfl) stop]
  exact quotedTarget?_eq_some_iff.2 ⟨quoted, rfl, h⟩

theorem IsGap.free {gap : List Char} (h : IsGap gap) : ∀ c ∈ gap, isQuote c = false := by
  intro c mem
  apply Bool.eq_false_iff.2
  intro quote
  have blank := h.2 c mem
  rw [isBlank_of_isQuote quote] at blank
  cases blank

theorem IsSource.parts {source target : List Char} (h : IsSource source target) :
    ∃ front quoted, source = front ++ quoted ∧ (∀ c ∈ front, isQuote c = false) ∧
      IsQuoted quoted target := by
  obtain @⟨before, after, quoted, _, gap, gap', hquoted⟩ := h
  refine ⟨before ++ "from".toList ++ after, quoted, rfl, ?_, hquoted⟩
  have keyword : ∀ c ∈ "from".toList, isQuote c = false := by simp [isQuote]
  exact List.forall_mem_append.2 ⟨List.forall_mem_append.2 ⟨gap.free, keyword⟩, gap'.free⟩

/-- What is found behind a text without quotes is the first quoted target. -/
theorem IsSource.unique {front source target rest : List Char} {found : List Char × List Char}
    (hsource : IsSource source target) (free : ∀ c ∈ front, isQuote c = false)
    (h : fromTarget? (front ++ (source ++ rest)) = some found) : found = (target, rest) := by
  obtain ⟨target', rest'⟩ := found
  obtain ⟨source', text, hsource'⟩ := fromTarget?_eq_some_iff.1 h
  obtain ⟨before, quoted, rfl, free', hquoted⟩ := hsource.parts
  obtain ⟨before', quoted', rfl, free'', hquoted'⟩ := hsource'.parts
  have first := hquoted.first (List.forall_mem_append.2 ⟨free, free'⟩) rest
  have first' := hquoted'.first free'' rest'
  rw [← List.append_assoc before', ← text] at first'
  simp only [List.append_assoc] at first first'
  exact Option.some.inj (first'.symm.trans first)

theorem IsSource.clauseTarget? {clause source target : List Char} (rest : List Char)
    (hsource : IsSource source target) (free : ∀ c ∈ clause, isQuote c = false ∧ c ≠ '\n') :
    clauseTarget? (clause ++ (source ++ rest)) = some (target, rest) := by
  induction clause with
  | nil =>
      rw [List.nil_append]
      cases text : source ++ rest with
      | nil =>
          have := hsource.read rest
          rw [text] at this
          cases this
      | cons c cs => rw [Import.clauseTarget?, ← text, hsource.read rest]
  | cons c clause ih =>
      have quiet : ∀ d ∈ c :: clause, isQuote d = false := fun d mem => (free d mem).1
      rw [List.cons_append, Import.clauseTarget?]
      split
      · rename_i found source
        exact congrArg some (hsource.unique quiet source)
      · rw [if_neg (free c (by simp)).2]
        exact ih fun d mem => free d (by simp [mem])

theorem importTarget?_lead {lead after : List Char} {found : List Char × List Char} (gap : IsGap lead)
    (stop : ∀ c ∈ after.head?, Text.isBlank c = false) (h : clauseTarget? after = some found) :
    importTarget? (lead ++ after) = some found := by
  have stopped : importTarget? after = none := by
    cases after with
    | nil => rfl
    | cons c after => rw [importTarget?, if_neg (by rw [stop c rfl]; exact Bool.false_ne_true)]
  obtain ⟨ne, space⟩ := gap
  induction lead with
  | nil => exact absurd rfl ne
  | cons c lead ih =>
      rw [List.cons_append, importTarget?, if_pos (space c (by simp))]
      by_cases last : lead = []
      · subst last
        rw [List.nil_append, stopped]
        exact h
      · rw [ih last fun d mem => space d (by simp [mem])]

theorem statement?_import {clause source target : List Char} (rest : List Char)
    (hsource : IsSource source target) (free : ∀ c ∈ clause, isQuote c = false ∧ c ≠ '\n')
    (visible : ∃ c ∈ clause, Text.isBlank c = false) :
    statement? .typescript ("import ".toList ++ (clause ++ (source ++ rest))) = some (target, rest) := by
  -- The lead is as long as it can be, and what is left of the clause starts with no blank.
  let lead := clause.takeWhile Text.isBlank
  let core := clause.dropWhile Text.isBlank
  have parts : clause = lead ++ core := List.takeWhile_append_dropWhile.symm
  have gap : IsGap (' ' :: lead) := by
    refine ⟨by simp, List.forall_mem_cons.2 ⟨by decide, takeWhile_all _ clause⟩⟩
  have stop : ∀ c ∈ (core ++ (source ++ rest)).head?, Text.isBlank c = false := by
    cases first : core with
    | nil =>
        obtain ⟨c, mem, seen⟩ := visible
        rw [parts, first, List.append_nil] at mem
        rw [takeWhile_all _ clause c mem] at seen
        cases seen
    | cons d core =>
        intro c mem
        exact head_dropWhile Text.isBlank clause c (by rw [show clause.dropWhile _ = _ from first]; exact mem)
  have found : clauseTarget? (core ++ (source ++ rest)) = some (target, rest) :=
    hsource.clauseTarget? rest fun c mem => free c (by rw [parts]; simp [mem])
  have text : "import ".toList ++ (clause ++ (source ++ rest)) =
      "import".toList ++ (' ' :: lead ++ (core ++ (source ++ rest))) := by
    rw [parts]
    simp
  have read : importStatement? ("import ".toList ++ (clause ++ (source ++ rest))) =
      some (target, rest) := by
    rw [text, importStatement?, dropFront?_eq_some_iff.2 rfl]
    exact importTarget?_lead gap stop found
  rw [statement?, read]

/-! ## Required modules -/

/-- A keyword that no bracket follows starts nothing. -/
theorem requireStatement?_eq_none {after : List Char} (rest : List Char) (free : '(' ∉ after)
    (visible : ∃ c ∈ after, Text.isBlank c = false) :
    requireStatement? ("require".toList ++ (after ++ rest)) = none := by
  apply Option.eq_none_iff_forall_ne_some.2
  rintro ⟨target, behind⟩ h
  obtain ⟨s, text, @⟨before, inside, quoted, space, _, before_ok, -, -, -⟩⟩ :=
    requireStatement?_eq_some_iff.1 h
  simp only [List.append_assoc, List.append_cancel_left_eq] at text
  rcases List.append_eq_append_iff.1 text with ⟨more, rfl, -⟩ | ⟨more, rfl, tail⟩
  · obtain ⟨c, mem, seen⟩ := visible
    rw [before_ok c (by simp [mem])] at seen
    cases seen
  · rcases List.append_eq_cons_iff.1 tail.symm with ⟨rfl, -⟩ | ⟨_, rfl, -⟩
    · obtain ⟨c, mem, seen⟩ := visible
      rw [before_ok c (by simpa using mem)] at seen
      cases seen
    · simp at free

theorem statement?_require {quoted target : List Char} (rest : List Char)
    (hquoted : IsQuoted quoted target) :
    statement? .typescript ("require(".toList ++ (quoted ++ ')' :: rest)) = some (target, rest) := by
  have form : IsRequired ("require".toList ++ [] ++ ['('] ++ [] ++ quoted ++ [] ++ [')']) target :=
    .mk (List.forall_mem_nil _) (List.forall_mem_nil _) hquoted (List.forall_mem_nil _)
  have takes : Takes .typescript (_ ++ rest) target rest := .required form
  simp only [List.append_nil, List.append_assoc, List.cons_append, List.nil_append] at takes
  exact statement?_eq_some_iff.2 takes

theorem statement?_eq_none_of_require {after : List Char} (rest : List Char) (free : '(' ∉ after)
    (visible : ∃ c ∈ after, Text.isBlank c = false) :
    statement? .typescript ("require".toList ++ (after ++ rest)) = none := by
  have other : importStatement? ("require".toList ++ (after ++ rest)) = none := rfl
  rw [statement?, other]
  exact requireStatement?_eq_none rest free visible

/-- No statement starts before the keyword. -/
theorem targets_const {name : List Char} (rest : List Char) (free : '(' ∉ name)
    (other : ¬ "import".toList <:+: name) :
    targets .typescript ("const ".toList ++ (name ++ (" = ".toList ++ rest))) =
      targets .typescript rest := by
  let front := "const".toList ++ ' ' :: (name ++ ' ' :: ['='])
  have text : "const ".toList ++ (name ++ (" = ".toList ++ rest)) = front ++ [' '] ++ rest := by
    simp [front]
  rw [text]
  apply targets_skip_front
  intro back suffix ne
  obtain rfl | ⟨back, rfl, inFront⟩ := List.suffix_concat_iff.1 suffix
  · exact absurd rfl ne
  rw [List.append_assoc, List.cons_append, List.nil_append]
  apply Option.eq_none_iff_forall_ne_some.2
  intro found h
  obtain ⟨keyword, mem, starts⟩ := keyword_of_statement? h
  simp only [keywords, List.mem_cons, List.not_mem_nil, or_false] at mem
  rcases mem with rfl | rfl
  · have inBack := prefix_of_append_cons starts (by decide)
    rcases infix_of_append_cons (inBack.isInfix.trans inFront.isInfix) (by decide) with no | no
    · exact absurd no (by decide)
    · rcases infix_of_append_cons no (by decide) with no | no
      · exact other no
      · exact absurd no (by decide)
  · obtain ⟨after, rfl⟩ := prefix_of_append_cons starts (by decide)
    have closed : '(' ∉ after := by
      intro mem
      have : '(' ∈ front := inFront.subset (by simp [mem])
      simp [front, free] at this
    have equals : '=' ∈ after := by
      have last : front = "const".toList ++ ' ' :: (name ++ [' ']) ++ ['='] := by simp [front]
      rw [last] at inFront
      rcases List.suffix_concat_iff.1 inFront with none | ⟨_, ends, -⟩
      · cases none
      · have : '=' ∈ "require".toList ++ after := by
          rw [ends]
          simp
        simpa using this
    rw [List.append_assoc, statement?_eq_none_of_require _ closed ⟨'=', equals, by decide⟩] at h
    cases h

/-! ## Whole texts -/

theorem isGap_space : IsGap [' '] := ⟨by simp, List.forall_mem_singleton.2 (by decide)⟩

theorem IsTarget.isQuoted {target : String} (h : IsTarget target) :
    IsQuoted ('\'' :: target.toList ++ ['\'']) target.toList := by
  apply IsQuoted.mk (by decide) (by decide) _ h.2
  intro none
  exact h.1 (String.toList_eq_nil_iff.1 none)

theorem IsTarget.isSource {target : String} (h : IsTarget target) :
    IsSource ([' '] ++ "from".toList ++ [' '] ++ ('\'' :: target.toList ++ ['\''])) target.toList :=
  .mk isGap_space isGap_space h.isQuoted

theorem targets_line {language : Language} {line : Line} (h : line.WellFormed language)
    (rest : List Char) :
    targets language ((line.text language).toList ++ '\n' :: rest) =
      line.target?.toList.map String.toList ++ targets language rest := by
  cases line with
  | noise text => exact targets_noise rest h
  | dotted target =>
      obtain ⟨dotted, ne, all⟩ := h
      have form (keyword : List Char) : IsNamed keyword
          (keyword ++ [' '] ++ target.toList ++ [] ++ [';']) target.toList :=
        isNamed_mk isGap_space (mt String.toList_eq_nil_iff.1 ne) all (List.forall_mem_nil _)
      have takes : Takes language ((Line.text language (.dotted target)).toList ++ '\n' :: rest)
          target.toList ('\n' :: rest) := by
        cases language with
        | typescript => exact absurd rfl dotted
        | java =>
            have : Takes .java (_ ++ '\n' :: rest) target.toList ('\n' :: rest) :=
              .java (form "import".toList)
            simpa [Line.text] using this
        | csharp =>
            have : Takes .csharp (_ ++ '\n' :: rest) target.toList ('\n' :: rest) :=
              .csharp (form "using".toList)
            simpa [Line.text] using this
      have ends : targets language ([] ++ '\n' :: rest) = targets language rest :=
        targets_noise rest (by cases language <;> decide)
      rw [targets_found (statement?_eq_some_iff.2 takes)]
      exact congrArg (target.toList :: ·) ends
  | imported clause target =>
      obtain ⟨rfl, free, visible, htarget⟩ := h
      have found := statement?_import (';' :: '\n' :: rest) htarget.isSource free visible
      have ends : targets .typescript ([';'] ++ '\n' :: rest) = targets .typescript rest :=
        targets_noise rest (by decide)
      have text : (Line.text .typescript (.imported clause target)).toList ++ '\n' :: rest =
          "import ".toList ++ (clause.toList ++ ([' '] ++ "from".toList ++ [' '] ++
            ('\'' :: target.toList ++ ['\'']) ++ ';' :: '\n' :: rest)) := by
        simp [Line.text]
      rw [text, targets_found found]
      exact congrArg (target.toList :: ·) ends
  | required name target =>
      obtain ⟨rfl, ⟨-, identifier⟩, other, htarget⟩ := h
      have found := statement?_require (';' :: '\n' :: rest) htarget.isQuoted
      have ends : targets .typescript ([';'] ++ '\n' :: rest) = targets .typescript rest :=
        targets_noise rest (by decide)
      have text : (Line.text .typescript (.required name target)).toList ++ '\n' :: rest =
          "const ".toList ++ (name.toList ++ (" = ".toList ++ ("require(".toList ++
            ('\'' :: target.toList ++ ['\''] ++ ')' :: ';' :: '\n' :: rest)))) := by
        simp [Line.text]
      rw [text, targets_const _ (fun mem => (identifier _ mem).2.2.1 rfl) other, targets_found found]
      exact congrArg (target.toList :: ·) ends

theorem targets_render {language : Language} {lines : List Line}
    (h : ∀ line ∈ lines, line.WellFormed language) :
    targets language (render language lines).toList =
      (lines.filterMap Line.target?).map String.toList := by
  induction lines with
  | nil =>
      rw [render, String.toList_empty, targets]
      rfl
  | cons line lines ih =>
      have text : (render language (line :: lines)).toList =
          (line.text language).toList ++ '\n' :: (render language lines).toList := by
        simp [render]
      rw [text, targets_line (h line (by simp)), ih fun other mem => h other (by simp [mem])]
      cases found : line.target? <;> simp [found]

/-- Reading a text that was written line by line gives back the targets of its lines. -/
theorem imports_render (language : Language) (lines : List Line)
    (h : ∀ line ∈ lines, line.WellFormed language) :
    imports language (render language lines) = lines.filterMap Line.target? := by
  rw [imports, targets_render h]
  simp [Function.comp_def]

/-- Lines in which keywords and quotes stand where they should not count. -/
def busyLines : List Line :=
  [.noise "from 'a' \"", .imported " x from" "import y from", .required "requires" "require(\n",
    .imported "from" "import y from"]

theorem wellFormed_busyLines : ∀ line ∈ busyLines, line.WellFormed .typescript := by
  decide +kernel

theorem imports_render_busyLines :
    (∀ line ∈ busyLines, line.WellFormed .typescript) ∧
      imports .typescript (render .typescript busyLines) =
        ["import y from", "require(\n", "import y from"] :=
  ⟨wellFormed_busyLines, imports_render .typescript busyLines wellFormed_busyLines⟩

end LayerLint.Import
