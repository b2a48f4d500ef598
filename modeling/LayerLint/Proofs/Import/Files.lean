import LayerLint.Import.File
import LayerLint.Proofs.Session.Runs
import LayerLint.Proofs.Text.Utf8

/-!
# Imports of a file and of its text

The imports of a file can be had from the file, by its path, or from its text, once it is in memory.
`ofFile_text` says that both are the same for every text that was written as UTF-8, up to line breaks,
and so it makes no difference which line breaks a file has.
-/

namespace LayerLint.Import

variable {session : Session} {given : PathName} {limit : Option Int} {bytes : List UInt8}

/-! ## Files that are read -/

theorem status_of_contents {tree : FileTree} {path : List String} (h : tree.contents path = .ok bytes) :
    tree.status path = .ok (.file bytes) := by
  unfold FileTree.contents at h
  split at h
  · obtain rfl := Except.ok.inj h
    assumption
  · cases h
  · cases h
  · cases h

theorem absolute_of_contents (h : session.contents given = .ok bytes) :
    ∃ path, session.absolute given = .ok path ∧ session.tree.status path = .ok (.file bytes) := by
  unfold Session.contents at h
  split at h
  · cases h
  · cases absolute : session.absolute given with
    | error fault =>
        rw [absolute] at h
        cases h
    | ok path =>
        rw [absolute] at h
        exact ⟨path, rfl, status_of_contents h⟩

theorem inspect_file {tree : FileTree} {path : List String} {language : Language}
    (status : tree.status path = .ok (.file bytes)) (spoken : Language.ofPath? given = some language)
    (fits : exceeds bytes.length limit = false) :
    inspect tree limit given (.ok path) =
      .found (imports language (String.ofList (Text.unifyBreaks (Text.decodeLossy bytes)))) := by
  unfold inspect
  simp only [spoken, Except.bind, FileTree.contents_of_status status, FileTree.size_of_status status]
  cases limit with
  | none => rfl
  | some most => simp [fits]

/-- A file that is not too large gives the imports of the text that it holds. -/
theorem ofFile_contents (held : session.contents given = .ok bytes)
    (fits : exceeds bytes.length limit = false) :
    ((ofFile limit given).on session).1 =
      .ok (importsIn (Text.unifyBreaks (Text.decodeLossy bytes)) given) := by
  obtain ⟨path, absolute, status⟩ := absolute_of_contents held
  rw [ofFile, Run.on_get_bind, absolute]
  unfold importsIn
  cases spoken : Language.ofPath? given with
  | none =>
      have unknown : inspect session.tree limit given (.ok path) = .noLanguage := by
        unfold inspect
        rw [spoken]
      rw [unknown]
      rfl
  | some language =>
      rw [inspect_file status spoken fits]
      rfl

/-! ## Texts -/

/-- The file at the end of a path holds a text, and is not larger than the limit. -/
structure Holds (session : Session) (limit : Option Int) (given : PathName) (text : List Char) :
    Prop where
  written : session.contents given = .ok (Text.encode text)
  small : ∀ most, limit = some most → (Text.encode text).length ≤ most

theorem Holds.ofFile {text : List Char} (h : Holds session limit given text) :
    ((ofFile limit given).on session).1 = .ok (importsIn (Text.lineFeeds text) given) := by
  have fits : exceeds (Text.encode text).length limit = false := by
    cases limit with
    | none => rfl
    | some most => exact decide_eq_false (Int.not_lt.2 (h.small most rfl))
  rw [ofFile_contents h.written fits, Text.decodeLossy_encode, Text.unifyBreaks_eq]

/-- A file has the imports of its text, with a line feed for each of its line breaks. A carriage return
before every line feed does not change them. -/
theorem ofFile_text {text : List Char} (held : Holds session limit given text) :
    ((ofFile limit given).on session).1 = .ok (importsIn (Text.lineFeeds text) given) ∧
      ('\r' ∉ text → ∀ other, Holds other limit given (Text.withReturns text) →
        ((ofFile limit given).on other).1 = ((ofFile limit given).on session).1) := by
  refine ⟨held.ofFile, fun free other converted => ?_⟩
  rw [converted.ofFile, held.ofFile, Text.lineFeeds_withReturns free, Text.lineFeeds_of_no_return free]

/-- A tree with one file, at the top. -/
def singleFile (text : List Char) : FileTree := ⟨[(["a.ts"], .file (Text.encode text))], []⟩

theorem holds_singleFile (text : List Char) (most : Int) (small : (Text.encode text).length ≤ most) :
    Holds (.ofTree (singleFile text)) (some most) ⟨"/", ["a.ts"]⟩ text := by
  have located : (singleFile text).locate ["a.ts"] = .ok ["a.ts"] :=
    FileTree.locateFrom_file (by decide) rfl _
  have status : (singleFile text).status ["a.ts"] = .ok (.file (Text.encode text)) := by
    unfold FileTree.status
    rw [if_neg (by decide), if_neg (by decide), located]
    rfl
  constructor
  · exact FileTree.contents_of_status status
  · intro bound same
    obtain rfl := Option.some.inj same
    exact small

/-- A carriage return by itself breaks the line of a statement, which is then no statement. -/
theorem ofFile_text_singleFile :
    Holds (.ofTree (singleFile "import a\rb from 'c'\r\nrequire('d')".toList)) (some 64)
        ⟨"/", ["a.ts"]⟩ "import a\rb from 'c'\r\nrequire('d')".toList ∧
      ((ofFile (some 64) ⟨"/", ["a.ts"]⟩).on
        (.ofTree (singleFile "import a\rb from 'c'\r\nrequire('d')".toList))).1 = .ok ["d"] ∧
      ((ofFile (some 64) ⟨"/", ["a.ts"]⟩).on
        (.ofTree (singleFile (Text.withReturns "import é from 'c'\nrequire('d')\n".toList)))).1 =
          .ok ["c", "d"] := by
  have mixed := holds_singleFile "import a\rb from 'c'\r\nrequire('d')".toList 64 (by decide +kernel)
  have plain := holds_singleFile "import é from 'c'\nrequire('d')\n".toList 64 (by decide +kernel)
  have converted := holds_singleFile (Text.withReturns "import é from 'c'\nrequire('d')\n".toList) 64
    (by decide +kernel)
  have broken : importsIn (Text.lineFeeds "import a\rb from 'c'\r\nrequire('d')".toList)
      ⟨"/", ["a.ts"]⟩ = ["d"] := by decide +kernel
  have found : importsIn (Text.lineFeeds "import é from 'c'\nrequire('d')\n".toList)
      ⟨"/", ["a.ts"]⟩ = ["c", "d"] := by decide +kernel
  refine ⟨mixed, ?_, ?_⟩
  · rw [(ofFile_text mixed).1, broken]
  · obtain ⟨first, same⟩ := ofFile_text plain
    rw [same (by decide) _ converted, first, found]

end LayerLint.Import
