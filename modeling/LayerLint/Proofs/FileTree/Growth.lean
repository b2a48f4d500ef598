import LayerLint.FileTree.Edit
import LayerLint.Proofs.FileTree.Resolution

/-!
# Trees that get new files

Opening a file for adding to it leaves a tree as it is or puts an empty file where nothing was
(`grown_of_openForAppend`). In a tree that has grown in this way paths still lead where they led, and
what could be opened before can be opened still (`Grown.openForAppend`).
-/

namespace LayerLint.FileTree

/-- The second tree has what the first has, and besides that only files. -/
structure Grown (tree other : FileTree) : Prop extends SameLinks tree other where
  get?_folder : ∀ location,
    other.get? location = some .folder ↔ tree.get? location = some .folder
  get?_file : ∀ location bytes,
    tree.get? location = some (.file bytes) → other.get? location = some (.file bytes)

/-! ## What opening a file does -/

section Open

variable {tree after : FileTree} {path above : List String} {name : String} {folder : Location}

theorem openForAppend_cases (h : tree.openForAppend path = .ok after) :
    (after = tree ∧ ∃ bytes, tree.status path = .ok (.file bytes)) ∨
      ∃ above name folder, path = above ++ [name] ∧ tree.status path = .error .missing ∧
        tree.locate above = .ok folder ∧ tree.get? folder = some .folder ∧
        tree.get? (folder ++ [name]) = none ∧ after = tree.set (folder ++ [name]) (.file []) := by
  unfold openForAppend at h
  split at h
  · rename_i bytes status
    exact .inl ⟨(Except.ok.inj h).symm, bytes, status⟩
  · cases h
  · rename_i missing
    split at h
    · rename_i name folder last located
      split at h
      · rename_i isFolder free
        obtain ⟨above, rfl⟩ := List.getLast?_eq_some_iff.1 last
        rw [List.dropLast_concat] at located
        exact .inr ⟨above, name, folder, rfl, missing, located, isFolder, free,
          (Except.ok.inj h).symm⟩
      · cases h
      · cases h
    · cases h
    · cases h
  · cases h

theorem openForAppend_file {bytes : List UInt8} (h : tree.status path = .ok (.file bytes)) :
    tree.openForAppend path = .ok tree := by
  unfold openForAppend
  rw [h]

theorem openForAppend_new (missing : tree.status (above ++ [name]) = .error .missing)
    (located : tree.locate above = .ok folder) (isFolder : tree.get? folder = some .folder)
    (free : tree.get? (folder ++ [name]) = none) :
    tree.openForAppend (above ++ [name]) = .ok (tree.set (folder ++ [name]) (.file [])) := by
  unfold openForAppend
  rw [missing, List.getLast?_concat, List.dropLast_concat, located]
  simp only [isFolder, free]

theorem grown_set {location : Location} (ne : location ≠ []) (free : tree.get? location = none)
    (bytes : List UInt8) : Grown tree (tree.set location (.file bytes)) where
  get?_link other target := by
    rw [get?_set tree ne]
    split
    · subst other
      simp [free]
    · exact .rfl
  linkCount := by
    apply linkCount_set_file
    intro e mem here
    rw [get?_of_ne_nil tree ne, List.lookup_eq_none_iff] at free
    simpa [here] using free e mem
  removed := rfl
  get?_folder other := by
    rw [get?_set tree ne]
    split
    · subst other
      simp [free]
    · exact .rfl
  get?_file other old found := by
    rw [get?_set tree ne]
    split
    · subst other
      rw [free] at found
      cases found
    · exact found

theorem Grown.refl (tree : FileTree) : Grown tree tree :=
  ⟨.refl tree, fun _ => .rfl, fun _ _ found => found⟩

theorem grown_of_openForAppend (h : tree.openForAppend path = .ok after) : Grown tree after := by
  rcases openForAppend_cases h with ⟨rfl, -⟩ | ⟨above, name, folder, -, -, -, -, free, rfl⟩
  · exact .refl after
  · exact grown_set (by simp) free []

end Open

/-! ## The last name of a path -/

/-- Nothing in the text of a path keeps it from being looked up, and it ends in a name, not in dots. -/
structure EndsIn (path : List String) (name : String) : Prop where
  noNull : path.any hasNull = false
  notLong : ¬ maxPathBytes < (Location.text path).utf8ByteSize
  ne_dot : name ≠ "."
  ne_dots : name ≠ ".."
  short : ¬ maxNameBytes < name.utf8ByteSize

section LastName

variable {tree : FileTree} {above : List String} {name : String} {folder : Location}

theorem EndsIn.of_missing (missing : tree.status (above ++ [name]) = .error .missing)
    (located : tree.locate above = .ok folder) (isFolder : tree.get? folder = some .folder)
    (ne_dots : name ≠ "..") : EndsIn (above ++ [name]) name := by
  obtain ⟨left, -, continues⟩ := locateFrom_append located isFolder
  have last : tree.locate (above ++ [name]) = tree.locateFrom left folder [name] := continues [name]
  unfold status at missing
  split at missing
  · cases missing
  · rename_i noNull
    split at missing
    · cases missing
    · rename_i notLong
      refine ⟨Bool.not_eq_true _ ▸ noNull, notLong, ?_, ne_dots, ?_⟩
      · intro dot
        rw [last, locateFrom, if_pos dot, locateFrom_nil] at missing
        simp [isFolder] at missing
      · intro long
        by_cases dot : name = "."
        · subst dot
          exact absurd long (by decide)
        · rw [last, locateFrom, if_neg dot, if_neg ne_dots, if_pos long] at missing
          cases missing

theorem EndsIn.status (h : EndsIn (above ++ [name]) name) (located : tree.locate above = .ok folder)
    (isFolder : tree.get? folder = some .folder)
    (noLink : ∀ target, tree.get? (folder ++ [name]) ≠ some (.link target)) :
    tree.status (above ++ [name]) = (tree.get? (folder ++ [name])).elim (.error .missing) .ok := by
  obtain ⟨left, -, continues⟩ := locateFrom_append located isFolder
  have last : tree.locate (above ++ [name]) = tree.locateFrom left folder [name] := continues [name]
  unfold FileTree.status
  rw [h.noNull, if_neg Bool.false_ne_true, if_neg h.notLong, last, locateFrom, if_neg h.ne_dot,
    if_neg h.ne_dots, if_neg h.short]
  cases entry : tree.get? (folder ++ [name]) with
  | none => rfl
  | some entry' =>
      cases entry' with
      | file bytes => simp [entry]
      | folder => simp [locateFrom_nil, entry]
      | link target => exact absurd entry (noLink target)

end LastName

/-! ## What stays as it was -/

namespace Grown

variable {tree other third : FileTree}

theorem trans (h : Grown tree other) (h' : Grown other third) : Grown tree third where
  toSameLinks := h.toSameLinks.trans h'.toSameLinks
  get?_folder location := (h'.get?_folder location).trans (h.get?_folder location)
  get?_file location bytes found := h'.get?_file location bytes (h.get?_file location bytes found)

theorem locateFrom (h : Grown tree other) {links : Nat} {here location : Location}
    {path : List String} (found : tree.locateFrom links here path = .ok location) :
    other.locateFrom links here path = .ok location := by
  fun_induction FileTree.locateFrom tree links here path with
  | case1 => rwa [FileTree.locateFrom]
  | case2 links here path ih =>
      rw [FileTree.locateFrom, if_pos rfl]
      exact ih found
  | case3 links here path dot ih =>
      rw [FileTree.locateFrom, if_neg dot, if_pos rfl]
      exact ih found
  | case4 => cases found
  | case5 => cases found
  | case6 links here name path dot dots short entry ih =>
      rw [FileTree.locateFrom, if_neg dot, if_neg dots, if_neg short, (h.get?_folder _).2 entry]
      exact ih found
  | case7 links here name dot dots short bytes entry =>
      rw [FileTree.locateFrom, if_neg dot, if_neg dots, if_neg short, h.get?_file _ _ entry]
      exact found
  | case8 => cases found
  | case9 => cases found
  | case10 here name path dot dots short target entry links ih =>
      rw [FileTree.locateFrom, if_neg dot, if_neg dots, if_neg short, (h.get?_link _ _).2 entry]
      exact ih found

theorem status_file (h : Grown tree other) {path : List String} {bytes : List UInt8}
    (status : tree.status path = .ok (.file bytes)) : other.status path = .ok (.file bytes) := by
  unfold FileTree.status at status ⊢
  split at status
  · cases status
  · rename_i noNull
    rw [if_neg noNull]
    split at status
    · cases status
    · rename_i short
      rw [if_neg short]
      split at status
      · cases status
      · rename_i location located
        have located' : other.locate path = .ok location := h.locateFrom located
        rw [located']
        split at status
        · rename_i entry found
          cases status
          simp only [h.get?_file _ _ found]
        · cases status

theorem openForAppend (h : Grown tree other) {path : List String} {after : FileTree}
    (opened : tree.openForAppend path = .ok after) (noUp : ".." ∉ path) :
    ∃ after', other.openForAppend path = .ok after' := by
  rcases openForAppend_cases opened with
    ⟨-, bytes, status⟩ | ⟨above, name, folder, rfl, missing, located, isFolder, free, -⟩
  · exact ⟨other, openForAppend_file (h.status_file status)⟩
  · have ends : EndsIn (above ++ [name]) name :=
      .of_missing missing located isFolder fun same => noUp (by simp [same])
    have located' : other.locate above = .ok folder := h.locateFrom located
    have isFolder' := (h.get?_folder folder).2 isFolder
    have noLink : ∀ target, other.get? (folder ++ [name]) ≠ some (.link target) := by
      intro target link
      rw [h.get?_link, free] at link
      cases link
    have status' := ends.status located' isFolder' noLink
    -- where nothing was there may be a file by now, but nothing else
    cases entry : other.get? (folder ++ [name]) with
    | none =>
        rw [entry] at status'
        exact ⟨_, openForAppend_new status' located' isFolder' entry⟩
    | some entry' =>
        rw [entry] at status'
        cases entry' with
        | file bytes => exact ⟨other, openForAppend_file status'⟩
        | folder =>
            rw [h.get?_folder, free] at entry
            cases entry
        | link target => exact absurd entry (noLink target)

end Grown

end LayerLint.FileTree
