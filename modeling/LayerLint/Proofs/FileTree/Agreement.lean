import LayerLint.FileTree.Edit
import LayerLint.Proofs.FileTree.Resolution
import LayerLint.Proofs.Scan.Visits

/-!
# Trees that differ in the bytes of some files

Log files grow while a check runs. `Agrees` relates the tree before to the tree after: the entries are
the same but for the bytes of the files at some locations. Paths lead to the same places in both, and
what stands at the end of a path is the same unless it leads to one of those files.
-/

namespace LayerLint.FileTree

/-- The second tree has the entries of the first, but for the bytes of files at `spare` locations. -/
structure Agrees (spare : List Location) (tree other : FileTree) : Prop where
  keys : (other.entries.map (·.1)).Perm (tree.entries.map (·.1))
  get : ∀ location, other.get? location = tree.get? location ∨
    location ∈ spare ∧ ∃ old new, tree.get? location = some (.file old) ∧
      other.get? location = some (.file new)
  linkCount : other.linkCount = tree.linkCount
  removed : other.removed = tree.removed

namespace Agrees

variable {spare : List Location} {tree other third : FileTree}

theorem refl (spare : List Location) (tree : FileTree) : Agrees spare tree tree :=
  ⟨.refl _, fun _ => .inl rfl, rfl, rfl⟩

theorem trans (h : Agrees spare tree other) (h' : Agrees spare other third) :
    Agrees spare tree third := by
  refine ⟨h'.keys.trans h.keys, fun location => ?_, h'.linkCount.trans h.linkCount,
    h'.removed.trans h.removed⟩
  rcases h.get location, h'.get location with ⟨same | ⟨mem, old, mid, hold, hmid⟩, h'⟩
  · rcases h' with same' | ⟨mem, mid, new, hmid, hnew⟩
    · exact .inl (same'.trans same)
    · exact .inr ⟨mem, mid, new, same ▸ hmid, hnew⟩
  · rcases h' with same' | ⟨-, -, new, -, hnew⟩
    · exact .inr ⟨mem, old, mid, hold, same'.trans hmid⟩
    · exact .inr ⟨mem, old, new, hold, hnew⟩

theorem wellFormed (h : Agrees spare tree other) (wf : tree.WellFormed) : other.WellFormed where
  distinct := h.keys.nodup_iff.2 wf.distinct
  named location mem := wf.named location (h.keys.mem_iff.1 mem)
  inFolder location name mem := by
    have folder := wf.inFolder location name (h.keys.mem_iff.1 mem)
    rcases h.get location with same | ⟨-, old, -, hold, -⟩
    · rw [same, folder]
    · rw [hold] at folder
      cases folder

theorem names (h : Agrees spare tree other) (location : Location) :
    (other.names location).Perm (tree.names location) := by
  rw [names_eq, names_eq]
  exact h.keys.filterMap _

theorem length (h : Agrees spare tree other) : other.entries.length = tree.entries.length := by
  simpa using h.keys.length_eq

/-! ## Paths -/

theorem get?_folder (h : Agrees spare tree other) (location : Location) :
    other.get? location = some .folder ↔ tree.get? location = some .folder := by
  rcases h.get location with same | ⟨-, old, new, hold, hnew⟩
  · rw [same]
  · rw [hold, hnew]
    simp

theorem get?_link (h : Agrees spare tree other) (location : Location) (target : String) :
    other.get? location = some (.link target) ↔ tree.get? location = some (.link target) := by
  rcases h.get location with same | ⟨-, old, new, hold, hnew⟩
  · rw [same]
  · rw [hold, hnew]
    simp

theorem get?_none (h : Agrees spare tree other) (location : Location) :
    other.get? location = none ↔ tree.get? location = none := by
  rcases h.get location with same | ⟨-, old, new, hold, hnew⟩
  · rw [same]
  · rw [hold, hnew]
    simp

theorem get?_file (h : Agrees spare tree other) {location : Location} {bytes : List UInt8}
    (found : tree.get? location = some (.file bytes)) :
    ∃ new, other.get? location = some (.file new) := by
  rcases h.get location with same | ⟨-, old, new, hold, hnew⟩
  · exact ⟨bytes, same.trans found⟩
  · exact ⟨new, hnew⟩

theorem locateFrom (h : Agrees spare tree other) (links : Nat) (here : Location)
    (path : List String) : other.locateFrom links here path = tree.locateFrom links here path := by
  fun_induction FileTree.locateFrom tree links here path with
  | case1 => rw [FileTree.locateFrom]
  | case2 links here path ih =>
      rw [FileTree.locateFrom, if_pos rfl]
      exact ih
  | case3 links here path dot ih =>
      rw [FileTree.locateFrom, if_neg dot, if_pos rfl]
      exact ih
  | case4 links here name path dot dots long =>
      rw [FileTree.locateFrom, if_neg dot, if_neg dots, if_pos long]
  | case5 links here name path dot dots short found =>
      rw [FileTree.locateFrom, if_neg dot, if_neg dots, if_neg short, (h.get?_none _).2 found]
  | case6 links here name path dot dots short found ih =>
      rw [FileTree.locateFrom, if_neg dot, if_neg dots, if_neg short, (h.get?_folder _).2 found]
      exact ih
  | case7 links here name dot dots short bytes found =>
      obtain ⟨new, hnew⟩ := h.get?_file found
      rw [FileTree.locateFrom, if_neg dot, if_neg dots, if_neg short, hnew]
      exact if_pos rfl
  | case8 links here name path dot dots short bytes found ne =>
      obtain ⟨new, hnew⟩ := h.get?_file found
      rw [FileTree.locateFrom, if_neg dot, if_neg dots, if_neg short, hnew]
      exact if_neg ne
  | case9 here name path dot dots short target found =>
      rw [FileTree.locateFrom, if_neg dot, if_neg dots, if_neg short, (h.get?_link _ _).2 found]
  | case10 here name path dot dots short target found links ih =>
      rw [FileTree.locateFrom, if_neg dot, if_neg dots, if_neg short, (h.get?_link _ _).2 found]
      exact ih

theorem locate (h : Agrees spare tree other) (path : List String) :
    other.locate path = tree.locate path :=
  h.locateFrom _ _ _

theorem sameLinks (h : Agrees spare tree other) : SameLinks tree other :=
  ⟨h.get?_link, h.linkCount, h.removed⟩

theorem resolve (h : Agrees spare tree other) (folder : Handle) (path : PathName) :
    other.resolve folder path = tree.resolve folder path :=
  h.sameLinks.resolve folder path

/-! ## What stands at the end of a path -/

theorem status (h : Agrees spare tree other) (path : List String) :
    other.status path = tree.status path ∨
      ∃ location ∈ spare, tree.locate path = .ok location ∧
        ∃ old new, tree.status path = .ok (.file old) ∧ other.status path = .ok (.file new) := by
  unfold FileTree.status
  rw [h.locate path]
  split
  · exact .inl rfl
  · split
    · exact .inl rfl
    · cases tree.locate path with
      | error => exact .inl rfl
      | ok location =>
          rcases h.get location with same | ⟨mem, old, new, hold, hnew⟩
          · exact .inl (by simp only [same])
          · exact .inr ⟨location, mem, rfl, old, new, by simp only [hold], by simp only [hnew]⟩

theorem status_of_apart (h : Agrees spare tree other) {path : List String}
    (apart : ∀ location, tree.locate path = .ok location → location ∉ spare) :
    other.status path = tree.status path :=
  (h.status path).resolve_right fun ⟨location, mem, located, _⟩ => apart location located mem

theorem isFile (h : Agrees spare tree other) (path : List String) :
    other.isFile path = tree.isFile path := by
  unfold FileTree.isFile
  rcases h.status path with same | ⟨-, -, -, old, new, hold, hnew⟩
  · rw [same]
  · rw [hold, hnew]

theorem isFolder (h : Agrees spare tree other) (path : List String) :
    other.isFolder path = tree.isFolder path := by
  unfold FileTree.isFolder
  rcases h.status path with same | ⟨-, -, -, old, new, hold, hnew⟩
  · rw [same]
  · rw [hold, hnew]

end Agrees

/-! ## Writing to an open file -/

theorem keys_set {tree : FileTree} (wf : tree.WellFormed) {location : Location}
    (mem : location ∈ tree.entries.map (·.1)) (entry : Entry) :
    ((tree.set location entry).entries.map (·.1)).Perm (tree.entries.map (·.1)) := by
  have filtered : (tree.entries.filter (·.1 ≠ location)).map (·.1) =
      (tree.entries.map (·.1)).erase location := by
    rw [wf.distinct.erase_eq_filter, List.filter_map]
    exact congrArg _ (List.filter_congr fun e _ => by simp [bne, beq_eq_decide])
  rw [set, List.map_append, filtered]
  exact (List.perm_append_singleton ..).trans (List.perm_cons_erase mem).symm

theorem append_agrees {tree : FileTree} (wf : tree.WellFormed) {spare : List Location}
    {handle : Handle} (mem : handle.location ∈ spare) (bytes : List UInt8) :
    Agrees spare tree (tree.append handle bytes) := by
  unfold append
  split
  · split
    · rename_i old found
      have ne : handle.location ≠ [] := by
        intro h
        rw [h, get?_nil] at found
        cases found
      have noLink : ∀ e ∈ tree.entries, e.1 = handle.location → e.2.isLink = false := by
        rintro ⟨location, entry⟩ inside rfl
        rw [get?_of_ne_nil tree ne, lookup_of_mem wf.distinct inside] at found
        cases found
        rfl
      refine ⟨keys_set wf (mem_locations ne found) _, fun location => ?_,
        linkCount_set_file tree noLink _, rfl⟩
      rw [get?_set tree ne]
      split
      · subst location
        exact .inr ⟨mem, old, _, found, rfl⟩
      · exact .inl rfl
    · exact .refl spare tree
  · exact .refl spare tree

end LayerLint.FileTree
