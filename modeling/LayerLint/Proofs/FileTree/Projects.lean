import LayerLint.Proofs.FileTree.WellFormed
import Mathlib.Data.List.Induction
import Mathlib.Data.List.Nodup

/-!
# Projects without links

A project is a folder with all that is below it, where nothing is a link. The same project may lie
below two roots (`IsCopy`), and `placeAt` puts one below any root.
-/

namespace LayerLint.FileTree

/-- A folder that is reached without links and has none below it. -/
structure IsProject (tree : FileTree) (root : Location) : Prop where
  wellFormed : tree.WellFormed
  real : tree.RealBelow [] root
  noLinks : ∀ rel target, tree.get? (root ++ rel) ≠ some (.link target)

def FileAt (tree : FileTree) (location : Location) : Prop :=
  ∃ bytes, tree.get? location = some (.file bytes)

/-- The same stands below two roots, of one tree or of two. -/
structure IsCopy (tree other : FileTree) (root root' : Location) : Prop where
  project : tree.IsProject root
  copy : other.IsProject root'
  same : ∀ rel, other.get? (root' ++ rel) = tree.get? (root ++ rel)

/-- What has something below it is a folder. -/
theorem get?_of_below {tree : FileTree} (wf : tree.WellFormed) {location : Location}
    (rest : List String) (ne : rest ≠ []) {entry : Entry}
    (h : tree.get? (location ++ rest) = some entry) : tree.get? location = some .folder := by
  induction rest using List.reverseRecOn generalizing entry with
  | nil => exact absurd rfl ne
  | append_singleton rest name ih =>
      rw [← List.append_assoc] at h
      have above := wf.inFolder _ name (mem_locations (by simp) h)
      by_cases last : rest = []
      · simpa [last] using above
      · exact ih last above

theorem realBelow_of_get? {tree : FileTree} (wf : tree.WellFormed) {base : Location}
    {parts : List String} (rest : List String) (ne : rest ≠ []) {entry : Entry}
    (h : tree.get? (base ++ parts ++ rest) = some entry) : tree.RealBelow base parts := by
  rintro above - ⟨more, rfl⟩
  have below : tree.get? (base ++ above ++ (more ++ rest)) = some entry := by
    simpa only [List.append_assoc] using h
  exact get?_of_below wf (more ++ rest) (by simp [ne]) below

theorem isName_of_get? {tree : FileTree} (wf : tree.WellFormed) {location : Location} {entry : Entry}
    (h : tree.get? location = some entry) : ∀ name ∈ location, IsName name := by
  by_cases ne : location = []
  · simp [ne]
  · exact wf.named location (mem_locations ne h)

theorem mem_entries {tree : FileTree} {location : Location} {entry : Entry} (ne : location ≠ [])
    (h : tree.get? location = some entry) : (location, entry) ∈ tree.entries := by
  rw [get?_of_ne_nil tree ne] at h
  exact mem_of_lookup h

theorem IsProject.of_entries {tree : FileTree} {root : Location} (wf : tree.WellFormed)
    (real : tree.RealBelow [] root) (noLinks : ∀ e ∈ tree.entries, ∀ target, e.2 ≠ .link target) :
    tree.IsProject root := by
  refine ⟨wf, real, fun rel target h => ?_⟩
  by_cases ne : root ++ rel = []
  · rw [ne, get?_nil] at h
    cases h
  · exact noLinks _ (mem_entries ne h) target rfl

/-! ## Placing entries below a root -/

def foldersTo (root : Location) : List (Location × Entry) :=
  (List.range root.length).map fun n => (root.take (n + 1), .folder)

/-- A tree with the given entries below a root, and nothing else but the folders on the way. -/
def placeAt (root : Location) (entries : List (List String × Entry)) : FileTree :=
  ⟨foldersTo root ++ entries.map fun (rel, entry) => (root ++ rel, entry), []⟩

theorem mem_foldersTo {root location : Location} {entry : Entry} :
    (location, entry) ∈ foldersTo root ↔ location ≠ [] ∧ location <+: root ∧ entry = .folder := by
  simp only [foldersTo, List.mem_map, List.mem_range, Prod.mk.injEq]
  constructor
  · rintro ⟨n, lt, rfl, rfl⟩
    refine ⟨fun none => ?_, List.take_prefix _ _, rfl⟩
    have := congrArg List.length none
    simp only [List.length_take, List.length_nil] at this
    omega
  · rintro ⟨ne, front, rfl⟩
    have pos := List.length_pos_iff.2 ne
    have le := front.length_le
    refine ⟨location.length - 1, by omega, ?_, rfl⟩
    rw [Nat.sub_add_cancel pos]
    exact (List.prefix_iff_eq_take.1 front).symm

theorem nodup_foldersTo (root : Location) : ((foldersTo root).map (·.1)).Nodup := by
  rw [foldersTo, List.map_map]
  refine List.Nodup.map_on (fun n hn m hm same => ?_) List.nodup_range
  have := congrArg List.length same
  simp only [Function.comp_apply, List.length_take, List.mem_range] at this hn hm
  omega

section Place

variable {root : Location} {entries : List (List String × Entry)}

theorem get?_placeAt (root : Location) {rel : List String} (ne : rel ≠ []) :
    (placeAt root entries).get? (root ++ rel) = entries.lookup rel := by
  have apart : (foldersTo root).lookup (root ++ rel) = none := by
    rw [List.lookup_eq_none_iff]
    rintro ⟨location, entry⟩ mem
    rw [bne_iff_ne]
    rintro rfl
    have le := (mem_foldersTo.1 mem).2.1.length_le
    have pos := List.length_pos_iff.2 ne
    rw [List.length_append] at le
    omega
  rw [get?_of_ne_nil _ (by simp [ne]), placeAt, List.lookup_append, apart, Option.none_or]
  clear apart
  induction entries with
  | nil => rfl
  | cons e entries ih =>
      have same : (root ++ rel == root ++ e.1) = (rel == e.1) := by
        rw [Bool.eq_iff_iff, beq_iff_eq, beq_iff_eq, List.append_cancel_left_eq]
      rw [List.map_cons, List.lookup_cons, List.lookup_cons, same, ih]

theorem get?_folder_placeAt {location : Location} (front : location <+: root) :
    (placeAt root entries).get? location = some .folder := by
  by_cases top : location = []
  · rw [top, get?_nil]
  · have found := lookup_of_mem (nodup_foldersTo root) (mem_foldersTo.2 ⟨top, front, rfl⟩)
    rw [get?_of_ne_nil _ top, placeAt, List.lookup_append, found, Option.some_or]

theorem wellFormed_placeAt (named : ∀ name ∈ root, IsName name)
    (wf : WellFormed ⟨entries, []⟩) (below : ∀ e ∈ entries, e.1 ≠ []) :
    (placeAt root entries).WellFormed := by
  have keys : (placeAt root entries).entries.map (·.1) =
      (foldersTo root).map (·.1) ++ (entries.map (·.1)).map (root ++ ·) := by
    simp [placeAt, Function.comp_def]
  have front {location : Location} (mem : location ∈ (foldersTo root).map (·.1)) : location <+: root := by
    obtain ⟨⟨_, entry⟩, he, rfl⟩ := List.mem_map.1 mem
    exact (mem_foldersTo.1 he).2.1
  have nonempty {rel : List String} (mem : rel ∈ entries.map (·.1)) : rel ≠ [] := by
    obtain ⟨e, he, rfl⟩ := List.mem_map.1 mem
    exact below e he
  refine ⟨?_, ?_, ?_⟩
  · rw [keys, List.nodup_append]
    refine ⟨nodup_foldersTo root, wf.distinct.map fun a b => List.append_cancel_left, ?_⟩
    intro location inFront other mem same
    obtain ⟨rel, hrel, rfl⟩ := List.mem_map.1 mem
    have le := (front inFront).length_le
    have pos := List.length_pos_iff.2 (nonempty hrel)
    rw [same, List.length_append] at le
    omega
  · rw [keys]
    intro location mem name inName
    rcases List.mem_append.1 mem with mem | mem
    · exact named name ((front mem).mem inName)
    · obtain ⟨rel, hrel, rfl⟩ := List.mem_map.1 mem
      rcases List.mem_append.1 inName with inName | inName
      · exact named name inName
      · exact wf.named rel hrel name inName
  · rw [keys]
    intro location name mem
    rcases List.mem_append.1 mem with mem | mem
    · exact get?_folder_placeAt ((List.prefix_append _ _).trans (front mem))
    · obtain ⟨rel, hrel, same⟩ := List.mem_map.1 mem
      rcases List.eq_nil_or_concat rel with rfl | ⟨init, last, rfl⟩
      · exact absurd rfl (nonempty hrel)
      · rw [List.concat_eq_append] at hrel same
        rw [← List.append_assoc] at same
        obtain ⟨rfl, -⟩ := List.append_inj' same rfl
        by_cases first : init = []
        · rw [first, List.append_nil]
          exact get?_folder_placeAt List.prefix_rfl
        · rw [get?_placeAt root first]
          have above := wf.inFolder init last hrel
          rwa [get?_of_ne_nil _ first] at above

theorem isProject_placeAt (named : ∀ name ∈ root, IsName name) (wf : WellFormed ⟨entries, []⟩)
    (below : ∀ e ∈ entries, e.1 ≠ []) (noLinks : ∀ e ∈ entries, ∀ target, e.2 ≠ .link target) :
    (placeAt root entries).IsProject root := by
  refine .of_entries (wellFormed_placeAt named wf below) (fun above _ front => ?_) ?_
  · exact get?_folder_placeAt front
  · rintro ⟨location, entry⟩ mem target
    rcases List.mem_append.1 mem with mem | mem
    · rw [(mem_foldersTo.1 mem).2.2]
      exact fun h => by cases h
    · obtain ⟨e, he, same⟩ := List.mem_map.1 mem
      obtain ⟨-, rfl⟩ := Prod.mk.inj same
      exact noLinks e he target

theorem isCopy_placeAt {root' : Location} (named : ∀ name ∈ root, IsName name)
    (named' : ∀ name ∈ root', IsName name) (wf : WellFormed ⟨entries, []⟩)
    (below : ∀ e ∈ entries, e.1 ≠ []) (noLinks : ∀ e ∈ entries, ∀ target, e.2 ≠ .link target) :
    IsCopy (placeAt root entries) (placeAt root' entries) root root' := by
  refine ⟨isProject_placeAt named wf below noLinks, isProject_placeAt named' wf below noLinks,
    fun rel => ?_⟩
  by_cases top : rel = []
  · rw [top, List.append_nil, List.append_nil, get?_folder_placeAt List.prefix_rfl,
      get?_folder_placeAt List.prefix_rfl]
  · rw [get?_placeAt root top, get?_placeAt root' top]

end Place

end LayerLint.FileTree
