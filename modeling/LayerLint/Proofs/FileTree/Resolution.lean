import LayerLint.Proofs.FileTree.WellFormed

/-!
# Paths without links

Whoever removes the links from a path asks a tree for its links alone, so trees with the same links
give the same path (`SameLinks.resolve`). What is left has no dots in it, and it consists of names
if it leads to something (`isName_of_resolve`).
-/

namespace LayerLint.FileTree

/-! ## Trees with the same links -/

structure SameLinks (tree other : FileTree) : Prop where
  get?_link : ∀ location target,
    other.get? location = some (.link target) ↔ tree.get? location = some (.link target)
  linkCount : other.linkCount = tree.linkCount
  removed : other.removed = tree.removed

namespace SameLinks

variable {tree other third : FileTree}

theorem refl (tree : FileTree) : SameLinks tree tree := ⟨fun _ _ => .rfl, rfl, rfl⟩

theorem trans (h : SameLinks tree other) (h' : SameLinks other third) : SameLinks tree third where
  get?_link location target := (h'.get?_link location target).trans (h.get?_link location target)
  linkCount := h'.linkCount.trans h.linkCount
  removed := h'.removed.trans h.removed

theorem holds (h : SameLinks tree other) (handle : Handle) :
    other.holds handle = tree.holds handle := by
  unfold FileTree.holds FileTree.generation
  rw [h.removed]

theorem entryAt?_link (h : SameLinks tree other) (folder : Handle) (path : PathName)
    (target : String) :
    other.entryAt? folder path = some (.link target) ↔
      tree.entryAt? folder path = some (.link target) := by
  unfold entryAt? fromRoot?
  rw [h.holds folder]
  split
  · exact h.get?_link _ _
  · simp only [Option.bind_eq_some_iff, h.get?_link]

theorem realPathFrom (h : SameLinks tree other) (folder : Handle) (depth : Nat) (path : PathName)
    (met : Resolved) (names : List String) :
    other.realPathFrom folder depth path met names =
      tree.realPathFrom folder depth path met names := by
  have same {path : PathName} {name target : String}
      (link : tree.entryAt? folder (path.down name) = some (.link target)) :
      other.entryAt? folder (path.down name) = some (.link target) :=
    (h.entryAt?_link folder _ target).2 link
  fun_induction FileTree.realPathFrom tree folder depth path met names with
  | case1 => rw [FileTree.realPathFrom]
  | case2 depth path met name rest dot ih =>
      rw [FileTree.realPathFrom, if_pos dot]
      exact ih
  | case3 depth path met rest dot ih =>
      rw [FileTree.realPathFrom, if_neg dot, if_pos rfl]
      exact ih
  | case4 depth path met name rest dot dots next target link known met_ ih =>
      rw [FileTree.realPathFrom, if_neg dot, if_neg dots]
      simp only [same link, show met.lookup (path.down name) = _ from met_]
      exact ih
  | case5 depth path met name rest dot dots next target link met_ =>
      rw [FileTree.realPathFrom, if_neg dot, if_neg dots]
      simp only [same link, show met.lookup (path.down name) = _ from met_]
      rfl
  | case6 path met name rest dot dots next target link met_ =>
      rw [FileTree.realPathFrom, if_neg dot, if_neg dots]
      simp only [same link, show met.lookup (path.down name) = _ from met_]
      rfl
  | case7 path met name rest dot dots next target link met_ links inner settled ih _ ih' =>
      rw [FileTree.realPathFrom, if_neg dot, if_neg dots]
      simp only [same link, show met.lookup (path.down name) = _ from met_]
      rw [ih, if_pos settled]
      exact ih'
  | case8 path met name rest dot dots next target link met_ links inner settled ih =>
      rw [FileTree.realPathFrom, if_neg dot, if_neg dots]
      simp only [same link, show met.lookup (path.down name) = _ from met_]
      rw [ih, if_neg settled]
  | case9 depth path met name rest dot dots next noLink ih =>
      rw [FileTree.realPathFrom, if_neg dot, if_neg dots]
      dsimp only
      split
      · rename_i target link
        exact (noLink target ((h.entryAt?_link folder _ target).1 link)).elim
      · exact ih

theorem resolve (h : SameLinks tree other) (folder : Handle) (path : PathName) :
    other.resolve folder path = tree.resolve folder path := by
  unfold FileTree.resolve FileTree.realPath
  rw [h.linkCount, h.holds folder]
  simp only [h.realPathFrom]

end SameLinks

/-! ## Names that are left -/

theorem mem_straighten {names : List String} {name : String} (h : name ∈ straighten names) :
    name ∈ names ∧ name ≠ ".." := by
  have fold (done : List String) (mem : name ∈ names.foldl (fun done name =>
      if name = ".." then done.tail else name :: done) done) :
      name ∈ done ∨ name ∈ names ∧ name ≠ ".." := by
    clear h
    induction names generalizing done with
    | nil => exact .inl mem
    | cons first names ih =>
        rw [List.foldl_cons] at mem
        rcases ih _ mem with mem | ⟨mem, ne⟩
        · split at mem
          · exact .inl (List.mem_of_mem_tail mem)
          · rename_i ne
            rcases List.mem_cons.1 mem with rfl | mem
            · exact .inr ⟨List.mem_cons_self, ne⟩
            · exact .inl mem
        · exact .inr ⟨List.mem_cons_of_mem _ mem, ne⟩
  apply (fold [] (List.mem_reverse.1 h)).resolve_left
  exact List.not_mem_nil

def Dotless (path : PathName) : Prop := "." ∉ path.parts

section Dotless

variable {path : PathName}

theorem Dotless.down (h : Dotless path) {name : String} (ne : name ≠ ".") :
    Dotless (path.down name) := by
  intro mem
  rcases List.mem_append.1 mem with mem | mem
  · exact h mem
  · exact ne (List.mem_singleton.1 mem).symm

theorem Dotless.up (h : Dotless path) : Dotless path.up := by
  unfold PathName.up
  split
  · split
    · exact h
    · simp [Dotless]
  · split
    · exact h.down (by decide)
    · exact fun mem => h (List.dropLast_subset _ mem)

theorem dotless_ofString (text : String) : Dotless (.ofString text) := by
  simp [Dotless, PathName.ofString, PathName.components]

theorem Dotless.withRest (h : Dotless path) (pieces : List String) :
    Dotless (withRest path pieces) := by
  unfold FileTree.withRest PathName.join
  split
  · exact dotless_ofString _
  · intro mem
    rcases List.mem_append.1 mem with mem | mem
    · exact h mem
    · exact dotless_ofString _ mem

theorem Dotless.targetStart (h : Dotless path) (target : String) :
    Dotless (targetStart path target) := by
  unfold FileTree.targetStart
  split
  · exact List.not_mem_nil
  · exact h

/-- The paths that links are known to stand for have no dots. -/
def Resolved.Dotless (met : Resolved) : Prop :=
  ∀ link known, (link, some known) ∈ met → FileTree.Dotless known

theorem Resolved.Dotless.following {met : Resolved} (h : met.Dotless) (link : PathName) :
    Resolved.Dotless ((link, none) :: met) := by
  intro other known mem
  rcases List.mem_cons.1 mem with same | mem
  · cases same
  · exact h other known mem

theorem Resolved.Dotless.followed {met : Resolved} (h : met.Dotless) (link : PathName)
    (hpath : FileTree.Dotless path) : Resolved.Dotless ((link, some path) :: met) := by
  intro other known mem
  rcases List.mem_cons.1 mem with same | mem
  · cases same
    exact hpath
  · exact h other known mem

theorem dotless_realPathFrom (tree : FileTree) (folder : Handle) (depth : Nat) {met : Resolved}
    (names : List String) (start : Dotless path) (known : met.Dotless) :
    Dotless (tree.realPathFrom folder depth path met names).path ∧
      (tree.realPathFrom folder depth path met names).met.Dotless := by
  fun_induction realPathFrom tree folder depth path met names with
  | case1 => exact ⟨start, known⟩
  | case2 depth path met name rest dot ih => exact ih start known
  | case3 depth path met rest dot ih => exact ih start.up known
  | case4 depth path met name rest dot dots next target link stands found ih =>
      exact ih (known _ _ (mem_of_lookup found)) known
  | case5 depth path met name rest dot dots next target link found =>
      exact ⟨(start.down (not_or.1 dot).2).withRest rest, known⟩
  | case6 path met name rest dot dots next target link found =>
      exact ⟨(start.down (not_or.1 dot).2).withRest rest, known⟩
  | case7 path met name rest dot dots next target link found links inner settled ih _ ih' =>
      obtain ⟨path_inner, met_inner⟩ := ih (start.targetStart target) (known.following next)
      exact ih' path_inner (met_inner.followed next path_inner)
  | case8 path met name rest dot dots next target link found links inner settled ih =>
      obtain ⟨path_inner, met_inner⟩ := ih (start.targetStart target) (known.following next)
      exact ⟨path_inner.withRest rest, met_inner⟩
  | case9 depth path met name rest dot dots next noLink ih =>
      exact ih (start.down (not_or.1 dot).2) known

end Dotless

/-- Names that were followed can be names, but for the dots. -/
theorem isName_of_locateFrom {tree : FileTree} (wf : tree.WellFormed) {links : Nat}
    {here location : Location} {path : List String}
    (h : tree.locateFrom links here path = .ok location) :
    ∀ name ∈ path, name = "." ∨ name = ".." ∨ IsName name := by
  have isName {here : Location} {name : String} {entry : Entry}
      (found : tree.get? (here ++ [name]) = some entry) : IsName name :=
    wf.named _ (mem_locations (by simp) found) name (by simp)
  fun_induction locateFrom tree links here path with
  | case1 => exact fun name mem => absurd mem List.not_mem_nil
  | case2 links here path ih => exact List.forall_mem_cons.2 ⟨.inl rfl, ih h⟩
  | case3 links here path dot ih => exact List.forall_mem_cons.2 ⟨.inr (.inl rfl), ih h⟩
  | case4 => cases h
  | case5 => cases h
  | case6 links here name path dot dots short found ih =>
      exact List.forall_mem_cons.2 ⟨.inr (.inr (isName found)), ih h⟩
  | case7 links here name dot dots short bytes found =>
      exact List.forall_mem_singleton.2 (.inr (.inr (isName found)))
  | case8 => cases h
  | case9 => cases h
  | case10 here name path dot dots short target found links ih =>
      have later : ∀ name ∈ path, name = "." ∨ name = ".." ∨ IsName name :=
        fun name mem => ih h name (List.mem_append_right _ mem)
      exact List.forall_mem_cons.2 ⟨.inr (.inr (isName found)), later⟩

theorem straight_of_resolve {tree : FileTree} {folder : Handle} {given path : PathName}
    (resolved : tree.resolve folder given = .ok path) :
    ∃ names, path.parts = straighten names ∧ ("." ∉ folder.location → "." ∉ names) := by
  have real : Dotless (tree.realPath folder given) := by
    have start : Dotless ⟨if given.isAbsolute then "/" else "", []⟩ := List.not_mem_nil
    have known : Resolved.Dotless [] := fun _ _ mem => absurd mem List.not_mem_nil
    exact (dotless_realPathFrom tree folder _ given.parts start known).1
  unfold resolve at resolved
  split at resolved
  · cases resolved
  · dsimp only at resolved
    split at resolved
    · cases resolved
      exact ⟨_, rfl, fun _ => real⟩
    · split at resolved
      · cases resolved
        exact ⟨_, rfl, fun here mem => (List.mem_append.1 mem).elim here real⟩
      · cases resolved

/-- A path without links that leads to something consists of names. -/
theorem isName_of_resolve {tree : FileTree} (wf : tree.WellFormed) {folder : Handle}
    (here : "." ∉ folder.location) {given path : PathName}
    (resolved : tree.resolve folder given = .ok path) {location : Location}
    (found : tree.locate path.parts = .ok location) : ∀ name ∈ path.parts, IsName name := by
  obtain ⟨names, same, noDot⟩ := straight_of_resolve resolved
  intro name mem
  obtain ⟨inside, ne_dots⟩ := mem_straighten (same ▸ mem)
  rcases isName_of_locateFrom wf found name mem with rfl | rfl | valid
  · exact absurd inside (noDot here)
  · exact absurd rfl ne_dots
  · exact valid

end LayerLint.FileTree
