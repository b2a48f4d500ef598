import LayerLint.FileTree.Lookup

/-!
# Well-formed file trees

The trees that a file system can hold: one entry for a location, every entry in a folder, and names
that can be names. In such a tree `locate` goes through folders as their names say.
-/

namespace LayerLint

structure IsName (name : String) : Prop where
  ne_empty : name ≠ ""
  ne_dot : name ≠ "."
  ne_dots : name ≠ ".."
  no_slash : '/' ∉ name.toList
  no_null : FileTree.hasNull name = false
  short : name.utf8ByteSize ≤ FileTree.maxNameBytes

instance (name : String) : Decidable (IsName name) :=
  decidable_of_iff
    (name ≠ "" ∧ name ≠ "." ∧ name ≠ ".." ∧ '/' ∉ name.toList ∧ FileTree.hasNull name = false ∧
      name.utf8ByteSize ≤ FileTree.maxNameBytes)
    ⟨fun ⟨h₁, h₂, h₃, h₄, h₅, h₆⟩ => ⟨h₁, h₂, h₃, h₄, h₅, h₆⟩,
      fun ⟨h₁, h₂, h₃, h₄, h₅, h₆⟩ => ⟨h₁, h₂, h₃, h₄, h₅, h₆⟩⟩

theorem mem_of_lookup {α β : Type} [BEq α] [LawfulBEq α] {xs : List (α × β)} {a : α} {b : β}
    (h : xs.lookup a = some b) : (a, b) ∈ xs := by
  obtain ⟨before, after, same, -⟩ := List.lookup_eq_some_iff.1 h
  simp [same]

theorem lookup_of_mem {α β : Type} [BEq α] [LawfulBEq α] {xs : List (α × β)}
    (distinct : (xs.map (·.1)).Nodup) {a : α} {b : β} (mem : (a, b) ∈ xs) : xs.lookup a = some b := by
  induction xs with
  | nil => cases mem
  | cons x xs ih =>
      rw [List.map_cons, List.nodup_cons] at distinct
      rw [List.lookup_cons]
      rcases List.mem_cons.1 mem with rfl | mem
      · simp
      · have ne : a ≠ x.1 := fun same => distinct.1 (same ▸ List.mem_map_of_mem mem)
        rw [beq_eq_false_iff_ne.2 ne]
        exact ih distinct.2 mem

theorem eraseDups_concat {α : Type} [BEq α] [LawfulBEq α] (xs : List α) (a : α) [Decidable (a ∈ xs)] :
    (xs ++ [a]).eraseDups = if a ∈ xs then xs.eraseDups else xs.eraseDups ++ [a] := by
  rw [List.eraseDups_append, List.removeAll]
  split
  · simp [*]
  · simp [*, List.eraseDups_cons]

namespace FileTree

structure WellFormed (tree : FileTree) : Prop where
  distinct : (tree.entries.map (·.1)).Nodup
  named : ∀ location ∈ tree.entries.map (·.1), ∀ name ∈ location, IsName name
  inFolder : ∀ location name, location ++ [name] ∈ tree.entries.map (·.1) →
    tree.get? location = some .folder

theorem wellFormed_iff (tree : FileTree) :
    tree.WellFormed ↔
      (tree.entries.map (·.1)).Nodup ∧
        (∀ location ∈ tree.entries.map (·.1), ∀ name ∈ location, IsName name) ∧
        ∀ location ∈ tree.entries.map (·.1), location ≠ [] →
          tree.get? location.dropLast = some .folder := by
  constructor
  · intro h
    refine ⟨h.distinct, h.named, fun location mem ne => h.inFolder _ (location.getLast ne) ?_⟩
    rwa [List.dropLast_concat_getLast]
  · rintro ⟨distinct, named, inFolder⟩
    refine ⟨distinct, named, fun location name mem => ?_⟩
    simpa using inFolder _ mem (by simp)

instance (tree : FileTree) : Decidable tree.WellFormed :=
  decidable_of_iff _ (wellFormed_iff tree).symm

theorem get?_nil (tree : FileTree) : tree.get? [] = some .folder := rfl

theorem get?_of_ne_nil (tree : FileTree) {location : Location} (h : location ≠ []) :
    tree.get? location = tree.entries.lookup location := if_neg h

theorem mem_locations {tree : FileTree} {location : Location} {entry : Entry}
    (ne : location ≠ []) (h : tree.get? location = some entry) :
    location ∈ tree.entries.map (·.1) := by
  rw [get?_of_ne_nil tree ne] at h
  exact List.mem_map_of_mem (mem_of_lookup h)

theorem contents_of_status {tree : FileTree} {path : List String} {bytes : List UInt8}
    (status : tree.status path = .ok (.file bytes)) : tree.contents path = .ok bytes := by
  unfold contents
  rw [status]

theorem size_of_status {tree : FileTree} {path : List String} {bytes : List UInt8}
    (status : tree.status path = .ok (.file bytes)) : tree.size path = .ok bytes.length := by
  unfold size
  rw [status]

theorem nameIn?_eq_some {location other : Location} {name : String} :
    nameIn? location other = some name ↔ other = location ++ [name] := by
  unfold nameIn?
  constructor
  · intro h
    split at h
    · rename_i prefix_
      obtain ⟨tail, rfl⟩ := List.isPrefixOf_iff_prefix.1 prefix_
      rw [List.drop_left] at h
      split at h
      · obtain rfl := Option.some.inj h
        rfl
      · cases h
    · cases h
  · rintro rfl
    rw [if_pos (List.isPrefixOf_iff_prefix.2 ⟨[name], rfl⟩), List.drop_left]

theorem mem_names {tree : FileTree} {location : Location} {name : String} :
    name ∈ tree.names location ↔ location ++ [name] ∈ tree.entries.map (·.1) := by
  simp only [names, List.mem_filterMap, nameIn?_eq_some, List.mem_map]

theorem mem_names_of_get? {tree : FileTree} {location : Location} {name : String} {entry : Entry}
    (h : tree.get? (location ++ [name]) = some entry) : name ∈ tree.names location :=
  mem_names.2 (mem_locations (by simp) h)

theorem names_eq (tree : FileTree) (location : Location) :
    tree.names location = (tree.entries.map (·.1)).filterMap (nameIn? location) := by
  rw [names, List.filterMap_map]
  rfl

theorem get?_set (tree : FileTree) {location : Location} (ne : location ≠ []) (entry : Entry)
    (other : Location) :
    (tree.set location entry).get? other = if other = location then some entry else tree.get? other := by
  have away (entries : List (Location × Entry)) :
      (entries.filter (·.1 ≠ location)).lookup other =
        if other = location then none else entries.lookup other := by
    induction entries with
    | nil => simp
    | cons e entries ih => grind
  unfold get? set
  rw [List.lookup_append, away]
  grind

theorem linkCount_set_file (tree : FileTree) {location : Location}
    (noLink : ∀ e ∈ tree.entries, e.1 = location → e.2.isLink = false) (bytes : List UInt8) :
    (tree.set location (.file bytes)).linkCount = tree.linkCount := by
  have kept : (tree.entries.filter (·.1 ≠ location)).countP (·.2.isLink) =
      tree.entries.countP (·.2.isLink) := by
    rw [List.countP_filter]
    apply List.countP_congr
    intro e mem
    by_cases here : e.1 = location
    · simp [here, noLink e mem here]
    · simp [here]
  rw [linkCount, set, List.countP_append, kept]
  rfl

/-! ## Following names -/

theorem locateFrom_nil (tree : FileTree) (links : Nat) (here : Location) :
    tree.locateFrom links here [] = .ok here := by
  rw [locateFrom]

theorem locateFrom_folder {tree : FileTree} {here : Location} {name : String} (valid : IsName name)
    (found : tree.get? (here ++ [name]) = some .folder) (links : Nat) (rest : List String) :
    tree.locateFrom links here (name :: rest) = tree.locateFrom links (here ++ [name]) rest := by
  rw [locateFrom, if_neg valid.ne_dot, if_neg valid.ne_dots, if_neg (Nat.not_lt.2 valid.short),
    found]

theorem locateFrom_file {tree : FileTree} {here : Location} {name : String} (valid : IsName name)
    {bytes : List UInt8} (found : tree.get? (here ++ [name]) = some (.file bytes)) (links : Nat) :
    tree.locateFrom links here [name] = .ok (here ++ [name]) := by
  rw [locateFrom, if_neg valid.ne_dot, if_neg valid.ne_dots, if_neg (Nat.not_lt.2 valid.short),
    found]
  exact if_pos rfl

/-- A path that leads to a folder can be continued there, with the links that are left. -/
theorem locateFrom_append {tree : FileTree} {links : Nat} {here base : Location} {path : List String}
    (h : tree.locateFrom links here path = .ok base) (folder : tree.get? base = some .folder) :
    ∃ left ≤ links,
      ∀ rest, tree.locateFrom links here (path ++ rest) = tree.locateFrom left base rest := by
  fun_induction locateFrom tree links here path with
  | case1 links here =>
      obtain rfl := Except.ok.inj h
      exact ⟨links, Nat.le_refl links, fun rest => rfl⟩
  | case2 links here path ih =>
      obtain ⟨left, le, hleft⟩ := ih h
      refine ⟨left, le, fun rest => ?_⟩
      rw [List.cons_append, locateFrom, if_pos rfl]
      exact hleft rest
  | case3 links here path dot ih =>
      obtain ⟨left, le, hleft⟩ := ih h
      refine ⟨left, le, fun rest => ?_⟩
      rw [List.cons_append, locateFrom, if_neg dot, if_pos rfl]
      exact hleft rest
  | case4 => cases h
  | case5 => cases h
  | case6 links here name path dot dots short found ih =>
      obtain ⟨left, le, hleft⟩ := ih h
      refine ⟨left, le, fun rest => ?_⟩
      rw [List.cons_append, locateFrom, if_neg dot, if_neg dots, if_neg short, found]
      exact hleft rest
  | case7 links here name dot dots short bytes found =>
      obtain rfl := Except.ok.inj h
      rw [folder] at found
      cases found
  | case8 => cases h
  | case9 => cases h
  | case10 here name path dot dots short target found links ih =>
      obtain ⟨left, le, hleft⟩ := ih h
      refine ⟨left, Nat.le_succ_of_le le, fun rest => ?_⟩
      rw [List.cons_append, locateFrom, if_neg dot, if_neg dots, if_neg short, found]
      simpa using hleft rest

/-- With more links to follow, a path leads to the same place. -/
theorem locateFrom_mono {tree : FileTree} {links : Nat} {here location : Location}
    {path : List String} (h : tree.locateFrom links here path = .ok location) {more : Nat}
    (le : links ≤ more) : tree.locateFrom more here path = .ok location := by
  fun_induction locateFrom tree links here path generalizing more with
  | case1 => rwa [locateFrom]
  | case2 links here path ih =>
      rw [locateFrom, if_pos rfl]
      exact ih h le
  | case3 links here path dot ih =>
      rw [locateFrom, if_neg dot, if_pos rfl]
      exact ih h le
  | case4 => cases h
  | case5 => cases h
  | case6 links here name path dot dots short found ih =>
      rw [locateFrom, if_neg dot, if_neg dots, if_neg short, found]
      exact ih h le
  | case7 links here name dot dots short bytes found =>
      rw [locateFrom, if_neg dot, if_neg dots, if_neg short, found]
      exact h
  | case8 => cases h
  | case9 => cases h
  | case10 here name path dot dots short target found links ih =>
      obtain ⟨other, rfl⟩ : ∃ other, more = other + 1 := ⟨more - 1, by omega⟩
      rw [locateFrom, if_neg dot, if_neg dots, if_neg short, found]
      exact ih h (Nat.le_of_succ_le_succ le)

/-- Folders below a location, each in the one before, with no link among them. -/
def RealBelow (tree : FileTree) (base : Location) (parts : List String) : Prop :=
  ∀ above, above ≠ [] → above <+: parts → tree.get? (base ++ above) = some .folder

theorem RealBelow.nil (tree : FileTree) (base : Location) : tree.RealBelow base [] :=
  fun _ ne h => absurd (List.prefix_nil.1 h) ne

theorem RealBelow.of_front {tree : FileTree} {base : Location} {parts above : List String}
    (h : tree.RealBelow base parts) (front : above <+: parts) : tree.RealBelow base above :=
  fun _ ne hp => h _ ne (hp.trans front)

theorem RealBelow.concat {tree : FileTree} {base : Location} {parts : List String} {name : String} :
    tree.RealBelow base (parts ++ [name]) ↔
      tree.RealBelow base parts ∧ tree.get? (base ++ parts ++ [name]) = some .folder := by
  constructor
  · intro h
    refine ⟨h.of_front (List.prefix_append ..), ?_⟩
    rw [List.append_assoc]
    exact h _ (by simp) List.prefix_rfl
  · rintro ⟨h, last⟩ above ne front
    rcases List.prefix_concat_iff.1 front with rfl | front
    · rwa [← List.append_assoc]
    · exact h above ne front

theorem RealBelow.locateFrom {tree : FileTree} (wf : tree.WellFormed) {base : Location}
    {parts : List String} (h : tree.RealBelow base parts) (links : Nat) (rest : List String) :
    tree.locateFrom links base (parts ++ rest) = tree.locateFrom links (base ++ parts) rest := by
  induction parts generalizing base with
  | nil => simp
  | cons name parts ih =>
      have first : tree.get? (base ++ [name]) = some .folder := h [name] (by simp) (by simp)
      have valid : IsName name := wf.named _ (mem_locations (by simp) first) name (by simp)
      have below : tree.RealBelow (base ++ [name]) parts := by
        intro above ne front
        rw [List.append_assoc]
        exact h (name :: above) (by simp) (List.cons_prefix_cons.2 ⟨rfl, front⟩)
      rw [List.cons_append, locateFrom_folder valid first]
      simpa using ih below

theorem RealBelow.isName {tree : FileTree} (wf : tree.WellFormed) {base : Location}
    {parts : List String} (h : tree.RealBelow base parts) : ∀ name ∈ parts, IsName name := by
  intro name mem
  have last := h parts (List.ne_nil_of_mem mem) List.prefix_rfl
  exact wf.named _ (mem_locations (by simp [List.ne_nil_of_mem mem]) last) name (by simp [mem])

theorem straighten_eq {names : List String} (h : ".." ∉ names) : straighten names = names := by
  have fold (done : List String) : names.foldl (fun done name =>
      if name = ".." then done.tail else name :: done) done = names.reverse ++ done := by
    induction names generalizing done with
    | nil => rfl
    | cons name names ih =>
        rw [List.mem_cons, not_or] at h
        rw [List.foldl_cons, if_neg (Ne.symm h.1), ih h.2, List.reverse_cons, List.append_assoc]
        rfl
  rw [straighten, fold, List.append_nil, List.reverse_reverse]

/-- There are no links to be removed from a path through real folders. -/
theorem RealBelow.realPathFrom {tree : FileTree} (wf : tree.WellFormed) (folder : Handle)
    (depth : Nat) (met : Resolved) {done rest : List String} (h : tree.RealBelow [] (done ++ rest)) :
    tree.realPathFrom folder depth ⟨"/", done⟩ met rest = ⟨⟨"/", done ++ rest⟩, true, met⟩ := by
  induction rest generalizing done with
  | nil => rw [FileTree.realPathFrom, List.append_nil]
  | cons name rest ih =>
      rw [List.append_cons] at h
      have front := h.of_front (List.prefix_append (done ++ [name]) rest)
      have valid := front.isName wf
      have entry : tree.entryAt? folder (PathName.down ⟨"/", done⟩ name) = some .folder := by
        show tree.get? (straighten (done ++ [name])) = some .folder
        rw [straighten_eq fun mem => (valid _ mem).ne_dots rfl]
        exact front _ (by simp) List.prefix_rfl
      obtain ⟨ne_empty, ne_dot, ne_dots, -⟩ := valid name (by simp)
      rw [FileTree.realPathFrom, if_neg (not_or.2 ⟨ne_empty, ne_dot⟩), if_neg ne_dots]
      simp only [entry]
      rw [PathName.down, ih h, List.append_assoc]
      rfl

theorem RealBelow.resolve {tree : FileTree} (wf : tree.WellFormed) (folder : Handle)
    {parts : List String} (h : tree.RealBelow [] parts) :
    tree.resolve folder ⟨"/", parts⟩ = .ok ⟨"/", parts⟩ := by
  have valid := h.isName wf
  have noNull : parts.any hasNull = false :=
    List.any_eq_false.2 fun name mem => by simp [(valid name mem).no_null]
  have real : tree.realPath folder ⟨"/", parts⟩ = ⟨"/", parts⟩ :=
    congrArg RealPath.path (@RealBelow.realPathFrom tree wf folder _ [] [] parts h)
  rw [FileTree.resolve, noNull, real]
  show Except.ok _ = _
  rw [straighten_eq fun mem => (valid _ mem).ne_dots rfl]

end FileTree

end LayerLint
