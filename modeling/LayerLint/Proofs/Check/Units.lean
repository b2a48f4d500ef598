import LayerLint.Check
import LayerLint.Proofs.Scan.Found

/-!
# One rule and one file

What one unit of a check gives, said without the cache and without the session: the violations of a
rule by a file are what the rule says about the imports that stand in the file (`Rule.verdict`,
`importsAt`). The cache holds the imports of the files read so far, each once.
-/

namespace LayerLint

open FileTree (Agrees)

/-! ## Rules that only answer -/

namespace Rule

/-- A rule that does nothing to its surroundings when it is asked. -/
def IsPure : Rule → Prop
  | .builtin _ => True
  | .guarded rule => ∀ file imports, (rule.behaviour file imports).effects = []

/-- An effect that leaves files alone and does not ask for the check to be cancelled. -/
def Effect.IsHarmless : Effect → Prop
  | .cancel => False
  | .wait _ => True
  | .edit _ => False
  | .rewrite _ => True

def Behaviour.IsHarmless (behaviour : Behaviour) : Prop :=
  ∀ file imports, ∀ effect ∈ (behaviour file imports).effects, effect.IsHarmless

def IsHarmless : Rule → Prop
  | .builtin _ => True
  | .guarded rule => rule.behaviour.IsHarmless

theorem IsPure.isHarmless {rule : Rule} (h : rule.IsPure) : rule.IsHarmless := by
  cases rule with
  | builtin rule => trivial
  | guarded rule =>
      intro file imports effect mem
      rw [h file imports] at mem
      cases mem

/-- What a rule says about a file with the given imports. A rule from outside that fails has one
violation. -/
def verdict : Rule → String → List String → List Violation
  | .builtin rule, file, imports => rule.violations file imports
  | .guarded rule, file, imports =>
      match (rule.behaviour file imports).answer.judge with
      | .ok violations => violations
      | .error reason => [rule.failureViolation file reason]

end Rule

/-- The file is none of the log files that are written to. -/
def Session.Apart (session : Session) (file : Location) : Prop :=
  ∀ location, session.tree.locate file = .ok location → location ∉ session.journal.locations

theorem Session.Apart.ofTree (tree : FileTree) (file : Location) : (Session.ofTree tree).Apart file :=
  fun _ _ => List.not_mem_nil

namespace Check

variable {base : Session} {watch : Watch}

/-! ## Imports -/

/-- The imports that stand in a file; none if its language is not known, if it is larger than the
limit or if it cannot be read. -/
def importsAt (tree : FileTree) (limit : Int) (file : Location) : List String :=
  (Import.inspect tree (some limit) ⟨"/", file⟩ (.ok file)).imports

theorem inspect_congr {tree other : FileTree} {file : Location}
    (status : other.status file = tree.status file) (limit : Option Int) (given : PathName) :
    Import.inspect other limit given (.ok file) = Import.inspect tree limit given (.ok file) := by
  have contents : other.contents file = tree.contents file := by
    unfold FileTree.contents
    rw [status]
  have size : other.size file = tree.size file := by
    unfold FileTree.size
    rw [status]
  unfold Import.inspect
  simp only [Except.bind, contents, size]

theorem importsAt_file {tree : FileTree} {file : Location} {bytes : List UInt8}
    (status : tree.status file = .ok (.file bytes)) (limit : Int) :
    importsAt tree limit file =
      match Import.Language.ofPath? ⟨"/", file⟩ with
      | none => []
      | some language =>
          if Import.exceeds bytes.length (some limit) then []
          else Import.imports language
            (String.ofList (Text.unifyBreaks (Text.decodeLossy bytes))) := by
  unfold importsAt Import.inspect
  simp only [Except.bind, FileTree.contents_of_status status, FileTree.size_of_status status]
  cases Import.Language.ofPath? ⟨"/", file⟩ with
  | none => rfl
  | some language => cases Import.exceeds bytes.length (some limit) <;> rfl

theorem importsAt_of_status (language : Import.Language) {tree : FileTree} {file : Location}
    {bytes : List UInt8} {limit : Int} (status : tree.status file = .ok (.file bytes))
    (small : bytes.length ≤ limit) (spoken : Import.Language.ofPath? ⟨"/", file⟩ = some language) :
    importsAt tree limit file = Import.imports language
      (String.ofList (Text.unifyBreaks (Text.decodeLossy bytes))) := by
  have fits : Import.exceeds bytes.length (some limit) = false := decide_eq_false (Int.not_lt.2 small)
  rw [importsAt_file status, spoken]
  simp only [fits, Bool.false_eq_true, ↓reduceIte]

theorem inspect_agrees {spare : List Location} {tree other : FileTree}
    (h : Agrees spare tree other) {file : Location}
    (apart : ∀ location, tree.locate file = .ok location → location ∉ spare) (limit : Option Int)
    (given : PathName) :
    Import.inspect other limit given (.ok file) = Import.inspect tree limit given (.ok file) :=
  inspect_congr (h.status_of_apart apart) limit given

theorem inspect_possible {tree : FileTree} {file : Location} (isFile : tree.isFile file = true)
    (limit : Option Int) (given : PathName) :
    Import.inspect tree limit given (.ok file) ≠ .impossible := by
  obtain ⟨bytes, status⟩ := Scan.isFile_iff.1 isFile
  unfold Import.inspect
  simp only [Except.bind, FileTree.contents_of_status status, FileTree.size_of_status status]
  split
  · nofun
  · split
    · nofun
    · split <;> nofun

theorem readImports_gives {file : Location} (isFile : base.tree.isFile file = true)
    (apart : base.Apart file) (limit : Int) :
    Run.Gives base watch (readImports limit file) (.ok (importsAt base.tree limit file)) [file] := by
  refine (Run.Gives.remember_read file).bind_skip (.of_take fun session h => ?_)
  have same : Import.inspect session.tree (some limit) ⟨"/", file⟩ (session.absolute ⟨"/", file⟩) =
      Import.inspect base.tree (some limit) ⟨"/", file⟩ (.ok file) :=
    inspect_agrees h.tree apart (some limit) ⟨"/", file⟩
  have possible := inspect_possible isFile (some limit) ⟨"/", file⟩
  rw [Run.on_tryCatch, Import.ofFile, Run.on_get_bind, same, importsAt]
  cases extraction : Import.inspect base.tree (some limit) ⟨"/", file⟩ (.ok file) with
  | noLanguage =>
      rw [Run.on_note_bind]
      exact .inr ⟨_, rfl⟩
  | tooLarge size =>
      rw [Run.on_note_bind]
      exact .inr ⟨_, rfl⟩
  | found imports => exact .inl rfl
  | unreadable reason =>
      rw [Run.on_throw]
      dsimp only
      rw [Run.on_note_bind]
      exact .inr ⟨_, rfl⟩
  | impossible => exact absurd extraction possible

/-! ## Asking a rule -/

theorem apply_effects {effects : List Rule.Effect} (harmless : ∀ effect ∈ effects, effect.IsHarmless)
    (session : Session) :
    ∃ clock, effects.foldl Session.apply session = { session with clock := clock } := by
  induction effects generalizing session with
  | nil => exact ⟨session.clock, rfl⟩
  | cons effect effects ih =>
      have rest := ih fun other mem => harmless other (by simp [mem])
      cases effect with
      | cancel => exact (harmless .cancel (by simp)).elim
      | edit change => exact (harmless (.edit change) (by simp)).elim
      | wait seconds => exact rest (session.apply (.wait seconds))
      | rewrite imports => exact rest session

theorem effects_give {effects : List Rule.Effect}
    (harmless : ∀ effect ∈ effects, effect.IsHarmless) :
    Run.Gives base watch (Run.change fun session => effects.foldl Session.apply session)
      (.ok ()) [] := by
  refine .of_on (fun session _ => Run.on_change ..) (fun session h => ?_) (fun session => ?_)
    fun session => ?_ <;> obtain ⟨clock, eq⟩ := apply_effects harmless session <;> rw [eq]
  · exact h.of_eq rfl rfl rfl
  · exact (List.append_nil _).symm

theorem ask_gives {rule : Rule} (harmless : rule.IsHarmless) (file : String)
    (imports : List String) :
    Run.Gives base watch (ask rule file imports) (.ok (rule.verdict file imports)) [] := by
  refine (Run.Gives.remember_asked rule file imports).bind ?_
  cases rule with
  | builtin rule => exact .pure _
  | guarded rule =>
      refine (effects_give (harmless file imports)).bind ?_
      rw [Rule.verdict]
      cases (rule.behaviour file imports).answer.judge with
      | ok violations => exact .pure _
      | error reason => exact (Run.Gives.note ..).bind (.pure _)

/-! ## The cache -/

def cacheOf (tree : FileTree) (limit : Int) (files : List Location) : Cache :=
  files.map fun file => (file, importsAt tree limit file)

theorem lookup_cacheOf (tree : FileTree) (limit : Int) (files : List Location) (file : Location) :
    (cacheOf tree limit files).lookup file =
      if file ∈ files then some (importsAt tree limit file) else none := by
  induction files with
  | nil => rfl
  | cons other files ih =>
      unfold cacheOf at ih ⊢
      grind

/-- The files that are not in `seen`, each where it comes first. -/
def unseen (seen : List Location) : List Location → List Location
  | [] => []
  | file :: files =>
      if file ∈ seen then unseen seen files else file :: unseen (seen ++ [file]) files

theorem unseen_append (seen files more : List Location) :
    unseen seen (files ++ more) = unseen seen files ++ unseen (seen ++ unseen seen files) more := by
  fun_induction unseen seen files with
  | case1 => simp
  | case2 seen file files mem ih =>
      rw [List.cons_append, unseen, if_pos mem]
      exact ih
  | case3 seen file files new ih =>
      rw [List.cons_append, unseen, if_neg new, ih]
      simp

theorem unseen_eq (seen files : List Location) :
    unseen seen files = (files.filter (· ∉ seen)).eraseDups := by
  fun_induction unseen seen files with
  | case1 => rfl
  | case2 seen file files mem ih => rw [ih, List.filter_cons_of_neg (by simpa using mem)]
  | case3 seen file files new ih =>
      rw [ih, List.filter_cons_of_pos (by simpa using new), List.eraseDups_cons, List.filter_filter]
      refine congrArg (file :: List.eraseDups ·) (List.filter_congr fun other _ => ?_)
      grind

theorem unseen_nil (files : List Location) : unseen [] files = files.eraseDups := by
  rw [unseen_eq, List.filter_eq_self.2 (by simp)]

theorem nodup_unseen (seen files : List Location) :
    (unseen seen files).Nodup ∧ ∀ file ∈ unseen seen files, file ∉ seen := by
  fun_induction unseen seen files with
  | case1 => simp
  | case2 seen file files mem ih => exact ih
  | case3 seen file files new ih =>
      obtain ⟨distinct, apart⟩ := ih
      refine ⟨List.nodup_cons.2 ⟨fun mem => apart file mem (by simp), distinct⟩, fun other mem => ?_⟩
      rcases List.mem_cons.1 mem with rfl | mem
      · exact new
      · exact fun old => apart other mem (by simp [old])

theorem importsOf_gives {file : Location} (isFile : base.tree.isFile file = true)
    (apart : base.Apart file) (limit : Int) (seen : List Location) :
    Run.Gives base watch (importsOf limit (cacheOf base.tree limit seen) file)
      (.ok (importsAt base.tree limit file, cacheOf base.tree limit (seen ++ unseen seen [file])))
      (unseen seen [file]) := by
  unfold importsOf
  rw [lookup_cacheOf]
  by_cases mem : file ∈ seen
  · rw [if_pos mem, unseen, if_pos mem, unseen, List.append_nil]
    exact .pure _
  · rw [if_neg mem, unseen, if_neg mem, unseen]
    refine (readImports_gives isFile apart limit).bind_skip ?_
    rw [show cacheOf base.tree limit (seen ++ [file]) =
      cacheOf base.tree limit seen ++ [(file, importsAt base.tree limit file)] from List.map_append]
    exact .pure _

/-! ## Units -/

def unitOf (tree : FileTree) (limit : Int) (rule : Rule) (file : Location) : List Violation :=
  rule.verdict (Location.text file) (importsAt tree limit file)

theorem evaluate_gives {plan : Plan} {rule : Rule} (harmless : rule.IsHarmless) {file : Location}
    (isFile : base.tree.isFile file = true) (apart : base.Apart file) (seen : List Location) :
    Run.Gives base plan.watch (evaluate plan (cacheOf base.tree plan.limit seen) rule file)
      (.ok (unitOf base.tree plan.limit rule file,
        cacheOf base.tree plan.limit (seen ++ unseen seen [file]))) (unseen seen [file]) := by
  refine Run.Gives.check.skip_bind ?_
  refine (importsOf_gives isFile apart plan.limit seen).bind_skip ?_
  exact (ask_gives harmless _ _).bind_skip (.pure _)

theorem evaluateAll_gives {plan : Plan} {rule : Rule} (harmless : rule.IsHarmless)
    {files : List Location} (isFile : ∀ file ∈ files, base.tree.isFile file = true)
    (apart : ∀ file ∈ files, base.Apart file) (seen : List Location) :
    Run.Gives base plan.watch (evaluateAll plan rule (cacheOf base.tree plan.limit seen) files)
      (.ok (files.flatMap (unitOf base.tree plan.limit rule),
        cacheOf base.tree plan.limit (seen ++ unseen seen files))) (unseen seen files) := by
  induction files generalizing seen with
  | nil =>
      rw [unseen, List.append_nil]
      exact .pure _
  | cons file files ih =>
      have rest := ih (fun other mem => isFile other (by simp [mem]))
        (fun other mem => apart other (by simp [mem])) (seen ++ unseen seen [file])
      rw [List.append_assoc] at rest
      rw [show unseen seen (file :: files) = _ from unseen_append seen [file] files]
      refine (evaluate_gives harmless (isFile file (by simp)) (apart file (by simp)) seen).bind ?_
      exact rest.bind_skip (.pure _)

end Check

end LayerLint
