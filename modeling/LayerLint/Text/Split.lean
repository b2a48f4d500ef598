/-!
# Cutting text at a character
-/

namespace LayerLint.Text

/-- The pieces of a text between the occurrences of `sep`; one more than there are occurrences. -/
def splitOn (sep : Char) : List Char → List (List Char)
  | [] => [[]]
  | c :: cs =>
      if c = sep then [] :: splitOn sep cs
      else
        match splitOn sep cs with
        | [] => [[c]]
        | piece :: pieces => (c :: piece) :: pieces

/-- The text before the first occurrence of `sep` and the text after it. -/
def cutAt? (sep : Char) (cs : List Char) : Option (List Char × List Char) :=
  match cs.dropWhile (· != sep) with
  | [] => none
  | _ :: rest => some (cs.takeWhile (· != sep), rest)

theorem cutAt?_length {sep : Char} {cs before rest : List Char}
    (h : cutAt? sep cs = some (before, rest)) : before.length + rest.length + 1 = cs.length := by
  unfold cutAt? at h
  split at h
  · cases h
  · rename_i c tail heq
    simp only [Option.some.injEq, Prod.mk.injEq] at h
    obtain ⟨rfl, rfl⟩ := h
    have := congrArg List.length (List.takeWhile_append_dropWhile (p := (· != sep)) (l := cs))
    simp only [heq, List.length_append, List.length_cons] at this
    omega

/-- What follows `front` in a text that starts with it. -/
def dropFront? : List Char → List Char → Option (List Char)
  | [], cs => some cs
  | _ :: _, [] => none
  | d :: ds, c :: cs => if d = c then dropFront? ds cs else none

theorem eq_append_of_dropFront? {front cs rest : List Char} (h : dropFront? front cs = some rest) :
    cs = front ++ rest := by
  induction front generalizing cs with
  | nil => simpa [dropFront?] using h
  | cons d ds ih =>
      cases cs with
      | nil => simp [dropFront?] at h
      | cons c cs =>
          rw [dropFront?] at h
          split at h
          · rename_i hdc
            rw [hdc, ih h, List.cons_append]
          · cases h

/-- Whether `part` occurs in a text as a contiguous run. -/
def occursIn (part : List Char) : List Char → Bool
  | [] => part.isEmpty
  | c :: cs => part.isPrefixOf (c :: cs) || occursIn part cs

end LayerLint.Text
