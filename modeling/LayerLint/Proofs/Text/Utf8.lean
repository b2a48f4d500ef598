import LayerLint.Text.Utf8
import Mathlib.Data.List.Forall2

/-!
# Text and its bytes

What was written as UTF-8 is read back as it was, and nothing of it is replaced: `decodeLossy_encode`.
Reading also turns line breaks into line feeds: `unifyBreaks_eq` says so in two steps, for a carriage
return together with the line feed behind it and then for those that are left.
-/

namespace LayerLint.Text

/-! ## Bytes of a character -/

/-- The byte that carries six bits of a character behind its first byte. -/
def tailByte (bits : Nat) : UInt8 := UInt8.ofNat (bits + 0x80)

theorem toNat_tailByte {bits : Nat} (small : bits < 64) : (tailByte bits).toNat = bits + 0x80 := by
  apply UInt8.toNat_ofNat_of_lt'
  simp only [UInt8.size]
  omega

/-- Six bits may stand in a place whose bytes lie between two bounds. -/
def InRange (range : Nat × Nat) (bits : Nat) : Prop :=
  bits < 64 ∧ range.1 ≤ bits + 0x80 ∧ bits + 0x80 ≤ range.2

theorem inRange_any {bits : Nat} (small : bits < 64) : InRange (0x80, 0xbf) bits := by
  constructor
  · exact small
  · simp only
    omega

theorem readTail_tailBytes {ranges : List (Nat × Nat)} {digits : List Nat}
    (fit : List.Forall₂ InRange ranges digits) (n : Nat) (rest : List UInt8) :
    readTail ranges n (digits.map tailByte ++ rest) =
      (some (digits.foldl (fun n bits => n * 64 + bits) n), rest) := by
  induction fit generalizing n with
  | nil => rfl
  | @cons range bits ranges digits inside _ ih =>
      have value := toNat_tailByte inside.1
      have taken : range.1 ≤ (tailByte bits).toNat ∧ (tailByte bits).toNat ≤ range.2 := by
        rw [value]
        exact inside.2
      rw [List.map_cons, List.cons_append, readTail, if_pos taken, ih, List.foldl_cons, value,
        Nat.add_sub_cancel]

theorem leadByte?_two {bits : Nat} (low : 2 ≤ bits) (high : bits < 0x20) :
    leadByte? (bits + 0xc0) = some (bits, [(0x80, 0xbf)]) := by
  unfold leadByte?
  rw [if_neg (by omega), if_neg (by omega), if_pos (by omega), Nat.add_sub_cancel]

/-- Neither a longer form than needed nor half of a pair can follow the first of three bytes. -/
theorem leadByte?_three {bits : Nat} (high : bits < 0x10) :
    leadByte? (bits + 0xe0) =
      some (bits, [(if bits = 0 then 0xa0 else 0x80, if bits = 0xd then 0x9f else 0xbf),
        (0x80, 0xbf)]) := by
  unfold leadByte?
  rw [if_neg (by omega), if_neg (by omega), if_neg (by omega)]
  by_cases first : bits = 0
  · subst first
    rfl
  · by_cases half : bits = 0xd
    · subst half
      rfl
    · rw [if_neg (by omega), if_neg (by omega), if_pos (by omega), if_neg first, if_neg half,
        Nat.add_sub_cancel]

theorem leadByte?_four {bits : Nat} (high : bits ≤ 4) :
    leadByte? (bits + 0xf0) =
      some (bits, [(if bits = 0 then 0x90 else 0x80, if bits = 4 then 0x8f else 0xbf),
        (0x80, 0xbf), (0x80, 0xbf)]) := by
  have cases : bits = 0 ∨ bits = 1 ∨ bits = 2 ∨ bits = 3 ∨ bits = 4 := by omega
  rcases cases with rfl | rfl | rfl | rfl | rfl <;> rfl

theorem decodeFront_digits {lead : UInt8} {bits : Nat} {ranges : List (Nat × Nat)}
    {digits : List Nat} (first : leadByte? lead.toNat = some (bits, ranges))
    (fit : List.Forall₂ InRange ranges digits) {c : Char}
    (value : digits.foldl (fun n bits => n * 64 + bits) bits = c.toNat) (rest : List UInt8) :
    decodeFront lead (digits.map tailByte ++ rest) = (some c, rest) := by
  unfold decodeFront
  rw [first]
  simp only [readTail_tailBytes fit, value, Option.map_some, Char.ofNat_toNat]

/-- No character stands for half of a pair, and none lies beyond the last one. -/
theorem toNat_valid (c : Char) : c.toNat < 0xd800 ∨ 0xdfff < c.toNat ∧ c.toNat < 0x110000 :=
  c.valid

theorem utf8EncodeChar_eq (c : Char) :
    String.utf8EncodeChar c =
      if c.toNat ≤ 0x7f then [UInt8.ofNat c.toNat]
      else if c.toNat ≤ 0x7ff then
        UInt8.ofNat (c.toNat / 64 % 32 + 0xc0) :: [c.toNat % 64].map tailByte
      else if c.toNat ≤ 0xffff then
        UInt8.ofNat (c.toNat / 4096 % 16 + 0xe0) ::
          [c.toNat / 64 % 64, c.toNat % 64].map tailByte
      else
        UInt8.ofNat (c.toNat / 262144 % 8 + 0xf0) ::
          [c.toNat / 4096 % 64, c.toNat / 64 % 64, c.toNat % 64].map tailByte := rfl

/-- A character is read back from its bytes, whatever follows. -/
theorem decodeFront_encode (c : Char) :
    ∃ lead tail, String.utf8EncodeChar c = lead :: tail ∧
      ∀ rest, decodeFront lead (tail ++ rest) = (some c, rest) := by
  have valid := toNat_valid c
  have leadNat {n : Nat} (small : n < 256) : (UInt8.ofNat n).toNat = n :=
    UInt8.toNat_ofNat_of_lt' small
  rw [utf8EncodeChar_eq]
  by_cases one : c.toNat ≤ 0x7f
  · rw [if_pos one]
    have lead : leadByte? (UInt8.ofNat c.toNat).toNat = some (c.toNat, []) := by
      rw [leadNat (by omega), leadByte?, if_pos (by omega)]
    exact ⟨_, [].map tailByte, rfl, decodeFront_digits lead .nil rfl⟩
  rw [if_neg one]
  by_cases two : c.toNat ≤ 0x7ff
  · rw [if_pos two]
    have lead := @leadByte?_two (c.toNat / 64 % 32) (by omega) (by omega)
    rw [← leadNat (n := c.toNat / 64 % 32 + 0xc0) (by omega)] at lead
    refine ⟨_, _, rfl, decodeFront_digits lead (.cons (inRange_any ?_) .nil) ?_⟩
    · omega
    · simp only [List.foldl_cons, List.foldl_nil]
      omega
  rw [if_neg two]
  by_cases three : c.toNat ≤ 0xffff
  · rw [if_pos three]
    have lead := @leadByte?_three (c.toNat / 4096 % 16) (by omega)
    rw [← leadNat (n := c.toNat / 4096 % 16 + 0xe0) (by omega)] at lead
    refine ⟨_, _, rfl, decodeFront_digits lead (.cons ⟨?_, ?_, ?_⟩ (.cons (inRange_any ?_) .nil)) ?_⟩
    · omega
    · simp only
      split <;> omega
    · simp only
      split <;> omega
    · omega
    · simp only [List.foldl_cons, List.foldl_nil]
      omega
  · rw [if_neg three]
    have lead := @leadByte?_four (c.toNat / 262144 % 8) (by omega)
    rw [← leadNat (n := c.toNat / 262144 % 8 + 0xf0) (by omega)] at lead
    refine ⟨_, _, rfl, decodeFront_digits lead
      (.cons ⟨?_, ?_, ?_⟩ (.cons (inRange_any ?_) (.cons (inRange_any ?_) .nil))) ?_⟩
    · omega
    · simp only
      split <;> omega
    · simp only
      split <;> omega
    · omega
    · omega
    · simp only [List.foldl_cons, List.foldl_nil]
      omega

/-! ## Bytes of a text -/

theorem decodeOnto_encode (cs : List Char) (found : List (Option Char)) :
    decodeOnto found (encode cs) = found.reverse ++ cs.map some := by
  induction cs generalizing found with
  | nil =>
      rw [encode, List.flatMap_nil, decodeOnto]
      simp
  | cons c cs ih =>
      obtain ⟨lead, tail, bytes, front⟩ := decodeFront_encode c
      have text : encode (c :: cs) = lead :: (tail ++ encode cs) := by
        rw [encode, List.flatMap_cons, bytes]
        rfl
      rw [text, decodeOnto]
      simp only [front]
      rw [ih]
      simp

theorem decodeParts_encode (cs : List Char) : decodeParts (encode cs) = cs.map some := by
  rw [decodeParts, decodeOnto_encode]
  rfl

theorem decodeLossy_encode (cs : List Char) : decodeLossy (encode cs) = cs := by
  rw [decodeLossy, decodeParts_encode, List.map_map]
  exact List.map_id cs

/-! ## Line breaks -/

/-- Every carriage return with a line feed behind it becomes a line feed, together with it. -/
def joinBreaks : List Char → List Char
  | [] => []
  | '\r' :: '\n' :: cs => '\n' :: joinBreaks cs
  | c :: cs => c :: joinBreaks cs

/-- The text with a line feed for every carriage return and line feed, and for every carriage return
that is left then. -/
def lineFeeds (cs : List Char) : List Char :=
  (joinBreaks cs).map fun c => if c = '\r' then '\n' else c

/-- The text with a carriage return before every line feed. -/
def withReturns (cs : List Char) : List Char :=
  cs.flatMap fun c => if c = '\n' then ['\r', '\n'] else [c]

theorem joinBreaks_cons {c : Char} (plain : c ≠ '\r') (cs : List Char) :
    joinBreaks (c :: cs) = c :: joinBreaks cs := by
  rw [joinBreaks]
  rintro _ rfl
  exact absurd rfl plain

theorem unifyBreaksOnto_eq (found cs : List Char) :
    unifyBreaksOnto found cs = found.reverse ++ lineFeeds cs := by
  fun_induction unifyBreaksOnto found cs with
  | case1 found => simp [lineFeeds, joinBreaks]
  | case2 found cs ih =>
      rw [ih]
      simp [lineFeeds, joinBreaks]
  | case3 found cs single ih =>
      have alone : joinBreaks ('\r' :: cs) = '\r' :: joinBreaks cs := by
        rw [joinBreaks]
        exact fun rest _ => single rest
      rw [ih]
      simp [lineFeeds, alone]
  | case4 found c cs _ plain ih =>
      rw [ih]
      simp [lineFeeds, joinBreaks_cons plain, show c ≠ '\r' from plain]

theorem unifyBreaks_eq (cs : List Char) : unifyBreaks cs = lineFeeds cs := by
  rw [unifyBreaks, unifyBreaksOnto_eq]
  rfl

theorem lineFeeds_of_no_return {cs : List Char} (free : '\r' ∉ cs) : lineFeeds cs = cs := by
  induction cs with
  | nil => rfl
  | cons c cs ih =>
      rw [List.mem_cons, not_or] at free
      have plain : c ≠ '\r' := Ne.symm free.1
      have rest := ih free.2
      rw [lineFeeds] at rest
      rw [lineFeeds, joinBreaks_cons plain, List.map_cons, rest, if_neg plain]

theorem lineFeeds_withReturns {cs : List Char} (free : '\r' ∉ cs) : lineFeeds (withReturns cs) = cs := by
  induction cs with
  | nil => rfl
  | cons c cs ih =>
      rw [List.mem_cons, not_or] at free
      have plain : c ≠ '\r' := Ne.symm free.1
      have rest := ih free.2
      rw [lineFeeds, withReturns] at rest
      rw [lineFeeds, withReturns, List.flatMap_cons]
      by_cases feed : c = '\n'
      · subst feed
        simp [joinBreaks, rest]
      · rw [if_neg feed, List.singleton_append, joinBreaks_cons plain, List.map_cons, rest, if_neg plain]

end LayerLint.Text
