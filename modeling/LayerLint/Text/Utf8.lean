/-!
# UTF-8

Reading bytes as text. `decode?` accepts well-formed bytes only. `decodeLossy` replaces what is
ill-formed: each longest piece that could have begun a character becomes one replacement character.
`unifyBreaks` turns every kind of line break into one.
-/

namespace LayerLint.Text

def encode (cs : List Char) : List UInt8 :=
  cs.flatMap String.utf8EncodeChar

/-- What may follow a first byte: its own bits, and the ranges of the bytes that have to follow. -/
def leadByte? (b : Nat) : Option (Nat × List (Nat × Nat)) :=
  if b < 0x80 then some (b, [])
  else if b < 0xc2 then none
  else if b < 0xe0 then some (b - 0xc0, [(0x80, 0xbf)])
  else if b = 0xe0 then some (0, [(0xa0, 0xbf), (0x80, 0xbf)])
  else if b = 0xed then some (0xd, [(0x80, 0x9f), (0x80, 0xbf)])
  else if b < 0xf0 then some (b - 0xe0, [(0x80, 0xbf), (0x80, 0xbf)])
  else if b = 0xf0 then some (0, [(0x90, 0xbf), (0x80, 0xbf), (0x80, 0xbf)])
  else if b < 0xf4 then some (b - 0xf0, [(0x80, 0xbf), (0x80, 0xbf), (0x80, 0xbf)])
  else if b = 0xf4 then some (4, [(0x80, 0x8f), (0x80, 0xbf), (0x80, 0xbf)])
  else none

/-- Reads the bytes after a first byte; `n` holds the bits so far. Nothing if one is missing or
outside its range, which is then left unread. -/
def readTail : List (Nat × Nat) → Nat → List UInt8 → Option Nat × List UInt8
  | [], n, bs => (some n, bs)
  | _ :: _, _, [] => (none, [])
  | (low, high) :: more, n, b :: bs =>
      if low ≤ b.toNat ∧ b.toNat ≤ high then readTail more (n * 64 + (b.toNat - 0x80)) bs
      else (none, b :: bs)

/-- The character at the front, or nothing for a piece that is ill-formed, and the bytes after it.
-/
def decodeFront (b : UInt8) (bs : List UInt8) : Option Char × List UInt8 :=
  match leadByte? b.toNat with
  | none => (none, bs)
  | some (bits, ranges) =>
      let (n, rest) := readTail ranges bits bs
      (n.map Char.ofNat, rest)

theorem readTail_length (ranges : List (Nat × Nat)) (n : Nat) (bs : List UInt8) :
    (readTail ranges n bs).2.length ≤ bs.length := by
  induction ranges generalizing n bs with
  | nil => simp [readTail]
  | cons range more ih =>
      cases bs with
      | nil => simp [readTail]
      | cons b bs =>
          rw [readTail]
          split
          · have := ih (n * 64 + (b.toNat - 0x80)) bs
            simp only [List.length_cons]
            omega
          · simp

theorem decodeFront_length (b : UInt8) (bs : List UInt8) :
    (decodeFront b bs).2.length ≤ bs.length := by
  unfold decodeFront
  split
  · simp
  · exact readTail_length _ _ _

/-- Decodes bytes onto `found`, which holds the characters so far, latest first. -/
def decodeOnto (found : List (Option Char)) : List UInt8 → List (Option Char)
  | [] => found.reverse
  | b :: bs =>
      let front := decodeFront b bs
      have := decodeFront_length b bs
      decodeOnto (front.1 :: found) front.2
termination_by bs => bs.length
decreasing_by
  simp only [List.length_cons]
  omega

/-- The characters of a text, with nothing in place of each ill-formed piece. -/
def decodeParts (bs : List UInt8) : List (Option Char) :=
  decodeOnto [] bs

/-- The text that bytes hold, if they are well-formed. -/
def decode? (bs : List UInt8) : Option (List Char) :=
  let parts := decodeParts bs
  if parts.all Option.isSome then some (parts.filterMap id) else none

/-- The text that bytes hold, with U+FFFD for each ill-formed piece. -/
def decodeLossy (bs : List UInt8) : List Char :=
  (decodeParts bs).map fun part => part.getD (Char.ofNat 0xfffd)

/-- Every carriage return, with a line feed after it or without, becomes a line feed; `found` holds
the characters so far, latest first. -/
def unifyBreaksOnto (found : List Char) : List Char → List Char
  | [] => found.reverse
  | '\r' :: '\n' :: cs => unifyBreaksOnto ('\n' :: found) cs
  | '\r' :: cs => unifyBreaksOnto ('\n' :: found) cs
  | c :: cs => unifyBreaksOnto (c :: found) cs

/-- A text with every line break written as one line feed. -/
def unifyBreaks (cs : List Char) : List Char :=
  unifyBreaksOnto [] cs

end LayerLint.Text
