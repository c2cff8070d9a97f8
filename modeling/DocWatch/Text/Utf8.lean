import DocWatch.Total

/-!
# UTF-8

Documents arrive as bytes and are kept as text. Well-formed bytes decode to
their text; where the bytes are ill-formed, each longest piece that could still
have started a character becomes one replacement character. Lengths that the
program bounds are lengths of the encoding.
-/

namespace DocWatch.Text

/-- The number of bytes that a text takes in UTF-8. -/
def byteLength (s : List Char) : Nat :=
  total (s.map Char.utf8Size)

theorem byteLength_cons (c : Char) (s : List Char) :
    byteLength (c :: s) = c.utf8Size + byteLength s :=
  rfl

theorem byteLength_append (front back : List Char) :
    byteLength (front ++ back) = byteLength front + byteLength back := by
  rw [byteLength, List.map_append, total_append]
  rfl

/-- The UTF-8 encoding of a text. -/
def encode (s : List Char) : List UInt8 :=
  s.flatMap String.utf8EncodeChar

/-- The character that stands for ill-formed bytes. -/
def replacement : Char := Char.ofNat 0xFFFD

/-- What the first byte of a character of several bytes says: how many bytes
follow, between which bounds the first of these lies, and the bits it brings. -/
structure Lead where
  following : Nat
  lowest : UInt8
  highest : UInt8
  bits : Nat

/-- Reads a first byte that is not ASCII. The bounds on the second byte exclude
overlong forms, surrogates and numbers beyond the last code point. -/
def Lead.of? (a : UInt8) : Option Lead :=
  if 0xC2 ≤ a && a ≤ 0xDF then some ⟨1, 0x80, 0xBF, a.toNat % 32⟩
  else if a == 0xE0 then some ⟨2, 0xA0, 0xBF, 0⟩
  else if a == 0xED then some ⟨2, 0x80, 0x9F, 13⟩
  else if 0xE1 ≤ a && a ≤ 0xEF then some ⟨2, 0x80, 0xBF, a.toNat % 16⟩
  else if a == 0xF0 then some ⟨3, 0x90, 0xBF, 0⟩
  else if a == 0xF4 then some ⟨3, 0x80, 0x8F, 4⟩
  else if 0xF1 ≤ a && a ≤ 0xF3 then some ⟨3, 0x80, 0xBF, a.toNat % 8⟩
  else none

/-- Reads the bytes that follow a first byte, of which `n` are still missing:
the character, or nothing at the first byte out of bounds, and the bytes behind
the part that was read. -/
def readFollowing (lo hi : UInt8) (bits : Nat) : Nat → List UInt8 → Option Char × List UInt8
  | 0, rest => (some (Char.ofNat bits), rest)
  | _ + 1, [] => (none, [])
  | n + 1, b :: rest =>
      if lo ≤ b && b ≤ hi then readFollowing 0x80 0xBF (bits * 64 + b.toNat % 64) n rest
      else (none, b :: rest)

/-- Reads one character, or one longest ill-formed piece, off the bytes. -/
def decodeStep (a : UInt8) (rest : List UInt8) : Option Char × List UInt8 :=
  if a < 0x80 then (some (Char.ofNat a.toNat), rest)
  else
    match Lead.of? a with
    | none => (none, rest)
    | some l => readFollowing l.lowest l.highest l.bits l.following rest

theorem readFollowing_length (lo hi : UInt8) (bits n : Nat) (bs : List UInt8) :
    (readFollowing lo hi bits n bs).2.length ≤ bs.length := by
  induction n generalizing lo hi bits bs with
  | zero => simp [readFollowing]
  | succ n ih =>
      cases bs with
      | nil => simp [readFollowing]
      | cons b rest =>
          simp only [readFollowing]
          split
          · exact Nat.le_succ_of_le (ih ..)
          · simp

theorem decodeStep_length (a : UInt8) (rest : List UInt8) :
    (decodeStep a rest).2.length ≤ rest.length := by
  unfold decodeStep
  split
  · simp
  · split
    · simp
    · exact readFollowing_length ..

/-- The bytes as a sequence of characters and of gaps, one gap for each longest
ill-formed piece. -/
def scan : List UInt8 → List (Option Char)
  | [] => []
  | a :: rest => (decodeStep a rest).1 :: scan (decodeStep a rest).2
termination_by bs => bs.length
decreasing_by
  have := decodeStep_length a rest
  simp only [List.length_cons]
  omega

/-- The text of well-formed bytes. -/
def decode? (bs : List UInt8) : Option (List Char) :=
  (scan bs).mapM id

/-- The text of any bytes, with a replacement character for each gap. -/
def decodeLossy (bs : List UInt8) : List Char :=
  (scan bs).map (·.getD replacement)

end DocWatch.Text
