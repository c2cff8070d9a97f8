import DocWatch.Text.Digits
import DocWatch.Text.Utf8

/-!
# Percent-encoding

In an address a byte may be written as a percent sign and two digits of base
sixteen. A percent sign that no such digits follow stands for itself.
-/

namespace DocWatch.Net

/-- The byte that two characters behind a percent sign stand for. -/
def escapedByte? (high low : UInt8) : Option UInt8 := do
  let h ← Text.hexDigit? (Char.ofNat high.toNat)
  let l ← Text.hexDigit? (Char.ofNat low.toNat)
  some (UInt8.ofNat (h * 16 + l))

/-- The percent sign. -/
def percentSign : UInt8 := 0x25

/-- The bytes that an address stands for. -/
def percentDecode : List UInt8 → List UInt8
  | [] => []
  | [a] => [a]
  | [a, b] => [a, b]
  | a :: b :: c :: rest =>
      if a = percentSign then
        match escapedByte? b c with
        | some byte => byte :: percentDecode rest
        | none => a :: percentDecode (b :: c :: rest)
      else a :: percentDecode (b :: c :: rest)

/-- The text that an address stands for, if its bytes are one. -/
def percentDecoded? (s : List Char) : Option (List Char) :=
  Text.decode? (percentDecode (Text.encode s))

/-- A digit of base sixteen, in capital letters. -/
def upperHexDigit (n : Nat) : Char :=
  if n < 10 then Char.ofNat (48 + n) else Char.ofNat (55 + n)

/-- A byte as a percent sign and two digits. -/
def escapedBytes (b : UInt8) : List Char :=
  ['%', upperHexDigit (b.toNat / 16), upperHexDigit (b.toNat % 16)]

/-- A text in which the bytes of some characters are escaped. -/
def percentEncode (escaped : Char → Bool) (s : List Char) : List Char :=
  s.flatMap fun c => if escaped c then (Text.encode [c]).flatMap escapedBytes else [c]

end DocWatch.Net
