import DocWatch.Binary64.Rounding
import DocWatch.Text.Digits

/-!
# Reading decimal text as a floating-point number

A decimal literal is an optional sign and either one of the words for infinity
and for no number, or digits with an optional point and exponent. It stands for
the nearest floating-point number.
-/

namespace DocWatch.Binary64

/-- The nearest number to `digits · 10 ^ exponent`. Exponents that no digits
bring back into range are settled first, so that no huge power is computed. -/
def ofDecimal (negative : Bool) (digits : Nat) (exponent : Int) : Binary64 :=
  let size : Int := (Nat.toDigits 10 digits).length
  if digits = 0 ∨ size + exponent < -330 then .finite negative 0 leastExponent
  else if 310 < size + exponent then .infinite negative
  else if 0 ≤ exponent then nearest negative (.ofNat (digits * Nat.pow 10 exponent.toNat))
  else nearest negative ⟨digits, Nat.pow 10 (-exponent).toNat⟩

/-- A sign at the front of a text, and the text behind it. -/
def takeSign : List Char → Bool × List Char
  | '-' :: rest => (true, rest)
  | '+' :: rest => (false, rest)
  | s => (false, s)

/-- An exponent part that fills the whole text: a mark, a sign and digits. -/
def exponentPart? : List Char → Option Int
  | [] => some 0
  | c :: rest =>
      if c = 'e' ∨ c = 'E' then
        let (negative, digits) := takeSign rest
        if digits ≠ [] ∧ digits.all Char.isDigit then
          some (if negative then -(Text.digitsValue digits : Int) else Text.digitsValue digits)
        else none
      else none

/-- A decimal literal without sign: digits, point, digits, exponent, with at
least one digit before the exponent. -/
def unsigned? (negative : Bool) (s : List Char) : Option Binary64 :=
  let whole := s.takeWhile Char.isDigit
  let afterWhole := s.dropWhile Char.isDigit
  let (fraction, rest) := match afterWhole with
    | '.' :: more => (more.takeWhile Char.isDigit, more.dropWhile Char.isDigit)
    | more => ([], more)
  if whole = [] ∧ fraction = [] then none
  else
    (exponentPart? rest).map fun e =>
      ofDecimal negative (Text.digitsValue (whole ++ fraction)) (e - fraction.length)

/-- Reads a whole text as a number. -/
def read? (s : List Char) : Option Binary64 :=
  let (negative, body) := takeSign s
  let word := body.map Char.toLower
  if word = ['i', 'n', 'f'] ∨ word = ['i', 'n', 'f', 'i', 'n', 'i', 't', 'y'] then
    some (.infinite negative)
  else if word = ['n', 'a', 'n'] then some .nan
  else unsigned? negative body

end DocWatch.Binary64
