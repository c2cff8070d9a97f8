import DocWatch.Binary64.Basic

/-!
# Floating-point numbers as decimal text

Three ways of writing a number: with a fixed count of decimals, rounded from
the exact value; with the fewest digits that read back as the same number, all
of them positional; and with the same digits but an exponent for numbers far
from one.
-/

namespace DocWatch.Binary64

/-- The decimal digits of a whole number. -/
def decimal (n : Nat) : List Char :=
  Nat.toDigits 10 n

/-- Digits filled up with zeros at the front to a width. -/
def padFront (width : Nat) (digits : List Char) : List Char :=
  List.replicate (width - digits.length) '0' ++ digits

/-- Digits with a point before the last `places` of them, at least one digit
before the point, and no point where no digit would follow it. -/
def withPoint (places : Nat) (digits : List Char) : List Char :=
  let all := padFront (places + 1) digits
  let whole := all.take (all.length - places)
  if places = 0 then whole else whole ++ '.' :: all.drop (all.length - places)

/-- The sign of a number, written only if it is negative. -/
def signText (negative : Bool) : List Char :=
  if negative then ['-'] else []

/-- A number with a fixed count of decimals, rounded from its exact value. -/
def fixed (places : Nat) (x : Binary64) : String :=
  match x with
  | .nan => "NaN"
  | .infinite negative => String.ofList (signText negative ++ ['i', 'n', 'f'])
  | .finite negative m e =>
      let units := ((Ratio.ofBinary m e).scale (Nat.pow 10 places)).roundEven
      String.ofList (signText negative ++ withPoint places (decimal units))

/-- The decimal number `digits · 10 ^ exponent`. -/
structure Digits where
  digits : Nat
  exponent : Int
  deriving DecidableEq, Repr

/-- The interval of reals that round to `m · 2 ^ e`, in quarters of the unit:
the points `low`, `value` and `high` times `2 ^ (e - 2)`. Below a power of two
the neighbour is only half as far away. -/
def neighbourhood (m : Nat) (e : Int) : Nat × Nat × Nat :=
  (if m = Nat.pow 2 52 ∧ -1074 < e then 4 * m - 1 else 4 * m - 2, 4 * m, 4 * m + 2)

/-- The exponent of ten of the leading digit of a positive fraction, found by
counting up or down from one; `fuel` bounds the count for small fractions. -/
def leadingExponent (r : Ratio) (fuel : Nat) : Int :=
  if r.den ≤ r.num then ((decimal (r.num / r.den)).length : Int) - 1
  else
    let rec down : Nat → Nat → Int → Int
      | 0, _, k => k
      | n + 1, num, k => if r.den ≤ num then k else down n (num * 10) (k - 1)
    down fuel (r.num * 10) (-1)

/-- A point `d · 10 ^ q` compared with `p / den`, both sides made whole. -/
def gridBelow (d : Nat) (q : Int) (p den : Nat) : Bool × Bool :=
  let left := if 0 ≤ q then d * Nat.pow 10 q.toNat * den else d * den
  let right := if 0 ≤ q then p else p * Nat.pow 10 (-q).toNat
  (decide (left < right), decide (left = right))

/-- Looks for a decimal of the grid `10 ^ q` that reads back as the number: one
of the two neighbours of the value on that grid. -/
def onGrid (low value high den : Nat) (closed : Bool) (q : Int) : Option Nat :=
  let scaled : Ratio :=
    if 0 ≤ q then ⟨value, den * Nat.pow 10 q.toNat⟩ else ⟨value * Nat.pow 10 (-q).toNat, den⟩
  let d := scaled.num / scaled.den
  let twice := 2 * (scaled.num % scaled.den)
  let fits (c : Nat) : Bool :=
    let atLow := gridBelow c q low den
    let atHigh := gridBelow c q high den
    (!atLow.1 && (closed || !atLow.2)) && (atHigh.1 || (closed && atHigh.2))
  let upper := scaled.den < twice || (twice == scaled.den && d % 2 == 1)
  let near := if upper then d + 1 else d
  let far := if upper then d else d + 1
  if fits near then some near else if fits far then some far else none

/-- The coarsest grid with a decimal that reads back, trying `n` grids. -/
def shortestFrom (low value high den : Nat) (closed : Bool) : Nat → Int → Digits
  | 0, q => ⟨value / den, q⟩
  | n + 1, q =>
      match onGrid low value high den closed q with
      | some d => ⟨d, q⟩
      | none => shortestFrom low value high den closed n (q - 1)

/-- Zeros at the end of the digits moved into the exponent. -/
def Digits.strip : Nat → Digits → Digits
  | 0, d => d
  | n + 1, d =>
      if d.digits ≠ 0 ∧ d.digits % 10 = 0 then Digits.strip n ⟨d.digits / 10, d.exponent + 1⟩ else d

/-- The decimal of fewest digits that reads back as `m · 2 ^ e`, the nearest of
these to the exact value. -/
def shortest (m : Nat) (e : Int) : Digits :=
  if m = 0 then ⟨0, 0⟩
  else
    let (low, value, high) := neighbourhood m e
    let unit := Ratio.ofBinary 1 (e - 2)
    let k := leadingExponent ⟨value * unit.num, unit.den⟩ 400
    (shortestFrom (low * unit.num) (value * unit.num) (high * unit.num) unit.den
      (m % 2 == 0) 18 k).strip 400

/-- Digits written positionally, without a point where no digit follows it. -/
def Digits.positional (d : Digits) : List Char :=
  if 0 ≤ d.exponent then decimal (d.digits * Nat.pow 10 d.exponent.toNat)
  else withPoint (-d.exponent).toNat (decimal d.digits)

/-- A number with the fewest digits that read back, always positional. -/
def plain (x : Binary64) : String :=
  match x with
  | .nan => "NaN"
  | .infinite negative => String.ofList (signText negative ++ ['i', 'n', 'f'])
  | .finite negative m e => String.ofList (signText negative ++ (shortest m e).positional)

/-- A number with the fewest digits that read back and a point or an exponent
in it: positional for exponents of ten from -5 to 15. -/
def marked (x : Binary64) : String :=
  match x with
  | .nan | .infinite _ => "null"
  | .finite negative m e =>
      let d := shortest m e
      let text := decimal d.digits
      let point : Int := text.length + d.exponent
      let body :=
        if d.digits = 0 then ['0', '.', '0']
        else if 0 ≤ d.exponent ∧ point ≤ 16 then d.positional ++ ['.', '0']
        else if -5 < point ∧ point ≤ 16 then d.positional
        else
          let mantissa := match text with
            | [] => []
            | [c] => [c]
            | c :: more => c :: '.' :: more
          mantissa ++ 'e' :: (toString (point - 1)).toList
      String.ofList (signText negative ++ body)

end DocWatch.Binary64
