import DocWatch.Binary64.Basic

/-!
# Rounding to floating point

Every operation on floating-point numbers gives the number nearest to the exact
result; of two that are equally near, the one whose last binary digit is zero.
Results too large for any number become infinite.
-/

namespace DocWatch.Binary64

/-- The exponent that the nearest number to a positive fraction has, unless the
rounding carries over. -/
def exponentFor (r : Ratio) : Int :=
  let guess : Int := (r.num.log2 : Int) - r.den.log2 - precision
  let units := r.inUnits guess
  max leastExponent (if units.den * Nat.pow 2 precision ≤ units.num then guess + 1 else guess)

/-- The nearest number to a fraction, with a sign. -/
def nearest (negative : Bool) (r : Ratio) : Binary64 :=
  if r.num = 0 then .finite negative 0 leastExponent
  else
    let e := exponentFor r
    let m := (r.inUnits e).roundEven
    let (m, e) := if m = Nat.pow 2 precision then (Nat.pow 2 (precision - 1), e + 1) else (m, e)
    if greatestExponent < e then .infinite negative else .finite negative m e

/-- The exact magnitude of the nearest number to a fraction within range. -/
def rounded (r : Ratio) : Ratio :=
  (nearest false r).magnitude

/-- The nearest number to a whole number. -/
def ofNat (n : Nat) : Binary64 :=
  nearest false (.ofNat n)

/-- The nearest number to a whole number with a sign. -/
def ofInt (n : Int) : Binary64 :=
  nearest (n < 0) (.ofNat n.natAbs)

/-- A significand with its sign. -/
def signedNat (negative : Bool) (m : Nat) : Int :=
  if negative then -(m : Int) else m

/-- A sum. -/
def add : Binary64 → Binary64 → Binary64
  | .nan, _ | _, .nan => .nan
  | .infinite s, .infinite t => if s = t then .infinite s else .nan
  | .infinite s, .finite .. | .finite .., .infinite s => .infinite s
  | .finite s m e, .finite t n f =>
      let unit := min e f
      let total := signedNat s (m * Nat.pow 2 (e - unit).toNat) +
        signedNat t (n * Nat.pow 2 (f - unit).toNat)
      nearest (total < 0 || (total = 0 && s && t)) (.ofBinary total.natAbs unit)

/-- A product. -/
def mul : Binary64 → Binary64 → Binary64
  | .nan, _ | _, .nan => .nan
  | .infinite s, .infinite t => .infinite (s ^^ t)
  | .infinite s, .finite t m _ | .finite t m _, .infinite s =>
      if m = 0 then .nan else .infinite (s ^^ t)
  | .finite s m e, .finite t n f => nearest (s ^^ t) (.ofBinary (m * n) (e + f))

/-- A quotient. -/
def div : Binary64 → Binary64 → Binary64
  | .nan, _ | _, .nan => .nan
  | .infinite _, .infinite _ => .nan
  | .infinite s, .finite t .. => .infinite (s ^^ t)
  | .finite s .., .infinite t => .finite (s ^^ t) 0 leastExponent
  | .finite s m e, .finite t n f =>
      if n = 0 then if m = 0 then .nan else .infinite (s ^^ t)
      else
        let r := Ratio.ofBinary m (e - f)
        nearest (s ^^ t) (r.dividedBy n)

/-- Whether a number is at most another one. -/
def atMost : Binary64 → Binary64 → Bool
  | .nan, _ | _, .nan => false
  | .infinite s, y => s || y = .infinite false
  | .finite .., .infinite t => !t
  | .finite s m e, .finite t n f =>
      let unit := min e f
      signedNat s (m * Nat.pow 2 (e - unit).toNat) ≤ signedNat t (n * Nat.pow 2 (f - unit).toNat)

end DocWatch.Binary64
