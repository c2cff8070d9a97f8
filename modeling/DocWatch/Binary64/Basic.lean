/-!
# Floating-point numbers by their exact values

Times, durations and many numbers of JSON are 64-bit floating point. Such a
number is held here as what it stands for, `± m · 2 ^ e`, so that everything
that is written from it, and every rounding, is whole-number arithmetic.
-/

namespace DocWatch

/-- A floating-point number. -/
inductive Binary64 where
  | nan
  | infinite (negative : Bool)
  /-- The number `m · 2 ^ e`, negated if `negative`. -/
  | finite (negative : Bool) (m : Nat) (e : Int)
  deriving DecidableEq, Repr

namespace Binary64

/-- The number of binary digits that a number keeps. -/
def precision : Nat := 53

/-- The least exponent of a number. -/
def leastExponent : Int := -1074

/-- The greatest exponent of a number. -/
def greatestExponent : Int := 971

/-- Zero. -/
def zero : Binary64 := .finite false 0 leastExponent

/-- The number that bits stand for. -/
def ofBits (bits : Nat) : Binary64 :=
  let negative := bits / Nat.pow 2 63 = 1
  let field : Nat := bits / Nat.pow 2 52 % Nat.pow 2 11
  let fraction : Nat := bits % Nat.pow 2 52
  if field = 2047 then
    if fraction = 0 then .infinite negative else .nan
  else if field = 0 then .finite negative fraction leastExponent
  else .finite negative (Nat.pow 2 52 + fraction) ((field : Int) - 1075)

/-- What a machine number stands for. -/
def ofFloat (x : Float) : Binary64 :=
  ofBits x.toBits.toNat

/-- The number with the other sign. -/
def neg : Binary64 → Binary64
  | .nan => .nan
  | .infinite negative => .infinite (!negative)
  | .finite negative m e => .finite (!negative) m e

/-- The number with a sign put before it. -/
def signed (negative : Bool) (x : Binary64) : Binary64 :=
  if negative then x.neg else x

/-- Whether a number is neither infinite nor no number at all. -/
def isFinite : Binary64 → Bool
  | .finite .. => true
  | _ => false

/-- Whether a number is above zero. -/
def isPositive : Binary64 → Bool
  | .nan => false
  | .infinite negative => !negative
  | .finite negative m _ => !negative && m ≠ 0

/-- A fraction `num / den` of whole numbers. -/
structure Ratio where
  num : Nat
  den : Nat
  deriving DecidableEq, Repr

namespace Ratio

/-- The magnitude `m · 2 ^ e` as a fraction. -/
def ofBinary (m : Nat) (e : Int) : Ratio :=
  if 0 ≤ e then ⟨m * Nat.pow 2 e.toNat, 1⟩ else ⟨m, Nat.pow 2 (-e).toNat⟩

/-- A whole number as a fraction. -/
def ofNat (n : Nat) : Ratio :=
  ⟨n, 1⟩

/-- A fraction multiplied by a whole number. -/
def scale (r : Ratio) (k : Nat) : Ratio :=
  ⟨r.num * k, r.den⟩

/-- A fraction divided by a whole number. -/
def dividedBy (r : Ratio) (k : Nat) : Ratio :=
  ⟨r.num, r.den * k⟩

/-- A fraction divided by `2 ^ e`. -/
def inUnits (r : Ratio) (e : Int) : Ratio :=
  if 0 ≤ e then r.dividedBy (Nat.pow 2 e.toNat) else r.scale (Nat.pow 2 (-e).toNat)

/-- The greatest whole number that is not above the fraction. -/
def floor (r : Ratio) : Nat :=
  r.num / r.den

/-- The least whole number that is not below the fraction. -/
def ceil (r : Ratio) : Nat :=
  (r.num + r.den - 1) / r.den

/-- What a fraction lacks to the next whole number. -/
def below (r : Ratio) : Ratio :=
  ⟨r.ceil * r.den - r.num, r.den⟩

/-- What a fraction has beyond its whole part. -/
def beyond (r : Ratio) : Ratio :=
  ⟨r.num % r.den, r.den⟩

/-- The nearest whole number; a half goes to the even neighbour. -/
def roundEven (r : Ratio) : Nat :=
  let q := r.num / r.den
  let twice := 2 * (r.num % r.den)
  if r.den < twice || (twice == r.den && q % 2 == 1) then q + 1 else q

/-- The nearest whole number; a half goes up. -/
def roundUp (r : Ratio) : Nat :=
  (2 * r.num + r.den) / (2 * r.den)

/-- Whether a fraction is at most another one. -/
def atMost (r s : Ratio) : Bool :=
  r.num * s.den ≤ s.num * r.den

end Ratio

/-- The exact magnitude of a finite number. -/
def magnitude : Binary64 → Ratio
  | .finite _ m e => .ofBinary m e
  | _ => ⟨0, 1⟩

end Binary64

end DocWatch
