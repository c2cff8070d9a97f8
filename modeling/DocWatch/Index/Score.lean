/-!
# Ranking weights

How much a chunk counts for a query follows BM25: a term counts by how rare it
is, and the more often it occurs in a chunk the more, but ever less so, and
less in a long chunk. The formulas are written over any arithmetic, so that
what runs in floating point can be reasoned about in exact numbers.
-/

namespace DocWatch

/-- The arithmetic that scores are computed in. -/
class Arithmetic (R : Type) where
  ofNat : Nat → R
  add : R → R → R
  sub : R → R → R
  mul : R → R → R
  div : R → R → R
  /-- The natural logarithm. -/
  log : R → R
  less : R → R → Bool

instance : Arithmetic Float where
  ofNat := Float.ofNat
  add := Float.add
  sub := Float.sub
  mul := Float.mul
  div := Float.div
  log := Float.log
  less a b := a < b

namespace Score

variable {R : Type} [Arithmetic R]

open Arithmetic

/-- A fraction of whole numbers. -/
def ratio (num den : Nat) : R :=
  div (ofNat num) (ofNat den)

/-- How well a term of the index matches the terms of a query. -/
inductive Match where
  /-- The terms are equal. -/
  | exact
  /-- The term of the query occurs inside the term of the index. -/
  | inside
  /-- The terms are one edit apart. -/
  | near
  deriving DecidableEq, Repr

/-- The weight of a match. -/
def Match.weight : Match → R
  | .exact => ratio 1 1
  | .inside => ratio 6 10
  | .near => ratio 5 10

/-- The better of two matches. -/
def Match.best : Match → Match → Match
  | .exact, _ | _, .exact => .exact
  | .inside, _ | _, .inside => .inside
  | .near, .near => .near

/-- The rarity of a term that `df` of `n` chunks contain. -/
def rarity (n df : Nat) : R :=
  log (add (ratio 1 1)
    (div (add (sub (ofNat n) (ofNat df)) (ratio 1 2)) (add (ofNat df) (ratio 1 2))))

/-- The length of a chunk against the mean length of all chunks, which have
`total` terms together, damped by a quarter. -/
def lengthFactor (n total length : Nat) : R :=
  if total = 0 then ratio 1 1
  else
    add (sub (ratio 1 1) (ratio 75 100))
      (div (mul (ratio 75 100) (ofNat length)) (ratio total n))

/-- What `tf` occurrences of a term bring to the score of a chunk. -/
def contribution (m : Match) (n df tf total length : Nat) : R :=
  div (mul (mul m.weight (rarity n df)) (mul (ofNat tf) (add (ratio 12 10) (ratio 1 1))))
    (add (ofNat tf) (mul (ratio 12 10) (lengthFactor n total length)))

end Score

end DocWatch
