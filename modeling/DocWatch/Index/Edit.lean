/-!
# One edit apart

A query may miss a term by one character and still find it: by one character
inserted, left out or exchanged for another.
-/

namespace DocWatch

/-- The rest of two lists behind the longest front that they share. -/
def dropShared {α : Type} [DecidableEq α] : List α → List α → List α × List α
  | a :: as, b :: bs => if a = b then dropShared as bs else (a :: as, b :: bs)
  | as, bs => (as, bs)

/-- Whether two lists differ by exactly one insertion, deletion or
substitution. Behind the shared front the edit must come at once, and all that
follows it must agree. -/
def withinOneEdit {α : Type} [DecidableEq α] (a b : List α) : Bool :=
  match dropShared a b with
  | ([], []) => false
  | ([], _ :: bs) => bs = []
  | (_ :: as, []) => as = []
  | (x :: as, y :: bs) => as = bs || as = y :: bs || x :: as = bs

end DocWatch
