/-!
# Totals

Lengths and counts are added up in several places: the bytes of a text, the terms
of a chunk, the codes of a length.
-/

namespace DocWatch

/-- The sum of counts. -/
def total (counts : List Nat) : Nat :=
  counts.foldr (· + ·) 0

theorem total_append (front back : List Nat) :
    total (front ++ back) = total front + total back := by
  induction front with
  | nil => exact (Nat.zero_add _).symm
  | cons n rest ih =>
      simp only [total, List.cons_append, List.foldr_cons] at ih ⊢
      rw [ih, Nat.add_assoc]

end DocWatch
