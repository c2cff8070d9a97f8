import DocWatch.Proofs.Index.Edit

/-!
# One edit apart is distance one

Three things may be meant by one edit: that a list is another one with an element
inserted, left out or exchanged at some place, that the Levenshtein distance of the two is
one, and that a pass over both, which puts right what it can at the first difference,
counts one edit. Only the first says where the edit is made, and where elements repeat
there are several such places; only the last can be wrong, since it never goes back.

It is right because at the first difference nothing is left to choose. Everything in front
of it is shared and can be taken off, and the lengths of the two lists say which kind of
edit is still possible. After that the pass only compares.
-/

namespace DocWatch

variable {α : Type} {a b : List α} {x y : α}

theorem not_oneEdit_self (a : List α) : ¬ OneEdit a a := by
  induction a with
  | nil => exact fun h => by simpa using h.ne_nil
  | cons x a ih => rwa [oneEdit_cons_self]

theorem oneEdit_comm : OneEdit a b ↔ OneEdit b a :=
  ⟨OneEdit.symm, OneEdit.symm⟩

theorem oneEdit_nil_iff : OneEdit [] b ↔ b.length = 1 := by
  cases b with
  | nil => simp [not_oneEdit_self]
  | cons y b => simp [oneEdit_nil_cons]

theorem OneEdit.length_le (h : OneEdit a b) : b.length ≤ a.length + 1 := by
  cases h with
  | insertion front back c => simp [Nat.add_assoc]
  | deletion front back c =>
      simp only [List.length_append, List.length_cons]
      omega
  | substitution front back h => simp

/-- At a first difference the edit is made there, and which one it is shows in the lengths. -/
theorem oneEdit_cons_of_ne (hxy : x ≠ y) : OneEdit (x :: a) (y :: b) ↔
    a = b ∨ a = y :: b ∨ x :: a = b := by
  simp [oneEdit_cons_cons, hxy]

variable [DecidableEq α]

/-! ## The distance -/

/-- The Levenshtein distance of two lists. -/
def editDistance : List α → List α → Nat
  | [], b => b.length
  | a, [] => a.length
  | x :: a, y :: b =>
      if x = y then editDistance a b
      else 1 + min (editDistance a b) (min (editDistance a (y :: b)) (editDistance (x :: a) b))
termination_by a b => a.length + b.length

theorem editDistance_eq_zero_iff : editDistance a b = 0 ↔ a = b := by
  induction a, b using editDistance.induct with
  | case1 b => simp [editDistance, eq_comm]
  | case2 a ha => simp [editDistance]
  | case3 x a b ih => simp [editDistance, ih]
  | case4 x a y b hxy => simp [editDistance, hxy]

theorem editDistance_eq_one_iff : editDistance a b = 1 ↔ OneEdit a b := by
  induction a, b using editDistance.induct with
  | case1 b => rw [editDistance, oneEdit_nil_iff]
  | case2 a ha => rw [editDistance, oneEdit_comm, oneEdit_nil_iff]; exact ha
  | case3 x a b ih => rw [editDistance, if_pos rfl, ih, oneEdit_cons_self]
  | case4 x a y b hxy =>
      -- one edit is made here, so what follows it is at distance zero
      have hmin : ∀ n m k : Nat, 1 + min n (min m k) = 1 ↔ n = 0 ∨ m = 0 ∨ k = 0 := by
        intro n m k
        omega
      rw [editDistance, if_neg hxy, hmin, editDistance_eq_zero_iff, editDistance_eq_zero_iff,
        editDistance_eq_zero_iff, oneEdit_cons_of_ne hxy]

/-! ## One pass -/

/-- The edits that one pass over two lists counts, the second of them no shorter than the
first. While the elements agree both places move on. At a difference the place in the
second list moves on, and the one in the first with it where the lists are equally long;
at another difference the pass is given up. What is left at the end of either list are
edits too. -/
def countEdits? (equal : Bool) (edits : Nat) : List α → List α → Option Nat
  | x :: short, y :: long =>
      if x = y then countEdits? equal edits short long
      else if 1 < edits + 1 then none
      else countEdits? equal (edits + 1) (if equal then short else x :: short) long
  | short, long => some (edits + (long.length + short.length))

/-- Whether one pass over two lists, the second of them no shorter than the first, counts
exactly one edit. Lists whose lengths are further apart are not gone through. -/
def passFindsOneFrom (short long : List α) : Bool :=
  if 1 < long.length - short.length then false
  else countEdits? (decide (short.length = long.length)) 0 short long = some 1

/-- Whether one pass over two lists counts exactly one edit. -/
def passFindsOne (a b : List α) : Bool :=
  if a.length ≤ b.length then passFindsOneFrom a b else passFindsOneFrom b a

/-- Behind the first difference the pass compares. -/
theorem countEdits?_one {equal : Bool} {short long : List α} :
    countEdits? equal 1 short long = some 1 ↔ short = long := by
  induction short generalizing long with
  | nil => cases long <;> simp [countEdits?]
  | cons x short ih =>
      cases long with
      | nil => simp [countEdits?]
      | cons y long =>
          rw [countEdits?, List.cons.injEq]
          split
          · rename_i hxy
            simp [ih, hxy]
          · rename_i hxy
            simp [hxy]

theorem countEdits?_zero {equal : Bool} {short long : List α}
    (hequal : equal = true ↔ short.length = long.length) (hle : short.length ≤ long.length) :
    countEdits? equal 0 short long = some 1 ↔ OneEdit short long := by
  induction short generalizing long with
  | nil => cases long <;> simp [countEdits?, oneEdit_nil_iff]
  | cons x short ih =>
      cases long with
      | nil => simp at hle
      | cons y long =>
          rw [List.length_cons, List.length_cons, Nat.add_right_cancel_iff] at hequal
          rw [List.length_cons, List.length_cons, Nat.add_le_add_iff_right] at hle
          rw [countEdits?]
          split
          · rename_i hxy
            rw [ih hequal hle, hxy, oneEdit_cons_self]
          · rename_i hxy
            have hlonger : short ≠ y :: long := by
              rintro rfl
              exact Nat.not_succ_le_self _ hle
            rw [if_neg (Nat.lt_irrefl 1), countEdits?_one, oneEdit_cons_of_ne hxy]
            cases equal with
            | true =>
                have hshorter : x :: short ≠ long := by
                  rintro rfl
                  simp at hequal
                simp [hlonger, hshorter]
            | false =>
                have hlength : short ≠ long := by
                  rintro rfl
                  simp at hequal
                simp [hlonger, hlength]

theorem passFindsOneFrom_iff (hle : a.length ≤ b.length) :
    passFindsOneFrom a b = true ↔ OneEdit a b := by
  rw [passFindsOneFrom]
  split
  · rename_i hfar
    refine iff_of_false Bool.false_ne_true fun h => ?_
    have := h.length_le
    omega
  · rw [decide_eq_true_iff, countEdits?_zero decide_eq_true_iff hle]

theorem passFindsOne_iff : passFindsOne a b = true ↔ OneEdit a b := by
  rw [passFindsOne]
  split
  · rename_i hle
    exact passFindsOneFrom_iff hle
  · rename_i hlt
    rw [passFindsOneFrom_iff (Nat.le_of_not_le hlt), oneEdit_comm]

theorem withinOneEdit_eq_passFindsOne : withinOneEdit a b = passFindsOne a b :=
  Bool.eq_iff_iff.2 (withinOneEdit_iff.trans passFindsOne_iff.symm)

/-- Two strings are found to be one edit apart just if one becomes the other by one
character inserted, left out or exchanged for a different one, which is to say that their
distance is one. A single pass finds the same, the order of the two does not matter, and
no string is one edit apart from itself. -/
theorem withinOneEdit_iff_distance (a b : String) :
    (withinOneEdit a.toList b.toList = true ↔ OneEdit a.toList b.toList) ∧
    (withinOneEdit a.toList b.toList = true ↔ editDistance a.toList b.toList = 1) ∧
    withinOneEdit a.toList b.toList = passFindsOne a.toList b.toList ∧
    withinOneEdit a.toList b.toList = withinOneEdit b.toList a.toList ∧
    withinOneEdit a.toList a.toList = false := by
  refine ⟨withinOneEdit_iff, ?_, withinOneEdit_eq_passFindsOne, ?_, ?_⟩
  · rw [withinOneEdit_iff, editDistance_eq_one_iff]
  · rw [Bool.eq_iff_iff, withinOneEdit_iff, withinOneEdit_iff, oneEdit_comm]
  · rw [Bool.eq_false_iff, ne_eq, withinOneEdit_iff]
    exact not_oneEdit_self a.toList

end DocWatch
