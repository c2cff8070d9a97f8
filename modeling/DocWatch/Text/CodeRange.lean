/-!
# Sets of code points as sorted ranges

A character property of the Unicode standard is a long list of code points
that mostly come in runs. It is kept here as a list of closed ranges in
ascending order, and membership walks the list until the first range that
starts beyond the character.
-/

namespace DocWatch.Text

/-- A set of code points: closed ranges, ascending and disjoint. -/
abbrev CodeRanges := List (Nat × Nat)

namespace CodeRanges

/-- Whether a code point lies in one of the ranges. The walk may stop at the
first range that starts beyond the code point because the ranges ascend. -/
def has : CodeRanges → Nat → Bool
  | [], _ => false
  | (lo, hi) :: rest, n => if n < lo then false else if n ≤ hi then true else has rest n

theorem exists_of_has {ranges : CodeRanges} {n : Nat} (h : ranges.has n = true) :
    ∃ range ∈ ranges, range.1 ≤ n ∧ n ≤ range.2 := by
  induction ranges with
  | nil => cases h
  | cons range rest ih =>
      rw [has] at h
      split at h
      · cases h
      · split at h
        · exact ⟨range, List.mem_cons_self, by omega, by omega⟩
        · obtain ⟨other, hmem, hin⟩ := ih h
          exact ⟨other, List.mem_cons_of_mem _ hmem, hin⟩

end CodeRanges

end DocWatch.Text
