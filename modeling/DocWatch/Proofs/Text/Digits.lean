import DocWatch.Proofs.Text.Quoted
import DocWatch.Proofs.Text.Run
import DocWatch.Text.Digits

/-!
# Digits and what they stand for

A reader of numbers takes the digits at the front of a text, as many as there are. So a
number that is written where no digit follows is read as it was written, and digits that
were made from a whole number stand for it.
-/

namespace DocWatch.Text

theorem toNat_of_isDigit {c : Char} (h : c.isDigit = true) : 48 ≤ c.toNat ∧ c.toNat ≤ 57 := by
  change (decide ('0' ≤ c) && decide (c ≤ '9')) = true at h
  simp only [Bool.and_eq_true, decide_eq_true_eq, Char.le_def, UInt32.le_iff_toNat_le] at h
  exact h

theorem isAlpha_eq_false_of_isDigit {c : Char} (h : c.isDigit = true) : c.isAlpha = false := by
  have hdigit := toNat_of_isDigit h
  refine Bool.eq_false_iff.2 fun halpha => ?_
  have := toNat_of_isAlpha halpha
  omega

theorem digitsValue_eq (digits : List Char) :
    digitsValue digits = Nat.ofDigitChars 10 digits 0 := by
  rw [digitsValue, Nat.ofDigitChars_eq_foldl]
  congr 1
  funext n c
  rw [Nat.mul_comm]
  rfl

namespace MaximalRun

variable {p : Char → Bool} {run after : List Char}

theorem takeWhile_eq (h : MaximalRun p [] run after) : (run ++ after).takeWhile p = run := by
  rw [List.takeWhile_append_of_pos h.within]
  cases after with
  | nil => exact List.append_nil run
  | cons c after =>
      have hc : ¬ p c = true := Bool.eq_false_iff.1 (h.back c rfl)
      rw [List.takeWhile_cons_of_neg hc, List.append_nil]

theorem dropWhile_eq (h : MaximalRun p [] run after) : (run ++ after).dropWhile p = after := by
  rw [List.dropWhile_append_of_pos h.within]
  cases after with
  | nil => rfl
  | cons c after =>
      have hc : ¬ p c = true := Bool.eq_false_iff.1 (h.back c rfl)
      rw [List.dropWhile_cons_of_neg hc]

end MaximalRun

end DocWatch.Text
