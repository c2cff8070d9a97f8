import DocWatch.Binary64.Rounding
import Mathlib.Algebra.Order.Archimedean.Basic
import Mathlib.Algebra.Order.Round
import Mathlib.Data.Rat.Floor
import Mathlib.Tactic.FieldSimp
import Mathlib.Tactic.Linarith
import Mathlib.Tactic.Ring

/-!
# How far rounding leads away

A floating-point number stands for a rational number, and a fraction is rounded to one by taking
it in units of the last digit. So the distance is half a unit at most, and the unit follows from a
bound on the fraction: what is below `2 ^ k` has units of `2 ^ (k - 53)` or smaller ones. Whole
numbers below `2 ^ 53` are multiples of their unit and are not changed.
-/

namespace DocWatch.Binary64

variable {negative : Bool} {r : Ratio} {e k : Int}

/-! ## Fractions -/

namespace Ratio

/-- What a fraction stands for. -/
def value (r : Ratio) : ℚ :=
  r.num / r.den

theorem value_ofNat (n : Nat) : (ofNat n).value = n := by
  rw [value, ofNat, Nat.cast_one, div_one]

theorem value_of_num (h : r.num = 0) : r.value = 0 := by
  rw [value, h, Nat.cast_zero, zero_div]

theorem num_ne_zero (h : 0 < r.value) : r.num ≠ 0 :=
  fun hzero => h.ne' (value_of_num hzero)

theorem value_scale (r : Ratio) (n : Nat) : (r.scale n).value = r.value * n := by
  simp only [value, scale, Nat.cast_mul]
  ring

theorem value_dividedBy (r : Ratio) (n : Nat) : (r.dividedBy n).value = r.value / n := by
  simp only [value, dividedBy, Nat.cast_mul, div_div]

theorem cast_pow_toNat (h : 0 ≤ e) : ((Nat.pow 2 e.toNat : Nat) : ℚ) = 2 ^ e := by
  rw [Nat.pow_eq, Nat.cast_pow, Nat.cast_ofNat, ← zpow_natCast, Int.toNat_of_nonneg h]

theorem value_inUnits (r : Ratio) (e : Int) : (r.inUnits e).value = r.value / 2 ^ e := by
  rw [inUnits]
  split
  · rename_i h
    rw [value_dividedBy, cast_pow_toNat h]
  · rename_i h
    rw [value_scale, cast_pow_toNat (by omega), zpow_neg, div_eq_mul_inv]

theorem value_ofBinary (m : Nat) (e : Int) : (ofBinary m e).value = m * 2 ^ e := by
  rw [ofBinary]
  split
  · rename_i h
    rw [value, Nat.cast_mul, cast_pow_toNat h, Nat.cast_one, div_one]
  · rename_i h
    rw [value, cast_pow_toNat (by omega), zpow_neg, div_inv_eq_mul]

theorem den_inUnits_pos (h : 0 < r.den) : 0 < (r.inUnits e).den := by
  rw [inUnits]
  split
  · exact Nat.mul_pos h (Nat.pow_pos (by decide))
  · exact h

theorem den_ofBinary_pos (m : Nat) (e : Int) : 0 < (ofBinary m e).den := by
  rw [ofBinary]
  split
  · exact Nat.one_pos
  · exact Nat.pow_pos (by decide)

theorem roundEven_error (h : 0 < r.den) : |(r.roundEven : ℚ) - r.value| ≤ 1 / 2 := by
  have hden : (0 : ℚ) < r.den := Nat.cast_pos.2 h
  have hsplit : (r.num : ℚ) = r.den * (r.num / r.den : Nat) + (r.num % r.den : Nat) := by
    exact_mod_cast (Nat.div_add_mod r.num r.den).symm
  have hvalue : r.value = (r.num / r.den : Nat) + (r.num % r.den : Nat) / r.den := by
    rw [value, div_eq_iff hden.ne', add_mul, div_mul_cancel₀ _ hden.ne', mul_comm, ← hsplit]
  have hlt : ((r.num % r.den : Nat) : ℚ) < r.den := Nat.cast_lt.2 (Nat.mod_lt _ h)
  have hpos : (0 : ℚ) ≤ (r.num % r.den : Nat) := Nat.cast_nonneg _
  rw [hvalue, roundEven]
  split
  · rename_i hup
    have hhalf : (r.den : ℚ) ≤ 2 * (r.num % r.den : Nat) := by
      simp only [Bool.or_eq_true, decide_eq_true_eq, Bool.and_eq_true, beq_iff_eq] at hup
      exact_mod_cast (by omega : r.den ≤ 2 * (r.num % r.den))
    rw [Nat.cast_add, Nat.cast_one, add_sub_add_left_eq_sub, abs_le]
    constructor
    · rw [neg_le_sub_iff_le_add, div_le_iff₀ hden]
      linarith
    · rw [sub_le_comm, le_div_iff₀ hden]
      linarith
  · rename_i hdown
    have hhalf : 2 * ((r.num % r.den : Nat) : ℚ) ≤ r.den := by
      simp only [Bool.or_eq_true, decide_eq_true_eq, Bool.and_eq_true, beq_iff_eq, not_or] at hdown
      exact_mod_cast (by omega : 2 * (r.num % r.den) ≤ r.den)
    rw [sub_add_cancel_left, abs_neg, abs_of_nonneg (div_nonneg hpos hden.le),
      div_le_iff₀ hden]
    linarith

theorem roundEven_eq_of_value {n : Nat} (h : 0 < r.den) (hvalue : r.value = n) :
    r.roundEven = n := by
  have herror := roundEven_error h
  rw [hvalue] at herror
  have hlt : |((r.roundEven : Int) - n : ℚ)| < 1 := lt_of_le_of_lt herror (by norm_num)
  have hsame : (r.roundEven : Int) - n = 0 := Int.abs_lt_one_iff.1 (by exact_mod_cast hlt)
  omega

theorem roundEven_eq_zero_iff (h : 0 < r.den) : r.roundEven = 0 ↔ r.value ≤ 1 / 2 := by
  have hhalf : r.value ≤ 1 / 2 ↔ 2 * r.num ≤ r.den := by
    rw [value, div_le_div_iff₀ (Nat.cast_pos.2 h) two_pos, one_mul, mul_comm]
    norm_cast
  rw [hhalf, roundEven]
  constructor
  · intro hzero
    split at hzero
    · exact absurd hzero (Nat.succ_ne_zero _)
    · rename_i hdown
      have hmod : r.num % r.den = r.num :=
        Nat.mod_eq_of_lt ((Nat.div_eq_zero_iff_lt h).1 hzero)
      simp only [hmod, Bool.or_eq_true, decide_eq_true_eq, not_or, not_lt] at hdown
      exact hdown.1
  · intro hle
    have hlt : r.num < r.den := by omega
    rw [Nat.div_eq_of_lt hlt, Nat.mod_eq_of_lt hlt, if_neg]
    simp only [Nat.zero_mod, Bool.or_eq_true, decide_eq_true_eq, Bool.and_eq_true, beq_iff_eq]
    omega

theorem floor_eq (r : Ratio) : (r.floor : Int) = ⌊r.value⌋ := by
  rw [floor, value, Rat.floor_natCast_div_natCast]
  rfl

theorem num_le_ceil_mul (h : 0 < r.den) : r.num ≤ r.ceil * r.den := by
  have := Nat.lt_mul_div_succ (r.num + r.den - 1) h
  rw [Nat.mul_succ, Nat.mul_comm] at this
  rw [ceil]
  omega

theorem ceil_eq (h : 0 < r.den) : (r.ceil : Int) = ⌈r.value⌉ := by
  have hden : (0 : ℚ) < r.den := Nat.cast_pos.2 h
  have hhigh : (r.num : ℚ) ≤ r.ceil * r.den := by exact_mod_cast num_le_ceil_mul h
  have hlow : (r.ceil : ℚ) * r.den < r.num + r.den := by
    have := Nat.div_mul_le_self (r.num + r.den - 1) r.den
    have hnat : r.ceil * r.den < r.num + r.den := by
      rw [ceil]
      omega
    exact_mod_cast hnat
  rw [eq_comm, Int.ceil_eq_iff, value, lt_div_iff₀ hden, div_le_iff₀ hden, Int.cast_natCast]
  exact ⟨by linarith, hhigh⟩

theorem value_beyond (h : 0 < r.den) : r.beyond.value = Int.fract r.value := by
  have hden : (r.den : ℚ) ≠ 0 := (Nat.cast_pos.2 h).ne'
  have hsplit : (r.num : ℚ) = r.den * r.floor + (r.num % r.den : Nat) := by
    exact_mod_cast (Nat.div_add_mod r.num r.den).symm
  rw [Int.fract, ← floor_eq, beyond, value, value, Int.cast_natCast, eq_sub_iff_add_eq,
    ← mul_right_inj' hden, mul_add, mul_div_cancel₀ _ hden, mul_div_cancel₀ _ hden, add_comm]
  exact hsplit.symm

theorem value_below (h : 0 < r.den) : r.below.value = Int.fract (-r.value) := by
  have hden : (r.den : ℚ) ≠ 0 := (Nat.cast_pos.2 h).ne'
  rw [Int.fract, Int.floor_neg, ← ceil_eq h, below, value, value,
    Nat.cast_sub (num_le_ceil_mul h), sub_div, Nat.cast_mul, mul_div_cancel_right₀ _ hden]
  push_cast
  ring

theorem roundUp_eq (h : 0 < r.den) : (r.roundUp : Int) = ⌊r.value + 1 / 2⌋ := by
  have hden : (r.den : ℚ) ≠ 0 := (Nat.cast_pos.2 h).ne'
  have hsum : r.value + 1 / 2 = ((2 * r.num + r.den : Nat) : ℚ) / (2 * r.den : Nat) := by
    rw [value]
    push_cast
    field_simp
  rw [hsum, Rat.floor_natCast_div_natCast, roundUp]
  rfl

end Ratio

/-! ## The nearest number -/

/-- What a number stands for, if it is finite. -/
def value? : Binary64 → Option ℚ
  | .finite negative m e => some (signedNat negative m * 2 ^ e)
  | _ => none

theorem two_zpow_pos (e : Int) : (0 : ℚ) < 2 ^ e :=
  zpow_pos (by norm_num) e

theorem two_zpow_lt_iff {j k : Int} : (2 : ℚ) ^ j < 2 ^ k ↔ j < k :=
  zpow_lt_zpow_iff_right₀ (by norm_num)

/-- The sizes of the numerator and the denominator give a fraction up to a factor of four. -/
theorem Ratio.value_lt_log2 (hden : 0 < r.den) :
    r.value < 2 ^ (r.num.log2 + 1 - r.den.log2 : Int) := by
  have hlow : ((2 ^ r.den.log2 : Nat) : ℚ) ≤ r.den := Nat.cast_le.2 (Nat.log2_self_le hden.ne')
  have hhigh : (r.num : ℚ) < ((2 ^ (r.num.log2 + 1) : Nat) : ℚ) := Nat.cast_lt.2 Nat.lt_log2_self
  push_cast at hlow hhigh
  rw [value, zpow_sub₀ (by norm_num), zpow_natCast, ← Nat.cast_succ, zpow_natCast,
    div_lt_div_iff₀ (Nat.cast_pos.2 hden) (by positivity)]
  calc (r.num : ℚ) * 2 ^ r.den.log2 < 2 ^ (r.num.log2 + 1) * 2 ^ r.den.log2 := by gcongr
    _ ≤ 2 ^ (r.num.log2 + 1) * r.den := by gcongr

theorem Ratio.log2_lt_value (hden : 0 < r.den) (hnum : r.num ≠ 0) :
    (2 : ℚ) ^ (r.num.log2 - (r.den.log2 + 1) : Int) < r.value := by
  have hlow : ((2 ^ r.num.log2 : Nat) : ℚ) ≤ r.num := Nat.cast_le.2 (Nat.log2_self_le hnum)
  have hhigh : (r.den : ℚ) < ((2 ^ (r.den.log2 + 1) : Nat) : ℚ) := Nat.cast_lt.2 Nat.lt_log2_self
  push_cast at hlow hhigh
  rw [value, zpow_sub₀ (by norm_num), zpow_natCast, ← Nat.cast_succ, zpow_natCast,
    div_lt_div_iff₀ (by positivity) (Nat.cast_pos.2 hden)]
  calc (2 : ℚ) ^ r.num.log2 * r.den < 2 ^ r.num.log2 * 2 ^ (r.den.log2 + 1) := by gcongr
    _ ≤ r.num * 2 ^ (r.den.log2 + 1) := by gcongr

/-- The first guess at an exponent is one too low just if that leaves too many digits. -/
theorem carry_iff {guess : Int} (hden : 0 < r.den) :
    (r.inUnits guess).den * Nat.pow 2 precision ≤ (r.inUnits guess).num ↔
      (2 : ℚ) ^ (precision + guess : Int) ≤ r.value := by
  have hpos : (0 : ℚ) < (r.inUnits guess).den := Nat.cast_pos.2 (Ratio.den_inUnits_pos hden)
  rw [zpow_add₀ (by norm_num), ← le_div_iff₀ (two_zpow_pos guess), ← Ratio.value_inUnits,
    Ratio.value, le_div_iff₀ hpos, mul_comm, zpow_natCast, Nat.pow_eq]
  norm_cast

theorem exponentFor_le (hden : 0 < r.den) (hnum : r.num ≠ 0) (hk : leastExponent ≤ k - precision)
    (h : r.value < 2 ^ k) : exponentFor r ≤ k - precision := by
  rw [exponentFor]
  refine max_le hk ?_
  split
  · rename_i hcarry
    have := two_zpow_lt_iff.1 (((carry_iff hden).1 hcarry).trans_lt h)
    omega
  · have := two_zpow_lt_iff.1 ((Ratio.log2_lt_value hden hnum).trans h)
    omega

theorem le_exponentFor (hden : 0 < r.den) (h : 2 ^ k ≤ r.value) :
    k - precision ≤ exponentFor r := by
  have := two_zpow_lt_iff.1 (h.trans_lt (Ratio.value_lt_log2 hden))
  rw [exponentFor]
  refine le_trans ?_ (le_max_right _ _)
  split <;> omega

/-- The nearest number is the fraction in units, rounded to a whole number of them, unless it is
beyond all numbers. -/
theorem nearest_eq (hnum : r.num ≠ 0) :
    ∃ m e, nearest negative r =
        (if greatestExponent < e then .infinite negative else .finite negative m e) ∧
      e ≤ exponentFor r + 1 ∧
      (m : ℚ) * 2 ^ e = (r.inUnits (exponentFor r)).roundEven * 2 ^ exponentFor r := by
  rw [nearest, if_neg hnum]
  extract_lets e m
  by_cases hcarry : m = Nat.pow 2 precision
  · have hdouble : Nat.pow 2 precision = Nat.pow 2 (precision - 1) * 2 := by decide
    have hround : (r.inUnits (exponentFor r)).roundEven = Nat.pow 2 precision := hcarry
    rw [if_pos hcarry]
    refine ⟨Nat.pow 2 (precision - 1), e + 1, rfl, le_refl _, ?_⟩
    rw [hround, hdouble, zpow_add_one₀ (by norm_num), Nat.cast_mul, Nat.cast_ofNat]
    ring
  · rw [if_neg hcarry]
    exact ⟨m, e, rfl, (Int.lt_succ _).le, rfl⟩

theorem nearest_finite (hnum : r.num ≠ 0) (h : exponentFor r < greatestExponent) :
    ∃ m e, nearest negative r = .finite negative m e ∧
      (m : ℚ) * 2 ^ e = (r.inUnits (exponentFor r)).roundEven * 2 ^ exponentFor r := by
  obtain ⟨m, e, hm, he, hvalue⟩ := @nearest_eq negative r hnum
  exact ⟨m, e, by rw [hm, if_neg (by omega)], hvalue⟩

theorem nearest_of_zero (hnum : r.num = 0) :
    nearest negative r = .finite negative 0 leastExponent := by
  rw [nearest, if_pos hnum]

/-- The units of a fraction below `2 ^ k`, rounded to a whole number of them, are less than its
53rd binary digit away. -/
theorem units_error (hden : 0 < r.den) (hnum : r.num ≠ 0) (hk : leastExponent ≤ k - precision)
    (h : r.value < 2 ^ k) :
    |((r.inUnits (exponentFor r)).roundEven : ℚ) * 2 ^ exponentFor r - r.value| ≤
      2 ^ (k - precision - 1) := by
  have hexp := exponentFor_le hden hnum hk h
  have hunit := two_zpow_pos (exponentFor r)
  have herror : |((r.inUnits (exponentFor r)).roundEven : ℚ) - r.value / 2 ^ exponentFor r| ≤
      1 / 2 := by
    rw [← Ratio.value_inUnits]
    exact Ratio.roundEven_error (Ratio.den_inUnits_pos hden)
  calc |((r.inUnits (exponentFor r)).roundEven : ℚ) * 2 ^ exponentFor r - r.value|
      = |((r.inUnits (exponentFor r)).roundEven - r.value / 2 ^ exponentFor r) *
          2 ^ exponentFor r| := by
        rw [sub_mul, div_mul_cancel₀ _ hunit.ne']
    _ ≤ 1 / 2 * 2 ^ exponentFor r := by
        rw [abs_mul, abs_of_pos hunit]
        exact mul_le_mul_of_nonneg_right herror hunit.le
    _ = 2 ^ (exponentFor r - 1) := by
        rw [zpow_sub_one₀ (by norm_num)]
        ring
    _ ≤ 2 ^ (k - precision - 1) :=
        zpow_le_zpow_right₀ (by norm_num) (by omega)

/-- A fraction below `2 ^ k` is rounded by less than its 53rd binary digit. -/
theorem nearest_error (negative : Bool) (hden : 0 < r.den) (hk : leastExponent ≤ k - precision)
    (hmax : k ≤ greatestExponent) (h : r.value < 2 ^ k) :
    ∃ m e, nearest negative r = .finite negative m e ∧
      |(m : ℚ) * 2 ^ e - r.value| ≤ 2 ^ (k - precision - 1) := by
  by_cases hnum : r.num = 0
  · refine ⟨0, leastExponent, nearest_of_zero hnum, ?_⟩
    rw [Ratio.value, hnum]
    simpa using (two_zpow_pos (k - precision - 1)).le
  · have hexp := exponentFor_le hden hnum hk h
    have hsmall : exponentFor r < greatestExponent := by
      simp only [precision] at hexp
      omega
    obtain ⟨m, e, hm, hvalue⟩ := nearest_finite hnum hsmall
    refine ⟨m, e, hm, ?_⟩
    rw [hvalue]
    exact units_error hden hnum hk h

/-- Rounding changes a fraction by a factor of two at most, unless the units are the least
ones. -/
theorem nearest_within (negative : Bool) (hden : 0 < r.den)
    (hlow : r.value = 0 ∨ 2 ^ (leastExponent + precision) ≤ r.value) :
    nearest negative r = .infinite negative ∨
      ∃ m e, nearest negative r = .finite negative m e ∧
        r.value / 2 ≤ m * 2 ^ e ∧ (m : ℚ) * 2 ^ e ≤ 2 * r.value := by
  have hone : (1 : ℚ) < 2 := by norm_num
  by_cases hnum : r.num = 0
  · have hzero := Ratio.value_of_num hnum
    exact .inr ⟨0, leastExponent, nearest_of_zero hnum, by simp [hzero]⟩
  · have hne : r.value ≠ 0 :=
      div_ne_zero (Nat.cast_ne_zero.2 hnum) (Nat.cast_pos.2 hden).ne'
    have hlow := hlow.resolve_left hne
    obtain ⟨n, hn, hlt⟩ := exists_mem_Ico_zpow ((two_zpow_pos _).trans_le hlow) hone
    have hleast := two_zpow_lt_iff.1 (hlow.trans_lt hlt)
    have herror := units_error hden hnum (by omega) hlt
    have hhalf : (2 : ℚ) ^ (n + 1 - precision - 1 : Int) ≤ r.value / 2 := by
      calc (2 : ℚ) ^ (n + 1 - precision - 1 : Int) ≤ 2 ^ (n - 1) :=
            zpow_le_zpow_right₀ hone.le (by simp only [precision]; omega)
        _ = 2 ^ n / 2 := by rw [zpow_sub_one₀ (by norm_num), div_eq_mul_inv]
        _ ≤ r.value / 2 := by gcongr
    obtain ⟨m, e, hm, -, hvalue⟩ := @nearest_eq negative r hnum
    rw [← hvalue] at herror
    obtain ⟨hleft, hright⟩ := abs_le.1 herror
    rw [hm]
    split
    · exact .inl rfl
    · exact .inr ⟨m, e, rfl, by linarith, by linarith⟩

theorem den_rounded_pos (r : Ratio) : 0 < (rounded r).den := by
  rw [rounded]
  cases nearest false r with
  | nan => exact Nat.one_pos
  | infinite => exact Nat.one_pos
  | finite => exact Ratio.den_ofBinary_pos _ _

theorem rounded_error (hden : 0 < r.den) (hk : leastExponent ≤ k - precision)
    (hmax : k ≤ greatestExponent) (h : r.value < 2 ^ k) :
    |(rounded r).value - r.value| ≤ 2 ^ (k - precision - 1) := by
  obtain ⟨m, e, hm, herror⟩ := nearest_error false hden hk hmax h
  rw [rounded, hm, magnitude, Ratio.value_ofBinary]
  exact herror

/-- A multiple of `2 ^ e` below `2 ^ (e + 53)` is not changed. -/
theorem nearest_exact (negative : Bool) {n : Nat} (hden : 0 < r.den) (he : leastExponent ≤ e)
    (hmax : e < greatestExponent) (hvalue : r.value = n * 2 ^ e)
    (h : r.value < 2 ^ (e + precision)) :
    ∃ m e', nearest negative r = .finite negative m e' ∧ (m : ℚ) * 2 ^ e' = r.value := by
  by_cases hnum : r.num = 0
  · exact ⟨0, leastExponent, nearest_of_zero hnum, by simp [Ratio.value, hnum]⟩
  · have hexp : exponentFor r ≤ e := by
      have := exponentFor_le hden hnum (k := e + precision) (by omega) h
      omega
    obtain ⟨m, e', hm, hround⟩ := nearest_finite hnum (lt_of_le_of_lt hexp hmax)
    -- In smaller units the multiple is a multiple still.
    have hunits : (r.inUnits (exponentFor r)).value =
        (n * 2 ^ (e - exponentFor r).toNat : Nat) := by
      rw [Ratio.value_inUnits, hvalue, Nat.cast_mul, Nat.cast_pow, Nat.cast_ofNat, ← zpow_natCast,
        Int.toNat_of_nonneg (by omega), zpow_sub₀ (by norm_num), mul_div_assoc]
    refine ⟨m, e', hm, ?_⟩
    rw [hround, Ratio.roundEven_eq_of_value (Ratio.den_inUnits_pos hden) hunits, ← hunits,
      Ratio.value_inUnits, div_mul_cancel₀ _ (two_zpow_pos _).ne']

/-- What is rounded is a multiple of a unit, which follows from a bound on the fraction. -/
theorem nearest_multiple (negative : Bool) (hden : 0 < r.den)
    (hmax : exponentFor r < greatestExponent) (h : 2 ^ k ≤ r.value) :
    ∃ m e n, nearest negative r = .finite negative m e ∧
      (m : ℚ) * 2 ^ e = (n : Nat) * 2 ^ (k - precision) := by
  have hnum := Ratio.num_ne_zero ((two_zpow_pos k).trans_le h)
  have hexp := le_exponentFor hden h
  obtain ⟨m, e, hm, hround⟩ := nearest_finite hnum hmax
  refine ⟨m, e, (r.inUnits (exponentFor r)).roundEven *
    2 ^ (exponentFor r - (k - precision)).toNat, hm, ?_⟩
  rw [hround, Nat.cast_mul, Nat.cast_pow, Nat.cast_ofNat, ← zpow_natCast,
    Int.toNat_of_nonneg (by omega), mul_assoc, ← zpow_add₀ (by norm_num), sub_add_cancel]

/-- In its own units a fraction has at most 53 binary digits before the point. -/
theorem value_inUnits_lt (hden : 0 < r.den) :
    (r.inUnits (exponentFor r)).value < 2 ^ precision := by
  rw [Ratio.value_inUnits, div_lt_iff₀ (two_zpow_pos _), ← zpow_natCast, ← zpow_add₀ (by norm_num)]
  have hmono : ∀ k : Int, k ≤ precision + exponentFor r →
      (2 : ℚ) ^ k ≤ 2 ^ (precision + exponentFor r : Int) :=
    fun k hk => zpow_le_zpow_right₀ (by norm_num) hk
  by_cases hcarry : (r.inUnits (r.num.log2 - r.den.log2 - precision : Int)).den *
      Nat.pow 2 precision ≤ (r.inUnits (r.num.log2 - r.den.log2 - precision : Int)).num
  · refine (Ratio.value_lt_log2 hden).trans_le (hmono _ ?_)
    rw [exponentFor, if_pos hcarry]
    omega
  · refine (not_le.1 (mt (carry_iff hden).2 hcarry)).trans_le (hmono _ ?_)
    rw [exponentFor, if_neg hcarry]
    omega

/-- A number keeps 53 binary digits, and its exponent is not below the least one. -/
theorem bounds_of_nearest {s : Bool} {m : Nat} (hden : 0 < r.den)
    (h : nearest negative r = .finite s m e) : m < Nat.pow 2 precision ∧ leastExponent ≤ e := by
  by_cases hnum : r.num = 0
  · rw [nearest_of_zero hnum] at h
    cases h
    exact ⟨Nat.pow_pos (by decide), le_refl _⟩
  · have hexp : leastExponent ≤ exponentFor r := le_max_left _ _
    have herror := Ratio.roundEven_error (Ratio.den_inUnits_pos (e := exponentFor r) hden)
    have hround : (r.inUnits (exponentFor r)).roundEven < Nat.pow 2 precision + 1 := by
      have hlt : ((r.inUnits (exponentFor r)).roundEven : ℚ) < (Nat.pow 2 precision + 1 : Nat) := by
        have := value_inUnits_lt hden
        rw [Nat.pow_eq]
        push_cast
        linarith [(abs_le.1 herror).2]
      exact Nat.cast_lt.1 hlt
    rw [nearest, if_neg hnum] at h
    extract_lets e' m' at h
    by_cases hcarry : m' = Nat.pow 2 precision
    · rw [if_pos hcarry] at h
      dsimp only at h
      split at h
      · cases h
      · cases h
        exact ⟨Nat.pow_lt_pow_right (by decide) (by decide), by omega⟩
    · rw [if_neg hcarry] at h
      dsimp only at h
      split at h
      · cases h
      · obtain ⟨-, hm, he⟩ := Binary64.finite.inj h
        rw [← hm, ← he]
        exact ⟨lt_of_le_of_ne (Nat.le_of_lt_succ hround) hcarry, hexp⟩

/-- Whole numbers below `2 ^ 53` are not changed. -/
theorem nearest_ofNat (negative : Bool) {n : Nat} (h : n < Nat.pow 2 precision) :
    ∃ m e, nearest negative (.ofNat n) = .finite negative m e ∧ (m : ℚ) * 2 ^ e = n := by
  have hvalue := Ratio.value_ofNat n
  have hlt : (Ratio.ofNat n).value < 2 ^ (0 + precision : Int) := by
    rw [hvalue, zero_add, zpow_natCast]
    exact_mod_cast h
  obtain ⟨m, e, hm, hround⟩ := nearest_exact negative Nat.one_pos (by decide) (by decide)
    (by rw [hvalue, zpow_zero, mul_one]) hlt
  exact ⟨m, e, hm, hround.trans hvalue⟩

theorem div_eq {s t : Bool} {m n : Nat} {e f : Int} (hn : n ≠ 0) :
    ∃ r : Ratio, 0 < r.den ∧ r.value = m * 2 ^ e / (n * 2 ^ f) ∧
      (finite s m e).div (.finite t n f) = nearest (s ^^ t) r := by
  refine ⟨_, Nat.mul_pos (Ratio.den_ofBinary_pos m (e - f)) (Nat.pos_of_ne_zero hn), ?_, if_neg hn⟩
  rw [Ratio.value_dividedBy, Ratio.value_ofBinary, zpow_sub₀ (by norm_num)]
  field_simp

/-- The quotient of two numbers below is as near to that of their values. -/
theorem div_error {s t : Bool} {m n : Nat} {e f : Int} (hn : n ≠ 0)
    (hk : leastExponent ≤ k - precision) (hmax : k ≤ greatestExponent)
    (h : (m : ℚ) * 2 ^ e / (n * 2 ^ f) < 2 ^ k) :
    ∃ m' e', (finite s m e).div (.finite t n f) = .finite (s ^^ t) m' e' ∧
      |(m' : ℚ) * 2 ^ e' - m * 2 ^ e / (n * 2 ^ f)| ≤ 2 ^ (k - precision - 1) := by
  obtain ⟨r, hden, hvalue, hr⟩ := @div_eq s t m n e f hn
  rw [← hvalue] at h ⊢
  rw [hr]
  exact nearest_error _ hden hk hmax h

theorem add_eq {m n : Nat} {e f : Int} :
    ∃ r : Ratio, 0 < r.den ∧ r.value = m * 2 ^ e + n * 2 ^ f ∧
      (finite false m e).add (.finite false n f) = nearest false r := by
  have hunits : ∀ k : Nat, ∀ g : Int, min e f ≤ g →
      ((k * Nat.pow 2 (g - min e f).toNat : Nat) : ℚ) * 2 ^ min e f = k * 2 ^ g := by
    intro k g hg
    rw [Nat.cast_mul, Ratio.cast_pow_toNat (by omega), mul_assoc, ← zpow_add₀ (by norm_num),
      sub_add_cancel]
  refine ⟨.ofBinary (m * Nat.pow 2 (e - min e f).toNat + n * Nat.pow 2 (f - min e f).toNat)
    (min e f), Ratio.den_ofBinary_pos _ _, ?_, ?_⟩
  · rw [Ratio.value_ofBinary, Nat.cast_add, add_mul, hunits m e (min_le_left _ _),
      hunits n f (min_le_right _ _)]
  · have hsum : signedNat false (m * Nat.pow 2 (e - min e f).toNat) +
        signedNat false (n * Nat.pow 2 (f - min e f).toNat) =
        ((m * Nat.pow 2 (e - min e f).toNat + n * Nat.pow 2 (f - min e f).toNat : Nat) : Int) := rfl
    rw [add, hsum, Int.natAbs_natCast, decide_eq_false (not_lt.2 (Int.natCast_nonneg _)),
      Bool.and_false, Bool.or_false]

/-- A whole number of thousandths, divided by a thousand, is nearer to them than to the half of
one. -/
theorem thousandths_error {n : Int} (h : n.natAbs < 1000 * 8796093022208) :
    ∃ m e, (ofInt n).div (.ofNat 1000) = .finite (decide (n < 0)) m e ∧
      |(m : ℚ) * 2 ^ e - n.natAbs / 1000| ≤ 2 ^ (-11 : Int) := by
  obtain ⟨m, e, hm, hvalue⟩ := nearest_ofNat (decide (n < 0))
    (show n.natAbs < Nat.pow 2 precision from lt_trans h (by decide))
  obtain ⟨m', e', hm', hthousand⟩ :=
    nearest_ofNat false (show 1000 < Nat.pow 2 precision by decide)
  have hne : m' ≠ 0 := by
    rintro rfl
    norm_num at hthousand
  have hbelow : (m : ℚ) * 2 ^ e / (m' * 2 ^ e') < 2 ^ (43 : Int) := by
    have hcast : (n.natAbs : ℚ) < 1000 * 8796093022208 := by exact_mod_cast h
    rw [hvalue, hthousand, div_lt_iff₀ (by norm_num)]
    norm_num at hcast ⊢
    exact hcast
  obtain ⟨q, g, hq, herror⟩ := div_error (s := decide (n < 0)) (t := false) hne (by decide)
    (by decide) hbelow
  rw [hvalue, hthousand] at herror
  refine ⟨q, g, ?_, herror⟩
  rw [ofInt, Binary64.ofNat, hm, hm', hq, Bool.xor_false]

end DocWatch.Binary64
