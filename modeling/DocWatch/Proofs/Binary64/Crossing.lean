import DocWatch.Proofs.Binary64.Rounding
import Mathlib.Data.Nat.Log

/-!
# What rounding does not pass

A fraction is rounded to the nearest floating-point number, so it is not carried past any of
them: what is not above a number is not above it afterwards, and what is not below one is not
below it. With that alone a fraction just below a number may still become the number. It does
not if it is more than half a unit away: then it stays a whole unit below (`rounded_le_pred`),
however small the units of the fraction itself are.
-/

namespace DocWatch.Binary64

variable {r : Ratio} {e : Int} {n : Nat}

/-! ## Whole numbers of units -/

namespace Ratio

theorem roundEven_le (hden : 0 < r.den) (h : r.value ≤ n) : r.roundEven ≤ n := by
  have herror := (abs_le.1 (roundEven_error hden)).2
  have hlt : (r.roundEven : ℚ) < (n + 1 : Nat) := by
    push_cast
    linarith
  exact Nat.lt_succ_iff.1 (Nat.cast_lt.1 hlt)

theorem le_roundEven (hden : 0 < r.den) (h : n ≤ r.value) : n ≤ r.roundEven := by
  have herror := (abs_le.1 (roundEven_error hden)).1
  have hlt : (n : ℚ) < (r.roundEven + 1 : Nat) := by
    push_cast
    linarith
  exact Nat.lt_succ_iff.1 (Nat.cast_lt.1 hlt)

theorem roundEven_lt (hden : 0 < r.den) (h : r.value < n - 1 / 2) : r.roundEven < n := by
  have herror := (abs_le.1 (roundEven_error hden)).2
  have hlt : (r.roundEven : ℚ) < n := by linarith
  exact Nat.cast_lt.1 hlt

end Ratio

/-! ## Bounds that are numbers -/

theorem value_rounded (hnum : r.num ≠ 0) (hexp : exponentFor r < greatestExponent) :
    (rounded r).value = (r.inUnits (exponentFor r)).roundEven * 2 ^ exponentFor r := by
  obtain ⟨m, e, hm, hvalue⟩ := @nearest_finite false r hnum hexp
  rw [rounded, hm, magnitude, Ratio.value_ofBinary, hvalue]

/-- A fraction below `2 ^ (e + 53)` is rounded to a whole number of units that are not greater
than `2 ^ e`. -/
theorem exists_units (hden : 0 < r.den) (he : leastExponent ≤ e) (hmax : e < greatestExponent)
    (h : r.value < 2 ^ (e + precision)) :
    ∃ (u : Ratio) (k : Nat), 0 < u.den ∧ r.value = u.value * 2 ^ (e - k) ∧
      (rounded r).value = u.roundEven * 2 ^ (e - k) := by
  by_cases hnum : r.num = 0
  · have hvalue := Ratio.value_of_num hnum
    have hzero : (Ratio.ofNat 0).roundEven = 0 := rfl
    refine ⟨.ofNat 0, 0, Nat.one_pos, ?_, ?_⟩
    · rw [hvalue, Ratio.value_ofNat, Nat.cast_zero, zero_mul]
    · rw [rounded, nearest_of_zero hnum, magnitude, Ratio.value_ofBinary, hzero, Nat.cast_zero,
        zero_mul, zero_mul]
  · have hexp : exponentFor r ≤ e := by
      have := exponentFor_le hden hnum (k := e + precision) (by omega) h
      omega
    obtain ⟨k, hk⟩ := Int.eq_ofNat_of_zero_le (sub_nonneg.2 hexp)
    have hunits : exponentFor r = e - k := by omega
    refine ⟨r.inUnits (exponentFor r), k, Ratio.den_inUnits_pos hden, ?_, ?_⟩
    · rw [Ratio.value_inUnits, hunits, div_mul_cancel₀ _ (two_zpow_pos _).ne']
    · rw [value_rounded hnum (by omega), hunits]

/-- A multiple of a unit is one of every smaller unit as well. -/
theorem multiple_of_smaller (n k : Nat) (e : Int) :
    (n : ℚ) * 2 ^ e = (n * 2 ^ k : Nat) * 2 ^ (e - k) := by
  rw [Nat.cast_mul, Nat.cast_pow, Nat.cast_ofNat, mul_assoc, ← zpow_natCast,
    ← zpow_add₀ (by norm_num), add_sub_cancel]

theorem rounded_le (hden : 0 < r.den) (he : leastExponent ≤ e) (hmax : e < greatestExponent)
    (h : r.value < 2 ^ (e + precision)) (hn : r.value ≤ n * 2 ^ e) :
    (rounded r).value ≤ n * 2 ^ e := by
  obtain ⟨u, k, hu, hvalue, hround⟩ := exists_units hden he hmax h
  have hunit := two_zpow_pos (e - k)
  rw [multiple_of_smaller n k, hvalue] at hn
  rw [multiple_of_smaller n k, hround]
  have hle := Ratio.roundEven_le hu (le_of_mul_le_mul_right hn hunit)
  gcongr

theorem le_rounded (hden : 0 < r.den) (he : leastExponent ≤ e) (hmax : e < greatestExponent)
    (h : r.value < 2 ^ (e + precision)) (hn : n * 2 ^ e ≤ r.value) :
    n * 2 ^ e ≤ (rounded r).value := by
  obtain ⟨u, k, hu, hvalue, hround⟩ := exists_units hden he hmax h
  have hunit := two_zpow_pos (e - k)
  rw [multiple_of_smaller n k, hvalue] at hn
  rw [multiple_of_smaller n k, hround]
  have hle := Ratio.le_roundEven hu (le_of_mul_le_mul_right hn hunit)
  gcongr

/-- In the binade of a fraction the units are known. -/
theorem exponentFor_eq (hden : 0 < r.den) (he : leastExponent ≤ e)
    (hlow : 2 ^ (e + precision - 1) ≤ r.value) (hhigh : r.value < 2 ^ (e + precision)) :
    r.num ≠ 0 ∧ exponentFor r = e := by
  have hnum := Ratio.num_ne_zero ((two_zpow_pos _).trans_le hlow)
  have hle := exponentFor_le hden hnum (k := e + precision) (by omega) hhigh
  have hlt := value_inUnits_lt hden
  rw [Ratio.value_inUnits, div_lt_iff₀ (two_zpow_pos _), ← zpow_natCast,
    ← zpow_add₀ (by norm_num)] at hlt
  have hge := two_zpow_lt_iff.1 (hlow.trans_lt hlt)
  exact ⟨hnum, by omega⟩

/-- What is more than half a unit below a number stays a unit below it. The number is a multiple
of the unit with 53 binary digits, or the power of two above these. -/
theorem rounded_le_pred (hden : 0 < r.den) (he : leastExponent < e) (hmax : e < greatestExponent)
    (hlow : 2 ^ (precision - 1) < n) (hhigh : n ≤ 2 ^ precision)
    (h : r.value < (n - 1 / 2) * 2 ^ e) : (rounded r).value ≤ (n - 1) * 2 ^ e := by
  have hunit := two_zpow_pos e
  have hlow' : (2 : ℚ) ^ (precision - 1) + 1 ≤ n := by exact_mod_cast hlow
  have hhigh' : (n : ℚ) ≤ 2 ^ precision := by exact_mod_cast hhigh
  by_cases hsmall : r.value < 2 ^ (e - 1 + precision)
  · -- The units of the fraction are smaller, but the power of two between is a number too.
    have hpower : (2 : ℚ) ^ (e - 1 + precision) = (2 ^ precision : Nat) * 2 ^ (e - 1) := by
      rw [zpow_add₀ (by norm_num), zpow_natCast, mul_comm]
      norm_cast
    have hbinade : ((2 ^ precision : Nat) : ℚ) * 2 ^ (e - 1) = 2 ^ (precision - 1) * 2 ^ e := by
      rw [zpow_sub_one₀ (by norm_num), precision]
      norm_num
      ring
    calc (rounded r).value ≤ (2 ^ precision : Nat) * 2 ^ (e - 1) :=
          rounded_le hden (by omega) (by omega) hsmall (hsmall.le.trans hpower.le)
      _ = 2 ^ (precision - 1) * 2 ^ e := hbinade
      _ ≤ (n - 1) * 2 ^ e := by
          gcongr
          linarith
  · -- The fraction has the units of the number, and is rounded by half of one at most.
    have hbelow : r.value < 2 ^ (e + precision) := by
      refine h.trans_le ?_
      rw [zpow_add₀ (by norm_num), zpow_natCast, mul_comm]
      gcongr
      linarith
    obtain ⟨hnum, hexp⟩ := exponentFor_eq hden he.le
      (by rw [show e + precision - 1 = e - 1 + precision by ring]; exact not_lt.1 hsmall) hbelow
    have hunits : (r.inUnits e).value < n - 1 / 2 := by
      rwa [Ratio.value_inUnits, div_lt_iff₀ hunit]
    have hround : ((r.inUnits e).roundEven : ℚ) + 1 ≤ n := by
      exact_mod_cast Ratio.roundEven_lt (Ratio.den_inUnits_pos hden) hunits
    rw [value_rounded hnum (by omega), hexp]
    gcongr
    linarith

/-! ## Whole numbers -/

theorem le_rounded_whole (hden : 0 < r.den) (h : r.value < 2 ^ precision) (hn : n ≤ r.value) :
    n ≤ (rounded r).value := by
  have := le_rounded (e := 0) (n := n) hden (by decide) (by decide)
    (by rwa [zero_add, zpow_natCast]) (by rwa [zpow_zero, mul_one])
  rwa [zpow_zero, mul_one] at this

theorem rounded_le_whole (hden : 0 < r.den) (h : r.value < 2 ^ precision) (hn : r.value ≤ n) :
    (rounded r).value ≤ n := by
  have := rounded_le (e := 0) (n := n) hden (by decide) (by decide)
    (by rwa [zero_add, zpow_natCast]) (by rwa [zpow_zero, mul_one])
  rwa [zpow_zero, mul_one] at this

/-- How many binary digits a whole number leaves behind the point. -/
theorem exists_places (hpos : 0 < n) (h : n ≤ 2 ^ precision) :
    ∃ j, 2 ^ (precision - 1) < n * 2 ^ j ∧ n * 2 ^ j ≤ 2 ^ precision := by
  have hle : n ≤ 2 ^ Nat.clog 2 n := Nat.le_pow_clog (by decide) n
  have hclog : Nat.clog 2 n ≤ precision := Nat.clog_le_of_le_pow h
  refine ⟨precision - Nat.clog 2 n, ?_, ?_⟩
  · rcases Nat.lt_or_ge 1 n with hone | hone
    · have hlt : 2 ^ (Nat.clog 2 n - 1) < n := Nat.pow_pred_clog_lt_self (by decide) hone
      have hclog0 : 0 < Nat.clog 2 n := Nat.clog_pos (by decide) hone
      calc 2 ^ (precision - 1) = 2 ^ (Nat.clog 2 n - 1) * 2 ^ (precision - Nat.clog 2 n) := by
            rw [← Nat.pow_add]
            congr 1
            omega
        _ < n * 2 ^ (precision - Nat.clog 2 n) := by gcongr
    · obtain rfl : n = 1 := by omega
      rw [Nat.clog_one_right, Nat.one_mul]
      decide
  · calc n * 2 ^ (precision - Nat.clog 2 n)
        ≤ 2 ^ Nat.clog 2 n * 2 ^ (precision - Nat.clog 2 n) := by gcongr
      _ = 2 ^ precision := by rw [← Nat.pow_add, Nat.add_sub_cancel' hclog]

/-- A whole number is not reached from below by more than half of the least digit that it leaves
behind the point. -/
theorem rounded_le_sub {j : Nat} (hden : 0 < r.den) (hlow : 2 ^ (precision - 1) < n * 2 ^ j)
    (hhigh : n * 2 ^ j ≤ 2 ^ precision) (h : r.value < n - 1 / 2 ^ j / 2) :
    (rounded r).value ≤ n - 1 / 2 ^ j := by
  have hpower : (0 : ℚ) < 2 ^ j := by positivity
  have hj : j ≤ precision := by
    have hpos : 0 < n := Nat.pos_of_mul_pos_right ((Nat.zero_le _).trans_lt hlow)
    exact (Nat.pow_le_pow_iff_right (by decide)).1
      ((Nat.le_mul_of_pos_left _ hpos).trans hhigh)
  have hunit : (2 : ℚ) ^ (-(j : Int)) = 1 / 2 ^ j := by rw [zpow_neg, zpow_natCast, one_div]
  have hscaled : ∀ q : ℚ, ((n * 2 ^ j : Nat) - q) * 2 ^ (-(j : Int)) = n - 1 / 2 ^ j * q := by
    intro q
    rw [hunit]
    push_cast
    field_simp
  have hpred := rounded_le_pred (e := -(j : Int)) hden
    (by simp only [leastExponent, precision] at hj ⊢; omega)
    (by simp only [greatestExponent]; omega) hlow hhigh
    (by rw [hscaled]; linarith)
  rw [hscaled, mul_one] at hpred
  exact hpred

/-- A whole number below `2 ^ 52` is not changed, and its last digit is worth one at most. -/
theorem nearest_whole (hden : 0 < r.den) (hn : n ≠ 0) (hsmall : n < 2 ^ (precision - 1))
    (hvalue : r.value = n) :
    ∃ m e, nearest false r = .finite false m e ∧ (m : ℚ) * 2 ^ e = n ∧ e ≤ 0 := by
  have hnum : r.num ≠ 0 :=
    Ratio.num_ne_zero (by rw [hvalue]; exact Nat.cast_pos.2 (Nat.pos_of_ne_zero hn))
  have hbelow : r.value < 2 ^ (52 : Int) := by
    rw [hvalue]
    exact_mod_cast hsmall
  have hexp := exponentFor_le hden hnum (by decide) hbelow
  obtain ⟨m, e, hm, he, -⟩ := @nearest_eq false r hnum
  obtain ⟨m', e', hm', hexact⟩ := nearest_exact false (e := 0) hden (by decide) (by decide)
    (by rw [hvalue, zpow_zero, mul_one])
    (hbelow.trans_le (zpow_le_zpow_right₀ (by norm_num) (by decide)))
  have hzero : e ≤ 0 := by
    simp only [precision] at hexp
    omega
  rw [if_neg (by simp only [greatestExponent]; omega), hm'] at hm
  cases hm
  exact ⟨m, e, hm', hexact.trans hvalue, hzero⟩

/-- Above `2 ^ 53` odd numbers lie midway between two numbers. Of these, the one that is a
multiple of four is taken. -/
theorem rounded_midway (hlow : 2 ^ precision ≤ n) (hhigh : n < 2 ^ (precision + 1))
    (hodd : n % 4 = 3) : (rounded (.ofNat n)).value = n + 1 := by
  have hlow' : (2 : ℚ) ^ precision ≤ n := by exact_mod_cast hlow
  have hhigh' : (n : ℚ) < 2 ^ (precision + 1) := by exact_mod_cast hhigh
  obtain ⟨hnum, hexp⟩ := exponentFor_eq (r := .ofNat n) (e := 1) Nat.one_pos (by decide)
    (by rw [Ratio.value_ofNat]; exact hlow') (by rw [Ratio.value_ofNat]; exact hhigh')
  have hround : ((Ratio.ofNat n).inUnits 1).roundEven = n / 2 + 1 := by
    change (if 1 * 2 < 2 * (n % (1 * 2)) || (2 * (n % (1 * 2)) == 1 * 2 && n / (1 * 2) % 2 == 1)
      then n / (1 * 2) + 1 else n / (1 * 2)) = n / 2 + 1
    -- The rest is half a unit, so the quotient decides, and it is odd.
    have hrest : n % 2 = 1 := by omega
    have hquotient : n / 2 % 2 = 1 := by omega
    rw [Nat.one_mul, hrest, hquotient]
    rfl
  have hdouble : ((n / 2 + 1) * 2 : Nat) = n + 1 := by omega
  rw [value_rounded hnum (by rw [hexp]; decide), hexp, hround, zpow_one]
  exact_mod_cast hdouble

end DocWatch.Binary64
