import DocWatch.Proofs.Binary64.Decimal

/-!
# What is written with the fewest digits

The decimal with the fewest digits is looked for on one grid after another, each ten times
as fine as the one before. Whatever is found lies within the bounds between which every
decimal reads back as the number, and something is found at the eighteenth grid at the
latest: its meshes are narrower than the gap between two floating-point numbers. So the
text of a number denotes that number up to half of a unit in its last place, and the text
of a positive number denotes a positive one. A whole number is found on a grid of whole
numbers, where nothing else is near enough, and so it is written as it is.
-/

namespace DocWatch.Binary64

variable {low mid high den d n : Nat} {closed : Bool} {q : Int}

/-! ## Digits and a power of ten -/

/-- What digits with a power of ten stand for. -/
def Digits.value (d : Digits) : ℚ :=
  d.digits * 10 ^ d.exponent

theorem ten_zpow_pos (q : Int) : (0 : ℚ) < 10 ^ q :=
  zpow_pos (by norm_num) q

theorem Digits.value_strip (n : Nat) (d : Digits) : (d.strip n).value = d.value := by
  induction n generalizing d with
  | zero => rfl
  | succ n ih =>
      rw [Digits.strip]
      split
      · rename_i h
        rw [ih, Digits.value, Digits.value, zpow_add_one₀ (by norm_num)]
        have htens : (d.digits : ℚ) = (d.digits / 10 : Nat) * 10 := by
          exact_mod_cast (Nat.div_mul_cancel (Nat.dvd_of_mod_eq_zero h.2)).symm
        rw [htens]
        ring
      · rfl

theorem Digits.denotes_positional (d : Digits) : Denotes d.positional d.value := by
  rw [positional]
  split
  · rename_i h
    obtain ⟨n, hn⟩ := Int.eq_ofNat_of_zero_le h
    have hdenotes := denotes_decimal (d.digits * Nat.pow 10 d.exponent.toNat)
    rw [hn, Int.toNat_natCast, Nat.pow_eq, Nat.cast_mul, Nat.cast_pow, Nat.cast_ofNat] at hdenotes
    rw [Digits.value, hn, Int.toNat_natCast, zpow_natCast]
    exact hdenotes
  · rename_i h
    obtain ⟨n, hn⟩ := Int.eq_ofNat_of_zero_le (a := -d.exponent) (by omega)
    have hdenotes := denotes_withPoint false n d.digits (by omega)
    rw [Digits.value, hn, Int.toNat_natCast, ← neg_neg d.exponent, hn, zpow_neg, zpow_natCast,
      ← div_eq_mul_inv]
    exact hdenotes

/-! ## One grid -/

theorem gridBelow_eq (d : Nat) (q : Int) (p : Nat) (h : 0 < den) :
    gridBelow d q p den =
      (decide ((d : ℚ) * 10 ^ q < p / den), decide ((d : ℚ) * 10 ^ q = p / den)) := by
  have hden : (0 : ℚ) < den := Nat.cast_pos.2 h
  rw [gridBelow]
  by_cases hq : 0 ≤ q
  · obtain ⟨n, rfl⟩ := Int.eq_ofNat_of_zero_le hq
    simp only [hq, if_true, Int.toNat_natCast, Nat.pow_eq, Prod.mk.injEq, decide_eq_decide,
      lt_div_iff₀ hden, eq_div_iff hden.ne', zpow_natCast]
    norm_cast
  · obtain ⟨n, hn⟩ := Int.eq_ofNat_of_zero_le (a := -q) (by omega)
    have hten : (0 : ℚ) < 10 ^ n := by positivity
    have hpow : (d : ℚ) * 10 ^ q = d / 10 ^ n := by
      rw [← neg_neg q, hn, zpow_neg, zpow_natCast, div_eq_mul_inv]
    simp only [hq, if_false, hn, Int.toNat_natCast, Nat.pow_eq, Prod.mk.injEq, decide_eq_decide,
      hpow, div_lt_div_iff₀ hten hden, div_eq_div_iff hten.ne' hden.ne']
    norm_cast

def fits (low high den : Nat) (closed : Bool) (q : Int) (c : Nat) : Bool :=
  let atLow := gridBelow c q low den
  let atHigh := gridBelow c q high den
  (!atLow.1 && (closed || !atLow.2)) && (atHigh.1 || (closed && atHigh.2))

/-- A fraction in units of a grid. -/
def onScale (mid den : Nat) (q : Int) : Ratio :=
  if 0 ≤ q then ⟨mid, den * Nat.pow 10 q.toNat⟩ else ⟨mid * Nat.pow 10 (-q).toNat, den⟩

/-- The nearest point of the grid is tried first, and another one if it does not fit. -/
theorem onGrid_eq (low mid high den : Nat) (closed : Bool) (q : Int) :
    ∃ far, onGrid low mid high den closed q =
      if fits low high den closed q (onScale mid den q).roundEven then
        some (onScale mid den q).roundEven
      else if fits low high den closed q far then some far else none :=
  ⟨_, rfl⟩

theorem value_onScale (mid : Nat) (q : Int) (h : 0 < den) :
    0 < (onScale mid den q).den ∧ (onScale mid den q).value * 10 ^ q = mid / den := by
  have hden : (den : ℚ) ≠ 0 := (Nat.cast_pos.2 h).ne'
  rw [onScale]
  split
  · rename_i hq
    obtain ⟨n, rfl⟩ := Int.eq_ofNat_of_zero_le hq
    refine ⟨Nat.mul_pos h (Nat.pow_pos (by decide)), ?_⟩
    rw [Ratio.value, Int.toNat_natCast, Nat.pow_eq, zpow_natCast]
    push_cast
    field_simp
  · rename_i hq
    obtain ⟨n, hn⟩ := Int.eq_ofNat_of_zero_le (a := -q) (by omega)
    refine ⟨h, ?_⟩
    rw [Ratio.value, hn, Int.toNat_natCast, Nat.pow_eq, ← neg_neg q, hn, zpow_neg, zpow_natCast]
    push_cast
    field_simp

theorem bounds_of_fits (hden : 0 < den) (h : fits low high den closed q d = true) :
    (low / den : ℚ) ≤ d * 10 ^ q ∧ (d * 10 ^ q : ℚ) ≤ high / den := by
  rw [fits, gridBelow_eq d q low hden, gridBelow_eq d q high hden] at h
  simp only [Bool.and_eq_true, Bool.or_eq_true, Bool.not_eq_true', decide_eq_false_iff_not,
    decide_eq_true_eq] at h
  refine ⟨not_lt.1 h.1.1, ?_⟩
  rcases h.2 with h | h
  · exact h.le
  · exact h.2.le

theorem fits_of_bounds (hden : 0 < den) (hlow : (low / den : ℚ) < d * 10 ^ q)
    (hhigh : (d * 10 ^ q : ℚ) < high / den) : fits low high den closed q d = true := by
  rw [fits, gridBelow_eq d q low hden, gridBelow_eq d q high hden]
  simp [hlow.le, hlow.ne', hhigh]

theorem bounds_of_onGrid (hden : 0 < den) (h : onGrid low mid high den closed q = some d) :
    (low / den : ℚ) ≤ d * 10 ^ q ∧ (d * 10 ^ q : ℚ) ≤ high / den := by
  obtain ⟨far, hgrid⟩ := onGrid_eq low mid high den closed q
  rw [hgrid] at h
  split at h
  · rename_i hfits
    cases h
    exact bounds_of_fits hden hfits
  · split at h
    · rename_i hfits
      cases h
      exact bounds_of_fits hden hfits
    · cases h

/-- A grid is fine enough if half of its mesh does not reach the bounds. -/
def FineEnough (low mid high den : Nat) (q : Int) : Prop :=
  (low / den : ℚ) < mid / den - 10 ^ q / 2 ∧ (mid / den + 10 ^ q / 2 : ℚ) < high / den

theorem onGrid_ne_none (hden : 0 < den) (h : FineEnough low mid high den q) :
    onGrid low mid high den closed q ≠ none := by
  obtain ⟨far, hgrid⟩ := onGrid_eq low mid high den closed q
  obtain ⟨hscaleden, hscale⟩ := value_onScale mid q hden
  have hten := ten_zpow_pos q
  have herror := Ratio.roundEven_error hscaleden
  have hnear : |((onScale mid den q).roundEven : ℚ) * 10 ^ q - mid / den| ≤ 10 ^ q / 2 := by
    rw [← hscale, ← sub_mul, abs_mul, abs_of_pos hten]
    have := mul_le_mul_of_nonneg_right herror hten.le
    linarith
  obtain ⟨hleft, hright⟩ := abs_le.1 hnear
  rw [hgrid, if_pos (fits_of_bounds hden (by linarith [h.1]) (by linarith [h.2]))]
  exact Option.some_ne_none _

/-! ## One grid after another -/

/-- What is found lies within the bounds, if the last grid is fine enough. -/
theorem bounds_shortestFrom (hden : 0 < den) (h : FineEnough low mid high den (q - n)) :
    (low / den : ℚ) ≤ (shortestFrom low mid high den closed (n + 1) q).value ∧
      (shortestFrom low mid high den closed (n + 1) q).value ≤ high / den := by
  induction n generalizing q with
  | zero =>
      rw [shortestFrom]
      split
      · rename_i d hd
        exact bounds_of_onGrid hden hd
      · rename_i hnone
        rw [Int.natCast_zero, Int.sub_zero] at h
        exact absurd hnone (onGrid_ne_none hden h)
  | succ n ih =>
      rw [shortestFrom]
      split
      · rename_i d hd
        exact bounds_of_onGrid hden hd
      · refine ih ?_
        rwa [show q - 1 - (n : Int) = q - (n + 1 : Nat) by omega]

/-! ## The first grid -/

theorem down_le {r : Ratio} (hden : 0 < r.den) {fuel num : Nat} {k : Int}
    (hnum : (num : ℚ) / r.den * 10 ^ k = r.value) (h : (10 : ℚ) ^ (k - fuel) ≤ r.value) :
    (10 : ℚ) ^ leadingExponent.down r fuel num k ≤ r.value := by
  have hposden : (0 : ℚ) < r.den := Nat.cast_pos.2 hden
  induction fuel generalizing num k with
  | zero =>
      rw [leadingExponent.down]
      rwa [Nat.cast_zero, sub_zero] at h
  | succ fuel ih =>
      rw [leadingExponent.down]
      split
      · rename_i hle
        rw [← hnum]
        refine le_mul_of_one_le_left (ten_zpow_pos k).le ?_
        rw [one_le_div hposden]
        exact_mod_cast hle
      · refine ih ?_ ?_
        · rw [← hnum, zpow_sub_one₀ (by norm_num)]
          push_cast
          ring
        · rwa [show k - 1 - (fuel : Int) = k - (fuel + 1 : Nat) by omega]

theorem leadingExponent_le {r : Ratio} (hden : 0 < r.den) {fuel : Nat}
    (h : (10 : ℚ) ^ (-1 - fuel : Int) ≤ r.value) :
    (10 : ℚ) ^ leadingExponent r fuel ≤ r.value := by
  have hposden : (0 : ℚ) < r.den := Nat.cast_pos.2 hden
  rw [leadingExponent]
  split
  · rename_i hle
    have hpos : 0 < r.num / r.den := Nat.div_pos hle hden
    have hlength : (decimal (r.num / r.den)).length ≠ 0 :=
      fun h => Nat.toDigits_ne_nil (List.length_eq_zero_iff.1 h)
    obtain ⟨n, hn⟩ := Nat.exists_eq_succ_of_ne_zero hlength
    have hpow : 10 ^ n ≤ r.num / r.den := by
      by_contra hlt
      cases n with
      | zero => exact hlt hpos
      | succ n =>
          have := (Nat.length_toDigits_le_iff (by decide) (Nat.succ_pos n)).2 (not_le.1 hlt)
          rw [decimal] at hn
          omega
    rw [hn, Nat.succ_eq_add_one, Nat.cast_add, Nat.cast_one, add_sub_cancel_right, zpow_natCast,
      Ratio.value, le_div_iff₀ hposden]
    exact_mod_cast (Nat.le_div_iff_mul_le hden).1 hpow
  · refine down_le hden ?_ h
    rw [Ratio.value, zpow_neg_one]
    push_cast
    ring

/-! ## What is written -/

/-- Seventeen grids behind the first one, half of a mesh is less than a quarter of a unit. -/
theorem mesh_lt {m : Nat} {e k : Int} (hfits : m < 2 ^ 53) (hk : (10 : ℚ) ^ k ≤ m * 2 ^ e) :
    (10 : ℚ) ^ (k - (17 : Nat)) / 2 < 2 ^ (e - 2) := by
  have hlt : (m : ℚ) < 2 ^ 53 := by exact_mod_cast hfits
  have hpos := two_zpow_pos e
  calc (10 : ℚ) ^ (k - (17 : Nat)) / 2 = 10 ^ k * (10 ^ (-17 : Int) / 2) := by
        rw [sub_eq_add_neg, zpow_add₀ (by norm_num), mul_div_assoc]
        rfl
    _ ≤ m * 2 ^ e * (10 ^ (-17 : Int) / 2) := by gcongr
    _ ≤ 2 ^ 53 * 2 ^ e * (10 ^ (-17 : Int) / 2) := by gcongr
    _ < 2 ^ e * 2 ^ (-2 : Int) := by
        norm_num
        linarith
    _ = 2 ^ (e - 2) := by rw [← zpow_add₀ (by norm_num), sub_eq_add_neg]

theorem value_quarters (n : Nat) (e : Int) :
    ((n * (Ratio.ofBinary 1 (e - 2)).num : Nat) : ℚ) / (Ratio.ofBinary 1 (e - 2)).den =
      n * 2 ^ (e - 2) := by
  have hunit := Ratio.value_ofBinary 1 (e - 2)
  rw [Ratio.value, Nat.cast_one, one_mul] at hunit
  rw [Nat.cast_mul, mul_div_assoc, hunit]

/-- No number is so small that looking for its leading digit ends too early. -/
theorem ten_zpow_le {m : Nat} {e : Int} (hm : m ≠ 0) (he : leastExponent ≤ e) :
    (10 : ℚ) ^ (-1 - (400 : Nat) : Int) ≤ m * 2 ^ e := by
  have hone : (1 : ℚ) ≤ m := by exact_mod_cast Nat.one_le_iff_ne_zero.2 hm
  calc (10 : ℚ) ^ (-1 - (400 : Nat) : Int) = (10 ^ 401)⁻¹ := rfl
    _ ≤ ((2 ^ 3) ^ 401)⁻¹ := by
        gcongr
        norm_num
    _ = 2 ^ (-1203 : Int) := by
        rw [← pow_mul]
        rfl
    _ ≤ 2 ^ leastExponent := zpow_le_zpow_right₀ (by norm_num) (by decide)
    _ ≤ 2 ^ e := zpow_le_zpow_right₀ (by norm_num) he
    _ ≤ m * 2 ^ e := le_mul_of_one_le_left (two_zpow_pos e).le hone

/-- The eighteenth grid is fine enough for bounds that are a quarter of a unit away. -/
theorem fineEnough_quarters {low m : Nat} {e k : Int} (hlow : low + 1 ≤ 4 * m)
    (hfits : m < 2 ^ 53) (hk : (10 : ℚ) ^ k ≤ m * 2 ^ e) :
    FineEnough (low * (Ratio.ofBinary 1 (e - 2)).num) (4 * m * (Ratio.ofBinary 1 (e - 2)).num)
      ((4 * m + 2) * (Ratio.ofBinary 1 (e - 2)).num) (Ratio.ofBinary 1 (e - 2)).den
      (k - (17 : Nat)) := by
  have hmesh := mesh_lt hfits hk
  have hquarter := two_zpow_pos (e - 2)
  have hlow : (low : ℚ) + 1 ≤ (4 * m : Nat) := by exact_mod_cast hlow
  have hhigh : ((4 * m + 2 : Nat) : ℚ) = (4 * m : Nat) + 2 := Nat.cast_add _ _
  rw [FineEnough, value_quarters, value_quarters, value_quarters, hhigh]
  constructor <;> nlinarith

/-- Where a decimal is looked for: the lower bound is one or two quarters of a unit below the
number. -/
theorem exists_shortestFrom {m : Nat} (hm : m ≠ 0) (e : Int) :
    ∃ low : Nat, low + 1 ≤ 4 * m ∧ 4 * m ≤ low + 2 ∧
      (shortest m e).value = (shortestFrom (low * (Ratio.ofBinary 1 (e - 2)).num)
        (4 * m * (Ratio.ofBinary 1 (e - 2)).num) ((4 * m + 2) * (Ratio.ofBinary 1 (e - 2)).num)
        (Ratio.ofBinary 1 (e - 2)).den (m % 2 == 0) 18
        (leadingExponent ⟨4 * m * (Ratio.ofBinary 1 (e - 2)).num,
          (Ratio.ofBinary 1 (e - 2)).den⟩ 400)).value := by
  refine ⟨if m = Nat.pow 2 52 ∧ -1074 < e then 4 * m - 1 else 4 * m - 2, ?_, ?_, ?_⟩
  · split <;> omega
  · split <;> omega
  · rw [shortest, if_neg hm, neighbourhood]
    dsimp only
    rw [Digits.value_strip]

/-- What is written is above zero, as the number is, and within half a unit of it. -/
theorem shortest_error {m : Nat} {e : Int} (hm : m ≠ 0) (hfits : m < 2 ^ 53)
    (he : leastExponent ≤ e) :
    0 < (shortest m e).value ∧ |(shortest m e).value - m * 2 ^ e| ≤ 2 ^ (e - 1) := by
  have hden : 0 < (Ratio.ofBinary 1 (e - 2)).den := Ratio.den_ofBinary_pos 1 _
  have hquarter := two_zpow_pos (e - 2)
  have hunit : (m : ℚ) * 2 ^ e = (4 * m : Nat) * 2 ^ (e - 2) := by
    rw [zpow_sub₀ (by norm_num)]
    push_cast
    ring
  have hhalf : (2 : ℚ) ^ (e - 1) = 2 * 2 ^ (e - 2) := by
    rw [show e - 1 = 1 + (e - 2) by omega, zpow_add₀ (by norm_num), zpow_one]
  obtain ⟨low, hnear, hfar, hshortest⟩ := exists_shortestFrom hm e
  rw [hshortest]
  have hk := @leadingExponent_le ⟨4 * m * (Ratio.ofBinary 1 (e - 2)).num,
    (Ratio.ofBinary 1 (e - 2)).den⟩ hden 400
  rw [Ratio.value, value_quarters, ← hunit] at hk
  have hfine := fineEnough_quarters hnear hfits (hk (ten_zpow_le hm he))
  obtain ⟨hleft, hright⟩ := @bounds_shortestFrom _ _ _ _ _ (m % 2 == 0) _ hden hfine
  rw [value_quarters] at hleft hright
  have hpos : (2 : ℚ) ≤ low := by exact_mod_cast (by omega : 2 ≤ low)
  have hfar : ((4 * m : Nat) : ℚ) ≤ low + 2 := by exact_mod_cast hfar
  have hhigh : ((4 * m + 2 : Nat) : ℚ) = (4 * m : Nat) + 2 := Nat.cast_add _ _
  rw [hunit, hhalf, abs_le]
  refine ⟨lt_of_lt_of_le (by positivity) hleft, ?_, ?_⟩ <;> nlinarith

/-! ## Whole numbers -/

/-- On the grids of whole numbers, only the number itself is within less than one of it. -/
theorem eq_of_onGrid {s : Nat} (hden : 0 < den) (hq : 0 ≤ q) (hlow : (s : ℚ) - 1 < low / den)
    (hhigh : (high : ℚ) / den < s + 1) (h : onGrid low mid high den closed q = some d) :
    (d : ℚ) * 10 ^ q = s := by
  obtain ⟨n, rfl⟩ := Int.eq_ofNat_of_zero_le hq
  obtain ⟨hleft, hright⟩ := bounds_of_onGrid hden h
  rw [zpow_natCast] at hleft hright ⊢
  have hbelow : s < d * 10 ^ n + 1 := by
    exact_mod_cast (by push_cast; linarith : (s : ℚ) < ((d * 10 ^ n + 1 : Nat) : ℚ))
  have habove : d * 10 ^ n < s + 1 := by
    exact_mod_cast (by push_cast; linarith : ((d * 10 ^ n : Nat) : ℚ) < ((s + 1 : Nat) : ℚ))
  exact_mod_cast (by omega : d * 10 ^ n = s)

theorem onGrid_zero {s : Nat} (hden : 0 < den) (hmid : (mid / den : ℚ) = s)
    (hlow : (low / den : ℚ) < s) (hhigh : (s : ℚ) < high / den) :
    onGrid low mid high den closed 0 = some s := by
  obtain ⟨far, hgrid⟩ := onGrid_eq low mid high den closed 0
  obtain ⟨hscaleden, hscale⟩ := value_onScale mid 0 hden
  have hnear : (onScale mid den 0).roundEven = s := by
    refine Ratio.roundEven_eq_of_value hscaleden ?_
    rwa [zpow_zero, mul_one, hmid] at hscale
  rw [hgrid, hnear, if_pos]
  exact fits_of_bounds hden (by rwa [zpow_zero, mul_one]) (by rwa [zpow_zero, mul_one])

/-- A whole number is found on the grid of whole numbers, if not on a coarser one. -/
theorem shortestFrom_whole {s : Nat} (hden : 0 < den) (hmid : (mid / den : ℚ) = s)
    (hlow : (s : ℚ) - 1 < low / den ∧ (low / den : ℚ) < s)
    (hhigh : (s : ℚ) < high / den ∧ (high : ℚ) / den < s + 1) (hq : 0 ≤ q) (hn : q ≤ n) :
    (shortestFrom low mid high den closed (n + 1) q).value = s := by
  induction n generalizing q with
  | zero =>
      obtain rfl : q = 0 := by omega
      rw [shortestFrom, onGrid_zero hden hmid hlow.2 hhigh.1]
      rw [Digits.value, zpow_zero, mul_one]
  | succ n ih =>
      rw [shortestFrom]
      split
      · rename_i d hd
        exact eq_of_onGrid hden hq hlow.1 hhigh.2 hd
      · rename_i hnone
        have hne : q ≠ 0 := by
          rintro rfl
          rw [onGrid_zero hden hmid hlow.2 hhigh.1] at hnone
          cases hnone
        exact ih (by omega) (by omega)

theorem leadingExponent_whole {r : Ratio} {s : Nat} (hden : 0 < r.den) (hvalue : r.value = s)
    (hs : s ≠ 0) (hsmall : s < 10 ^ 18) (fuel : Nat) :
    0 ≤ leadingExponent r fuel ∧ leadingExponent r fuel ≤ 17 := by
  have hnum : r.num = s * r.den := by
    rw [Ratio.value, div_eq_iff (Nat.cast_pos.2 hden).ne'] at hvalue
    exact_mod_cast hvalue
  have hlength : (decimal s).length ≠ 0 :=
    fun h => Nat.toDigits_ne_nil (List.length_eq_zero_iff.1 h)
  have hdigits : (decimal s).length ≤ 18 :=
    (Nat.length_toDigits_le_iff (by decide) (by decide)).2 hsmall
  have hle : r.den ≤ r.num := by
    rw [hnum]
    exact Nat.le_mul_of_pos_left _ (Nat.pos_of_ne_zero hs)
  rw [leadingExponent, if_pos hle, hnum, Nat.mul_div_cancel _ hden]
  omega

/-- A whole number whose last binary digit is worth one at most is written as it is. -/
theorem value_shortest_whole {m s : Nat} {e : Int} (hvalue : (m : ℚ) * 2 ^ e = s) (hs : s ≠ 0)
    (hsmall : s < 10 ^ 18) (he : e ≤ 0) : (shortest m e).value = s := by
  have hden : 0 < (Ratio.ofBinary 1 (e - 2)).den := Ratio.den_ofBinary_pos 1 _
  have hquarter := two_zpow_pos (e - 2)
  have hfourth : (2 : ℚ) ^ (e - 2) ≤ 1 / 4 :=
    (zpow_le_zpow_right₀ (by norm_num) (by omega : e - 2 ≤ -2)).trans (by norm_num)
  have hm : m ≠ 0 := by
    rintro rfl
    rw [Nat.cast_zero, zero_mul] at hvalue
    exact hs (Nat.cast_eq_zero.1 hvalue.symm)
  have hunit : ((4 * m : Nat) : ℚ) * 2 ^ (e - 2) = s := by
    rw [← hvalue, zpow_sub₀ (by norm_num)]
    push_cast
    ring
  obtain ⟨low, hnear, hfar, hshortest⟩ := exists_shortestFrom hm e
  have hnear : (low : ℚ) + 1 ≤ (4 * m : Nat) := by exact_mod_cast hnear
  have hfar : ((4 * m : Nat) : ℚ) ≤ low + 2 := by exact_mod_cast hfar
  have hhigh : ((4 * m + 2 : Nat) : ℚ) = (4 * m : Nat) + 2 := Nat.cast_add _ _
  obtain ⟨hk0, hk⟩ := @leadingExponent_whole
    ⟨4 * m * (Ratio.ofBinary 1 (e - 2)).num, (Ratio.ofBinary 1 (e - 2)).den⟩ s hden
    (by rw [Ratio.value, value_quarters, hunit]) hs hsmall 400
  rw [hshortest]
  refine shortestFrom_whole hden ?_ ?_ ?_ hk0 hk
  · rw [value_quarters, hunit]
  · rw [value_quarters]
    constructor <;> nlinarith
  · rw [value_quarters, hhigh]
    constructor <;> nlinarith

end DocWatch.Binary64
