import DocWatch.Proofs.Binary64.Decimal
import DocWatch.Series.Question
import DocWatch.Time.Timestamp

/-!
# What becomes of milliseconds

A number of seconds goes a long way until it is a parameter again. It is read as the nearest
floating-point number; what that has beyond a whole second is rounded twice, as a difference
and as a product, and a third time to whole nanoseconds; and the nanoseconds are cut off to
milliseconds. `Nearest` collects what the first step does to a number with up to three
decimals within the range of instants. The errors of the others are below `2 ^ (-22)`
nanoseconds together (`ofSeconds?_finite`), and no number comes so near to the half of a
nanosecond that they matter (`gap`).
-/

namespace DocWatch.Time.Instant

open Binary64 (signedNat leastExponent greatestExponent precision)

variable {negative : Bool} {m : Nat} {e : Int} {v q : ℚ}

/-! ## Reading a decimal number -/

theorem cast_signedNat (negative : Bool) (m : Nat) :
    (signedNat negative m : ℚ) = if negative then -(m : ℚ) else m := by
  cases negative <;> simp [signedNat]

/-- How far the nearest floating-point number can be from a number of seconds. -/
structure Nearest (v q : ℚ) : Prop where
  error : |q - v| ≤ 2 ^ (-11 : Int)
  error_of_small : |v| < 2 ^ (23 : Int) → |q - v| ≤ 2 ^ (-31 : Int)
  exact : (∃ i : Int, v = i * 2 ^ (-3 : Int)) → q = v
  multiple : 2 ^ (22 : Int) ≤ |v| → ∃ j : Int, q = j * 2 ^ (-31 : Int)

theorem Nearest.neg (h : Nearest v q) : Nearest (-v) (-q) where
  error := by
    rw [neg_sub_neg, abs_sub_comm]
    exact h.error
  error_of_small hsmall := by
    rw [neg_sub_neg, abs_sub_comm]
    exact h.error_of_small (by rwa [abs_neg] at hsmall)
  exact := by
    rintro ⟨i, hi⟩
    rw [h.exact ⟨-i, by rw [Int.cast_neg, neg_mul, ← hi, neg_neg]⟩]
  multiple hlarge := by
    obtain ⟨j, hj⟩ := h.multiple (by rwa [abs_neg] at hlarge)
    exact ⟨-j, by rw [hj, Int.cast_neg, neg_mul]⟩

/-- A fraction below `2 ^ 43` is rounded to a number that is near in this sense. -/
theorem exists_nearest {r : Binary64.Ratio} (negative : Bool) (hden : 0 < r.den)
    (h : r.value < 2 ^ (43 : Int)) :
    ∃ m e, Binary64.nearest negative r = .finite negative m e ∧
      Nearest r.value (m * 2 ^ e) := by
  have hpos : 0 ≤ r.value := div_nonneg (Nat.cast_nonneg _) (Nat.cast_nonneg _)
  have habs : |r.value| = r.value := abs_of_nonneg hpos
  obtain ⟨m, e, hm, herror⟩ := Binary64.nearest_error negative hden (by decide) (by decide) h
  have hsame : ∀ {m' e'}, Binary64.nearest negative r = .finite negative m' e' →
      (m' : ℚ) * 2 ^ e' = m * 2 ^ e := by
    intro m' e' h'
    rw [hm] at h'
    cases h'
    rfl
  refine ⟨m, e, hm, herror, fun hsmall => ?_, ?_, fun hlarge => ?_⟩
  · rw [habs] at hsmall
    obtain ⟨m', e', hm', herror'⟩ :=
      Binary64.nearest_error negative hden (by decide) (by decide) hsmall
    rw [hsame hm'] at herror'
    exact herror'
  · rintro ⟨i, hi⟩
    have hi0 : (0 : Int) ≤ i := by
      rw [hi] at hpos
      exact_mod_cast (mul_nonneg_iff_of_pos_right (Binary64.two_zpow_pos (-3))).1 hpos
    obtain ⟨n, rfl⟩ := Int.eq_ofNat_of_zero_le hi0
    obtain ⟨m', e', hm', hexact⟩ := Binary64.nearest_exact negative (e := -3) hden (by decide)
      (by decide) hi (h.trans (by norm_num [precision]))
    rw [← hsame hm', hexact]
  · rw [habs] at hlarge
    have hexp : Binary64.exponentFor r < greatestExponent := by
      have hnum := Binary64.Ratio.num_ne_zero ((Binary64.two_zpow_pos 22).trans_le hlarge)
      exact lt_of_le_of_lt (Binary64.exponentFor_le hden hnum (by decide) h) (by decide)
    obtain ⟨m', e', n, hm', hmultiple⟩ := Binary64.nearest_multiple negative hden hexp hlarge
    refine ⟨n, ?_⟩
    rw [← hsame hm', hmultiple]
    norm_num [precision]

/-- The digits of a number as a fraction. -/
def fractionOf (d : Decimal) : Binary64.Ratio :=
  ⟨Text.digitsValue d.digits, Nat.pow 10 d.places⟩

theorem den_fractionOf_pos (d : Decimal) : 0 < (fractionOf d).den :=
  Nat.pow_pos (by decide)

theorem value_eq (d : Decimal) :
    d.value = if d.sign.isNegative then -(fractionOf d).value else (fractionOf d).value := by
  rw [Decimal.value, cast_signedNat, Binary64.Ratio.value, fractionOf, Nat.pow_eq, Nat.cast_pow,
    Nat.cast_ofNat]
  cases d.sign.isNegative with
  | false => rfl
  | true => exact neg_div _ _

theorem abs_value (d : Decimal) : |d.value| = (fractionOf d).value := by
  have hpos : 0 ≤ (fractionOf d).value := div_nonneg (Nat.cast_nonneg _) (Nat.cast_nonneg _)
  rw [value_eq]
  cases d.sign.isNegative with
  | false => exact abs_of_nonneg hpos
  | true => rw [if_pos rfl, abs_neg, abs_of_nonneg hpos]

/-- Digits with up to three of them behind the point are within the exponents that are read. -/
theorem read?_eq_nearest {d : Decimal} (hplaces : d.places ≤ 3) (h : |d.value| < 2 ^ (43 : Int)) :
    Binary64.read? d.text = some (Binary64.nearest d.sign.isNegative (fractionOf d)) := by
  have hpow : Nat.pow 10 d.places ≤ 1000 := Nat.pow_le_pow_right (by decide) hplaces
  have hdigits : Text.digitsValue d.digits < 10 ^ 16 := by
    have hden : (0 : ℚ) < (fractionOf d).den := Nat.cast_pos.2 (den_fractionOf_pos d)
    rw [abs_value, Binary64.Ratio.value, div_lt_iff₀ hden] at h
    have hle : ((fractionOf d).den : ℚ) ≤ 1000 := by exact_mod_cast hpow
    have hlt : (Text.digitsValue d.digits : ℚ) < 10 ^ 16 := by
      refine lt_of_lt_of_le h ?_
      have : (2 : ℚ) ^ (43 : Int) * (fractionOf d).den ≤ 2 ^ (43 : Int) * 1000 := by gcongr
      exact this.trans (by norm_num)
    exact_mod_cast hlt
  have hsize : (Nat.toDigits 10 (Text.digitsValue d.digits)).length ≤ 16 :=
    (Nat.length_toDigits_le_iff (by decide) (by decide)).2 hdigits
  rw [d.read?_text, Binary64.ofDecimal, fractionOf]
  generalize Text.digitsValue d.digits = n at hsize ⊢
  by_cases hzero : n = 0
  · rw [hzero, if_pos (.inl rfl), Binary64.nearest_of_zero rfl]
  · have hlow : ¬ (n = 0 ∨ ((Nat.toDigits 10 n).length : Int) + -(d.places : Int) < -330) := by
      rw [not_or]
      exact ⟨hzero, by omega⟩
    have hhigh : ¬ (310 < ((Nat.toDigits 10 n).length : Int) + -(d.places : Int)) := by omega
    rw [if_neg hlow, if_neg hhigh]
    split
    · rename_i hwhole
      have hnone : d.places = 0 := by omega
      rw [hnone]
      change some (Binary64.nearest _ ⟨n * 1, 1⟩) = _
      rw [Nat.mul_one]
    · rw [Int.neg_neg, Int.toNat_natCast]

theorem exists_read? {d : Decimal} (hplaces : d.places ≤ 3) (h : |d.value| < 2 ^ (43 : Int)) :
    ∃ m e, Binary64.read? d.text = some (.finite d.sign.isNegative m e) ∧
      Nearest d.value (signedNat d.sign.isNegative m * 2 ^ e) := by
  have hden := den_fractionOf_pos d
  obtain ⟨m, e, hm, hnear⟩ := exists_nearest d.sign.isNegative hden (by rwa [← abs_value])
  refine ⟨m, e, by rw [read?_eq_nearest hplaces h, hm], ?_⟩
  rw [value_eq, cast_signedNat]
  cases d.sign.isNegative with
  | false => exact hnear
  | true =>
      rw [if_pos rfl, if_pos rfl, neg_mul]
      exact hnear.neg

/-! ## From a number of seconds to an instant -/

theorem wholeSeconds_eq {r : Binary64.Ratio} (negative : Bool) (h : 0 < r.den) :
    wholeSeconds negative r = ⌊if negative then -r.value else r.value⌋ := by
  rw [wholeSeconds]
  cases negative with
  | false => exact Binary64.Ratio.floor_eq r
  | true =>
      rw [if_pos rfl, if_pos rfl, Int.floor_neg, Binary64.Ratio.ceil_eq h]

theorem value_beyondSeconds {r : Binary64.Ratio} (negative : Bool) (h : 0 < r.den) :
    (if negative then r.below else r.beyond).value =
      Int.fract (if negative then -r.value else r.value) := by
  cases negative with
  | false => exact Binary64.Ratio.value_beyond h
  | true => exact Binary64.Ratio.value_below h

/-- What all roundings together add to the part of a second, in nanoseconds. -/
def slack : ℚ := 1000000000 * 2 ^ (-54 : Int) + 2 ^ (-23 : Int)

/-- The nanoseconds that a number has beyond a whole second, with two roundings. -/
theorem nanoseconds_error {r : Binary64.Ratio} (negative : Bool) (h : 0 < r.den) :
    |(Binary64.rounded ((beyondSeconds negative r).scale 1000000000)).value -
      Int.fract (if negative then -r.value else r.value) * 1000000000| ≤ slack := by
  have hpart := value_beyondSeconds negative h
  have hlt := Int.fract_lt_one (if negative then -r.value else r.value)
  generalize Int.fract (if negative then -r.value else r.value) = part at hpart hlt ⊢
  have hpartDen : 0 < (if negative then r.below else r.beyond).den := by
    cases negative <;> exact h
  have hdifference : |(beyondSeconds negative r).value - part| ≤ 2 ^ (-54 : Int) := by
    have := Binary64.rounded_error hpartDen (k := 0) (by decide) (by decide)
      (by rwa [hpart, zpow_zero])
    rwa [hpart] at this
  have hscaled : ((beyondSeconds negative r).scale 1000000000).value =
      (beyondSeconds negative r).value * 1000000000 := by
    rw [Binary64.Ratio.value_scale, Nat.cast_ofNat]
  have hsmall : ((beyondSeconds negative r).scale 1000000000).value < 2 ^ (31 : Int) := by
    have := (abs_le.1 hdifference).2
    rw [hscaled]
    norm_num at this ⊢
    linarith
  have hproduct : |(Binary64.rounded ((beyondSeconds negative r).scale 1000000000)).value -
      (beyondSeconds negative r).value * 1000000000| ≤ 2 ^ (-23 : Int) := by
    have := Binary64.rounded_error (r := (beyondSeconds negative r).scale 1000000000)
      (Binary64.den_rounded_pos _) (by decide) (by decide) hsmall
    rwa [hscaled] at this
  rw [abs_le] at hdifference hproduct ⊢
  rw [slack]
  constructor
  · linarith [hdifference.1, hproduct.1]
  · linarith [hdifference.2, hproduct.2]

/-- A number of seconds becomes an instant whose nanoseconds are nearly the ones that the
number has beyond a whole second, rounded. -/
theorem ofSeconds?_finite (hq : q = signedNat negative m * 2 ^ e) (hrange : inRange ⌊q⌋ = true) :
    ∃ p : ℚ, |p - Int.fract q * 1000000000| ≤ slack ∧
      ofSeconds? (.finite negative m e) = some ⟨⌊q⌋, min ⌊p + 1 / 2⌋.toNat 999999999⟩ := by
  have hden := Binary64.Ratio.den_ofBinary_pos m e
  have hvalue : q = if negative then -(Binary64.Ratio.ofBinary m e).value
      else (Binary64.Ratio.ofBinary m e).value := by
    rw [hq, Binary64.Ratio.value_ofBinary, cast_signedNat]
    cases negative with
    | false => rfl
    | true => exact neg_mul _ _
  have hwhole := wholeSeconds_eq negative hden
  have herror := nanoseconds_error negative hden
  rw [← hvalue] at hwhole herror
  refine ⟨_, herror, ?_⟩
  rw [ofSeconds?, ← Binary64.Ratio.roundUp_eq (Binary64.den_rounded_pos _), Int.toNat_natCast]
  simp only [hwhole, hrange, if_true]

/-! ## The milliseconds that are left -/

/-- No number comes so near to half a nanosecond that the slack could decide. -/
theorem gap {k : Int} (h : Nearest (k / 1000) q) :
    (2 : ℚ) ^ (-22 : Int) ≤ |(k / 1000 - q) * 1000000000 - 1 / 2| := by
  by_cases hsmall : |(k / 1000 : ℚ)| < 2 ^ (23 : Int)
  · -- the error is less than half a nanosecond
    have := (abs_le.1 (h.error_of_small hsmall)).1
    rw [abs_sub_comm]
    refine le_trans ?_ (le_abs_self _)
    norm_num at this ⊢
    linarith
  · obtain ⟨j, hj⟩ := h.multiple (le_trans (by norm_num) (not_lt.1 hsmall))
    have hunits : (k / 1000 - q) * 1000000000 - 1 / 2 =
        ((2 ^ 22 * 1000000 * k - 5 ^ 9 * j - 2 ^ 21 : Int) : ℚ) * 2 ^ (-22 : Int) := by
      rw [hj]
      push_cast
      norm_num
      ring
    -- five divides the first two of these terms, but not the last one
    have hne : (2 ^ 22 * 1000000 * k - 5 ^ 9 * j - 2 ^ 21 : Int) ≠ 0 := by omega
    rw [hunits, abs_mul, abs_of_pos (Binary64.two_zpow_pos _)]
    refine le_mul_of_one_le_left (Binary64.two_zpow_pos _).le ?_
    exact_mod_cast Int.one_le_abs hne

theorem eq_of_whole {k : Int} (h : Nearest (k / 1000) q) (hwhole : k % 1000 = 0) :
    q = k / 1000 := by
  refine h.exact ⟨8 * (k / 1000), ?_⟩
  have hsplit : (k : ℚ) = 1000 * (k / 1000 : Int) := by
    exact_mod_cast (by omega : k = 1000 * (k / 1000))
  rw [hsplit, mul_div_cancel_left₀ _ (by norm_num)]
  push_cast
  ring

/-- The floating-point number lies in the same second. -/
theorem floor_of_nearest {k : Int} (h : Nearest (k / 1000) q) : ⌊q⌋ = k / 1000 := by
  have hsplit : (k : ℚ) = 1000 * (k / 1000 : Int) + (k % 1000 : Int) := by
    exact_mod_cast (Int.mul_ediv_add_emod k 1000).symm
  by_cases hwhole : k % 1000 = 0
  · rw [eq_of_whole h hwhole, hsplit, hwhole, Int.cast_zero, add_zero,
      mul_div_cancel_left₀ _ (by norm_num), Int.floor_intCast]
  · have hlow : (1 : ℚ) ≤ (k % 1000 : Int) := by exact_mod_cast (by omega : 1 ≤ k % 1000)
    have hhigh : ((k % 1000 : Int) : ℚ) ≤ 999 := by exact_mod_cast (by omega : k % 1000 ≤ 999)
    obtain ⟨hleft, hright⟩ := abs_le.1 h.error
    rw [hsplit] at hleft hright
    norm_num at hleft hright
    rw [Int.floor_eq_iff]
    constructor <;> linarith

/-- The milliseconds of nanoseconds that are bounded by the second. -/
theorem millis_eq {second j n : Int} (hj : 0 ≤ j ∧ j < 1000) (hlow : j * 1000000 ≤ n)
    (hhigh : n < (j + 1) * 1000000) :
    millis ⟨second, min n.toNat 999999999⟩ = 1000 * second + j := by
  rw [millis]
  dsimp only
  omega

/-- The nanoseconds against the ones that the number has as it is written. -/
theorem nanoseconds_near {k : Int} {p : ℚ} (h : Nearest (k / 1000) q)
    (hp : |p - Int.fract q * 1000000000| ≤ slack) :
    |p - ((k % 1000 : Int) * 1000000 - (k / 1000 - q) * 1000000000)| ≤ slack := by
  have hsplit : (k : ℚ) = 1000 * (k / 1000 : Int) + (k % 1000 : Int) := by
    exact_mod_cast (Int.mul_ediv_add_emod k 1000).symm
  rw [Int.fract, floor_of_nearest h] at hp
  convert hp using 3
  rw [hsplit]
  ring

/-- Cutting off leaves the milliseconds as they were, or one less if the floating-point
number is too far below. -/
theorem millis_of_nearest {k : Int} {p : ℚ} (h : Nearest (k / 1000) q)
    (hp : |p - Int.fract q * 1000000000| ≤ slack) :
    millis ⟨⌊q⌋, min ⌊p + 1 / 2⌋.toNat 999999999⟩ =
      if k / 1000 - q ≤ 1 / 2000000000 then k else k - 1 := by
  have hgap := gap h
  have hwhole := @eq_of_whole q k h
  have hrest : 0 ≤ k % 1000 ∧ k % 1000 < 1000 :=
    ⟨Int.emod_nonneg k (by decide), Int.emod_lt_of_pos k (by decide)⟩
  obtain ⟨herrorLow, herrorHigh⟩ := abs_le.1 h.error
  obtain ⟨hnearLow, hnearHigh⟩ := abs_le.1 (nanoseconds_near h hp)
  have hslack : slack < 2 ^ (-22 : Int) := by norm_num [slack]
  norm_num at herrorLow herrorHigh hgap hslack
  rw [floor_of_nearest h]
  split
  · rename_i hkept
    rw [abs_of_nonpos (by linarith)] at hgap
    rw [millis_eq hrest, Int.mul_ediv_add_emod]
    · rw [Int.le_floor]
      push_cast
      linarith
    · rw [Int.floor_lt]
      push_cast
      linarith
  · rename_i hlost
    rw [not_le] at hlost
    have hne : k % 1000 ≠ 0 := by
      intro hzero
      rw [hwhole hzero, sub_self] at hlost
      norm_num at hlost
    rw [abs_of_nonneg (by linarith)] at hgap
    rw [@millis_eq _ (k % 1000 - 1) _ (by omega)]
    · omega
    · rw [Int.le_floor]
      push_cast
      linarith
    · rw [Int.floor_lt]
      push_cast
      linarith

/-! ## Milliseconds as text -/

/-- An instant that a clock can show. -/
def Representable (t : Instant) : Prop :=
  inRange t.seconds = true ∧ t.nanos < 2000000000

theorem Representable.natAbs_millis_lt {t : Instant} (h : t.Representable) :
    t.millis.natAbs < 1000 * 8796093022208 := by
  obtain ⟨hrange, hnanos⟩ := h
  rw [inRange, Bool.and_eq_true] at hrange
  have hlow : -8334601228800 ≤ t.seconds := of_decide_eq_true hrange.1
  have hhigh : t.seconds ≤ 8210266876799 := of_decide_eq_true hrange.2
  rw [millis]
  omega

theorem denotes_millisText (n : Int) : Denotes (Series.millisText n).toList (n / 1000) := by
  have hsign : (signedNat (decide (n < 0)) n.natAbs : ℚ) = n := by
    rw [cast_signedNat, Nat.cast_natAbs]
    split
    · rename_i hneg
      rw [abs_of_neg (of_decide_eq_true hneg)]
      push_cast
      ring
    · rename_i hpos
      rw [abs_of_nonneg (not_lt.1 fun h => hpos (decide_eq_true h))]
  have h := denotes_withPoint (decide (n < 0)) 3 n.natAbs (by decide)
  rw [hsign] at h
  rw [Series.millisText, String.toList_ofList]
  norm_num at h
  exact h

/-- Milliseconds are written as if they were divided by a thousand in floating point, and the
quotient rounded to three decimals. -/
theorem millisText_eq_fixed {n : Int} (h : n.natAbs < 1000 * 8796093022208) :
    Series.millisText n = ((Binary64.ofInt n).div (.ofNat 1000)).fixed 3 := by
  obtain ⟨m, e, hquotient, herror⟩ := Binary64.thousandths_error h
  have hscaled : ((Binary64.Ratio.ofBinary m e).scale (Nat.pow 10 3)).value = m * 2 ^ e * 1000 := by
    rw [Binary64.Ratio.value_scale, Binary64.Ratio.value_ofBinary]
    norm_num
  have hround := Binary64.Ratio.roundEven_error
    (r := (Binary64.Ratio.ofBinary m e).scale (Nat.pow 10 3)) (Binary64.Ratio.den_ofBinary_pos m e)
  have hunits : ((Binary64.Ratio.ofBinary m e).scale (Nat.pow 10 3)).roundEven = n.natAbs := by
    generalize ((Binary64.Ratio.ofBinary m e).scale (Nat.pow 10 3)).roundEven = units at hround ⊢
    generalize n.natAbs = millis at herror ⊢
    rw [hscaled, abs_le] at hround
    rw [abs_le] at herror
    norm_num at herror
    have hlow : (units : ℚ) < (millis + 1 : Nat) := by
      push_cast
      linarith
    have hhigh : (millis : ℚ) < (units + 1 : Nat) := by
      push_cast
      linarith
    have := Nat.cast_lt.1 hlow
    have := Nat.cast_lt.1 hhigh
    omega
  rw [hquotient, Binary64.fixed, hunits]
  rfl

end DocWatch.Time.Instant
