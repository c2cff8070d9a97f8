import DocWatch.Proofs.Binary64.Crossing
import DocWatch.Proofs.Time.Elapsed
import DocWatch.Proofs.Time.Representable
import DocWatch.Proofs.Tool.Step

/-!
# The step that a range gets by itself

A range without a step is divided into about 250 pieces of whole seconds. With nothing rounded,
the step is the whole part of a 250th of the range, but a second at least (`exactStep_eq`), and
`default_step_suits` says what follows: 250 steps are not longer than the range unless they are
seconds, 500 steps are longer than it, and a longer range never gets a smaller step.

The arithmetic at hand rounds three times, and hardly ever does it matter. A whole quotient is a
floating-point number, so rounding neither passes it nor, as long as a thousandth of a second
counts, reaches it from below. That is so for every range of milliseconds that are a
floating-point number themselves. Beyond `2 ^ 53` milliseconds odd ones are not, and if only
one of them lacks to a multiple of 250 seconds, it is added: then the step is greater by one
(`carry`), and no other step ever differs (`stepSeconds_rounded`). A range is nowhere near long
enough for the thousandth of a second to be lost.
-/

namespace DocWatch.Tool

open Time
open Binary64 (Ratio rounded precision)

variable {params : Json} {published : Published} {now first last : Instant} {millis n : Nat}

/-! ## In exact arithmetic -/

/-- The seconds of the step that a range gets by itself, with nothing rounded. -/
def exactStep (first last : Instant) : Nat :=
  stepSeconds id (last.millisSince first).toNat

theorem stepSeconds_id (millis : Nat) : stepSeconds id millis = max 1 (millis / 250000) := by
  have hpieces : 1 * 1000 * rangePieces = 250000 := by decide
  change max 1 (millis / (1 * 1000 * rangePieces)) = _
  rw [hpieces]

theorem exactStep_eq (first last : Instant) :
    (exactStep first last : Int) = max 1 ⌊last.elapsed first / 250⌋ := by
  have hdiv := Instant.millisSince_div last first 250
  rw [Nat.cast_ofNat] at hdiv
  rw [exactStep, stepSeconds_id, Nat.cast_max, hdiv, Nat.cast_one, ← max_assoc,
    max_eq_left (by decide : (0 : Int) ≤ 1)]

/-- A step of whole seconds suits a range: it is not finer than a second, and the range is
shorter than 500 of it. By the seconds since the beginning of 1970, by which a leap second is not
counted as the range counts it, there are never more than 500 steps from its start to its end. -/
structure Suits (first last : Instant) (step : Nat) : Prop where
  whole : 1 ≤ step
  coarse : last.elapsed first < 500 * step
  intervals : ⌊(last.unix - first.unix) / step⌋ ≤ 500

theorem Suits.of_lt {step : Nat} (hwhole : 1 ≤ step)
    (h : last.elapsed first < 250 * (step + 1)) : Suits first last step := by
  have hstep : (1 : ℚ) ≤ step := by exact_mod_cast hwhole
  refine ⟨hwhole, by linarith, ?_⟩
  have hleap := (abs_le.1 (Instant.abs_leap_le last first)).1
  rw [Instant.elapsed] at h
  rw [← Int.lt_add_one_iff, Int.floor_lt, div_lt_iff₀ (by linarith)]
  push_cast
  linarith

theorem Suits.mono {step step' : Nat} (h : Suits first last step) (hle : step ≤ step') :
    Suits first last step' := by
  have hstep : (1 : ℚ) ≤ step := by exact_mod_cast h.whole
  have hcast : (step : ℚ) ≤ step' := by exact_mod_cast hle
  refine ⟨h.whole.trans hle, by linarith [h.coarse], ?_⟩
  have hbelow := h.intervals
  rw [← Int.lt_add_one_iff, Int.floor_lt, div_lt_iff₀ (by linarith)] at hbelow ⊢
  push_cast at hbelow ⊢
  nlinarith

theorem suits_exactStep (first last : Instant) : Suits first last (exactStep first last) := by
  have hstep := exactStep_eq first last
  have hfloor := Int.lt_floor_add_one (last.elapsed first / 250)
  have hle : ((⌊last.elapsed first / 250⌋ : Int) : ℚ) ≤ exactStep first last := by
    exact_mod_cast hstep ▸ le_max_right _ _
  refine Suits.of_lt (one_le_stepSeconds id _) ?_
  rw [div_lt_iff₀ (by norm_num)] at hfloor
  linarith

theorem exactStep_le (first last : Instant) :
    250 * (exactStep first last : ℚ) ≤ max (last.elapsed first) 250 := by
  have hstep := exactStep_eq first last
  rcases max_cases 1 ⌊last.elapsed first / 250⌋ with ⟨hmax, -⟩ | ⟨hmax, -⟩ <;> rw [hmax] at hstep
  · have hone : (exactStep first last : ℚ) = 1 := by exact_mod_cast hstep
    rw [hone, mul_one]
    exact le_max_right _ _
  · have hfloor := Int.floor_le (last.elapsed first / 250)
    rw [← hstep, Int.cast_natCast, le_div_iff₀ (by norm_num)] at hfloor
    exact (mul_comm _ _).trans_le (hfloor.trans (le_max_left _ _))

theorem exactStep_mono {first' last' : Instant} (h : last.elapsed first ≤ last'.elapsed first') :
    exactStep first last ≤ exactStep first' last' := by
  have hfloor : ⌊last.elapsed first / 250⌋ ≤ ⌊last'.elapsed first' / 250⌋ :=
    Int.floor_mono (div_le_div_of_nonneg_right h (by norm_num))
  have hmax := max_le_max (le_refl 1) hfloor
  rw [← exactStep_eq, ← exactStep_eq] at hmax
  exact_mod_cast hmax

/-! ## As it is computed -/

/-- A 250th of milliseconds in seconds, with both divisions rounded. -/
def quotient (r : Ratio) : Ratio :=
  rounded ((rounded (r.dividedBy 1000)).dividedBy rangePieces)

theorem stepSeconds_eq (millis : Nat) :
    stepSeconds rounded millis = max 1 (quotient (rounded (.ofNat millis))).floor :=
  rfl

theorem den_dividedBy_pos {r : Ratio} {k : Nat} (hden : 0 < r.den) (hk : 0 < k) :
    0 < (r.dividedBy k).den :=
  Nat.mul_pos hden hk

theorem le_floor_quotient {r : Ratio} (hden : 0 < r.den) (hhigh : r.value < 2 ^ (precision + 1))
    (h : 250000 * (n : ℚ) ≤ r.value) : n ≤ (quotient r).floor := by
  have hseconds := Binary64.den_rounded_pos (r.dividedBy 1000)
  have hsmall : (r.dividedBy 1000).value < 2 ^ precision := by
    rw [Ratio.value_dividedBy, Nat.cast_ofNat, div_lt_iff₀ (by norm_num)]
    norm_num [precision] at hhigh ⊢
    linarith
  have hlow : ((250 * n : Nat) : ℚ) ≤ (rounded (r.dividedBy 1000)).value := by
    refine Binary64.le_rounded_whole (den_dividedBy_pos hden (by decide)) hsmall ?_
    rw [Ratio.value_dividedBy, Nat.cast_ofNat, le_div_iff₀ (by norm_num)]
    push_cast
    linarith
  have hbound : (rounded (r.dividedBy 1000)).value ≤ (2 ^ precision : Nat) := by
    refine Binary64.rounded_le_whole (den_dividedBy_pos hden (by decide)) hsmall ?_
    exact_mod_cast hsmall.le
  have hpiece : (n : ℚ) ≤ (quotient r).value := by
    refine Binary64.le_rounded_whole (den_dividedBy_pos hseconds (by decide)) ?_ ?_
    · rw [Ratio.value_dividedBy, div_lt_iff₀ (by norm_num [rangePieces])]
      norm_num [precision, rangePieces] at hbound ⊢
      linarith
    · rw [Ratio.value_dividedBy, le_div_iff₀ (by norm_num [rangePieces])]
      push_cast [rangePieces] at hlow ⊢
      linarith
  have hfloor : (n : Int) ≤ (quotient r).floor := by
    rw [Ratio.floor_eq, Int.le_floor, Int.cast_natCast]
    exact hpiece
  exact_mod_cast hfloor

/-- One millisecond is not lost: it is more than half a unit of the seconds, and these stay a
unit below, of which a 250th is more than half a unit again. -/
theorem floor_quotient_lt {r : Ratio} (hden : 0 < r.den) (hn : 0 < n) (hmax : 250 * n ≤ 2 ^ 44)
    (h : r.value ≤ 250000 * n - 1) : (quotient r).floor < n := by
  have hseconds := Binary64.den_rounded_pos (r.dividedBy 1000)
  obtain ⟨j, hlow, hhigh⟩ := Binary64.exists_places (n := 250 * n) (by omega)
    (hmax.trans (by decide))
  obtain ⟨i, hlow', hhigh'⟩ := Binary64.exists_places hn ((by omega : n ≤ 2 ^ 44).trans (by decide))
  -- The seconds have 44 binary digits at most, and leave nine of 53 behind the point.
  have hj : (512 : ℚ) ≤ 2 ^ j := by
    have hnat : 2 ^ 8 < 2 ^ j := by
      have hle : 250 * n * 2 ^ j ≤ 2 ^ 44 * 2 ^ j := by gcongr
      exact Nat.lt_of_mul_lt_mul_left (a := 2 ^ 44) (by simp only [precision] at hlow; omega)
    have hnine : 9 ≤ j := (Nat.pow_lt_pow_iff_right (by decide)).1 hnat
    calc (512 : ℚ) = 2 ^ 9 := by norm_num
      _ ≤ 2 ^ j := pow_le_pow_right₀ (by norm_num) hnine
  -- The pieces fill their digits as well, so their unit is less than two 250ths of the other.
  have hi : (250 : ℚ) * 2 ^ j < 2 * 2 ^ i := by
    have hnat : n * (250 * 2 ^ j) < n * (2 * 2 ^ i) := by
      have hdouble : 2 ^ precision = 2 * 2 ^ (precision - 1) := by decide
      calc n * (250 * 2 ^ j) = 250 * n * 2 ^ j := by ring
        _ ≤ 2 * 2 ^ (precision - 1) := hhigh.trans hdouble.le
        _ < 2 * (n * 2 ^ i) := by omega
        _ = n * (2 * 2 ^ i) := by ring
    exact_mod_cast Nat.lt_of_mul_lt_mul_left hnat
  have hfirst : (rounded (r.dividedBy 1000)).value ≤ (250 * n : Nat) - 1 / 2 ^ j := by
    refine Binary64.rounded_le_sub (den_dividedBy_pos hden (by decide)) hlow hhigh ?_
    have hunit : (1 : ℚ) / 2 ^ j ≤ 1 / 512 := one_div_le_one_div_of_le (by norm_num) hj
    rw [Ratio.value_dividedBy, Nat.cast_ofNat, div_lt_iff₀ (by norm_num)]
    push_cast
    linarith
  have hsecond : (quotient r).value ≤ n - 1 / 2 ^ i := by
    refine Binary64.rounded_le_sub (den_dividedBy_pos hseconds (by decide)) hlow' hhigh' ?_
    have hunit : (1 : ℚ) / 2 ^ i * 125 < 1 / 2 ^ j := by
      rw [div_mul_eq_mul_div, div_lt_div_iff₀ (by positivity) (by positivity)]
      linarith
    rw [Ratio.value_dividedBy, div_lt_iff₀ (by norm_num [rangePieces])]
    push_cast [rangePieces] at hfirst ⊢
    linarith
  have hpositive : (0 : ℚ) < 1 / 2 ^ i := by positivity
  have hfloor : ((quotient r).floor : Int) < n := by
    rw [Ratio.floor_eq, Int.floor_lt, Int.cast_natCast]
    linarith
  exact_mod_cast hfloor

/-- What rounding adds to the step of a range of milliseconds: a second if they have more than 53
binary digits and are one short of a multiple of 250 seconds, and nothing otherwise. -/
def carry (millis : Nat) : Nat :=
  if 2 ^ precision < millis ∧ 250000 ∣ millis + 1 then 1 else 0

theorem carry_cases (millis : Nat) :
    carry millis = 0 ∧ (2 ^ precision < millis → ¬ 250000 ∣ millis + 1) ∨
      carry millis = 1 ∧ 2 ^ precision < millis ∧ 250000 ∣ millis + 1 := by
  rw [carry]
  split
  · rename_i h
    exact .inr ⟨rfl, h⟩
  · rename_i h
    exact .inl ⟨rfl, not_and.1 h⟩

/-- Rounding does not take milliseconds past the multiples of 250 seconds next to them, and only
what carries reaches the one above. -/
theorem rounded_ofNat_bounds (h : millis < 2 ^ (precision + 1)) :
    250000 * ((millis / 250000 + carry millis : Nat) : ℚ) ≤ (rounded (.ofNat millis)).value ∧
      (rounded (.ofNat millis)).value ≤
        250000 * (millis / 250000 + carry millis + 1 : Nat) - 1 := by
  have hvalue := Ratio.value_ofNat millis
  have hbelow : (Ratio.ofNat millis).value < 2 ^ (1 + precision : Int) := by
    rw [hvalue, add_comm]
    exact_mod_cast h
  rcases carry_cases millis with ⟨hcarry, hkept⟩ | ⟨hcarry, hlarge, hodd⟩ <;> rw [hcarry]
  · constructor
    · have heven : 250000 * ((millis / 250000 + 0 : Nat) : ℚ) =
          (125000 * (millis / 250000) : Nat) * 2 ^ (1 : Int) := by
        push_cast
        ring
      rw [heven]
      refine Binary64.le_rounded Nat.one_pos (by decide) (by decide) hbelow ?_
      rw [hvalue, ← heven]
      exact_mod_cast Nat.mul_div_le millis 250000
    · rw [le_sub_iff_add_le]
      by_cases hsmall : millis < 2 ^ precision
      · have hle : (rounded (.ofNat millis)).value ≤ millis :=
          Binary64.rounded_le_whole Nat.one_pos (by rw [hvalue]; exact_mod_cast hsmall) hvalue.le
        have hnext : (millis : ℚ) + 1 ≤ 250000 * (millis / 250000 + 0 + 1 : Nat) := by
          exact_mod_cast (by omega : millis + 1 ≤ 250000 * (millis / 250000 + 0 + 1))
        linarith
      · -- an odd number becomes one of the even numbers next to it
        have hle : (rounded (.ofNat millis)).value ≤ ((millis + 1) / 2 : Nat) * 2 ^ (1 : Int) := by
          refine Binary64.rounded_le Nat.one_pos (by decide) (by decide) hbelow ?_
          rw [hvalue, zpow_one]
          exact_mod_cast (by omega : millis ≤ (millis + 1) / 2 * 2)
        have hnext : (((millis + 1) / 2 : Nat) : ℚ) * 2 + 1 ≤
            250000 * (millis / 250000 + 0 + 1 : Nat) := by
          have hnat : (millis + 1) / 2 * 2 + 1 ≤ 250000 * (millis / 250000 + 0 + 1) := by
            simp only [precision] at hsmall hkept
            omega
          exact_mod_cast hnat
        rw [zpow_one] at hle
        linarith
  · have hup : (rounded (.ofNat millis)).value = 250000 * (millis / 250000 + 1 : Nat) := by
      rw [Binary64.rounded_midway hlarge.le h (by omega)]
      exact_mod_cast (by omega : millis + 1 = 250000 * (millis / 250000 + 1))
    rw [hup]
    push_cast
    constructor <;> linarith

/-- Rounding makes no difference to the step, but for what it carries. -/
theorem stepSeconds_rounded (h : millis ≤ 16544868105602000) :
    stepSeconds rounded millis = stepSeconds id millis + carry millis := by
  have hden := Binary64.den_rounded_pos (.ofNat millis)
  obtain ⟨hlow, hhigh⟩ := rounded_ofNat_bounds (lt_of_le_of_lt h (by decide))
  have hpieces : millis / 250000 + carry millis + 1 ≤ 66179472424 := by
    rcases carry_cases millis with ⟨hcarry, -⟩ | ⟨hcarry, -⟩ <;> omega
  have hbelow : (rounded (.ofNat millis)).value < 2 ^ (precision + 1) := by
    have hcast : ((millis / 250000 + carry millis + 1 : Nat) : ℚ) ≤ 66179472424 := by
      exact_mod_cast hpieces
    norm_num [precision]
    linarith
  have hge := le_floor_quotient hden hbelow hlow
  have hlt := floor_quotient_lt hden (Nat.succ_pos _) (by omega) hhigh
  rw [stepSeconds_eq, stepSeconds_id, Nat.le_antisymm (Nat.lt_succ_iff.1 hlt) hge]
  rcases carry_cases millis with ⟨hcarry, -⟩ | ⟨hcarry, hlarge, -⟩
  · rw [hcarry, Nat.add_zero, Nat.add_zero]
  · have hone : 1 ≤ millis / 250000 := by
      simp only [precision] at hlarge
      omega
    rw [max_eq_right hone, max_eq_right (hone.trans (Nat.le_add_right _ _))]

example : [300000, 3600000, 86400000].map (stepSeconds rounded) = [1, 14, 345] := by
  decide +kernel

/-! ## As it is sent -/

theorem exists_toSeconds_whole (hn : n ≠ 0) (hsmall : n < 2 ^ 52) :
    ∃ m e, Span.toSeconds ⟨n, 0⟩ = .finite false m e ∧ (m : ℚ) * 2 ^ e = n ∧ e ≤ 0 := by
  obtain ⟨m, e, hm, hvalue⟩ := Binary64.nearest_ofNat false (hsmall.trans (by decide))
  have hfraction : (Binary64.ofNat 0).div (.ofNat 1000000000) =
      .finite false 0 Binary64.leastExponent := by decide +kernel
  obtain ⟨r, hden, hr, hsum⟩ := @Binary64.add_eq m 0 e Binary64.leastExponent
  rw [hvalue, Nat.cast_zero, zero_mul, add_zero] at hr
  rw [Span.toSeconds, hfraction, Binary64.ofNat, hm, hsum]
  exact Binary64.nearest_whole hden hn hsmall hr

theorem denotes_stepText_whole (hn : n ≠ 0) (hsmall : n < 2 ^ 52) :
    Denotes (Series.stepText ⟨n, 0⟩).toList n := by
  obtain ⟨m, e, hseconds, hvalue, he⟩ := exists_toSeconds_whole hn hsmall
  have hwritten := Binary64.value_shortest_whole hvalue hn (hsmall.trans (by decide)) he
  have hdenotes := (Binary64.shortest m e).denotes_positional
  rw [hwritten] at hdenotes
  rw [Series.stepText, hseconds, Binary64.plain, String.toList_ofList]
  exact hdenotes

/-! ## Calls without a step -/

theorem representable_of_instant? {key : String} {t : Instant}
    (h : instant? params key = .ok (some t)) : t.Representable := by
  rw [instant?] at h
  split at h
  · cases h
  · rename_i s _
    cases hparse : Instant.parse s with
    | error cause =>
        rw [hparse] at h
        cases h
    | ok t' =>
        rw [hparse] at h
        cases h
        exact Instant.representable_of_parse hparse

theorem representable_of_rangeBounds {bounds : RangeBounds} (hnow : now.Representable)
    (h : rangeBounds params now = .ok (some bounds)) :
    bounds.first.Representable ∧ bounds.last.Representable := by
  rw [rangeBounds] at h
  cases hend : instant? params "end" with
  | error fault =>
      rw [hend] at h
      cases h
  | ok last? =>
      have hlast : (last?.getD now).Representable := by
        cases last? with
        | none => exact hnow
        | some last => exact representable_of_instant? hend
      cases hstart : instant? params "start" with
      | error fault =>
          simp only [hend, hstart, bind, Except.bind] at h
          cases h
      | ok first? =>
          simp only [hend, hstart, bind, Except.bind] at h
          cases first? with
          | some first =>
              cases h
              exact ⟨representable_of_instant? hstart, hlast⟩
          | none =>
              obtain ⟨first, hfirst, hbounds⟩ := Option.map_eq_some_iff.1 (Except.ok.inj h)
              cases hbounds
              exact ⟨hlast.before? hfirst, hlast⟩

theorem defaultStep_eq (hfirst : first.Representable) (hlast : last.Representable) :
    defaultStep first last =
      ⟨exactStep first last + carry (last.millisSince first).toNat, 0⟩ := by
  rw [defaultStep, stepSeconds_rounded (hlast.toNat_millisSince_le hfirst), exactStep]

theorem step_lt (hfirst : first.Representable) (hlast : last.Representable) :
    exactStep first last + carry (last.millisSince first).toNat < 2 ^ 52 := by
  have hmillis := hlast.toNat_millisSince_le hfirst
  rw [exactStep, stepSeconds_id]
  rcases carry_cases (last.millisSince first).toNat with ⟨hcarry, -⟩ | ⟨hcarry, -⟩ <;> omega

/-- A range gets a step of whole seconds that suits it, by itself. In exact arithmetic 250 of
these steps are not longer than the range unless they are single seconds, and a longer range has
no smaller step. Every call without a step asks for that one, as a decimal number of seconds, or
for a second more where rounding carries. -/
theorem default_step_suits (horder : last.before first = false) :
    (Suits first last (exactStep first last) ∧
      250 * (exactStep first last : ℚ) ≤ max (last.elapsed first) 250 ∧
      ∀ first' last' : Instant, last.elapsed first ≤ last'.elapsed first' →
        exactStep first last ≤ exactStep first' last') ∧
    ∀ params published now expr, now.Representable → text? params "query" = some expr →
      rangeBounds params now = .ok (some ⟨first, last⟩) → text? params "step" = none →
      ∃ step, rangeQuery.plan params published now = .ask (.range expr first last ⟨step, 0⟩) ∧
        step = exactStep first last + carry (last.millisSince first).toNat ∧
        Suits first last step ∧ Denotes (Series.stepText ⟨step, 0⟩).toList step := by
  have hsuits := suits_exactStep first last
  refine ⟨⟨hsuits, exactStep_le first last, fun _ _ => exactStep_mono⟩, ?_⟩
  intro params published now expr hnow hexpr hbounds hnone
  obtain ⟨hfirst, hlast⟩ := representable_of_rangeBounds hnow hbounds
  have hstep : rangeStep params ⟨first, last⟩ = .ok (defaultStep first last) := by
    rw [rangeStep, hnone]
  have hgreater := hsuits.mono (Nat.le_add_right _ (carry (last.millisSince first).toNat))
  rw [defaultStep_eq hfirst hlast] at hstep
  refine ⟨_, ?_, rfl, hgreater, ?_⟩
  · rw [rangeQuery_plan]
    exact rangePlan_of_poses (.range hexpr hbounds horder hstep)
  · exact denotes_stepText_whole (Nat.ne_of_gt hgreater.whole) (step_lt hfirst hlast)

/-- A call over a range of some 285,000 years that is short of a multiple of 250 seconds by one
millisecond, as milliseconds are counted. -/
def longRange : Json :=
  .object [("query", .string "up"), ("start", .string "-8334601228799.999"),
    ("end", .string "672598025950")]

theorem default_step_suits_longRange :
    ∃ first last : Instant, rangeBounds longRange ⟨0, 0⟩ = .ok (some ⟨first, last⟩) ∧
      last.before first = false ∧ exactStep first last = 36028797018 ∧
      250 * (36028797018 : ℚ) ≤ max (last.elapsed first) 250 ∧
      last.elapsed first ≤ Instant.elapsed ⟨672598026200, 0⟩ first ∧
      36028797018 ≤ exactStep first ⟨672598026200, 0⟩ ∧
      rangeQuery.plan longRange (Service.offline []).published ⟨0, 0⟩ =
        .ask (.range "up" first last ⟨36028797019, 0⟩) ∧
      Suits first last 36028797019 ∧
      Denotes (Series.stepText ⟨36028797019, 0⟩).toList 36028797019 := by
  have hbounds : rangeBounds longRange ⟨0, 0⟩ =
      .ok (some ⟨⟨-8334601228800, 976563⟩, ⟨672598025950, 0⟩⟩) := by decide +kernel
  have hexact : exactStep ⟨-8334601228800, 976563⟩ ⟨672598025950, 0⟩ = 36028797018 := by
    decide +kernel
  have hcarry :
      carry (Instant.millisSince ⟨672598025950, 0⟩ ⟨-8334601228800, 976563⟩).toNat = 1 := by
    decide +kernel
  have hlonger : Instant.elapsed ⟨672598025950, 0⟩ ⟨-8334601228800, 976563⟩ ≤
      Instant.elapsed ⟨672598026200, 0⟩ ⟨-8334601228800, 976563⟩ := by
    have hnanos : Instant.nanosSince ⟨672598025950, 0⟩ ⟨-8334601228800, 976563⟩ ≤
        Instant.nanosSince ⟨672598026200, 0⟩ ⟨-8334601228800, 976563⟩ := by decide
    rw [Instant.elapsed_eq, Instant.elapsed_eq]
    exact div_le_div_of_nonneg_right (by exact_mod_cast hnanos) (by norm_num)
  obtain ⟨⟨-, hfine, hmono⟩, hcalls⟩ :=
    @default_step_suits ⟨-8334601228800, 976563⟩ ⟨672598025950, 0⟩ (by decide)
  obtain ⟨step, hplan, hstep, hsuits, hsent⟩ := hcalls longRange (Service.offline []).published
    ⟨0, 0⟩ "up" ⟨by decide, by decide⟩ (by decide +kernel) hbounds (by decide +kernel)
  rw [hexact] at hfine hstep
  rw [hcarry] at hstep
  subst hstep
  refine ⟨_, _, hbounds, by decide, hexact, ?_, hlonger, hexact ▸ hmono _ _ hlonger, hplan,
    hsuits, ?_⟩
  · exact_mod_cast hfine
  · exact_mod_cast hsent

end DocWatch.Tool
