import DocWatch.Proofs.Time.Timestamp

/-!
# The time between two instants

`elapsed` is the time between two instants, exactly, as it is reckoned here: the seconds since
the beginning of 1970 are subtracted, and a leap second is counted or not by the time of day at
which the two lie. It makes a difference of one second at most (`abs_leap_le`). Whole
milliseconds are cut off from it towards none, and so a whole number of seconds goes into these
as often as into the time itself (`millisSince_div`).
-/

namespace DocWatch.Time.Instant

variable {earlier later : Instant}

/-- Seconds since the beginning of 1970. -/
def unix (t : Instant) : ℚ :=
  t.seconds + t.nanos / 1000000000

/-- What leap seconds add to the time between two instants, by the time of day. -/
def leap (later earlier : Instant) : Int :=
  if earlier.secondOfDay < later.secondOfDay ∧ 1000000000 ≤ earlier.nanos then 1
  else if later.secondOfDay < earlier.secondOfDay ∧ 1000000000 ≤ later.nanos then -1
  else 0

/-- The time between two instants in seconds. -/
def elapsed (later earlier : Instant) : ℚ :=
  later.unix - earlier.unix + leap later earlier

/-- The time between two instants in nanoseconds. -/
def nanosSince (later earlier : Instant) : Int :=
  (later.seconds - earlier.seconds + leap later earlier) * 1000000000 + later.nanos - earlier.nanos

theorem leap_cases (later earlier : Instant) :
    leap later earlier = 1 ∨ leap later earlier = -1 ∨ leap later earlier = 0 := by
  rw [leap]
  split
  · exact .inl rfl
  · split
    · exact .inr (.inl rfl)
    · exact .inr (.inr rfl)

theorem abs_leap_le (later earlier : Instant) : |(leap later earlier : ℚ)| ≤ 1 := by
  rcases leap_cases later earlier with h | h | h <;> rw [h] <;> norm_num

theorem elapsed_eq (later earlier : Instant) :
    later.elapsed earlier = nanosSince later earlier / 1000000000 := by
  rw [elapsed, unix, unix, nanosSince]
  push_cast
  ring

theorem toNat_millisSince (later earlier : Instant) :
    (later.millisSince earlier).toNat = (nanosSince later earlier).toNat / 1000000 := by
  change ((nanosSince later earlier).tdiv 1000000).toNat = _
  cases nanosSince later earlier with
  | ofNat n => rfl
  | negSucc n => exact (Int.toNat_neg_natCast ((n + 1) / 1000000)).trans (Nat.zero_div 1000000).symm

/-- A whole number of seconds goes as often into the milliseconds, if there are any. -/
theorem millisSince_div (later earlier : Instant) (seconds : Nat) :
    (((later.millisSince earlier).toNat / (1000 * seconds) : Nat) : Int) =
      max 0 ⌊later.elapsed earlier / seconds⌋ := by
  rw [toNat_millisSince, Nat.div_div_eq_div_mul, elapsed_eq]
  rcases le_or_gt 0 (nanosSince later earlier) with hpos | hneg
  · obtain ⟨n, hn⟩ := Int.eq_ofNat_of_zero_le hpos
    have hquotient : (n : ℚ) / 1000000000 / seconds = n / (1000000 * (1000 * seconds) : Nat) := by
      rw [div_div]
      push_cast
      ring
    rw [hn, Int.toNat_natCast, Int.cast_natCast, hquotient, Rat.floor_natCast_div_natCast]
    exact (max_eq_right (Int.natCast_nonneg _)).symm
  · have hbelow : (nanosSince later earlier : ℚ) / 1000000000 / seconds ≤ 0 := by
      have hcast : (nanosSince later earlier : ℚ) ≤ 0 := by exact_mod_cast hneg.le
      exact div_nonpos_of_nonpos_of_nonneg
        (div_nonpos_of_nonpos_of_nonneg hcast (by norm_num)) (Nat.cast_nonneg _)
    rw [Int.toNat_of_nonpos hneg.le, Nat.zero_div, max_eq_left (Int.floor_nonpos hbelow)]
    rfl

/-- The whole range of instants, and a leap second at both ends of it, in milliseconds. -/
theorem Representable.toNat_millisSince_le (hlater : later.Representable)
    (hearlier : earlier.Representable) :
    (later.millisSince earlier).toNat ≤ 16544868105602000 := by
  obtain ⟨hrange, hnanos⟩ := hlater
  obtain ⟨hrange', hnanos'⟩ := hearlier
  rw [inRange, Bool.and_eq_true] at hrange hrange'
  have hhigh : later.seconds ≤ 8210266876799 := of_decide_eq_true hrange.2
  have hlow : -8334601228800 ≤ earlier.seconds := of_decide_eq_true hrange'.1
  have hbound : nanosSince later earlier ≤ 16544868105602000 * 1000000 := by
    rw [nanosSince]
    rcases leap_cases later earlier with h | h | h <;> omega
  rw [toNat_millisSince]
  omega

end DocWatch.Time.Instant
