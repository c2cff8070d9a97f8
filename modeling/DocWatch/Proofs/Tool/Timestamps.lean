import DocWatch.Proofs.Time.Timestamp
import DocWatch.Proofs.Tool.Parameters

/-!
# The points of time that are sent

A point of time that is given in seconds, with three decimals at most, comes back as the
parameter of a question, and should be the same number. `instant_sent` says when it is: the
milliseconds are cut off from what is left after reading, so one of them is lost if the
nearest floating-point number is below the number that was given, by more than the half
nanosecond that rounding makes good. Up to some eight million seconds from the beginning of
1970 none is that far below, and multiples of an eighth are floating-point numbers
themselves. Numbers of today are further away, and `millisecond_lost` is one that is not
sent as it was given.
-/

namespace DocWatch.Tool

open Time Time.Instant

theorem abs_lt_of_inRange {q : ℚ} (h : inRange ⌊q⌋ = true) : |q| < 2 ^ (43 : Int) := by
  rw [inRange, Bool.and_eq_true] at h
  have hlow : ((earliest : Int) : ℚ) ≤ q := Int.le_floor.1 (of_decide_eq_true h.1)
  have hhigh : q < ((latest + 1 : Int) : ℚ) :=
    Int.floor_lt.1 (Int.lt_add_one_of_le (of_decide_eq_true h.2))
  norm_num [earliest, latest] at hlow hhigh
  rw [abs_lt]
  constructor <;> norm_num <;> linarith

theorem exists_millis {d : Decimal} (h : d.places ≤ 3) : ∃ k : Int, d.value = k / 1000 := by
  refine ⟨Binary64.signedNat d.sign.isNegative (Text.digitsValue d.digits) *
    10 ^ (3 - d.places), ?_⟩
  have hthousand : (1000 : ℚ) = 10 ^ d.places * 10 ^ (3 - d.places) := by
    rw [← pow_add, Nat.add_sub_cancel' h]
    norm_num
  rw [Decimal.value, hthousand]
  push_cast
  exact (mul_div_mul_right _ _ (pow_ne_zero _ (by norm_num))).symm

theorem exists_parse {text : String} {d : Decimal} (htext : Text.trim text.toList = d.text)
    (hplaces : d.places ≤ 3) (hrange : inRange ⌊d.value⌋ = true) :
    ∃ x q t, Binary64.read? d.text = some x ∧ x.value? = some q ∧ Nearest d.value q ∧
      parse text = .ok t ∧ t.Representable ∧
      (t.millis : ℚ) =
        if d.value - q ≤ 1 / 2000000000 then d.value * 1000 else d.value * 1000 - 1 := by
  obtain ⟨k, hk⟩ := exists_millis hplaces
  obtain ⟨m, e, hread, hnear⟩ := exists_read? hplaces (abs_lt_of_inRange hrange)
  have hvalue : (Binary64.finite d.sign.isNegative m e).value? =
      some ((Binary64.signedNat d.sign.isNegative m : ℚ) * 2 ^ e) := rfl
  generalize hq : (Binary64.signedNat d.sign.isNegative m : ℚ) * 2 ^ e = q at hnear hvalue
  rw [hk] at hnear hrange
  have hfloor : ⌊q⌋ = ⌊(k / 1000 : ℚ)⌋ := by
    rw [floor_of_nearest hnear]
    exact (Rat.floor_intCast_div_natCast k 1000).symm
  rw [← hfloor] at hrange
  obtain ⟨p, hp, hseconds⟩ := ofSeconds?_finite hq.symm hrange
  have hmillis := millis_of_nearest hnear hp
  refine ⟨_, q, ⟨⌊q⌋, min ⌊p + 1 / 2⌋.toNat 999999999⟩, hread, hvalue, hk ▸ hnear, ?_,
    ⟨hrange, ?_⟩, ?_⟩
  · rw [parse, htext, hread, Option.bind_some, hseconds]
    rfl
  · exact lt_of_le_of_lt (Nat.min_le_right _ _) (by decide)
  · rw [hmillis, hk, div_mul_cancel₀ _ (by norm_num)]
    split
    · rfl
    · push_cast
      rfl

theorem instant?_of_text {params : Json} {key text : String} {t : Instant}
    (htext : (params.member key).text? = some text) (hne : Text.trim text.toList ≠ [])
    (h : parse text = .ok t) : instant? params key = .ok (some t) := by
  have htrimmed : parse (Text.trimmed text) = .ok t := by
    rw [parse, Text.trimmed, String.toList_ofList, Text.trim_trim]
    exact h
  have hblank : Text.trimmed text ≠ "" := fun hempty => hne (by
    rw [← String.toList_ofList (l := Text.trim text.toList)]
    exact String.toList_eq_nil_iff.2 hempty)
  rw [instant?, text?, htext]
  simp only [if_neg hblank, htrimmed]
  rfl

/-- A number of seconds with up to three decimals is accepted wherever a point of time can be
given, and sent as the number that it is, unless the nearest floating-point number is more
than half a nanosecond below it: then what is sent is less by a thousandth. -/
theorem instant_sent {text : String} {d : Decimal} (htext : Text.trim text.toList = d.text)
    (hplaces : d.places ≤ 3) (hrange : inRange ⌊d.value⌋ = true) :
    ∃ x q t, Binary64.read? d.text = some x ∧ x.value? = some q ∧ parse text = .ok t ∧
      (∀ params key, (params.member key).text? = some text →
        instant? params key = .ok (some t)) ∧
      Series.instantText t = ((Binary64.ofInt t.millis).div (.ofNat 1000)).fixed 3 ∧
      Denotes (Series.instantText t).toList
        (if d.value - q ≤ 1 / 2000000000 then d.value else d.value - 1 / 1000) ∧
      (|d.value| < 2 ^ 23 ∨ (∃ i : Int, d.value = i / 8) → d.value - q ≤ 1 / 2000000000) := by
  obtain ⟨x, q, t, hread, hvalue, hnear, hparse, ht, hmillis⟩ := exists_parse htext hplaces hrange
  have hne : Text.trim text.toList ≠ [] := by
    obtain ⟨c, rest, hbody, -⟩ := d.exists_body
    rw [htext, Decimal.text, hbody]
    exact List.append_ne_nil_of_right_ne_nil _ (List.cons_ne_nil _ _)
  refine ⟨x, q, t, hread, hvalue, hparse, fun params key h => instant?_of_text h hne hparse,
    millisText_eq_fixed ht.natAbs_millis_lt, ?_, ?_⟩
  · have hsent := denotes_millisText t.millis
    rw [hmillis] at hsent
    change Denotes (Series.millisText t.millis).toList _
    convert hsent using 1
    split <;> ring
  · rintro (hsmall | ⟨i, hi⟩)
    · have := (abs_le.1 (hnear.error_of_small (by exact_mod_cast hsmall))).1
      norm_num at this ⊢
      linarith
    · rw [hnear.exact ⟨i, by rw [hi]; norm_num; ring⟩, sub_self]
      norm_num

/-- Five hundredths of a second before 1970. -/
def shortBefore : Decimal where
  sign := .minus
  whole := ['0']
  fraction? := some ['0', '5']
  isDigit_of_mem := List.all_eq_true.1 (by decide)
  ne_nil := by decide

theorem instant_sent_shortBefore :
    Text.trim " -0.05 ".toList = shortBefore.text ∧ shortBefore.places ≤ 3 ∧
      inRange ⌊shortBefore.value⌋ = true ∧
      ∃ t, parse " -0.05 " = .ok t ∧
        Denotes (Series.instantText t).toList shortBefore.value := by
  have htext : Text.trim " -0.05 ".toList = shortBefore.text := by decide +kernel
  have hvalue : shortBefore.value = -(1 / 20) := by
    have hdigits : Text.digitsValue shortBefore.digits = 5 := by decide +kernel
    have hplaces : shortBefore.places = 2 := by decide +kernel
    rw [Decimal.value, hdigits, hplaces]
    norm_num [shortBefore, Sign.isNegative, Binary64.signedNat]
  have hrange : inRange ⌊shortBefore.value⌋ = true := by
    have hfloor : ⌊shortBefore.value⌋ = -1 := by
      rw [hvalue, Int.floor_eq_iff]
      norm_num
    rw [hfloor]
    decide
  obtain ⟨_, _, t, -, -, hparse, -, -, hsent, hkept⟩ := instant_sent htext (by decide) hrange
  rw [if_pos (hkept (.inl (by rw [hvalue]; norm_num)))] at hsent
  exact ⟨htext, by decide, hrange, t, hparse, hsent⟩

/-- A millisecond of the year 2023. -/
def recent : Decimal where
  sign := .none
  whole := "1700000000".toList
  fraction? := some "001".toList
  isDigit_of_mem := List.all_eq_true.1 (by decide)
  ne_nil := by decide

theorem millisecond_lost :
    Text.trim "1700000000.001".toList = recent.text ∧ recent.places ≤ 3 ∧
      inRange ⌊recent.value⌋ = true ∧
      ∃ t, parse "1700000000.001" = .ok t ∧ Series.instantText t = "1700000000.000" ∧
        ¬ Denotes (Series.instantText t).toList recent.value := by
  have hvalue : recent.value = 1700000000001 / 1000 := by
    have hdigits : Text.digitsValue recent.digits = 1700000000001 := by decide +kernel
    have hplaces : recent.places = 3 := by decide +kernel
    rw [Decimal.value, hdigits, hplaces]
    norm_num [recent, Sign.isNegative, Binary64.signedNat]
  have hrange : inRange ⌊recent.value⌋ = true := by
    have hfloor : ⌊recent.value⌋ = 1700000000 := by
      rw [hvalue, Int.floor_eq_iff]
      norm_num
    rw [hfloor]
    decide
  have hparse : parse "1700000000.001" = .ok ⟨1700000000, 999928⟩ := by decide +kernel
  refine ⟨by decide +kernel, by decide, hrange, _, hparse, by decide +kernel, fun hsent => ?_⟩
  have := (denotes_millisText (millis ⟨1700000000, 999928⟩)).unique hsent
  rw [hvalue] at this
  norm_num [millis] at this

end DocWatch.Tool
