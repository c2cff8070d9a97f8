import DocWatch.Proofs.Binary64.Shortest
import DocWatch.Proofs.Time.Components
import DocWatch.Proofs.Tool.Range

/-!
# Steps that are no time at all

A step should be longer than nothing. Components are added up before that is looked at, so
there it holds. A number of seconds is looked at before it is rounded to nanoseconds, and a
number that is above zero, but by half a nanosecond at most, is rounded to none: `Tiny` says
which texts these are. Nothing else becomes a step of zero. A range gets at least one second
by itself, and a step that is not zero is not written as zero either, since what is written
reads back.
-/

namespace DocWatch.Time.Span

open Binary64 (two_zpow_pos)

variable {s : List Char} {text : String} {d : Span} {m : Nat} {e : Int}

/-- The text is a number of seconds above zero, but not more than half a nanosecond. -/
def Tiny (s : List Char) : Prop :=
  ∃ m e, Binary64.read? s = some (.finite false m e) ∧ m ≠ 0 ∧
    (m : ℚ) * 2 ^ e ≤ 1 / 2000000000

/-! ## Spans of zero -/

theorem ofSeconds_eq_zero_iff {negative : Bool} :
    ofSeconds (.finite negative m e) = .ok ⟨0, 0⟩ ↔ (m : ℚ) * 2 ^ e ≤ 1 / 2000000000 := by
  have hden := Binary64.Ratio.den_ofBinary_pos m e
  have hvalue := Binary64.Ratio.value_ofBinary m e
  have hscaled := Binary64.Ratio.value_scale (.ofBinary m e) 1000000000
  have hzero := Binary64.Ratio.roundEven_eq_zero_iff
    (r := (Binary64.Ratio.ofBinary m e).scale 1000000000) hden
  rw [ofSeconds]
  generalize Binary64.Ratio.ofBinary m e = r at *
  rw [← hvalue]
  rw [hscaled] at hzero
  norm_num at hzero
  by_cases hlong : limit * r.den ≤ r.num
  · have hvast : (2 : ℚ) ^ 64 ≤ r.value := by
      rw [Binary64.Ratio.value, le_div_iff₀ (Nat.cast_pos.2 hden)]
      exact_mod_cast hlong
    rw [if_pos hlong]
    constructor
    · intro h
      cases h
    · intro h
      have := hvast.trans h
      norm_num at this
  · rw [if_neg hlong]
    dsimp only
    rw [Except.ok.injEq, mk.injEq]
    constructor
    · intro h
      have := hzero.1 (by omega)
      linarith
    · intro h
      have := hzero.2 (by linarith)
      omega

theorem ne_zero_of_ofComponents (h : ofComponents s = .ok d) :
    d ≠ ⟨0, 0⟩ ∧ d.nanos < 1000000000 := by
  obtain ⟨ts, rfl⟩ := exists_joined_of_ofComponents h
  rw [ofComponents_joined] at h
  split at h
  · cases h
  · split at h
    · cases h
    · rename_i hpos
      obtain ⟨hnanos, hvalue⟩ := eq_ofMillis_iff.1 (Except.ok.inj h).symm
      refine ⟨?_, hnanos⟩
      rintro rfl
      change 0 = millisOf ts * 1000000 at hvalue
      omega

theorem parse_eq_zero_iff :
    parse text = .ok ⟨0, 0⟩ ↔ Tiny (Text.trim text.toList) := by
  constructor
  · intro h
    rw [parse] at h
    split at h
    · rename_i x hread
      split at h
      · rename_i hnumber
        cases x with
        | nan | infinite => cases hnumber.1
        | finite negative m e =>
            have hpositive := hnumber.2
            rw [Binary64.isPositive, Bool.and_eq_true, Bool.not_eq_true', decide_eq_true_eq]
              at hpositive
            obtain ⟨rfl, hm⟩ := hpositive
            exact ⟨m, e, hread, hm, ofSeconds_eq_zero_iff.1 h⟩
      · cases h
    · split at h
      · cases h
      · exact absurd rfl (ne_zero_of_ofComponents h).1
  · rintro ⟨m, e, hread, hm, hsmall⟩
    have hpositive : (Binary64.finite false m e).isPositive = true := decide_eq_true hm
    simp only [parse, hread, Binary64.isFinite, hpositive, and_self, if_true]
    exact ofSeconds_eq_zero_iff.2 hsmall

theorem nanos_lt_of_parse (h : parse text = .ok d) : d.nanos < 1000000000 := by
  rw [parse] at h
  split at h
  · split at h
    · rename_i x _ _
      cases x with
      | nan | infinite => cases h
      | finite negative m e =>
          rw [ofSeconds] at h
          dsimp only at h
          split at h
          · cases h
          · cases h
            exact Nat.mod_lt _ (by decide)
    · cases h
  · split at h
    · cases h
    · exact (ne_zero_of_ofComponents h).2

/-! ## What is written for a span -/

/-- Nothing in a span is as small as the least units. -/
theorem zpow_least_le {q : ℚ} (h : 1 / 2000000000 ≤ q) :
    2 ^ (Binary64.leastExponent + Binary64.precision) ≤ q := by
  calc (2 : ℚ) ^ (Binary64.leastExponent + Binary64.precision) ≤ 2 ^ (-40 : Int) :=
        zpow_le_zpow_right₀ (by norm_num) (by decide)
    _ ≤ 1 / 2000000000 := by norm_num
    _ ≤ q := h

theorem ofNat_seconds (n : Nat) :
    Binary64.ofNat n = .infinite false ∨
      ∃ m e, Binary64.ofNat n = .finite false m e ∧ (n : ℚ) / 2 ≤ m * 2 ^ e := by
  have hvalue := Binary64.Ratio.value_ofNat n
  have hlow : (n : ℚ) = 0 ∨ 2 ^ (Binary64.leastExponent + Binary64.precision) ≤ (n : ℚ) := by
    rcases Nat.eq_zero_or_pos n with rfl | hpos
    · exact .inl Nat.cast_zero
    · have hone : (1 : ℚ) ≤ n := by exact_mod_cast hpos
      exact .inr (zpow_least_le (by linarith))
  rcases Binary64.nearest_within false (r := .ofNat n) Nat.one_pos (by rwa [hvalue]) with
    h | ⟨m, e, h, hhalf, -⟩
  · exact .inl h
  · rw [hvalue] at hhalf
    exact .inr ⟨m, e, h, hhalf⟩

theorem div_nanos {n : Nat} (h : n < 1000000000) :
    (Binary64.ofNat n).div (.ofNat 1000000000) = .infinite false ∨
      ∃ m e, (Binary64.ofNat n).div (.ofNat 1000000000) = .finite false m e ∧
        (n : ℚ) / 2000000000 ≤ m * 2 ^ e := by
  obtain ⟨m, e, hm, hvalue⟩ := Binary64.nearest_ofNat false (n := n) (h.trans (by decide))
  obtain ⟨m', e', hm', hbillion⟩ :=
    Binary64.nearest_ofNat false (show 1000000000 < Nat.pow 2 Binary64.precision by decide)
  have hne : m' ≠ 0 := by
    rintro rfl
    norm_num at hbillion
  obtain ⟨r, hden, hr, hdiv⟩ := @Binary64.div_eq false false m m' e e' hne
  rw [hvalue, hbillion] at hr
  have hlow : r.value = 0 ∨ 2 ^ (Binary64.leastExponent + Binary64.precision) ≤ r.value := by
    rw [hr]
    rcases Nat.eq_zero_or_pos n with rfl | hpos
    · exact .inl (by norm_num)
    · have hone : (1 : ℚ) ≤ n := by exact_mod_cast hpos
      refine .inr (zpow_least_le ?_)
      push_cast
      linarith
  rw [Binary64.ofNat, Binary64.ofNat, hm, hm', hdiv]
  rcases Binary64.nearest_within (false ^^ false) hden hlow with h | ⟨q, g, h, hhalf, -⟩
  · exact .inl h
  · refine .inr ⟨q, g, h, ?_⟩
    rw [hr] at hhalf
    push_cast at hhalf
    linarith

theorem toSeconds_ne_zero (hne : d ≠ ⟨0, 0⟩) (hnanos : d.nanos < 1000000000) :
    d.toSeconds = .infinite false ∨
      ∃ m e, d.toSeconds = .finite false m e ∧ m ≠ 0 ∧ m < 2 ^ 53 ∧ Binary64.leastExponent ≤ e := by
  rw [toSeconds]
  rcases ofNat_seconds d.seconds with hs | ⟨m, e, hs, hseconds⟩
  · rcases div_nanos hnanos with hn | ⟨n, f, hn, -⟩ <;> exact .inl (by rw [hs, hn]; rfl)
  · rcases div_nanos hnanos with hn | ⟨n, f, hn, hfraction⟩
    · exact .inl (by rw [hs, hn]; rfl)
    · -- the sum is rounded as well, but not down to nothing
      obtain ⟨r, hden, hr, hsum⟩ := @Binary64.add_eq m n e f
      have hlow : 1 / 2000000000 ≤ r.value := by
        have hseconds0 : (0 : ℚ) ≤ d.seconds := Nat.cast_nonneg _
        have hnanos0 : (0 : ℚ) ≤ d.nanos := Nat.cast_nonneg _
        rw [hr]
        rcases Nat.eq_zero_or_pos d.seconds with hzero | hpos
        · have hone : (1 : ℚ) ≤ d.nanos := by
            rw [Nat.one_le_cast, Nat.one_le_iff_ne_zero]
            intro hzero'
            exact hne (congrArg₂ mk hzero hzero')
          linarith
        · have hone : (1 : ℚ) ≤ d.seconds := by exact_mod_cast hpos
          linarith
      rw [hs, hn, hsum]
      rcases Binary64.nearest_within false hden (.inr (zpow_least_le hlow)) with
        h | ⟨q, g, h, hhalf, -⟩
      · exact .inl h
      · obtain ⟨hfits, hleast⟩ := Binary64.bounds_of_nearest hden h
        refine .inr ⟨q, g, h, ?_, hfits, hleast⟩
        rintro rfl
        rw [Nat.cast_zero, zero_mul] at hhalf
        linarith

theorem not_denotes_stepText (hne : d ≠ ⟨0, 0⟩) (hnanos : d.nanos < 1000000000) :
    ¬ Denotes (Series.stepText d).toList 0 := by
  rw [Series.stepText]
  rcases toSeconds_ne_zero hne hnanos with h | ⟨m, e, h, hm, hfits, he⟩
  · -- what is beyond all numbers is written as a word
    rw [h]
    intro hzero
    obtain ⟨negative, hread⟩ := hzero.read?_zero
    have hword :
        Binary64.read? (Binary64.infinite false).plain.toList = some (.infinite false) := by
      decide
    rw [hword] at hread
    cases hread
  · rw [h, Binary64.plain, String.toList_ofList]
    intro hzero
    have hpos := (Binary64.shortest_error hm hfits he).1
    exact hpos.ne (hzero.unique (Binary64.Digits.denotes_positional _))

end DocWatch.Time.Span

namespace DocWatch.Tool

open Time

variable {params : Json} {published : Published} {now : Instant}

theorem denotes_stepText_zero : Denotes (Series.stepText ⟨0, 0⟩).toList 0 := by
  have htext : (Series.stepText ⟨0, 0⟩).toList = Binary64.decimal 0 := by decide +kernel
  rw [htext]
  exact_mod_cast denotes_decimal 0

theorem one_le_stepSeconds (round : Binary64.Ratio → Binary64.Ratio) (millis : Nat) :
    1 ≤ stepSeconds round millis :=
  Nat.le_max_left _ _

theorem rangeStep_eq_zero_iff {bounds : RangeBounds} {step : Span}
    (h : rangeStep params bounds = .ok step) :
    step.nanos < 1000000000 ∧
      (step = ⟨0, 0⟩ ↔ ∃ text, text? params "step" = some text ∧ Span.Tiny text.toList) := by
  rw [rangeStep] at h
  cases htext : text? params "step" with
  | none =>
      rw [htext] at h
      cases h
      have hone := one_le_stepSeconds Binary64.rounded (bounds.last.millisSince bounds.first).toNat
      refine ⟨(by decide : 0 < 1000000000), ?_, ?_⟩
      · intro hzero
        have hseconds := congrArg Span.seconds hzero
        change stepSeconds _ _ = 0 at hseconds
        omega
      · rintro ⟨_, hsome, -⟩
        cases hsome
  | some text =>
      cases hparse : Span.parse text with
      | error cause =>
          simp only [htext, hparse] at h
          cases h
      | ok d =>
          simp only [htext, hparse] at h
          cases h
          have hzero := @Span.parse_eq_zero_iff text
          rw [(trimmed_of_text? htext).1, hparse, Except.ok.injEq] at hzero
          refine ⟨Span.nanos_lt_of_parse hparse, hzero.trans ⟨fun h => ⟨text, rfl, h⟩, ?_⟩⟩
          rintro ⟨_, hsome, h⟩
          cases hsome
          exact h

theorem poses_of_plan {q : Series.Question} (h : rangeQuery.plan params published now = .ask q) :
    Poses params now q := by
  rw [rangeQuery_plan] at h
  rcases rangePlan_cases params now with hplan | ⟨fault, hplan⟩ | ⟨q', hplan, hposes⟩ <;>
    rw [hplan] at h <;> cases h
  exact hposes

/-- A text becomes a span of zero just if it is a number above zero that is not more than half
a nanosecond, and the step that is sent for a range denotes zero just if such a text is given
for it. All other spans that are read are above zero, and so are all other steps. -/
theorem zero_step_iff_tiny (text : String) (params : Json) (published : Published) (now : Instant) :
    (Span.parse text = .ok ⟨0, 0⟩ ↔ Span.Tiny (Text.trim text.toList)) ∧
    ∀ q, rangeQuery.plan params published now = .ask q →
      ∃ step, (∀ sent, ("step", sent) ∈ q.params ↔ sent = step) ∧
        (Denotes step.toList 0 ↔
          ∃ given, text? params "step" = some given ∧ Span.Tiny given.toList) := by
  refine ⟨Span.parse_eq_zero_iff, fun q hplan => ?_⟩
  cases poses_of_plan hplan with
  | @range expr bounds step hexpr hbounds horder hstep =>
      obtain ⟨hnanos, hzero⟩ := rangeStep_eq_zero_iff hstep
      refine ⟨Series.stepText step, fun sent => ?_, ?_⟩
      · simp [Series.Question.params]
      · rw [← hzero]
        constructor
        · intro hdenotes
          by_contra hne
          exact Span.not_denotes_stepText hne hnanos hdenotes
        · rintro rfl
          exact denotes_stepText_zero

/-- A call over the last five minutes, with a step. -/
def upWithStep (step : String) : Json :=
  .object [("query", .string "up"), ("step", .string step)]

theorem plan_upWithStep {given : String} {step : Span} (published : Published)
    (h : rangeStep (upWithStep given) ⟨⟨-300, 0⟩, ⟨0, 0⟩⟩ = .ok step) :
    rangeQuery.plan (upWithStep given) published ⟨0, 0⟩ =
      .ask (.range "up" ⟨-300, 0⟩ ⟨0, 0⟩ step) := by
  have hexpr : text? (upWithStep given) "query" = some "up" := rfl
  have hbounds : rangeBounds (upWithStep given) ⟨0, 0⟩ = .ok (some ⟨⟨-300, 0⟩, ⟨0, 0⟩⟩) := rfl
  rw [rangeQuery_plan]
  exact rangePlan_of_poses (.range hexpr hbounds (by decide) h)

theorem zero_step_iff_tiny_half :
    ∃ q, rangeQuery.plan (upWithStep " 0.5 ") (Service.offline []).published ⟨0, 0⟩ = .ask q ∧
      ("step", "0.5") ∈ q.params ∧ ¬ Denotes "0.5".toList 0 := by
  have hplan : rangeQuery.plan (upWithStep " 0.5 ") (Service.offline []).published ⟨0, 0⟩ =
      .ask (.range "up" ⟨-300, 0⟩ ⟨0, 0⟩ ⟨0, 500000000⟩) :=
    plan_upWithStep _ (by decide +kernel)
  have hsent : ("step", "0.5") ∈
      (Series.Question.range "up" ⟨-300, 0⟩ ⟨0, 0⟩ ⟨0, 500000000⟩).params := by decide +kernel
  obtain ⟨step, hparams, hzero⟩ := (zero_step_iff_tiny "0.5" _ _ _).2 _ hplan
  obtain rfl := (hparams _).1 hsent
  refine ⟨_, hplan, hsent, fun hdenotes => ?_⟩
  obtain ⟨text, htext, m, e, hread, -, hsmall⟩ := hzero.1 hdenotes
  have hgiven : text? (upWithStep " 0.5 ") "step" = some "0.5" := by decide +kernel
  rw [hgiven] at htext
  cases htext
  have hhalf : Binary64.read? "0.5".toList = some (.finite false 4503599627370496 (-53)) := by
    decide +kernel
  rw [hhalf] at hread
  cases hread
  norm_num at hsmall

theorem positive_step_sent_as_zero :
    Span.parse "1e-10" = .ok ⟨0, 0⟩ ∧
      ∃ q, rangeQuery.plan (upWithStep "1e-10") (Service.offline []).published ⟨0, 0⟩ = .ask q ∧
        ("step", "0") ∈ q.params := by
  refine ⟨by decide +kernel, .range "up" ⟨-300, 0⟩ ⟨0, 0⟩ ⟨0, 0⟩, ?_, by decide +kernel⟩
  exact plan_upWithStep _ (by decide +kernel)

end DocWatch.Tool
