import DocWatch.Proofs.Text.Digits
import DocWatch.Proofs.Time.Timestamp

/-!
# Every instant that is read can be shown by a clock

A number of seconds is checked against the range of instants before it becomes one. A date and
a time of day need no check: with four digits for the year, no date is near the ends of the
range, and neither a time of day nor an offset is longer than a day. What is reckoned back from
an instant is checked again. So an instant that comes from a text, or from one that does, is
always in range.
-/

namespace DocWatch

variable {s rest : List Char} {n v : Nat}

/-! ## Digits of a fixed number -/

theorem Text.digitsValue_concat (digits : List Char) (c : Char) :
    digitsValue (digits ++ [c]) = digitsValue digits * 10 + (c.toNat - 48) := by
  rw [digitsValue, List.foldl_append]
  rfl

theorem Text.digitsValue_lt {digits : List Char} (h : ∀ c ∈ digits, c.isDigit = true) :
    digitsValue digits < 10 ^ digits.length := by
  induction digits using List.reverseRecOn with
  | nil => exact Nat.one_pos
  | append_singleton digits c ih =>
      have hdigits := ih fun c hc => h c (List.mem_append_left _ hc)
      have hc := toNat_of_isDigit (h c (List.mem_append_right _ List.mem_cons_self))
      rw [digitsValue_concat, List.length_append, List.length_singleton, Nat.pow_succ]
      omega

theorem Text.lt_of_fixedDigits? (h : fixedDigits? n s = some (v, rest)) : v < 10 ^ n := by
  rw [fixedDigits?] at h
  split at h
  · rename_i hfixed
    cases h
    have hlt := digitsValue_lt (List.all_eq_true.1 hfixed.2)
    rwa [hfixed.1] at hlt
  · cases h

namespace Time

variable {d : Date}

/-! ## Dates -/

theorem Date.bounds_of_valid (h : d.valid = true) : 1 ≤ d.month ∧ d.month ≤ 12 ∧ d.day ≤ 31 := by
  simp only [valid, Bool.and_eq_true, decide_eq_true_eq] at h
  obtain ⟨⟨⟨hfirst, hlast⟩, -⟩, hday⟩ := h
  refine ⟨hfirst, hlast, hday.trans ?_⟩
  rw [daysInMonth.eq_def]
  split
  · split <;> decide
  all_goals decide

/-- The days up to a date, by its year alone, and roughly. -/
theorem Date.toDays_bounds (h : d.valid = true) (hlow : 0 ≤ d.year) (hhigh : d.year < 10000) :
    -1000000 ≤ d.toDays ∧ d.toDays ≤ 4000000 := by
  obtain ⟨hfirst, hlast, hday⟩ := bounds_of_valid h
  rw [toDays, Int.fdiv_eq_ediv_of_nonneg _ (by decide)]
  split <;> constructor <;> omega

namespace Instant

/-! ## A date and a time of day -/

theorem valid_of_date? (h : date? s = some (d, rest)) :
    d.valid = true ∧ 0 ≤ d.year ∧ d.year < 10000 := by
  simp only [date?, Option.bind_eq_bind, Option.bind_eq_some_iff, Prod.exists] at h
  obtain ⟨year, _, hyear, _, -, month, _, -, _, -, day, _, -, h⟩ := h
  have hlt := Text.lt_of_fixedDigits? hyear
  split at h
  · rename_i hvalid
    cases h
    exact ⟨hvalid, Int.natCast_nonneg year, Int.ofNat_lt.2 hlt⟩
  · cases h

theorem lt_of_fraction? (h : fraction? s = some (v, rest)) : v < 1000000000 := by
  rw [fraction?.eq_def] at h
  split at h
  · rename_i more
    dsimp only at h
    split at h
    · cases h
    · cases h
      have hlength : ((more.takeWhile Char.isDigit).take 9).length ≤ 9 := List.length_take_le _ _
      have hdigits : ∀ c ∈ (more.takeWhile Char.isDigit).take 9, c.isDigit = true :=
        fun c hc => List.mem_takeWhile_imp (List.mem_of_mem_take hc)
      have hlt := Text.digitsValue_lt hdigits
      calc _ < 10 ^ ((more.takeWhile Char.isDigit).take 9).length *
            Nat.pow 10 (9 - ((more.takeWhile Char.isDigit).take 9).length) :=
          Nat.mul_lt_mul_of_pos_right hlt (Nat.pow_pos (by decide))
        _ = 1000000000 := by
          rw [Nat.pow_eq, ← Nat.pow_add, Nat.add_sub_cancel' hlength]
  · cases h
    decide

theorem bounds_of_timeOfDay? {second nanos : Nat} (h : timeOfDay? s = some (second, nanos, rest)) :
    second < 86400 ∧ nanos < 2000000000 := by
  simp only [timeOfDay?, Option.bind_eq_bind, Option.bind_eq_some_iff, Prod.exists] at h
  obtain ⟨hour, _, -, _, -, minute, _, -, _, -, sec, _, -, part, _, hpart, h⟩ := h
  have hlt := lt_of_fraction? hpart
  split at h
  · cases h
  · split at h <;> cases h <;> constructor <;> omega

theorem bounds_of_offsetSize? {offset : Int} (h : offsetSize? s = some (offset, rest)) :
    0 ≤ offset ∧ offset < 86400 := by
  simp only [offsetSize?, Option.bind_eq_bind, Option.bind_eq_some_iff, Prod.exists] at h
  obtain ⟨hours, _, -, _, -, minutes, _, -, h⟩ := h
  split at h
  · cases h
  · cases h
    constructor <;> omega

theorem bounds_of_offset? {offset : Int} (h : offset? s = some (offset, rest)) :
    -86400 < offset ∧ offset < 86400 := by
  rw [offset?.eq_def] at h
  split at h
  · split at h
    · cases h
      decide
    · split at h
      · have := bounds_of_offsetSize? h
        omega
      · split at h
        · obtain ⟨⟨size, _⟩, hsize, h⟩ := Option.map_eq_some_iff.1 h
          cases h
          have := bounds_of_offsetSize? hsize
          omega
        · cases h
  · cases h

theorem representable_of_ofDateTime? {t : Instant} (h : ofDateTime? s = some t) :
    t.Representable := by
  simp only [ofDateTime?, Option.bind_eq_bind, Option.bind_eq_some_iff, Prod.exists] at h
  obtain ⟨date, _, hdate, h⟩ := h
  split at h
  · simp only [Option.bind_some, Option.bind_none] at h
    split at h
    · cases h
    · simp only [Option.bind_eq_some_iff, Prod.exists] at h
      obtain ⟨second, nanos, _, htime, offset, _, hoffset, h⟩ := h
      split at h
      · cases h
      · cases h
        obtain ⟨hvalid, hlow, hhigh⟩ := valid_of_date? hdate
        have hdays := Date.toDays_bounds hvalid hlow hhigh
        have hsecond := bounds_of_timeOfDay? htime
        have hshift := bounds_of_offset? hoffset
        have hearliest : earliest = -8334601228800 := rfl
        have hlatest : latest = 8210266876799 := rfl
        refine ⟨?_, hsecond.2⟩
        change inRange (date.toDays * 86400 + second - offset) = true
        rw [inRange, Bool.and_eq_true]
        exact ⟨decide_eq_true (by omega), decide_eq_true (by omega)⟩
  · cases h

/-! ## Instants in range -/

theorem representable_of_ofSeconds? {x : Binary64} {t : Instant} (h : ofSeconds? x = some t) :
    t.Representable := by
  rw [ofSeconds?.eq_def] at h
  split at h
  · dsimp only at h
    split at h
    · rename_i hrange
      cases h
      exact ⟨hrange, lt_of_le_of_lt (Nat.min_le_right _ _) (by decide)⟩
    · cases h
  · cases h

theorem representable_of_parse {text : String} {t : Instant} (h : parse text = .ok t) :
    t.Representable := by
  rw [parse] at h
  split at h
  · rename_i hread
    cases h
    cases hnumber : (Binary64.read? (Text.trim text.toList)).bind ofSeconds? with
    | some t =>
        rw [hnumber] at hread
        cases hread
        obtain ⟨x, -, hx⟩ := Option.bind_eq_some_iff.1 hnumber
        exact representable_of_ofSeconds? hx
    | none =>
        rw [hnumber] at hread
        exact representable_of_ofDateTime? hread
  · cases h

theorem Representable.before? {t earlier : Instant} (ht : t.Representable) {seconds : Nat}
    (h : t.before? seconds = some earlier) : earlier.Representable := by
  rw [Instant.before?] at h
  obtain ⟨hrange, hearlier⟩ := Option.ite_none_right_eq_some.1 h
  cases hearlier
  refine ⟨hrange, lt_of_le_of_lt ?_ ht.2⟩
  dsimp only
  split
  · exact Nat.sub_le _ _
  · exact Nat.le_refl _

end Instant

end Time

end DocWatch
