import DocWatch.Text.Blank
import DocWatch.Text.Lowercase
import DocWatch.Text.Utf8
import Mathlib.Data.List.Infix

/-!
# Lower case is settled

What has been put in lower case stays as it is when that is done again, and it does not
matter what stands around it. The table of the runs decides this, since the form of each
character that the table holds is one that it does not hold. The capital sigma, whose form
does depend on its neighbours, is nobody's form.

So ASCII letters can be put in lower case by themselves when a text is searched for
something that is settled: where it is found, the whole text in lower case has it too.
-/

namespace DocWatch.Text

variable {s m before : List Char} {c d : Char}

/-- A character that is its own form in lower case, in any place. -/
structure Settled (c : Char) : Prop where
  lowerChar_eq : lowerChar c = [c]
  ne_sigma : c.toNat ≠ 0x03A3

instance (c : Char) : Decidable (Settled c) :=
  decidable_of_iff (lowerChar c = [c] ∧ c.toNat ≠ 0x03A3)
    ⟨fun h => ⟨h.1, h.2⟩, fun h => ⟨h.lowerChar_eq, h.ne_sigma⟩⟩

/-- What a character becomes in some place. -/
inductive BecomesLower : Char → Char → Prop
  | sigma {c d : Char} (hc : c.toNat = 0x03A3)
      (hd : d = Char.ofNat 0x03C2 ∨ d = Char.ofNat 0x03C3) : BecomesLower c d
  | other {c d : Char} (hc : c.toNat ≠ 0x03A3) (hd : d ∈ lowerChar c) : BecomesLower c d

theorem becomesLower_of_mem_lowerFrom (h : d ∈ lowerFrom before s) : ∃ c ∈ s, BecomesLower c d := by
  induction s generalizing before with
  | nil => cases h
  | cons c rest ih =>
      rw [lowerFrom, List.mem_append] at h
      rcases h with h | h
      · refine ⟨c, List.mem_cons_self, ?_⟩
        split at h
        · rename_i hc
          refine .sigma hc ?_
          rw [List.mem_singleton] at h
          rw [h]
          split
          · exact .inl rfl
          · exact .inr rfl
        · rename_i hc
          exact .other hc h
      · obtain ⟨x, hx, hd⟩ := ih h
        exact ⟨x, List.mem_cons_of_mem _ hx, hd⟩

/-! ## The table -/

theorem exists_run_of_lowerShift {runs : List CaseRun} {n : Nat} (h : lowerShift runs n ≠ 0) :
    ∃ run ∈ runs, run.first ≤ n ∧ n ≤ run.last ∧ (n - run.first) % run.stride = 0 ∧
      lowerShift runs n = run.shift := by
  induction runs with
  | nil => exact absurd rfl h
  | cons run rest ih =>
      rw [lowerShift] at h ⊢
      split at h
      · exact absurd rfl h
      · rename_i hfirst
        split at h
        · rename_i hin
          exact ⟨run, List.mem_cons_self, Nat.not_lt.1 hfirst, hin.1, hin.2, by
            rw [if_neg hfirst, if_pos hin]⟩
        · rename_i hout
          obtain ⟨other, hmem, hle, hlast, hstride, hshift⟩ := ih h
          exact ⟨other, List.mem_cons_of_mem _ hmem, hle, hlast, hstride, by
            rw [if_neg hfirst, if_neg hout, hshift]⟩

namespace CaseRun

/-- The code points from `low` to `high`, or every second of them, are not among those of a run:
they lie beside it, or both take every second one and are out of step. -/
def avoids (run : CaseRun) (low high : Nat) (second : Bool) : Bool :=
  high.blt run.first || run.last.blt low ||
    (second && run.stride.beq 2 && ((low + run.first) % 2).beq 1)

/-- The forms that a run gives are not in the table, and no blanks. -/
def isSettled (run : CaseRun) : Bool :=
  let low := (run.first + run.shift).toNat
  let high := (run.last + run.shift).toNat
  decide (0 ≤ run.first + run.shift) && (high < 0xD800 || (0xDFFF < low && high < 0x110000)) &&
    (high < 0x0130 || 0x0130 < low) && (high < 0x03A3 || 0x03A3 < low) &&
    (blankRanges.all fun range => high < range.1 || range.2 < low) &&
    lowerRuns.all fun other => other.avoids low high (run.stride == 2 || run.first == run.last)

theorem not_in_of_avoids {run : CaseRun} {low high n : Nat} {second : Bool}
    (h : run.avoids low high second = true) (hlow : low ≤ n) (hhigh : n ≤ high)
    (hsecond : second = true → (n - low) % 2 = 0) (hfirst : run.first ≤ n) (hlast : n ≤ run.last) :
    (n - run.first) % run.stride ≠ 0 := by
  simp only [avoids, Bool.or_eq_true, Bool.and_eq_true, Nat.blt_eq, Nat.beq_eq] at h
  rcases h with (hbelow | habove) | ⟨⟨htrue, htwo⟩, hparity⟩
  · omega
  · omega
  · -- the step from `low` is even, and the one from the first of the run is odd
    have heven := hsecond htrue
    rw [htwo]
    omega

end CaseRun

/-- The table of the runs, checked against itself and the blanks. -/
theorem lowerRuns_isSettled : lowerRuns.all CaseRun.isSettled = true := by
  decide +kernel

theorem toNat_ofNat {n : Nat} (h : n.isValidChar) : (Char.ofNat n).toNat = n := by
  rw [Char.ofNat, dif_pos h]
  rfl

/-- The form that a run gives to the character at a place in it, as a code point. -/
theorem CaseRun.toNat_form {run : CaseRun} {i : Nat} (h : run.isSettled = true)
    (hlast : run.first + i ≤ run.last)
    (hd : d = Char.ofNat ((run.first + i : Nat) + run.shift).toNat) :
    d.toNat = (run.first + run.shift).toNat + i ∧
      (run.first + run.shift).toNat + i ≤ (run.last + run.shift).toNat := by
  simp only [CaseRun.isSettled, Bool.and_eq_true, Bool.or_eq_true, decide_eq_true_eq] at h
  obtain ⟨⟨⟨⟨⟨hpositive, hvalid⟩, -⟩, -⟩, -⟩, -⟩ := h
  rw [hd, toNat_ofNat (by rw [Nat.isValidChar]; omega)]
  omega

/-- What a run puts in the place of a character is not in the table. -/
theorem form_of_isSettled {run : CaseRun} {i : Nat} (h : run.isSettled = true)
    (hlast : run.first + i ≤ run.last) (hstride : i % run.stride = 0)
    (hd : d = Char.ofNat ((run.first + i : Nat) + run.shift).toNat) :
    lowerShift lowerRuns d.toNat = 0 ∧ d.toNat ≠ 0x0130 ∧ d.toNat ≠ 0x03A3 ∧
      isBlank d = false := by
  obtain ⟨hnat, hhigh⟩ := CaseRun.toNat_form h hlast hd
  simp only [CaseRun.isSettled, Bool.and_eq_true, Bool.or_eq_true, decide_eq_true_eq,
    List.all_eq_true] at h
  obtain ⟨⟨⟨⟨⟨-, -⟩, hdot⟩, hsigma⟩, hblanks⟩, hruns⟩ := h
  have hsecond : (run.stride == 2 || run.first == run.last) = true → i % 2 = 0 := by
    rw [Bool.or_eq_true, beq_iff_eq, beq_iff_eq]
    rintro (htwo | hsingle)
    · rwa [htwo] at hstride
    · omega
  rw [isBlank, hnat]
  refine ⟨?_, by omega, by omega, ?_⟩
  · by_contra hshift
    obtain ⟨other, hmem, hfirst, hle, hstep, -⟩ := exists_run_of_lowerShift hshift
    refine CaseRun.not_in_of_avoids (hruns other hmem) (by omega) hhigh ?_ hfirst hle hstep
    rwa [Nat.add_sub_cancel_left]
  · rw [Bool.eq_false_iff]
    intro hblank
    obtain ⟨range, hmem, hlow, hhigh⟩ := CodeRanges.exists_of_has hblank
    have := hblanks range hmem
    omega

theorem lowerChar_of_ne (hc : c.toNat ≠ 0x0130) :
    lowerChar c = [Char.ofNat (c.toNat + lowerShift lowerRuns c.toNat).toNat] := by
  rw [lowerChar, if_neg hc]

theorem lowerChar_of_lowerShift (hc : c.toNat ≠ 0x0130) (h : lowerShift lowerRuns c.toNat = 0) :
    lowerChar c = [c] := by
  rw [lowerChar_of_ne hc, h, Int.add_zero, Int.toNat_natCast, Char.ofNat_toNat]

/-- A character that the table holds has a place in one of the runs. -/
theorem exists_place (hc : c.toNat ≠ 0x0130) (h : lowerShift lowerRuns c.toNat ≠ 0)
    (hd : d ∈ lowerChar c) : ∃ run ∈ lowerRuns, ∃ i, run.first + i ≤ run.last ∧
      i % run.stride = 0 ∧ d = Char.ofNat ((run.first + i : Nat) + run.shift).toNat := by
  rw [lowerChar_of_ne hc, List.mem_singleton] at hd
  obtain ⟨run, hmem, hfirst, hlast, hstride, hrun⟩ := exists_run_of_lowerShift h
  have hplace : run.first + (c.toNat - run.first) = c.toNat := Nat.add_sub_cancel' hfirst
  rw [hrun, ← hplace] at hd
  exact ⟨run, hmem, _, hplace.trans_le hlast, hstride, hd⟩

/-- What a character becomes is settled, and no blank unless the character is one. -/
theorem BecomesLower.settled (h : BecomesLower c d) :
    Settled d ∧ (isBlank c = false → isBlank d = false) := by
  cases h with
  | sigma hc hd => rcases hd with rfl | rfl <;> exact ⟨by decide +kernel, fun _ => by decide⟩
  | other hc hd =>
      by_cases hdot : c.toNat = 0x0130
      · rw [lowerChar, if_pos hdot, List.mem_cons, List.mem_singleton] at hd
        rcases hd with rfl | rfl <;> exact ⟨by decide +kernel, fun _ => by decide⟩
      · by_cases hshift : lowerShift lowerRuns c.toNat = 0
        · have hself := lowerChar_of_lowerShift hdot hshift
          rw [hself, List.mem_singleton] at hd
          subst hd
          exact ⟨⟨hself, hc⟩, id⟩
        · obtain ⟨run, hmem, i, hlast, hstride, hd⟩ := exists_place hdot hshift hd
          obtain ⟨hzero, hne, hsigma, hblank⟩ :=
            form_of_isSettled (List.all_eq_true.1 lowerRuns_isSettled run hmem) hlast hstride hd
          exact ⟨⟨lowerChar_of_lowerShift hne hzero, hsigma⟩, fun _ => hblank⟩

theorem settled_of_mem_lower (h : d ∈ lower s) : Settled d := by
  obtain ⟨c, -, hd⟩ := becomesLower_of_mem_lowerFrom h
  exact hd.settled.1

theorem lowerFrom_of_forall_settled (h : ∀ c ∈ s, Settled c) (before : List Char) :
    lowerFrom before s = s := by
  induction s generalizing before with
  | nil => rfl
  | cons c rest ih =>
      have hc := h c List.mem_cons_self
      rw [lowerFrom, if_neg hc.ne_sigma, hc.lowerChar_eq,
        ih fun x hx => h x (List.mem_cons_of_mem _ hx)]
      rfl

theorem lower_of_forall_settled (h : ∀ c ∈ s, Settled c) : lower s = s :=
  lowerFrom_of_forall_settled h []

theorem not_isBlank_of_mem_lower (hs : ∀ c ∈ s, isBlank c = false) (h : d ∈ lower s) :
    isBlank d = false := by
  obtain ⟨c, hc, hd⟩ := becomesLower_of_mem_lowerFrom h
  exact hd.settled.2 (hs c hc)

/-! ## ASCII letters by themselves -/

/-- Each ASCII character is looked up in the table, and its form among the blanks. -/
theorem ascii_toLower :
    ((List.range 128).all fun n =>
      let c := Char.ofNat n
      lowerChar c == [c.toLower] && isBlank c.toLower == isBlank c &&
        c.toLower.utf8Size == c.utf8Size) = true := by
  decide +kernel

theorem toLower_of_not_ascii (hc : 128 ≤ c.toNat) : c.toLower = c := by
  refine dif_neg ?_
  rintro ⟨-, hle⟩
  have hz : c.toNat ≤ 90 := hle
  omega

theorem toLower_of_ascii (hc : c.toNat < 128) :
    lowerChar c = [c.toLower] ∧ isBlank c.toLower = isBlank c ∧
      c.toLower.utf8Size = c.utf8Size := by
  have hall := List.all_eq_true.1 ascii_toLower c.toNat (List.mem_range.2 hc)
  simpa [Char.ofNat_toNat, and_assoc] using hall

theorem isBlank_toLower (c : Char) : isBlank c.toLower = isBlank c := by
  rcases Nat.lt_or_ge c.toNat 128 with hc | hc
  · exact (toLower_of_ascii hc).2.1
  · rw [toLower_of_not_ascii hc]

theorem byteLength_lowerAscii (s : List Char) : byteLength (lowerAscii s) = byteLength s := by
  rw [byteLength, byteLength, lowerAscii, List.map_map]
  refine congrArg total (List.map_congr_left fun c _ => ?_)
  rcases Nat.lt_or_ge c.toNat 128 with hc | hc
  · exact (toLower_of_ascii hc).2.2
  · rw [Function.comp_apply, toLower_of_not_ascii hc]

/-- A character whose ASCII form is settled has that form wherever it stands. -/
theorem Settled.lowerChar_of_toLower (h : Settled c.toLower) :
    lowerChar c = [c.toLower] ∧ c.toNat ≠ 0x03A3 := by
  rcases Nat.lt_or_ge c.toNat 128 with hc | hc
  · exact ⟨(toLower_of_ascii hc).1, by omega⟩
  · rw [toLower_of_not_ascii hc] at h ⊢
    exact ⟨h.lowerChar_eq, h.ne_sigma⟩

theorem lowerFrom_append (before front rest : List Char) :
    ∃ lowered, lowerFrom before (front ++ rest) =
      lowered ++ lowerFrom (front.reverse ++ before) rest := by
  induction front generalizing before with
  | nil => exact ⟨[], rfl⟩
  | cons c front ih =>
      obtain ⟨lowered, hlowered⟩ := ih (c :: before)
      rw [List.cons_append, lowerFrom, hlowered, ← List.append_assoc, List.reverse_cons,
        List.append_assoc front.reverse]
      exact ⟨_, rfl⟩

theorem lowerFrom_of_settled (h : ∀ c ∈ s, Settled c.toLower) (before rest : List Char) :
    lowerFrom before (s ++ rest) = lowerAscii s ++ lowerFrom (s.reverse ++ before) rest := by
  induction s generalizing before with
  | nil => rfl
  | cons c s ih =>
      obtain ⟨hlower, hsigma⟩ := (h c List.mem_cons_self).lowerChar_of_toLower
      rw [List.cons_append, lowerFrom, if_neg hsigma, hlower,
        ih (fun x hx => h x (List.mem_cons_of_mem _ hx)), List.reverse_cons, List.append_assoc]
      rfl

/-- What is found with ASCII letters put in lower case is found in lower case. -/
theorem isInfix_lower (hm : m <:+: s) (h : ∀ c ∈ m, Settled c.toLower) :
    lowerAscii m <:+: lower s := by
  obtain ⟨front, back, rfl⟩ := hm
  obtain ⟨lowered, hlowered⟩ := lowerFrom_append [] front (m ++ back)
  rw [lower, List.append_assoc, hlowered, lowerFrom_of_settled h]
  exact ⟨lowered, _, List.append_assoc _ _ _⟩

end DocWatch.Text
