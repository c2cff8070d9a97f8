import DocWatch.Text.Quoted

/-!
# Quoting letters

Letters stand between quotes as they are.
-/

namespace DocWatch.Text

theorem toNat_of_isAlpha {c : Char} (h : c.isAlpha = true) : 65 ≤ c.toNat ∧ c.toNat ≤ 122 := by
  change (decide ('A' ≤ c ∧ c ≤ 'Z') || (decide ('a' ≤ c) && decide (c ≤ 'z'))) = true at h
  simp only [Bool.or_eq_true, Bool.and_eq_true, decide_eq_true_eq, Char.le_def,
    UInt32.le_iff_toNat_le] at h
  change 65 ≤ c.val.toNat ∧ c.val.toNat ≤ 122
  change (65 ≤ c.val.toNat ∧ c.val.toNat ≤ 90) ∨ (97 ≤ c.val.toNat ∧ c.val.toNat ≤ 122) at h
  omega

theorem isHidden_of_graphic : ∀ n : Fin 127, 33 ≤ n.val → hiddenRanges.has n.val = false := by
  decide +kernel

theorem quotedChar_of_isAlpha {c : Char} (h : c.isAlpha = true) : quotedChar c = [c] := by
  obtain ⟨hlow, hhigh⟩ := toNat_of_isAlpha h
  have hhidden : isHidden c = false :=
    isHidden_of_graphic ⟨c.toNat, by omega⟩ (Nat.le_trans (by decide) hlow)
  have hne : ∀ d : Char, d.isAlpha = false → c ≠ d := by
    rintro d hd rfl
    rw [h] at hd
    cases hd
  rw [quotedChar, if_neg (hne _ (by decide)), if_neg (hne _ (by decide)),
    if_neg (hne _ (by decide)), if_neg (hne _ (by decide)), if_neg (hne _ (by decide)),
    if_neg (by omega), hhidden]
  rfl

theorem quoted_of_letters {s : List Char} (h : ∀ c ∈ s, c.isAlpha = true) :
    quoted s = '"' :: s ++ ['"'] := by
  have hself : s.flatMap quotedChar = s := by
    induction s with
    | nil => rfl
    | cons c rest ih =>
        rw [List.flatMap_cons, quotedChar_of_isAlpha (h c List.mem_cons_self),
          ih fun c hc => h c (List.mem_cons_of_mem _ hc), List.singleton_append]
  rw [quoted, hself]

end DocWatch.Text
