import DocWatch.Binary64.Reading
import DocWatch.Proofs.Text.Digits

/-!
# Which numbers a text is read as

A text whose first character is a digit or a point has no sign and is none of the words for
infinity and for no number. What such a text is read as, its digits decide.
-/

namespace DocWatch.Binary64

variable {negative : Bool} {s whole fraction rest : List Char} {c : Char}

/-- The character that a decimal literal without sign may start with. -/
def startsLiteral (c : Char) : Bool :=
  c.isDigit || c = '.'

theorem toNat_of_startsLiteral (h : startsLiteral c = true) : 46 ≤ c.toNat ∧ c.toNat ≤ 57 := by
  rw [startsLiteral, Bool.or_eq_true, decide_eq_true_eq] at h
  rcases h with h | rfl
  · have := Text.toNat_of_isDigit h
    omega
  · decide

theorem startsLiteral_of_isDigit (h : c.isDigit = true) : startsLiteral c = true := by
  rw [startsLiteral, h, Bool.true_or]

theorem takeSign_of_startsLiteral (h : startsLiteral c = true) :
    takeSign (c :: rest) = (false, c :: rest) := by
  have hrange := toNat_of_startsLiteral h
  rw [takeSign.eq_def]
  split
  · rename_i heq
    cases heq
    exact absurd hrange (by decide)
  · rename_i heq
    cases heq
    exact absurd hrange (by decide)
  · rfl

/-- A text that starts like a literal is no word. -/
theorem read?_of_startsLiteral (hsign : takeSign s = (negative, c :: rest))
    (h : startsLiteral c = true) : read? s = unsigned? negative (c :: rest) := by
  obtain ⟨hlow, hhigh⟩ := toNat_of_startsLiteral h
  have hlower : ∀ d : Char, 57 < d.toNat → c.toLower ≠ d := by
    intro d hd heq
    have hsmall : c.toLower = c := by
      refine dif_neg fun h => ?_
      have : 65 ≤ c.toNat := UInt32.le_iff_toNat_le.1 h.1
      omega
    rw [hsmall] at heq
    rw [heq] at hhigh
    omega
  have hi := hlower 'i' (by decide)
  have hn := hlower 'n' (by decide)
  rw [read?, hsign]
  simp [hi, hn]

theorem unsigned?_of_whole (hwhole : Text.MaximalRun Char.isDigit [] whole rest)
    (hne : whole ≠ []) (hpoint : rest.head? ≠ some '.') :
    unsigned? negative (whole ++ rest) =
      (exponentPart? rest).map fun e => ofDecimal negative (Text.digitsValue whole) e := by
  rw [unsigned?, hwhole.takeWhile_eq, hwhole.dropWhile_eq]
  split
  rename_i heq
  split at heq
  · exact absurd rfl hpoint
  · cases heq
    rw [if_neg fun h => hne h.1, List.append_nil]
    simp only [List.length_nil, Int.ofNat_zero, Int.sub_zero]

theorem unsigned?_of_fraction (hwhole : ∀ c ∈ whole, c.isDigit = true)
    (hfraction : Text.MaximalRun Char.isDigit [] fraction rest)
    (hne : whole ++ fraction ≠ []) :
    unsigned? negative (whole ++ '.' :: (fraction ++ rest)) =
      (exponentPart? rest).map fun e =>
        ofDecimal negative (Text.digitsValue (whole ++ fraction)) (e - fraction.length) := by
  have hrun : Text.MaximalRun Char.isDigit [] whole ('.' :: (fraction ++ rest)) := by
    refine ⟨hwhole, nofun, fun c hc => ?_⟩
    cases hc
    decide
  rw [unsigned?, hrun.takeWhile_eq, hrun.dropWhile_eq]
  split
  rename_i heq
  split at heq
  · rename_i more hmore
    cases hmore
    rw [hfraction.takeWhile_eq, hfraction.dropWhile_eq] at heq
    cases heq
    rw [if_neg]
    rintro ⟨hw, hf⟩
    exact hne (by rw [hw, hf, List.append_nil])
  · rename_i hother
    exact absurd rfl (hother _)

end DocWatch.Binary64
