import DocWatch.Binary64.Written
import DocWatch.Proofs.Binary64.Reading
import DocWatch.Proofs.Binary64.Rounding

/-!
# Numbers in decimal notation

`Decimal` is a number as it is written without an exponent: a sign, digits, and perhaps a
point with further digits. It stands for a rational number, exactly, and its text leaves no
choice about that. So what a text denotes can be told without any reading or rounding, and
what is read from a text, or written to one, can be compared with it.
-/

namespace DocWatch

/-- The sign in front of a number. -/
inductive Sign where
  | none
  | plus
  | minus
  deriving DecidableEq

/-- A sign as it is written. -/
def Sign.text : Sign → List Char
  | .none => []
  | .plus => ['+']
  | .minus => ['-']

/-- Whether a sign stands for a number below zero. -/
def Sign.isNegative : Sign → Bool
  | .minus => true
  | _ => false

theorem Sign.text_injective {s s' : Sign} (h : s.text = s'.text) : s = s' := by
  revert h
  cases s <;> cases s' <;> decide

/-- A number in decimal notation. -/
structure Decimal where
  sign : Sign
  whole : List Char
  /-- The digits behind the point, if there is one. -/
  fraction? : Option (List Char)
  isDigit_of_mem : ∀ c ∈ whole ++ fraction?.getD [], c.isDigit = true
  ne_nil : whole ++ fraction?.getD [] ≠ []

namespace Decimal

/-- The digits before and behind the point. -/
def digits (d : Decimal) : List Char :=
  d.whole ++ d.fraction?.getD []

/-- The number of digits behind the point. -/
def places (d : Decimal) : Nat :=
  (d.fraction?.getD []).length

/-- The point and the digits behind it as they are written. -/
def fractionText (d : Decimal) : List Char :=
  match d.fraction? with
  | none => []
  | some fraction => '.' :: fraction

/-- A number as it is written. -/
def text (d : Decimal) : List Char :=
  d.sign.text ++ (d.whole ++ d.fractionText)

/-- What a number stands for. -/
def value (d : Decimal) : ℚ :=
  Binary64.signedNat d.sign.isNegative (Text.digitsValue d.digits) / 10 ^ d.places

variable {d d' : Decimal}

/-- The digits before the point go as far as the point. -/
theorem run_whole (d : Decimal) : Text.MaximalRun Char.isDigit [] d.whole d.fractionText where
  within := fun c hc => d.isDigit_of_mem c (List.mem_append_left _ hc)
  front := nofun
  back := by
    intro c hc
    rw [fractionText] at hc
    split at hc
    · cases hc
    · cases hc
      decide

theorem exists_body (d : Decimal) :
    ∃ c rest, d.whole ++ d.fractionText = c :: rest ∧ Binary64.startsLiteral c = true := by
  cases hwhole : d.whole with
  | cons c rest =>
      have hc : c.isDigit = true := d.run_whole.within c (hwhole ▸ List.mem_cons_self)
      exact ⟨c, rest ++ d.fractionText, rfl, Binary64.startsLiteral_of_isDigit hc⟩
  | nil =>
      cases hfraction : d.fraction? with
      | none => exact absurd (by simp [hwhole, hfraction]) d.ne_nil
      | some fraction =>
          refine ⟨'.', fraction, ?_, by decide⟩
          rw [fractionText, hfraction]
          rfl

theorem takeSign_text (d : Decimal) :
    Binary64.takeSign d.text = (d.sign.isNegative, d.whole ++ d.fractionText) := by
  obtain ⟨c, rest, hbody, hc⟩ := d.exists_body
  rw [text, hbody]
  cases d.sign with
  | none => exact Binary64.takeSign_of_startsLiteral hc
  | plus => rfl
  | minus => rfl

/-- A text is that of one number at most. -/
theorem text_injective (h : d.text = d'.text) : d = d' := by
  have hsigns := congrArg Binary64.takeSign h
  rw [takeSign_text, takeSign_text, Prod.mk.injEq] at hsigns
  have hwhole : d.whole = d'.whole := by
    rw [← d.run_whole.takeWhile_eq, hsigns.2, d'.run_whole.takeWhile_eq]
  have hfraction : d.fractionText = d'.fractionText := by
    rw [← d.run_whole.dropWhile_eq, hsigns.2, d'.run_whole.dropWhile_eq]
  have hsign : d.sign.text = d'.sign.text := by
    rw [text, text, hsigns.2] at h
    exact List.append_cancel_right h
  obtain ⟨sign, whole, fraction?, _, _⟩ := d
  obtain ⟨sign', whole', fraction?', _, _⟩ := d'
  obtain rfl : sign = sign' := Sign.text_injective hsign
  obtain rfl : whole = whole' := hwhole
  obtain rfl : fraction? = fraction?' := by
    cases fraction? <;> cases fraction?' <;> cases hfraction <;> rfl
  rfl

/-- A number is read as the floating-point number that is nearest to its digits. -/
theorem read?_text (d : Decimal) :
    Binary64.read? d.text =
      some (Binary64.ofDecimal d.sign.isNegative (Text.digitsValue d.digits)
        (-(d.places : Int))) := by
  obtain ⟨c, rest, hbody, hc⟩ := d.exists_body
  have hsign := d.takeSign_text
  rw [hbody] at hsign
  rw [Binary64.read?_of_startsLiteral hsign hc, ← hbody]
  cases hfraction : d.fraction? with
  | none =>
      have hdigits : d.digits = d.whole := by
        rw [digits, hfraction, Option.getD_none, List.append_nil]
      have hplaces : d.places = 0 := by
        rw [places, hfraction]
        rfl
      have hpoint : d.fractionText = [] := by rw [fractionText, hfraction]
      have hne : d.whole ≠ [] := hdigits ▸ d.ne_nil
      rw [Binary64.unsigned?_of_whole d.run_whole hne (by rw [hpoint]; nofun), hpoint, hdigits,
        hplaces]
      rfl
  | some fraction =>
      have hdigits : d.digits = d.whole ++ fraction := by rw [digits, hfraction, Option.getD_some]
      have hplaces : d.places = fraction.length := by rw [places, hfraction, Option.getD_some]
      have hpoint : d.fractionText = '.' :: (fraction ++ []) := by
        rw [fractionText, hfraction, List.append_nil]
      have hbehind : Text.MaximalRun Char.isDigit [] fraction [] := by
        refine ⟨fun c hc => d.isDigit_of_mem c ?_, nofun, nofun⟩
        rw [hfraction, Option.getD_some]
        exact List.mem_append_right _ hc
      have hne : d.whole ++ fraction ≠ [] := hdigits ▸ d.ne_nil
      rw [hpoint, Binary64.unsigned?_of_fraction d.run_whole.within hbehind hne, hdigits, hplaces]
      change some (Binary64.ofDecimal _ _ (0 - (fraction.length : Int))) = _
      rw [Int.zero_sub]

end Decimal

/-- A text is a number in decimal notation that stands for `q`. -/
def Denotes (text : List Char) (q : ℚ) : Prop :=
  ∃ d : Decimal, text = d.text ∧ d.value = q

theorem Denotes.unique {text : List Char} {q q' : ℚ} (h : Denotes text q) (h' : Denotes text q') :
    q = q' := by
  obtain ⟨d, htext, rfl⟩ := h
  obtain ⟨d', htext', rfl⟩ := h'
  rw [Decimal.text_injective (htext.symm.trans htext')]

/-- What denotes nothing is read as nothing. -/
theorem Denotes.read?_zero {text : List Char} (h : Denotes text 0) :
    ∃ negative, Binary64.read? text = some (.finite negative 0 Binary64.leastExponent) := by
  obtain ⟨d, rfl, hvalue⟩ := h
  have hdigits : Text.digitsValue d.digits = 0 := by
    rw [Decimal.value, div_eq_zero_iff] at hvalue
    have hsigned := Int.cast_eq_zero.1 (hvalue.resolve_right (by positivity))
    rw [Binary64.signedNat] at hsigned
    split at hsigned <;> omega
  exact ⟨_, by rw [d.read?_text, Binary64.ofDecimal, hdigits]; exact congrArg _ (if_pos (.inl rfl))⟩

/-! ## Numbers that are written with a point -/

theorem digitsValue_padFront (width n : Nat) :
    Text.digitsValue (Binary64.padFront width (Binary64.decimal n)) = n := by
  rw [Text.digitsValue_eq, Binary64.padFront, Nat.ofDigitChars_append,
    Nat.ofDigitChars_replicate_zero, Nat.mul_zero, Binary64.decimal,
    Nat.ofDigitChars_toDigits (by decide) (by decide)]

theorem isDigit_of_mem_padFront {width n : Nat} {c : Char}
    (h : c ∈ Binary64.padFront width (Binary64.decimal n)) : c.isDigit = true := by
  rcases List.mem_append.1 h with h | h
  · rw [List.eq_of_mem_replicate h]
    decide
  · exact Nat.isDigit_of_mem_toDigits (by decide) (by decide) h

theorem length_padFront (width : Nat) (digits : List Char) :
    width ≤ (Binary64.padFront width digits).length := by
  rw [Binary64.padFront, List.length_append, List.length_replicate]
  omega

theorem denotes_decimal (n : Nat) : Denotes (Binary64.decimal n) n := by
  have hne : Binary64.decimal n ≠ [] := Nat.toDigits_ne_nil
  refine ⟨⟨.none, Binary64.decimal n, none, ?_, ?_⟩, ?_, ?_⟩
  · intro c hc
    rw [Option.getD_none, List.append_nil] at hc
    exact Nat.isDigit_of_mem_toDigits (by decide) (by decide) hc
  · rw [Option.getD_none, List.append_nil]
    exact hne
  · exact (List.append_nil _).symm
  · change ((Text.digitsValue (Binary64.decimal n ++ []) : Int) : ℚ) / 10 ^ 0 = n
    rw [List.append_nil, Text.digitsValue_eq, Binary64.decimal,
      Nat.ofDigitChars_toDigits (by decide) (by decide), pow_zero, div_one, Int.cast_natCast]

theorem denotes_withPoint (negative : Bool) (places n : Nat) (hplaces : places ≠ 0) :
    Denotes (Binary64.signText negative ++ Binary64.withPoint places (Binary64.decimal n))
      (Binary64.signedNat negative n / 10 ^ places) := by
  have hlength := length_padFront (places + 1) (Binary64.decimal n)
  have hdigits := @isDigit_of_mem_padFront (places + 1) n
  have hvalue := digitsValue_padFront (places + 1) n
  rw [Binary64.withPoint, if_neg hplaces]
  generalize Binary64.padFront (places + 1) (Binary64.decimal n) = all at hlength hdigits hvalue ⊢
  have hall : all.take (all.length - places) ++ all.drop (all.length - places) = all :=
    List.take_append_drop _ _
  refine ⟨⟨if negative then .minus else .none, all.take (all.length - places),
    some (all.drop (all.length - places)), ?_, ?_⟩, ?_, ?_⟩
  · rw [Option.getD_some, hall]
    exact fun c hc => hdigits hc
  · rw [Option.getD_some, hall]
    rintro rfl
    exact absurd hlength (by simp)
  · cases negative <;> rfl
  · have hlen : (all.drop (all.length - places)).length = places := by
      rw [List.length_drop]
      omega
    change (Binary64.signedNat (Sign.isNegative (if negative then .minus else .none))
      (Text.digitsValue (all.take (all.length - places) ++ all.drop (all.length - places))) : ℚ) /
      10 ^ (all.drop (all.length - places)).length = _
    rw [hall, hvalue, hlen]
    cases negative <;> rfl

end DocWatch
