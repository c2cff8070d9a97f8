import DocWatch.Json.Reader
import DocWatch.Proofs.Binary64.Decimal

/-!
# Numbers as JSON spells them

`Literal` is a number as the grammar of JSON has it: digits without a leading zero, and
perhaps a minus, a fraction and an exponent. It stands for a rational number, and one number
has many spellings.

The reader keeps a number whole only where it is spelled as one, without a point and without
an exponent, and fits 64 bits. All else becomes a floating-point number, a zero with a minus
in front of it too. So whether a number can be used as a count is decided by its spelling
and its size, and not by its value alone.
-/

namespace DocWatch.Json

open Text (MaximalRun digitsValue)

/-- The exponent of a number as it is written. -/
structure Exponent where
  mark : Char
  sign : Sign
  digits : List Char
  isMark : mark = 'e' ∨ mark = 'E'
  isDigit_of_mem : ∀ c ∈ digits, c.isDigit = true
  ne_nil : digits ≠ []

/-- A number as JSON spells it. -/
structure Literal where
  negative : Bool
  whole : List Char
  /-- The digits behind the point, if there is one. -/
  fraction? : Option (List Char)
  exponent? : Option Exponent
  isDigit_of_mem : ∀ c ∈ whole ++ fraction?.getD [], c.isDigit = true
  ne_nil : whole ≠ []
  fraction_ne_nil : fraction? ≠ some []
  noLeadingZero : whole.head? = some '0' → whole.length = 1

namespace Exponent

def text (e : Exponent) : List Char :=
  e.mark :: (e.sign.text ++ e.digits)

def value (e : Exponent) : Int :=
  Binary64.signedNat e.sign.isNegative (digitsValue e.digits)

end Exponent

namespace Literal

/-- What is written behind the whole digits. -/
def tail (l : Literal) : List Char :=
  (match l.fraction? with
    | none => []
    | some fraction => '.' :: fraction) ++
  match l.exponent? with
    | none => []
    | some e => e.text

/-- A number as it is written, without its sign. -/
def body (l : Literal) : List Char :=
  l.whole ++ l.tail

def text (l : Literal) : List Char :=
  if l.negative then '-' :: l.body else l.body

/-- What a number stands for. -/
def value (l : Literal) : ℚ :=
  Binary64.signedNat l.negative (digitsValue (l.whole ++ l.fraction?.getD [])) /
    10 ^ (l.fraction?.getD []).length * 10 ^ (l.exponent?.elim 0 Exponent.value)

/-- A number is spelled as a whole one, and fits 64 bits with a sign. -/
structure Fits (l : Literal) (n : Int) : Prop where
  noTail : l.tail = []
  noMinusZero : l.negative = true → digitsValue l.whole ≠ 0
  value_eq : l.value = n
  lower : -(Nat.pow 2 63 : Int) ≤ n
  upper : n < Nat.pow 2 63

end Literal

namespace Reader

variable {digits s rest : List Char} {sig used : Nat} {negative : Bool}

/-! ## Digits -/

/-- A significand with further digits behind it. -/
def extended (sig : Nat) (digits : List Char) : Nat :=
  digits.foldl (fun n c => n * 10 + (c.toNat - 48)) sig

theorem extended_cons (sig : Nat) (c : Char) (digits : List Char) :
    extended sig (c :: digits) = extended (sig * 10 + (c.toNat - 48)) digits := by
  rw [extended, List.foldl_cons, extended]

theorem le_extended (sig : Nat) (digits : List Char) : sig ≤ extended sig digits := by
  induction digits generalizing sig with
  | nil => exact Nat.le_refl _
  | cons c digits ih =>
      have hnext : sig ≤ sig * 10 + (c.toNat - 48) := by omega
      exact Nat.le_trans hnext (ih _)

/-- Digits that fit 64 bits all go into the significand. -/
theorem accumulate_of_lt (h : extended sig digits < Nat.pow 2 64) :
    accumulate sig used digits = (extended sig digits, used + digits.length, []) := by
  induction digits generalizing sig used with
  | nil => rfl
  | cons c digits ih =>
      rw [extended_cons] at h
      have hnext := Nat.lt_of_le_of_lt (le_extended _ digits) h
      rw [accumulate, if_pos hnext, ih h, extended_cons, List.length_cons, Nat.add_assoc,
        Nat.add_comm 1]

/-- Where no digit is left, all of them are in the significand. -/
theorem accumulate_of_nil {sig' used' : Nat} (h : accumulate sig used digits = (sig', used', [])) :
    sig' = extended sig digits := by
  induction digits generalizing sig used with
  | nil =>
      rw [accumulate, Prod.mk.injEq] at h
      exact h.1.symm
  | cons c digits ih =>
      rw [accumulate] at h
      split at h
      · exact ih h
      · cases h

/-! ## One number -/

/-- What is spelled as a whole number and fits is kept whole. -/
theorem number?_of_lt (hrun : MaximalRun Char.isDigit [] digits []) (hne : digits ≠ [])
    (hzero : digits.head? = some '0' → digits.length = 1)
    (hlt : digitsValue digits < Nat.pow 2 64) :
    number? negative digits =
      if !negative then some (.whole (digitsValue digits), [])
      else if digitsValue digits = 0 ∨ Nat.pow 2 63 < digitsValue digits then
        some (.float (Binary64.ofNat (digitsValue digits)).neg, [])
      else some (.whole (-(digitsValue digits : Int)), []) := by
  have htake := hrun.takeWhile_eq
  have hdrop := hrun.dropWhile_eq
  rw [List.append_nil] at htake hdrop
  have hleading : ¬ (digits.head? = some '0' ∧ digits.length ≠ 1) :=
    fun h => h.2 (hzero h.1)
  have hall : accumulate 0 0 digits = (digitsValue digits, 0 + digits.length, []) :=
    accumulate_of_lt hlt
  simp only [number?, htake, hdrop, if_neg hne, if_neg hleading, hall]
  rfl

/-- What is kept whole is spelled as a whole number. -/
theorem number?_whole {n : Int} (h : number? negative s = some (.whole n, rest)) :
    rest = s.dropWhile Char.isDigit ∧
      n = Binary64.signedNat negative (digitsValue (s.takeWhile Char.isDigit)) ∧
      (negative = true → n ≠ 0 ∧ -(Nat.pow 2 63 : Int) ≤ n) := by
  have hfinish : ∀ (sig : Nat) (shift : Int) (behind : List Char),
      ((exponent? behind).bind fun found =>
        (scaled? 400 (.ofNat sig) (max (-100000) (min 100000 (shift + found.1)))).bind fun f =>
          some (Number.float (f.signed negative), found.2)) ≠ some (.whole n, rest) := by
    intro sig shift behind h
    simp only [Option.bind_eq_some_iff] at h
    obtain ⟨_, -, f, -, hf⟩ := h
    cases hf
  simp only [number?] at h
  split at h
  · cases h
  split at h
  · cases h
  cases hsig : accumulate 0 0 (s.takeWhile Char.isDigit) with
  | mk sig more =>
      obtain ⟨used, left⟩ := more
      rw [hsig] at h
      dsimp only at h
      split at h
      · split at h
        · cases h
        · exact absurd h (hfinish _ _ _)
      · exact absurd h (hfinish _ _ _)
      · exact absurd h (hfinish _ _ _)
      split at h
      · exact absurd h (hfinish _ _ _)
      rename_i hleft
      rw [ne_eq, not_not] at hleft
      subst hleft
      have hvalue : sig = digitsValue (s.takeWhile Char.isDigit) := accumulate_of_nil hsig
      rw [← hvalue]
      cases negative with
      | false =>
          cases h
          refine ⟨rfl, rfl, fun hnegative => ?_⟩
          cases hnegative
      | true =>
          rw [if_neg (by decide)] at h
          split at h
          · cases h
          · rename_i hbounds
            rw [not_or, Nat.not_lt] at hbounds
            cases h
            refine ⟨rfl, rfl, fun _ => ⟨by omega, by omega⟩⟩

/-! ## A whole text -/

theorem value?_minus (fuel depth : Nat) (s : List Char) :
    value? (fuel + 1) depth ('-' :: s) = (number? true s).map fun (n, r) => (.number n, r) := by
  have hskip : skip ('-' :: s) = '-' :: s := rfl
  rw [value?, hskip]
  rfl

theorem value?_of_isDigit {c : Char} (hc : c.isDigit = true) (fuel depth : Nat) (s : List Char) :
    value? (fuel + 1) depth (c :: s) =
      (number? false (c :: s)).map fun (n, r) => (.number n, r) := by
  have hskip : skip (c :: s) = c :: s := by
    rw [skip, List.dropWhile_cons_of_neg]
    intro hspace
    simp only [isSpace, Bool.or_eq_true, decide_eq_true_eq] at hspace
    rcases hspace with ((rfl | rfl) | rfl) | rfl <;> revert hc <;> decide
  rw [value?, hskip]
  split
  case h_8 heq =>
    cases heq
    rw [if_pos hc]
  -- no digit begins anything but a number
  all_goals
    rename_i heq
    cases heq <;> cases hc

end Reader

namespace Literal

open Reader

variable {l : Literal} {n : Int} {v : Json}

theorem value?_text (l : Literal) (fuel depth : Nat) :
    value? (fuel + 1) depth l.text =
      (number? l.negative l.body).map fun (num, r) => (.number num, r) := by
  rw [text]
  cases l.negative with
  | true => exact value?_minus fuel depth l.body
  | false =>
      obtain ⟨c, more, hwhole⟩ := List.exists_cons_of_ne_nil l.ne_nil
      have hc : c.isDigit = true := by
        refine l.isDigit_of_mem c (List.mem_append_left _ ?_)
        rw [hwhole]
        exact List.mem_cons_self
      rw [body, hwhole, List.cons_append]
      exact value?_of_isDigit hc fuel depth (more ++ l.tail)

theorem parse?_text_eq_some_iff :
    parse? l.text = some v ↔
      ∃ num rest, number? l.negative l.body = some (num, rest) ∧ skip rest = [] ∧
        v = .number num := by
  rw [parse?, value?_text]
  cases number? l.negative l.body with
  | none => simp
  | some found =>
      obtain ⟨num, rest⟩ := found
      rw [Option.map_some]
      dsimp only
      constructor
      · intro h
        split at h
        · rename_i hrest
          exact ⟨num, rest, rfl, hrest, (Option.some.inj h).symm⟩
        · cases h
      · rintro ⟨_, _, hfound, hrest, rfl⟩
        cases hfound
        rw [if_pos hrest]

/-- Behind the whole digits there is no digit, and no white space. -/
theorem tail_cases (l : Literal) :
    l.tail = [] ∨ ∃ c rest, l.tail = c :: rest ∧ c.isDigit = false ∧ isSpace c = false := by
  rw [tail]
  cases l.fraction? with
  | some fraction => exact .inr ⟨'.', _, rfl, rfl, rfl⟩
  | none =>
      cases l.exponent? with
      | none => exact .inl rfl
      | some e =>
          refine .inr ⟨e.mark, _, rfl, ?_⟩
          rcases e.isMark with hmark | hmark <;> rw [hmark] <;> exact ⟨rfl, rfl⟩

theorem run_whole (l : Literal) : MaximalRun Char.isDigit [] l.whole l.tail where
  within := fun c hc => l.isDigit_of_mem c (List.mem_append_left _ hc)
  front := nofun
  back := by
    intro c hc
    rcases l.tail_cases with htail | ⟨x, rest, htail, hx, -⟩
    · rw [htail] at hc
      cases hc
    · rw [htail] at hc
      cases hc
      exact hx

theorem value_of_tail (h : l.tail = []) :
    l.value = (Binary64.signedNat l.negative (digitsValue l.whole) : Int) := by
  rw [tail, List.append_eq_nil_iff] at h
  have hfraction : l.fraction? = none := by
    cases hf : l.fraction? with
    | none => rfl
    | some fraction =>
        rw [hf] at h
        cases h.1
  have hexponent : l.exponent? = none := by
    cases he : l.exponent? with
    | none => rfl
    | some e =>
        rw [he] at h
        cases h.2
  rw [value, hfraction, hexponent]
  simp

/-- A number that fits is read as it is. -/
theorem Fits.parse?_text (h : l.Fits n) : parse? l.text = some (.number (.whole n)) := by
  have hvalue : Binary64.signedNat l.negative (digitsValue l.whole) = n := by
    have hn := h.value_eq
    rw [value_of_tail h.noTail] at hn
    exact Int.cast_injective hn
  have hrun := l.run_whole
  have hlower := h.lower
  have hupper := h.upper
  rw [Nat.pow_eq] at hlower hupper
  rw [h.noTail] at hrun
  rw [Binary64.signedNat] at hvalue
  refine parse?_text_eq_some_iff.2 ⟨_, [], ?_, rfl, rfl⟩
  have hlt : digitsValue l.whole < Nat.pow 2 64 := by
    rw [Nat.pow_eq]
    split at hvalue <;> omega
  rw [body, h.noTail, List.append_nil, number?_of_lt hrun l.ne_nil l.noLeadingZero hlt]
  cases hsign : l.negative with
  | false =>
      rw [hsign, if_neg Bool.false_ne_true] at hvalue
      rw [hvalue]
      rfl
  | true =>
      have hzero := h.noMinusZero hsign
      rw [hsign, if_pos rfl] at hvalue
      rw [if_neg (by decide), if_neg, hvalue]
      rw [Nat.pow_eq]
      omega

/-- A number that does not fit is read as none that can be used as a count. -/
theorem int64?_of_not_fits (hvalue : l.value = n) (h : ¬ l.Fits n) (hv : parse? l.text = some v) :
    v.int64? = none := by
  obtain ⟨num, rest, hnum, hrest, rfl⟩ := parse?_text_eq_some_iff.1 hv
  cases num with
  | float x => rfl
  | whole m =>
      obtain ⟨rfl, hm, hnegative⟩ := number?_whole hnum
      rw [body, l.run_whole.takeWhile_eq] at hm
      rw [body, l.run_whole.dropWhile_eq] at hrest
      have htail : l.tail = [] := by
        rcases l.tail_cases with htail | ⟨c, more, htail, -, hspace⟩
        · exact htail
        · rw [htail, skip, List.dropWhile_cons_of_neg (by simp [hspace])] at hrest
          cases hrest
      have hmn : m = n := by
        rw [value_of_tail htail, ← hm] at hvalue
        exact Int.cast_injective hvalue
      subst hmn
      rw [int64?, if_neg]
      intro hlt
      refine h ⟨htail, ?_, hvalue, ?_, hlt⟩
      · intro hneg hzero
        refine (hnegative hneg).1 ?_
        rw [hm, hzero, hneg]
        rfl
      · cases hsign : l.negative with
        | true => exact (hnegative hsign).2
        | false =>
            rw [hm, hsign, Binary64.signedNat, if_neg Bool.false_ne_true]
            exact Int.le_trans (by decide) (Int.natCast_nonneg _)

end Literal

end DocWatch.Json
