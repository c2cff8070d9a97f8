import DocWatch.Proofs.Binary64.Reading
import DocWatch.Proofs.Time.Span

/-!
# Spans that are written in components

A component is written as digits and the abbreviation of a unit, and a span as one component
after another. `Term` is a component as it stands in a text, `joined` the text of several.
The reader of components takes digits and letters as far as they go. That is right because
the two classes alternate: digits end before a letter, and an abbreviation ends before a
digit or with the text. For the same reason a text can be taken apart in one way only, and
none of these texts is a decimal number, since no abbreviation begins with a point or with
the mark of an exponent.
-/

namespace DocWatch.Time

/-- A unit as it is written. -/
def Unit.abbreviation : Unit → List Char
  | .millisecond => ['m', 's']
  | .second => ['s']
  | .minute => ['m']
  | .hour => ['h']
  | .day => ['d']
  | .week => ['w']
  | .year => ['y']

theorem Unit.parse?_abbreviation (u : Unit) : Unit.parse? u.abbreviation = some u := by
  cases u <;> rfl

theorem Unit.parse?_eq_some_iff {s : List Char} {u : Unit} :
    Unit.parse? s = some u ↔ s = u.abbreviation := by
  constructor
  · intro h
    rw [Unit.parse?.eq_def] at h
    split at h <;> cases h <;> rfl
  · rintro rfl
    exact u.parse?_abbreviation

theorem Unit.abbreviation_injective {u v : Unit} (h : u.abbreviation = v.abbreviation) :
    u = v := by
  have hu := u.parse?_abbreviation
  rw [h, v.parse?_abbreviation] at hu
  exact Option.some.inj hu.symm

theorem Unit.isAlpha_of_mem {u : Unit} {c : Char} (h : c ∈ u.abbreviation) :
    c.isAlpha = true := by
  have hall : u.abbreviation.all Char.isAlpha = true := by cases u <;> decide
  exact List.all_eq_true.1 hall c h

/-- An abbreviation starts with a letter that goes on no number. -/
theorem Unit.exists_abbreviation (u : Unit) :
    ∃ c rest, u.abbreviation = c :: rest ∧ c.isDigit = false ∧ c ≠ '.' ∧ c ≠ 'e' ∧ c ≠ 'E' := by
  cases u <;> exact ⟨_, _, rfl, by decide, by decide, by decide, by decide⟩

namespace Span

/-- A component as it is written. -/
structure Term where
  digits : List Char
  unit : Unit
  digits_ne_nil : digits ≠ []
  isDigit_of_mem : ∀ c ∈ digits, c.isDigit = true
  digitsValue_lt : Text.digitsValue digits < Nat.pow 2 64

def Term.text (t : Term) : List Char :=
  t.digits ++ t.unit.abbreviation

/-- The count with its unit that a component stands for. -/
def Term.component (t : Term) : Component :=
  ⟨Text.digitsValue t.digits, t.unit⟩

def joined (ts : List Term) : List Char :=
  ts.flatMap Term.text

variable {s : List Char} {t t' : Term} {ts ts' : List Term}

theorem joined_cons (t : Term) (ts : List Term) : joined (t :: ts) = t.text ++ joined ts :=
  List.flatMap_cons

theorem Term.exists_text (t : Term) : ∃ c rest, t.text = c :: rest ∧ c.isDigit = true := by
  obtain ⟨c, rest, hdigits⟩ := List.exists_cons_of_ne_nil t.digits_ne_nil
  refine ⟨c, rest ++ t.unit.abbreviation, ?_, ?_⟩
  · rw [Term.text, hdigits, List.cons_append]
  · exact t.isDigit_of_mem c (hdigits ▸ List.mem_cons_self)

theorem isDigit_of_head?_joined {c : Char} (h : c ∈ (joined ts).head?) : c.isDigit = true := by
  cases ts with
  | nil => cases h
  | cons t ts =>
      obtain ⟨d, rest, htext, hd⟩ := t.exists_text
      rw [joined_cons, htext] at h
      cases h
      exact hd

theorem joined_ne_nil (h : ts ≠ []) : joined ts ≠ [] := by
  obtain ⟨t, ts, rfl⟩ := List.exists_cons_of_ne_nil h
  obtain ⟨c, rest, htext, -⟩ := t.exists_text
  rw [joined_cons, htext]
  exact List.cons_ne_nil _ _

theorem Term.run_digits (t : Term) (rest : List Char) :
    Text.MaximalRun Char.isDigit [] t.digits (t.unit.abbreviation ++ rest) where
  within := t.isDigit_of_mem
  front := nofun
  back := by
    obtain ⟨c, more, habbreviation, hc, -⟩ := t.unit.exists_abbreviation
    intro d hd
    rw [habbreviation] at hd
    cases hd
    exact hc

theorem run_abbreviation (u : Unit) (ts : List Term) :
    Text.MaximalRun Char.isAlpha [] u.abbreviation (joined ts) where
  within := fun _ => Unit.isAlpha_of_mem
  front := nofun
  back := fun _ hc => Text.isAlpha_eq_false_of_isDigit (isDigit_of_head?_joined hc)

theorem Term.text_append (t : Term) (rest : List Char) :
    t.text ++ rest = t.digits ++ (t.unit.abbreviation ++ rest) :=
  List.append_assoc _ _ _

/-! ## One way to take a text apart -/

theorem cons_injective (h : joined (t :: ts) = joined (t' :: ts')) :
    t = t' ∧ joined ts = joined ts' := by
  rw [joined_cons, joined_cons, t.text_append, t'.text_append] at h
  -- the digits end where the first letter stands, on both sides
  have hdigits : t.digits = t'.digits := by
    rw [← (t.run_digits (joined ts)).takeWhile_eq, h, (t'.run_digits _).takeWhile_eq]
  rw [hdigits] at h
  have hrest := List.append_cancel_left h
  have hunit : t.unit = t'.unit := by
    apply Unit.abbreviation_injective
    rw [← (run_abbreviation t.unit ts).takeWhile_eq, hrest,
      (run_abbreviation t'.unit ts').takeWhile_eq]
  rw [hunit] at hrest
  refine ⟨?_, List.append_cancel_left hrest⟩
  cases t
  cases t'
  cases hdigits
  cases hunit
  rfl

theorem joined_injective (h : joined ts = joined ts') : ts = ts' := by
  induction ts generalizing ts' with
  | nil =>
      cases ts' with
      | nil => rfl
      | cons t' ts' => exact absurd h.symm (joined_ne_nil (List.cons_ne_nil _ _))
  | cons t ts ih =>
      cases ts' with
      | nil => exact absurd h (joined_ne_nil (List.cons_ne_nil _ _))
      | cons t' ts' =>
          obtain ⟨rfl, hrest⟩ := cons_injective h
          rw [ih hrest]

/-! ## The reader of components -/

/-- A component at the front of a text is read, and the reader goes on behind it. -/
theorem components_text_append (t : Term) (ts : List Term) :
    components (t.text ++ joined ts) =
      (t.component :: (components (joined ts)).1, (components (joined ts)).2) := by
  obtain ⟨c, rest, hdigits⟩ := List.exists_cons_of_ne_nil t.digits_ne_nil
  have hc : c.isDigit = true := t.isDigit_of_mem c (hdigits ▸ List.mem_cons_self)
  have htake := (t.run_digits (joined ts)).takeWhile_eq
  have hdrop := (t.run_digits (joined ts)).dropWhile_eq
  have hsmall := t.digitsValue_lt
  rw [t.text_append]
  rw [hdigits, List.cons_append, List.takeWhile_cons_of_pos hc] at htake
  rw [hdigits, List.cons_append, List.dropWhile_cons_of_pos hc] at hdrop
  rw [hdigits] at hsmall ⊢
  rw [List.cons_append, components, if_pos hc]
  simp only [htake, hdrop, if_neg (Nat.not_le.2 hsmall), (run_abbreviation t.unit ts).takeWhile_eq,
    (run_abbreviation t.unit ts).dropWhile_eq, Unit.parse?_abbreviation]
  rw [Term.component, hdigits]

theorem components_joined (ts : List Term) :
    components (joined ts) = (ts.map Term.component, none) := by
  induction ts with
  | nil =>
      change components [] = _
      rw [components]
      rfl
  | cons t ts ih => rw [joined_cons, components_text_append, ih, List.map_cons]

theorem exists_joined (h : (components s).2 = none) : ∃ ts, s = joined ts := by
  fun_induction components s with
  | case1 => exact ⟨[], rfl⟩
  | case2 | case3 | case5 => cases h
  | case4 c rest hdigit count behind hcount unit hunit more stop hmore ih =>
      rw [hmore] at ih
      obtain ⟨ts, hts⟩ := ih h
      have hdigits : ∀ d ∈ c :: rest.takeWhile Char.isDigit, d.isDigit = true := by
        intro d hd
        rcases List.mem_cons.1 hd with rfl | hd
        · exact hdigit
        · exact List.mem_takeWhile_imp hd
      refine ⟨⟨_, unit, List.cons_ne_nil _ _, hdigits, Nat.not_le.1 hcount⟩ :: ts, ?_⟩
      rw [joined_cons, Term.text, ← hts, ← Unit.parse?_eq_some_iff.1 hunit, List.append_assoc,
        List.takeWhile_append_dropWhile, List.cons_append, List.takeWhile_append_dropWhile]

/-- Every component that is read takes a digit and a letter at least. -/
theorem two_mul_length_components_le (s : List Char) : 2 * (components s).1.length ≤ s.length := by
  fun_induction components s with
  | case1 | case2 | case3 | case5 => exact Nat.zero_le _
  | case4 c rest hdigit count behind hcount unit hunit more stop hmore ih =>
      rw [hmore] at ih
      have hletters : (behind.takeWhile Char.isAlpha).length ≠ 0 := by
        obtain ⟨d, letters, habbreviation, -⟩ := unit.exists_abbreviation
        rw [Unit.parse?_eq_some_iff.1 hunit, habbreviation]
        exact Nat.succ_ne_zero _
      have hbehind : behind.length ≤ rest.length := (List.dropWhile_sublist _).length_le
      have hsplit := congrArg List.length
        (List.takeWhile_append_dropWhile (p := Char.isAlpha) (l := behind))
      rw [List.length_append] at hsplit
      simp only [List.length_cons] at ih ⊢
      omega

/-! ## No text of components is a number -/

theorem read?_joined (h : ts ≠ []) : Binary64.read? (joined ts) = none := by
  obtain ⟨t, ts, rfl⟩ := List.exists_cons_of_ne_nil h
  obtain ⟨c, rest, hdigits⟩ := List.exists_cons_of_ne_nil t.digits_ne_nil
  have hc := Binary64.startsLiteral_of_isDigit (t.isDigit_of_mem c (hdigits ▸ List.mem_cons_self))
  obtain ⟨d, letters, habbreviation, -, hpoint, he, hE⟩ := t.unit.exists_abbreviation
  have htext : joined (t :: ts) = c :: (rest ++ (t.unit.abbreviation ++ joined ts)) := by
    rw [joined_cons, t.text_append, hdigits, List.cons_append]
  rw [htext, Binary64.read?_of_startsLiteral (Binary64.takeSign_of_startsLiteral hc) hc,
    ← List.cons_append, ← hdigits, Binary64.unsigned?_of_whole (t.run_digits _) t.digits_ne_nil]
  · rw [habbreviation, List.cons_append, Binary64.exponentPart?, if_neg (not_or.2 ⟨he, hE⟩)]
    rfl
  · rw [habbreviation, List.cons_append, List.head?_cons]
    exact fun h => hpoint (Option.some.inj h)

/-! ## What is accepted -/

def inNanos (d : Span) : Nat :=
  d.seconds * 1000000000 + d.nanos

theorem inNanos_ofMillis (n : Nat) : (ofMillis n).inNanos = n * 1000000 := by
  change n / 1000 * 1000000000 + n % 1000 * 1000000 = n * 1000000
  omega

theorem eq_ofMillis_iff {d : Span} {n : Nat} :
    d = ofMillis n ↔ d.nanos < 1000000000 ∧ d.inNanos = n * 1000000 := by
  constructor
  · rintro rfl
    refine ⟨?_, inNanos_ofMillis n⟩
    change n % 1000 * 1000000 < 1000000000
    omega
  · rintro ⟨hnanos, hvalue⟩
    obtain ⟨seconds, nanos⟩ := d
    rw [inNanos] at hvalue
    simp only [ofMillis, mk.injEq] at hnanos hvalue ⊢
    omega

/-- The milliseconds of the components of a text together. -/
def millisOf (ts : List Term) : Nat :=
  totalMillis (ts.map Term.component)

theorem ofComponents_joined (ts : List Term) :
    ofComponents (joined ts) =
      if limit * 1000 ≤ millisOf ts then .error .overflow
      else if millisOf ts = 0 then .error (.notPositive (String.ofList (joined ts)))
      else .ok (ofMillis (millisOf ts)) := by
  have hlimit : limit ≤ millisOf ts / 1000 ↔ limit * 1000 ≤ millisOf ts :=
    Nat.le_div_iff_mul_le (by decide)
  rw [ofComponents, components_joined]
  by_cases hlong : limit * 1000 ≤ millisOf ts
  · rw [if_pos hlong]
    exact if_pos (hlimit.2 hlong)
  · rw [if_neg hlong]
    exact if_neg (mt hlimit.1 hlong)

theorem exists_joined_of_ofComponents {d : Span} (h : ofComponents s = .ok d) :
    ∃ ts, s = joined ts := by
  refine exists_joined ?_
  rw [ofComponents] at h
  generalize components s = parts at h ⊢
  obtain ⟨cs, stop⟩ := parts
  dsimp only at h ⊢
  split at h
  · cases h
  · split at h
    · cases h
    · cases h
    · cases h
    · rfl

theorem parse_of_joined {text : String} (hne : ts ≠ []) (h : Text.trim text.toList = joined ts) :
    parse text = ofComponents (joined ts) := by
  simp only [parse, h, read?_joined hne, if_neg (joined_ne_nil hne)]

theorem exists_joined_of_parse {text : String} {d : Span}
    (hread : Binary64.read? (Text.trim text.toList) = none) (h : parse text = .ok d) :
    ∃ ts, ts ≠ [] ∧ Text.trim text.toList = joined ts := by
  simp only [parse, hread] at h
  split at h
  · cases h
  · rename_i hne
    obtain ⟨ts, hts⟩ := exists_joined_of_ofComponents h
    refine ⟨ts, ?_, hts⟩
    rintro rfl
    exact hne hts

/-- The reader of components comes to an end after half as many components as the text has
characters, at the latest. A text of components is made of them in one way, and it is no
decimal number. Among the texts that are no decimal numbers these are the ones that are
spans, as long as the components are more than nothing together and not too long; the span
is then just what they are together. -/
theorem accepted_iff_joined (text : String) :
    (∀ s, 2 * (components s).1.length ≤ s.length) ∧
    (∀ ts, ts ≠ [] → Text.trim text.toList = joined ts →
      Binary64.read? (Text.trim text.toList) = none ∧
      (∀ ts', Text.trim text.toList = joined ts' → ts' = ts) ∧
      (limit * 1000 ≤ millisOf ts → parse text = .error .overflow)) ∧
    (Binary64.read? (Text.trim text.toList) = none → ∀ d, parse text = .ok d ↔
      ∃ ts, ts ≠ [] ∧ Text.trim text.toList = joined ts ∧ millisOf ts ≠ 0 ∧
        millisOf ts < limit * 1000 ∧ d.nanos < 1000000000 ∧
        d.inNanos = millisOf ts * 1000000) := by
  refine ⟨two_mul_length_components_le, fun ts hne h => ⟨?_, ?_, fun hlong => ?_⟩,
    fun hread d => ⟨fun hparse => ?_, ?_⟩⟩
  · rw [h]
    exact read?_joined hne
  · intro ts' h'
    exact joined_injective (h'.symm.trans h)
  · rw [parse_of_joined hne h, ofComponents_joined, if_pos hlong]
  · obtain ⟨ts, hne, h⟩ := exists_joined_of_parse hread hparse
    rw [parse_of_joined hne h, ofComponents_joined] at hparse
    split at hparse
    · cases hparse
    · rename_i hfits
      split at hparse
      · cases hparse
      · rename_i hpos
        exact ⟨ts, hne, h, hpos, Nat.not_le.1 hfits, eq_ofMillis_iff.1 (Except.ok.inj hparse).symm⟩
  · rintro ⟨ts, hne, h, hpos, hfits, hd⟩
    rw [parse_of_joined hne h, ofComponents_joined, if_neg (Nat.not_le.2 hfits), if_neg hpos,
      eq_ofMillis_iff.2 hd]

/-- An hour and thirty minutes. -/
def hourAndHalf : List Term :=
  [⟨['1'], .hour, by decide, List.all_eq_true.1 (by decide), by decide⟩,
   ⟨['3', '0'], .minute, by decide, List.all_eq_true.1 (by decide), by decide⟩]

theorem accepted_iff_joined_hourAndHalf :
    hourAndHalf ≠ [] ∧ Text.trim " 1h30m ".toList = joined hourAndHalf ∧
      Binary64.read? (Text.trim " 1h30m ".toList) = none ∧
      parse " 1h30m " = .ok ⟨5400, 0⟩ := by
  have hne : hourAndHalf ≠ [] := List.cons_ne_nil _ _
  have htext : Text.trim " 1h30m ".toList = joined hourAndHalf := by decide +kernel
  obtain ⟨-, hform, hspan⟩ := accepted_iff_joined " 1h30m "
  have hread := (hform _ hne htext).1
  refine ⟨hne, htext, hread, (hspan hread _).2 ⟨_, hne, htext, ?_⟩⟩
  decide +kernel

end Span

end DocWatch.Time
