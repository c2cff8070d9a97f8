import DocWatch.Net.Percent
import DocWatch.Proofs.Text.Digits
import DocWatch.Text.Occurrence

/-!
# Templates of addresses

A template is an address with a variable in it. Where the variable stands with a
plus sign, its value is put in so that what has a meaning in addresses keeps it:
letters, digits and the marks that addresses know are copied, an escape that is
there already is copied as well, and the bytes of any other character are escaped.

An expanded value is then literal: it consists of copied characters and of whole
escapes. A value that is literal to begin with stays what it is.
-/

namespace DocWatch.Net.Template

/-! ## Expansion -/

/-- Marks that may stand in an address. -/
def marks : List Char :=
  "-._~:/?#[]@!$&'()*+,;=".toList

/-- Characters that are copied. -/
def isCopied (c : Char) : Bool :=
  c.isAlphanum || marks.contains c

/-- Whether a character is a digit of base sixteen. -/
def isHexDigit (c : Char) : Bool :=
  (Text.hexDigit? c).isSome

/-- Whether a text starts with an escape. -/
def startsEscape : List Char → Bool
  | '%' :: a :: b :: _ => isHexDigit a && isHexDigit b
  | _ => false

/-- A value as it is put into an address. -/
def expanded : List Char → List Char
  | [] => []
  | c :: rest =>
      (if isCopied c || startsEscape (c :: rest) then [c]
        else (Text.encode [c]).flatMap escapedBytes) ++ expanded rest

/-- The address that a template with one variable stands for. -/
def fill (name value template : List Char) : List Char :=
  let place := "\x7b+".toList ++ name ++ "\x7d".toList
  match Text.firstIndex? place template with
  | some i => template.take i ++ expanded value ++ template.drop (i + place.length)
  | none => template

/-- Whether a text has nothing in it to escape. -/
def isLiteral : List Char → Bool
  | [] => true
  | c :: rest => (isCopied c || startsEscape (c :: rest)) && isLiteral rest

/-! ## Characters -/

theorem toNat_of_isAlphanum {c : Char} (h : c.isAlphanum = true) :
    48 ≤ c.toNat ∧ c.toNat ≤ 122 := by
  change (c.isAlpha || c.isDigit) = true at h
  rcases Bool.or_eq_true_iff.1 h with h | h
  · have := Text.toNat_of_isAlpha h
    omega
  · have := Text.toNat_of_isDigit h
    omega

theorem isCopied_iff {c : Char} :
    isCopied c = true ↔ c.isAlphanum = true ∨ c ∈ marks := by
  rw [isCopied, Bool.or_eq_true, List.contains_iff_mem]

theorem toNat_of_isCopied {c : Char} (h : isCopied c = true) : 33 ≤ c.toNat ∧ c.toNat ≤ 126 := by
  rcases isCopied_iff.1 h with hletter | hmark
  · have := toNat_of_isAlphanum hletter
    omega
  · have hmarks : marks.all (fun d => 33 ≤ d.toNat ∧ d.toNat ≤ 126) = true := by decide
    exact of_decide_eq_true (List.all_eq_true.1 hmarks c hmark)

theorem toNat_of_isHexDigit {c : Char} (h : isHexDigit c = true) : c.toNat ≤ 102 := by
  have hle : ∀ {d : Char}, c ≤ d → d.toNat ≤ 102 → c.toNat ≤ 102 := fun hcd hd =>
    Nat.le_trans (UInt32.le_iff_toNat_le.1 (Char.le_def.1 hcd)) hd
  rw [isHexDigit, Text.hexDigit?] at h
  split at h
  · rename_i hdigit
    have := Text.toNat_of_isDigit hdigit
    omega
  · split at h
    · rename_i hsmall
      exact hle hsmall.2 (by decide)
    · split at h
      · rename_i hcapital
        exact hle hcapital.2 (by decide)
      · cases h

theorem isCopied_of_isHexDigit {c : Char} (h : isHexDigit c = true) : isCopied c = true := by
  have htable : ∀ n < 103, isHexDigit (Char.ofNat n) = true → isCopied (Char.ofNat n) = true := by
    decide +kernel
  have := htable c.toNat (Nat.lt_succ_of_le (toNat_of_isHexDigit h))
  rw [Char.ofNat_toNat] at this
  exact this h

theorem startsEscape_iff {s : List Char} :
    startsEscape s = true ↔
      ∃ a b rest, s = '%' :: a :: b :: rest ∧ isHexDigit a = true ∧ isHexDigit b = true := by
  constructor
  · intro h
    rw [startsEscape.eq_def] at h
    split at h
    · rename_i a b rest
      exact ⟨a, b, rest, rfl, Bool.and_eq_true_iff.1 h⟩
    · cases h
  · rintro ⟨a, b, rest, rfl, ha, hb⟩
    rw [startsEscape, ha, hb]
    rfl

theorem startsEscape_append {s : List Char} (h : startsEscape s = true) (t : List Char) :
    startsEscape (s ++ t) = true := by
  obtain ⟨a, b, rest, rfl, ha, hb⟩ := startsEscape_iff.1 h
  exact startsEscape_iff.2 ⟨a, b, rest ++ t, rfl, ha, hb⟩

/-! ## Literal texts -/

theorem isLiteral_cons {c : Char} {rest : List Char} :
    isLiteral (c :: rest) = true ↔
      (isCopied c = true ∨ startsEscape (c :: rest) = true) ∧ isLiteral rest = true := by
  rw [isLiteral, Bool.and_eq_true, Bool.or_eq_true]

theorem isLiteral_append {s t : List Char} (hs : isLiteral s = true) (ht : isLiteral t = true) :
    isLiteral (s ++ t) = true := by
  induction s with
  | nil => exact ht
  | cons c rest ih =>
      obtain ⟨hc, hrest⟩ := isLiteral_cons.1 hs
      exact isLiteral_cons.2 ⟨hc.imp_right (startsEscape_append · t), ih hrest⟩

theorem isLiteral_of_copied {s : List Char} (h : ∀ c ∈ s, isCopied c = true) :
    isLiteral s = true := by
  induction s with
  | nil => rfl
  | cons c rest ih =>
      exact isLiteral_cons.2
        ⟨.inl (h c List.mem_cons_self), ih fun d hd => h d (List.mem_cons_of_mem _ hd)⟩

/-- What stands before a character that no escape holds is literal by itself. -/
theorem isLiteral_front {s t : List Char} {d : Char} (hd : isHexDigit d = false)
    (h : isLiteral (s ++ d :: t) = true) : isLiteral s = true := by
  induction s with
  | nil => rfl
  | cons c rest ih =>
      obtain ⟨hc, hrest⟩ := isLiteral_cons.1 h
      refine isLiteral_cons.2 ⟨hc.imp_right fun hescape => ?_, ih hrest⟩
      -- both digits of the escape stand before the character
      obtain ⟨a, b, more, heq, ha, hb⟩ := startsEscape_iff.1 hescape
      obtain ⟨rfl, htail⟩ := List.cons.inj heq
      have hne : ∀ x, isHexDigit x = true → d ≠ x := by
        rintro x hx rfl
        rw [hd] at hx
        cases hx
      rcases rest with _ | ⟨x, _ | ⟨y, rest⟩⟩
      · exact absurd (List.cons.inj htail).1 (hne a ha)
      · exact absurd (List.cons.inj (List.cons.inj htail).2).1 (hne b hb)
      · obtain ⟨rfl, hbehind⟩ := List.cons.inj htail
        obtain ⟨rfl, -⟩ := List.cons.inj hbehind
        exact startsEscape_iff.2 ⟨x, y, rest, rfl, ha, hb⟩

theorem isLiteral_takeWhile {p : Char → Bool} {s : List Char}
    (hp : ∀ c, p c = false → isHexDigit c = false) (h : isLiteral s = true) :
    isLiteral (s.takeWhile p) = true := by
  rw [← List.takeWhile_append_dropWhile (p := p) (l := s)] at h
  have hhead := List.head?_dropWhile_not p s
  cases hrest : s.dropWhile p with
  | nil =>
      rw [hrest, List.append_nil] at h
      exact h
  | cons d t =>
      rw [hrest] at h hhead
      exact isLiteral_front (hp d hhead) h

theorem isLiteral_of_suffix {s t : List Char} (hst : t <:+ s) (h : isLiteral s = true) :
    isLiteral t = true := by
  obtain ⟨front, rfl⟩ := hst
  induction front with
  | nil => exact h
  | cons c rest ih => exact ih (isLiteral_cons.1 h).2

/-- The characters of a literal text. -/
theorem copied_of_isLiteral {s : List Char} (h : isLiteral s = true) :
    ∀ c ∈ s, c = '%' ∨ isCopied c = true := by
  induction s with
  | nil => nofun
  | cons c rest ih =>
      obtain ⟨hc, hrest⟩ := isLiteral_cons.1 h
      intro d hd
      rcases List.mem_cons.1 hd with rfl | hd
      · rcases hc with hc | hc
        · exact .inr hc
        · obtain ⟨a, b, more, heq, -⟩ := startsEscape_iff.1 hc
          exact .inl (List.cons.inj heq).1
      · exact ih hrest d hd

theorem isLiteral_escapedBytes (b : UInt8) : isLiteral (escapedBytes b) = true := by
  have hdigits : ∀ n < 16, isHexDigit (upperHexDigit n) = true := by decide +kernel
  have hhigh := hdigits (b.toNat / 16) (by have := b.toNat_lt; omega)
  have hlow := hdigits (b.toNat % 16) (Nat.mod_lt _ (by decide))
  refine isLiteral_cons.2 ⟨.inr (startsEscape_iff.2 ⟨_, _, [], rfl, hhigh, hlow⟩), ?_⟩
  refine isLiteral_of_copied fun c hc => ?_
  simp only [List.mem_cons, List.not_mem_nil, or_false] at hc
  rcases hc with rfl | rfl
  · exact isCopied_of_isHexDigit hhigh
  · exact isCopied_of_isHexDigit hlow

theorem isLiteral_escaped (bytes : List UInt8) :
    isLiteral (bytes.flatMap escapedBytes) = true := by
  induction bytes with
  | nil => rfl
  | cons b rest ih =>
      rw [List.flatMap_cons]
      exact isLiteral_append (isLiteral_escapedBytes b) ih

/-! ## Expanded values -/

theorem expanded_of_copied {c : Char} (h : isCopied c = true) (rest : List Char) :
    expanded (c :: rest) = c :: expanded rest := by
  rw [expanded, h]
  rfl

/-- An escape is copied as a whole. -/
theorem startsEscape_expanded {s : List Char} (h : startsEscape s = true) :
    startsEscape (expanded s) = true := by
  obtain ⟨a, b, rest, rfl, ha, hb⟩ := startsEscape_iff.1 h
  rw [expanded, h, Bool.or_true, expanded_of_copied (isCopied_of_isHexDigit ha),
    expanded_of_copied (isCopied_of_isHexDigit hb)]
  exact startsEscape_iff.2 ⟨a, b, _, rfl, ha, hb⟩

theorem isLiteral_expanded (value : List Char) : isLiteral (expanded value) = true := by
  induction value with
  | nil => rfl
  | cons c rest ih =>
      rw [expanded]
      split
      · rename_i hkept
        refine isLiteral_cons.2 ⟨?_, ih⟩
        rcases Bool.or_eq_true_iff.1 hkept with hc | hescape
        · exact .inl hc
        · have := startsEscape_expanded hescape
          rw [expanded, hkept] at this
          exact .inr this
      · exact isLiteral_append (isLiteral_escaped _) ih

theorem expanded_of_isLiteral {value : List Char} (h : isLiteral value = true) :
    expanded value = value := by
  induction value with
  | nil => rfl
  | cons c rest ih =>
      obtain ⟨hc, hrest⟩ := isLiteral_cons.1 h
      rw [expanded, Bool.or_eq_true_iff.2 hc, ih hrest]
      rfl

example : expanded "100% sûr, 50%25".toList = "100%25%20s%C3%BBr,%2050%25".toList := by
  decide +kernel

end DocWatch.Net.Template
