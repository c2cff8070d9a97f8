import Mathlib.Data.List.Infix
import DocWatch.Text.Occurrence

/-!
# Where a phrase can occur in a message

A message cites a piece of foreign text between words of its own. Whether it holds
a phrase can be told from the piece alone where the phrase neither begins in the
words before the piece nor ends in those behind it. That is a property of the
words and the phrase, whatever the piece is, and it is decided by comparing them
(`Clashes`).
-/

namespace DocWatch.Text

variable {α : Type} [DecidableEq α]

theorem startsWith_iff {needle s : List α} : startsWith needle s = true ↔ needle <+: s := by
  rw [startsWith, Option.isSome_iff_exists]
  constructor
  · rintro ⟨rest, h⟩
    exact ⟨rest, (stripFront?_eq_some_iff.1 h).symm⟩
  · rintro ⟨rest, h⟩
    exact ⟨rest, stripFront?_eq_some_iff.2 h.symm⟩

theorem occurs_iff {needle s : List α} : occurs needle s = true ↔ needle <:+: s := by
  induction s with
  | nil =>
      rw [occurs, firstIndex?, List.infix_nil]
      split <;> simp_all
  | cons c rest ih =>
      rw [List.infix_cons_iff, ← startsWith_iff, ← ih, occurs, firstIndex?]
      split
      · simp_all
      · simp_all [occurs]

theorem holds_iff {s needle : String} : holds s needle = true ↔ needle.toList <:+: s.toList :=
  occurs_iff

theorem countFrom_eq_zero_iff {needle s : List α} (hneedle : needle ≠ []) :
    countFrom needle 0 s = 0 ↔ ¬ needle <:+: s := by
  induction s with
  | nil => simp [countFrom, hneedle]
  | cons c rest ih =>
      rw [countFrom, List.infix_cons_iff, ← startsWith_iff]
      split
      · rename_i hstarts
        simp [hstarts]
      · rename_i hstarts
        rw [ih]
        simp [hstarts]

theorem count_eq_zero_iff {needle s : List α} (hneedle : needle ≠ []) :
    count needle s = 0 ↔ ¬ needle <:+: s :=
  countFrom_eq_zero_iff hneedle

/-- No phrase lies within some words, or begins in them and goes on behind them. -/
def Clashes (phrase words : List α) : Prop :=
  occurs phrase words = false ∧
    ∀ tail ∈ words.tails, tail ≠ [] → startsWith tail phrase = false

instance (phrase words : List α) : Decidable (Clashes phrase words) :=
  inferInstanceAs (Decidable (_ ∧ ∀ tail ∈ words.tails, tail ≠ [] → _))

/-- A phrase that does not begin in some words occurs only behind them. -/
theorem Clashes.infix_append {phrase words : List α} (h : Clashes phrase words)
    (rest : List α) : phrase <:+: words ++ rest ↔ phrase <:+: rest := by
  obtain ⟨hwithin, hacross⟩ := h
  rw [List.infix_append_iff_ne_nil]
  constructor
  · rintro (hwords | hrest | ⟨tail, more, hne, -, rfl, htail, -⟩)
    · rw [← occurs_iff, hwithin] at hwords
      cases hwords
    · exact hrest
    · have hclash := hacross tail ((List.mem_tails _ _).2 htail) hne
      rw [startsWith_iff.2 (List.prefix_append tail more)] at hclash
      cases hclash
  · exact fun hrest => .inr (.inl hrest)

/-- The same of words behind the piece, read from their end. -/
theorem Clashes.append_infix {phrase words : List α}
    (h : Clashes phrase.reverse words.reverse) (rest : List α) :
    phrase <:+: rest ++ words ↔ phrase <:+: rest := by
  rw [← List.reverse_infix, List.reverse_append, h.infix_append, List.reverse_infix]

omit [DecidableEq α] in
/-- A phrase without an element occurs on one side of it. -/
theorem infix_append_cons_iff {phrase before after : List α} {c : α} (h : c ∉ phrase) :
    phrase <:+: before ++ c :: after ↔ phrase <:+: before ∨ phrase <:+: after := by
  have hinitial : ∀ l, l <+: c :: after → l ≠ [] → c ∈ l := by
    intro l hl hne
    rcases List.prefix_cons_iff.1 hl with rfl | ⟨rest, rfl, -⟩
    · exact absurd rfl hne
    · exact List.mem_cons_self
  rw [List.infix_append_iff_ne_nil]
  constructor
  · rintro (hbefore | hafter | ⟨front, back, -, hne, rfl, -, hback⟩)
    · exact .inl hbefore
    · rcases List.infix_cons_iff.1 hafter with hfront | hafter
      · by_cases hne : phrase = []
        · exact .inl (hne ▸ List.nil_infix)
        · exact absurd (hinitial phrase hfront hne) h
      · exact .inr hafter
    · exact absurd (List.mem_append_right _ (hinitial back hback hne)) h
  · rintro (hbefore | hafter)
    · exact .inl hbefore
    · exact .inr (.inl (hafter.trans (List.suffix_cons c after).isInfix))

end DocWatch.Text
