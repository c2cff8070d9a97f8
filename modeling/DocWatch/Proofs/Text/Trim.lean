import Mathlib.Data.List.DropRight
import DocWatch.Text.Blank

/-!
# What trimming takes away and what it leaves

Only characters of the class are taken away, from the two ends, and what is left has
none of them at either end. A text that is trimmed already stays as it is, and so does
one that has nothing to trim.
-/

namespace DocWatch.Text

variable {p : Char → Bool} {s front back : List Char}

/-- A text with no character of the class at either end. -/
structure Bare (p : Char → Bool) (s : List Char) : Prop where
  front : ∀ c ∈ s.head?, p c = false
  back : ∀ c ∈ s.getLast?, p c = false

theorem trimEnd_eq_rdropWhile (s : List Char) : trimEnd p s = s.rdropWhile p :=
  rfl

theorem exists_trimBy (s : List Char) :
    ∃ front back, s = front ++ trimBy p s ++ back ∧ (∀ c ∈ front, p c = true) ∧
      ∀ c ∈ back, p c = true := by
  refine ⟨s.takeWhile p, (s.dropWhile p).rtakeWhile p, ?_, ?_, ?_⟩
  · rw [trimBy, trimEnd_eq_rdropWhile, List.append_assoc, List.rdropWhile_append_rtakeWhile,
      List.takeWhile_append_dropWhile]
  · intro c hc
    exact List.mem_takeWhile_imp hc
  · intro c hc
    exact List.mem_rtakeWhile_imp hc

theorem exists_trim (s : List Char) :
    ∃ front back, s = front ++ trim s ++ back ∧ (∀ c ∈ front, isBlank c = true) ∧
      ∀ c ∈ back, isBlank c = true :=
  exists_trimBy s

theorem isInfix_trim (s : List Char) : trim s <:+: s := by
  obtain ⟨front, back, hs, -⟩ := exists_trim s
  exact ⟨front, back, hs.symm⟩

theorem bare_trimBy (s : List Char) : Bare p (trimBy p s) where
  front := by
    intro c hc
    -- what is cut off at the end leaves the first character as it is
    obtain ⟨cut, hcut⟩ : trimBy p s <+: s.dropWhile p := List.rdropWhile_prefix p _
    obtain ⟨rest, hrest⟩ := List.head?_eq_some_iff.1 (Option.mem_def.1 hc)
    have hfirst := List.head?_dropWhile_not p s
    rw [← hcut, hrest] at hfirst
    exact hfirst
  back := by
    intro c hc
    have hne : trimBy p s ≠ [] := by
      intro hnil
      rw [hnil] at hc
      cases hc
    rw [List.getLast?_eq_some_getLast hne] at hc
    rw [← Option.some.inj hc]
    exact Bool.eq_false_iff.2 (List.rdropWhile_last_not p _ hne)

theorem dropWhile_append_bare (hfront : ∀ c ∈ front, p c = true)
    (hs : ∀ c ∈ s.head?, p c = false) : (front ++ s).dropWhile p = s := by
  rw [List.dropWhile_append_of_pos hfront]
  cases s with
  | nil => rfl
  | cons c rest =>
      have hc : p c = false := hs c rfl
      exact List.dropWhile_cons_of_neg (by simp [hc])

theorem trimBy_isPrefix (h : ∀ c ∈ s.head?, p c = false) : trimBy p s <+: s := by
  have hself : s.dropWhile p = s := dropWhile_append_bare (List.forall_mem_nil _) h
  have hfrom : trimBy p s <+: s.dropWhile p := List.rdropWhile_prefix p _
  rwa [hself] at hfrom

/-- What stands between characters of the class comes out by trimming. -/
theorem trimBy_around (hs : Bare p s) (hfront : ∀ c ∈ front, p c = true)
    (hback : ∀ c ∈ back, p c = true) : trimBy p (front ++ s ++ back) = s := by
  cases s with
  | nil =>
      have hall : ∀ c ∈ front ++ [] ++ back, p c = true := by
        intro c hc
        rw [List.append_nil, List.mem_append] at hc
        exact hc.elim (hfront c) (hback c)
      rw [trimBy, List.dropWhile_eq_nil_iff.2 hall]
      rfl
  | cons c rest =>
      have hstart : (front ++ (c :: rest ++ back)).dropWhile p = c :: rest ++ back :=
        dropWhile_append_bare hfront hs.front
      have hend : (back.reverse ++ (c :: rest).reverse).dropWhile p = (c :: rest).reverse := by
        refine dropWhile_append_bare (fun x hx => hback x (List.mem_reverse.1 hx)) ?_
        rw [List.head?_reverse]
        exact hs.back
      rw [List.append_assoc, trimBy, hstart, trimEnd, List.reverse_append, hend,
        List.reverse_reverse]

theorem trimBy_eq_self_iff : trimBy p s = s ↔ Bare p s := by
  constructor
  · intro h
    rw [← h]
    exact bare_trimBy s
  · intro h
    have hself : trimBy p ([] ++ s ++ []) = s := trimBy_around h nofun nofun
    rwa [List.nil_append, List.append_nil] at hself

theorem trimBy_trimBy (s : List Char) : trimBy p (trimBy p s) = trimBy p s :=
  trimBy_eq_self_iff.2 (bare_trimBy s)

theorem trim_trim (s : List Char) : trim (trim s) = trim s :=
  trimBy_trimBy s

theorem trimBy_eq_self {s : List Char} (h : ∀ c ∈ s, p c = false) : trimBy p s = s :=
  trimBy_eq_self_iff.2
    ⟨fun c hc => h c (List.mem_of_head? hc), fun c hc => h c (List.mem_of_getLast? hc)⟩

end DocWatch.Text
