import DocWatch.Text.Blank
import Mathlib.Data.List.DropRight

/-!
# Maximal runs

A run of characters of a class stands in a text between two parts, neither of which
prolongs it. Where the text is divided at a character, a maximal run of the whole is
one of a single part, or the character stands within it and leaves a maximal run on
either side.
-/

namespace DocWatch.Text

/-- A stretch of characters of a class that no neighbour prolongs. -/
structure MaximalRun (p : Char → Bool) (before run after : List Char) : Prop where
  within : ∀ c ∈ run, p c = true
  front : ∀ c ∈ before.getLast?, p c = false
  back : ∀ c ∈ after.head?, p c = false

instance (p : Char → Bool) (before run after : List Char) :
    Decidable (MaximalRun p before run after) :=
  decidable_of_iff
    (run.all p ∧ before.getLast?.all (fun c => !p c) ∧ after.head?.all (fun c => !p c))
    (by
      simp only [List.all_eq_true, Option.all_eq_true, Bool.not_eq_true']
      exact ⟨fun h => ⟨h.1, h.2.1, h.2.2⟩, fun h => ⟨h.within, h.front, h.back⟩⟩)

variable {α : Type}

/-- Where an element of a text stands that is divided in three. -/
theorem append_cons_eq_append {front back before s after : List α} {c : α}
    (h : front ++ c :: back = before ++ s ++ after) :
    (∃ rest, before = front ++ c :: rest ∧ back = rest ++ s ++ after) ∨
      (∃ l r, s = l ++ c :: r ∧ front = before ++ l ∧ back = r ++ after) ∨
      ∃ rest, after = rest ++ c :: back ∧ front = before ++ s ++ rest := by
  rw [List.append_assoc, List.append_eq_append_iff] at h
  rcases h with ⟨rest, hbefore, hback⟩ | ⟨l, hfront, hs⟩
  · cases rest with
    | cons x rest =>
        cases hback
        exact .inl ⟨rest, hbefore, (List.append_assoc _ _ _).symm⟩
    | nil =>
        rw [List.append_nil] at hbefore
        rw [List.nil_append, List.cons_eq_append_iff] at hback
        rcases hback with ⟨rfl, hafter⟩ | ⟨r, rfl, hback⟩
        · exact .inr (.inr ⟨[], hafter, by simp [hbefore]⟩)
        · exact .inr (.inl ⟨[], r, rfl, by simp [hbefore], hback⟩)
  · rcases List.append_eq_append_iff.1 hs with ⟨rest, rfl, hafter⟩ | ⟨r, rfl, hback⟩
    · exact .inr (.inr ⟨rest, hafter, by rw [hfront, List.append_assoc]⟩)
    · rw [List.cons_eq_append_iff] at hback
      rcases hback with ⟨rfl, hafter⟩ | ⟨r', rfl, hback⟩
      · exact .inr (.inr ⟨[], hafter, by simp [hfront]⟩)
      · exact .inr (.inl ⟨l, r', rfl, hfront, hback⟩)

namespace MaximalRun

variable {p : Char → Bool} {front back before run after : List Char} {c : Char}

theorem around (h : MaximalRun p before run after)
    (heq : front ++ c :: back = before ++ run ++ after) :
    (∃ rest, before = front ++ c :: rest ∧ back = rest ++ run ++ after ∧
        MaximalRun p rest run after) ∨
      (∃ l r, run = l ++ c :: r ∧ front = before ++ l ∧ back = r ++ after ∧
        MaximalRun p before l [] ∧ MaximalRun p [] r after) ∨
      ∃ rest, after = rest ++ c :: back ∧ front = before ++ run ++ rest ∧
        MaximalRun p before run rest := by
  rcases append_cons_eq_append heq with ⟨rest, rfl, hback⟩ | ⟨l, r, rfl, hfront, hback⟩ |
    ⟨rest, rfl, hfront⟩
  · refine .inl ⟨rest, rfl, hback, h.within, ?_, h.back⟩
    intro x hx
    refine h.front x ?_
    simp [List.getLast?_append, List.getLast?_cons, Option.mem_def.1 hx]
  · refine .inr (.inl ⟨l, r, rfl, hfront, hback, ⟨?_, h.front, nofun⟩, ?_, nofun, h.back⟩)
    · intro x hx
      exact h.within x (List.mem_append_left _ hx)
    · intro x hx
      exact h.within x (List.mem_append_right _ (List.mem_cons_of_mem _ hx))
  · refine .inr (.inr ⟨rest, rfl, hfront, h.within, h.front, ?_⟩)
    intro x hx
    refine h.back x ?_
    simp [List.head?_append, Option.mem_def.1 hx]

/-- A maximal run is what stands between two characters of the other class. -/
theorem mem_splitBy (h : MaximalRun (fun c => !p c) before run after) :
    run ∈ splitBy p (before ++ run ++ after) := by
  have hrun : splitBy p run = [run] := splitBy_of_free fun c hc => by simpa using h.within c hc
  have hback : run ∈ splitBy p (run ++ after) := by
    cases after with
    | nil => simp [hrun]
    | cons c rest =>
        have hc : p c = true := by simpa using h.back c rfl
        rw [splitBy_break hc, hrun]
        exact List.mem_append_left _ List.mem_cons_self
  rcases List.eq_nil_or_concat before with rfl | ⟨rest, c, rfl⟩
  · exact hback
  · have hc : p c = true := by simpa using h.front c (by simp)
    rw [List.concat_eq_append, List.append_assoc, List.append_assoc, List.singleton_append,
      splitBy_break hc]
    exact List.mem_append_right _ hback

end MaximalRun

/-- Every stretch of characters of a class lies in a maximal one. -/
theorem exists_maximalRun {p : Char → Bool} {word : List Char} (h : ∀ c ∈ word, p c = true)
    (front back : List Char) : ∃ before run after,
      front ++ word ++ back = before ++ run ++ after ∧ MaximalRun p before run after ∧
        word <:+: run := by
  refine ⟨front.rdropWhile p, front.rtakeWhile p ++ word ++ back.takeWhile p, back.dropWhile p, ?_,
    ⟨?_, ?_, ?_⟩, ⟨_, _, rfl⟩⟩
  · have hfront : front.rdropWhile p ++ front.rtakeWhile p = front :=
      List.rdropWhile_append_rtakeWhile
    have hback : back.takeWhile p ++ back.dropWhile p = back := List.takeWhile_append_dropWhile
    conv_lhs => rw [← hfront, ← hback]
    simp only [List.append_assoc]
  · intro c hc
    rcases List.mem_append.1 hc with hc | hc
    · rcases List.mem_append.1 hc with hc | hc
      · exact List.mem_rtakeWhile_imp hc
      · exact h c hc
    · exact List.mem_takeWhile_imp hc
  · intro c hc
    have hstop := List.head?_dropWhile_not p front.reverse
    rw [List.rdropWhile, List.getLast?_reverse] at hc
    rwa [Option.mem_def.1 hc] at hstop
  · intro c hc
    have hstop := List.head?_dropWhile_not p back
    rwa [Option.mem_def.1 hc] at hstop

end DocWatch.Text
