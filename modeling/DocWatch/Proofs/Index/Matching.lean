import DocWatch.Index.Search
import DocWatch.Proofs.Index.Edit
import DocWatch.Proofs.Text.Infix
import Mathlib.Data.List.Induction

/-!
# How terms of a query match terms of the index

A term of a query can match a term of the index in several ways at once, and several
terms of a query can match the same term. The search looks for the best way of each
and keeps the best of these. `Matches` lists the ways apart from one another; what the
search keeps is one of them, and no other is better.
-/

namespace DocWatch.Index

open Score

/-- The ways in which a term of a query matches a term of the index. -/
inductive Matches (query term : String) : Match → Prop
  | exact (h : term = query) : Matches query term .exact
  | inside (h : query.toList <:+: term.toList) : Matches query term .inside
  | near (long : 4 ≤ query.length) (h : OneEdit query.toList term.toList) :
      Matches query term .near

variable {query term : String} {queries : List String} {m : Match}

theorem exists_matches_iff : (∃ m, Matches query term m) ↔ term = query ∨
    query.toList <:+: term.toList ∨ (4 ≤ query.length ∧ OneEdit query.toList term.toList) := by
  constructor
  · rintro ⟨m, h | h | ⟨long, h⟩⟩
    · exact .inl h
    · exact .inr (.inl h)
    · exact .inr (.inr ⟨long, h⟩)
  · rintro (h | h | ⟨long, h⟩)
    · exact ⟨.exact, .exact h⟩
    · exact ⟨.inside, .inside h⟩
    · exact ⟨.near, .near long h⟩

theorem matches_of_matchTerm? (h : matchTerm? query term = some m) : Matches query term m := by
  unfold matchTerm? at h
  split at h
  · rename_i heq
    cases h
    exact .exact heq
  · split at h
    · rename_i hholds
      cases h
      exact .inside (Text.holds_iff.1 hholds)
    · split at h
      · rename_i hnear
        cases h
        exact .near hnear.1 (withinOneEdit_iff.1 hnear.2)
      · cases h

/-- The way that is found is at least as good as any other. -/
theorem Matches.found (h : Matches query term m) :
    ∃ m', matchTerm? query term = some m' ∧ m'.best m = m' := by
  unfold matchTerm?
  split
  · exact ⟨.exact, rfl, by cases m <;> rfl⟩
  · rename_i hne
    split
    · refine ⟨.inside, rfl, ?_⟩
      cases h with
      | exact h => exact absurd h hne
      | inside h => rfl
      | near long h => rfl
    · rename_i hholds
      cases h with
      | exact h => exact absurd h hne
      | inside h => exact absurd (Text.holds_iff.2 h) hholds
      | near long h => exact ⟨.near, by rw [if_pos ⟨long, withinOneEdit_iff.2 h⟩], rfl⟩

/-! ## The best of all terms of a query -/

theorem best_assoc (a b c : Match) : (a.best b).best c = a.best (b.best c) := by
  cases a <;> cases b <;> cases c <;> rfl

theorem best_comm (a b : Match) : a.best b = b.best a := by
  cases a <;> cases b <;> rfl

@[simp] theorem best_self (a : Match) : a.best a = a := by
  cases a <;> rfl

theorem best_cases (a b : Match) : a.best b = a ∨ a.best b = b := by
  cases a <;> cases b <;> simp [Match.best]

/-- The best of a list of matches. -/
def bestOf (ms : List Match) : Option Match :=
  ms.foldl (fun found m => some (match found with | none => m | some b => b.best m)) none

theorem bestOf_concat (ms : List Match) (m : Match) :
    bestOf (ms ++ [m]) = some (match bestOf ms with | none => m | some b => b.best m) := by
  simp [bestOf]

theorem bestOf_eq_none {ms : List Match} (h : bestOf ms = none) : ms = [] := by
  rcases List.eq_nil_or_concat ms with rfl | ⟨ms, m, rfl⟩
  · rfl
  · rw [List.concat_eq_append, bestOf_concat] at h
    cases h

theorem bestOf_eq_some {ms : List Match} (h : bestOf ms = some m) :
    m ∈ ms ∧ ∀ m' ∈ ms, m.best m' = m := by
  induction ms using List.reverseRecOn generalizing m with
  | nil => cases h
  | append_singleton ms last ih =>
      rw [bestOf_concat] at h
      cases hms : bestOf ms with
      | none =>
          obtain rfl : last = m := by
            rw [hms] at h
            exact Option.some.inj h
          rw [bestOf_eq_none hms]
          simp
      | some b =>
          obtain rfl : b.best last = m := by
            rw [hms] at h
            exact Option.some.inj h
          obtain ⟨hmem, hbest⟩ := ih hms
          constructor
          · rcases best_cases b last with heq | heq <;> simp [heq, hmem]
          · intro m' hm'
            rcases List.mem_append.1 hm' with hm' | hm'
            · rw [best_comm b last, best_assoc, hbest m' hm']
            · rw [List.mem_singleton.1 hm', best_assoc, best_self]

theorem bestMatch?_eq (queries : List String) (term : String) :
    bestMatch? queries term = bestOf (queries.filterMap (matchTerm? · term)) :=
  rfl

theorem bestMatch?_eq_none_iff :
    bestMatch? queries term = none ↔ ∀ query ∈ queries, ∀ m, ¬ Matches query term m := by
  rw [bestMatch?_eq]
  constructor
  · intro hnone query hquery m hm
    obtain ⟨m', hfound, -⟩ := hm.found
    have hmem : m' ∈ queries.filterMap (matchTerm? · term) :=
      List.mem_filterMap.2 ⟨query, hquery, hfound⟩
    rw [bestOf_eq_none hnone] at hmem
    cases hmem
  · intro hnone
    have hnil : queries.filterMap (matchTerm? · term) = [] := by
      rw [List.filterMap_eq_nil_iff]
      intro query hquery
      cases hfound : matchTerm? query term with
      | none => rfl
      | some m => exact absurd (matches_of_matchTerm? hfound) (hnone query hquery m)
    rw [hnil]
    rfl

/-- What is kept for a term is a way in which a term of the query matches it, and no
term of the query matches it in a better way. -/
theorem bestMatch?_eq_some (h : bestMatch? queries term = some m) :
    (∃ query ∈ queries, Matches query term m) ∧
      ∀ query ∈ queries, ∀ m', Matches query term m' → m.best m' = m := by
  rw [bestMatch?_eq] at h
  obtain ⟨hmem, hbest⟩ := bestOf_eq_some h
  constructor
  · obtain ⟨query, hquery, hfound⟩ := List.mem_filterMap.1 hmem
    exact ⟨query, hquery, matches_of_matchTerm? hfound⟩
  · intro query hquery m' hm'
    obtain ⟨found, hfound, hbetter⟩ := hm'.found
    rw [← hbest found (List.mem_filterMap.2 ⟨query, hquery, hfound⟩), best_assoc, hbetter]

end DocWatch.Index
