import DocWatch.Proofs.Index.Relevance
import DocWatch.Proofs.Rows
import Mathlib.Data.Prod.Lex

/-!
# The ranking of documents

In exact numbers both choices that a search makes are choices by a linear order. Among
the chunks of a document the higher score wins, and of equal scores the earlier chunk;
no two chunks are equal in that order, so the best chunk is the same in whatever order
they are looked at. Among documents the higher score comes first, and of equal scores the
smaller path; no two documents have one path, so there is one way to rank them.
-/

namespace DocWatch.Index

open Arithmetic Score

variable {ix : Index} {scores : Scores ℝ} {path query : String} {s : Nat × ℝ}

/-! ## The best chunk of a document -/

/-- How a scored chunk stands among the chunks of its document. -/
def standing (s : Nat × ℝ) : ℝ ×ₗ ℕᵒᵈ :=
  toLex (s.2, OrderDual.toDual s.1)

theorem standing_injective : Function.Injective standing := by
  rintro ⟨i, x⟩ ⟨j, y⟩ h
  have hpair := toLex.injective h
  rw [Prod.mk.injEq] at hpair
  exact Prod.ext (OrderDual.toDual.injective hpair.2) hpair.1

theorem standing_le_iff {s s' : Nat × ℝ} :
    standing s' ≤ standing s ↔ s'.2 < s.2 ∨ s'.2 = s.2 ∧ s.1 ≤ s'.1 :=
  Prod.Lex.toLex_le_toLex

theorem standing_lt_iff {s s' : Nat × ℝ} :
    standing s < standing s' ↔ s.2 < s'.2 ∨ s.2 = s'.2 ∧ s'.1 < s.1 :=
  Prod.Lex.toLex_lt_toLex

/-- The better of two chunks is the one that stands higher. -/
theorem standing_better (next best : Nat × ℝ) :
    standing (better next (some best)) = max (standing best) (standing next) := by
  have hless : (less best.2 next.2 || (!less next.2 best.2 && decide (next.1 < best.1))) = true ↔
      standing best < standing next := by
    rw [standing_lt_iff]
    simp only [less, Bool.or_eq_true, Bool.and_eq_true, Bool.not_eq_true', decide_eq_true_eq,
      decide_eq_false_iff_not, not_lt]
    constructor
    · rintro (hlt | ⟨hle, hlt⟩)
      · exact .inl hlt
      · rcases hle.lt_or_eq with hlt' | heq
        · exact .inl hlt'
        · exact .inr ⟨heq, hlt⟩
    · rintro (hlt | ⟨heq, hlt⟩)
      · exact .inl hlt
      · exact .inr ⟨heq.le, hlt⟩
  rw [better]
  split
  · rename_i h
    exact (max_eq_right (hless.1 h).le).symm
  · rename_i h
    exact (max_eq_left (not_lt.1 (mt hless.2 h))).symm

/-- Two chunks can be looked at in either order. -/
theorem better_comm (a b : Nat × ℝ) (found : Option (Nat × ℝ)) :
    better a (some (better b found)) = better b (some (better a found)) := by
  apply standing_injective
  cases found with
  | none => rw [standing_better, standing_better, better, better, max_comm]
  | some c =>
      rw [standing_better, standing_better, standing_better, standing_better, max_assoc, max_assoc,
        max_comm (standing b)]

/-- The best chunk of one document among scored chunks. -/
noncomputable def bestOfPath (ix : Index) (path : String) (scores : Scores ℝ) : Option (Nat × ℝ) :=
  scores.foldl
    (fun found s =>
      match ix.entries[s.1]? with
      | some e => if path = e.passage.path then some (better s found) else found
      | none => found)
    none

theorem bestOfPath_concat (ix : Index) (path : String) (scores : Scores ℝ) (s : Nat × ℝ) :
    bestOfPath ix path (scores ++ [s]) =
      match ix.entries[s.1]? with
      | some e =>
          if path = e.passage.path then some (better s (bestOfPath ix path scores))
          else bestOfPath ix path scores
      | none => bestOfPath ix path scores := by
  rw [bestOfPath, List.foldl_append]
  rfl

theorem get?_bestChunks (ix : Index) (scores : Scores ℝ) (path : String) :
    (bestChunks ix scores).get? path = bestOfPath ix path scores := by
  induction scores using List.reverseRecOn with
  | nil => rfl
  | append_singleton scores s ih =>
      rw [bestChunks_concat, bestOfPath_concat]
      cases ix.entries[s.1]? with
      | none => exact ih
      | some e =>
          dsimp only
          rw [(ascending_bestChunks ix scores).get?_alter, ih]
          split
          · rename_i hpath
            rw [← hpath, ih]
          · rfl

/-- The best chunk does not depend on the order in which the chunks are looked at. -/
theorem bestOfPath_perm {scores' : Scores ℝ} (h : scores.Perm scores') (ix : Index)
    (path : String) : bestOfPath ix path scores = bestOfPath ix path scores' := by
  refine h.foldl_eq' (fun a _ b _ found => ?_) none
  cases ix.entries[a.1]? with
  | none => rfl
  | some e =>
      cases ix.entries[b.1]? with
      | none => rfl
      | some e' =>
          dsimp only
          by_cases he : path = e.passage.path
          · by_cases he' : path = e'.passage.path
            · simp only [if_pos he, if_pos he', better_comm]
            · simp only [if_pos he, if_neg he']
          · simp only [if_neg he]

/-- No chunk of a document stands higher than the best one. -/
theorem Scored.standing_le {best : Nat × ℝ} (h : Scored ix scores path s)
    (hbest : bestOfPath ix path scores = some best) : standing s ≤ standing best := by
  induction scores using List.reverseRecOn generalizing best with
  | nil => cases h.1
  | append_singleton scores last ih =>
      obtain ⟨hmem, e, he, rfl⟩ := h
      rw [bestOfPath_concat] at hbest
      rcases List.mem_append.1 hmem with hmem | hlast
      · -- the last chunk can only have raised what the others came to
        have hscored : Scored ix scores e.passage.path s := ⟨hmem, e, he, rfl⟩
        split at hbest
        · split at hbest
          · cases hfound : bestOfPath ix e.passage.path scores with
            | none =>
                have hnone := Table.get?_eq_none_iff.1 ((get?_bestChunks ix scores _).trans hfound)
                exact absurd (mem_keys_bestChunks.2 ⟨s, hscored⟩) hnone
            | some found =>
                rw [hfound, Option.some.injEq] at hbest
                rw [← hbest, standing_better]
                exact le_max_of_le_left (ih hscored hfound)
          · exact ih hscored hbest
        · exact ih hscored hbest
      · obtain rfl := List.mem_singleton.1 hlast
        rw [he] at hbest
        dsimp only at hbest
        rw [if_pos rfl, Option.some.injEq] at hbest
        rw [← hbest]
        cases bestOfPath ix e.passage.path scores with
        | none => exact le_rfl
        | some found => exact (standing_better s found).ge.trans' (le_max_right _ _)

/-! ## The order of documents -/

/-- Where a document with its best chunk ranks; the first has the least rank. -/
def rank (row : String × Nat × ℝ) : ℝᵒᵈ ×ₗ String :=
  toLex (OrderDual.toDual row.2.2, row.1)

theorem rank_lt_iff {a b : String × Nat × ℝ} :
    rank a < rank b ↔ b.2.2 < a.2.2 ∨ a.2.2 = b.2.2 ∧ a.1 < b.1 :=
  Prod.Lex.toLex_lt_toLex

theorem ranksBefore_iff {a b : String × Nat × ℝ} : ranksBefore a b = true ↔ rank a ≤ rank b := by
  have hle : rank a ≤ rank b ↔ b.2.2 < a.2.2 ∨ a.2.2 = b.2.2 ∧ a.1 ≤ b.1 :=
    Prod.Lex.toLex_le_toLex
  rw [hle]
  simp only [ranksBefore, less, Bool.or_eq_true, Bool.and_eq_true, Bool.not_eq_true',
    decide_eq_true_eq, decide_eq_false_iff_not, not_lt]
  constructor
  · rintro (hlt | ⟨hle, hpath⟩)
    · exact .inl hlt
    · rcases hle.lt_or_eq with hlt | heq
      · exact .inl hlt
      · exact .inr ⟨heq.symm, hpath⟩
  · rintro (hlt | ⟨heq, hpath⟩)
    · exact .inl hlt
    · exact .inr ⟨heq.ge, hpath⟩

theorem pairwise_ranked (rows : Rows String (Nat × ℝ)) :
    (rows.mergeSort ranksBefore).Pairwise fun a b => rank a ≤ rank b := by
  have htrans : ∀ a b c : String × Nat × ℝ,
      ranksBefore a b = true → ranksBefore b c = true → ranksBefore a c = true := by
    intro a b c hab hbc
    exact ranksBefore_iff.2 ((ranksBefore_iff.1 hab).trans (ranksBefore_iff.1 hbc))
  have htotal : ∀ a b : String × Nat × ℝ, (ranksBefore a b || ranksBefore b a) = true := by
    intro a b
    rw [Bool.or_eq_true, ranksBefore_iff, ranksBefore_iff]
    exact le_total _ _
  exact (List.pairwise_mergeSort htrans htotal rows).imp ranksBefore_iff.1

/-- Documents with distinct paths can be ranked in one way only. -/
theorem mergeSort_eq_of_perm {rows rows' : Rows String (Nat × ℝ)} (hdistinct : rows.Distinct)
    (hperm : rows'.Perm rows) : rows'.mergeSort ranksBefore = rows.mergeSort ranksBefore := by
  have hsorted : (rows'.mergeSort ranksBefore).Perm (rows.mergeSort ranksBefore) :=
    (List.mergeSort_perm _ _).trans (hperm.trans (List.mergeSort_perm _ _).symm)
  refine hsorted.eq_of_pairwise (fun a b ha hb hab hba => ?_) (pairwise_ranked _)
    (pairwise_ranked _)
  have hrank : rank a = rank b := le_antisymm hab hba
  have hpath : a.1 = b.1 := (Prod.mk.inj (toLex.injective hrank)).2
  exact List.inj_on_of_nodup_map hdistinct (hperm.mem_iff.1 (List.mem_mergeSort.1 ha))
    (List.mem_mergeSort.1 hb) hpath

/-! ## The list that a search gives -/

/-- The documents with a score, with the best chunk of each, ranked. -/
noncomputable def ranking (ix : Index) (query : String) : Rows String (Nat × ℝ) :=
  (bestChunks ix (queryScores ix query)).mergeSort ranksBefore

theorem search_eq (ix : Index) (query : String) (limit : Nat) :
    search ix query limit = ((ranking ix query).take limit).filterMap (toHit ix (needles query)) :=
  rfl

theorem distinct_bestChunks (ix : Index) (scores : Scores ℝ) :
    Rows.Distinct (bestChunks ix scores) :=
  (ascending_bestChunks ix scores).nodup_keys

theorem pairwise_ranking (ix : Index) (query : String) :
    (ranking ix query).Pairwise fun a b => rank a < rank b := by
  have hdistinct : (ranking ix query).Pairwise fun a b => a.1 ≠ b.1 :=
    List.pairwise_map.1 ((distinct_bestChunks ix _).perm (List.mergeSort_perm _ _))
  refine (hdistinct.and (pairwise_ranked _)).imp fun hab => ?_
  rename_i a b
  refine lt_of_le_of_ne hab.2 fun heq => hab.1 ?_
  exact (Prod.mk.inj (toLex.injective heq)).2

theorem toHit_of_mem_ranking {row : String × Nat × ℝ} (h : row ∈ ranking ix query) :
    ∃ e, Scored ix (queryScores ix query) row.1 row.2 ∧ ix.entries[row.2.1]? = some e ∧
      toHit ix (needles query) row = some ⟨row.1, row.2.2, e.passage.id,
        String.ofList (snippet e.passage.text.toList (needles query))⟩ := by
  have hscored := scored_of_mem_bestChunks (List.mem_mergeSort.1 h)
  obtain ⟨e, he, -⟩ := hscored.2
  exact ⟨e, hscored, he, by rw [toHit, he, Option.map_some]⟩

/-- A smaller limit gives the beginning of what a greater one gives. -/
theorem search_of_le {k m : Nat} (h : k ≤ m) (ix : Index) (query : String) :
    (search ix query k : List (Hit ℝ)) = (search ix query m).take k := by
  rw [search_eq_take, search_eq_take, List.take_take, min_eq_left h]

/-- A list of hits ranks documents: no document twice, the highest score first and of
equal scores the smaller path, and each document by the best of its chunks. -/
structure Ranked (ix : Index) (query : String) (hits : List (Hit ℝ)) : Prop where
  nodup : (hits.map Hit.path).Nodup
  ordered : hits.Pairwise fun a b => b.score < a.score ∨ a.score = b.score ∧ a.path < b.path
  best : ∀ hit ∈ hits, ∃ i e, ix.entries[i]? = some e ∧ e.passage.path = hit.path ∧
    e.passage.id = hit.chunk ∧ (i, hit.score) ∈ queryScores ix query ∧
      ∀ s, Scored ix (queryScores ix query) hit.path s →
        s.2 ≤ hit.score ∧ (s.2 = hit.score → i ≤ s.1)

theorem exists_row_of_mem_search {hit : Hit ℝ} {limit : Nat} (h : hit ∈ search ix query limit) :
    ∃ row ∈ ranking ix query, toHit ix (needles query) row = some hit := by
  rw [search_eq] at h
  obtain ⟨row, hrow, hhit⟩ := List.mem_filterMap.1 h
  exact ⟨row, List.mem_of_mem_take hrow, hhit⟩

theorem pairwise_search (ix : Index) (query : String) (limit : Nat) :
    (search ix query limit : List (Hit ℝ)).Pairwise fun a b =>
      b.score < a.score ∨ a.score = b.score ∧ a.path < b.path := by
  have hhit : ∀ {row : String × Nat × ℝ} {hit : Hit ℝ},
      toHit ix (needles query) row = some hit → hit.path = row.1 ∧ hit.score = row.2.2 := by
    intro row hit h
    obtain ⟨e, -, rfl⟩ := Option.map_eq_some_iff.1 h
    exact ⟨rfl, rfl⟩
  have hrows := (pairwise_ranking ix query).sublist (List.take_sublist limit _)
  rw [search_eq, List.pairwise_filterMap]
  refine hrows.imp fun hrank a ha b hb => ?_
  rw [(hhit ha).1, (hhit ha).2, (hhit hb).1, (hhit hb).2]
  exact rank_lt_iff.1 hrank

theorem ranked_search (ix : Index) (query : String) (limit : Nat) :
    Ranked ix query (search ix query limit) where
  nodup := by
    rw [paths_search, List.map_take]
    have hdistinct := (distinct_bestChunks ix (queryScores ix query : Scores ℝ)).perm
      (List.mergeSort_perm _ ranksBefore)
    exact hdistinct.sublist (List.take_sublist _ _)
  ordered := pairwise_search ix query limit
  best := by
    intro hit hmem
    obtain ⟨row, hrow, hhit⟩ := exists_row_of_mem_search hmem
    obtain ⟨e, ⟨hscore, e', he', hpath⟩, he, heq⟩ := toHit_of_mem_ranking hrow
    obtain rfl : e' = e := Option.some.inj (he'.symm.trans he)
    obtain rfl := Option.some.inj (hhit.symm.trans heq)
    refine ⟨row.2.1, e', he, hpath, rfl, hscore, fun s hs => ?_⟩
    have hbest : bestOfPath ix row.1 (queryScores ix query) = some row.2 := by
      rw [← get?_bestChunks, (ascending_bestChunks _ _).get?_eq_some_iff]
      exact List.mem_mergeSort.1 hrow
    rcases standing_le_iff.1 (hs.standing_le hbest) with hlt | ⟨heq, hle⟩
    · exact ⟨hlt.le, fun heq => absurd heq hlt.ne⟩
    · exact ⟨heq.le, fun _ => hle⟩

end DocWatch.Index
