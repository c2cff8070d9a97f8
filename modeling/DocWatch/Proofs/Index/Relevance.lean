import DocWatch.Proofs.Index.Retrieval
import Mathlib.Analysis.SpecialFunctions.Log.Basic

/-!
# Scores in exact numbers

The index scores a query term by term, over postings. In exact numbers the order in which
contributions are added does not matter, and the score of a chunk is a sum over terms
that can be read off the texts: each term of the chunk that the query matches counts
once, with its best weight.
-/

namespace DocWatch.Index

open Score

variable {ix : Index} {passages : List Passage} {queries : List String} {p : Passage}
  {query term : String} {m : Match} {i : Nat} {x : ℝ}

noncomputable instance : Arithmetic ℝ where
  ofNat n := n
  add a b := a + b
  sub a b := a - b
  mul a b := a * b
  div a b := a / b
  log := Real.log
  less a b := decide (a < b)

/-! ## The score of a chunk, read off the texts -/

/-- The weight of a match. -/
noncomputable def weightOf : Match → ℝ
  | .exact => 1
  | .inside => 0.6
  | .near => 0.5

/-- The best weight that a term of the query gives to a term. -/
noncomputable def bestWeight (queries : List String) (term : String) : ℝ :=
  sSup {w | ∃ query ∈ queries, ∃ m, Matches query term m ∧ weightOf m = w}

instance (query term : String) : Decidable (∃ m, Matches query term m) :=
  decidable_of_iff _ exists_matches_iff.symm

/-- The terms of a passage that the query matches. -/
def matchedTerms (queries : List String) (p : Passage) : Finset String :=
  (tokenize p.text).toFinset.filter fun term => ∃ query ∈ queries, ∃ m, Matches query term m

/-- The number of passages that contain a term. -/
def frequency (passages : List Passage) (term : String) : Nat :=
  passages.countP fun p => decide (term ∈ tokenize p.text)

/-- The mean number of terms of a passage. -/
noncomputable def meanLength (passages : List Passage) : ℝ :=
  (passages.map fun p => (tokenize p.text).length).sum / passages.length

/-- What a term with a weight brings to the score of a passage. -/
noncomputable def share (passages : List Passage) (p : Passage) (term : String) (w : ℝ) : ℝ :=
  let n : ℝ := passages.length
  let df : ℝ := frequency passages term
  let tf : ℝ := (tokenize p.text).count term
  let length : ℝ := (tokenize p.text).length
  w * Real.log (1 + (n - df + 0.5) / (df + 0.5)) * tf * 2.2 /
    (tf + 1.2 * (0.25 + 0.75 * length / meanLength passages))

/-- The score of a passage. -/
noncomputable def directScore (passages : List Passage) (queries : List String) (p : Passage) :
    ℝ :=
  ∑ term ∈ matchedTerms queries p, share passages p term (bestWeight queries term)

theorem weightOf_le_of_best {m' : Match} (h : m.best m' = m) : weightOf m' ≤ weightOf m := by
  cases m <;> cases m' <;> simp [Match.best] at h <;> norm_num [weightOf]

theorem bestWeight_eq (h : bestMatch? queries term = some m) :
    bestWeight queries term = weightOf m := by
  obtain ⟨⟨query, hquery, hm⟩, hbest⟩ := bestMatch?_eq_some h
  refine IsGreatest.csSup_eq ⟨⟨query, hquery, m, hm, rfl⟩, ?_⟩
  rintro w ⟨query', hquery', m', hm', rfl⟩
  exact weightOf_le_of_best (hbest query' hquery' m' hm')

theorem weight_eq (m : Match) : (m.weight : ℝ) = weightOf m := by
  cases m <;> simp only [Match.weight, ratio, Arithmetic.div, Arithmetic.ofNat, weightOf] <;>
    norm_num

theorem rarity_eq (n df : Nat) :
    (rarity n df : ℝ) = Real.log (1 + (n - df + 0.5) / (df + 0.5)) := by
  simp only [rarity, ratio, Arithmetic.log, Arithmetic.add, Arithmetic.sub, Arithmetic.div,
    Arithmetic.ofNat]
  norm_num

theorem lengthFactor_eq {n sum : Nat} (hsum : sum ≠ 0) (length : Nat) :
    (lengthFactor n sum length : ℝ) = 0.25 + 0.75 * length / (sum / n) := by
  simp only [lengthFactor, if_neg hsum, ratio, Arithmetic.add, Arithmetic.sub, Arithmetic.mul,
    Arithmetic.div, Arithmetic.ofNat]
  norm_num

theorem contribution_eq {sum : Nat} (hsum : sum ≠ 0) (m : Match) (n df tf length : Nat) :
    (contribution m n df tf sum length : ℝ) =
      weightOf m * Real.log (1 + (n - df + 0.5) / (df + 0.5)) * tf * 2.2 /
        (tf + 1.2 * (0.25 + 0.75 * length / (sum / n))) := by
  have hgain : ((12 : ℕ) : ℝ) / (10 : ℕ) + (1 : ℕ) / (1 : ℕ) = 2.2 := by norm_num
  have hdamp : ((12 : ℕ) : ℝ) / (10 : ℕ) = 1.2 := by norm_num
  rw [contribution, weight_eq, rarity_eq, lengthFactor_eq hsum]
  simp only [ratio, Arithmetic.add, Arithmetic.mul, Arithmetic.div, Arithmetic.ofNat]
  rw [hgain, hdamp, ← mul_assoc]

/-! ## Sums of contributions -/

theorem getD_merged (found : List (Option ℝ)) :
    (merged found).getD 0 = (found.map fun x => x.getD 0).sum := by
  induction found using List.reverseRecOn with
  | nil => rfl
  | append_singleton found x ih =>
      rw [List.map_append, List.sum_append, ← ih, merged, List.foldl_append, ← merged]
      cases merged found <;> cases x <;> simp [Arithmetic.add]

theorem merged_eq_some_iff {found : List (Option ℝ)} :
    merged found = some x ↔ merged found ≠ none ∧ x = (found.map fun x => x.getD 0).sum := by
  rw [← getD_merged]
  cases merged found <;> simp [eq_comm]

theorem Indexed.mem_termQueryScores (h : Indexed ix passages) :
    (i, x) ∈ (termQueryScores ix queries : Scores ℝ) ↔
      i ∈ (termQueryScores ix queries : Scores ℝ).map Prod.fst ∧
        x = (ix.postings.keys.map fun term => (brought? passages queries i term).getD 0).sum := by
  rw [← (h.rising_termQueryScores queries).distinct.lookup_eq_some_iff, h.lookup_termQueryScores,
    merged_eq_some_iff, ← h.lookup_termQueryScores, ne_eq, Rows.lookup_eq_none_iff,
    not_not, List.map_map]
  rfl

/-- Terms that do not match bring nothing, and neither do those that the passage does not
contain. -/
theorem brought?_eq_none (hp : passages[i]? = some p) (hterm : term ∉ matchedTerms queries p) :
    (brought? passages queries i term : Option ℝ) = none := by
  rw [brought?_eq_none_iff]
  intro p' hp' hmem query hquery m hm
  obtain rfl : p = p' := Option.some.inj (hp.symm.trans hp')
  exact hterm (Finset.mem_filter.2 ⟨List.mem_toFinset.2 hmem, query, hquery, m, hm⟩)

theorem total_lengths_ne_zero (hp : p ∈ passages) (hterm : term ∈ tokenize p.text) :
    total (passages.map fun p => (tokenize p.text).length) ≠ 0 := by
  have hpos : 0 < (tokenize p.text).length := List.length_pos_of_mem hterm
  have hlength : (tokenize p.text).length ∈ passages.map fun p => (tokenize p.text).length :=
    List.mem_map_of_mem hp
  exact Nat.ne_of_gt (Nat.lt_of_lt_of_le hpos (List.le_sum_of_mem hlength))

theorem brought?_of_matched (hp : passages[i]? = some p) (hterm : term ∈ matchedTerms queries p) :
    (brought? passages queries i term : Option ℝ) =
      some (share passages p term (bestWeight queries term)) := by
  obtain ⟨hmem, query, hquery, m, hm⟩ := Finset.mem_filter.1 hterm
  have hmem := List.mem_toFinset.1 hmem
  have hcount : (tokenize p.text).count term ≠ 0 := by
    rwa [ne_eq, List.count_eq_zero, not_not]
  have hsum := total_lengths_ne_zero (List.mem_of_getElem? hp) hmem
  cases hbest : bestMatch? queries term with
  | none => exact absurd hm (bestMatch?_eq_none_iff.1 hbest query hquery m)
  | some m =>
      rw [brought?, hbest, Option.bind_some, hp, Option.bind_some, if_neg hcount,
        contribution_eq hsum, length_occurrences, share, bestWeight_eq hbest]
      rfl

theorem Indexed.sum_brought (h : Indexed ix passages) (hp : passages[i]? = some p)
    (queries : List String) :
    (ix.postings.keys.map fun term => (brought? passages queries i term).getD 0).sum =
      directScore passages queries p := by
  have hsubset : matchedTerms queries p ⊆ ix.postings.keys.toFinset := by
    intro term hterm
    have hmem := List.mem_toFinset.1 (Finset.mem_filter.1 hterm).1
    exact List.mem_toFinset.2 (h.mem_keys.2 ⟨p, List.mem_of_getElem? hp, hmem⟩)
  rw [← List.sum_toFinset _ h.ascending.nodup_keys, ← Finset.sum_subset hsubset, directScore]
  · refine Finset.sum_congr rfl fun term hterm => ?_
    rw [brought?_of_matched hp hterm, Option.getD_some]
  · intro term _ hterm
    rw [brought?_eq_none hp hterm, Option.getD_none]

/-- Every chunk has one score at most, and it has one just if the query matches a term of
it. -/
theorem Indexed.mem_termQueryScores_iff (h : Indexed ix passages) :
    (i, x) ∈ (termQueryScores ix queries : Scores ℝ) ↔
      ∃ p, passages[i]? = some p ∧ (matchedTerms queries p).Nonempty ∧
        x = directScore passages queries p := by
  rw [h.mem_termQueryScores, h.mem_chunks_termQueryScores]
  constructor
  · rintro ⟨⟨p, hp, term, hterm, hmatched⟩, rfl⟩
    exact ⟨p, hp, ⟨term, Finset.mem_filter.2 ⟨List.mem_toFinset.2 hterm, hmatched⟩⟩,
      h.sum_brought hp queries⟩
  · rintro ⟨p, hp, ⟨term, hterm⟩, rfl⟩
    obtain ⟨hmem, hmatched⟩ := Finset.mem_filter.1 hterm
    exact ⟨⟨p, hp, term, List.mem_toFinset.1 hmem, hmatched⟩, (h.sum_brought hp queries).symm⟩

theorem directScore_eraseDups (passages : List Passage) (queries : List String) (p : Passage) :
    directScore passages queries.eraseDups p = directScore passages queries p := by
  simp only [directScore, matchedTerms, bestWeight, List.mem_eraseDups]

theorem matchedTerms_eraseDups (queries : List String) (p : Passage) :
    matchedTerms queries.eraseDups p = matchedTerms queries p := by
  simp only [matchedTerms, List.mem_eraseDups]

/-- There is an index just if passages and terms can be counted, and through it each
chunk gets the score that can be read off the texts. A chunk without a term that the query
matches has none. -/
theorem scores_eq_directScore (passages : List Passage) (query : String) :
    ((∃ ix, build passages = .ok ix) ↔ passages.length ≤ indexCapacity ∧
      ∀ p ∈ passages, (tokenize p.text).length ≤ indexCapacity) ∧
    ∀ ix, build passages = .ok ix →
      ((termQueryScores ix (tokenize query).eraseDups : Scores ℝ).map Prod.fst).Nodup ∧
      ∀ i x, (i, x) ∈ (termQueryScores ix (tokenize query).eraseDups : Scores ℝ) ↔
        ∃ p, passages[i]? = some p ∧ (matchedTerms (tokenize query) p).Nonempty ∧
          x = directScore passages (tokenize query) p := by
  refine ⟨?_, fun ix h => ?_⟩
  · simp only [build_eq_ok_iff, exists_and_left, exists_eq, and_true]
  · have hindexed := indexed_of_build h
    refine ⟨(hindexed.rising_termQueryScores _).imp fun hlt => Nat.ne_of_lt hlt, fun i x => ?_⟩
    rw [hindexed.mem_termQueryScores_iff]
    simp only [matchedTerms_eraseDups, directScore_eraseDups]

/-- A term that one of two documents contains, and that document alone has a score. -/
theorem scores_eq_directScore_rate : ∃ ix, build [gaugeGuide, rateGuide] = .ok ix ∧
    ∀ i x, (i, x) ∈ (termQueryScores ix (tokenize "rate").eraseDups : Scores ℝ) ↔
      i = 1 ∧ x = 22 / 21 * Real.log 2 := by
  obtain ⟨hbuilt, hscores⟩ := scores_eq_directScore [gaugeGuide, rateGuide] "rate"
  obtain ⟨ix, hix⟩ := hbuilt.2 (by decide +kernel)
  have hquery : tokenize "rate" = ["rate"] := by decide +kernel
  have hgauge : matchedTerms ["rate"] gaugeGuide = ∅ := by decide +kernel
  have hrate : matchedTerms ["rate"] rateGuide = {"rate"} := by decide +kernel
  have hweight : bestWeight ["rate"] "rate" = 1 :=
    bestWeight_eq (m := .exact) (by decide +kernel)
  have hmean : meanLength [gaugeGuide, rateGuide] = 9 / 2 := by
    have hsum : ([gaugeGuide, rateGuide].map fun p => (tokenize p.text).length).sum = 9 := by
      decide +kernel
    rw [meanLength, hsum]
    norm_num
  have hscore : directScore [gaugeGuide, rateGuide] ["rate"] rateGuide = 22 / 21 * Real.log 2 := by
    have hdf : frequency [gaugeGuide, rateGuide] "rate" = 1 := by decide +kernel
    have htf : (tokenize rateGuide.text).count "rate" = 1 := by decide +kernel
    have hlength : (tokenize rateGuide.text).length = 4 := by decide +kernel
    rw [directScore, hrate, Finset.sum_singleton, share, hweight, hmean, hdf, htf, hlength]
    norm_num
    ring
  refine ⟨ix, hix, fun i x => ?_⟩
  rw [(hscores ix hix).2, hquery]
  match i with
  | 0 => simp [hgauge]
  | 1 => simp [hrate, hscore]
  | i + 2 => simp

end DocWatch.Index
