import DocWatch.Proofs.Index.Matching
import DocWatch.Proofs.Index.Postings
import DocWatch.Proofs.Rows

/-!
# The scores of chunks, term by term

Every term that matches brings a list of contributions, one for each chunk that
contains it, in order of chunk; the lists are merged, and where two of them meet at a
chunk the contributions are added. So the score of a chunk is put together from the
contributions of exactly those terms that match and that it contains, each taken once.
None of this depends on what arithmetic the scores are computed in.
-/

namespace DocWatch.Index

open Score

variable {R : Type} [Arithmetic R] {a b : Scores R} {ix : Index} {passages : List Passage}
  {queries : List String} {term : String} {i : Nat}

/-- The chunks ascend, so each has one score at most. -/
def Rising (scores : Scores R) : Prop :=
  (scores.map Prod.fst).Pairwise (· < ·)

omit [Arithmetic R] in
theorem rising_cons {x : R} : Rising ((i, x) :: a) ↔ (∀ j ∈ a.map Prod.fst, i < j) ∧ Rising a :=
  List.pairwise_cons

omit [Arithmetic R] in
theorem Rising.distinct (h : Rising a) : Rows.Distinct a :=
  h.imp fun hlt => Nat.ne_of_lt hlt

omit [Arithmetic R] in
theorem lookup_eq_none_of_lt (h : ∀ j ∈ a.map Prod.fst, i < j) : a.lookup i = none :=
  Rows.lookup_eq_none_iff.2 fun hi => Nat.lt_irrefl i (h i hi)

omit [Arithmetic R] in
/-- A chunk before the first one is before all. -/
theorem Rising.lt_of_lt_head {j : Nat} {x : R} (h : Rising ((j, x) :: a)) (hlt : i < j) :
    ∀ k ∈ ((j, x) :: a).map Prod.fst, i < k := by
  intro k hk
  rcases List.mem_cons.1 hk with rfl | hk
  · exact hlt
  · exact Nat.lt_trans hlt ((rising_cons.1 h).1 k hk)

/-! ## Merging -/

@[simp] theorem mergeScores_nil (a : Scores R) : mergeScores a [] = a := by
  cases a <;> simp [mergeScores]

theorem mem_chunks_mergeScores (a b : Scores R) :
    i ∈ (mergeScores a b).map Prod.fst ↔ i ∈ a.map Prod.fst ∨ i ∈ b.map Prod.fst := by
  induction a, b using mergeScores.induct with
  | case1 bs => simp [mergeScores]
  | case2 as _ => simp
  | case3 i x as j y bs hlt ih =>
      rw [mergeScores, if_pos hlt]
      simp only [List.map_cons, List.mem_cons] at ih ⊢
      rw [ih, or_assoc]
  | case4 i x as j y bs hlt hgt ih =>
      rw [mergeScores, if_neg hlt, if_pos hgt]
      simp only [List.map_cons, List.mem_cons] at ih ⊢
      rw [ih, or_left_comm]
  | case5 i x as j y bs hlt hgt ih =>
      have hij : i = j := by omega
      rw [mergeScores, if_neg hlt, if_neg hgt]
      simp only [List.map_cons, List.mem_cons, ih, hij]
      tauto

theorem Rising.mergeScores (ha : Rising a) (hb : Rising b) : Rising (mergeScores a b) := by
  induction a, b using mergeScores.induct with
  | case1 bs => simpa [Index.mergeScores] using hb
  | case2 as _ => rwa [mergeScores_nil]
  | case3 i x as j y bs hlt ih =>
      obtain ⟨hfirst, has⟩ := rising_cons.1 ha
      rw [Index.mergeScores, if_pos hlt, rising_cons]
      refine ⟨fun k hk => ?_, ih has hb⟩
      rcases (mem_chunks_mergeScores _ _).1 hk with hk | hk
      · exact hfirst k hk
      · exact hb.lt_of_lt_head hlt k hk
  | case4 i x as j y bs hlt hgt ih =>
      obtain ⟨hfirst, hbs⟩ := rising_cons.1 hb
      rw [Index.mergeScores, if_neg hlt, if_pos hgt, rising_cons]
      refine ⟨fun k hk => ?_, ih ha hbs⟩
      rcases (mem_chunks_mergeScores _ _).1 hk with hk | hk
      · exact ha.lt_of_lt_head hgt k hk
      · exact hfirst k hk
  | case5 i x as j y bs hlt hgt ih =>
      obtain ⟨hfirst, has⟩ := rising_cons.1 ha
      obtain ⟨hfirst', hbs⟩ := rising_cons.1 hb
      rw [Index.mergeScores, if_neg hlt, if_neg hgt, rising_cons]
      refine ⟨fun k hk => ?_, ih has hbs⟩
      rcases (mem_chunks_mergeScores _ _).1 hk with hk | hk
      · exact hfirst k hk
      · have := hfirst' k hk
        omega

/-- Merging adds what the two lists have for a chunk. -/
theorem lookup_mergeScores (ha : Rising a) (hb : Rising b) (k : Nat) :
    (mergeScores a b).lookup k = (a.lookup k).merge Arithmetic.add (b.lookup k) := by
  induction a, b using mergeScores.induct with
  | case1 bs => simp [mergeScores]
  | case2 as _ => simp
  | case3 i x as j y bs hlt ih =>
      obtain ⟨hfirst, has⟩ := rising_cons.1 ha
      rw [mergeScores, if_pos hlt, Rows.lookup_cons, Rows.lookup_cons (t := as), ih has hb]
      by_cases hk : k = i
      · -- the chunk comes before all chunks of the other list
        subst hk
        have hnone : List.lookup k ((j, y) :: bs) = none :=
          lookup_eq_none_of_lt (hb.lt_of_lt_head hlt)
        rw [if_pos rfl, if_pos rfl, hnone]
        rfl
      · rw [if_neg hk, if_neg hk]
  | case4 i x as j y bs hlt hgt ih =>
      obtain ⟨hfirst, hbs⟩ := rising_cons.1 hb
      rw [mergeScores, if_neg hlt, if_pos hgt, Rows.lookup_cons, Rows.lookup_cons (t := bs),
        ih ha hbs]
      by_cases hk : k = j
      · subst hk
        have hnone : List.lookup k ((i, x) :: as) = none :=
          lookup_eq_none_of_lt (ha.lt_of_lt_head hgt)
        rw [if_pos rfl, if_pos rfl, hnone]
        rfl
      · rw [if_neg hk, if_neg hk]
  | case5 i x as j y bs hlt hgt ih =>
      obtain rfl : i = j := by omega
      rw [mergeScores, if_neg hlt, if_neg hgt, Rows.lookup_cons, Rows.lookup_cons,
        Rows.lookup_cons, ih (rising_cons.1 ha).2 (rising_cons.1 hb).2]
      split <;> rfl

/-- What is found for a chunk in lists of scores, put together. -/
def merged (found : List (Option R)) : Option R :=
  found.foldl (Option.merge Arithmetic.add) none

theorem rising_merged {lists : List (Scores R)} (h : ∀ l ∈ lists, Rising l) :
    Rising (lists.foldl mergeScores []) := by
  induction lists using List.reverseRecOn with
  | nil => exact .nil
  | append_singleton lists last ih =>
      rw [List.foldl_append, List.foldl_cons, List.foldl_nil]
      exact (ih fun l hl => h l (List.mem_append_left _ hl)).mergeScores (h last (by simp))

theorem lookup_merged {lists : List (Scores R)} (h : ∀ l ∈ lists, Rising l) (i : Nat) :
    (lists.foldl mergeScores []).lookup i = merged (lists.map fun l => l.lookup i) := by
  induction lists using List.reverseRecOn with
  | nil => rfl
  | append_singleton lists last ih =>
      have hlists : ∀ l ∈ lists, Rising l := fun l hl => h l (List.mem_append_left _ hl)
      rw [List.foldl_append, List.foldl_cons, List.foldl_nil,
        lookup_mergeScores (rising_merged hlists) (h last (by simp)), ih hlists, merged, merged,
        List.map_append, List.foldl_append]
      rfl

theorem merged_eq_none_iff {found : List (Option R)} :
    merged found = none ↔ ∀ x ∈ found, x = none := by
  induction found using List.reverseRecOn with
  | nil => simp [merged]
  | append_singleton found x ih =>
      rw [merged, List.foldl_append, List.foldl_cons, List.foldl_nil, ← merged]
      simp only [List.mem_append, List.mem_singleton, or_imp, forall_and, forall_eq, ← ih]
      cases merged found <;> cases x <;> simp

theorem merged_filterMap {α : Type} (f : α → Option (Option R)) (rows : List α) :
    merged (rows.filterMap f) = merged (rows.map fun row => (f row).join) := by
  induction rows using List.reverseRecOn with
  | nil => rfl
  | append_singleton rows row ih =>
      rw [List.filterMap_append, List.map_append, merged, merged, List.foldl_append,
        List.foldl_append, ← merged, ← merged, ih]
      cases hrow : f row with
      | none => simp [hrow]
      | some found => simp [hrow]

/-! ## The terms of a query -/

/-- What a term brings to the score of a chunk, read off the texts. -/
def brought? (passages : List Passage) (queries : List String) (i : Nat) (term : String) :
    Option R :=
  (bestMatch? queries term).bind fun m => passages[i]?.bind fun p =>
    let tf := (tokenize p.text).count term
    if tf = 0 then none
    else some (contribution m passages.length (occurrences term passages).length tf
      (total (passages.map fun p => (tokenize p.text).length)) (tokenize p.text).length)

theorem chunks_termScores (ix : Index) (m : Match) (ps : List Posting) :
    ((termScores ix m ps : Scores R)).map Prod.fst = ps.map Posting.chunk := by
  rw [termScores, List.map_map]
  rfl

theorem rising_termScores (ix : Index) (m : Match) (term : String) (passages : List Passage) :
    Rising (termScores ix m (occurrences term passages) : Scores R) := by
  rw [Rising, chunks_termScores, List.pairwise_map]
  exact pairwise_occurrences term passages

theorem chunkCount_eq (h : ix.entries = passages.map fun p => ⟨p, (tokenize p.text).length⟩) :
    ix.chunkCount = passages.length := by
  rw [chunkCount, h, List.length_map]

theorem Indexed.mem_postings (h : Indexed ix passages) {ps : List Posting} :
    (term, ps) ∈ ix.postings ↔ ps = occurrences term passages ∧ ps ≠ [] := by
  rw [← h.ascending.get?_eq_some_iff, h.get?_eq, listed_eq_some_iff]

theorem Indexed.mem_keys (h : Indexed ix passages) :
    term ∈ ix.postings.keys ↔ ∃ p ∈ passages, term ∈ tokenize p.text := by
  rw [← not_iff_not, ← Table.get?_eq_none_iff, h.get?_eq, listed_eq_none_iff,
    occurrences_eq_nil_iff]
  simp

theorem Indexed.lookup_termScores (h : Indexed ix passages) (m : Match) (term : String) (i : Nat) :
    (termScores ix m (occurrences term passages) : Scores R).lookup i =
      passages[i]?.bind fun p =>
        if (tokenize p.text).count term = 0 then none
        else some (contribution m passages.length (occurrences term passages).length
          ((tokenize p.text).count term)
          (total (passages.map fun p => (tokenize p.text).length)) (tokenize p.text).length) := by
  refine Option.ext fun x => ?_
  rw [(rising_termScores ix m term passages).distinct.lookup_eq_some_iff, termScores, List.mem_map,
    chunkCount_eq h.entries_eq, h.totalLength_eq, h.entries_eq]
  constructor
  · rintro ⟨⟨chunk, tf⟩, hposting, heq⟩
    obtain ⟨p, hp, hcount, hne⟩ := mem_occurrences.1 hposting
    dsimp only at hp hcount hne
    cases heq
    simp [hp, hcount, hne]
  · intro hx
    obtain ⟨p, hp, hx⟩ := Option.bind_eq_some_iff.1 hx
    split at hx
    · cases hx
    · rename_i hne
      cases hx
      exact ⟨⟨i, (tokenize p.text).count term⟩, mem_occurrences.2 ⟨p, hp, rfl, hne⟩, by simp [hp]⟩

/-- The lists of scores that are merged, one for each term that matches. -/
def contributions (ix : Index) (passages : List Passage) (queries : List String) :
    List (Scores R) :=
  ix.postings.keys.filterMap fun term =>
    (bestMatch? queries term).map fun m => termScores ix m (occurrences term passages)

theorem Indexed.termQueryScores_eq (h : Indexed ix passages) (queries : List String) :
    (termQueryScores ix queries : Scores R) =
      (contributions ix passages queries).foldl mergeScores [] := by
  rw [termQueryScores, contributions, Table.keys, List.filterMap_map]
  congr 1
  refine List.filterMap_congr fun row hrow => ?_
  obtain ⟨term, ps⟩ := row
  obtain ⟨rfl, -⟩ := h.mem_postings.1 hrow
  rfl

theorem rising_of_mem_contributions {scores : Scores R}
    (h : scores ∈ contributions ix passages queries) : Rising scores := by
  obtain ⟨term, -, hterm⟩ := List.mem_filterMap.1 h
  obtain ⟨m, -, rfl⟩ := Option.map_eq_some_iff.1 hterm
  exact rising_termScores ix m term passages

theorem Indexed.rising_termQueryScores (h : Indexed ix passages) (queries : List String) :
    Rising (termQueryScores ix queries : Scores R) := by
  rw [h.termQueryScores_eq]
  exact rising_merged fun _ => rising_of_mem_contributions

/-- The score of a chunk is put together from what the terms of the index bring. -/
theorem Indexed.lookup_termQueryScores (h : Indexed ix passages) (queries : List String) (i : Nat) :
    (termQueryScores ix queries : Scores R).lookup i =
      merged (ix.postings.keys.map (brought? passages queries i)) := by
  rw [h.termQueryScores_eq, lookup_merged fun _ => rising_of_mem_contributions, contributions,
    List.map_filterMap, merged_filterMap]
  congr 1
  refine List.map_congr_left fun term _ => ?_
  rw [brought?]
  cases bestMatch? queries term with
  | none => rfl
  | some m => exact h.lookup_termScores m term i

theorem brought?_eq_none_iff : (brought? passages queries i term : Option R) = none ↔
    ∀ p, passages[i]? = some p → term ∈ tokenize p.text →
      ∀ query ∈ queries, ∀ m, ¬ Matches query term m := by
  rw [← bestMatch?_eq_none_iff, brought?]
  cases bestMatch? queries term with
  | none => simp
  | some m =>
      cases passages[i]? with
      | none => simp
      | some p => simp [List.count_eq_zero]

/-- The chunks with a score are those with a term that matches. -/
theorem Indexed.mem_chunks_termQueryScores (h : Indexed ix passages) :
    i ∈ (termQueryScores ix queries : Scores R).map Prod.fst ↔
      ∃ p, passages[i]? = some p ∧
        ∃ term ∈ tokenize p.text, ∃ query ∈ queries, ∃ m, Matches query term m := by
  rw [← not_iff_not, ← Rows.lookup_eq_none_iff, h.lookup_termQueryScores,
    merged_eq_none_iff,
    List.forall_mem_map]
  simp only [brought?_eq_none_iff]
  constructor
  · rintro hnone ⟨p, hp, term, hterm, query, hquery, m, hm⟩
    have hkey : term ∈ ix.postings.keys := h.mem_keys.2 ⟨p, List.mem_of_getElem? hp, hterm⟩
    exact hnone term hkey p hp hterm query hquery m hm
  · intro hnone term _ p hp hterm query hquery m hm
    exact hnone ⟨p, hp, term, hterm, query, hquery, m, hm⟩

end DocWatch.Index
