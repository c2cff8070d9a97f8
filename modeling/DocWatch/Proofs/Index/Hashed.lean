import DocWatch.Proofs.Index.Ranking
import DocWatch.Proofs.Rows

/-!
# A search whose maps are traversed in any order

The index keeps its postings in a table sorted by term, and a search keeps the scores of
the chunks and the best chunks of the documents in lists that are sorted too. Here all of
these are maps without an order: the counts of the terms of a chunk, the postings, the
weights of the terms that match, the scores of the chunks and the best chunks. Each loop
over one of them goes in an order of its own that is left open.

In exact numbers nothing of that order is left in the result. Step by step the map that
comes out has the rows of the sorted one: the weights because the best match is a maximum,
the scores because they are sums, the best chunks because no two chunks are equally good,
and the ranking because no two documents have one path.
-/

namespace DocWatch.Index

open Arithmetic Score

/-- An order for every loop over a map that building an index and searching it involve. -/
structure Traversals (R : Type) where
  /-- Over the counts of the terms of the chunk with an ordinal. -/
  counts : Nat → Traversal (String × Nat)
  /-- Over the postings, for one term of the query. -/
  postings : String → Traversal (String × List Posting)
  weights : Traversal (String × Match)
  scores : Traversal (Nat × R)
  best : Traversal (String × Nat × R)

namespace Hashed

variable {R : Type} [Arithmetic R] (orders : Traversals R)

/-- How often each term occurs. -/
def counts (tokens : List String) : Rows String Nat :=
  tokens.foldl (fun t token => t.alter (fun n => n.getD 0 + 1) token) []

/-- Adds a passage behind the chunks of an index. -/
def add (ix : Index) (p : Passage) : Index :=
  let tokens := tokenize p.text
  let ordinal := ix.entries.length
  ⟨ix.entries ++ [⟨p, tokens.length⟩],
    Rows.putAll (fun tf ps => ps.getD [] ++ [⟨ordinal, tf⟩]) ix.postings
      ((orders.counts ordinal).visit (counts tokens)),
    ix.totalLength + tokens.length⟩

/-- The index of a list of passages that can be counted. -/
def build (passages : List Passage) : Index :=
  passages.foldl (add orders) empty

/-- The better of a match and the one that was there. -/
def keepBest (m : Match) (found : Option Match) : Match :=
  match found with
  | none => m
  | some b => b.best m

/-- The best match of every term of the index that a term of the query matches. -/
def weights (ix : Index) (queries : List String) : Rows String Match :=
  queries.foldl
    (fun t query =>
      t.putAll keepBest
        (Rows.select (fun term _ => matchTerm? query term)
          ((orders.postings query).visit ix.postings)))
    []

/-- Adds what a term with a weight brings to the scores of the chunks that contain it. -/
def addTerm (ix : Index) (scores : Rows Nat R) (row : String × Match) : Rows Nat R :=
  match ix.postings.lookup row.1 with
  | some ps =>
      scores.putAll (fun x found => Arithmetic.add (found.getD (ofNat 0)) x)
        (termScores ix row.2 ps)
  | none => scores

/-- The scores of the chunks for a query. -/
def queryScores (ix : Index) (query : String) : Rows Nat R :=
  let queries := (tokenize query).eraseDups
  if queries = [] then plainScores ix query
  else (orders.weights.visit (weights orders ix queries)).foldl (addTerm ix) []

/-- The best chunk of each document. -/
def bestChunks (ix : Index) (scores : Rows Nat R) : Rows String (Nat × R) :=
  scores.foldl
    (fun t s =>
      match ix.entries[s.1]? with
      | some e => t.alter (better s) e.passage.path
      | none => t)
    []

/-- The documents that match a query, best first, at most `limit` of them. -/
def search (ix : Index) (query : String) (limit : Nat) : List (Hit R) :=
  if limit = 0 ∨ ix.entries = [] then []
  else
    let best := bestChunks ix (orders.scores.visit (queryScores orders ix query))
    (((orders.best.visit best).mergeSort ranksBefore).take limit).filterMap
      (toHit ix (needles query))

end Hashed

variable {orders : Traversals ℝ} {ix ix' : Index} {passages : List Passage} {query term : String}

/-! ## The postings -/

/-- An index holds what is to be known of some passages, its postings in any order. -/
structure Posted (ix : Index) (passages : List Passage) : Prop where
  entries_eq : ix.entries = passages.map fun p => ⟨p, (tokenize p.text).length⟩
  distinct : Rows.Distinct ix.postings
  lookup_eq : ∀ term, ix.postings.lookup term = listed (occurrences term passages)
  totalLength_eq : ix.totalLength = total (passages.map fun p => (tokenize p.text).length)

theorem getD_listed (ps : List Posting) : (listed ps).getD [] = ps := by
  rw [listed]
  split
  · rename_i hnil
    rw [hnil, Option.getD_none]
  · rw [Option.getD_some]

theorem get?_eq_lookup {α : Type} (t : Table α) (k : String) : t.get? k = t.lookup k := by
  induction t with
  | nil => rfl
  | cons row rest ih =>
      obtain ⟨key, v⟩ := row
      rw [Table.get?, Rows.lookup_cons, ih]

theorem Indexed.posted (h : Indexed ix passages) : Posted ix passages where
  entries_eq := h.entries_eq
  distinct := h.ascending.nodup_keys
  lookup_eq term := (get?_eq_lookup _ _).symm.trans (h.get?_eq term)
  totalLength_eq := h.totalLength_eq

namespace Hashed

theorem distinct_counts (tokens : List String) : (counts tokens).Distinct := by
  induction tokens using List.reverseRecOn with
  | nil => exact Rows.distinct_nil
  | append_singleton tokens token ih =>
      rw [counts, List.foldl_append]
      exact ih.alter _ _

theorem lookup_counts (tokens : List String) (term : String) :
    (counts tokens).lookup term =
      if tokens.count term = 0 then none else some (tokens.count term) := by
  induction tokens using List.reverseRecOn with
  | nil => rfl
  | append_singleton tokens token ih =>
      have hstep : counts (tokens ++ [token]) =
          (counts tokens).alter (fun n => n.getD 0 + 1) token := by
        rw [counts, List.foldl_append]
        rfl
      rw [hstep, Rows.lookup_alter, List.count_append]
      by_cases hterm : term = token
      · subst hterm
        rw [if_pos rfl, ih]
        by_cases hzero : tokens.count term = 0 <;> simp [hzero]
      · rw [if_neg hterm, ih]
        simp [Ne.symm hterm]

theorem posted_add (h : Posted ix passages) (p : Passage) :
    Posted (add orders ix p) (passages ++ [p]) where
  entries_eq := by
    rw [add, h.entries_eq, List.map_append]
    rfl
  distinct := by
    have hputAll := h.distinct.putAll (fun tf ps => ps.getD [] ++ [⟨ix.entries.length, tf⟩])
      ((orders.counts ix.entries.length).visit (counts (tokenize p.text)))
    exact hputAll
  lookup_eq term := by
    have hlength : ix.entries.length = passages.length := by rw [h.entries_eq, List.length_map]
    have hcounts := distinct_counts (tokenize p.text)
    have hperm := (orders.counts ix.entries.length).perm (counts (tokenize p.text))
    rw [add, Rows.lookup_putAll (hcounts.perm hperm), hcounts.lookup_perm hperm, lookup_counts,
      h.lookup_eq, occurrences_concat, latest, hlength]
    by_cases hzero : (tokenize p.text).count term = 0
    · rw [if_pos hzero, if_pos hzero, List.append_nil]
      rfl
    · rw [if_neg hzero, if_neg hzero, Option.map_some, getD_listed, listed, listed,
        if_neg (List.concat_ne_nil _ _)]
      rfl
  totalLength_eq := by
    rw [List.map_append, total_append, ← h.totalLength_eq]
    rfl

theorem posted_build (orders : Traversals ℝ) (passages : List Passage) :
    Posted (build orders passages) passages := by
  induction passages using List.reverseRecOn with
  | nil => exact ⟨rfl, Rows.distinct_nil, fun _ => rfl, rfl⟩
  | append_singleton passages p ih =>
      rw [build, List.foldl_append]
      exact posted_add ih p

/-! ## The weights of terms -/

theorem bestMatch?_concat (queries : List String) (query term : String) :
    bestMatch? (queries ++ [query]) term =
      ((matchTerm? query term).map fun m => keepBest m (bestMatch? queries term)).or
        (bestMatch? queries term) := by
  rw [bestMatch?_eq, List.filterMap_append]
  cases hmatch : matchTerm? query term with
  | none => simp [hmatch, bestMatch?_eq]
  | some m =>
      rw [List.filterMap_cons, hmatch, List.filterMap_nil, bestOf_concat]
      rfl

theorem weights_concat (orders : Traversals ℝ) (ix : Index) (queries : List String)
    (query : String) :
    weights orders ix (queries ++ [query]) =
      (weights orders ix queries).putAll keepBest
        (Rows.select (fun term _ => matchTerm? query term)
          ((orders.postings query).visit ix.postings)) := by
  rw [weights, List.foldl_append]
  rfl

theorem distinct_weights (orders : Traversals ℝ) (ix : Index) (queries : List String) :
    (weights orders ix queries).Distinct := by
  induction queries using List.reverseRecOn with
  | nil => exact Rows.distinct_nil
  | append_singleton queries query ih =>
      rw [weights_concat]
      exact ih.putAll _ _

theorem lookup_weights (h : Rows.Distinct ix.postings) (queries : List String) (term : String) :
    (weights orders ix queries).lookup term =
      (ix.postings.lookup term).bind fun _ => bestMatch? queries term := by
  induction queries using List.reverseRecOn with
  | nil => cases ix.postings.lookup term <;> rfl
  | append_singleton queries query ih =>
      have hperm := (orders.postings query).perm ix.postings
      have hvisited := h.perm hperm
      rw [weights_concat, Rows.lookup_putAll (hvisited.select _), hvisited.lookup_select,
        h.lookup_perm hperm, ih]
      cases ix.postings.lookup term with
      | none => rfl
      | some ps =>
          rw [Option.bind_some, Option.bind_some, Option.bind_some, bestMatch?_concat]

/-- Each term of the index that the query matches has its best match, whatever the order
of the postings. -/
theorem weights_perm (orders : Traversals ℝ) (h : Posted ix passages) (h' : Posted ix' passages)
    (queries : List String) :
    (weights orders ix queries).Perm
      (Rows.select (fun term _ => bestMatch? queries term) ix'.postings) := by
  refine Rows.perm_of_lookup (distinct_weights orders ix queries) (h'.distinct.select _) ?_
  intro term
  rw [lookup_weights h.distinct, h'.distinct.lookup_select, h.lookup_eq, h'.lookup_eq]

/-! ## The scores of chunks -/

theorem merged_perm {found found' : List (Option ℝ)} (h : found.Perm found') :
    merged found = merged found' := by
  refine h.foldl_eq' (fun x _ y _ z => ?_) none
  cases x <;> cases y <;> cases z <;> simp [Arithmetic.add, add_comm, add_left_comm]

theorem distinct_addTerm {scores : Rows Nat ℝ} (h : scores.Distinct) (ix : Index)
    (row : String × Match) : (addTerm ix scores row).Distinct := by
  rw [addTerm]
  split
  · exact h.putAll _ _
  · exact h

theorem lookup_addTerm (h : Posted ix passages) (scores : Rows Nat ℝ) (row : String × Match)
    (i : Nat) :
    (addTerm ix scores row).lookup i = (scores.lookup i).merge Arithmetic.add
      ((termScores ix row.2 (occurrences row.1 passages) : Scores ℝ).lookup i) := by
  have hrising : Rising (termScores ix row.2 (occurrences row.1 passages) : Scores ℝ) :=
    rising_termScores ix row.2 row.1 passages
  rw [addTerm, h.lookup_eq, listed]
  by_cases hnil : occurrences row.1 passages = []
  · rw [if_pos hnil, hnil]
    cases scores.lookup i <;> rfl
  · rw [if_neg hnil]
    dsimp only
    rw [Rows.lookup_putAll hrising.distinct]
    cases (termScores ix row.2 (occurrences row.1 passages) : Scores ℝ).lookup i with
    | none => cases scores.lookup i <;> rfl
    | some x => cases scores.lookup i <;> simp [Arithmetic.add, ofNat]

theorem distinct_addTerms (ix : Index) (rows : Rows String Match) :
    (rows.foldl (addTerm ix) ([] : Rows Nat ℝ)).Distinct := by
  induction rows using List.reverseRecOn with
  | nil => exact Rows.distinct_nil
  | append_singleton rows row ih =>
      rw [List.foldl_append]
      exact distinct_addTerm ih ix row

theorem lookup_addTerms (h : Posted ix passages) (rows : Rows String Match) (i : Nat) :
    (rows.foldl (addTerm ix) ([] : Rows Nat ℝ)).lookup i =
      merged (rows.map fun row =>
        (termScores ix row.2 (occurrences row.1 passages) : Scores ℝ).lookup i) := by
  induction rows using List.reverseRecOn with
  | nil => rfl
  | append_singleton rows row ih =>
      rw [List.foldl_append, List.foldl_cons, List.foldl_nil, lookup_addTerm h, ih, merged, merged,
        List.map_append, List.foldl_append]
      rfl

theorem contributions_eq (ix : Index) (passages : List Passage) (queries : List String) :
    (contributions ix passages queries : List (Scores ℝ)) =
      (Rows.select (fun term _ => bestMatch? queries term) ix.postings).map fun row =>
        termScores ix row.2 (occurrences row.1 passages) := by
  rw [contributions, Table.keys, List.filterMap_map, Rows.select, List.map_filterMap]
  simp only [Option.map_map]
  rfl

theorem termScores_congr (h : ix.entries = ix'.entries) (htotal : ix.totalLength = ix'.totalLength)
    (m : Match) (ps : List Posting) :
    (termScores ix m ps : Scores ℝ) = termScores ix' m ps := by
  simp only [termScores, chunkCount, htotal, h]

theorem plainScores_congr (h : ix.entries = ix'.entries) (query : String) :
    (plainScores ix query : Scores ℝ) = plainScores ix' query := by
  simp only [plainScores, h]

/-- The chunks have the scores that they have in the sorted search. -/
theorem queryScores_perm (orders : Traversals ℝ) (h : Posted ix passages)
    (h' : Indexed ix' passages) (query : String) :
    (queryScores orders ix query).Perm (Index.queryScores ix' query) := by
  have hentries : ix.entries = ix'.entries := h.entries_eq.trans h'.entries_eq.symm
  have htotal : ix.totalLength = ix'.totalLength := h.totalLength_eq.trans h'.totalLength_eq.symm
  rw [queryScores, Index.queryScores]
  split
  · rw [plainScores_congr hentries]
  · have hweights := (orders.weights.perm _).trans
      (weights_perm orders h h'.posted (tokenize query).eraseDups)
    refine Rows.perm_of_lookup (distinct_addTerms ix _) (h'.rising_termQueryScores _).distinct ?_
    intro i
    -- both are sums of the same contributions, in two orders
    rw [lookup_addTerms h, h'.termQueryScores_eq,
      lookup_merged fun _ => rising_of_mem_contributions, contributions_eq, List.map_map]
    simp only [termScores_congr hentries htotal]
    exact merged_perm (hweights.map _)

/-! ## The best chunks and the ranking -/

theorem distinct_bestChunks (ix : Index) (scores : Rows Nat ℝ) :
    (bestChunks ix scores).Distinct := by
  induction scores using List.reverseRecOn with
  | nil => exact Rows.distinct_nil
  | append_singleton scores s ih =>
      rw [bestChunks, List.foldl_append]
      change Rows.Distinct (match ix.entries[s.1]? with
        | some e => (bestChunks ix scores).alter (better s) e.passage.path
        | none => bestChunks ix scores)
      split
      · exact ih.alter _ _
      · exact ih

theorem lookup_bestChunks (ix : Index) (scores : Rows Nat ℝ) (path : String) :
    (bestChunks ix scores).lookup path = bestOfPath ix path scores := by
  induction scores using List.reverseRecOn with
  | nil => rfl
  | append_singleton scores s ih =>
      rw [bestChunks, List.foldl_append, List.foldl_cons, List.foldl_nil, ← bestChunks,
        bestOfPath_concat]
      cases ix.entries[s.1]? with
      | none => exact ih
      | some e =>
          dsimp only
          rw [Rows.lookup_alter, ih]
          split
          · rename_i hpath
            rw [← hpath, ih]
          · rfl

theorem bestOfPath_congr (h : ix.entries = ix'.entries) (path : String) (scores : Scores ℝ) :
    bestOfPath ix path scores = bestOfPath ix' path scores := by
  simp only [bestOfPath, h]

/-- Each document has the best chunk that it has in the sorted search. -/
theorem bestChunks_perm (h : ix.entries = ix'.entries) {scores scores' : Scores ℝ}
    (hperm : scores.Perm scores') :
    (bestChunks ix scores).Perm (Index.bestChunks ix' scores') := by
  refine Rows.perm_of_lookup (distinct_bestChunks ix scores) (Index.distinct_bestChunks ix' scores')
    fun path => ?_
  rw [lookup_bestChunks, ← get?_eq_lookup, get?_bestChunks, bestOfPath_perm hperm,
    bestOfPath_congr h]

theorem toHit_congr (h : ix.entries = ix'.entries) (needles : List (List Char)) :
    (toHit ix needles : String × Nat × ℝ → Option (Hit ℝ)) = toHit ix' needles := by
  funext row
  simp only [toHit, h]

/-- A search gives the same list in whatever order its loops go over their maps. -/
theorem search_eq (h : Posted ix passages) (h' : Indexed ix' passages) (query : String)
    (limit : Nat) : search orders ix query limit = Index.search ix' query limit := by
  have hentries : ix.entries = ix'.entries := h.entries_eq.trans h'.entries_eq.symm
  have hscores := (orders.scores.perm _).trans (queryScores_perm orders h h' query)
  have hbest := (orders.best.perm _).trans (bestChunks_perm hentries hscores)
  rw [search]
  split
  · rename_i hnothing
    -- the sorted search does not look whether there is anything to search in
    symm
    rw [List.eq_nil_iff_forall_not_mem]
    intro hit hhit
    rcases hnothing with rfl | hnil
    · exact absurd hhit List.not_mem_nil
    · obtain ⟨i, e, he, -⟩ := (ranked_search ix' query limit).best hit hhit
      rw [← hentries, hnil] at he
      cases he
  · have hranked := mergeSort_eq_of_perm (Index.distinct_bestChunks _ _) hbest
    rw [Index.search_eq, ranking, toHit_congr hentries, ← hranked]

end Hashed

/-- Through the index of any passages, a search for any query gives the same list in
whatever order its loops and those of the build go over their maps. The list ranks the
documents by the best of their chunks, and a smaller limit gives the beginning of what a
greater one gives. -/
theorem search_in_any_order (h : build passages = .ok ix) (query : String) :
    (∀ (orders : Traversals ℝ) (limit : Nat),
      Hashed.search orders (Hashed.build orders passages) query limit = search ix query limit) ∧
    (∀ limit, Ranked ix query (search ix query limit)) ∧
    ∀ k m, k ≤ m → (search ix query k : List (Hit ℝ)) = (search ix query m).take k := by
  refine ⟨fun orders limit => ?_, ranked_search ix query, fun k m hle => ?_⟩
  · exact Hashed.search_eq (Hashed.posted_build orders passages) (indexed_of_build h) query limit
  · exact search_of_le hle ix query

/-- Another document with the text of the one on counters. -/
def counterGuide : Passage := ⟨"counter.md#0", "counter.md", rateGuide.text⟩

/-- Two documents with one text have one score, and they are listed by path. -/
theorem search_in_any_order_tied : ∃ ix, build [rateGuide, counterGuide] = .ok ix ∧
    ∀ orders : Traversals ℝ,
      (Hashed.search orders (Hashed.build orders [rateGuide, counterGuide]) "rate" 2).map Hit.path =
        ["counter.md", "rate.md"] := by
  have hbuild : build [rateGuide, counterGuide] = .ok ([rateGuide, counterGuide].foldl add empty) :=
    build_eq_ok_iff.2 ⟨by decide +kernel, rfl⟩
  have hindexed := indexed_of_build hbuild
  obtain ⟨horders, hranked, -⟩ := search_in_any_order hbuild "rate"
  refine ⟨_, hbuild, fun orders => ?_⟩
  rw [horders orders 2]
  obtain ⟨hnodup, hordered, hbest⟩ := hranked 2
  have hquery : (tokenize "rate").eraseDups = ["rate"] := by decide +kernel
  have hscore : ∀ hit ∈ (search ([rateGuide, counterGuide].foldl add empty) "rate" 2 :
      List (Hit ℝ)), hit.score = directScore [rateGuide, counterGuide] ["rate"] rateGuide := by
    intro hit hhit
    obtain ⟨i, -, -, -, -, hmem, -⟩ := hbest hit hhit
    rw [queryScores, if_neg (by rw [hquery]; exact List.cons_ne_nil _ _), hquery,
      hindexed.mem_termQueryScores_iff] at hmem
    obtain ⟨p, hp, -, hscore⟩ := hmem
    rcases List.mem_pair.1 (List.mem_of_getElem? hp) with rfl | rfl
    · exact hscore
    · exact hscore
  have hpaths : ∀ path, path ∈ ["counter.md", "rate.md"] ↔
      path ∈ (search ([rateGuide, counterGuide].foldl add empty) "rate" 2 : List (Hit ℝ)).map
        Hit.path := by
    have hrate : Answers "rate" rateGuide := by decide +kernel
    have hcounter : Answers "rate" counterGuide := by decide +kernel
    have hlimit : ([rateGuide, counterGuide].map Passage.path).toFinset.card ≤ 2 := by decide
    intro path
    rw [List.mem_pair]
    constructor
    · rintro (rfl | rfl)
      · exact hindexed.path_mem_search hlimit (List.mem_pair.2 (.inr rfl)) hcounter
      · exact hindexed.path_mem_search hlimit (List.mem_pair.2 (.inl rfl)) hrate
    · intro hfound
      obtain ⟨p, hp, rfl, -⟩ := hindexed.exists_answers hlimit hfound
      rcases List.mem_pair.1 hp with rfl | rfl
      · exact .inr rfl
      · exact .inl rfl
  have hsorted : ((search ([rateGuide, counterGuide].foldl add empty) "rate" 2 :
      List (Hit ℝ)).map Hit.path).Pairwise (· < ·) := by
    rw [List.pairwise_map]
    refine hordered.imp_of_mem fun ha hb hab => ?_
    rw [hscore _ ha, hscore _ hb] at hab
    rcases hab with hlt | ⟨-, hlt⟩
    · exact absurd hlt (lt_irrefl _)
    · exact hlt
  have hperm := (List.perm_ext_iff_of_nodup (by decide) hnodup).2 hpaths
  have heq := hperm.eq_of_pairwise (fun a b _ _ hab hba => absurd hab hba.asymm) (by decide) hsorted
  exact heq.symm

end DocWatch.Index
