import DocWatch.Proofs.Index.Scores
import DocWatch.Proofs.Index.Terms
import Mathlib.Data.Finset.Card
import Mathlib.Data.List.Dedup

/-!
# What a search finds

Between the scores of the chunks and the list of documents lie three steps: the best
chunk of each document stands for it, the documents are ranked, and the list is cut at
the limit. The first keeps a row for every document that a scored chunk belongs to, the
second only changes the order, and the third does nothing where the limit leaves room
for all documents. So which documents are found depends on which chunks have a score,
and neither on the arithmetic of the scores nor on the ranking.
-/

namespace DocWatch.Index

open Score

variable {R : Type} [Arithmetic R] {ix : Index} {passages : List Passage} {scores : Scores R}
  {path query : String} {limit i : Nat}

/-! ## The best chunk of each document -/

/-- A chunk that was scored belongs to a document. -/
def Scored (ix : Index) (scores : Scores R) (path : String) (s : Nat × R) : Prop :=
  s ∈ scores ∧ ∃ e, ix.entries[s.1]? = some e ∧ e.passage.path = path

theorem better_cases (next : Nat × R) (found : Option (Nat × R)) :
    better next found = next ∨ found = some (better next found) := by
  cases found with
  | none => exact .inl rfl
  | some best =>
      rw [better]
      split
      · exact .inl rfl
      · exact .inr rfl

theorem bestChunks_concat (ix : Index) (scores : Scores R) (s : Nat × R) :
    bestChunks ix (scores ++ [s]) =
      match ix.entries[s.1]? with
      | some e => (bestChunks ix scores).alter (better s) e.passage.path
      | none => bestChunks ix scores := by
  rw [bestChunks, List.foldl_append]
  rfl

theorem ascending_bestChunks (ix : Index) (scores : Scores R) :
    (bestChunks ix scores).Ascending := by
  induction scores using List.reverseRecOn with
  | nil => exact Table.ascending_nil
  | append_singleton scores s ih =>
      rw [bestChunks_concat]
      split
      · exact ih.alter
      · exact ih

theorem mem_keys_bestChunks :
    path ∈ (bestChunks ix scores).keys ↔ ∃ s, Scored ix scores path s := by
  induction scores using List.reverseRecOn with
  | nil => simp [bestChunks, Table.keys, Scored]
  | append_singleton scores s ih =>
      have hconcat : (∃ s', Scored ix (scores ++ [s]) path s') ↔
          (∃ e, ix.entries[s.1]? = some e ∧ e.passage.path = path) ∨
            ∃ s', Scored ix scores path s' := by
        simp only [Scored, List.mem_append, List.mem_singleton, or_and_right, exists_or,
          exists_eq_left]
        exact or_comm
      rw [bestChunks_concat, hconcat, ← ih]
      split
      · rename_i e he
        rw [Table.mem_keys_alter]
        simp [he, eq_comm]
      · rename_i he
        simp [he]

theorem scored_of_mem_bestChunks {s : Nat × R} (h : (path, s) ∈ bestChunks ix scores) :
    Scored ix scores path s := by
  rw [← (ascending_bestChunks ix scores).get?_eq_some_iff] at h
  induction scores using List.reverseRecOn generalizing s with
  | nil => cases h
  | append_singleton scores last ih =>
      have hearlier : ∀ s, (bestChunks ix scores).get? path = some s →
          Scored ix (scores ++ [last]) path s := fun s hs =>
        ⟨List.mem_append_left _ (ih hs).1, (ih hs).2⟩
      rw [bestChunks_concat] at h
      split at h
      · rename_i e he
        rw [(ascending_bestChunks ix scores).get?_alter] at h
        split at h
        · rename_i hpath
          subst hpath
          cases h
          rcases better_cases last ((bestChunks ix scores).get? e.passage.path) with hlast | hfound
          · rw [hlast]
            exact ⟨by simp, e, he, rfl⟩
          · exact hearlier _ hfound
        · exact hearlier s h
      · exact hearlier s h

/-! ## The documents that are listed -/

/-- The scores that a search ranks documents by. -/
def queryScores (ix : Index) (query : String) : Scores R :=
  if (tokenize query).eraseDups = [] then plainScores ix query
  else termQueryScores ix (tokenize query).eraseDups

omit [Arithmetic R] in
theorem paths_filterMap_toHit {rows : Table (Nat × R)} (needles : List (List Char))
    (h : ∀ row ∈ rows, ∃ e, ix.entries[row.2.1]? = some e) :
    (rows.filterMap (toHit ix needles)).map Hit.path = rows.map Prod.fst := by
  induction rows with
  | nil => rfl
  | cons row rows ih =>
      obtain ⟨e, he⟩ := h row List.mem_cons_self
      have hrow : toHit ix needles row = some ⟨row.1, row.2.2, e.passage.id,
          String.ofList (snippet e.passage.text.toList needles)⟩ := by
        rw [toHit, he, Option.map_some]
      rw [List.filterMap_cons, hrow, List.map_cons, List.map_cons,
        ih fun row hrow => h row (List.mem_cons_of_mem _ hrow)]

/-- The documents that a search lists are those with a best chunk, ranked. -/
theorem paths_search (ix : Index) (query : String) (limit : Nat) :
    (search ix query limit : List (Hit R)).map Hit.path =
      (((bestChunks ix (queryScores ix query : Scores R)).mergeSort ranksBefore).take limit).map
        Prod.fst := by
  refine paths_filterMap_toHit _ fun row hrow => ?_
  have hmem : row ∈ bestChunks ix (queryScores ix query : Scores R) :=
    List.mem_mergeSort.1 (List.mem_of_mem_take hrow)
  obtain ⟨-, e, he, -⟩ := scored_of_mem_bestChunks hmem
  exact ⟨e, he⟩

/-- What the snippets of a search are cut around. -/
def needles (query : String) : List (List Char) :=
  if (tokenize query).eraseDups = [] then [Text.lowerAscii (Text.trim query.toList)]
  else (tokenize query).eraseDups.map String.toList

/-- All that a query finds, ranked. -/
def hits (ix : Index) (query : String) : List (Hit R) :=
  ((bestChunks ix (queryScores ix query : Scores R)).mergeSort ranksBefore).filterMap
    (toHit ix (needles query))

theorem exists_toHit {row : String × Nat × R}
    (h : row ∈ (bestChunks ix (queryScores ix query : Scores R)).mergeSort ranksBefore) :
    ∃ e, (bestChunks ix (queryScores ix query : Scores R)).get? row.1 = some row.2 ∧
      ix.entries[row.2.1]? = some e ∧ e.passage.path = row.1 ∧
      toHit ix (needles query) row = some ⟨row.1, row.2.2, e.passage.id,
        String.ofList (snippet e.passage.text.toList (needles query))⟩ := by
  have hrow := List.mem_mergeSort.1 h
  obtain ⟨-, e, he, hpath⟩ := scored_of_mem_bestChunks hrow
  exact ⟨e, (ascending_bestChunks _ _).get?_eq_some_iff.2 hrow, he, hpath, by
    rw [toHit, he, Option.map_some]⟩

theorem take_filterMap {α β : Type} {f : α → Option β} {l : List α}
    (h : ∀ a ∈ l, (f a).isSome) (k : Nat) : (l.take k).filterMap f = (l.filterMap f).take k := by
  induction l generalizing k with
  | nil => simp
  | cons a rest ih =>
      obtain ⟨b, hb⟩ := Option.isSome_iff_exists.1 (h a List.mem_cons_self)
      cases k with
      | zero => rfl
      | succ k =>
          rw [List.take_succ_cons, List.filterMap_cons, List.filterMap_cons, hb,
            ih fun a ha => h a (List.mem_cons_of_mem _ ha)]
          rfl

/-- A search lists as many of all hits as the limit allows, from the first on. -/
theorem search_eq_take (ix : Index) (query : String) (limit : Nat) :
    (search ix query limit : List (Hit R)) = (hits ix query).take limit := by
  have hsome : ∀ row ∈ (bestChunks ix (queryScores ix query : Scores R)).mergeSort ranksBefore,
      (toHit ix (needles query) row).isSome := by
    intro row hrow
    obtain ⟨e, -, -, -, hhit⟩ := exists_toHit hrow
    rw [hhit]
    rfl
  exact take_filterMap hsome limit

/-- What a hit says of its chunk it has from the entry that is the best of its document. -/
theorem exists_entry_of_mem_search {hit : Hit R} (hhit : hit ∈ search ix query limit) :
    ∃ i e, (bestChunks ix (queryScores ix query)).get? hit.path = some (i, hit.score) ∧
      ix.entries[i]? = some e ∧ e.passage.path = hit.path ∧ e.passage.id = hit.chunk ∧
      String.ofList (snippet e.passage.text.toList (needles query)) = hit.snippet := by
  obtain ⟨row, hrow, hfound⟩ := List.mem_filterMap.1 hhit
  obtain ⟨e, hbest, he, hpath, hrow⟩ := exists_toHit (List.mem_of_mem_take hrow)
  obtain rfl := Option.some.inj (hrow.symm.trans hfound)
  exact ⟨row.2.1, e, hbest, he, hpath, rfl, rfl⟩

/-- The entry is that of a passage. -/
theorem Indexed.exists_passage_of_mem_search (h : Indexed ix passages) {hit : Hit R}
    (hhit : hit ∈ search ix query limit) :
    ∃ p ∈ passages, p.path = hit.path ∧ p.id = hit.chunk ∧
      ∃ needles, String.ofList (snippet p.text.toList needles) = hit.snippet := by
  obtain ⟨i, e, -, he, hpath, hid, hsnippet⟩ := exists_entry_of_mem_search hhit
  rw [h.entries_eq, List.getElem?_map] at he
  obtain ⟨p, hp, rfl⟩ := Option.map_eq_some_iff.1 he
  exact ⟨p, List.mem_of_getElem? hp, hpath, hid, _, hsnippet⟩

theorem Indexed.entry_path_iff (h : Indexed ix passages) :
    (∃ e, ix.entries[i]? = some e ∧ e.passage.path = path) ↔
      ∃ p, passages[i]? = some p ∧ p.path = path := by
  rw [h.entries_eq, List.getElem?_map]
  simp

theorem Indexed.length_bestChunks_le (h : Indexed ix passages) (scores : Scores R) :
    (bestChunks ix scores).length ≤ (passages.map Passage.path).toFinset.card := by
  have hnodup := (ascending_bestChunks ix scores).nodup_keys
  have hsubset : (bestChunks ix scores).keys.toFinset ⊆ (passages.map Passage.path).toFinset := by
    intro path hpath
    obtain ⟨s, -, hentry⟩ := mem_keys_bestChunks.1 (List.mem_toFinset.1 hpath)
    obtain ⟨p, hp, rfl⟩ := h.entry_path_iff.1 hentry
    exact List.mem_toFinset.2 (List.mem_map_of_mem (List.mem_of_getElem? hp))
  calc (bestChunks ix scores).length
      = (bestChunks ix scores).keys.length := by rw [Table.keys, List.length_map]
    _ = (bestChunks ix scores).keys.toFinset.card := (List.toFinset_card_of_nodup hnodup).symm
    _ ≤ (passages.map Passage.path).toFinset.card := Finset.card_le_card hsubset

/-- Where the limit leaves room for all documents, those are listed that have a chunk
with a score. -/
theorem Indexed.mem_paths_search (h : Indexed ix passages)
    (hlimit : (passages.map Passage.path).toFinset.card ≤ limit) :
    path ∈ (search ix query limit : List (Hit R)).map Hit.path ↔
      ∃ i ∈ (queryScores ix query : Scores R).map Prod.fst,
        ∃ p, passages[i]? = some p ∧ p.path = path := by
  have hlength := h.length_bestChunks_le (queryScores ix query : Scores R)
  rw [paths_search, List.take_of_length_le (by rw [List.length_mergeSort]; omega),
    ((List.mergeSort_perm _ _).map Prod.fst).mem_iff, ← Table.keys, mem_keys_bestChunks]
  simp only [Scored, h.entry_path_iff]
  constructor
  · rintro ⟨s, hs, hentry⟩
    exact ⟨s.1, List.mem_map_of_mem hs, hentry⟩
  · rintro ⟨i, hi, hentry⟩
    obtain ⟨s, hs, rfl⟩ := List.mem_map.1 hi
    exact ⟨s, hs, hentry⟩

theorem Indexed.mem_chunks_plainScores (h : Indexed ix passages) :
    i ∈ (plainScores ix query : Scores R).map Prod.fst ↔
      ∃ p, passages[i]? = some p ∧ Text.trim query.toList ≠ [] ∧
        Text.lower (Text.trim query.toList) <:+: Text.lower p.text.toList := by
  rw [plainScores]
  by_cases hblank : Text.trim query.toList = []
  · have hneedle : Text.lower (Text.trim query.toList) = [] := Text.lower_eq_nil_iff.2 hblank
    rw [if_pos hneedle]
    simp [hblank]
  · have hneedle : Text.lower (Text.trim query.toList) ≠ [] := mt Text.lower_eq_nil_iff.1 hblank
    rw [if_neg hneedle, List.mem_map, h.entries_eq]
    constructor
    · rintro ⟨⟨j, x⟩, hscore, rfl⟩
      obtain ⟨⟨e, k⟩, he, hcount⟩ := List.mem_filterMap.1 hscore
      rw [List.mem_zipIdx_iff_getElem?, List.getElem?_map] at he
      obtain ⟨p, hp, rfl⟩ := Option.map_eq_some_iff.1 he
      dsimp only at hcount
      split at hcount
      · cases hcount
      · rename_i hfound
        cases hcount
        rw [Text.count_eq_zero_iff hneedle, not_not] at hfound
        exact ⟨p, hp, hblank, hfound⟩
    · rintro ⟨p, hp, -, hfound⟩
      have hcount := mt (Text.count_eq_zero_iff hneedle).1 (not_not.2 hfound)
      refine ⟨(i, Arithmetic.ofNat (Text.count _ _)), List.mem_filterMap.2
        ⟨(⟨p, (tokenize p.text).length⟩, i), ?_, if_neg hcount⟩, rfl⟩
      rw [List.mem_zipIdx_iff_getElem?, List.getElem?_map, hp, Option.map_some]

/-! ## All queries -/

/-- A passage contains a term that some term of the query matches or, where the query
has no term, the text of the query. -/
def Answers (query : String) (p : Passage) : Prop :=
  if tokenize query = [] then
    Text.trim query.toList ≠ [] ∧
      Text.lower (Text.trim query.toList) <:+: Text.lower p.text.toList
  else
    ∃ term ∈ tokenize p.text, ∃ token ∈ tokenize query,
      term = token ∨ token.toList <:+: term.toList ∨
        (4 ≤ token.length ∧ OneEdit token.toList term.toList)

instance (query : String) (p : Passage) : Decidable (Answers query p) :=
  inferInstanceAs (Decidable (if tokenize query = [] then _ ∧ _ else _))

theorem answers_of_mem_terms {term : List Char} {p : Passage} (h : term ∈ terms p.text.toList)
    (hquery : String.ofList term ∈ tokenize query) : Answers query p := by
  rw [Answers, if_neg (List.ne_nil_of_mem hquery)]
  exact ⟨_, List.mem_map_of_mem h, _, hquery, .inl rfl⟩

theorem answers_of_mem {term : List Char} {p : Passage}
    (h : term ∈ spelledTerms p.text.toList) : Answers (String.ofList term) p := by
  refine answers_of_mem_terms (List.mem_map_of_mem h) ?_
  rw [tokenize_of_mem h]
  exact List.mem_singleton_self _

theorem eraseDups_eq_nil_iff {tokens : List String} : tokens.eraseDups = [] ↔ tokens = [] := by
  simp only [List.eq_nil_iff_forall_not_mem, List.mem_eraseDups]

theorem Indexed.mem_chunks_queryScores (h : Indexed ix passages) :
    i ∈ (queryScores ix query : Scores R).map Prod.fst ↔
      ∃ p, passages[i]? = some p ∧ Answers query p := by
  unfold Answers
  by_cases hquery : tokenize query = []
  · rw [queryScores, if_pos (eraseDups_eq_nil_iff.2 hquery), h.mem_chunks_plainScores]
    simp only [if_pos hquery]
  · rw [queryScores, if_neg (mt eraseDups_eq_nil_iff.1 hquery), h.mem_chunks_termQueryScores]
    simp only [if_neg hquery, List.mem_eraseDups, exists_matches_iff]

theorem Indexed.path_mem_search (h : Indexed ix passages)
    (hlimit : (passages.map Passage.path).toFinset.card ≤ limit) {p : Passage} (hp : p ∈ passages)
    (hanswers : Answers query p) :
    p.path ∈ (search ix query limit : List (Hit R)).map Hit.path := by
  obtain ⟨i, hi⟩ := List.mem_iff_getElem?.1 hp
  rw [h.mem_paths_search hlimit]
  exact ⟨i, h.mem_chunks_queryScores.2 ⟨p, hi, hanswers⟩, p, hi, rfl⟩

theorem Indexed.exists_answers (h : Indexed ix passages)
    (hlimit : (passages.map Passage.path).toFinset.card ≤ limit)
    (hfound : path ∈ (search ix query limit : List (Hit R)).map Hit.path) :
    ∃ p ∈ passages, p.path = path ∧ Answers query p := by
  obtain ⟨i, hscore, p, hp, hpath⟩ := (h.mem_paths_search hlimit).1 hfound
  obtain ⟨p', hp', hanswers⟩ := h.mem_chunks_queryScores.1 hscore
  obtain rfl : p = p' := Option.some.inj (hp.symm.trans hp')
  exact ⟨p, List.mem_of_getElem? hp, hpath, hanswers⟩

/-- With room for all documents, those are listed that have a passage which answers the
query, and no others. -/
theorem paths_of_search (h : build passages = .ok ix)
    (hlimit : (passages.map Passage.path).toFinset.card ≤ limit) (query path : String) :
    path ∈ (search ix query limit : List (Hit R)).map Hit.path ↔
      ∃ p ∈ passages, p.path = path ∧ Answers query p := by
  have hindexed := indexed_of_build h
  constructor
  · intro hfound
    exact hindexed.exists_answers hlimit hfound
  · rintro ⟨p, hp, rfl, hanswers⟩
    exact hindexed.path_mem_search hlimit hp hanswers

/-- The only chunk of a document on gauges. -/
def gaugeGuide : Passage := ⟨"gauge.md#0", "gauge.md", "Gauges go up and down."⟩

/-- The only chunk of a document on counters. -/
def rateGuide : Passage := ⟨"rate.md#0", "rate.md", "Use rate() on counters."⟩

/-- A term with a wrong letter finds the document that has the right one. -/
theorem paths_of_search_misspelled : ∃ ix, build [gaugeGuide, rateGuide] = .ok ix ∧
    ([gaugeGuide, rateGuide].map Passage.path).toFinset.card ≤ 2 ∧
    ∀ path, path ∈ (search ix "rats" 2 : List (Hit Float)).map Hit.path ↔ path = "rate.md" := by
  have hbuild : build [gaugeGuide, rateGuide] = .ok ([gaugeGuide, rateGuide].foldl add empty) :=
    build_eq_ok_iff.2 ⟨by decide +kernel, rfl⟩
  have hlimit : ([gaugeGuide, rateGuide].map Passage.path).toFinset.card ≤ 2 := by decide
  have hgauge : ¬ Answers "rats" gaugeGuide := by decide +kernel
  have hrate : Answers "rats" rateGuide := by decide +kernel
  refine ⟨_, hbuild, hlimit, fun path => ?_⟩
  rw [paths_of_search hbuild hlimit]
  constructor
  · rintro ⟨p, hp, rfl, hanswers⟩
    rcases List.mem_pair.1 hp with rfl | rfl
    · exact absurd hanswers hgauge
    · rfl
  · rintro rfl
    exact ⟨rateGuide, by simp, rfl, hrate⟩

end DocWatch.Index
