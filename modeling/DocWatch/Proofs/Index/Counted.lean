import DocWatch.Proofs.Index.Hashed

/-!
# The numbers that scores are made of

An index is built chunk by chunk, over maps in no particular order, and the scores are
computed from the numbers that are left in it: how many chunks contain a term, how often
each contains it, how long a chunk is and how long they are on the average. `Counted` says
that these are the numbers of the texts. It comes down to each chunk having one posting at
most under a term, so that adding up postings counts nothing twice.

In exact numbers it follows that nothing goes wrong in a score. No term is in more chunks
than there are, so its rarity is positive; a posting stands for one occurrence at least,
so nothing is divided by zero; and so whatever is reported has a score above zero.
-/

namespace DocWatch.Index

open Arithmetic Score

variable {ix : Index} {passages : List Passage} {query term : String} {p : Passage}
  {m : Match} {i n df tf total length : Nat} {a b : Scores ℝ}

/-! ## The counts -/

theorem Posted.mem_postings (h : Posted ix passages) {ps : List Posting} :
    (term, ps) ∈ ix.postings ↔ ps = occurrences term passages ∧ ps ≠ [] := by
  have hlookup := h.distinct.lookup_eq_some_iff (k := term) (v := ps)
  rw [← hlookup, h.lookup_eq, listed_eq_some_iff]

theorem Posted.mem_terms (h : Posted ix passages) :
    term ∈ ix.postings.map Prod.fst ↔ ∃ p ∈ passages, term ∈ tokenize p.text := by
  have hlookup := Rows.lookup_eq_none_iff (t := ix.postings) (k := term)
  rw [← not_iff_not, ← hlookup, h.lookup_eq, listed_eq_none_iff, occurrences_eq_nil_iff]
  simp

/-- How often postings say that a chunk contains their term. -/
def tfIn (ps : List Posting) (i : Nat) : Nat :=
  ((ps.filter fun posting => posting.chunk = i).map Posting.tf).sum

theorem tfIn_append (ps qs : List Posting) (i : Nat) :
    tfIn (ps ++ qs) i = tfIn ps i + tfIn qs i := by
  simp [tfIn]

theorem tfIn_latest (chunk tf i : Nat) :
    tfIn (latest chunk tf) i = if chunk = i then tf else 0 := by
  by_cases htf : tf = 0 <;> by_cases hi : chunk = i <;> simp [tfIn, latest, htf, hi]

theorem tfIn_eq_zero {ps : List Posting} (h : ∀ posting ∈ ps, posting.chunk ≠ i) :
    tfIn ps i = 0 := by
  have hnone : (ps.filter fun posting => posting.chunk = i) = [] := by
    simpa [List.filter_eq_nil_iff] using h
  rw [tfIn, hnone]
  rfl

theorem tfIn_occurrences (hp : passages[i]? = some p) :
    tfIn (occurrences term passages) i = (tokenize p.text).count term := by
  induction passages using List.reverseRecOn with
  | nil => simp at hp
  | append_singleton passages last ih =>
      rw [occurrences_concat, tfIn_append, tfIn_latest]
      rcases Nat.lt_or_ge i passages.length with hlt | hge
      · rw [List.getElem?_append_left hlt] at hp
        rw [ih hp, if_neg (by omega), Nat.add_zero]
      · -- the chunk is the last one, and no earlier posting is for it
        have hearlier : tfIn (occurrences term passages) i = 0 := by
          refine tfIn_eq_zero fun posting hposting => ?_
          have := chunk_lt_of_mem hposting
          omega
        rw [List.getElem?_append_right hge, List.getElem?_singleton] at hp
        split at hp
        · rename_i hlast
          cases hp
          rw [hearlier, if_pos (by omega), Nat.zero_add]
        · cases hp

/-- Over all terms, the postings for a chunk count each of its tokens once. -/
theorem Posted.sum_tfIn (h : Posted ix passages) (hp : passages[i]? = some p) :
    (ix.postings.map fun row => tfIn row.2 i).sum = (tokenize p.text).length := by
  have hrows : (ix.postings.map fun row => tfIn row.2 i) =
      (ix.postings.map Prod.fst).map fun term => (tokenize p.text).count term := by
    rw [List.map_map]
    refine List.map_congr_left fun row hrow => ?_
    obtain ⟨hps, -⟩ := h.mem_postings.1 hrow
    rw [hps, tfIn_occurrences hp]
    rfl
  have hsubset : (tokenize p.text).toFinset ⊆ (ix.postings.map Prod.fst).toFinset := by
    intro term hterm
    rw [List.mem_toFinset] at hterm ⊢
    exact h.mem_terms.2 ⟨p, List.mem_of_getElem? hp, hterm⟩
  have hother : ∀ term ∈ (ix.postings.map Prod.fst).toFinset, term ∉ (tokenize p.text).toFinset →
      (tokenize p.text).count term = 0 := by
    intro term _ hterm
    rwa [List.mem_toFinset, ← List.count_eq_zero] at hterm
  calc (ix.postings.map fun row => tfIn row.2 i).sum
      = ∑ term ∈ (ix.postings.map Prod.fst).toFinset, (tokenize p.text).count term := by
        rw [hrows, List.sum_toFinset _ h.distinct]
    _ = ∑ term ∈ (tokenize p.text).toFinset, (tokenize p.text).count term :=
        (Finset.sum_subset hsubset hother).symm
    _ = (tokenize p.text).length := List.sum_toFinset_count_eq_length _

/-- The average length of the chunks, as the scores have it. -/
noncomputable def averageLength (ix : Index) : ℝ :=
  ratio ix.totalLength ix.chunkCount

/-- The numbers of an index are those of the passages. -/
structure Counted (ix : Index) (passages : List Passage) : Prop where
  entries_eq : ix.entries = passages.map fun p => ⟨p, (tokenize p.text).length⟩
  nodup_terms : (ix.postings.map Prod.fst).Nodup
  mem_terms : ∀ term, term ∈ ix.postings.map Prod.fst ↔ ∃ p ∈ passages, term ∈ tokenize p.text
  rising : ∀ row ∈ ix.postings, row.2.Pairwise fun a b => a.chunk < b.chunk
  chunk_lt : ∀ row ∈ ix.postings, ∀ posting ∈ row.2, posting.chunk < ix.chunkCount
  tf_pos : ∀ row ∈ ix.postings, ∀ posting ∈ row.2, 1 ≤ posting.tf
  tf_eq : ∀ row ∈ ix.postings, ∀ posting ∈ row.2, ∀ p, passages[posting.chunk]? = some p →
    posting.tf = (tokenize p.text).count row.1
  /-- Over all terms, the occurrences in a chunk make up its length. -/
  sum_tf : ∀ i e, ix.entries[i]? = some e →
    (ix.postings.map fun row => tfIn row.2 i).sum = e.length
  sum_length : ((ix.entries.map Entry.length).sum : ℝ) = averageLength ix * ix.chunkCount
  /-- A term that is listed is in one chunk at least, and in no more than there are. -/
  frequency : ∀ row ∈ ix.postings, 1 ≤ row.2.length ∧ row.2.length ≤ ix.chunkCount

/-- The lengths of the chunks add up to the total that was kept while they were added. -/
theorem Posted.sum_length (h : Posted ix passages) :
    ((ix.entries.map Entry.length).sum : ℝ) = averageLength ix * ix.chunkCount := by
  have htotal : (ix.entries.map Entry.length).sum = ix.totalLength := by
    rw [h.totalLength_eq, h.entries_eq, List.map_map]
    rfl
  rcases Nat.eq_zero_or_pos ix.chunkCount with hzero | hpos
  · have hnil : ix.entries = [] := List.length_eq_zero_iff.1 hzero
    simp [hnil, hzero]
  · have hne : (ix.chunkCount : ℝ) ≠ 0 := by positivity
    rw [htotal, averageLength, ratio]
    exact (div_mul_cancel₀ _ hne).symm

theorem Posted.counted (h : Posted ix passages) : Counted ix passages where
  entries_eq := h.entries_eq
  nodup_terms := h.distinct
  mem_terms _ := h.mem_terms
  rising row hrow := by
    rw [(h.mem_postings.1 hrow).1]
    exact pairwise_occurrences _ _
  chunk_lt row hrow posting hposting := by
    rw [(h.mem_postings.1 hrow).1] at hposting
    rw [chunkCount_eq h.entries_eq]
    exact chunk_lt_of_mem hposting
  tf_pos row hrow posting hposting := by
    rw [(h.mem_postings.1 hrow).1] at hposting
    obtain ⟨p, -, -, hne⟩ := mem_occurrences.1 hposting
    exact Nat.one_le_iff_ne_zero.2 hne
  tf_eq row hrow posting hposting p hp := by
    rw [(h.mem_postings.1 hrow).1] at hposting
    obtain ⟨p', hp', hcount, -⟩ := mem_occurrences.1 hposting
    rw [← hcount, Option.some.inj (hp.symm.trans hp')]
  sum_tf i e he := by
    rw [h.entries_eq, List.getElem?_map] at he
    obtain ⟨p, hp, rfl⟩ := Option.map_eq_some_iff.1 he
    exact h.sum_tfIn hp
  sum_length := h.sum_length
  frequency row hrow := by
    obtain ⟨hps, hne⟩ := h.mem_postings.1 hrow
    refine ⟨List.length_pos_iff.2 hne, ?_⟩
    rw [hps, length_occurrences, chunkCount_eq h.entries_eq]
    exact List.countP_le_length

/-! ## What a posting brings -/

/-- What the rarity of a term is divided by. -/
noncomputable def rarityDivisor (df : Nat) : ℝ :=
  Arithmetic.add (ofNat df) (ratio 1 2)

/-- What the contribution of a posting is divided by. -/
noncomputable def contributionDivisor (n tf total length : Nat) : ℝ :=
  Arithmetic.add (ofNat tf) (mul (ratio 12 10) (lengthFactor n total length))

theorem rarity_eq_div (n df : Nat) : (rarity n df : ℝ) =
    log (Arithmetic.add (ratio 1 1)
      (div (Arithmetic.add (sub (ofNat n) (ofNat df)) (ratio 1 2)) (rarityDivisor df))) :=
  rfl

theorem contribution_eq_div (m : Match) (n df tf total length : Nat) :
    (contribution m n df tf total length : ℝ) =
      div (mul (mul m.weight (rarity n df))
        (mul (ofNat tf) (Arithmetic.add (ratio 12 10) (ratio 1 1))))
        (contributionDivisor n tf total length) :=
  rfl

theorem ratio_pos {num den : Nat} (hnum : 0 < num) (hden : 0 < den) : (0 : ℝ) < ratio num den := by
  simp only [ratio, Arithmetic.div, Arithmetic.ofNat]
  positivity

theorem rarityDivisor_pos (df : Nat) : 0 < rarityDivisor df :=
  add_pos_of_nonneg_of_pos (Nat.cast_nonneg df) (ratio_pos Nat.one_pos Nat.two_pos)

theorem lengthFactor_pos (n total length : Nat) : (0 : ℝ) < lengthFactor n total length := by
  by_cases htotal : total = 0
  · rw [lengthFactor, if_pos htotal]
    exact ratio_pos Nat.one_pos Nat.one_pos
  · rw [lengthFactor_eq htotal]
    positivity

theorem contributionDivisor_pos (n tf total length : Nat) :
    0 < contributionDivisor n tf total length :=
  add_pos_of_nonneg_of_pos (Nat.cast_nonneg tf)
    (mul_pos (ratio_pos (by decide) (by decide)) (lengthFactor_pos n total length))

theorem weight_pos (m : Match) : (0 : ℝ) < m.weight := by
  cases m <;> exact ratio_pos (by decide) (by decide)

/-- A term that is in no more chunks than there are is rare. -/
theorem rarity_pos (h : df ≤ n) : (0 : ℝ) < rarity n df := by
  have hrest : (0 : ℝ) ≤ n - df := sub_nonneg.2 (Nat.cast_le.2 h)
  have hone : (ratio 1 1 : ℝ) = 1 := by simp [ratio, Arithmetic.div, Arithmetic.ofNat]
  rw [rarity_eq_div, hone]
  refine Real.log_pos (lt_add_of_pos_right 1 (div_pos ?_ (rarityDivisor_pos df)))
  exact add_pos_of_nonneg_of_pos hrest (ratio_pos Nat.one_pos Nat.two_pos)

theorem contribution_pos (m : Match) (total length : Nat) (hdf : df ≤ n) (htf : 1 ≤ tf) :
    (0 : ℝ) < contribution m n df tf total length := by
  have htf : (0 : ℝ) < ofNat tf := Nat.cast_pos.2 htf
  have hgain : (0 : ℝ) < Arithmetic.add (ratio 12 10) (ratio 1 1) :=
    add_pos (ratio_pos (by decide) (by decide)) (ratio_pos Nat.one_pos Nat.one_pos)
  rw [contribution_eq_div]
  exact div_pos (mul_pos (mul_pos (weight_pos m) (rarity_pos hdf)) (mul_pos htf hgain))
    (contributionDivisor_pos n tf total length)

/-- No posting of an index makes a score divide by zero, and each brings something. -/
structure Positive (ix : Index) : Prop where
  average_pos : ix.postings ≠ [] → 0 < averageLength ix
  rarityDivisor_pos : ∀ row ∈ ix.postings, 0 < rarityDivisor row.2.length
  rarity_pos : ∀ row ∈ ix.postings, (0 : ℝ) < rarity ix.chunkCount row.2.length
  contributionDivisor_pos : ∀ row ∈ ix.postings, ∀ posting ∈ row.2, ∀ e,
    ix.entries[posting.chunk]? = some e →
      0 < contributionDivisor ix.chunkCount posting.tf ix.totalLength e.length
  contribution_pos : ∀ row ∈ ix.postings, ∀ m, ∀ s ∈ (termScores ix m row.2 : Scores ℝ), 0 < s.2

theorem Counted.averageLength_pos (h : Counted ix passages) (hne : ix.postings ≠ []) :
    0 < averageLength ix := by
  obtain ⟨row, hrow⟩ := List.exists_mem_of_ne_nil _ hne
  obtain ⟨p, hp, hterm⟩ := (h.mem_terms row.1).1 (List.mem_map_of_mem hrow)
  have hsum : (ix.entries.map Entry.length).sum ≠ 0 := by
    rw [h.entries_eq, List.map_map]
    exact total_lengths_ne_zero hp hterm
  have hcount : 0 < ix.chunkCount := by
    rw [chunkCount_eq h.entries_eq]
    exact List.length_pos_of_mem hp
  have hpos : (0 : ℝ) < ((ix.entries.map Entry.length).sum : ℝ) :=
    Nat.cast_pos.2 (Nat.pos_of_ne_zero hsum)
  rw [h.sum_length] at hpos
  exact (pos_iff_pos_of_mul_pos hpos).2 (Nat.cast_pos.2 hcount)

theorem Counted.positive (h : Counted ix passages) : Positive ix where
  average_pos := h.averageLength_pos
  rarityDivisor_pos row _ := rarityDivisor_pos row.2.length
  rarity_pos row hrow := rarity_pos (h.frequency row hrow).2
  contributionDivisor_pos _ _ posting _ e _ := contributionDivisor_pos _ posting.tf _ e.length
  contribution_pos row hrow m s hs := by
    obtain ⟨posting, hposting, rfl⟩ := List.mem_map.1 hs
    exact contribution_pos m _ _ (h.frequency row hrow).2 (h.tf_pos row hrow posting hposting)

/-! ## Sums of what postings bring -/

theorem pos_mergeScores (ha : ∀ s ∈ a, 0 < s.2) (hb : ∀ s ∈ b, 0 < s.2) :
    ∀ s ∈ mergeScores a b, 0 < s.2 := by
  induction a, b using mergeScores.induct with
  | case1 bs => simpa [mergeScores] using hb
  | case2 as _ => rwa [mergeScores_nil]
  | case3 i x as j y bs hlt ih =>
      obtain ⟨hx, has⟩ := List.forall_mem_cons.1 ha
      rw [mergeScores, if_pos hlt]
      exact List.forall_mem_cons.2 ⟨hx, ih has hb⟩
  | case4 i x as j y bs hlt hgt ih =>
      obtain ⟨hy, hbs⟩ := List.forall_mem_cons.1 hb
      rw [mergeScores, if_neg hlt, if_pos hgt]
      exact List.forall_mem_cons.2 ⟨hy, ih ha hbs⟩
  | case5 i x as j y bs hlt hgt ih =>
      obtain ⟨hx, has⟩ := List.forall_mem_cons.1 ha
      obtain ⟨hy, hbs⟩ := List.forall_mem_cons.1 hb
      rw [mergeScores, if_neg hlt, if_neg hgt]
      exact List.forall_mem_cons.2 ⟨add_pos hx hy, ih has hbs⟩

theorem pos_foldl_mergeScores {lists : List (Scores ℝ)} (h : ∀ l ∈ lists, ∀ s ∈ l, 0 < s.2) :
    ∀ s ∈ lists.foldl mergeScores [], 0 < s.2 := by
  induction lists using List.reverseRecOn with
  | nil => simp
  | append_singleton lists last ih =>
      rw [List.foldl_append, List.foldl_cons, List.foldl_nil]
      exact pos_mergeScores (ih fun l hl => h l (List.mem_append_left _ hl)) (h last (by simp))

theorem pos_plainScores (ix : Index) (query : String) :
    ∀ s ∈ (plainScores ix query : Scores ℝ), 0 < s.2 := by
  intro s hs
  rw [plainScores] at hs
  dsimp only at hs
  split at hs
  · cases hs
  · obtain ⟨row, -, hrow⟩ := List.mem_filterMap.1 hs
    split at hrow
    · cases hrow
    · rename_i hhits
      cases hrow
      exact Nat.cast_pos.2 (Nat.pos_of_ne_zero hhits)

/-- Only positive numbers are added up to a score. -/
theorem Positive.pos_queryScores (h : Positive ix) (query : String) :
    ∀ s ∈ (queryScores ix query : Scores ℝ), 0 < s.2 := by
  rw [queryScores]
  split
  · exact pos_plainScores ix query
  · refine pos_foldl_mergeScores fun l hl => ?_
    obtain ⟨row, hrow, hl⟩ := List.mem_filterMap.1 hl
    obtain ⟨m, -, rfl⟩ := Option.map_eq_some_iff.1 hl
    exact h.contribution_pos row hrow m

/-- The index of any passages holds the numbers of their texts, and so it does if the maps
that it is built over go in any other order. No score of a query divides by zero, and no
chunk or document has a score that is not above zero. -/
theorem numbers_of_build (h : build passages = .ok ix) :
    Counted ix passages ∧ Positive ix ∧
    (∀ query, (∀ s ∈ (queryScores ix query : Scores ℝ), 0 < s.2) ∧
      ∀ limit, ∀ hit ∈ (search ix query limit : List (Hit ℝ)), 0 < hit.score) ∧
    ∀ orders : Traversals ℝ,
      Counted (Hashed.build orders passages) passages ∧ Positive (Hashed.build orders passages) ∧
      ∀ query,
        (∀ s ∈ Hashed.queryScores orders (Hashed.build orders passages) query, 0 < s.2) ∧
        ∀ limit, ∀ hit ∈ Hashed.search orders (Hashed.build orders passages) query limit,
          0 < hit.score := by
  have hindexed := indexed_of_build h
  have hcounted := hindexed.posted.counted
  have hscores := hcounted.positive.pos_queryScores
  have hhits : ∀ query limit, ∀ hit ∈ (search ix query limit : List (Hit ℝ)), 0 < hit.score := by
    intro query limit hit hhit
    obtain ⟨i, e, -, -, -, hscore, -⟩ := (ranked_search ix query limit).best hit hhit
    exact hscores query _ hscore
  refine ⟨hcounted, hcounted.positive, fun query => ⟨hscores query, hhits query⟩, fun orders => ?_⟩
  have hposted := Hashed.posted_build orders passages
  refine ⟨hposted.counted, hposted.counted.positive, fun query => ⟨fun s hs => ?_, ?_⟩⟩
  · exact hscores query s ((Hashed.queryScores_perm orders hposted hindexed query).mem_iff.1 hs)
  · intro limit
    rw [Hashed.search_eq hposted hindexed]
    exact hhits query limit

/-- The numbers of two documents, of which a query scores one. -/
theorem numbers_of_build_rate : ∃ ix, build [gaugeGuide, rateGuide] = .ok ix ∧
    Counted ix [gaugeGuide, rateGuide] ∧ ix.entries.map Entry.length = [5, 4] ∧
    averageLength ix = 9 / 2 ∧
    1 ∈ (queryScores ix "rate" : Scores ℝ).map Prod.fst ∧
    ∀ s ∈ (queryScores ix "rate" : Scores ℝ), 0 < s.2 := by
  have hbuild : build [gaugeGuide, rateGuide] = .ok ([gaugeGuide, rateGuide].foldl add empty) :=
    build_eq_ok_iff.2 ⟨by decide +kernel, rfl⟩
  obtain ⟨hcounted, -, hscores, -⟩ := numbers_of_build hbuild
  have hlengths : ([gaugeGuide, rateGuide].foldl add empty).entries.map Entry.length = [5, 4] := by
    rw [hcounted.entries_eq]
    decide +kernel
  have haverage : averageLength ([gaugeGuide, rateGuide].foldl add empty) = 9 / 2 := by
    have hcount : ([gaugeGuide, rateGuide].foldl add empty).chunkCount = 2 :=
      chunkCount_eq hcounted.entries_eq
    have hnine : (([5, 4] : List Nat).sum : ℝ) = 9 := by norm_num
    have hsum := hcounted.sum_length
    rw [hlengths, hcount, hnine, Nat.cast_ofNat] at hsum
    linarith
  have hanswers : Answers "rate" rateGuide := by decide +kernel
  refine ⟨_, hbuild, hcounted, hlengths, haverage, ?_, (hscores "rate").1⟩
  rw [(indexed_of_build hbuild).mem_chunks_queryScores]
  exact ⟨rateGuide, rfl, hanswers⟩

end DocWatch.Index
