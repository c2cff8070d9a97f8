import DocWatch.Index.Basic
import DocWatch.Proofs.Table
import DocWatch.Total
import Mathlib.Data.List.Induction

/-!
# The postings of a built index

An index is built passage by passage, and within a passage term by term: every
occurrence either opens a posting or raises the count of the latest one. `occurrences`
says what ought to come of that, read off the texts alone, and `Indexed` that it did.
The one thing the count depends on is that a posting of an earlier passage is never
taken for one of the current passage, since ordinals only grow.
-/

namespace DocWatch.Index

/-- The passages that contain a term, in order, and how often they contain it. -/
def occurrences (term : String) (passages : List Passage) : List Posting :=
  passages.zipIdx.filterMap fun (p, i) =>
    let tf := (tokenize p.text).count term
    if tf = 0 then none else some ⟨i, tf⟩

/-- The posting for so many occurrences in a passage, if there are any. -/
def latest (chunk tf : Nat) : List Posting :=
  if tf = 0 then [] else [⟨chunk, tf⟩]

/-- Postings as a row of the table, where there is none without a posting. -/
def listed (ps : List Posting) : Option (List Posting) :=
  if ps = [] then none else some ps

/-- An index holds what is to be known of some passages. -/
structure Indexed (ix : Index) (passages : List Passage) : Prop where
  entries_eq : ix.entries = passages.map fun p => ⟨p, (tokenize p.text).length⟩
  ascending : ix.postings.Ascending
  get?_eq : ∀ term, ix.postings.get? term = listed (occurrences term passages)
  totalLength_eq : ix.totalLength = total (passages.map fun p => (tokenize p.text).length)

variable {ix : Index} {passages : List Passage} {p : Passage} {term : String}
  {posting : Posting}

theorem occurrences_concat (term : String) (passages : List Passage) (p : Passage) :
    occurrences term (passages ++ [p]) = occurrences term passages ++
      latest passages.length ((tokenize p.text).count term) := by
  rw [occurrences, List.zipIdx_append, List.filterMap_append, Nat.zero_add]
  congr 1
  simp only [List.zipIdx_singleton, List.filterMap_cons, List.filterMap_nil, latest]
  split <;> simp_all

theorem mem_occurrences : posting ∈ occurrences term passages ↔
    ∃ p, passages[posting.chunk]? = some p ∧ (tokenize p.text).count term = posting.tf ∧
      posting.tf ≠ 0 := by
  rw [occurrences, List.mem_filterMap]
  constructor
  · rintro ⟨⟨p, i⟩, hmem, hposting⟩
    dsimp only at hposting
    split at hposting
    · cases hposting
    · rename_i hcount
      cases hposting
      exact ⟨p, List.mem_zipIdx_iff_getElem?.1 hmem, rfl, hcount⟩
  · rintro ⟨p, hp, hcount, hne⟩
    refine ⟨(p, posting.chunk), List.mem_zipIdx_iff_getElem?.2 hp, ?_⟩
    dsimp only
    rw [hcount, if_neg hne]

theorem chunk_lt_of_mem (h : posting ∈ occurrences term passages) :
    posting.chunk < passages.length := by
  obtain ⟨p, hp, -, -⟩ := mem_occurrences.1 h
  exact (List.getElem?_eq_some_iff.1 hp).1

theorem pairwise_occurrences (term : String) (passages : List Passage) :
    (occurrences term passages).Pairwise fun a b => a.chunk < b.chunk := by
  induction passages using List.reverseRecOn with
  | nil => exact .nil
  | append_singleton passages p ih =>
      rw [occurrences_concat, latest]
      split
      · simpa using ih
      · rw [List.pairwise_append]
        refine ⟨ih, List.pairwise_singleton _ _, ?_⟩
        intro a ha b hb
        rw [List.mem_singleton.1 hb]
        exact chunk_lt_of_mem ha

/-- As many postings as passages that contain the term. -/
theorem length_occurrences (term : String) (passages : List Passage) :
    (occurrences term passages).length =
      passages.countP fun p => decide (term ∈ tokenize p.text) := by
  induction passages using List.reverseRecOn with
  | nil => rfl
  | append_singleton passages p ih =>
      rw [occurrences_concat, List.length_append, List.countP_append, ih, latest]
      by_cases hmem : term ∈ tokenize p.text
      · simp [hmem, List.count_eq_zero]
      · simp [hmem, List.count_eq_zero]

theorem occurrences_eq_nil_iff :
    occurrences term passages = [] ↔ ∀ p ∈ passages, term ∉ tokenize p.text := by
  rw [← List.length_eq_zero_iff, length_occurrences, List.countP_eq_zero]
  simp

theorem listed_eq_none_iff {ps : List Posting} : listed ps = none ↔ ps = [] := by
  rw [listed]
  split <;> simp_all

theorem listed_eq_some_iff {ps row : List Posting} :
    listed ps = some row ↔ row = ps ∧ row ≠ [] := by
  rw [listed]
  split
  · rename_i hnil
    simp [hnil]
  · rename_i hne
    rw [Option.some.injEq]
    constructor
    · rintro rfl
      exact ⟨rfl, hne⟩
    · rintro ⟨rfl, -⟩
      rfl

/-! ## Adding a passage -/

theorem countTerm_latest {ps : List Posting} {chunk tf : Nat}
    (hearlier : ∀ p ∈ ps, p.chunk < chunk) :
    countTerm chunk (listed (ps ++ latest chunk tf)) = ps ++ latest chunk (tf + 1) := by
  cases tf with
  | zero =>
      simp only [latest, if_true, List.append_nil, listed]
      split
      · rename_i hnil
        rw [hnil]
        rfl
      · rename_i hne
        -- the latest posting so far belongs to an earlier passage
        have hlast : ps.getLast? = some (ps.getLast hne) := List.getLast?_eq_some_getLast hne
        have hlt := hearlier _ (List.getLast_mem hne)
        simp [countTerm, hlast, Nat.ne_of_lt hlt]
  | succ tf => simp [latest, listed, countTerm]

theorem get?_counted {t : Table (List Posting)} {chunk : Nat} {before : String → List Posting}
    (hascending : t.Ascending) (hget : ∀ term, t.get? term = listed (before term))
    (hearlier : ∀ term, ∀ p ∈ before term, p.chunk < chunk) (tokens : List String) :
    (tokens.foldl (fun t token => t.alter (countTerm chunk) token) t).Ascending ∧
      ∀ term, (tokens.foldl (fun t token => t.alter (countTerm chunk) token) t).get? term =
        listed (before term ++ latest chunk (tokens.count term)) := by
  induction tokens using List.reverseRecOn with
  | nil =>
      refine ⟨hascending, fun term => ?_⟩
      rw [List.foldl_nil, hget term]
      simp [latest]
  | append_singleton tokens token ih =>
      obtain ⟨ihascending, ihget⟩ := ih
      rw [List.foldl_append, List.foldl_cons, List.foldl_nil]
      refine ⟨ihascending.alter, fun term => ?_⟩
      rw [ihascending.get?_alter, List.count_append]
      by_cases hterm : term = token
      · subst hterm
        rw [if_pos rfl, ihget term, countTerm_latest (hearlier term)]
        simp [listed, latest]
      · rw [if_neg hterm, ihget term]
        simp [Ne.symm hterm]

theorem Indexed.add (h : Indexed ix passages) (p : Passage) :
    Indexed (ix.add p) (passages ++ [p]) := by
  have hlength : ix.entries.length = passages.length := by rw [h.entries_eq, List.length_map]
  have hearlier : ∀ term, ∀ posting ∈ occurrences term passages,
      posting.chunk < ix.entries.length := by
    intro term posting hposting
    rw [hlength]
    exact chunk_lt_of_mem hposting
  obtain ⟨hascending, hget⟩ := get?_counted h.ascending h.get?_eq hearlier (tokenize p.text)
  refine ⟨?_, hascending, fun term => ?_, ?_⟩
  · rw [Index.add, h.entries_eq, List.map_append]
    rfl
  · rw [occurrences_concat, ← hlength]
    exact hget term
  · rw [List.map_append, total_append, ← h.totalLength_eq]
    rfl

theorem indexed_foldl (passages : List Passage) : Indexed (passages.foldl add empty) passages := by
  induction passages using List.reverseRecOn with
  | nil => exact ⟨rfl, Table.ascending_nil, fun _ => rfl, rfl⟩
  | append_singleton passages p ih =>
      rw [List.foldl_append, List.foldl_cons, List.foldl_nil]
      exact ih.add p

/-- An index is built just if passages and terms can be counted. -/
theorem build_eq_ok_iff : build passages = .ok ix ↔
    (passages.length ≤ indexCapacity ∧
      ∀ p ∈ passages, (tokenize p.text).length ≤ indexCapacity) ∧
      ix = passages.foldl add empty := by
  rw [build]
  split
  · rename_i hmany
    simp [Nat.not_le.2 hmany]
  · rename_i hfew
    split
    · rename_i p hfind
      have hlong : indexCapacity < (tokenize p.text).length := by
        simpa using List.find?_some hfind
      have hmem := List.mem_of_find?_eq_some hfind
      simp only [reduceCtorEq, false_iff]
      rintro ⟨⟨-, hshort⟩, -⟩
      have := hshort p hmem
      omega
    · rename_i hfind
      have hshort : ∀ p ∈ passages, (tokenize p.text).length ≤ indexCapacity := by
        intro p hp
        have := List.find?_eq_none.1 hfind p hp
        simpa using this
      simp only [Except.ok.injEq]
      constructor
      · rintro rfl
        exact ⟨⟨Nat.not_lt.1 hfew, hshort⟩, rfl⟩
      · rintro ⟨-, rfl⟩
        rfl

theorem indexed_of_build (h : build passages = .ok ix) : Indexed ix passages := by
  rw [(build_eq_ok_iff.1 h).2]
  exact indexed_foldl passages

end DocWatch.Index
