import DocWatch.Proofs.Chunk.Words
import DocWatch.Proofs.Index.Retrieval
import DocWatch.Snapshot

/-!
# Every word of a document leads to it

From a document to a hit it takes five steps: the bytes are read as text, the text is cut
into chunks, the chunks are taken apart into terms, the terms get postings, and a query
comes back the same way. A word is lost if one of the steps cuts through it, or if the
query does not arrive at the term that the document has.

The chunker cuts through no word that is within its limit, and where it trims or joins it
takes or adds white space, which ends no term. That is `HasTerm`, which holds of a chunk
if it held of the document. On the way back, a term that is looked for as it is spelled
is a single term again, and in lower case it is the same one. So the query meets the
chunk in an exact match, which no other match can displace.
-/

namespace DocWatch.Snapshot

open Text

variable {t : Tree} {s : Snapshot} {d : Document} {p : Passage} {term : List Char} {limit : Nat}

theorem path_of_mem_passagesOf (h : p ∈ passagesOf d) : p.path = d.path := by
  obtain ⟨c, hc, rfl⟩ := List.mem_map.1 h
  obtain ⟨⟨segment, i⟩, -, rfl⟩ := List.mem_map.1 hc
  rfl

theorem exists_passage_of_segment {segment : Segment}
    (h : segment ∈ segments defaultChunkLimit (textOf d.data).toList) :
    ∃ p ∈ passagesOf d, p.text.toList = segment.text := by
  obtain ⟨i, hi⟩ := List.mem_iff_getElem?.1 h
  have hchunk : segment.toChunk d.path i ∈ chunks d.path (textOf d.data) defaultChunkLimit :=
    List.mem_map.2 ⟨(segment, i), List.mem_zipIdx_iff_getElem?.2 hi, rfl⟩
  exact ⟨_, List.mem_map_of_mem hchunk, String.toList_ofList⟩

/-- There are no more paths to find than documents. -/
theorem card_paths_le (t : Tree) :
    ((t.documents.flatMap passagesOf).map Passage.path).toFinset.card ≤ t.size := by
  have hsubset : ((t.documents.flatMap passagesOf).map Passage.path).toFinset ⊆
      (t.documents.map Document.path).toFinset := by
    intro path hpath
    obtain ⟨p, hp, rfl⟩ := List.mem_map.1 (List.mem_toFinset.1 hpath)
    obtain ⟨d, hd, hp⟩ := List.mem_flatMap.1 hp
    rw [path_of_mem_passagesOf hp]
    exact List.mem_toFinset.2 (List.mem_map_of_mem hd)
  calc ((t.documents.flatMap passagesOf).map Passage.path).toFinset.card
      ≤ (t.documents.map Document.path).toFinset.card := Finset.card_le_card hsubset
    _ ≤ (t.documents.map Document.path).length := List.toFinset_card_le _
    _ = t.size := by rw [List.length_map, Tree.documents, List.length_map, Tree.size]

theorem path_mem_search (h : build t = .ok s) (hd : d ∈ t.documents)
    (hterm : HasTerm (max defaultChunkLimit 1) term (textOf d.data).toList)
    (hlimit : t.size ≤ limit) :
    d.path ∈ (s.search (String.ofList term) limit).map Hit.path := by
  obtain ⟨segment, hsegment, hsegmentTerm⟩ := hterm.segments
  obtain ⟨p, hp, htext⟩ := exists_passage_of_segment hsegment
  have hspelled : term ∈ spelledTerms p.text.toList := by
    rw [htext]
    exact hsegmentTerm.mem_spelledTerms
  have hindexed := Index.indexed_of_build (index_of_build h)
  rw [← path_of_mem_passagesOf hp]
  exact hindexed.path_mem_search (Nat.le_trans (card_paths_le t) hlimit)
    (List.mem_flatMap.2 ⟨d, hd, hp⟩) (Index.answers_of_mem hspelled)

/-- A term that is spelled in a document finds the document, if the word that it stands
in is no longer than a chunk. -/
theorem document_found (h : build t = .ok s) (hd : d ∈ t.documents)
    (before left run right after : List Char)
    (htext : (textOf d.data).toList = before ++ (left ++ run ++ right) ++ after)
    (hrun : MaximalRun isTermChar (before ++ left) run (right ++ after))
    (hterm : trimBy (· = ':') run ≠ [])
    (hword : MaximalRun (fun c => !isGap c) before (left ++ run ++ right) after)
    (hlength : byteLength (left ++ run ++ right) ≤ 2000) (hlimit : t.size ≤ limit) :
    ∃ hit ∈ s.search (String.ofList (trimBy (· = ':') run)) limit, hit.path = d.path := by
  have hspelled : trimBy (· = ':') run ∈ spelledTerms (left ++ run ++ right) :=
    mem_spelledTerms_of_run hrun hterm
  have hfound := path_mem_search h hd
    ⟨before, left ++ run ++ right, after, htext, hword, hlength, hspelled⟩ hlimit
  exact List.mem_map.1 hfound

/-- A document on counters. -/
def counters : Document :=
  ⟨"counters.md", encode "# Counters\n\nUse (Rate:) on them.".toList⟩

/-- Two documents. -/
def manual : Tree :=
  .ofDocuments [counters, ⟨"gauges.md", encode "Gauges go up and down.".toList⟩]

theorem document_found_counters : ∃ s, build manual = .ok s ∧
    ∃ hit ∈ s.search "Rate" 2, hit.path = "counters.md" := by
  have hindex : Index.build (manual.documents.flatMap passagesOf) = .ok _ :=
    Index.build_eq_ok_iff.2 ⟨by decide +kernel, rfl⟩
  have hs : build manual = .ok _ := build_eq_ok_iff.2 ⟨_, hindex, rfl⟩
  have hd : counters ∈ manual.documents := by decide +kernel
  have hrun : MaximalRun isTermChar "# Counters\n\nUse (".toList "Rate:".toList
      ") on them.".toList := by decide +kernel
  have hword : MaximalRun (fun c => !isGap c) "# Counters\n\nUse ".toList "(Rate:)".toList
      " on them.".toList := by decide +kernel
  refine ⟨_, hs, ?_⟩
  exact document_found hs hd "# Counters\n\nUse ".toList "(".toList "Rate:".toList ")".toList
    " on them.".toList (by decide +kernel) hrun (by decide) hword (by decide) (by decide +kernel)

end DocWatch.Snapshot
