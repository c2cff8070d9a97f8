import DocWatch.Proofs.Chunk.Contents
import DocWatch.Proofs.Snapshot
import DocWatch.Proofs.Text.Utf8
import DocWatch.Proofs.Tree

/-!
# Looking up and searching show the same documents

A snapshot can be asked for a document by its path, and for the documents that match a
query. The first answer comes from a table of texts, and the second from an index that
was given the chunks of these texts and knows them by number only. Nothing in the snapshot
ties one to the other but that both were made of one tree.

So whatever a hit says is followed back to the tree and from there to the table: its
number to a passage, the passage to a chunk of a document, and the document to the text
that is shown under its path. What the hit quotes is a piece of that chunk. It was cut to
size and trimmed, and dots were put at its ends, but nothing in between was touched.
-/

namespace DocWatch

open Text

variable {t : Tree} {s : Snapshot} {hit : Hit Float} {path : String}

/-! ## Quotations -/

/-- What marks the end of a quotation where text may be left out. -/
def Ellipsis (mark : List Char) : Prop :=
  mark = [] ∨ mark = "...".toList

/-- A piece of a text, with or without dots at its ends. -/
def Quotes (quotation text : List Char) : Prop :=
  ∃ front piece back, quotation = front ++ piece ++ back ∧ piece <:+: text ∧
    Ellipsis front ∧ Ellipsis back

theorem ellipsis_of_left_out (left : List Char) :
    Ellipsis (if left = [] then [] else ['.', '.', '.']) := by
  split
  · exact .inl rfl
  · exact .inr rfl

theorem isInfix_takeBytes (limit : Nat) (text : List Char) :
    (takeBytes limit text).1 <:+: text ∧ (takeBytes limit text).2 <:+: text := by
  have hwhole := takeBytes_append limit text
  exact ⟨⟨[], _, hwhole⟩, ⟨_, [], by rw [List.append_nil, hwhole]⟩⟩

theorem quotes_snippet (text : List Char) (needles : List (List Char)) :
    Quotes (snippet text needles) text := by
  -- the window lies behind what was skipped, and is trimmed where it stands
  have hwindow : ∀ skipped,
      trim (takeBytes snippetBytes (takeBytes skipped text).2).1 <:+: text := by
    intro skipped
    obtain ⟨-, hrest⟩ := isInfix_takeBytes skipped text
    obtain ⟨hfront, -⟩ := isInfix_takeBytes snippetBytes (takeBytes skipped text).2
    exact (isInfix_trim _).trans (hfront.trans hrest)
  exact ⟨_, _, _, rfl, hwindow _, ellipsis_of_left_out _, ellipsis_of_left_out _⟩

/-! ## Chunks -/

theorem chunk_of_mem {text : String} {limit : Nat} {c : Chunk} (h : c ∈ chunks path text limit) :
    c.path = path ∧ c.index < (chunks path text limit).length := by
  have hindex : c.index ∈ (chunks path text limit).map Chunk.index := List.mem_map_of_mem h
  rw [map_index_chunks, List.mem_range] at hindex
  obtain ⟨⟨segment, i⟩, -, rfl⟩ := List.mem_map.1 h
  exact ⟨rfl, hindex⟩

/-- A hit has the name of a chunk and quotes its text. -/
structure Hit.PointsAt {R : Type} (hit : Hit R) (c : Chunk) : Prop where
  chunk_eq : hit.chunk = c.path ++ "#" ++ toString c.index
  quotes : Quotes hit.snippet.toList c.text.toList

namespace Snapshot

theorem totalBytes_of_build (h : build t = .ok s) : s.totalBytes = t.totalBytes := by
  obtain ⟨index, -, rfl⟩ := build_eq_ok_iff.1 h
  rfl

theorem exists_chunk_of_mem_search {query : String} {limit : Nat} (h : build t = .ok s)
    (hhit : hit ∈ s.search query limit) :
    ∃ d ∈ t.documents, d.path = hit.path ∧
      ∃ c ∈ chunks d.path (textOf d.data) defaultChunkLimit, hit.PointsAt c := by
  have hindexed := Index.indexed_of_build (index_of_build h)
  obtain ⟨p, hp, hpath, hid, needles, hsnippet⟩ := hindexed.exists_passage_of_mem_search hhit
  obtain ⟨d, hd, hp⟩ := List.mem_flatMap.1 hp
  obtain ⟨c, hc, rfl⟩ := List.mem_map.1 hp
  refine ⟨d, hd, (chunk_of_mem hc).1.symm.trans hpath, c, hc, hid.symm, ?_⟩
  rw [← hsnippet, String.toList_ofList]
  exact quotes_snippet _ _

/-- The text of a document is its contents where these are a text, and shows that they are
none where they are not. -/
theorem textOf_cases (data : Bytes) :
    (∀ chars, data = encode chars → (textOf data).toList = chars) ∧
      ((∀ chars, data ≠ encode chars) → replacement ∈ (textOf data).toList) := by
  rw [textOf, String.toList_ofList]
  constructor
  · intro chars hchars
    rw [hchars, decodeLossy_encode]
  · intro hnone
    exact replacement_mem_decodeLossy hnone

/-- The names and texts of a snapshot are those of the tree, and every hit of every search
points into them. -/
theorem views_agree (ht : t.Sound) (h : build t = .ok s) :
    (s.fileNames = t.paths ∧ s.fileNames.Pairwise (· < ·)) ∧
    (∀ path, s.file? path = (t.get? path).map textOf) ∧
    (∀ path data, t.get? path = some data → ∃ text, s.file? path = some text ∧
      (∀ chars, data = encode chars → text.toList = chars) ∧
      ((∀ chars, data ≠ encode chars) → replacement ∈ text.toList)) ∧
    s.totalBytes = t.totalBytes ∧
    ∀ query limit, ∀ hit ∈ s.search query limit, hit.path ∈ s.fileNames ∧
      ∃ text, s.file? hit.path = some text ∧ ∃ c ∈ chunks hit.path text 2000,
        hit.PointsAt c ∧ c.path = hit.path ∧ c.index < (chunks hit.path text 2000).length := by
  have hnames : s.fileNames = t.paths := fileNames_of_build h
  refine ⟨⟨hnames, ?_⟩, file?_of_build h, fun path data hdata => ?_, totalBytes_of_build h,
    fun query limit hit hhit => ?_⟩
  · rw [hnames]
    exact ht.ascending
  · refine ⟨textOf data, ?_, textOf_cases data⟩
    rw [file?_of_build h, hdata, Option.map_some]
  · obtain ⟨d, hd, hpath, c, hc, hpoints⟩ := exists_chunk_of_mem_search h hhit
    have hget : t.get? hit.path = some d.data := hpath ▸ ht.mem_documents_iff.1 hd
    rw [hpath] at hc
    refine ⟨?_, textOf d.data, ?_, c, hc, hpoints, chunk_of_mem hc⟩
    · rw [hnames]
      exact Table.mem_keys_of_mem (ht.ascending.get?_eq_some_iff.1 hget)
    · rw [file?_of_build h, hget, Option.map_some]

theorem views_agree_manual : ∃ s, build manual = .ok s ∧
    s.fileNames = ["counters.md", "gauges.md"] ∧
    ∃ hit ∈ s.search "Rate" 2, ∃ text, s.file? hit.path = some text ∧
      ∃ c ∈ chunks hit.path text 2000, hit.PointsAt c := by
  obtain ⟨s, hs⟩ : ∃ s, build manual = .ok s := exists_build (by decide +kernel)
  have hfound : counters.path ∈ (s.search "Rate" 2).map Hit.path :=
    path_mem_search hs (by decide +kernel) ⟨"# Counters\n\nUse ".toList, "(Rate:)".toList,
      " on them.".toList, by decide +kernel, by decide +kernel, by decide, by decide +kernel⟩
      (by decide +kernel)
  obtain ⟨hit, hhit, -⟩ := List.mem_map.1 hfound
  obtain ⟨⟨hnames, -⟩, -, -, -, hhits⟩ := views_agree (Tree.sound_ofDocuments _) hs
  obtain ⟨-, text, htext, c, hc, hpoints, -⟩ := hhits "Rate" 2 hit hhit
  refine ⟨s, hs, ?_, hit, hhit, text, htext, c, hc, hpoints⟩
  rw [hnames]
  decide +kernel

end Snapshot

end DocWatch
