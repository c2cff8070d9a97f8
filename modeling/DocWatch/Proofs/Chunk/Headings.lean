import DocWatch.Proofs.Chunk.Blocks

/-!
# The headings of chunks

A chunk is to carry the title of the section it starts in. The chunks and the paragraphs
of a document show the same characters in the same order, so a place in the one is a
place in the other: a chunk starts in the paragraph that holds the next character behind
all that the chunks ahead of it show.

A paragraph with a title is the first of its block, and it is in the first paragraph of a
block that all chunks of the block start. So a title begins a chunk, and the last title up
to the paragraph a chunk starts in is the one that its block is under.
-/

namespace DocWatch

open Text

/-- With `n` characters shown, the next one is in the paragraph behind `before`. -/
structure StartsIn (n : Nat) (before : List (List Char)) (para : List Char) : Prop where
  notBefore : visibleCount before ≤ n
  within : n < visibleCount before + (visible para).length

variable {limit n : Nat} {heading : Option (List Char)} {para para' : List Char}
  {before before' after after' paras : List (List Char)} {segs ahead behind u v : List Segment}
  {blocks : List Block} {b : Block} {s : Segment}

theorem StartsIn.not_of_later {between : List (List Char)} (h : StartsIn n before para) :
    ¬StartsIn n (before ++ para :: between) para' := by
  intro h'
  have hwithin := h.within
  have hnotBefore := h'.notBefore
  rw [visibleCount_append, visibleCount_cons] at hnotBefore
  omega

theorem StartsIn.unique (h : StartsIn n before para) (h' : StartsIn n before' para')
    (heq : before ++ para :: after = before' ++ para' :: after') :
    before = before' ∧ para = para' := by
  rcases List.append_eq_append_iff.1 heq with ⟨between, rfl, hbetween⟩ | ⟨between, rfl, hbetween⟩
  · cases between with
    | nil =>
        cases hbetween
        exact ⟨(List.append_nil _).symm, rfl⟩
    | cons p between =>
        cases hbetween
        exact absurd h' h.not_of_later
  · cases between with
    | nil =>
        cases hbetween
        exact ⟨List.append_nil _, rfl⟩
    | cons p between =>
        cases hbetween
        exact absurd h h'.not_of_later

/-! ## Within a block -/

theorem exists_cons_cutPieces (limit : Nat) (hne : para ≠ []) (hbare : Bare isBlank para) :
    ∃ piece more, cutPieces limit para = piece :: more ∧ piece <+: para := by
  have hfrom : (cutOnce limit para).1 <+: para := ⟨_, cutOnce_append limit para⟩
  have hfront : ∀ c ∈ (cutOnce limit para).1.head?, isBlank c = false := by
    intro c hc
    obtain ⟨rest, hrest⟩ := List.head?_eq_some_iff.1 (Option.mem_def.1 hc)
    obtain ⟨back, hback⟩ := hfrom
    rw [hrest] at hback
    exact hbare.front c (by rw [← hback]; rfl)
  have hpiece : Text.trim (cutOnce limit para).1 ≠ [] := by
    intro hnil
    refine visible_ne_nil (cutOnce_ne_nil limit hne) hfront ?_
    rw [← visible_trim, hnil]
    rfl
  refine ⟨Text.trim (cutOnce limit para).1, cutPieces limit (cutOnce limit para).2, ?_, ?_⟩
  · rw [cutPieces, dif_neg hne, if_neg hpiece]
  · exact (trimBy_isPrefix hfront).trans hfrom

namespace Block

theorem heading_of_mem (h : s ∈ b.segments limit) : s.heading = b.heading := by
  rw [segments] at h
  split at h
  · obtain ⟨piece, -, rfl⟩ := List.mem_map.1 h
    rfl
  · rw [List.mem_singleton.1 h]

theorem exists_cons_segments (limit : Nat) (hne : b.first ≠ []) (hbare : Bare isBlank b.first) :
    ∃ s more, b.segments limit = s :: more ∧ (b.first <+: s.text ∨ s.text <+: b.first) := by
  rw [segments]
  split
  · obtain ⟨piece, more, hpieces, hfrom⟩ := exists_cons_cutPieces limit hne hbare
    rw [hpieces]
    exact ⟨_, _, rfl, .inr hfrom⟩
  · exact ⟨_, [], rfl, .inl (List.prefix_append _ _)⟩

/-- All segments of a block start in its first paragraph. -/
theorem Sound.starts_in_first (h : b.Sound limit) (hfirst : visible b.first ≠ [])
    (hsplit : b.segments limit = u ++ s :: v) (hs : visible s.text ≠ []) :
    visibleCount (u.map Segment.text) < (visible b.first).length := by
  have hcount := h.visibleCount_segments
  have hshown := List.length_pos_iff.2 hs
  rcases Nat.lt_or_ge limit (byteLength b.first) with hlong | hshort
  · rw [hsplit, List.map_append, List.map_cons, visibleCount_append, visibleCount_cons, paras,
      h.alone hlong, visibleCount_cons, visibleCount_nil] at hcount
    omega
  · rw [segments, if_neg (Nat.not_lt.2 hshort)] at hsplit
    cases u with
    | nil => exact List.length_pos_iff.2 hfirst
    | cons first u => cases (List.append_eq_nil_iff.1 (List.cons.inj hsplit).2.symm).2

end Block

/-! ## From segments to paragraphs and back -/

namespace Blocks

theorem paragraph_of_segment (h : Blocks limit heading paras (ahead ++ s :: behind) blocks)
    (hparas : ∀ p ∈ paras, p ≠ [] ∧ Bare isBlank p) (hs : visible s.text ≠ []) :
    ∃ before para after, paras = before ++ para :: after ∧
      StartsIn (visibleCount (ahead.map Segment.text)) before para ∧
      s.heading = (lastTitle (before ++ [para])).or heading := by
  obtain ⟨front, b, back, u, v, rfl, hb, rfl, -⟩ := exists_of_flatMap_eq h.segments_eq
  have hsound := h.sound b (by simp)
  have hsplit : paras =
      front.flatMap Block.paras ++ b.first :: (b.more ++ back.flatMap Block.paras) := by
    rw [h.paras_around, List.append_assoc]
    rfl
  obtain ⟨hne, hbare⟩ := hparas b.first (by rw [hsplit]; simp)
  have hfront := h.place
  have hstart := hsound.starts_in_first (visible_ne_nil hne hbare.front) hb hs
  refine ⟨_, _, _, hsplit, ⟨?_, ?_⟩, ?_⟩
  · rw [List.map_append, visibleCount_append, hfront]
    omega
  · rw [List.map_append, visibleCount_append, hfront]
    omega
  · rw [Block.heading_of_mem (s := s) (by rw [hb]; simp), h.heading_eq front b back rfl]

/-- The block of a paragraph that can only be the first one there. -/
theorem exists_block_of_first (h : Blocks limit heading (before ++ para :: after) segs blocks)
    (hfirst : ∀ (b : Block) x y, b.Sound limit → b.paras = x ++ para :: y →
      x = [] ∧ para = b.first) :
    ∃ (ahead : List Segment) (b : Block) (behind : List Segment), b.first = para ∧
      b.heading = (lastTitle (before ++ [para])).or heading ∧
      segs = ahead ++ b.segments limit ++ behind ∧
      visibleCount (ahead.map Segment.text) = visibleCount before := by
  obtain ⟨front, b, back, x, y, rfl, hb, rfl, -⟩ := exists_of_flatMap_eq h.paras_eq
  have hsound := h.sound b (by simp)
  obtain ⟨rfl, rfl⟩ := hfirst b x y hsound hb
  rw [List.append_nil]
  exact ⟨front.flatMap (Block.segments limit), b, back.flatMap (Block.segments limit), rfl,
    h.heading_eq front b back rfl, h.segments_around, h.place⟩

theorem segment_of_title (h : Blocks limit heading (before ++ para :: after) segs blocks)
    (hne : para ≠ []) (hbare : Bare isBlank para) (htitle : titleOf? para ≠ none) :
    ∃ ahead s behind, segs = ahead ++ s :: behind ∧
      visibleCount (ahead.map Segment.text) = visibleCount before ∧
      (para <+: s.text ∨ s.text <+: para) := by
  obtain ⟨ahead, b, behind, rfl, -, rfl, hcount⟩ :=
    h.exists_block_of_first fun b x y hb hpara => hb.first_of_title hpara htitle
  obtain ⟨s, more, hsegments, hfrom⟩ := b.exists_cons_segments limit hne hbare
  refine ⟨ahead, s, more ++ behind, ?_, hcount, hfrom⟩
  rw [hsegments, List.append_assoc, List.cons_append]

theorem segments_of_long (h : Blocks limit heading (before ++ para :: after) segs blocks)
    (hlong : limit < byteLength para) :
    ∃ ahead behind, segs = ahead ++
        (cutPieces limit para).map (Segment.mk ((lastTitle (before ++ [para])).or heading)) ++
          behind ∧
      visibleCount (ahead.map Segment.text) = visibleCount before := by
  obtain ⟨ahead, b, behind, rfl, hheading, rfl, hcount⟩ :=
    h.exists_block_of_first fun b x y hb hpara => hb.first_of_long hpara hlong
  refine ⟨ahead, behind, ?_, hcount⟩
  rw [Block.segments_of_long hlong, hheading]

end Blocks

/-! ## Chunks -/

/-- What a chunk was before it was numbered. -/
def Chunk.segment (c : Chunk) : Segment :=
  ⟨c.heading.map String.toList, c.text.toList⟩

/-- How many characters of some chunks can be seen. -/
def shown (cs : List Chunk) : Nat :=
  visibleCount (cs.map fun c => c.text.toList)

theorem map_segment_chunks (path text : String) (limit : Nat) :
    (chunks path text limit).map Chunk.segment = segments limit text.toList := by
  refine List.ext_getElem? fun i => ?_
  rw [List.getElem?_map, getElem?_chunks, Option.map_map]
  cases (segments limit text.toList)[i]? with
  | none => rfl
  | some s => simp [Chunk.segment, Segment.toChunk, Function.comp_def]

theorem shown_eq (cs : List Chunk) :
    shown cs = visibleCount ((cs.map Chunk.segment).map Segment.text) := by
  rw [List.map_map]
  rfl

theorem segments_of_chunks {path text : String} {ahead : List Chunk} {c : Chunk}
    {behind : List Chunk} (h : chunks path text limit = ahead ++ c :: behind) :
    segments limit text.toList =
      ahead.map Chunk.segment ++ c.segment :: behind.map Chunk.segment := by
  rw [← map_segment_chunks path, h, List.map_append, List.map_cons]

theorem chunks_of_segments {path text : String}
    (h : segments limit text.toList = ahead ++ s :: behind) :
    ∃ ahead' c behind', chunks path text limit = ahead' ++ c :: behind' ∧
      shown ahead' = visibleCount (ahead.map Segment.text) ∧ c.text.toList = s.text := by
  rw [← map_segment_chunks path] at h
  obtain ⟨ahead', found, hchunks, rfl, hfound⟩ := List.map_eq_append_iff.1 h
  obtain ⟨c, behind', rfl, rfl, -⟩ := List.map_eq_cons_iff.1 hfound
  exact ⟨ahead', c, behind', hchunks, shown_eq ahead', rfl⟩

theorem heading_of_segment {c : Chunk} {title : Option (List Char)}
    (h : c.segment.heading = title) : c.heading = title.map String.ofList := by
  rw [← h, Chunk.segment, Option.map_map]
  cases c.heading with
  | none => rfl
  | some title => simp

section Document

variable {path text : String} {c : Chunk} {ahead behind : List Chunk}

theorem exists_blocks_of_document (limit : Nat) (h : paragraphs text.toList ≠ []) :
    ∃ blocks, Blocks (max limit 1) none (paragraphs text.toList) (segments limit text.toList)
      blocks :=
  exists_blocks (laid_segments h)

theorem exists_blocks_around (limit : Nat)
    (hparas : paragraphs text.toList = before ++ para :: after) :
    ∃ blocks, Blocks (max limit 1) none (before ++ para :: after) (segments limit text.toList)
      blocks := by
  rw [← hparas]
  exact exists_blocks_of_document limit (by simp [hparas])

theorem chunk_of_title (path : String) (limit : Nat)
    (hparas : paragraphs text.toList = before ++ para :: after) (htitle : titleOf? para ≠ none) :
    ∃ ahead c behind, chunks path text limit = ahead ++ c :: behind ∧
      shown ahead = visibleCount before ∧ (para <+: c.text.toList ∨ c.text.toList <+: para) := by
  have hmem : para ∈ paragraphs text.toList := by simp [hparas]
  obtain ⟨hne, hbare⟩ := bare_of_mem_paragraphs hmem
  obtain ⟨blocks, hblocks⟩ := exists_blocks_around limit hparas
  obtain ⟨_, s, _, hsegments, hcount, hfrom⟩ := hblocks.segment_of_title hne hbare htitle
  obtain ⟨ahead, c, behind, hchunks, hplace, htext⟩ := chunks_of_segments hsegments
  exact ⟨ahead, c, behind, hchunks, hplace.trans hcount, by rwa [htext]⟩

theorem paragraph_of_chunk (h : chunks path text limit = ahead ++ c :: behind)
    (hsome : paragraphs text.toList ≠ []) :
    ∃ before para after, paragraphs text.toList = before ++ para :: after ∧
      StartsIn (shown ahead) before para ∧
      c.heading = (lastTitle (before ++ [para])).map String.ofList := by
  obtain ⟨blocks, hblocks⟩ := exists_blocks_of_document limit hsome
  have hc : c ∈ chunks path text limit := by simp [h]
  rw [segments_of_chunks h] at hblocks
  obtain ⟨before, para, after, hparas, hstart, hheading⟩ :=
    hblocks.paragraph_of_segment (fun _ => bare_of_mem_paragraphs) (visible_of_mem_chunks hc hsome)
  rw [← shown_eq] at hstart
  rw [Option.or_none] at hheading
  exact ⟨before, para, after, hparas, hstart, heading_of_segment hheading⟩

theorem heading_of_blank (h : chunks path text limit = ahead ++ c :: behind)
    (hnone : paragraphs text.toList = []) : c.heading = none := by
  have hsegments := segments_of_chunks h
  rw [segments_of_blank (paragraphs_eq_nil_iff.1 hnone)] at hsegments
  have hmem : c.segment ∈ [Segment.mk none []] := by
    rw [hsegments]
    simp
  exact heading_of_segment (congrArg Segment.heading (List.mem_singleton.1 hmem))

theorem chunks_of_long (path : String)
    (hparas : paragraphs text.toList = before ++ para :: after)
    (hlong : max limit 1 < byteLength para) :
    ∃ ahead pieces behind, chunks path text limit = ahead ++ pieces ++ behind ∧
      shown ahead = visibleCount before ∧
      pieces.map (fun c => c.text.toList) = cutPieces (max limit 1) para ∧
      ∀ c ∈ pieces, c.heading = (lastTitle (before ++ [para])).map String.ofList := by
  obtain ⟨blocks, hblocks⟩ := exists_blocks_around limit hparas
  obtain ⟨_, _, hsegments, hcount⟩ := hblocks.segments_of_long hlong
  rw [← map_segment_chunks path, Option.or_none] at hsegments
  obtain ⟨found, behind, hchunks, hfound, -⟩ := List.map_eq_append_iff.1 hsegments
  obtain ⟨ahead, pieces, rfl, rfl, hpieces⟩ := List.map_eq_append_iff.1 hfound
  refine ⟨ahead, pieces, behind, hchunks, ?_, ?_, ?_⟩
  · rw [shown_eq, hcount]
  · have htexts := congrArg (List.map Segment.text) hpieces
    rw [List.map_map, List.map_map] at htexts
    exact htexts.trans (List.map_id _)
  · intro c hc
    have hmem : c.segment ∈ pieces.map Chunk.segment := List.mem_map_of_mem hc
    rw [hpieces] at hmem
    obtain ⟨piece, -, hpiece⟩ := List.mem_map.1 hmem
    exact heading_of_segment (congrArg Segment.heading hpiece).symm

end Document

/-- A heading begins a chunk, at its own place in the document. Each chunk is headed by the
title of the last heading up to the paragraph it starts in, and it does start in one unless the
document is blank. A paragraph beyond the limit is in chunks of its own, all of them under one
heading. -/
theorem headings_of_chunks (path text : String) (limit : Nat) :
    (∀ before para after, paragraphs text.toList = before ++ para :: after →
      titleOf? para ≠ none →
      ∃ ahead c behind, chunks path text limit = ahead ++ c :: behind ∧
        shown ahead = visibleCount before ∧
        (para <+: c.text.toList ∨ c.text.toList <+: para)) ∧
    (∀ ahead c behind, chunks path text limit = ahead ++ c :: behind →
      (paragraphs text.toList = [] → c.heading = none) ∧
      (paragraphs text.toList ≠ [] → ∃ before para after,
        paragraphs text.toList = before ++ para :: after ∧ StartsIn (shown ahead) before para) ∧
      ∀ before para after, paragraphs text.toList = before ++ para :: after →
        StartsIn (shown ahead) before para →
        c.heading = (lastTitle (before ++ [para])).map String.ofList) ∧
    ∀ before para after, paragraphs text.toList = before ++ para :: after →
      max limit 1 < byteLength para →
      ∃ ahead pieces behind, chunks path text limit = ahead ++ pieces ++ behind ∧
        shown ahead = visibleCount before ∧
        pieces.map (fun c => c.text.toList) = cutPieces (max limit 1) para ∧
        ∀ c ∈ pieces, c.heading = (lastTitle (before ++ [para])).map String.ofList := by
  refine ⟨?_, ?_, ?_⟩
  · intro before para after hparas htitle
    exact chunk_of_title path limit hparas htitle
  · intro ahead c behind hchunks
    refine ⟨heading_of_blank hchunks, ?_, ?_⟩
    · intro hsome
      obtain ⟨before, para, after, hparas, hstart, -⟩ := paragraph_of_chunk hchunks hsome
      exact ⟨before, para, after, hparas, hstart⟩
    · intro before para after hparas hstart
      obtain ⟨before', para', after', hparas', hstart', hheading⟩ :=
        paragraph_of_chunk hchunks (by simp [hparas])
      obtain ⟨rfl, rfl⟩ := hstart.unique hstart' (hparas.symm.trans hparas')
      exact hheading
  · intro before para after hparas hlong
    exact chunks_of_long path hparas hlong

-- the second paragraph is under the first heading still, and the long one brings its own
example : (chunks "d" "# A\n\nplain\n\n## B c d" 7).map (fun c => (c.heading, c.text)) =
    [(some "A", "# A"), (some "A", "plain"), (some "B c d", "## B c"), (some "B c d", "d")] := by
  decide +kernel

end DocWatch
