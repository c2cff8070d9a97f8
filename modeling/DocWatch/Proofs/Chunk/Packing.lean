import DocWatch.Proofs.Chunk.Headings

/-!
# How full chunks are

A document is divided only where it has to be. A paragraph within the limit is never cut,
and a chunk with whole paragraphs ends before the next one for one of two reasons: that one
is a heading, or there was no room for it with the two line feeds before it. A paragraph
beyond the limit shares none of its chunks.

The blocks of a document show this one after the other (`Block.Parted`). What is left is to
see that a chunk that has whole paragraphs is a block of them, and that a paragraph that a
chunk begins with is the first of its block. Both are told by their places.
-/

namespace DocWatch

open Text

/-- Behind some chunks of a document, a chunk has some of its paragraphs, whole and in a row. -/
structure Chunk.Holds (c : Chunk) (ahead : List Chunk)
    (paras before group after : List (List Char)) : Prop where
  paras_eq : paras = before ++ group ++ after
  place : shown ahead = visibleCount before
  text_eq : c.text.toList = ['\n', '\n'].intercalate group

variable {limit n : Nat} {heading : Option (List Char)} {para p : List Char}
  {before before' after after' group more paras : List (List Char)} {segs : List Segment}
  {blocks front back : List Block} {b : Block} {s : Segment} {u v : List Segment}

theorem intercalate_eq_joined (para : List Char) (more : List (List Char)) :
    ['\n', '\n'].intercalate (para :: more) = joined para more := by
  induction more generalizing para with
  | nil => simp
  | cons next more ih =>
      rw [List.intercalate_cons_cons, ih]
      simp [joined]

theorem visible_intercalate (group : List (List Char)) :
    visible (['\n', '\n'].intercalate group) = group.flatMap visible := by
  cases group with
  | nil => rfl
  | cons para more => rw [intercalate_eq_joined, visible_joined, List.flatMap_cons]

/-! ## Places of paragraphs and blocks -/

theorem startsIn_of_place (hplace : n = visibleCount before) (hpara : visible para ≠ []) :
    StartsIn n before para where
  notBefore := hplace.ge
  within := by
    have := List.length_pos_iff.2 hpara
    omega

namespace Chunk.Holds

variable {c : Chunk} {ahead : List Chunk} {s : List Char}

theorem paras_eq_cons (h : c.Holds ahead paras before (p :: more) after) :
    paras = before ++ p :: (more ++ after) := by
  rw [h.paras_eq, List.append_assoc, List.cons_append]

theorem shown_concat (h : c.Holds ahead paras before group after) :
    shown (ahead ++ [c]) = visibleCount (before ++ group) := by
  have hgroup : visibleCount [c.text.toList] = visibleCount group := by
    rw [visibleCount, List.flatMap_singleton, h.text_eq, visible_intercalate]
    rfl
  rw [shown, List.map_append, visibleCount_append, visibleCount_append, ← h.place, ← hgroup]
  rfl

theorem startsIn (h : c.Holds ahead (paragraphs s) before (p :: more) after) :
    StartsIn (shown ahead) before p := by
  have hmem : p ∈ paragraphs s := by simp [h.paras_eq_cons]
  exact startsIn_of_place h.place (visible_of_mem_paragraphs hmem)

end Chunk.Holds

/-! ## From chunks to blocks and back -/

section Document

variable {path text : String} {c c' : Chunk} {ahead behind : List Chunk}

theorem exists_block_of_chunk (h : chunks path text limit = ahead ++ c :: behind)
    (hblocks : Blocks (max limit 1) none paras (segments limit text.toList) blocks) :
    ∃ front b back u v, blocks = front ++ b :: back ∧
      b.segments (max limit 1) = u ++ c.segment :: v ∧
      shown ahead = visibleCount (front.flatMap Block.paras) + visibleCount (u.map Segment.text) ∧
      behind.map Chunk.segment = v ++ back.flatMap (Block.segments (max limit 1)) := by
  have hsegments := hblocks.segments_eq
  rw [segments_of_chunks h] at hsegments
  obtain ⟨front, b, back, u, v, rfl, hb, hahead, hbehind⟩ := exists_of_flatMap_eq hsegments
  refine ⟨front, b, back, u, v, rfl, hb, ?_, hbehind⟩
  rw [shown_eq, hahead, List.map_append, visibleCount_append, hblocks.place]

theorem short_of_mem_paras (hb : b.Sound n) (hpara : para ∈ b.paras)
    (hshort : byteLength para ≤ n) : byteLength b.first ≤ n := by
  refine Nat.not_lt.1 fun hlong => ?_
  rw [Block.paras, hb.alone hlong, List.mem_singleton] at hpara
  rw [hpara] at hshort
  omega

theorem alone_of_blank (h : chunks path text limit = ahead ++ c :: behind)
    (hnone : paragraphs text.toList = []) : ahead = [] ∧ c.text.toList = [] := by
  have hsegments := segments_of_chunks h
  rw [segments_of_blank (paragraphs_eq_nil_iff.1 hnone)] at hsegments
  cases ahead with
  | nil => exact ⟨rfl, (congrArg Segment.text (List.cons.inj hsegments).1).symm⟩
  | cons first ahead => cases (List.append_eq_nil_iff.1 (List.cons.inj hsegments).2.symm).2

/-- The chunk of a block with whole paragraphs holds just these. -/
theorem holds_of_short
    (hblocks : Blocks (max limit 1) none paras (segments limit text.toList) (front ++ b :: back))
    (hshort : byteLength b.first ≤ max limit 1)
    (hb : b.segments (max limit 1) = u ++ c.segment :: v)
    (hplace : shown ahead =
      visibleCount (front.flatMap Block.paras) + visibleCount (u.map Segment.text)) :
    c.Holds ahead paras (front.flatMap Block.paras) b.paras (back.flatMap Block.paras) ∧
      v = [] := by
  rw [Block.segments_of_short hshort] at hb
  cases u with
  | cons first u => cases (List.append_eq_nil_iff.1 (List.cons.inj hb).2.symm).2
  | nil =>
      obtain ⟨hsegment, hv⟩ := List.cons.inj hb
      have htext : c.text.toList = joined b.first b.more := (congrArg Segment.text hsegment).symm
      refine ⟨⟨hblocks.paras_around, hplace, ?_⟩, hv.symm⟩
      rw [htext, Block.paras, intercalate_eq_joined]

/-- The chunks of a paragraph that is too long are cut from it, and start in it. -/
theorem cut_of_long (h : chunks path text limit = ahead ++ c :: behind)
    (hblocks : Blocks (max limit 1) none (paragraphs text.toList) (segments limit text.toList)
      (front ++ b :: back))
    (hlong : max limit 1 < byteLength b.first)
    (hb : b.segments (max limit 1) = u ++ c.segment :: v)
    (hplace : shown ahead =
      visibleCount (front.flatMap Block.paras) + visibleCount (u.map Segment.text)) :
    paragraphs text.toList =
        front.flatMap Block.paras ++ b.first :: back.flatMap Block.paras ∧
      StartsIn (shown ahead) (front.flatMap Block.paras) b.first ∧
      c.text.toList ∈ cutPieces (max limit 1) b.first := by
  have hsound := hblocks.sound b (by simp)
  have hparas := hblocks.paras_around
  rw [Block.paras, hsound.alone hlong, List.append_assoc, List.singleton_append] at hparas
  have hfirst : b.first ∈ paragraphs text.toList := by simp [hparas]
  have hc : c ∈ chunks path text limit := by simp [h]
  have hstart := hsound.starts_in_first (visible_of_mem_paragraphs hfirst) hb
    (visible_of_mem_chunks hc (List.ne_nil_of_mem hfirst))
  have hcut : c.segment ∈ b.segments (max limit 1) := by simp [hb]
  rw [Block.segments_of_long hlong] at hcut
  obtain ⟨piece, hpiece, hsegment⟩ := List.mem_map.1 hcut
  have htext : piece = c.text.toList := congrArg Segment.text hsegment
  refine ⟨hparas, ⟨?_, ?_⟩, ?_⟩
  · omega
  · omega
  · rwa [← htext]

/-- A paragraph within the limit is whole in one chunk, with its neighbours or alone. -/
theorem exists_chunk_of_short (path : String) (limit : Nat)
    (hparas : paragraphs text.toList = before ++ para :: after)
    (hshort : byteLength para ≤ max limit 1) :
    ∃ ahead c behind front x y back, chunks path text limit = ahead ++ c :: behind ∧
      before = front ++ x ∧ after = y ++ back ∧
      c.Holds ahead (paragraphs text.toList) front (x ++ para :: y) back := by
  obtain ⟨blocks, hblocks⟩ := exists_blocks_around limit hparas
  obtain ⟨front, b, back, x, y, rfl, hb, rfl, rfl⟩ := exists_of_flatMap_eq hblocks.paras_eq
  have hfirst : byteLength b.first ≤ max limit 1 :=
    short_of_mem_paras (hblocks.sound b (by simp)) (by simp [hb]) hshort
  have hsegments := hblocks.segments_around
  rw [Block.segments_of_short hfirst, List.append_assoc] at hsegments
  obtain ⟨ahead, c, behind, hchunks, hplace, htext⟩ := chunks_of_segments hsegments
  refine ⟨ahead, c, behind, front.flatMap Block.paras, x, y, back.flatMap Block.paras, hchunks, rfl,
    rfl, by simp [hparas], ?_, ?_⟩
  · rw [hplace, hblocks.place]
  · rw [htext, ← hb, Block.paras, intercalate_eq_joined]

/-- A chunk has some paragraphs and nothing else, or it is cut from one that is too long. -/
theorem holds_or_cut (h : chunks path text limit = ahead ++ c :: behind) :
    (∃ before group after, c.Holds ahead (paragraphs text.toList) before group after) ∨
    ∃ before para after, paragraphs text.toList = before ++ para :: after ∧
      max limit 1 < byteLength para ∧ StartsIn (shown ahead) before para ∧
      c.text.toList ∈ cutPieces (max limit 1) para := by
  rcases eq_or_ne (paragraphs text.toList) [] with hnone | hsome
  · left
    obtain ⟨rfl, htext⟩ := alone_of_blank h hnone
    rw [hnone]
    exact ⟨[], [], [], rfl, rfl, htext⟩
  obtain ⟨blocks, hblocks⟩ := exists_blocks_of_document limit hsome
  obtain ⟨front, b, back, u, v, rfl, hb, hplace, -⟩ := exists_block_of_chunk h hblocks
  rcases Nat.lt_or_ge (max limit 1) (byteLength b.first) with hlong | hshort
  · right
    obtain ⟨hparas, hstart, hcut⟩ := cut_of_long h hblocks hlong hb hplace
    exact ⟨_, _, _, hparas, hlong, hstart, hcut⟩
  · left
    exact ⟨_, _, _, (holds_of_short hblocks hshort hb hplace).1⟩

/-- Between neighbours with whole paragraphs, the next one would not have fitted. -/
theorem full_of_neighbours (h : chunks path text limit = ahead ++ c :: c' :: behind)
    (hc : c.Holds ahead (paragraphs text.toList) before group after)
    (hc' : c'.Holds (ahead ++ [c]) (paragraphs text.toList) before' (p :: more) after')
    (hp : titleOf? p = none) : max limit 1 < byteLength c.text.toList + 2 + byteLength p := by
  have hsome : paragraphs text.toList ≠ [] := by simp [hc'.paras_eq_cons]
  have hlaid : Laid (max limit 1) none (paragraphs text.toList) (segments limit text.toList) :=
    laid_segments hsome
  obtain ⟨blocks, hblocks, hparted⟩ := exists_parted_blocks hlaid
  obtain ⟨front, b, back, u, v, rfl, hb, hplace, hbehind⟩ := exists_block_of_chunk h hblocks
  rcases Nat.lt_or_ge (max limit 1) (byteLength b.first) with hlong | hshort
  · -- what holds a paragraph that is too long is itself too long
    obtain ⟨hparas, hstart, -⟩ := cut_of_long h hblocks hlong hb hplace
    cases group with
    | nil =>
        have hmem : c ∈ chunks path text limit := by simp [h]
        exact absurd (congrArg visible hc.text_eq) (visible_of_mem_chunks hmem hsome)
    | cons first rest =>
        have hfirst : first = b.first :=
          (hc.startsIn.unique hstart (hc.paras_eq_cons.symm.trans hparas)).2
        have hle : byteLength first ≤ byteLength c.text.toList := by
          rw [hc.text_eq, intercalate_eq_joined]
          exact byteLength_le_of_isInfix (isInfix_joined List.mem_cons_self)
        rw [hfirst] at hle
        omega
  · obtain ⟨hholds, rfl⟩ := holds_of_short hblocks hshort hb hplace
    cases back with
    | nil => cases hbehind
    | cons b' back =>
        have hparas := hblocks.paras_around
        have hmem : b'.first ∈ paragraphs text.toList := by simp [hparas, Block.paras]
        have hstart := startsIn_of_place hholds.shown_concat (visible_of_mem_paragraphs hmem)
        have hfirst : p = b'.first :=
          (hc'.startsIn.unique hstart (hc'.paras_eq_cons.symm.trans hparas)).2
        have hfull := (List.isChain_append_cons_cons.1 hparted).2.1 hshort
        rw [← hfirst] at hfull
        rw [hholds.text_eq, Block.paras, intercalate_eq_joined]
        exact hfull.resolve_left fun htitle => htitle hp

end Document

/-- A paragraph within the limit is whole in one chunk. A chunk has some paragraphs in a row and
nothing else, or else it is cut from a paragraph beyond the limit, which has all of its pieces in
chunks of their own. Of two neighbours with whole paragraphs, the first had no room for what the
second begins with, unless that is a heading. -/
theorem packed_chunks (path text : String) (limit : Nat) :
    (∀ before para after, paragraphs text.toList = before ++ para :: after →
      byteLength para ≤ max limit 1 →
      ∃ ahead c behind front x y back, chunks path text limit = ahead ++ c :: behind ∧
        before = front ++ x ∧ after = y ++ back ∧
        c.Holds ahead (paragraphs text.toList) front (x ++ para :: y) back) ∧
    (∀ ahead c behind, chunks path text limit = ahead ++ c :: behind →
      (∃ before group after, c.Holds ahead (paragraphs text.toList) before group after) ∨
      ∃ before para after, paragraphs text.toList = before ++ para :: after ∧
        max limit 1 < byteLength para ∧ StartsIn (shown ahead) before para ∧
        c.text.toList ∈ cutPieces (max limit 1) para) ∧
    (∀ before para after, paragraphs text.toList = before ++ para :: after →
      max limit 1 < byteLength para →
      ∃ ahead pieces behind, chunks path text limit = ahead ++ pieces ++ behind ∧
        shown ahead = visibleCount before ∧
        pieces.map (fun c => c.text.toList) = cutPieces (max limit 1) para ∧
        visible (pieces.flatMap fun c => c.text.toList) = visible para) ∧
    ∀ ahead c c' behind, chunks path text limit = ahead ++ c :: c' :: behind →
      ∀ before group after before' p more after',
        c.Holds ahead (paragraphs text.toList) before group after →
        c'.Holds (ahead ++ [c]) (paragraphs text.toList) before' (p :: more) after' →
        titleOf? p = none → max limit 1 < byteLength c.text.toList + 2 + byteLength p := by
  refine ⟨?_, ?_, ?_, ?_⟩
  · intro before para after hparas hshort
    exact exists_chunk_of_short path limit hparas hshort
  · intro ahead c behind hchunks
    exact holds_or_cut hchunks
  · intro before para after hparas hlong
    obtain ⟨ahead, pieces, behind, hchunks, hplace, hpieces, -⟩ := chunks_of_long path hparas hlong
    refine ⟨ahead, pieces, behind, hchunks, hplace, hpieces, ?_⟩
    rw [visible_flatMap, ← visible_cutPieces (max limit 1) para, ← hpieces, List.flatMap_map]
  · intro ahead c c' behind hchunks before group after before' p more after' hc hc' hp
    exact full_of_neighbours hchunks hc hc' hp

/-- There is no room for the third paragraph. -/
example : (chunks "d" "one\n\ntwo\n\nthree" 8).map Chunk.text = ["one\n\ntwo", "three"] := by
  decide +kernel

end DocWatch
