import DocWatch.Proofs.Chunk.Contents
import DocWatch.Proofs.Chunk.Offsets

/-!
# The shape of chunks

A chunk has something to show and no white space at either end, and it stays within the
limit unless it is a single character that is wider than that. A growing segment keeps
to this since a paragraph is taken up only where it fits, and a piece of a long paragraph
since each cut lies within the limit; trimming makes nothing longer. The one exception
is a document of white space, which has a single empty chunk so that it can be found by
its name at all.
-/

namespace DocWatch

open Text

variable {limit : Nat} {s front back para piece : List Char} {more paras : List (List Char)}

/-- A text within a limit of bytes, or one character that alone is beyond it. -/
def Fits (limit : Nat) (s : List Char) : Prop :=
  byteLength s ≤ limit ∨ ∃ c, s = [c] ∧ limit < c.utf8Size

/-- A text that can stand as a chunk. -/
structure WellShaped (limit : Nat) (s : List Char) : Prop where
  fits : Fits limit s
  nonempty : s ≠ []
  bare : Bare isBlank s

/-! ## Pieces -/

theorem cutOnce_isPrefix (htake : takeBytes limit s = (front, back)) (hfront : front ≠ [])
    (hback : back ≠ []) : (cutOnce limit s).1 <+: front := by
  rw [cutOnce_of_takeBytes htake hfront hback]
  cases hcut : (cutAfterLast? '\n' front).or (cutAfterLast? ' ' front) with
  | none => exact List.prefix_rfl
  | some cut =>
      have hsplit : cut.1 ++ cut.2 = front := by
        rcases Option.or_eq_some_iff.1 hcut with hfeed | ⟨-, hspace⟩
        · exact (cutAfterLast?_append hfeed).1
        · exact (cutAfterLast?_append hspace).1
      exact ⟨cut.2, hsplit⟩

theorem fits_cutOnce (limit : Nat) (s : List Char) : Fits limit (cutOnce limit s).1 := by
  have hlength := byteLength_takeBytes_le limit s
  cases htake : takeBytes limit s with
  | mk front back =>
      rw [htake] at hlength
      rcases eq_or_ne back [] with rfl | hback
      · rw [cutOnce, htake]
        exact .inl hlength
      rcases eq_or_ne front [] with rfl | hfront
      · obtain ⟨c, rest, rfl⟩ := List.exists_cons_of_ne_nil hback
        have hlong := takeBytes_maximal htake
        rw [cutOnce, htake]
        exact .inr ⟨c, rfl, hlong⟩
      · obtain ⟨left, hsplit⟩ := cutOnce_isPrefix htake hfront hback
        have hfront : byteLength front ≤ limit := hlength
        rw [← hsplit, byteLength_append] at hfront
        exact .inl (Nat.le_trans (Nat.le_add_right _ _) hfront)

theorem Fits.trim (h : Fits limit s) (hne : Text.trim s ≠ []) : Fits limit (Text.trim s) := by
  obtain ⟨front, back, hsplit, -, -⟩ := exists_trim s
  rcases h with h | ⟨c, rfl, hlong⟩
  · left
    rw [hsplit, byteLength_append, byteLength_append] at h
    omega
  · right
    refine ⟨c, ?_, hlong⟩
    have hlength := congrArg List.length hsplit
    have hpos := List.length_pos_iff.2 hne
    rw [List.length_append, List.length_append, List.length_singleton] at hlength
    have hfront := List.eq_nil_of_length_eq_zero (show front.length = 0 by omega)
    have hback := List.eq_nil_of_length_eq_zero (show back.length = 0 by omega)
    rw [hfront, hback, List.nil_append, List.append_nil] at hsplit
    exact hsplit.symm

theorem wellShaped_of_mem_cutPieces (h : piece ∈ cutPieces limit s) : WellShaped limit piece := by
  induction s using cutPieces.induct limit with
  | case1 =>
      rw [cutPieces, dif_pos rfl] at h
      cases h
  | case2 s hs cut hblank ih =>
      rw [cutPieces, dif_neg hs, if_pos hblank] at h
      exact ih h
  | case3 s hs cut hcut ih =>
      rw [cutPieces, dif_neg hs, if_neg hcut] at h
      rcases List.mem_cons.1 h with rfl | h
      · exact ⟨(fits_cutOnce limit s).trim hcut, hcut, bare_trimBy _⟩
      · exact ih h

/-! ## Paragraphs and segments -/

theorem bare_of_mem_paragraphs (h : para ∈ paragraphs s) : para ≠ [] ∧ Bare isBlank para := by
  obtain ⟨hmem, hne⟩ := List.mem_filter.1 h
  obtain ⟨piece, -, rfl⟩ := List.mem_map.1 hmem
  exact ⟨of_decide_eq_true hne, bare_trimBy piece⟩

theorem visible_ne_nil (hne : s ≠ []) (hfront : ∀ c ∈ s.head?, isBlank c = false) :
    visible s ≠ [] := by
  obtain ⟨c, rest, rfl⟩ := List.exists_cons_of_ne_nil hne
  have hc : isBlank c = false := hfront c rfl
  rw [visible, List.filter_cons_of_pos (by simp [hc])]
  exact List.cons_ne_nil _ _

theorem visible_of_mem_paragraphs (h : para ∈ paragraphs s) : visible para ≠ [] := by
  obtain ⟨hne, hbare⟩ := bare_of_mem_paragraphs h
  exact visible_ne_nil hne hbare.front

theorem bare_joined (hpara : para ≠ [] ∧ Bare isBlank para)
    (hmore : ∀ next ∈ more, next ≠ [] ∧ Bare isBlank next) :
    joined para more ≠ [] ∧ Bare isBlank (joined para more) := by
  obtain ⟨hne, hbare⟩ := hpara
  refine ⟨?_, ?_, ?_⟩
  · intro hnil
    exact hne (List.append_eq_nil_iff.1 hnil).1
  · rw [joined, List.head?_append_of_ne_nil _ hne]
    exact hbare.front
  · rcases List.eq_nil_or_concat more with rfl | ⟨init, last, rfl⟩
    · rw [joined_nil]
      exact hbare.back
    · obtain ⟨hlast, hend⟩ := hmore last (by simp)
      rw [List.concat_eq_append, joined_concat, List.append_cons, List.append_cons,
        List.getLast?_append_of_ne_nil _ hlast]
      exact hend.back

theorem Laid.wellShaped {heading : Option (List Char)} {segments : List Segment}
    (h : Laid limit heading paras segments)
    (hparas : ∀ para ∈ paras, para ≠ [] ∧ Bare isBlank para) :
    ∀ s ∈ segments, WellShaped limit s.text := by
  induction h with
  | nil => intro s hs; cases hs
  | @cut heading para rest behind _ _ ih =>
      intro s hs
      rcases List.mem_append.1 hs with hs | hs
      · obtain ⟨piece, hpiece, rfl⟩ := List.mem_map.1 hs
        exact wellShaped_of_mem_cutPieces hpiece
      · exact ih (fun p hp => hparas p (List.mem_cons_of_mem _ hp)) s hs
  | @joined heading para more rest behind _ fits _ _ ih =>
      intro s hs
      rcases List.mem_cons.1 hs with rfl | hs
      · obtain ⟨hne, hbare⟩ := bare_joined (hparas para List.mem_cons_self) fun p hp =>
          hparas p (List.mem_cons_of_mem _ (List.mem_append_left _ hp))
        exact ⟨.inl fits, hne, hbare⟩
      · exact ih (fun p hp => hparas p (List.mem_cons_of_mem _ (List.mem_append_right _ hp))) s hs

theorem paragraphs_eq_nil_iff : paragraphs s = [] ↔ ∀ c ∈ s, isBlank c = true := by
  have hvisible : (∀ c ∈ s, isBlank c = true) ↔ visible s = [] := by
    simp [visible, List.filter_eq_nil_iff]
  rw [hvisible, ← visible_paragraphs]
  cases hparas : paragraphs s with
  | nil => simp
  | cons para rest => simp [visible_of_mem_paragraphs (hparas ▸ List.mem_cons_self)]

/-- A blank text has no layout, but one empty segment. -/
theorem segments_of_blank (h : ∀ c ∈ s, isBlank c = true) : segments limit s = [⟨none, []⟩] := by
  have htrim : Text.trim s = [] := by
    have := @trimBy_around isBlank [] s [] ⟨nofun, nofun⟩ h nofun
    rwa [List.append_nil, List.append_nil] at this
  rw [segments, paragraphs_eq_nil_iff.2 h, segmentsFrom, Option.toList_none]
  show [Segment.mk none (Text.trim s)] = _
  rw [htrim]

theorem laid_segments (h : paragraphs s ≠ []) :
    Laid (max limit 1) none (paragraphs s) (segments limit s) := by
  have hlaid := laid_segmentsFrom (max limit 1) none (paragraphs s)
  rw [segments]
  split
  · rename_i hnone
    -- something can be seen of the paragraphs, so they are laid out in some segment
    have hvisible := hlaid.visible_eq
    rw [hnone, visible_paragraphs] at hvisible
    refine absurd (paragraphs_eq_nil_iff.2 fun c hc => ?_) h
    have hnot := List.filter_eq_nil_iff.1 hvisible.symm c hc
    simpa using hnot
  · exact hlaid

/-! ## Chunks -/

theorem getElem?_chunks (path text : String) (limit i : Nat) :
    (chunks path text limit)[i]? = (segments limit text.toList)[i]?.map (·.toChunk path i) := by
  rw [chunks, List.getElem?_map, List.getElem?_zipIdx, Option.map_map]
  cases (segments limit text.toList)[i]? with
  | none => rfl
  | some s => simp

theorem exists_segment_of_mem {path text : String} {c : Chunk} (h : c ∈ chunks path text limit) :
    ∃ s ∈ segments limit text.toList, c.text.toList = s.text := by
  have hmem : c.text.toList ∈ (chunks path text limit).map fun c => c.text.toList :=
    List.mem_map_of_mem h
  rw [map_text_chunks] at hmem
  obtain ⟨s, hs, heq⟩ := List.mem_map.1 hmem
  exact ⟨s, hs, heq.symm⟩

theorem segments_ne_nil (limit : Nat) (s : List Char) : segments limit s ≠ [] := by
  rw [segments]
  split
  · exact List.cons_ne_nil _ _
  · rename_i hne
    exact hne

theorem chunks_ne_nil (path text : String) (limit : Nat) : chunks path text limit ≠ [] := by
  intro hnil
  have htexts := map_text_chunks path text limit
  rw [hnil] at htexts
  exact segments_ne_nil limit text.toList (List.map_eq_nil_iff.1 htexts.symm)

theorem chunks_of_blank {path text : String} (h : isBlankText text = true) :
    chunks path text limit = [⟨path, 0, none, ""⟩] := by
  rw [chunks, segments_of_blank (List.all_eq_true.1 h)]
  rfl

theorem wellShaped_of_mem_chunks {path text : String} {c : Chunk}
    (h : isBlankText text = false) (hc : c ∈ chunks path text limit) :
    WellShaped (max limit 1) c.text.toList := by
  have hparas : paragraphs text.toList ≠ [] := by
    rw [ne_eq, paragraphs_eq_nil_iff, ← List.all_eq_true]
    exact Bool.eq_false_iff.1 h
  obtain ⟨s, hs, htext⟩ := exists_segment_of_mem hc
  rw [htext]
  exact (laid_segments hparas).wellShaped (fun _ => bare_of_mem_paragraphs) s hs

theorem visible_of_mem_chunks {path text : String} {c : Chunk} (h : c ∈ chunks path text limit)
    (hsome : paragraphs text.toList ≠ []) : visible c.text.toList ≠ [] := by
  have hblank : isBlankText text = false := by
    rw [ne_eq, paragraphs_eq_nil_iff, ← List.all_eq_true] at hsome
    exact Bool.eq_false_iff.2 hsome
  have hshape := wellShaped_of_mem_chunks hblank h
  exact visible_ne_nil hshape.nonempty hshape.bare.front

/-- No slice is refused on the way, and a paragraph is cut in no more rounds than it has
characters. A document has at least one chunk, and its chunks are numbered and named in
order. Each is within the limit or a single character that is not, and each has something
to show and no white space at its ends, but for the one empty chunk of a blank document. -/
theorem chunks_wellShaped (path text : String) (limit : Nat) :
    (∀ para, titleByOffset? para = some (titleOf? para) ∧
      piecesByOffset? (max limit 1) para.length para = some (cutPieces (max limit 1) para)) ∧
    chunks path text limit ≠ [] ∧
    (∀ (i : Nat) (c : Chunk), (chunks path text limit)[i]? = some c →
      c.path = path ∧ c.index = i ∧ c.id = path ++ "#" ++ toString i) ∧
    (∀ c ∈ chunks path text limit, byteLength c.text.toList ≤ max limit 1 ∨
      ∃ x, c.text.toList = [x] ∧ max limit 1 < x.utf8Size) ∧
    (isBlankText text = true → chunks path text limit = [⟨path, 0, none, ""⟩]) ∧
    (isBlankText text = false →
      ∀ c ∈ chunks path text limit, c.text ≠ "" ∧ Bare isBlank c.text.toList) := by
  refine ⟨?_, chunks_ne_nil path text limit, ?_, ?_, chunks_of_blank, ?_⟩
  · intro para
    exact ⟨titleByOffset?_eq para, piecesByOffset?_eq (Nat.le_refl _)⟩
  · intro i c hc
    rw [getElem?_chunks] at hc
    obtain ⟨s, -, rfl⟩ := Option.map_eq_some_iff.1 hc
    exact ⟨rfl, rfl, rfl⟩
  · intro c hc
    cases hblank : isBlankText text with
    | true =>
        rw [chunks_of_blank hblank, List.mem_singleton] at hc
        rw [hc]
        exact .inl (Nat.zero_le _)
    | false => exact (wellShaped_of_mem_chunks hblank hc).fits
  · intro hblank c hc
    have hshape := wellShaped_of_mem_chunks hblank hc
    refine ⟨?_, hshape.bare⟩
    intro hempty
    exact hshape.nonempty (String.toList_eq_nil_iff.2 hempty)

end DocWatch
