import DocWatch.Proofs.Chunk.Layout
import DocWatch.Proofs.Text.Trim

/-!
# Chunks keep the contents of a document

On its way into chunks a text is divided at blank lines, trimmed, cut and put
together again. White space comes and goes at every one of these places, and
nothing else does: the characters that can be seen are the same ones, in the same
order, at every stage.
-/

namespace DocWatch

/-- The characters of a text that are not white space. -/
def visible (s : List Char) : List Char :=
  s.filter fun c => !Text.isBlank c

theorem visible_append (front back : List Char) :
    visible (front ++ back) = visible front ++ visible back :=
  List.filter_append front back

theorem visible_of_blank {s : List Char} (h : ∀ c ∈ s, Text.isBlank c = true) :
    visible s = [] := by
  rw [visible, List.filter_eq_nil_iff]
  intro c hc
  simp [h c hc]

theorem visible_flatMap {α : Type} (texts : List α) (text : α → List Char) :
    visible (texts.flatMap text) = texts.flatMap fun t => visible (text t) := by
  induction texts with
  | nil => rfl
  | cons t rest ih => rw [List.flatMap_cons, List.flatMap_cons, visible_append, ih]

theorem visible_trim (s : List Char) : visible (Text.trim s) = visible s := by
  obtain ⟨front, back, hsplit, hfront, hback⟩ := Text.exists_trim s
  conv_rhs => rw [hsplit]
  rw [visible_append, visible_append, visible_of_blank hfront, visible_of_blank hback]
  simp

theorem visible_breaks (s : List Char) : visible ('\n' :: '\n' :: s) = visible s := by
  have hblank : visible ['\n', '\n'] = [] := by decide
  show visible (['\n', '\n'] ++ s) = visible s
  rw [visible_append, hblank, List.nil_append]

theorem visible_joined (para : List Char) (more : List (List Char)) :
    visible (joined para more) = visible para ++ more.flatMap visible := by
  simp only [joined, visible_append, visible_flatMap, visible_breaks]

/-! ## What is read piece by piece

Whatever ignores white space at the ends of a text, and reads paragraphs one after the
other, reads the same from the paragraphs of a document, from their pieces and from its
segments. -/

/-- What is read off a text piece by piece. -/
structure Piecewise {β : Type} (f : List Char → List β) : Prop where
  nil : f [] = []
  trim : ∀ s, f (Text.trim s) = f s
  joined : ∀ para more, f (joined para more) = f para ++ more.flatMap f

/-- The pieces of a text make up the text again. -/
theorem exists_joined (s : List Char) :
    ∃ piece more, betweenBlankLines s = piece :: more ∧ s = joined piece more := by
  induction s using betweenBlankLines.induct with
  | case1 => exact ⟨[], [], rfl, rfl⟩
  | case2 rest ih =>
      obtain ⟨piece, more, hpieces, hrest⟩ := ih
      refine ⟨[], piece :: more, by rw [betweenBlankLines, hpieces], ?_⟩
      conv_lhs => rw [hrest]
      simp [joined]
  | case3 c rest _ hnil ih =>
      obtain ⟨piece, more, hpieces, -⟩ := ih
      rw [hnil] at hpieces
      cases hpieces
  | case4 c rest hbreak piece more hpieces ih =>
      obtain ⟨piece', more', hpieces', hrest⟩ := ih
      rw [hpieces] at hpieces'
      cases hpieces'
      refine ⟨c :: piece, more, by rw [betweenBlankLines.eq_3 c rest hbreak, hpieces], ?_⟩
      conv_lhs => rw [hrest]
      simp [joined]

theorem isInfix_of_mem_paragraphs {s para : List Char} (h : para ∈ paragraphs s) : para <:+: s := by
  obtain ⟨piece, more, hpieces, hjoined⟩ := exists_joined s
  obtain ⟨hmem, -⟩ := List.mem_filter.1 h
  rw [hpieces] at hmem
  obtain ⟨next, hnext, rfl⟩ := List.mem_map.1 hmem
  rw [hjoined]
  exact (Text.isInfix_trim next).trans (isInfix_joined hnext)

namespace Piecewise

variable {β : Type} {f : List Char → List β} {limit : Nat}

theorem paragraphs (hf : Piecewise f) (s : List Char) : (paragraphs s).flatMap f = f s := by
  obtain ⟨piece, more, hpieces, hjoined⟩ := exists_joined s
  have hkept : (DocWatch.paragraphs s).flatMap f =
      ((betweenBlankLines s).map Text.trim).flatMap f := by
    rw [DocWatch.paragraphs]
    induction (betweenBlankLines s).map Text.trim with
    | nil => rfl
    | cons t rest ih =>
        rw [List.filter_cons, List.flatMap_cons]
        split
        · rw [List.flatMap_cons, ih]
        · rename_i hblank
          have ht : t = [] := by simpa using hblank
          rw [ih, ht, hf.nil, List.nil_append]
  conv_rhs => rw [hjoined]
  rw [hkept, hpieces, hf.joined, List.flatMap_map, List.flatMap_cons, hf.trim]
  simp only [hf.trim]

/-- A text is read from its pieces where no cut changes what is read. -/
theorem cutPieces (hf : Piecewise f) {s : List Char}
    (hcut : ∀ rest, rest <:+ s → f (cutOnce limit rest).1 ++ f (cutOnce limit rest).2 = f rest) :
    (cutPieces limit s).flatMap f = f s := by
  induction s using cutPieces.induct limit with
  | case1 => simp [DocWatch.cutPieces, hf.nil]
  | case2 s hs piece hblank ih =>
      have hrest := ih fun rest h => hcut rest (h.trans ⟨_, cutOnce_append limit s⟩)
      have hnone : f (cutOnce limit s).1 = [] := by
        rw [← hf.trim, ← hf.nil]
        exact congrArg f hblank
      rw [DocWatch.cutPieces, dif_neg hs, if_pos hblank, hrest, ← hcut s List.suffix_rfl, hnone,
        List.nil_append]
  | case3 s hs piece hpiece ih =>
      have hrest := ih fun rest h => hcut rest (h.trans ⟨_, cutOnce_append limit s⟩)
      rw [DocWatch.cutPieces, dif_neg hs, if_neg hpiece, List.flatMap_cons, hrest, hf.trim,
        hcut s List.suffix_rfl]

theorem laid (hf : Piecewise f) {heading : Option (List Char)} {paras : List (List Char)}
    {segments : List Segment} (h : Laid limit heading paras segments)
    (hcut : ∀ para ∈ paras, (DocWatch.cutPieces limit para).flatMap f = f para) :
    segments.flatMap (fun s => f s.text) = paras.flatMap f := by
  induction h with
  | nil => rfl
  | @cut heading para rest behind _ _ ih =>
      rw [List.flatMap_append, List.flatMap_map, hcut para List.mem_cons_self,
        ih fun p hp => hcut p (List.mem_cons_of_mem _ hp), List.flatMap_cons]
  | @joined heading para more rest behind _ _ _ _ ih =>
      rw [List.flatMap_cons, hf.joined, List.flatMap_cons, List.flatMap_append, List.append_assoc,
        ih fun p hp => hcut p (List.mem_cons_of_mem _ (List.mem_append_right _ hp))]

theorem segments (hf : Piecewise f) {s : List Char}
    (hcut : ∀ para ∈ DocWatch.paragraphs s,
      (DocWatch.cutPieces (max limit 1) para).flatMap f = f para) :
    (segments limit s).flatMap (fun s => f s.text) = f s := by
  have hlaid := hf.laid (laid_segmentsFrom (max limit 1) none (DocWatch.paragraphs s)) hcut
  rw [hf.paragraphs] at hlaid
  rw [DocWatch.segments]
  split
  · -- no paragraph at all, so there is nothing to read
    rename_i hnone
    rw [hnone] at hlaid
    rw [List.flatMap_singleton, hf.trim]
  · exact hlaid

end Piecewise

theorem piecewise_visible : Piecewise visible where
  nil := rfl
  trim := visible_trim
  joined := visible_joined

theorem visible_paragraphs (s : List Char) : (paragraphs s).flatMap visible = visible s :=
  piecewise_visible.paragraphs s

theorem visible_cutPieces (limit : Nat) (s : List Char) :
    (cutPieces limit s).flatMap visible = visible s :=
  piecewise_visible.cutPieces fun rest _ => by rw [← visible_append, cutOnce_append]

theorem Laid.visible_eq {limit : Nat} {heading : Option (List Char)} {paras : List (List Char)}
    {segments : List Segment} (h : Laid limit heading paras segments) :
    segments.flatMap (fun s => visible s.text) = paras.flatMap visible :=
  piecewise_visible.laid h fun para _ => visible_cutPieces limit para

theorem visible_segments (limit : Nat) (text : List Char) :
    (segments limit text).flatMap (fun s => visible s.text) = visible text :=
  piecewise_visible.segments fun para _ => visible_cutPieces (max limit 1) para

/-! ## Chunks -/

theorem map_text_chunks (path text : String) (limit : Nat) :
    (chunks path text limit).map (fun c => c.text.toList) =
      (segments limit text.toList).map Segment.text := by
  rw [chunks, List.map_map]
  conv_rhs => rw [← List.zipIdx_map_fst 0 (segments limit text.toList), List.map_map]
  refine List.map_congr_left fun s _ => ?_
  simp [Segment.toChunk]

theorem flatMap_chunks {β : Type} (f : List Char → List β) (path text : String) (limit : Nat) :
    (chunks path text limit).flatMap (fun c => f c.text.toList) =
      (segments limit text.toList).flatMap fun s => f s.text := by
  have htexts := congrArg (List.flatMap f) (map_text_chunks path text limit)
  rwa [List.flatMap_map, List.flatMap_map] at htexts

theorem map_index_chunks (path text : String) (limit : Nat) :
    (chunks path text limit).map Chunk.index = List.range (chunks path text limit).length := by
  rw [chunks, List.map_map, List.length_map, List.length_zipIdx, List.range_eq_range']
  exact List.zipIdx_map_snd 0 (segments limit text.toList)

/-- Chunks are numbered in order, and one after the other they hold what can be seen of
the document: nothing is lost, doubled or moved. -/
theorem contents_of_chunks (path text : String) (limit : Nat) :
    (chunks path text limit).map Chunk.index = List.range (chunks path text limit).length ∧
      visible ((chunks path text limit).flatMap fun c => c.text.toList) =
        visible text.toList := by
  refine ⟨map_index_chunks path text limit, ?_⟩
  calc visible ((chunks path text limit).flatMap fun c => c.text.toList)
      = visible (((chunks path text limit).map fun c => c.text.toList).flatten) := by
        rw [List.flatMap_def]
    _ = visible ((segments limit text.toList).flatMap Segment.text) := by
        rw [map_text_chunks, List.flatMap_def]
    _ = (segments limit text.toList).flatMap fun s => visible s.text :=
        visible_flatMap _ _
    _ = visible text.toList := visible_segments limit text.toList

end DocWatch
