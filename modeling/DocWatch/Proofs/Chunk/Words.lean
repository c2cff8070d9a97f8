import DocWatch.Proofs.Chunk.Contents
import DocWatch.Proofs.Chunk.Cutting
import DocWatch.Proofs.Index.Terms
import DocWatch.Proofs.Text.Run

/-!
# Words come through chunking whole

Between two gaps stands a word. A word within the limit is never cut: it lies in one
paragraph, a paragraph is cut behind a gap or inside of a word beyond the limit, and
what trimming takes off a word is white space, which ends no term. So a term that is
spelled in such a word of a document is spelled in a chunk of the document, although
longer words may fall apart on the way and leave shorter ones behind.
-/

namespace DocWatch

open Text

/-- A term is spelled in a word of at most `limit` bytes. -/
def HasTerm (limit : Nat) (term s : List Char) : Prop :=
  ∃ before word after, s = before ++ word ++ after ∧
    MaximalRun (fun c => !isGap c) before word after ∧
    byteLength word ≤ limit ∧ term ∈ spelledTerms word

variable {limit : Nat} {term s front back para : List Char} {c : Char}
  {more : List (List Char)}

theorem not_hasTerm_nil : ¬ HasTerm limit term [] := by
  rintro ⟨before, word, after, hs, -, -, hterm⟩
  have hword : word = [] := by
    have := congrArg List.length hs
    simp only [List.length_nil, List.length_append] at this
    exact List.eq_nil_of_length_eq_zero (by omega)
  rw [hword, spelledTerms_nil] at hterm
  cases hterm

theorem not_termChar_of_isGap (hc : isGap c = true) : isTermChar c = false := by
  have hgap : c = ' ' ∨ c = '\n' := by simpa [isGap] using hc
  rcases hgap with rfl | rfl <;> exact not_termChar_of_isBlank (by decide)

theorem HasTerm.mem_spelledTerms (h : HasTerm limit term s) : term ∈ spelledTerms s := by
  obtain ⟨before, word, after, rfl, hrun, -, hterm⟩ := h
  have hgap : ∀ c, (!isGap c) = false → isTermChar c = false := fun c hc =>
    not_termChar_of_isGap (by simpa using hc)
  rw [spelledTerms_around (fun c hc => hgap c (hrun.front c hc))
    fun c hc => hgap c (hrun.back c hc)]
  simp [hterm]

/-! ## Texts that are divided

A character that ends terms leaves every term on one side. If it is a gap, it also
leaves the words on either side as they are. -/

theorem HasTerm.of_break (hc : isTermChar c = false) (h : HasTerm limit term (front ++ c :: back)) :
    HasTerm limit term front ∨ HasTerm limit term back := by
  obtain ⟨before, word, after, hs, hrun, hlen, hterm⟩ := h
  rcases hrun.around hs with ⟨rest, -, hback, hrest⟩ | ⟨l, r, rfl, hfront, hback, hl, hr⟩ |
    ⟨rest, -, hfront, hrest⟩
  · exact .inr ⟨rest, word, after, hback, hrest, hlen, hterm⟩
  · rw [byteLength_append, byteLength_cons] at hlen
    rw [spelledTerms_break hc, List.mem_append] at hterm
    rcases hterm with hterm | hterm
    · exact .inl ⟨before, l, [], by simp [hfront], hl, by omega, hterm⟩
    · exact .inr ⟨[], r, after, by simp [hback], hr, by omega, hterm⟩
  · exact .inl ⟨before, word, rest, hfront, hrest, hlen, hterm⟩

theorem HasTerm.append_gap (hc : isGap c = true) (h : HasTerm limit term front) :
    HasTerm limit term (front ++ c :: back) := by
  obtain ⟨before, word, after, rfl, hrun, hlen, hterm⟩ := h
  refine ⟨before, word, after ++ c :: back, by simp, ⟨hrun.within, hrun.front, ?_⟩, hlen, hterm⟩
  intro x hx
  cases after with
  | nil =>
      cases hx
      simp [hc]
  | cons y rest => exact hrun.back x hx

theorem HasTerm.gap_append (hc : isGap c = true) (h : HasTerm limit term back) :
    HasTerm limit term (front ++ c :: back) := by
  obtain ⟨before, word, after, rfl, hrun, hlen, hterm⟩ := h
  refine ⟨front ++ c :: before, word, after, by simp, ⟨hrun.within, ?_, hrun.back⟩, hlen, hterm⟩
  intro x hx
  rcases List.eq_nil_or_concat before with rfl | ⟨rest, y, rfl⟩
  · simp at hx
    simp [← hx, hc]
  · refine hrun.front x ?_
    simpa [List.getLast?_append, List.getLast?_cons] using hx

theorem HasTerm.of_cons_break (hc : isTermChar c = false) (h : HasTerm limit term (c :: back)) :
    HasTerm limit term back := by
  rw [← List.nil_append (c :: back)] at h
  rcases h.of_break hc with h | h
  · exact absurd h not_hasTerm_nil
  · exact h

theorem HasTerm.cons_gap (hc : isGap c = true) (h : HasTerm limit term back) :
    HasTerm limit term (c :: back) := by
  rw [← List.nil_append (c :: back)]
  exact h.gap_append hc

theorem hasTerm_breaks : HasTerm limit term (front ++ '\n' :: '\n' :: back) ↔
    HasTerm limit term front ∨ HasTerm limit term back := by
  have hfeed : isTermChar '\n' = false := not_termChar_of_isGap rfl
  constructor
  · intro h
    rcases h.of_break hfeed with h | h
    · exact .inl h
    · exact .inr (h.of_cons_break hfeed)
  · rintro (h | h)
    · exact h.append_gap rfl
    · exact (h.cons_gap rfl).gap_append rfl

theorem hasTerm_joined :
    HasTerm limit term (joined para more) ↔
      HasTerm limit term para ∨ ∃ next ∈ more, HasTerm limit term next := by
  induction more using List.reverseRecOn with
  | nil => simp
  | append_singleton more next ih =>
      rw [joined_concat, hasTerm_breaks, ih]
      simp [or_assoc]

theorem HasTerm.of_blanks_append (hfront : ∀ c ∈ front, isBlank c = true)
    (h : HasTerm limit term (front ++ s)) : HasTerm limit term s := by
  induction front with
  | nil => exact h
  | cons c rest ih =>
      have hc := not_termChar_of_isBlank (hfront c List.mem_cons_self)
      exact ih (fun x hx => hfront x (List.mem_cons_of_mem _ hx)) (h.of_cons_break hc)

theorem HasTerm.of_append_blanks (hback : ∀ c ∈ back, isBlank c = true)
    (h : HasTerm limit term (s ++ back)) : HasTerm limit term s := by
  cases back with
  | nil => simpa using h
  | cons c rest =>
      rcases h.of_break (not_termChar_of_isBlank (hback c List.mem_cons_self)) with h | h
      · exact h
      · have hnone : HasTerm limit term [] :=
          .of_blanks_append (fun x hx => hback x (List.mem_cons_of_mem _ hx)) (by simpa using h)
        exact absurd hnone not_hasTerm_nil

theorem HasTerm.trim (h : HasTerm limit term s) : HasTerm limit term (Text.trim s) := by
  obtain ⟨front, back, hsplit, hfront, hback⟩ := exists_trim s
  rw [hsplit] at h
  exact (h.of_append_blanks hback).of_blanks_append hfront

/-! ## Paragraphs, pieces and segments -/

theorem HasTerm.paragraphs (h : HasTerm limit term s) :
    ∃ para ∈ paragraphs s, HasTerm limit term para := by
  obtain ⟨piece, more, hpieces, hjoined⟩ := exists_joined s
  obtain ⟨piece', hmem, h⟩ : ∃ piece' ∈ piece :: more, HasTerm limit term piece' := by
    rw [hjoined, hasTerm_joined] at h
    simpa using h
  have hne : Text.trim piece' ≠ [] := fun hnil => not_hasTerm_nil (hnil ▸ h.trim)
  refine ⟨Text.trim piece', ?_, h.trim⟩
  rw [DocWatch.paragraphs, List.mem_filter, hpieces]
  exact ⟨List.mem_map_of_mem hmem, by simpa using hne⟩

/-- A cut through a word leaves every term on one side that is spelled in a word within
the limit: the word that is cut is the first one, and it is longer. -/
theorem HasTerm.of_long (hfree : ∀ x ∈ front, isGap x = false)
    (hlong : limit < byteLength (front ++ [c])) (h : HasTerm limit term (front ++ c :: back)) :
    HasTerm limit term front ∨ (HasTerm limit term (c :: back) ∧ HasTerm limit term back) := by
  obtain ⟨before, word, after, hs, hrun, hlen, hterm⟩ := h
  rcases hrun.around hs with ⟨rest, rfl, hback, hrest⟩ | ⟨l, r, rfl, hfront, hback, -, -⟩ |
    ⟨rest, -, hfront, hrest⟩
  · refine .inr ⟨⟨c :: rest, word, after, by simp [hback], ⟨hrun.within, ?_, hrun.back⟩, hlen,
      hterm⟩, rest, word, after, hback, hrest, hlen, hterm⟩
    intro x hx
    exact hrun.front x (by simpa [List.getLast?_append, List.getLast?_cons] using hx)
  · have hbefore : before = [] := by
      rcases List.eq_nil_or_concat before with hnil | ⟨rest, x, rfl⟩
      · exact hnil
      · have hgap := hrun.front x (by simp)
        rw [hfree x (by simp [hfront])] at hgap
        cases hgap
    subst hbefore
    rw [hfront, List.nil_append] at hlong
    rw [List.append_cons, byteLength_append] at hlen
    omega
  · exact .inl ⟨before, word, rest, hfront, hrest, hlen, hterm⟩

theorem HasTerm.cut (hcut : Cut limit s front back) (h : HasTerm limit term s) :
    HasTerm limit term front ∨ HasTerm limit term back := by
  cases hcut with
  | whole => exact .inl h
  | gap hc =>
      rcases h.of_break (not_termChar_of_isGap hc) with h | h
      · exact .inl (h.append_gap hc)
      · exact .inr h
  | word hfree hlong =>
      rcases h.of_long hfree hlong with h | ⟨h, -⟩
      · exact .inl h
      · exact .inr h
  | single hlong =>
      have hnil : ∀ x ∈ ([] : List Char), isGap x = false := nofun
      rw [← List.nil_append (_ :: back)] at h
      rcases h.of_long hnil hlong with h | ⟨-, h⟩
      · exact absurd h not_hasTerm_nil
      · exact .inr h

theorem HasTerm.cutPieces (h : HasTerm limit term s) :
    ∃ piece ∈ cutPieces limit s, HasTerm limit term piece := by
  induction s using cutPieces.induct limit with
  | case1 => exact absurd h not_hasTerm_nil
  | case2 s hs piece hblank ih =>
      rw [DocWatch.cutPieces, dif_neg hs, if_pos hblank]
      rcases h.cut (cut_cutOnce limit s) with h | h
      · -- a blank front has no term
        have hnone : HasTerm limit term piece := h.trim
        rw [hblank] at hnone
        exact absurd hnone not_hasTerm_nil
      · exact ih h
  | case3 s hs piece hpiece ih =>
      rw [DocWatch.cutPieces, dif_neg hs, if_neg hpiece]
      rcases h.cut (cut_cutOnce limit s) with h | h
      · exact ⟨piece, List.mem_cons_self, h.trim⟩
      · obtain ⟨other, hmem, hother⟩ := ih h
        exact ⟨other, List.mem_cons_of_mem _ hmem, hother⟩

theorem Laid.exists_hasTerm {heading : Option (List Char)} {paras : List (List Char)}
    {segments : List Segment} (hlaid : Laid limit heading paras segments)
    (h : ∃ para ∈ paras, HasTerm limit term para) :
    ∃ s ∈ segments, HasTerm limit term s.text := by
  induction hlaid with
  | nil =>
      obtain ⟨para, hpara, -⟩ := h
      cases hpara
  | @cut heading para rest behind _ _ ih =>
      rw [List.exists_mem_cons_iff] at h
      rcases h with h | h
      · obtain ⟨piece, hpiece, hterm⟩ := h.cutPieces
        exact ⟨⟨(titleOf? para).or heading, piece⟩,
          List.mem_append_left _ (List.mem_map_of_mem hpiece), hterm⟩
      · obtain ⟨s, hs, hterm⟩ := ih h
        exact ⟨s, List.mem_append_right _ hs, hterm⟩
  | @joined heading para more rest behind _ _ _ _ ih =>
      rw [List.exists_mem_cons_iff]
      by_cases hjoined : HasTerm limit term (DocWatch.joined para more)
      · exact .inl hjoined
      · rw [hasTerm_joined, not_or] at hjoined
        obtain ⟨next, hnext, hterm⟩ := h
        refine .inr (ih ⟨next, ?_, hterm⟩)
        rcases List.mem_cons.1 hnext with rfl | hnext
        · exact absurd hterm hjoined.1
        · rcases List.mem_append.1 hnext with hmore | hrest
          · exact absurd ⟨next, hmore, hterm⟩ hjoined.2
          · exact hrest

theorem HasTerm.segments (h : HasTerm (max limit 1) term s) :
    ∃ segment ∈ segments limit s, HasTerm (max limit 1) term segment.text := by
  have hlaid := laid_segmentsFrom (max limit 1) none (DocWatch.paragraphs s)
  obtain ⟨segment, hsegment, hterm⟩ := hlaid.exists_hasTerm h.paragraphs
  refine ⟨segment, ?_, hterm⟩
  rw [DocWatch.segments]
  split
  · rename_i hnil
    rw [hnil] at hsegment
    cases hsegment
  · exact hsegment

end DocWatch
