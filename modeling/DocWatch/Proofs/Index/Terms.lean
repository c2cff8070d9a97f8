import DocWatch.Index.Token
import DocWatch.Proofs.Text.Run
import DocWatch.Proofs.Text.Trim

/-!
# Terms of texts put together

A character that may not stand in a term ends the term before it, wherever it
stands. So the terms of a text that is broken at such a character are those of the
two sides, and everything else about the terms of a text follows from this one
equation.
-/

namespace DocWatch

open Text

variable {s before after front back : List Char} {c : Char}

@[simp] theorem spelledTerms_nil : spelledTerms [] = [] :=
  rfl

theorem spelledTerms_break (hc : isTermChar c = false) (front back : List Char) :
    spelledTerms (front ++ c :: back) = spelledTerms front ++ spelledTerms back := by
  rw [spelledTerms, splitBy_break (by rw [hc]; rfl), List.map_append, List.filter_append]
  rfl

theorem spelledTerms_around (hbefore : ∀ c ∈ before.getLast?, isTermChar c = false)
    (hafter : ∀ c ∈ after.head?, isTermChar c = false) (s : List Char) :
    spelledTerms (before ++ s ++ after) =
      spelledTerms before ++ spelledTerms s ++ spelledTerms after := by
  have hback : spelledTerms (s ++ after) = spelledTerms s ++ spelledTerms after := by
    cases after with
    | nil => simp
    | cons c rest =>
        have hc : isTermChar c = false := hafter c rfl
        rw [spelledTerms_break hc, ← List.nil_append (c :: rest), spelledTerms_break hc,
          spelledTerms_nil, List.nil_append]
  rcases List.eq_nil_or_concat before with rfl | ⟨rest, c, rfl⟩
  · simpa using hback
  · have hc : isTermChar c = false := hbefore c (by simp)
    rw [List.concat_eq_append, List.append_assoc, List.append_assoc, List.singleton_append,
      spelledTerms_break hc, hback, spelledTerms_break hc, spelledTerms_nil]
    simp

/-- A run of term characters that nothing prolongs is one term, if colons are not all that
it has. -/
theorem mem_spelledTerms_of_run {left run right : List Char}
    (hrun : MaximalRun isTermChar (before ++ left) run (right ++ after))
    (hterm : trimBy (· = ':') run ≠ []) :
    trimBy (· = ':') run ∈ spelledTerms (left ++ run ++ right) := by
  have hfree : ∀ c ∈ run, (!isTermChar c) = false := by
    intro c hc
    rw [hrun.within c hc]
    rfl
  have hleft : ∀ c ∈ left.getLast?, isTermChar c = false := by
    intro c hc
    refine hrun.front c ?_
    simp [List.getLast?_append, Option.mem_def.1 hc]
  have hright : ∀ c ∈ right.head?, isTermChar c = false := by
    intro c hc
    refine hrun.back c ?_
    simp [List.head?_append, Option.mem_def.1 hc]
  have hpiece : spelledTerms run = [trimBy (· = ':') run] := by
    rw [spelledTerms, splitBy_of_free hfree]
    simp [hterm]
  rw [spelledTerms_around hleft hright, hpiece]
  simp

/-! ## A term by itself -/

theorem exists_piece_of_mem {term : List Char} (h : term ∈ spelledTerms s) :
    term ≠ [] ∧ ∃ piece ∈ splitBy (fun c => !isTermChar c) s, trimBy (· = ':') piece = term := by
  rw [spelledTerms, List.mem_filter, List.mem_map] at h
  exact ⟨by simpa using h.2, h.1⟩

/-- A term is made of characters of the text. -/
theorem of_mem_spelledTerms {term : List Char} (h : term ∈ spelledTerms s) :
    ∀ c ∈ term, c ∈ s ∧ isTermChar c = true := by
  obtain ⟨-, piece, hpiece, rfl⟩ := exists_piece_of_mem h
  obtain ⟨front, back, hsplit, -, -⟩ := exists_trimBy (p := (· = ':')) piece
  intro c hc
  have hmem : c ∈ piece := by
    rw [hsplit]
    simp [hc]
  simpa using of_mem_splitBy hpiece hmem

theorem termChar_of_mem_spelledTerms {term : List Char} (h : term ∈ spelledTerms s) :
    ∀ c ∈ term, isTermChar c = true :=
  fun c hc => (of_mem_spelledTerms h c hc).2

/-- A term as it is spelled in some text is one term. -/
theorem spelledTerms_of_mem {term : List Char} (h : term ∈ spelledTerms s) :
    spelledTerms term = [term] := by
  have hfree : ∀ c ∈ term, (!isTermChar c) = false := by
    intro c hc
    rw [termChar_of_mem_spelledTerms h c hc]
    rfl
  obtain ⟨hne, piece, -, rfl⟩ := exists_piece_of_mem h
  rw [spelledTerms, splitBy_of_free hfree, List.map_singleton, trimBy_trimBy]
  simp [hne]

/-- Looked for as it is spelled, a term is the only term of the query. -/
theorem tokenize_of_mem {term : List Char} (h : term ∈ spelledTerms s) :
    tokenize (String.ofList term) = [String.ofList (lower term)] := by
  rw [tokenize, terms, String.toList_ofList, spelledTerms_of_mem h]
  rfl

/-! ## White space -/

/-- Every blank is looked up among the letters and digits. -/
theorem blanks_not_alphanumeric :
    (blankRanges.all fun range => (List.range (range.2 + 1 - range.1)).all fun i =>
      !alphanumericRanges.has (range.1 + i)) = true := by
  decide +kernel

theorem not_termChar_of_isBlank (h : isBlank c = true) : isTermChar c = false := by
  obtain ⟨range, hrange, hlow, hhigh⟩ := CodeRanges.exists_of_has h
  have hall := List.all_eq_true.1 (List.all_eq_true.1 blanks_not_alphanumeric range hrange)
    (c.toNat - range.1) (List.mem_range.2 (by omega))
  have hletter : isAlphanumeric c = false := by
    rw [show range.1 + (c.toNat - range.1) = c.toNat by omega] at hall
    simpa [isAlphanumeric] using hall
  have hsign : ∀ sign, isBlank sign = false → c ≠ sign := by
    rintro sign hsign rfl
    rw [h] at hsign
    cases hsign
  simp [isTermChar, hletter, hsign '_' (by decide), hsign ':' (by decide)]

end DocWatch
