import DocWatch.Proofs.Chunk.Words
import DocWatch.Proofs.Text.Utf8

/-!
# Chunking keeps the terms of a document

A term ends at any character that may not stand in one. Everything that chunking takes
away or puts in is of that kind: the white space that is trimmed, the line feeds between
paragraphs, and the gaps behind which a long paragraph is cut. The one cut that can go
through a term is the cut through a word, and it needs a word beyond the limit. So where
every word is within the limit, the chunks have the terms of the document, in order.
-/

namespace DocWatch

open Text

/-- No stretch of a text without a gap takes more bytes than the limit. -/
def WordsWithin (limit : Nat) (s : List Char) : Prop :=
  ∀ word, word <:+: s → (∀ c ∈ word, isGap c = false) → byteLength word ≤ limit

variable {limit : Nat} {s t front back : List Char} {c : Char}

theorem WordsWithin.of_isInfix (h : WordsWithin limit s) (ht : t <:+: s) : WordsWithin limit t :=
  fun word hword => h word (hword.trans ht)

/-- It is enough to look at the words that nothing prolongs. -/
theorem wordsWithin_of_runs
    (h : ∀ before run after, s = before ++ run ++ after →
      MaximalRun (fun c => !isGap c) before run after → byteLength run ≤ limit) :
    WordsWithin limit s := by
  rintro word ⟨front, back, rfl⟩ hfree
  have hword : ∀ c ∈ word, (!isGap c) = true := fun c hc => by simp [hfree c hc]
  obtain ⟨before, run, after, heq, hrun, hinfix⟩ := exists_maximalRun hword front back
  exact Nat.le_trans (byteLength_le_of_isInfix hinfix) (h before run after heq hrun)

/-- What stands at a cut through a word is a gap, if no word is too long. -/
theorem WordsWithin.isGap_of_long (h : WordsWithin limit (front ++ c :: back))
    (hfree : ∀ x ∈ front, isGap x = false) (hlong : limit < byteLength (front ++ [c])) :
    isGap c = true := by
  by_contra hc
  refine absurd (h (front ++ [c]) ⟨[], back, by simp⟩ ?_) (Nat.not_le.2 hlong)
  intro x hx
  rcases List.mem_append.1 hx with hx | hx
  · exact hfree x hx
  · rw [List.mem_singleton.1 hx]
    exact Bool.eq_false_iff.2 hc

/-! ## Terms piece by piece -/

theorem spelledTerms_of_blanks (h : ∀ c ∈ s, isBlank c = true) : spelledTerms s = [] := by
  induction s with
  | nil => rfl
  | cons c rest ih =>
      have hc := not_termChar_of_isBlank (h c List.mem_cons_self)
      rw [← List.nil_append (c :: rest), spelledTerms_break hc, spelledTerms_nil, List.nil_append,
        ih fun x hx => h x (List.mem_cons_of_mem _ hx)]

theorem spelledTerms_trim (s : List Char) : spelledTerms (Text.trim s) = spelledTerms s := by
  obtain ⟨front, back, hsplit, hfront, hback⟩ := exists_trim s
  conv_rhs => rw [hsplit]
  rw [spelledTerms_around, spelledTerms_of_blanks hfront, spelledTerms_of_blanks hback]
  · simp
  · exact fun c hc => not_termChar_of_isBlank (hfront c (List.mem_of_getLast? hc))
  · exact fun c hc => not_termChar_of_isBlank (hback c (List.mem_of_head? hc))

theorem spelledTerms_joined (para : List Char) (more : List (List Char)) :
    spelledTerms (joined para more) = spelledTerms para ++ more.flatMap spelledTerms := by
  have hfeed : isTermChar '\n' = false := not_termChar_of_isGap rfl
  induction more using List.reverseRecOn with
  | nil => simp
  | append_singleton more next ih =>
      rw [joined_concat, spelledTerms_break hfeed, ← List.nil_append ('\n' :: next),
        spelledTerms_break hfeed, ih]
      simp

theorem piecewise_spelledTerms : Piecewise spelledTerms where
  nil := spelledTerms_nil
  trim := spelledTerms_trim
  joined := spelledTerms_joined

/-- A text may be divided on either side of a gap. -/
theorem spelledTerms_at_gap (hc : isGap c = true) (front back : List Char) :
    spelledTerms (front ++ [c]) ++ spelledTerms back = spelledTerms (front ++ c :: back) ∧
      spelledTerms front ++ spelledTerms (c :: back) = spelledTerms (front ++ c :: back) := by
  have hbreak := spelledTerms_break (not_termChar_of_isGap hc)
  have hleft : spelledTerms (front ++ [c]) = spelledTerms front := by
    rw [hbreak, spelledTerms_nil, List.append_nil]
  have hright : spelledTerms (c :: back) = spelledTerms back := by
    rw [← List.nil_append (c :: back), hbreak, spelledTerms_nil, List.nil_append]
  rw [hleft, hright, hbreak]
  exact ⟨rfl, rfl⟩

theorem spelledTerms_cut (hcut : Cut limit s front back) (h : WordsWithin limit s) :
    spelledTerms front ++ spelledTerms back = spelledTerms s := by
  cases hcut with
  | whole => exact List.append_nil _
  | gap hc => exact (spelledTerms_at_gap hc _ _).1
  | word hfree hlong => exact (spelledTerms_at_gap (h.isGap_of_long hfree hlong) _ _).2
  | @single back c hlong =>
      have hc : isGap c = true := (show WordsWithin limit ([] ++ c :: back) from h).isGap_of_long
        nofun hlong
      exact (spelledTerms_at_gap hc [] back).1

theorem spelledTerms_cutPieces (h : WordsWithin limit s) :
    (cutPieces limit s).flatMap spelledTerms = spelledTerms s :=
  piecewise_spelledTerms.cutPieces fun rest hrest =>
    spelledTerms_cut (cut_cutOnce limit rest) (h.of_isInfix hrest.isInfix)

theorem spelledTerms_chunks (path : String) {text : String}
    (h : WordsWithin (max limit 1) text.toList) :
    (chunks path text limit).flatMap (fun c => spelledTerms c.text.toList) =
      spelledTerms text.toList := by
  rw [flatMap_chunks]
  refine piecewise_spelledTerms.segments fun para hpara => ?_
  exact spelledTerms_cutPieces (h.of_isInfix (isInfix_of_mem_paragraphs hpara))

/-- Where no word is too long, the terms of the chunks are those of the document: none is cut, lost
or doubled, no two become one, and they stand in the same order. -/
theorem terms_of_chunks (path text : String) (limit : Nat)
    (hwords : ∀ before word after, text.toList = before ++ word ++ after →
      MaximalRun (fun c => !isGap c) before word after → byteLength word ≤ max limit 1) :
    (chunks path text limit).flatMap (fun c => tokenize c.text) = tokenize text := by
  have hspelled := spelledTerms_chunks path (wordsWithin_of_runs hwords)
  calc (chunks path text limit).flatMap (fun c => tokenize c.text)
      = ((chunks path text limit).flatMap fun c => spelledTerms c.text.toList).map
          (fun term => String.ofList (lower term)) := by
        rw [List.map_flatMap]
        simp only [tokenize, terms, List.map_map, Function.comp_def]
    _ = tokenize text := by
        rw [hspelled, tokenize, terms, List.map_map]
        rfl

/-- A paragraph that is cut three times, behind a line feed and behind spaces. -/
def ruleNames : String := "job:rate5m\nsum: Rate(x)\tof job"

theorem terms_of_chunks_ruleNames :
    (∀ before word after, ruleNames.toList = before ++ word ++ after →
      MaximalRun (fun c => !isGap c) before word after → byteLength word ≤ max 12 1) ∧
    (chunks "rules.md" ruleNames 12).length = 4 ∧
    (chunks "rules.md" ruleNames 12).flatMap (fun c => tokenize c.text) =
      ["job:rate5m", "sum", "rate", "x", "of", "job"] := by
  have hwords : ∀ before word after, ruleNames.toList = before ++ word ++ after →
      MaximalRun (fun c => !isGap c) before word after → byteLength word ≤ max 12 1 := by
    intro before word after htext hrun
    have hmem := hrun.mem_splitBy
    rw [← htext] at hmem
    exact of_decide_eq_true (List.all_eq_true.1
      (show (splitBy isGap ruleNames.toList).all (fun word => byteLength word ≤ max 12 1) = true by
        decide +kernel) word hmem)
  refine ⟨hwords, by decide +kernel, ?_⟩
  rw [terms_of_chunks "rules.md" ruleNames 12 hwords]
  decide +kernel

end DocWatch
