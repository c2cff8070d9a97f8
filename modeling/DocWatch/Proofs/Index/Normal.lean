import DocWatch.Proofs.Index.Terms
import DocWatch.Proofs.Text.Lowercase

/-!
# Terms in normal form

A term of the index is to be found again by a query that spells it as the index does, so
taking terms apart a second time should change nothing. Lower case is put in last, though,
when it has been decided already where a term begins and ends, and nobody looks at the
characters that come out of it.

Nearly all of them are letters again: the table of the runs leads from letters to letters,
and what it does not hold stays as it is. The capital I with a dot is the one exception.
It becomes a small i and a combining dot, and the dot may not stand in a term. A term that
was spelled with that letter falls into pieces at the dots when it is looked for.
-/

namespace DocWatch

open Text

variable {s term : List Char} {text token : String} {c d : Char}

/-- The capital I with a dot. -/
def dottedI : Char := '\u0130'

/-- The dot that is put above the character before it. -/
def dotAbove : Char := '\u0307'

/-! ## What letters become -/

namespace Text

/-- Whether one of the ranges holds all code points from `low` to `high`. -/
def CodeRanges.covers : CodeRanges → Nat → Nat → Bool
  | [], _, _ => false
  | (lo, hi) :: rest, low, high =>
      lo.ble low && (high.ble hi || (hi.blt low && covers rest low high))

theorem CodeRanges.has_of_covers {ranges : CodeRanges} {low high n : Nat}
    (h : ranges.covers low high = true) (hlow : low ≤ n) (hhigh : n ≤ high) :
    ranges.has n = true := by
  induction ranges with
  | nil => cases h
  | cons range rest ih =>
      simp only [covers, Bool.and_eq_true, Bool.or_eq_true, Nat.ble_eq, Nat.blt_eq] at h
      obtain ⟨hfirst, hin | ⟨hbeyond, hrest⟩⟩ := h
      · rw [has, if_neg (by omega), if_pos (by omega)]
      · rw [has, if_neg (by omega), if_neg (by omega)]
        exact ih hrest

/-- Each run of the table is looked up among the letters. -/
theorem lowerRuns_letters :
    (lowerRuns.all fun run => alphanumericRanges.covers (run.first + run.shift).toNat
      (run.last + run.shift).toNat) = true := by
  decide +kernel

theorem BecomesLower.letter (h : BecomesLower c d) :
    d = c ∨ isAlphanumeric d = true ∨ (c = dottedI ∧ d = dotAbove) := by
  cases h with
  | sigma hc hd => rcases hd with rfl | rfl <;> exact .inr (.inl (by decide +kernel))
  | other hc hd =>
      by_cases hdot : c.toNat = 0x0130
      · have hcapital : c = dottedI := Char.toNat_inj.1 hdot
        rw [lowerChar, if_pos hdot, List.mem_cons, List.mem_singleton] at hd
        rcases hd with rfl | rfl
        · exact .inr (.inl (by decide +kernel))
        · exact .inr (.inr ⟨hcapital, rfl⟩)
      · by_cases hshift : lowerShift lowerRuns c.toNat = 0
        · rw [lowerChar_of_lowerShift hdot hshift, List.mem_singleton] at hd
          exact .inl hd
        · obtain ⟨run, hmem, i, hlast, -, hd⟩ := exists_place hdot hshift hd
          obtain ⟨hnat, hhigh⟩ :=
            CaseRun.toNat_form (List.all_eq_true.1 lowerRuns_isSettled run hmem) hlast hd
          refine .inr (.inl ?_)
          rw [isAlphanumeric, hnat]
          exact CodeRanges.has_of_covers (List.all_eq_true.1 lowerRuns_letters run hmem)
            (Nat.le_add_right _ _) hhigh

/-- A text is put in lower case character by character, and none is lost. -/
theorem exists_lowerFrom_cons (before : List Char) (c : Char) (s : List Char) :
    ∃ d form, lowerFrom before (c :: s) = d :: form ++ lowerFrom (c :: before) s ∧
      ∀ x ∈ d :: form, BecomesLower c x := by
  rw [lowerFrom]
  split
  · rename_i hc
    refine ⟨_, [], rfl, ?_⟩
    intro x hx
    rw [List.mem_singleton.1 hx]
    split
    · exact .sigma hc (.inl rfl)
    · exact .sigma hc (.inr rfl)
  · rename_i hc
    obtain ⟨d, form, hform⟩ : ∃ d form, lowerChar c = d :: form := by
      unfold lowerChar
      split
      · exact ⟨_, _, rfl⟩
      · exact ⟨_, _, rfl⟩
    rw [hform]
    refine ⟨d, form, rfl, ?_⟩
    intro x hx
    exact .other hc (hform ▸ hx)

/-- No character becomes a colon. -/
theorem BecomesLower.eq_colon (h : BecomesLower c ':') : c = ':' := by
  rcases h.letter with heq | hletter | ⟨-, hdot⟩
  · exact heq.symm
  · exact absurd hletter (by decide)
  · exact absurd hdot (by decide)

theorem bare_lower (h : Bare (· = ':') s) : Bare (· = ':') (lower s) where
  front := by
    cases s with
    | nil =>
        intro x hx
        cases hx
    | cons c rest =>
        obtain ⟨d, form, hlower, hbecomes⟩ := exists_lowerFrom_cons [] c rest
        rw [lower, hlower]
        rintro x ⟨⟩
        rw [decide_eq_false_iff_not]
        rintro rfl
        have hcolon := (hbecomes _ List.mem_cons_self).eq_colon
        simpa [hcolon] using h.front c rfl
  back := by
    rcases List.eq_nil_or_concat s with rfl | ⟨front, c, rfl⟩
    · intro x hx
      cases hx
    · obtain ⟨lowered, hlowered⟩ := lowerFrom_append [] front [c]
      obtain ⟨d, form, hlower, hbecomes⟩ := exists_lowerFrom_cons (front.reverse ++ []) c []
      rw [List.concat_eq_append, lower, hlowered, hlower]
      intro x hx
      rw [decide_eq_false_iff_not]
      rintro rfl
      have hmem : ':' ∈ d :: form := by
        rw [lowerFrom, List.append_nil,
          List.getLast?_append_of_ne_nil _ (List.cons_ne_nil _ _)] at hx
        exact List.mem_of_getLast? hx
      have hcolon := (hbecomes _ hmem).eq_colon
      simpa [hcolon] using h.back c (by simp)

end Text

theorem termChar_of_becomesLower (h : BecomesLower c d) (hc : isTermChar c = true) :
    isTermChar d = true ∨ (c = dottedI ∧ d = dotAbove) := by
  rcases h.letter with rfl | hletter | hdot
  · exact .inl hc
  · exact .inl (by simp [isTermChar, hletter])
  · exact .inr hdot

theorem not_termChar_dotAbove : isTermChar dotAbove = false := by
  decide +kernel

/-! ## A term in lower case -/

theorem dotAbove_mem_lower_iff (hs : ∀ c ∈ s, isTermChar c = true) :
    dotAbove ∈ lower s ↔ dottedI ∈ s := by
  constructor
  · intro h
    obtain ⟨c, hc, hbecomes⟩ := becomesLower_of_mem_lowerFrom h
    rcases termChar_of_becomesLower hbecomes (hs c hc) with hdot | ⟨rfl, -⟩
    · rw [not_termChar_dotAbove] at hdot
      cases hdot
    · exact hc
  · intro h
    obtain ⟨front, back, rfl⟩ := List.append_of_mem h
    obtain ⟨lowered, hlowered⟩ := lowerFrom_append [] front (dottedI :: back)
    have hform : lowerFrom (front.reverse ++ []) (dottedI :: back) =
        'i' :: dotAbove :: lowerFrom (dottedI :: (front.reverse ++ [])) back := rfl
    rw [lower, hlowered, hform]
    simp

theorem mem_lower_of_mem (h : term ∈ spelledTerms s) :
    ∀ c ∈ lower term, isTermChar c = true ∨ c = dotAbove := by
  intro c hc
  obtain ⟨x, hx, hbecomes⟩ := becomesLower_of_mem_lowerFrom hc
  have hx := termChar_of_mem_spelledTerms h x hx
  rcases termChar_of_becomesLower hbecomes hx with hterm | ⟨-, hdot⟩
  · exact .inl hterm
  · exact .inr hdot

/-- Looked for as the index spells it, a term falls into pieces at the dots. -/
theorem terms_lower (h : term ∈ spelledTerms s) : terms (lower term) =
    ((splitBy (· = dotAbove) (lower term)).map (trimBy (· = ':'))).filter (· ≠ []) := by
  have hbreak : ∀ c ∈ lower term, (!isTermChar c) = decide (c = dotAbove) := by
    intro c hc
    rcases mem_lower_of_mem h c hc with hterm | rfl
    · have hne : c ≠ dotAbove := by
        rintro rfl
        rw [not_termChar_dotAbove] at hterm
        cases hterm
      simp [hterm, hne]
    · simp [not_termChar_dotAbove]
  have hsettled : ∀ piece ∈ spelledTerms (lower term), lower piece = piece := by
    intro piece hpiece
    refine lower_of_forall_settled fun c hc => ?_
    exact settled_of_mem_lower (of_mem_spelledTerms hpiece c hc).1
  rw [terms, List.map_congr_left hsettled, List.map_id', spelledTerms, splitBy_congr hbreak]

/-- The normal form of a term of the index: what it is made of, what it does not begin or
end with, and that it is its own only term. -/
structure Normal (token : String) : Prop where
  ne_empty : token ≠ ""
  within : ∀ c ∈ token.toList, isTermChar c = true
  bare : Bare (· = ':') token.toList
  tokenize_eq : tokenize token = [token]

theorem bare_of_mem_spelledTerms (h : term ∈ spelledTerms s) : Bare (· = ':') term := by
  obtain ⟨-, piece, -, rfl⟩ := exists_piece_of_mem h
  exact bare_trimBy piece

theorem lower_ne_nil (h : term ∈ spelledTerms s) : lower term ≠ [] :=
  mt lower_eq_nil_iff.1 (exists_piece_of_mem h).1

theorem tokenize_lower (h : term ∈ spelledTerms s) : tokenize (String.ofList (lower term)) =
    (((splitBy (· = dotAbove) (lower term)).map (trimBy (· = ':'))).filter (· ≠ [])).map
      String.ofList := by
  rw [tokenize, String.toList_ofList, terms_lower h]

theorem normal_lower_iff (h : term ∈ spelledTerms s) :
    Normal (String.ofList (lower term)) ↔ dotAbove ∉ lower term := by
  constructor
  · intro hnormal hdot
    have hterm := hnormal.within dotAbove (by rwa [String.toList_ofList])
    rw [not_termChar_dotAbove] at hterm
    cases hterm
  · intro hdot
    have hbare := bare_lower (bare_of_mem_spelledTerms h)
    refine ⟨?_, ?_, by rwa [String.toList_ofList], ?_⟩
    · rw [ne_eq, String.ofList_eq_empty_iff]
      exact lower_ne_nil h
    · rw [String.toList_ofList]
      intro c hc
      exact (mem_lower_of_mem h c hc).resolve_right fun heq => hdot (heq ▸ hc)
    · have hfree : ∀ c ∈ lower term, decide (c = dotAbove) = false := by
        intro c hc
        rw [decide_eq_false_iff_not]
        rintro rfl
        exact hdot hc
      rw [tokenize_lower h, splitBy_of_free hfree, List.map_singleton, trimBy_eq_self_iff.2 hbare]
      simp [lower_ne_nil h]

/-- A token is in normal form just if it has no combining dot, and it has one just if it was
spelled with a capital I with a dot. It is never empty, has no colon at its ends, and looked
for in its own spelling it is the pieces between its dots. -/
theorem token_normal_iff (h : token ∈ tokenize text) :
    token ≠ "" ∧ Bare (· = ':') token.toList ∧
    (∀ c ∈ token.toList, isTermChar c = true ∨ c = dotAbove) ∧
    (Normal token ↔ dotAbove ∉ token.toList) ∧
    (dotAbove ∈ token.toList ↔
      ∃ term ∈ spelledTerms text.toList, token = String.ofList (lower term) ∧ dottedI ∈ term) ∧
    (dottedI ∉ text.toList → Normal token) ∧
    tokenize token =
      (((splitBy (· = dotAbove) token.toList).map (trimBy (· = ':'))).filter (· ≠ [])).map
        String.ofList := by
  obtain ⟨lowered, hlowered, rfl⟩ := List.mem_map.1 h
  obtain ⟨term, hterm, rfl⟩ := List.mem_map.1 hlowered
  have hdot : ∀ term ∈ spelledTerms text.toList, (dotAbove ∈ lower term ↔ dottedI ∈ term) :=
    fun term hterm => dotAbove_mem_lower_iff (termChar_of_mem_spelledTerms hterm)
  rw [String.toList_ofList]
  refine ⟨?_, bare_lower (bare_of_mem_spelledTerms hterm), mem_lower_of_mem hterm,
    normal_lower_iff hterm, ?_, ?_, tokenize_lower hterm⟩
  · rw [ne_eq, String.ofList_eq_empty_iff]
    exact lower_ne_nil hterm
  · constructor
    · intro hmem
      exact ⟨term, hterm, rfl, (hdot term hterm).1 hmem⟩
    · rintro ⟨other, hother, heq, hmem⟩
      rw [String.ofList_inj.1 heq]
      exact (hdot other hother).2 hmem
  · intro hplain
    rw [normal_lower_iff hterm, hdot term hterm]
    intro hmem
    exact hplain (of_mem_spelledTerms hterm _ hmem).1

/-- A word that ends in a capital sigma, which has a form of its own there. -/
theorem token_normal_iff_sigma : "οδος" ∈ tokenize "ΟΔΟΣ:" ∧ Normal "οδος" := by
  have hmem : "οδος" ∈ tokenize "ΟΔΟΣ:" := by decide +kernel
  obtain ⟨-, -, -, -, -, hnormal, -⟩ := token_normal_iff hmem
  exact ⟨hmem, hnormal (by decide)⟩

/-- The one token of a word with a dotted capital is not found in its own spelling. -/
theorem dotted_not_normal : tokenize "\u0130stanbul" = ["i\u0307stanbul"] ∧
    ¬ Normal "i\u0307stanbul" ∧ tokenize "i\u0307stanbul" = ["i", "stanbul"] := by
  have htokens : tokenize "i\u0307stanbul" = ["i", "stanbul"] := by decide +kernel
  refine ⟨by decide +kernel, ?_, htokens⟩
  intro h
  exact absurd (htokens.symm.trans h.tokenize_eq) (by decide)

end DocWatch
