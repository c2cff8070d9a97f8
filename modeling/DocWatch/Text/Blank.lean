import DocWatch.Text.CodeRange

/-!
# Blanks, trimming and lines

White space is the Unicode property White_Space, which is wider than the blank
of ASCII: it holds the next-line character, the no-break space and the spaces
of typography. Text is trimmed of it at both ends nearly everywhere.
-/

namespace DocWatch.Text

/-- Code points with the property White_Space. -/
def blankRanges : CodeRanges :=
  [(0x09, 0x0D), (0x20, 0x20), (0x85, 0x85), (0xA0, 0xA0), (0x1680, 0x1680), (0x2000, 0x200A),
   (0x2028, 0x2029), (0x202F, 0x202F), (0x205F, 0x205F), (0x3000, 0x3000)]

/-- Whether a character is white space. -/
def isBlank (c : Char) : Bool :=
  blankRanges.has c.toNat

/-- The text without the characters of a class at its end. -/
def trimEnd (p : Char → Bool) (s : List Char) : List Char :=
  (s.reverse.dropWhile p).reverse

/-- The text without the characters of a class at either end. -/
def trimBy (p : Char → Bool) (s : List Char) : List Char :=
  trimEnd p (s.dropWhile p)

/-- The text without white space at either end. -/
def trim (s : List Char) : List Char :=
  trimBy isBlank s

/-- The pieces of a text between the characters of a class: one more piece than
there are such characters. -/
def splitBy (p : Char → Bool) : List Char → List (List Char)
  | [] => [[]]
  | c :: rest =>
      if p c then [] :: splitBy p rest
      else
        match splitBy p rest with
        | [] => [[c]]
        | piece :: more => (c :: piece) :: more

theorem splitBy_eq_splitOnP (p : Char → Bool) (s : List Char) :
    splitBy p s = s.splitOnP p := by
  induction s with
  | nil => rw [splitBy, List.splitOnP_nil]
  | cons c rest ih =>
      rw [splitBy, List.splitOnP_cons_eq_if_modifyHead, ih]
      split
      · rfl
      · cases h : rest.splitOnP p with
        | nil => exact absurd h (List.splitOnP_ne_nil p rest)
        | cons piece more => rfl

theorem splitBy_break {p : Char → Bool} {c : Char} (hc : p c = true) (front back : List Char) :
    splitBy p (front ++ c :: back) = splitBy p front ++ splitBy p back := by
  rw [splitBy_eq_splitOnP, splitBy_eq_splitOnP, splitBy_eq_splitOnP,
    List.splitOnP_append_cons front back hc]

theorem splitBy_of_free {p : Char → Bool} {s : List Char} (h : ∀ c ∈ s, p c = false) :
    splitBy p s = [s] := by
  rw [splitBy_eq_splitOnP, List.splitOnP_eq_singleton h]

/-- The pieces hold characters of the text, but none of the class. -/
theorem of_mem_splitBy {p : Char → Bool} {s piece : List Char} {c : Char}
    (hpiece : piece ∈ splitBy p s) (hc : c ∈ piece) : c ∈ s ∧ p c = false := by
  induction s generalizing piece with
  | nil =>
      rw [splitBy, List.mem_singleton] at hpiece
      subst hpiece
      cases hc
  | cons x rest ih =>
      have htail : ∀ {piece}, piece ∈ splitBy p rest → c ∈ piece → c ∈ x :: rest ∧ p c = false := by
        intro piece hpiece hc
        exact ⟨List.mem_cons_of_mem _ (ih hpiece hc).1, (ih hpiece hc).2⟩
      rw [splitBy] at hpiece
      split at hpiece
      · rcases List.mem_cons.1 hpiece with rfl | hpiece
        · cases hc
        · exact htail hpiece hc
      · rename_i hx
        have hfirst : x ∈ x :: rest ∧ p x = false := ⟨List.mem_cons_self, Bool.eq_false_iff.2 hx⟩
        split at hpiece
        · rw [List.mem_singleton.1 hpiece, List.mem_singleton] at hc
          rwa [hc]
        · rename_i first more hsplit
          rcases List.mem_cons.1 hpiece with rfl | hpiece
          · rcases List.mem_cons.1 hc with rfl | hc
            · exact hfirst
            · exact htail (hsplit ▸ List.mem_cons_self) hc
          · exact htail (hsplit ▸ List.mem_cons_of_mem _ hpiece) hc

theorem not_of_mem_splitBy {p : Char → Bool} {s piece : List Char} {c : Char}
    (hpiece : piece ∈ splitBy p s) (hc : c ∈ piece) : p c = false :=
  (of_mem_splitBy hpiece hc).2

theorem splitBy_congr {p q : Char → Bool} {s : List Char} (h : ∀ c ∈ s, p c = q c) :
    splitBy p s = splitBy q s := by
  induction s with
  | nil => rfl
  | cons c rest ih =>
      rw [splitBy, splitBy, h c List.mem_cons_self,
        ih fun x hx => h x (List.mem_cons_of_mem _ hx)]

/-- The text without the one given character at its end, if it is there. -/
def dropLast (c : Char) (s : List Char) : List Char :=
  if s.getLast? = some c then s.dropLast else s

/-- The lines of a text. A line feed, with or without a carriage return before
it, ends a line; a last line that is empty is none. -/
def lines (s : List Char) : List (List Char) :=
  let pieces := splitBy (· == '\n') s
  let ended := pieces.dropLast.map (dropLast '\r')
  match pieces.getLast? with
  | some [] | none => ended
  | some last => ended ++ [last]

/-- The text before and after the first occurrence of a character. -/
def splitOnce (c : Char) : List Char → Option (List Char × List Char)
  | [] => none
  | x :: rest =>
      if x = c then some ([], rest)
      else (splitOnce c rest).map fun (front, back) => (x :: front, back)

theorem splitOnce_eq_some_iff {c : Char} {s front back : List Char} :
    splitOnce c s = some (front, back) ↔ s = front ++ c :: back ∧ c ∉ front := by
  induction s generalizing front with
  | nil => simp [splitOnce]
  | cons x rest ih =>
      rw [splitOnce]
      split
      · rename_i hx
        subst hx
        cases front with
        | nil => simp
        | cons y front =>
            simp only [Option.some.injEq, Prod.mk.injEq, reduceCtorEq, false_and,
              List.cons_append, List.cons.injEq, List.mem_cons, not_or, false_iff]
            rintro ⟨⟨rfl, -⟩, hne, -⟩
            exact hne rfl
      · rename_i hx
        rw [Option.map_eq_some_iff]
        cases front with
        | nil => simp [hx]
        | cons y front =>
            rw [List.cons_append, List.cons.injEq, List.mem_cons, not_or]
            constructor
            · rintro ⟨⟨front', back'⟩, hrest, heq⟩
              cases heq
              obtain ⟨rfl, hc⟩ := ih.1 hrest
              exact ⟨⟨rfl, rfl⟩, fun h => hx h.symm, hc⟩
            · rintro ⟨⟨rfl, hrest⟩, -, hc⟩
              exact ⟨(front, back), ih.2 ⟨hrest, hc⟩, rfl⟩

/-- White space trimmed from both ends of a string. -/
def trimmed (s : String) : String :=
  String.ofList (trim s.toList)

/-- Whether a string is white space throughout. -/
def isBlankText (s : String) : Bool :=
  s.toList.all isBlank

end DocWatch.Text
