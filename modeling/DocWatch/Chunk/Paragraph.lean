import DocWatch.Text.Blank
import DocWatch.Text.Utf8

/-!
# Paragraphs of a document

A document is divided at every two line feeds in a row. What stands between,
trimmed, is a paragraph unless it is blank. A paragraph whose first line is an
ATX heading carries the title of that heading, and one that is too long is cut
into pieces behind line feeds or spaces.
-/

namespace DocWatch

/-- The pieces of a text between occurrences of two line feeds. -/
def betweenBlankLines : List Char → List (List Char)
  | [] => [[]]
  | '\n' :: '\n' :: rest => [] :: betweenBlankLines rest
  | c :: rest =>
      match betweenBlankLines rest with
      | [] => [[c]]
      | piece :: more => (c :: piece) :: more

/-- The paragraphs of a text: the pieces that are not blank, trimmed. -/
def paragraphs (text : List Char) : List (List Char) :=
  ((betweenBlankLines text).map Text.trim).filter (· ≠ [])

/-- The first line of a paragraph, without its line end. -/
def firstLine (para : List Char) : List Char :=
  ((Text.lines para).head?).getD []

/-- The title of a paragraph that opens with one to six number signs and then a
space or the end of the line: the rest of the line without the number signs at
its end. -/
def titleOf? (para : List Char) : Option (List Char) :=
  let line := firstLine para
  let signs := line.takeWhile (· = '#')
  let rest := line.dropWhile (· = '#')
  if signs = [] ∨ 6 < signs.length then none
  else if rest = [] ∨ rest.head? = some ' ' then
    some (Text.trim (Text.trimEnd (· = '#') (Text.trim rest)))
  else none

/-- The longest front of a text that takes at most `limit` bytes, and the rest. -/
def takeBytes : Nat → List Char → List Char × List Char
  | _, [] => ([], [])
  | limit, c :: rest =>
      if c.utf8Size ≤ limit then
        let (front, back) := takeBytes (limit - c.utf8Size) rest
        (c :: front, back)
      else ([], c :: rest)

/-- The front of a text up to its last occurrence of a character, and the rest
behind it. -/
def cutAfterLast? (c : Char) (s : List Char) : Option (List Char × List Char) :=
  match s.reverse.dropWhile (· ≠ c) with
  | [] => none
  | r => some (r.reverse, (s.reverse.takeWhile (· ≠ c)).reverse)

/-- Where a text of more than `limit` bytes is cut: behind the last line feed
within the limit, else behind the last space, else at the limit, but always
behind at least one character. -/
def cutOnce (limit : Nat) (s : List Char) : List Char × List Char :=
  match takeBytes limit s with
  | (front, []) => (front, [])
  | ([], c :: rest) => ([c], rest)
  | (front, back) =>
      match cutAfterLast? '\n' front with
      | some (piece, left) => (piece, left ++ back)
      | none =>
          match cutAfterLast? ' ' front with
          | some (piece, left) => (piece, left ++ back)
          | none => (front, back)

theorem takeBytes_append (limit : Nat) (s : List Char) :
    (takeBytes limit s).1 ++ (takeBytes limit s).2 = s := by
  induction s generalizing limit with
  | nil => rfl
  | cons c rest ih =>
      simp only [takeBytes]
      split
      · simp [ih]
      · rfl

theorem cutAfterLast?_append {c : Char} {s piece left : List Char}
    (h : cutAfterLast? c s = some (piece, left)) : piece ++ left = s ∧ piece ≠ [] := by
  unfold cutAfterLast? at h
  split at h
  · exact absurd h (by simp)
  · next r hr =>
      injection h with h
      injection h with h₁ h₂
      subst h₁ h₂
      constructor
      · rw [← List.reverse_append, List.takeWhile_append_dropWhile, List.reverse_reverse]
      · simpa using hr

/-- A cut loses nothing. -/
theorem cutOnce_append (limit : Nat) (s : List Char) :
    (cutOnce limit s).1 ++ (cutOnce limit s).2 = s := by
  have h := takeBytes_append limit s
  unfold cutOnce
  split
  · next front heq => rw [heq] at h; exact h
  · next c rest heq => rw [heq] at h; exact h
  · next front back heq =>
      rw [heq] at h
      split
      · next piece left hc => rw [← (cutAfterLast?_append hc).1] at h; simpa using h
      · split
        · next piece left hc => rw [← (cutAfterLast?_append hc).1] at h; simpa using h
        · exact h

/-- A cut takes at least one character. -/
theorem cutOnce_ne_nil (limit : Nat) {s : List Char} (hs : s ≠ []) : (cutOnce limit s).1 ≠ [] := by
  have h := takeBytes_append limit s
  unfold cutOnce
  split
  · next front heq => rw [heq] at h; simp at h; simp only; rw [h]; exact hs
  · simp
  · next front back hback hfront heq =>
      split
      · next hc => exact (cutAfterLast?_append hc).2
      · split
        · next hc => exact (cutAfterLast?_append hc).2
        · intro hnil
          simp only at hnil
          subst hnil
          cases back with
          | nil => exact hback rfl
          | cons c rest => exact hfront c rest rfl rfl

theorem cutOnce_length (limit : Nat) {s : List Char} (hs : s ≠ []) :
    (cutOnce limit s).2.length < s.length := by
  have h₁ := congrArg List.length (cutOnce_append limit s)
  have h₂ := List.length_pos_iff.mpr (cutOnce_ne_nil limit hs)
  rw [List.length_append] at h₁
  omega

/-- The pieces of a text that is too long, trimmed, without the blank ones. -/
def cutPieces (limit : Nat) (s : List Char) : List (List Char) :=
  if _h : s = [] then []
  else
    let piece := Text.trim (cutOnce limit s).1
    let more := cutPieces limit (cutOnce limit s).2
    if piece = [] then more else piece :: more
termination_by s.length
decreasing_by exact cutOnce_length limit _h

end DocWatch
