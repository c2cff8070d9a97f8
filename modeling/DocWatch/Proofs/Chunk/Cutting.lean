import DocWatch.Chunk.Paragraph
import Mathlib.Data.List.TakeWhile

/-!
# Where a long paragraph is cut

A cut prefers the last gap within the limit, a line feed or else a space, and takes
it along at the end of the front. Only where there is no gap at all does it go
through a word, and such a word is longer than the limit: whatever is shorter stays
whole. `Cut` lists the four ways a cut can come about, and it is all that the
properties of the pieces rest on.
-/

namespace DocWatch

/-- Whether a character separates the words of a paragraph that is cut. -/
def isGap (c : Char) : Bool :=
  c = ' ' || c = '\n'

/-- A text cut in a front and the rest. -/
inductive Cut (limit : Nat) : List Char → List Char → List Char → Prop
  | whole (s : List Char) : Cut limit s s []
  | gap {front back : List Char} {c : Char} (hc : isGap c = true) :
      Cut limit (front ++ c :: back) (front ++ [c]) back
  | word {front back : List Char} {c : Char} (free : ∀ x ∈ front, isGap x = false)
      (long : limit < Text.byteLength (front ++ [c])) :
      Cut limit (front ++ c :: back) front (c :: back)
  /-- Not even one character fits, so one is taken all the same. -/
  | single {back : List Char} {c : Char} (long : limit < Text.byteLength [c]) :
      Cut limit (c :: back) [c] back

variable {limit : Nat} {s front back piece left : List Char} {c : Char}

/-- One more character would not have fitted. -/
theorem takeBytes_maximal (h : takeBytes limit s = (front, c :: back)) :
    limit < Text.byteLength (front ++ [c]) := by
  induction s generalizing limit front with
  | nil => cases h
  | cons x rest ih =>
      rw [takeBytes] at h
      split at h
      · rename_i hfits
        cases hrest : takeBytes (limit - x.utf8Size) rest with
        | mk front' back' =>
            rw [hrest] at h
            cases h
            have := ih hrest
            rw [List.cons_append, Text.byteLength_cons]
            omega
      · rename_i hlong
        cases h
        rw [List.nil_append, Text.byteLength_cons]
        omega

theorem cutAfterLast?_eq_none (h : cutAfterLast? c s = none) : c ∉ s := by
  intro hmem
  unfold cutAfterLast? at h
  split at h
  · rename_i hnil
    have hall := List.dropWhile_eq_nil_iff.1 hnil c (List.mem_reverse.2 hmem)
    simp at hall
  · cases h

theorem cutAfterLast?_eq_some (h : cutAfterLast? c s = some (piece, left)) :
    ∃ front, piece = front ++ [c] := by
  unfold cutAfterLast? at h
  split at h
  · cases h
  · rename_i hne
    cases h
    -- reversed, the piece starts with the character that ended the search
    have hstop := List.head_dropWhile_not (· ≠ c) hne
    cases hpiece : s.reverse.dropWhile (· ≠ c) with
    | nil => exact absurd hpiece hne
    | cons x rest =>
        simp only [hpiece, List.head_cons] at hstop
        have hx : x = c := by simpa using hstop
        exact ⟨rest.reverse, by rw [List.reverse_cons, hx]⟩

/-- It is the last one that the search finds. -/
theorem not_mem_of_cutAfterLast? (h : cutAfterLast? c s = some (piece, left)) : c ∉ left := by
  unfold cutAfterLast? at h
  split at h
  · cases h
  · cases h
    intro hmem
    have hpassed := List.mem_takeWhile_imp (List.mem_reverse.1 hmem)
    simp at hpassed

theorem cut_at_gap {front : List Char} (hgap : isGap c = true)
    (h : cutAfterLast? c front = some (piece, left)) (back : List Char) :
    Cut limit (front ++ back) piece (left ++ back) := by
  obtain ⟨hsplit, -⟩ := cutAfterLast?_append h
  obtain ⟨start, rfl⟩ := cutAfterLast?_eq_some h
  rw [← hsplit, List.append_assoc, List.append_assoc, List.singleton_append]
  exact .gap hgap

theorem cut_cutOnce (limit : Nat) (s : List Char) :
    Cut limit s (cutOnce limit s).1 (cutOnce limit s).2 := by
  have hsplit := takeBytes_append limit s
  unfold cutOnce
  split
  · rename_i front heq
    rw [heq, List.append_nil] at hsplit
    subst hsplit
    exact .whole _
  · rename_i c rest heq
    have hlong := takeBytes_maximal heq
    rw [heq] at hsplit
    subst hsplit
    exact .single hlong
  · rename_i front back hback hfront heq
    rw [heq] at hsplit
    subst hsplit
    split
    · rename_i piece left hfeed
      exact cut_at_gap rfl hfeed back
    · rename_i hfeed
      split
      · rename_i piece left hspace
        exact cut_at_gap rfl hspace back
      · rename_i hspace
        obtain ⟨c, rest, rfl⟩ : ∃ c rest, back = c :: rest := by
          cases back with
          | nil => exact absurd rfl hback
          | cons c rest => exact ⟨c, rest, rfl⟩
        refine .word ?_ (takeBytes_maximal heq)
        intro x hx
        have hnotSpace : x ≠ ' ' := fun h => cutAfterLast?_eq_none hspace (h ▸ hx)
        have hnotFeed : x ≠ '\n' := fun h => cutAfterLast?_eq_none hfeed (h ▸ hx)
        simp [isGap, hnotSpace, hnotFeed]

end DocWatch
