import DocWatch.Proofs.Text.Infix
import DocWatch.Proofs.Text.Utf8

/-!
# Searching in bytes

A text lies in memory as UTF-8, and what is looked for in it is compared byte by byte. That
finds what a search through the characters finds, at the offset where the characters in
front of it end. A byte that begins a character is never one that follows another, so
nothing is found that begins within a character, and behind a place between two characters
the bytes agree exactly as far as the characters do.
-/

namespace DocWatch.Text

section

variable {α : Type} [DecidableEq α] {needle s front : List α} {x : α} {i : Nat}

theorem append_of_firstIndex? (h : firstIndex? needle s = some i) :
    ∃ front back, s = front ++ needle ++ back ∧ front.length = i := by
  induction s generalizing i with
  | nil =>
      rw [firstIndex?] at h
      split at h
      · rename_i hnil
        cases h
        exact ⟨[], [], by rw [hnil]; rfl, rfl⟩
      · cases h
  | cons c rest ih =>
      rw [firstIndex?] at h
      split at h
      · rename_i hstarts
        cases h
        obtain ⟨back, hback⟩ := startsWith_iff.1 hstarts
        exact ⟨[], back, hback.symm, rfl⟩
      · obtain ⟨j, hj, rfl⟩ := Option.map_eq_some_iff.1 h
        obtain ⟨front, back, rfl, hlength⟩ := ih hj
        exact ⟨c :: front, back, rfl, congrArg (· + 1) hlength⟩

/-- Where the needle cannot begin, the search goes on. -/
theorem firstIndex?_append (h : x ∉ front) :
    firstIndex? (x :: needle) (front ++ s) =
      (firstIndex? (x :: needle) s).map (· + front.length) := by
  induction front with
  | nil => simp
  | cons c front ih =>
      rw [List.mem_cons, not_or] at h
      have hstarts : ¬ startsWith (x :: needle) (c :: (front ++ s)) = true := by
        rw [startsWith_iff, List.cons_prefix_cons]
        exact fun hcons => h.1 hcons.1
      rw [List.cons_append, firstIndex?, if_neg hstarts, ih h.2, Option.map_map]
      rfl

end

variable {needle s : List Char}

/-- Only the first byte of a character is not one of the bytes that follow. -/
theorem exists_encodeChar (c : Char) :
    ∃ a rest, String.utf8EncodeChar c = a :: rest ∧ (a.toNat < 128 ∨ 192 ≤ a.toNat) ∧
      ∀ b ∈ rest, 128 ≤ b.toNat ∧ b.toNat < 192 := by
  have hvalid : c.toNat.isValidChar := c.valid
  have hfollowing : ∀ m < 64, 128 ≤ (following m).toNat ∧ (following m).toNat < 192 := by
    intro m hm
    rw [following, toNat_byte (by omega)]
    omega
  rw [← Char.ofNat_toNat c]
  generalize c.toNat = v at hvalid
  rw [Nat.isValidChar] at hvalid
  rw [encodeChar_ofNat hvalid]
  split
  · exact ⟨_, _, rfl, .inl (by rw [toNat_byte (by omega)]; omega), List.forall_mem_nil _⟩
  split
  · refine ⟨_, _, rfl, .inr (by rw [toNat_byte (by omega)]; omega), ?_⟩
    simp only [List.forall_mem_cons]
    exact ⟨hfollowing _ (by omega), List.forall_mem_nil _⟩
  split
  · refine ⟨_, _, rfl, .inr (by rw [toNat_byte (by omega)]; omega), ?_⟩
    simp only [List.forall_mem_cons]
    exact ⟨hfollowing _ (by omega), hfollowing _ (by omega), List.forall_mem_nil _⟩
  · refine ⟨_, _, rfl, .inr (by rw [toNat_byte (by omega)]; omega), ?_⟩
    simp only [List.forall_mem_cons]
    exact ⟨hfollowing _ (by omega), hfollowing _ (by omega), hfollowing _ (by omega),
      List.forall_mem_nil _⟩

theorem startsWith_encode : startsWith (encode needle) (encode s) = startsWith needle s := by
  rw [Bool.eq_iff_iff, startsWith_iff, startsWith_iff]
  constructor
  · rintro ⟨back, h⟩
    obtain ⟨u, rfl, -⟩ := exists_of_encode_eq_append h.symm
    exact List.prefix_append needle u
  · rintro ⟨u, rfl⟩
    exact ⟨encode u, (List.flatMap_append ..).symm⟩

/-- What is found among the bytes is found among the characters, at the same place. -/
theorem firstIndex?_encode (hneedle : needle ≠ []) :
    firstIndex? (encode needle) (encode s) =
      (firstIndex? needle s).map fun i => byteLength (s.take i) := by
  obtain ⟨x, more, rfl⟩ := List.exists_cons_of_ne_nil hneedle
  obtain ⟨b, tail, hx, hb, -⟩ := exists_encodeChar x
  have hbytes : encode (x :: more) = b :: (tail ++ encode more) := by
    rw [encode, List.flatMap_cons, hx]
    rfl
  induction s with
  | nil =>
      rw [hbytes]
      rfl
  | cons c rest ih =>
      obtain ⟨a, following, hc, -, hfollowing⟩ := exists_encodeChar c
      have hsize : c.utf8Size = following.length + 1 := by
        rw [← String.length_utf8EncodeChar, hc, List.length_cons]
      have hencode : encode (c :: rest) = a :: (following ++ encode rest) := by
        rw [encode, List.flatMap_cons, hc]
        rfl
      have hpassed : b ∉ following := by
        intro hmem
        have := hfollowing b hmem
        omega
      rw [firstIndex?.eq_2, ← startsWith_encode, hencode, firstIndex?]
      split
      · rfl
      · rw [hbytes, firstIndex?_append hpassed, ← hbytes, ih, Option.map_map, Option.map_map,
          Option.map_map]
        refine congrArg (Option.map · _) (funext fun i => ?_)
        show byteLength (rest.take i) + following.length + 1 = byteLength ((c :: rest).take (i + 1))
        rw [List.take_succ_cons, byteLength_cons, hsize]
        omega

end DocWatch.Text
