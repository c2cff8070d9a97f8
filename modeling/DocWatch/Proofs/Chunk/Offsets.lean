import DocWatch.Proofs.Chunk.Cutting
import DocWatch.Proofs.Text.Utf8

/-!
# Cutting by byte offsets

A text lies in memory as UTF-8, where a limit, a place to cut and the number of signs
before a title are all offsets in bytes. Not every offset is a place to cut: one that
lies within a character is none, and a slice there has no value. Here a paragraph is
read and cut offset by offset, with each slice as an operation that may be refused.

None ever is. The limit is moved back to the next place between two characters, a line
feed and a space are one byte long, so the offset behind one is such a place again, and
where all of this leads to the beginning, one character is taken, however wide. So each
round takes at least a character, and there are no more rounds than characters.
-/

namespace DocWatch

namespace Text

variable {s front back : List Char} {c : Char} {n m limit : Nat}

/-- A text divided at a byte offset, unless the offset lies within a character or
behind the end. -/
def splitAtByte? : Nat → List Char → Option (List Char × List Char)
  | 0, s => some ([], s)
  | _ + 1, [] => none
  | n + 1, c :: rest =>
      if c.utf8Size ≤ n + 1 then
        (splitAtByte? (n + 1 - c.utf8Size) rest).map fun cut => (c :: cut.1, cut.2)
      else none

/-- The last offset up to a given one at which a text can be divided. -/
def snapBack (s : List Char) : Nat → Nat
  | 0 => 0
  | n + 1 => if (splitAtByte? (n + 1) s).isSome then n + 1 else snapBack s n

/-- An offset moved back to a place between two characters, or to the end. -/
def snap (s : List Char) (n : Nat) : Nat :=
  if byteLength s ≤ n then byteLength s else snapBack s n

/-- The offset of the last occurrence of a character. -/
def lastOffset? (c : Char) : List Char → Option Nat
  | [] => none
  | x :: rest =>
      match lastOffset? c rest with
      | some n => some (x.utf8Size + n)
      | none => if x = c then some 0 else none

/-- The offset of the second character, or of the end. -/
def secondOffset : List Char → Nat
  | c :: _ :: _ => c.utf8Size
  | s => byteLength s

theorem splitAtByte?_append (front back : List Char) :
    splitAtByte? (byteLength front) (front ++ back) = some (front, back) := by
  induction front with
  | nil => exact splitAtByte?.eq_1 back
  | cons c front ih =>
      have hc := c.utf8Size_pos
      obtain ⟨n, hn⟩ : ∃ n, byteLength (c :: front) = n + 1 :=
        ⟨byteLength (c :: front) - 1, by rw [byteLength_cons]; omega⟩
      have hrest : n + 1 - c.utf8Size = byteLength front := by
        rw [← hn, byteLength_cons]
        omega
      have hfits : c.utf8Size ≤ n + 1 := by
        rw [← hn, byteLength_cons]
        omega
      rw [hn, List.cons_append, splitAtByte?, if_pos hfits, hrest, ih]
      rfl

theorem append_of_splitAtByte? (h : splitAtByte? n s = some (front, back)) :
    s = front ++ back ∧ byteLength front = n := by
  induction s generalizing n front with
  | nil =>
      cases n with
      | zero => cases h; exact ⟨rfl, rfl⟩
      | succ n => cases h
  | cons c rest ih =>
      cases n with
      | zero => cases h; exact ⟨rfl, rfl⟩
      | succ n =>
          rw [splitAtByte?] at h
          split at h
          · rename_i hfits
            obtain ⟨⟨front', back'⟩, hrest, hcut⟩ := Option.map_eq_some_iff.1 h
            cases hcut
            obtain ⟨hsplit, hlength⟩ := ih hrest
            refine ⟨congrArg (c :: ·) hsplit, ?_⟩
            show c.utf8Size + byteLength front' = n + 1
            omega
          · cases h

/-- A slice is refused exactly where no character ends and none begins. -/
theorem splitAtByte?_eq_some_iff :
    splitAtByte? n s = some (front, back) ↔ s = front ++ back ∧ byteLength front = n := by
  constructor
  · exact append_of_splitAtByte?
  · rintro ⟨rfl, rfl⟩
    exact splitAtByte?_append front back

theorem snapBack_eq (hm : (splitAtByte? m s).isSome) (hle : m ≤ n)
    (hnone : ∀ k, m < k → k ≤ n → splitAtByte? k s = none) : snapBack s n = m := by
  induction n with
  | zero => exact (Nat.le_zero.1 hle).symm
  | succ n ih =>
      rw [snapBack]
      rcases Nat.lt_or_eq_of_le hle with hlt | rfl
      · rw [hnone (n + 1) hlt (Nat.le_refl _)]
        exact ih (Nat.le_of_lt_succ hlt) fun k hk hkn => hnone k hk (Nat.le_succ_of_le hkn)
      · rw [if_pos hm]

theorem lastOffset?_of_not_mem (h : c ∉ s) : lastOffset? c s = none := by
  induction s with
  | nil => rfl
  | cons x rest ih =>
      rw [List.mem_cons, not_or] at h
      rw [lastOffset?, ih h.2, if_neg (Ne.symm h.1)]

theorem lastOffset?_append (h : c ∉ back) :
    lastOffset? c (front ++ c :: back) = some (byteLength front) := by
  induction front with
  | nil => rw [List.nil_append, lastOffset?, lastOffset?_of_not_mem h, if_pos rfl]; rfl
  | cons x front ih => rw [List.cons_append, lastOffset?, ih]; rfl

/-! ## What is taken within a limit -/

theorem byteLength_takeBytes_le (limit : Nat) (s : List Char) :
    byteLength (takeBytes limit s).1 ≤ limit := by
  induction s generalizing limit with
  | nil => exact Nat.zero_le _
  | cons c rest ih =>
      rw [takeBytes]
      split
      · have := ih (limit - c.utf8Size)
        rw [byteLength_cons]
        omega
      · exact Nat.zero_le _

theorem takeBytes_of_le (h : byteLength s ≤ limit) : takeBytes limit s = (s, []) := by
  induction s generalizing limit with
  | nil => rfl
  | cons c rest ih =>
      rw [byteLength_cons] at h
      rw [takeBytes, if_pos (by omega), ih (by omega)]

/-- Behind a front that fits, as much is taken as it leaves room for. -/
theorem takeBytes_append_of_le (h : byteLength front ≤ limit) :
    takeBytes limit (front ++ back) =
      (front ++ (takeBytes (limit - byteLength front) back).1,
        (takeBytes (limit - byteLength front) back).2) := by
  induction front generalizing limit with
  | nil => rfl
  | cons c front ih =>
      rw [byteLength_cons] at h
      rw [List.cons_append, takeBytes, if_pos (by omega), ih (by omega), byteLength_cons,
        Nat.sub_sub]
      rfl

theorem takeBytes_min (limit : Nat) (s : List Char) :
    takeBytes (min (byteLength s) limit) s = takeBytes limit s := by
  rcases Nat.le_total (byteLength s) limit with hle | hle
  · rw [Nat.min_eq_left hle, takeBytes_of_le (Nat.le_refl _), takeBytes_of_le hle]
  · rw [Nat.min_eq_right hle]

/-- There is no place to cut between the end of what fits and the limit. -/
theorem splitAtByte?_beyond (htake : takeBytes limit s = (front, back))
    (hbeyond : byteLength front < n) (hn : n ≤ limit) : splitAtByte? n s = none := by
  rw [Option.eq_none_iff_forall_ne_some]
  rintro ⟨front', back'⟩ h
  obtain ⟨rfl, hlength⟩ := splitAtByte?_eq_some_iff.1 h
  have hsplit : front ++ back = front' ++ back' := by
    have happend := takeBytes_append limit (front' ++ back')
    rwa [htake] at happend
  rcases List.append_eq_append_iff.1 hsplit with ⟨u, hfront, hback⟩ | ⟨u, hfront, -⟩
  · cases u with
    | nil =>
        rw [List.append_nil] at hfront
        rw [← hlength, hfront] at hbeyond
        exact Nat.lt_irrefl _ hbeyond
    | cons c u =>
        have hmax : limit < byteLength (front ++ [c]) := by
          rw [hback] at htake
          exact takeBytes_maximal htake
        rw [hfront, List.append_cons, byteLength_append] at hlength
        omega
  · rw [hfront, byteLength_append] at hbeyond
    omega

theorem snap_eq (limit : Nat) (s : List Char) :
    snap s limit = byteLength (takeBytes limit s).1 := by
  rw [snap]
  split
  · rename_i hle
    rw [takeBytes_of_le hle]
  · refine snapBack_eq ?_ (byteLength_takeBytes_le limit s) fun k hk hle =>
      splitAtByte?_beyond rfl hk hle
    have hcut := splitAtByte?_append (takeBytes limit s).1 (takeBytes limit s).2
    rw [takeBytes_append] at hcut
    rw [hcut]
    rfl

theorem splitAtByte?_snap (limit : Nat) (s : List Char) :
    splitAtByte? (snap s limit) s = some (takeBytes limit s) := by
  rw [snap_eq]
  exact splitAtByte?_eq_some_iff.2 ⟨(takeBytes_append limit s).symm, rfl⟩

/-- The signs before a title are one byte each, so they can be counted in bytes. -/
theorem takeWhile_encode (line : List Char) :
    ((encode line).takeWhile (· = 35)).length = byteLength (line.takeWhile (· = '#')) := by
  induction line with
  | nil => rfl
  | cons c rest ih =>
      by_cases hc : c = '#'
      · subst hc
        have hencode : encode ('#' :: rest) = 35 :: encode rest := rfl
        rw [hencode, List.takeWhile_cons_of_pos (by decide), List.takeWhile_cons_of_pos (by decide),
          List.length_cons, ih, byteLength_cons, Nat.add_comm]
        rfl
      · rw [List.takeWhile_cons_of_neg (by simpa using hc)]
        cases hencode : encode (c :: rest) with
        | nil => rfl
        | cons a more =>
            rw [List.takeWhile_cons_of_neg]
            · rfl
            · intro ha
              have hsign : encode (c :: rest) = encode ['#'] ++ more := by
                rw [hencode, of_decide_eq_true ha]
                rfl
              obtain ⟨u, hu, -⟩ := exists_of_encode_eq_append hsign
              exact hc (List.cons.inj hu).1

theorem byteLength_of_single (h : ∀ c ∈ s, c.utf8Size = 1) : byteLength s = s.length := by
  induction s with
  | nil => rfl
  | cons c rest ih =>
      rw [byteLength_cons, h c List.mem_cons_self,
        ih fun x hx => h x (List.mem_cons_of_mem _ hx), List.length_cons, Nat.add_comm]

theorem byteLength_eq_zero_iff : byteLength s = 0 ↔ s = [] := by
  cases s with
  | nil => exact ⟨fun _ => rfl, fun _ => rfl⟩
  | cons c rest =>
      have hc := c.utf8Size_pos
      rw [byteLength_cons]
      constructor
      · omega
      · intro h
        cases h

end Text

open Text

variable {limit : Nat} {s : List Char}

/-- The offset at which a text is cut, all slices included that are read on the way. -/
def cutOffset? (limit : Nat) (s : List Char) : Option Nat := do
  let bound := snap s (min (byteLength s) limit)
  let offset ←
    if bound < byteLength s then
      (splitAtByte? bound s).map fun cut =>
        (((lastOffset? '\n' cut.1).or (lastOffset? ' ' cut.1)).map (· + 1)).getD bound
    else some bound
  some (if offset = 0 then secondOffset s else offset)

/-- The pieces of a text that is cut by offsets, in some number of rounds at most. -/
def piecesByOffset? (limit : Nat) : Nat → List Char → Option (List (List Char))
  | _, [] => some []
  | 0, _ :: _ => none
  | rounds + 1, c :: rest => do
      let offset ← cutOffset? limit (c :: rest)
      let cut ← splitAtByte? offset (c :: rest)
      let more ← piecesByOffset? limit rounds cut.2
      some (if trim cut.1 = [] then more else trim cut.1 :: more)

/-- The title of a paragraph, with its signs counted in bytes and sliced off. -/
def titleByOffset? (para : List Char) : Option (Option (List Char)) :=
  let line := firstLine para
  let signs := ((encode line).takeWhile (· = 35)).length
  if signs = 0 ∨ 6 < signs then some none
  else
    (splitAtByte? signs line).map fun cut =>
      if cut.2 = [] ∨ cut.2.head? = some ' ' then
        some (trim (trimEnd (· = '#') (trim cut.2)))
      else none

/-- The offset behind the last gap is the length of what is cut off there. -/
theorem map_lastOffset? {c : Char} (hc : c.utf8Size = 1) (front : List Char) :
    (lastOffset? c front).map (· + 1) =
      (cutAfterLast? c front).map fun cut => byteLength cut.1 := by
  cases hcut : cutAfterLast? c front with
  | none => rw [lastOffset?_of_not_mem (cutAfterLast?_eq_none hcut)]; rfl
  | some cut =>
      obtain ⟨piece, left⟩ := cut
      obtain ⟨hsplit, -⟩ := cutAfterLast?_append hcut
      obtain ⟨start, rfl⟩ := cutAfterLast?_eq_some hcut
      rw [← hsplit, List.append_assoc, List.singleton_append,
        lastOffset?_append (not_mem_of_cutAfterLast? hcut)]
      show some (byteLength start + 1) = some (byteLength (start ++ [c]))
      rw [byteLength_append, byteLength_cons, hc]
      rfl

/-- What is cut off of a text of which some fits within the limit and some does not. -/
theorem cutOnce_of_takeBytes {front back : List Char} (htake : takeBytes limit s = (front, back))
    (hfront : front ≠ []) (hback : back ≠ []) :
    (cutOnce limit s).1 =
      (((cutAfterLast? '\n' front).or (cutAfterLast? ' ' front)).map Prod.fst).getD front := by
  obtain ⟨x, front, rfl⟩ := List.exists_cons_of_ne_nil hfront
  obtain ⟨y, back, rfl⟩ := List.exists_cons_of_ne_nil hback
  simp only [cutOnce, htake]
  cases cutAfterLast? '\n' (x :: front) with
  | some cut => rfl
  | none => cases cutAfterLast? ' ' (x :: front) <;> rfl

theorem gapOffset_eq {front back : List Char} (htake : takeBytes limit s = (front, back))
    (hfront : front ≠ []) (hback : back ≠ []) :
    (((lastOffset? '\n' front).or (lastOffset? ' ' front)).map (· + 1)).getD (byteLength front) =
      byteLength (cutOnce limit s).1 := by
  rw [cutOnce_of_takeBytes htake hfront hback, Option.map_or, map_lastOffset? rfl,
    map_lastOffset? rfl]
  cases cutAfterLast? '\n' front with
  | some cut => rfl
  | none => cases cutAfterLast? ' ' front <;> rfl

theorem cutOffset?_eq (limit : Nat) (hs : s ≠ []) :
    cutOffset? limit s = some (byteLength (cutOnce limit s).1) := by
  have hslice := splitAtByte?_snap limit s
  have hne : byteLength (cutOnce limit s).1 ≠ 0 :=
    mt byteLength_eq_zero_iff.1 (cutOnce_ne_nil limit hs)
  rw [snap_eq] at hslice
  simp only [cutOffset?, snap_eq, takeBytes_min]
  cases htake : takeBytes limit s with
  | mk front back =>
      rw [htake] at hslice
      obtain ⟨hsplit, -⟩ := splitAtByte?_eq_some_iff.1 hslice
      cases back with
      | nil =>
          -- all of it fits
          have hcut : cutOnce limit s = (s, []) := by
            rw [cutOnce, htake, hsplit, List.append_nil]
          rw [hcut] at hne ⊢
          rw [List.append_nil] at hsplit
          simp [← hsplit, hne]
      | cons c rest =>
          have hlt : byteLength front < byteLength s := by
            have hc := c.utf8Size_pos
            rw [hsplit, byteLength_append, byteLength_cons]
            omega
          rw [if_pos hlt, hslice]
          cases front with
          | nil =>
              -- nothing fits, so the cut is behind the first character
              have hcut : cutOnce limit s = ([c], rest) := by rw [cutOnce, htake]
              rw [hcut, show s = c :: rest from hsplit]
              cases rest <;> rfl
          | cons x front =>
              have hgap := gapOffset_eq htake (List.cons_ne_nil x front) (List.cons_ne_nil c rest)
              simp [hgap, hne]

theorem piecesByOffset?_eq {rounds : Nat} (h : s.length ≤ rounds) :
    piecesByOffset? limit rounds s = some (cutPieces limit s) := by
  induction rounds generalizing s with
  | zero =>
      have hnil := List.eq_nil_of_length_eq_zero (Nat.le_zero.1 h)
      rw [hnil, piecesByOffset?, cutPieces, dif_pos rfl]
  | succ rounds ih =>
      cases s with
      | nil => rw [piecesByOffset?, cutPieces, dif_pos rfl]
      | cons c rest =>
          have hne : c :: rest ≠ [] := List.cons_ne_nil c rest
          have hcut : splitAtByte? (byteLength (cutOnce limit (c :: rest)).1) (c :: rest) =
              some (cutOnce limit (c :: rest)) :=
            splitAtByte?_eq_some_iff.2 ⟨(cutOnce_append limit _).symm, rfl⟩
          have hrest := ih (Nat.le_of_lt_succ (Nat.lt_of_lt_of_le (cutOnce_length limit hne) h))
          rw [piecesByOffset?, cutOffset?_eq limit hne, cutPieces, dif_neg hne]
          simp only [Option.bind_eq_bind, Option.bind_some, hcut, hrest]

theorem titleByOffset?_eq (para : List Char) : titleByOffset? para = some (titleOf? para) := by
  have hsigns : byteLength ((firstLine para).takeWhile (· = '#')) =
      ((firstLine para).takeWhile (· = '#')).length := by
    refine byteLength_of_single fun c hc => ?_
    have hsign : c = '#' := by simpa using List.mem_takeWhile_imp hc
    rw [hsign]
    rfl
  have hslice : splitAtByte? ((firstLine para).takeWhile (· = '#')).length (firstLine para) =
      some ((firstLine para).takeWhile (· = '#'), (firstLine para).dropWhile (· = '#')) :=
    splitAtByte?_eq_some_iff.2 ⟨List.takeWhile_append_dropWhile.symm, hsigns⟩
  simp only [titleByOffset?, titleOf?, takeWhile_encode, hsigns, hslice, Option.map_some,
    List.length_eq_zero_iff]
  split <;> rfl

end DocWatch
