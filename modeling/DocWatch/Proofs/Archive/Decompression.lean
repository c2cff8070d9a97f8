import DocWatch.Proofs.Archive.Decoding

/-!
# Decompressing a body that is broken off

A body that fails to arrive is decompressed as far as it came, and a reader meets
the failure behind that. What it has met before is no different where the body
goes on: `decompress_append` says of the stream of a body that is broken off, and
of any other that begins with the same pieces, that they are the same, the
failure being of no interest, or that the first one ends with the failure and the
second one goes on behind its bytes (`Stream.Precedes`).

The header, the compressed data and the trailer are gone through one by one. Each
of them either lies within the pieces at hand, and is then found the same, or
asks for more.
-/

namespace DocWatch.Archive

namespace Feed

variable {before : Feed}

theorem failure?_append (before rest : Feed) :
    failure? (before ++ rest) = before.failure?.or rest.failure? := by
  induction before with
  | nil => rfl
  | cons piece before ih =>
      cases piece with
      | data _ => exact ih
      | failure _ => rfl

theorem arrived_append (h : before.failure? = none) (rest : Feed) :
    arrived (before ++ rest) = before.arrived ++ rest.arrived := by
  induction before with
  | nil => rfl
  | cons piece before ih =>
      cases piece with
      | data bytes => exact congrArg (bytes :: ·) (ih h)
      | failure _ => cases h

theorem arrived_append_of_failure (h : before.failure? ≠ none) (rest : Feed) :
    arrived (before ++ rest) = before.arrived := by
  induction before with
  | nil => exact absurd rfl h
  | cons piece before ih =>
      cases piece with
      | data bytes => exact congrArg (bytes :: ·) (ih h)
      | failure _ => rfl

theorem bytes_append (h : before.failure? = none) (rest : Feed) :
    bytes (before ++ rest) = before.bytes ++ rest.bytes := by
  apply ByteArray.ext
  rw [ByteArray.data_append]
  simp only [bytes, arrived_append h, List.flatten_append, List.append_toArray]

theorem bytes_broken (h : before.failure? = none) (e : ReadError) (after : Feed) :
    bytes (before ++ .failure e :: after) = before.bytes := by
  rw [bytes_append h]
  exact ByteArray.append_empty

end Feed

/-- A stream of which another one shows more. -/
structure Stream.Precedes (s s' : Stream) : Prop where
  bytes : ExtendsTo s.bytes s'.bytes
  due_le : s.due ≤ s'.due
  due_le_size : s.due ≤ s.bytes.size

namespace Gzip

variable {data longer : ByteArray} {before : Feed}

/-! ## The pieces -/

theorem pieceEnds_append (start : Nat) (pieces others : List Bytes) :
    pieceEnds start (pieces ++ others) =
      pieceEnds start pieces ++ pieceEnds (start + pieces.flatten.length) others := by
  induction pieces generalizing start with
  | nil => rfl
  | cons piece rest ih =>
      simp only [List.cons_append, pieceEnds, ih, List.append_assoc, List.flatten_cons,
        List.length_append, Nat.add_assoc]

theorem le_of_mem_pieceEnds {start e : Nat} {pieces : List Bytes}
    (h : e ∈ pieceEnds start pieces) : e ≤ start + pieces.flatten.length := by
  induction pieces generalizing start with
  | nil => cases h
  | cons piece rest ih =>
      simp only [pieceEnds, List.mem_append, List.mem_map, List.mem_range, List.mem_cons] at h
      simp only [List.flatten_cons, List.length_append]
      rcases h with ⟨i, hi, rfl⟩ | rfl | h
      · omega
      · omega
      · have := ih h
        omega

theorem end_mem_pieceEnds {pieces : List Bytes} (h : pieces ≠ []) (start : Nat) :
    start + pieces.flatten.length ∈ pieceEnds start pieces := by
  induction pieces generalizing start with
  | nil => exact absurd rfl h
  | cons piece rest ih =>
      simp only [pieceEnds, List.mem_append, List.mem_cons, List.flatten_cons, List.length_append]
      cases rest with
      | nil => exact .inr (.inl rfl)
      | cons next rest => exact .inr (.inr (Nat.add_assoc _ _ _ ▸ ih nofun _))

theorem within_init {start : Nat} (hsize : 10 ≤ before.bytes.size)
    (hstart : start ≤ before.bytes.size) :
    (Inflate.State.init start (pieceEnds 0 before.arrived)).Within before.bytes := by
  have hlength : before.bytes.size = 0 + before.arrived.flatten.length := by
    simp [Feed.bytes, ByteArray.size]
  have hne : before.arrived ≠ [] := by
    intro hnil
    rw [hlength, hnil] at hsize
    cases hsize
  exact ⟨Nat.mul_le_mul_left 8 hstart, Nat.le_refl _,
    fun e he => hlength ▸ le_of_mem_pieceEnds he, hlength ▸ end_mem_pieceEnds hne 0⟩

/-! ## The header -/

/-- A field that is found within some data is found the same where more follows. -/
def Found (data : ByteArray) : Except HeaderFault Nat → Except HeaderFault Nat → Prop
  | .ok i, found => i ≤ data.size ∧ found = .ok i
  | .error .invalid, found => found = .error .invalid
  | .error .short, _ => True

theorem Found.bind {x x' : Except HeaderFault Nat} {f f' : Nat → Except HeaderFault Nat}
    (h : Found data x x') (hf : ∀ i ≤ data.size, Found data (f i) (f' i)) :
    Found data (x >>= f) (x' >>= f') := by
  match x with
  | .ok i =>
      obtain ⟨hi, rfl⟩ := h
      exact hf i hi
  | .error .invalid =>
      obtain rfl := h
      rfl
  | .error .short => trivial

theorem Found.optional {field field' : Nat → Except HeaderFault Nat} {i : Nat} (named : Bool)
    (hi : i ≤ data.size) (h : Found data (field i) (field' i)) :
    Found data (Gzip.optional named field i) (Gzip.optional named field' i) := by
  cases named with
  | true => exact h
  | false => exact ⟨hi, rfl⟩

theorem word16_eq (h : ExtendsTo data longer) {i : Nat} (hi : i + 2 ≤ data.size) :
    word16 longer i = word16 data i := by
  rw [word16, word16, h.byteAt_eq (by omega), h.byteAt_eq (by omega)]

theorem word32_eq (h : ExtendsTo data longer) {i : Nat} (hi : i + 4 ≤ data.size) :
    word32 longer i = word32 data i := by
  rw [word32, word32, word16_eq h (by omega), word16_eq h (by omega)]

theorem found_skipText (h : ExtendsTo data longer) (left i : Nat) :
    Found data (skipText data left i) (skipText longer left i) := by
  have hle := h.size_le
  induction left generalizing i with
  | zero => rfl
  | succ left ih =>
      rw [skipText]
      split
      · rename_i hi
        rw [skipText, dif_pos (Nat.lt_of_lt_of_le hi hle), h.getElem_eq i hi]
        split
        · exact ⟨hi, rfl⟩
        · exact ih (i + 1)
      · trivial

theorem found_skipExtra (h : ExtendsTo data longer) (i : Nat) :
    Found data (skipExtra data i) (skipExtra longer i) := by
  have hle := h.size_le
  rw [skipExtra]
  split
  · trivial
  split
  · trivial
  rw [skipExtra, word16_eq h (by omega), if_neg (by omega), if_neg (by omega)]
  exact ⟨by omega, rfl⟩

theorem found_skipCheck (h : ExtendsTo data longer) (i : Nat) :
    Found data (skipCheck data i) (skipCheck longer i) := by
  have hle := h.size_le
  rw [skipCheck]
  split
  · trivial
  have hlt : ¬ longer.size < i + 2 := by omega
  rw [skipCheck, word16_eq h (by omega), h.extract_eq (by omega), if_neg hlt]
  split
  · rfl
  · exact ⟨by omega, rfl⟩

theorem found_skipFields (h : ExtendsTo data longer) (hsize : 10 ≤ data.size) (flags : UInt8) :
    Found data (skipFields data flags) (skipFields longer flags) := by
  refine (Found.optional _ hsize (found_skipExtra h 10)).bind fun i hi => ?_
  refine (Found.optional _ hi (found_skipText h _ i)).bind fun i hi => ?_
  refine (Found.optional _ hi (found_skipText h _ i)).bind fun i hi => ?_
  exact Found.optional _ hi (found_skipCheck h i)

theorem found_header (h : ExtendsTo data longer) : Found data (header data) (header longer) := by
  have hle := h.size_le
  rw [header]
  split
  · trivial
  have hlt : ¬ longer.size < 10 := by omega
  rw [header, word16_eq h (by omega), h.byteAt_eq (i := 2) (by omega),
    h.byteAt_eq (i := 3) (by omega), if_neg hlt]
  split
  · rfl
  split
  · rfl
  · exact found_skipFields h (by omega) _

theorem size_of_header {start : Nat} (h : header data = .ok start) : 10 ≤ data.size := by
  rw [header] at h
  split at h
  · cases h
  · omega

/-! ## The data and the trailer -/

theorem bytes_trailed (feed : Feed) (d : Inflate.Decoded) : (trailed feed d).bytes = d.out := by
  rw [trailed]
  split
  · rfl
  · rfl
  · split
    · rfl
    · split <;> rfl

theorem due_brokenOff {feed : Feed} {used : Nat} {d : Inflate.Decoded}
    (hd : d.lastRun ≤ d.out.size) :
    d.lastRun ≤ (brokenOff feed used d).due ∧ (brokenOff feed used d).due ≤ d.out.size := by
  simp only [brokenOff]
  split
  · exact ⟨Nat.le_refl _, hd⟩
  · exact ⟨hd, Nat.le_refl _⟩

theorem due_trailed {feed : Feed} {d : Inflate.Decoded} (hd : d.lastRun ≤ d.out.size) :
    d.lastRun ≤ (trailed feed d).due ∧ (trailed feed d).due ≤ d.out.size := by
  have hend : d.lastRun ≤ d.out.size ∧ d.out.size ≤ d.out.size := ⟨hd, Nat.le_refl _⟩
  rw [trailed]
  split
  · exact hend
  · exact due_brokenOff hd
  · split
    · exact due_brokenOff hd
    · split <;> exact hend

/-- A broken body whose data is decoded to the end: the trailer is at hand too, or
the failure comes before it. -/
theorem trailed_finished {broken longer : Feed} {e : ReadError} (he : broken.failure? = some e)
    (hext : ExtendsTo broken.bytes longer.bytes) {d : Inflate.Decoded}
    (hd : d.lastRun ≤ d.out.size) {used : Nat} (hused : used ≤ broken.bytes.size)
    (hending : d.ending = .finished used) :
    trailed longer d = trailed broken d ∨
      (trailed broken d).ending = some e ∧ (trailed broken d).Precedes (trailed longer d) := by
  have hle := hext.size_le
  by_cases hshort : broken.bytes.size < used + 8
  · have hbroken : trailed broken d = brokenOff broken used d := by
      simp only [trailed, hending, if_pos hshort]
    refine .inr ⟨?_, ?_, ?_, ?_⟩
    · simp only [hbroken, brokenOff, he, Option.getD_some]
    · rw [bytes_trailed, bytes_trailed]
      exact .refl _
    · by_cases heq : used = broken.bytes.size
      · rw [hbroken]
        simp only [brokenOff, he, heq, Option.isSome_some, decide_true, Bool.and_self, if_true]
        exact (due_trailed hd).1
      · -- with data left behind `used` in both bodies, all bytes are handed out
        have hnot : ¬ used = longer.bytes.size := by omega
        have hlonger : (trailed longer d).due = d.out.size := by
          simp only [trailed, hending, brokenOff, hnot, decide_false, Bool.and_false,
            Bool.false_eq_true, if_false]
          split
          · rfl
          · split <;> rfl
        exact hlonger ▸ (due_trailed hd).2
    · rw [bytes_trailed]
      exact (due_trailed hd).2
  · left
    have hnot : ¬ longer.bytes.size < used + 8 := by omega
    simp only [trailed, hending, if_neg hshort, if_neg hnot, word32_eq hext (i := used) (by omega),
      word32_eq hext (i := used + 4) (by omega)]

/-- A broken body whose data is not decoded to the end. -/
theorem trailed_exhausted {broken longer : Feed} {e : ReadError} (he : broken.failure? = some e)
    {d d' : Inflate.Decoded} (hd : d.lastRun ≤ d.out.size) (hd' : d'.lastRun ≤ d'.out.size)
    (hending : d.ending = .exhausted) (h : d.Precedes d') :
    (trailed broken d).ending = some e ∧ (trailed broken d).Precedes (trailed longer d') := by
  have hbroken : trailed broken d = ⟨d.out, some e, d.lastRun⟩ := by
    simp only [trailed, hending, brokenOff, he, Option.isSome_some, decide_true, Bool.and_self,
      if_true, Option.getD_some]
  rw [hbroken]
  refine ⟨rfl, ?_, Nat.le_trans h.lastRun (due_trailed hd').1, hd⟩
  rw [bytes_trailed]
  exact h.out

/-- The stream of a body that is broken off, and of any other that begins with
the same pieces. -/
theorem decompress_append (hbefore : before.failure? = none) (e : ReadError)
    (after rest : Feed) :
    decompress (before ++ rest) = decompress (before ++ .failure e :: after) ∨
      (decompress (before ++ .failure e :: after)).ending = some e ∧
        (decompress (before ++ .failure e :: after)).Precedes (decompress (before ++ rest)) := by
  have hext : ExtendsTo before.bytes (before ++ rest : Feed).bytes := by
    rw [Feed.bytes_append hbefore]
    exact .append _ _
  have harrived := Feed.arrived_append hbefore rest
  have hbytes : (before ++ .failure e :: after : Feed).bytes = before.bytes :=
    Feed.bytes_broken hbefore e after
  have harrived' : (before ++ .failure e :: after : Feed).arrived = before.arrived := by
    rw [Feed.arrived_append hbefore]
    exact List.append_nil _
  have hfailure : (before ++ .failure e :: after : Feed).failure? = some e := by
    rw [Feed.failure?_append, hbefore]
    rfl
  generalize before ++ rest = longer at hext harrived ⊢
  generalize before ++ .failure e :: after = broken at hbytes harrived' hfailure ⊢
  have hfound := found_header hext
  rw [decompress, decompress, hbytes, harrived, harrived']
  cases hheader : header before.bytes with
  | error fault =>
      rw [hheader] at hfound
      cases fault with
      | short =>
          refine .inr ⟨by rw [hfailure]; rfl, ⟨Nat.zero_le _, nofun⟩, Nat.zero_le _, Nat.zero_le _⟩
      | invalid => exact .inl (by rw [hfound])
  | ok start =>
      rw [hheader] at hfound
      obtain ⟨hstart, hfound⟩ := hfound
      have hinit := within_init (size_of_header hheader) hstart
      simp only [hfound, pieceEnds_append]
      rcases Inflate.inflate_append hext hinit (pieceEnds (0 + before.arrived.flatten.length)
        rest.arrived) with ⟨hending, hprecedes⟩ | ⟨heq, hending⟩
      · exact .inr (trailed_exhausted hfailure (Inflate.lastRun_le _ _ _)
          (Inflate.lastRun_le _ _ _) hending hprecedes)
      · rw [heq]
        rcases hending with hcorrupt | ⟨used, hused, hfinished⟩
        · left
          simp only [trailed, hcorrupt]
        · exact trailed_finished hfailure (hbytes ▸ hext) (Inflate.lastRun_le _ _ _)
            (hbytes ▸ hused) hfinished

end Gzip
end DocWatch.Archive
