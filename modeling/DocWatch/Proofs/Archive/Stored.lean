import DocWatch.Proofs.Archive.Decompression
import DocWatch.Proofs.Archive.Extraction

/-!
# Archives that are not compressed

The decoder and the reader of members have their laws elsewhere, about archives that
are cut short or damaged. This file goes the other way round and makes an archive. A
DEFLATE stream may hold its contents as they are, in blocks of up to 64 KiB, and a
plain file takes a header and whole blocks of contents. So `Gzip.stored` and
`Tar.single` write a body with one document, and `extract_single` gets the document
back, whatever it is.

Nothing has to be computed for that. The check sum of the contents is written by the
same function that checks it.
-/

namespace DocWatch.Archive

/-! ## Bytes of a list -/

section

variable {l before after : Bytes} {i : Nat}

theorem size_ofList (l : Bytes) : (ByteArray.mk l.toArray).size = l.length :=
  List.size_toArray

theorem byteAt_ofList (l : Bytes) (i : Nat) : byteAt ⟨l.toArray⟩ i = l.getD i 0 := by
  rw [byteAt, List.getD_eq_getElem?_getD]
  split
  · rename_i h
    have hi : i < l.length := size_ofList l ▸ h
    rw [List.getElem?_eq_getElem hi]
    exact List.getElem_toArray hi
  · rename_i h
    rw [size_ofList] at h
    rw [List.getElem?_eq_none (Nat.le_of_not_lt h)]
    rfl

theorem toList_loop (data : ByteArray) (i : Nat) (r : Bytes) :
    ByteArray.toList.loop data i r = r.reverse ++ data.data.toList.drop i := by
  induction i, r using ByteArray.toList.loop.induct data with
  | case1 i r hlt ih =>
      have hget : data.data.toList.drop i = data.get! i :: data.data.toList.drop (i + 1) := by
        have hi : i < data.data.toList.length := hlt
        rw [List.drop_eq_getElem_cons hi]
        simp [ByteArray.get!, hlt]
      rw [ByteArray.toList.loop, if_pos hlt, ih, hget, List.reverse_cons, List.append_assoc]
      rfl
  | case2 i r hge =>
      have hi : data.data.toList.length ≤ i := Nat.le_of_not_lt hge
      rw [ByteArray.toList.loop, if_neg hge, List.drop_eq_nil_of_le hi, List.append_nil]

theorem slice_ofList (l : Bytes) (start n : Nat) :
    slice ⟨l.toArray⟩ start n = (l.drop start).take n := by
  rw [slice, ByteArray.toList, toList_loop]
  simp [ByteArray.data_extract]

end

namespace Inflate

variable {data : ByteArray} {i : Nat}

theorem bitAt_byte (hi : i < data.size) {k : Nat} (hk : k < 8) :
    bitAt data (8 * i + k) = some ((byteAt data i).toNat / Nat.pow 2 k % 2) := by
  have hdiv : (8 * i + k) / 8 = i := by omega
  have hmod : (8 * i + k) % 8 = k := by omega
  rw [bitAt, byteAt, dif_pos hi]
  simp only [hdiv, hmod, dif_pos hi]

theorem bitsAt_byte (data : ByteArray) {k n : Nat} (hi : i < data.size) (hk : k + n ≤ 8) :
    bitsAt data (8 * i + k) n =
      some ((byteAt data i).toNat / Nat.pow 2 k % Nat.pow 2 n) := by
  induction n generalizing k with
  | zero => exact congrArg some (Nat.mod_one _).symm
  | succ n ih =>
      have hdiv : (byteAt data i).toNat / Nat.pow 2 (k + 1) =
          (byteAt data i).toNat / Nat.pow 2 k / 2 := (Nat.div_div_eq_div_mul _ _ _).symm
      have hmod : Nat.pow 2 (n + 1) = 2 * Nat.pow 2 n := Nat.mul_comm _ _
      rw [bitsAt, bitAt_byte hi (by omega), Nat.add_assoc, ih (by omega), hdiv, hmod, Nat.mod_mul]
      rfl

theorem bitsAt_add (data : ByteArray) (position m n : Nat) :
    bitsAt data position (m + n) = (bitsAt data position m).bind fun low =>
      (bitsAt data (position + m) n).map fun high => low + Nat.pow 2 m * high := by
  induction m generalizing position with
  | zero => simp [bitsAt]
  | succ m ih =>
      have hstart : position + 1 + m = position + (m + 1) := by omega
      have hcount : m + 1 + n = m + n + 1 := by omega
      rw [hcount, bitsAt, bitsAt, ih, hstart]
      cases bitAt data position with
      | none => rfl
      | some first =>
          cases bitsAt data (position + 1) m with
          | none => rfl
          | some low =>
              cases bitsAt data (position + (m + 1)) n with
              | none => rfl
              | some high =>
                  have hpow : Nat.pow 2 (m + 1) = 2 * Nat.pow 2 m := Nat.mul_comm _ _
                  have h : first + 2 * (low + Nat.pow 2 m * high) =
                      first + 2 * low + Nat.pow 2 (m + 1) * high := by
                    rw [hpow, Nat.mul_add, Nat.mul_assoc, Nat.add_assoc]
                  exact congrArg some h

/-- Eight bits from a whole byte on are the byte. -/
theorem bits_byte (hi : i < data.size) :
    Step.bits data (8 * i) 8 = .value (byteAt data i).toNat (8 * (i + 1)) := by
  have h := bitsAt_byte data (k := 0) (n := 8) hi (Nat.le_refl _)
  have hlt : (byteAt data i).toNat < 256 := (byteAt data i).toNat_lt
  rw [Step.bits, show 8 * i = 8 * i + 0 from rfl, h]
  have hvalue : (byteAt data i).toNat / Nat.pow 2 0 % Nat.pow 2 8 = (byteAt data i).toNat := by
    change _ / 1 % 256 = _
    omega
  rw [hvalue]
  rfl

theorem bits_word (hi : i + 1 < data.size) :
    Step.bits data (8 * i) 16 = .value (Gzip.word16 data i) (8 * (i + 2)) := by
  have hlow := bitsAt_byte data (i := i) (k := 0) (n := 8) (by omega) (Nat.le_refl _)
  have hhigh := bitsAt_byte data (k := 0) (n := 8) hi (Nat.le_refl _)
  have hlt : (byteAt data i).toNat < 256 := (byteAt data i).toNat_lt
  have hlt' : (byteAt data (i + 1)).toNat < 256 := (byteAt data (i + 1)).toNat_lt
  have hword : bitsAt data (8 * i) (8 + 8) = some (Gzip.word16 data i) := by
    rw [bitsAt_add, show 8 * i = 8 * i + 0 from rfl, hlow,
      show 8 * i + 0 + 8 = 8 * (i + 1) + 0 by omega, hhigh]
    refine congrArg some ?_
    change _ / 1 % 256 + 256 * (_ / 1 % 256) = _
    rw [Gzip.word16]
    omega
  rw [Step.bits, hword]
  rfl

/-- What is left of a stored block is taken over byte by byte. -/
theorem run_stored_all {fuel n : Nat} {last : Bool} {s : State} (hs : s.position = 8 * i)
    (hn : i + n ≤ data.size) :
    ∃ t : State, run data (fuel + n) (.stored n last) s = run data fuel (.stored 0 last) t ∧
      t.position = 8 * (i + n) ∧
      t.out.data.toList = s.out.data.toList ++ (data.data.toList.drop i).take n := by
  induction n generalizing i s with
  | zero => exact ⟨s, rfl, hs, (List.append_nil _).symm⟩
  | succ n ih =>
      have hi : i < data.size := by omega
      have hdrop : data.data.toList.drop i = byteAt data i :: data.data.toList.drop (i + 1) := by
        rw [byteAt, dif_pos hi]
        exact List.drop_eq_getElem_cons hi
      obtain ⟨t, hrun, hposition, hout⟩ := @ih (i + 1)
        ((s.moveTo (8 * (i + 1))).push (byteAt data i)) (State.moveTo_position _ _) (by omega)
      refine ⟨t, ?_, ?_, ?_⟩
      · rw [← Nat.add_assoc, run_stored, hs, bits_byte hi, Step.thenRun, UInt8.ofNat_toNat, hrun]
      · rw [hposition]
        omega
      · have hpush : ((s.moveTo (8 * (i + 1))).push (byteAt data i)).out.data.toList =
            s.out.data.toList ++ [byteAt data i] := by
          rw [State.push, ByteArray.data_push, Array.toList_push, State.moveTo_out]
        rw [hout, hpush, hdrop, List.take_succ_cons, List.append_assoc]
        rfl

end Inflate

namespace Gzip

/-- A number in a fixed number of bytes, the lowest first. -/
def littleEndian (count n : Nat) : Bytes :=
  (List.range count).map fun k => UInt8.ofNat (n / Nat.pow 256 k)

/-- The header of a member without further fields. -/
def plainHeader : Bytes := [31, 139, 8, 0, 0, 0, 0, 0, 0, 255]

/-- What stands before contents of some length that are wrapped up as they are: the
header of the member, and the one of its only block. -/
def preamble (length : Nat) : Bytes :=
  plainHeader ++ 1 :: (littleEndian 2 length ++ littleEndian 2 (65535 - length))

/-- Contents wrapped up as they are, in a single block. -/
def stored (contents : Bytes) : Bytes :=
  preamble contents.length ++ (contents ++
    (littleEndian 4 (crc32 ⟨contents.toArray⟩).toNat ++ littleEndian 4 contents.length))

theorem byteAt_append (before after : Bytes) (k : Nat) :
    byteAt ⟨(before ++ after).toArray⟩ (before.length + k) = after.getD k 0 := by
  rw [byteAt_ofList, List.getD_eq_getElem?_getD, List.getElem?_append_right (by omega),
    Nat.add_sub_cancel_left, List.getD_eq_getElem?_getD]

theorem word16_littleEndian {n : Nat} (hn : n < 65536) (before after : Bytes) :
    word16 ⟨(before ++ (littleEndian 2 n ++ after)).toArray⟩ before.length = n := by
  have hbyte := byteAt_append before (littleEndian 2 n ++ after)
  have h0 : byteAt _ before.length = UInt8.ofNat (n / 1) := hbyte 0
  have h1 : byteAt _ (before.length + 1) = UInt8.ofNat (n / 256) := hbyte 1
  rw [word16, h0, h1, UInt8.toNat_ofNat', UInt8.toNat_ofNat']
  omega

theorem word32_littleEndian {n : Nat} (hn : n < 4294967296) (before after : Bytes) :
    word32 ⟨(before ++ (littleEndian 4 n ++ after)).toArray⟩ before.length = n := by
  have hbyte := byteAt_append before (littleEndian 4 n ++ after)
  have h0 : byteAt _ before.length = UInt8.ofNat (n / 1) := hbyte 0
  have h1 : byteAt _ (before.length + 1) = UInt8.ofNat (n / 256) := hbyte 1
  have h2 : byteAt _ (before.length + 2) = UInt8.ofNat (n / 65536) := hbyte 2
  have h3 : byteAt _ (before.length + 2 + 1) = UInt8.ofNat (n / 16777216) := hbyte 3
  rw [word32, word16, word16, h0, h1, h2, h3]
  simp only [UInt8.toNat_ofNat']
  omega

theorem bytes_single (l : Bytes) : Feed.bytes [.data l] = ⟨l.toArray⟩ := by
  change ByteArray.mk (l ++ []).toArray = _
  rw [List.append_nil]

variable {contents : Bytes}

theorem length_stored (contents : Bytes) :
    (stored contents).length = 23 + contents.length := by
  rw [stored, List.length_append, List.length_append]
  change 15 + (contents.length + 8) = _
  omega

theorem header_stored (contents : Bytes) : header ⟨(stored contents).toArray⟩ = .ok 10 := by
  have hbyte (k : Nat) := byteAt_ofList (stored contents) k
  have hsize : ¬ (ByteArray.mk (stored contents).toArray).size < 10 := by
    rw [size_ofList, length_stored]
    omega
  have h0 : byteAt _ 0 = 31 := hbyte 0
  have h1 : byteAt _ (0 + 1) = 139 := hbyte 1
  have h2 : byteAt _ 2 = 8 := hbyte 2
  have h3 : byteAt _ 3 = 0 := hbyte 3
  rw [header, if_neg hsize, word16, h0, h1, h2, h3]
  rfl

/-- The parts of a wrapping, from its first length on. -/
theorem stored_eq (contents : Bytes) :
    stored contents = (plainHeader ++ [1]) ++ (littleEndian 2 contents.length ++
      (littleEndian 2 (65535 - contents.length) ++ (contents ++
        (littleEndian 4 (crc32 ⟨contents.toArray⟩).toNat ++
          littleEndian 4 contents.length)))) := by
  simp only [stored, preamble, List.append_assoc, List.cons_append, List.nil_append]

theorem lengths_stored (h : contents.length < 65536) :
    word16 ⟨(stored contents).toArray⟩ 11 = contents.length ∧
      word16 ⟨(stored contents).toArray⟩ 13 = 65535 - contents.length := by
  constructor
  · rw [stored_eq]
    exact word16_littleEndian h (plainHeader ++ [1]) _
  · rw [stored_eq, ← List.append_assoc]
    exact word16_littleEndian (by omega) (plainHeader ++ [1] ++ littleEndian 2 contents.length) _

theorem trailer_stored (h : contents.length < 65536) :
    word32 ⟨(stored contents).toArray⟩ (15 + contents.length) =
        (crc32 ⟨contents.toArray⟩).toNat ∧
      word32 ⟨(stored contents).toArray⟩ (15 + contents.length + 4) = contents.length := by
  have hcrc : (crc32 ⟨contents.toArray⟩).toNat < 4294967296 := (crc32 _).toNat_lt
  have hfront : (preamble contents.length ++ contents).length = 15 + contents.length :=
    List.length_append
  constructor
  · have := word32_littleEndian hcrc (preamble contents.length ++ contents)
      (littleEndian 4 contents.length)
    rw [hfront, List.append_assoc] at this
    exact this
  · have := word32_littleEndian (n := contents.length) (by omega) (preamble contents.length ++
      contents ++ littleEndian 4 (crc32 ⟨contents.toArray⟩).toNat) []
    rw [List.length_append, hfront, List.append_nil, List.append_assoc, List.append_assoc] at this
    exact this

theorem blockHeader_stored (h : contents.length < 65536) :
    Inflate.blockHeader ⟨(stored contents).toArray⟩ (8 * 10) =
      .value (.stored contents.length true) (8 * 15) := by
  have hsize : (ByteArray.mk (stored contents).toArray).size = 23 + contents.length := by
    rw [size_ofList, length_stored]
  have hbyte : byteAt ⟨(stored contents).toArray⟩ 10 = 1 := byteAt_ofList (stored contents) 10
  obtain ⟨hlength, hcheck⟩ := lengths_stored h
  generalize ByteArray.mk (stored contents).toArray = data at *
  have hlast : Inflate.Step.bits data (8 * 10) 1 = .value 1 81 := by
    have hbits := Inflate.bitsAt_byte data (i := 10) (k := 0) (n := 1) (by omega) (by omega)
    rw [hbyte] at hbits
    rw [Inflate.Step.bits, show 8 * 10 = 8 * 10 + 0 from rfl, hbits]
    rfl
  have hkind : Inflate.Step.bits data 81 2 = .value 0 83 := by
    have hbits := Inflate.bitsAt_byte data (i := 10) (k := 1) (n := 2) (by omega) (by omega)
    rw [hbyte] at hbits
    rw [Inflate.Step.bits, show 81 = 8 * 10 + 1 from rfl, hbits]
    rfl
  rw [Inflate.blockHeader, hlast, Inflate.Step.andThen, hkind, Inflate.Step.andThen]
  change (Inflate.Step.bits _ (8 * 11) 16).andThen _ = _
  rw [Inflate.bits_word (by omega), hlength, Inflate.Step.andThen,
    Inflate.bits_word (i := 13) (by omega), hcheck, Inflate.Step.andThen, if_pos (by omega)]
  rfl

theorem inflate_stored (h : contents.length < 65536) (ends : List Nat) :
    ∃ settled, Inflate.inflate ⟨(stored contents).toArray⟩ 10 ends =
      ⟨⟨contents.toArray⟩, .finished (15 + contents.length), settled⟩ := by
  have hsize : (ByteArray.mk (stored contents).toArray).size = 23 + contents.length := by
    rw [size_ofList, length_stored]
  have hcontents : ((ByteArray.mk (stored contents).toArray).data.toList.drop 15).take
      contents.length = contents := by
    change ((preamble contents.length ++ _).drop (preamble contents.length).length).take _ = _
    rw [List.drop_left, List.take_left]
  have hblock := blockHeader_stored h
  generalize ByteArray.mk (stored contents).toArray = data at *
  -- One unit of fuel goes to the block, one to each byte, and two to the end.
  obtain ⟨rest, hfuel⟩ : ∃ rest,
      16 * (23 + contents.length) + 16 = rest + 1 + 1 + contents.length + 1 :=
    ⟨16 * (23 + contents.length) + 13 - contents.length, by omega⟩
  obtain ⟨t, hrun, hposition, hout⟩ := @Inflate.run_stored_all data 15 (rest + 1 + 1)
    contents.length true ((Inflate.State.init 10 ends).moveTo (8 * 15))
    (Inflate.State.moveTo_position _ _) (by omega)
  have ht : t.out = ⟨contents.toArray⟩ := by
    rw [hcontents, Inflate.State.moveTo_out] at hout
    exact ByteArray.ext (Array.ext' hout)
  have hused : (8 * (15 + contents.length) + 7) / 8 = 15 + contents.length := by omega
  have hall : Inflate.run data (16 * data.size + 16) .block (.init 10 ends) =
      (t, .finished (15 + contents.length)) := by
    rw [hsize, hfuel, Inflate.run_block]
    change (Inflate.blockHeader data (8 * 10)).thenRun _ _ = _
    rw [hblock, Inflate.Step.thenRun, hrun]
    change (t, Inflate.Ending.finished ((t.position + 7) / 8)) = _
    rw [hposition, hused]
  refine ⟨t.settled, ?_⟩
  rw [Inflate.inflate_eq, hall, ← ht]
  rfl

/-- What is wrapped up as it is comes out again. -/
theorem decompress_stored (h : contents.length < 65536) :
    decompress [.data (stored contents)] = .toEnd ⟨contents.toArray⟩ none := by
  have hsize : (ByteArray.mk (stored contents).toArray).size = 23 + contents.length := by
    rw [size_ofList, length_stored]
  have hlt : ¬ 23 + contents.length < 15 + contents.length + 8 := by omega
  have hpow : contents.length = (ByteArray.mk contents.toArray).size % Nat.pow 2 32 := by
    rw [size_ofList]
    exact (Nat.mod_eq_of_lt (Nat.lt_trans h (by decide))).symm
  obtain ⟨settled, hinflate⟩ := inflate_stored h (pieceEnds 0 [stored contents])
  obtain ⟨hcrc, hlength⟩ := trailer_stored h
  rw [decompress, bytes_single, header_stored]
  change trailed _ (Inflate.inflate _ 10 (pieceEnds 0 [stored contents])) = _
  rw [hinflate, trailed, bytes_single]
  change (if _ < 15 + contents.length + 8 then _ else _) = _
  rw [hsize, if_neg hlt, if_pos ⟨hcrc, hlength.trans hpow⟩]

end Gzip

namespace Tar

variable {s : Stream} {fuel start sum size : Nat} {header : Header}

/-- A header for a plain file: its sum is right, and it brings nothing for the next
member. -/
structure Header.PlainFile (header : Header) (size : Nat) : Prop where
  sum : octalField? (header.field 148 8) = some header.sum
  sum_lt : header.sum < Nat.pow 2 32
  size : number? (header.field 124 12) = some size
  unmarked : header.isGnu = false ∧ header.isPosix = false
  kind : header.kind ≠ 83

theorem membersFrom_file (hheader : header? s start = .ok (some header))
    (hfile : header.PlainFile size)
    (hsize : size + blockSize - 1 < Nat.pow 2 64)
    (hnext : start + blockSize + (size + blockSize - 1) / blockSize * blockSize < Nat.pow 2 64) :
    membersFrom s (fuel + 1) start .nothing =
      ⟨⟨String.ofList (Text.decodeLossy header.name), header.kind = 0 || header.kind = 48, size,
          payloadAt s (start + blockSize) size⟩ ::
        (membersFrom s fuel (start + blockSize + (size + blockSize - 1) / blockSize * blockSize)
          .nothing).members,
        (membersFrom s fuel (start + blockSize + (size + blockSize - 1) / blockSize * blockSize)
          .nothing).ending⟩ := by
  have hsum : ¬ header.sum ≠ header.sum % Nat.pow 2 32 :=
    not_not_intro (Nat.mod_eq_of_lt hfile.sum_lt).symm
  have hfits : ¬ (Nat.pow 2 64 ≤ size + blockSize - 1 ∨
      Nat.pow 2 64 ≤ start + blockSize + (size + blockSize - 1) / blockSize * blockSize) := by
    omega
  rw [membersFrom, hheader]
  have hsize : (paxSize? []).getD size = size := rfl
  simp only [hfile.sum, hfile.size, if_neg hsum, Announced.nothing, Option.map_none,
    Option.getD_none, hsize, if_neg hfits, hfile.unmarked, Bool.or_self, Bool.false_and,
    Bool.false_eq_true, if_false, if_neg hfile.kind]
  rfl

theorem header?_ofList {l : Bytes} (hlength : start + blockSize ≤ l.length)
    (hzero : ((l.drop start).take blockSize).all (· = 0) = false) :
    header? (.toEnd ⟨l.toArray⟩ none) start = .ok (some ⟨(l.drop start).take blockSize⟩) := by
  have hpos : 0 < blockSize := by decide
  rw [header?]
  simp only [Stream.toEnd, size_ofList, slice_ofList, hzero]
  rw [if_neg (by omega), if_neg (by omega), if_neg (by omega)]
  rfl

theorem header?_end (l : Bytes) : header? (.toEnd ⟨l.toArray⟩ none) l.length = .ok none := by
  have hsize : (Stream.toEnd ⟨l.toArray⟩ none).bytes.size = l.length := size_ofList l
  have hdue : ¬ (Stream.toEnd ⟨l.toArray⟩ none).due < l.length :=
    Nat.not_lt.2 (Nat.le_of_eq hsize.symm)
  rw [header?, if_neg hdue, if_pos hsize]
  rfl

theorem membersFrom_end (hheader : header? s start = .ok none) :
    membersFrom s (fuel + 1) start .nothing = ⟨[], none⟩ := by
  rw [membersFrom, hheader]
  rfl

/-- An archive of one plain file: its header, and its contents filled up to whole
blocks. -/
def single (header : Header) (contents : Bytes) : Bytes :=
  header.bytes ++ (contents ++ List.replicate
    ((contents.length + blockSize - 1) / blockSize * blockSize - contents.length) 0)

theorem listing_single {contents : Bytes} (hheader : header.bytes.length = blockSize)
    (hzero : header.bytes.all (· = 0) = false) (hfile : header.PlainFile contents.length)
    (hlength : contents.length < 65536) :
    listing (.toEnd ⟨(single header contents).toArray⟩ none) =
      ⟨[⟨String.ofList (Text.decodeLossy header.name), header.kind = 0 || header.kind = 48,
        contents.length, .read contents⟩], none⟩ := by
  have hpow : Nat.pow 2 64 = 18446744073709551616 := rfl
  have hblock : blockSize = 512 := rfl
  obtain ⟨hfits, hfilled⟩ : contents.length ≤
        (contents.length + blockSize - 1) / blockSize * blockSize ∧
      (contents.length + blockSize - 1) / blockSize * blockSize < contents.length + blockSize := by
    rw [hblock]
    omega
  have hsize : (single header contents).length =
      0 + blockSize + (contents.length + blockSize - 1) / blockSize * blockSize := by
    simp only [single, List.length_append, List.length_replicate, hheader]
    omega
  have hfront : ((single header contents).drop 0).take blockSize = header.bytes := by
    rw [List.drop_zero, single, ← hheader, List.take_left]
  have hfirst : header? (.toEnd ⟨(single header contents).toArray⟩ none) 0 =
      .ok (some header) := by
    rw [header?_ofList (by omega) (by rw [hfront]; exact hzero), hfront]
  have hpayload : payloadAt (.toEnd ⟨(single header contents).toArray⟩ none) (0 + blockSize)
      contents.length = .read contents := by
    rw [payloadAt]
    simp only [Stream.toEnd, size_ofList, slice_ofList]
    rw [if_pos (.inr (by omega)), Nat.zero_add, single, ← hheader, List.drop_left, List.take_left]
  rw [listing, membersFrom_file hfirst hfile (by omega) (by omega), hpayload, ← hsize,
    membersFrom_end (header?_end _)]

theorem length_single_le (contents : Bytes) (hheader : header.bytes.length = blockSize) :
    (single header contents).length ≤ contents.length + 2 * blockSize := by
  have hblock : blockSize = 512 := rfl
  have hfilled : (contents.length + blockSize - 1) / blockSize * blockSize <
      contents.length + blockSize := by
    rw [hblock]
    omega
  simp only [single, List.length_append, List.length_replicate, hheader]
  omega

end Tar

variable {f : Filter} {contents : Bytes} {path : String}

theorem Progress.take_start {m : Member} (hread : m.payload = .read contents)
    (hsize : m.size = contents.length) (hbytes : contents.length ≤ f.maxBytes)
    (hfiles : 0 < f.maxFiles) :
    Progress.start.take f path m =
      .ok ⟨.ofDocuments [⟨path, contents⟩], 0 + contents.length⟩ := by
  rw [take, hread, hsize]
  change (if f.maxBytes < contents.length then _ else if f.maxFiles ≤ 0 then _ else
    if contents.length = contents.length then _ else _) = _
  rw [if_neg (Nat.not_lt.2 hbytes), if_neg (Nat.not_le.2 hfiles), if_pos rfl]
  rfl

/-- An archive of one document that is not compressed is extracted to that document. -/
theorem extract_single {header : Tar.Header} (hheader : header.bytes.length = Tar.blockSize)
    (hzero : header.bytes.all (· = 0) = false) (hfile : header.PlainFile contents.length)
    (hlength : contents.length + 2 * Tar.blockSize < 65536)
    (hpath : f.pathOf? ⟨String.ofList (Text.decodeLossy header.name),
      header.kind = 0 || header.kind = 48, contents.length, .read contents⟩ = some path)
    (hbytes : contents.length ≤ f.maxBytes) (hfiles : 0 < f.maxFiles) :
    extract f [.data (Gzip.stored (Tar.single header contents))] =
      .ok (.ofDocuments [⟨path, contents⟩]) := by
  have hsize := Tar.length_single_le contents hheader
  rw [extract, Gzip.decompress_stored (by omega),
    Tar.listing_single hheader hzero hfile (by omega), Listing.extract,
    Progress.takeAll_singleton, Progress.next_of_accepts (Filter.pathOf?_eq_some_iff.1 hpath),
    Progress.take_start rfl rfl hbytes hfiles]
  rfl

/-- The header of a document of two bytes. -/
def shortHeader : Tar.Header where
  bytes :=
    let zeros (n : Nat) : Bytes := List.replicate n 0
    Text.encode "docs-main/docs/a.md".toList ++ zeros 81 ++ Text.encode "0000644".toList ++
      zeros 17 ++ Text.encode "00000000002".toList ++ zeros 13 ++
      Text.encode "005602".toList ++ [0, 32, 48] ++ zeros 355

/-- An archive of that document. -/
def shortArchive : Feed :=
  [.data (Gzip.stored (Tar.single shortHeader (Text.encode "hi".toList)))]

theorem extract_shortArchive :
    extract .standard shortArchive = .ok (.ofDocuments [⟨"a.md", Text.encode "hi".toList⟩]) := by
  have hfile : shortHeader.PlainFile 2 := by
    constructor <;> decide +kernel
  exact extract_single (by decide +kernel) (by decide +kernel) hfile (by decide)
    (by decide +kernel) (by decide) (by decide)

end DocWatch.Archive
