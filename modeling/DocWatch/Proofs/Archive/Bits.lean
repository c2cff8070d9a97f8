import DocWatch.Archive.Inflate

/-!
# Reading the bits of a body that goes on

A decoder that is given the beginning of some data, and one that is given more of
it, take the same steps for as long as the beginning lasts. The first one then
stops, and the other goes on behind the last of its bits.

`Reader.Steady` says this of a reader of bits: it never steps back, what it makes
of the data within the beginning it makes of the whole, and where the beginning
is too short for it, it ends behind the beginning. Readers are put together from
smaller ones by `andThen`, and so is the proof that they are steady.
-/

namespace DocWatch.Archive

/-- Data that begins with other data. -/
structure ExtendsTo (data longer : ByteArray) : Prop where
  size_le : data.size ≤ longer.size
  getElem_eq : ∀ i (h : i < data.size), longer[i] = data[i]

namespace ExtendsTo

variable {data longer longest : ByteArray}

theorem refl (data : ByteArray) : ExtendsTo data data :=
  ⟨Nat.le_refl _, fun _ _ => rfl⟩

theorem trans (h : ExtendsTo data longer) (h' : ExtendsTo longer longest) :
    ExtendsTo data longest :=
  ⟨Nat.le_trans h.size_le h'.size_le, fun i hi =>
    (h'.getElem_eq i (Nat.lt_of_lt_of_le hi h.size_le)).trans (h.getElem_eq i hi)⟩

theorem push (data : ByteArray) (b : UInt8) : ExtendsTo data (data.push b) := by
  refine ⟨by rw [ByteArray.size_push]; omega, fun i hi => ?_⟩
  exact Array.getElem_push_lt hi

theorem append (data more : ByteArray) : ExtendsTo data (data ++ more) :=
  ⟨by rw [ByteArray.size_append]; omega, fun _ hi => ByteArray.getElem_append_left hi⟩

theorem extract_eq (h : ExtendsTo data longer) {start stop : Nat} (hs : stop ≤ data.size) :
    longer.extract start stop = data.extract start stop := by
  have hle := h.size_le
  refine ByteArray.ext_getElem ?_ fun i hi hi' => ?_
  · simp only [ByteArray.size_extract]
    omega
  · simp only [ByteArray.getElem_extract]
    rw [ByteArray.size_extract] at hi'
    exact h.getElem_eq _ (by omega)

theorem byteAt_eq (h : ExtendsTo data longer) {i : Nat} (hi : i < data.size) :
    byteAt longer i = byteAt data i := by
  rw [byteAt, byteAt, dif_pos hi, dif_pos (Nat.lt_of_lt_of_le hi h.size_le)]
  exact h.getElem_eq i hi

end ExtendsTo

namespace Inflate

variable {data longer : ByteArray} {position : Nat} {α β : Type}

/-! ## Bits -/

theorem bitAt_eq_none_iff : bitAt data position = none ↔ 8 * data.size ≤ position := by
  rw [bitAt]
  split
  · simp only [reduceCtorEq, false_iff]
    omega
  · simp only [true_iff]
    omega

theorem bitAt_of_extends (h : ExtendsTo data longer) (hp : position < 8 * data.size) :
    bitAt longer position = bitAt data position := by
  have hi : position / 8 < data.size := by omega
  have hi' : position / 8 < longer.size := Nat.lt_of_lt_of_le hi h.size_le
  rw [bitAt, bitAt, dif_pos hi, dif_pos hi', h.getElem_eq _ hi]

theorem bitsAt_eq_none_iff {n : Nat} :
    bitsAt data position n = none ↔ n ≠ 0 ∧ 8 * data.size < position + n := by
  induction n generalizing position with
  | zero => simp [bitsAt]
  | succ n ih =>
      have hbit := @bitAt_eq_none_iff data position
      have hbits := @ih (position + 1)
      rw [bitsAt]
      cases h : bitAt data position with
      | none =>
          simp only [Option.bind_eq_bind, Option.bind_none, true_iff]
          have := hbit.1 h
          omega
      | some low =>
          have hlt : ¬ 8 * data.size ≤ position := fun hle => by
            rw [hbit.2 hle] at h
            cases h
          cases hm : bitsAt data (position + 1) n with
          | none =>
              simp only [Option.bind_eq_bind, Option.bind_some, Option.bind_none, true_iff]
              have := hbits.1 hm
              omega
          | some high =>
              simp only [Option.bind_eq_bind, Option.bind_some, reduceCtorEq, false_iff]
              intro hfar
              have hn : ¬ (n ≠ 0 ∧ 8 * data.size < position + 1 + n) := fun hnone => by
                rw [hbits.2 hnone] at hm
                cases hm
              omega

theorem bitsAt_of_extends (h : ExtendsTo data longer) {n : Nat}
    (hp : position + n ≤ 8 * data.size) : bitsAt longer position n = bitsAt data position n := by
  induction n generalizing position with
  | zero => rfl
  | succ n ih =>
      rw [bitsAt, bitsAt, bitAt_of_extends h (by omega), ih (by omega)]

/-! ## Steps -/

/-- A step that does not end before a position. -/
def Step.From (start : Nat) : Step α → Prop
  | .value _ position | .corrupt position => start ≤ position
  | .exhausted => True

/-- What a step within the first `bound` bits says of the same step where more
bits follow: it is the same one, or it ends behind these bits. -/
def Step.Agrees (bound : Nat) : Step α → Step α → Prop
  | .value v position, s => position ≤ bound ∧ s = .value v position
  | .corrupt position, s => position ≤ bound ∧ s = .corrupt position
  | .exhausted, s => s.From (bound + 1)

theorem Step.From.mono {start stop : Nat} {s : Step α} (h : s.From stop) (hle : start ≤ stop) :
    s.From start := by
  cases s with
  | value | corrupt => exact Nat.le_trans hle h
  | exhausted => trivial

theorem Step.From.andThen {start : Nat} {s : Step α} {f : α → Nat → Step β} (h : s.From start)
    (hf : ∀ v position, (f v position).From position) : (s.andThen f).From start := by
  cases s with
  | value v position => exact (hf v position).mono h
  | exhausted => trivial
  | corrupt position => exact h

/-- A reader is given data and the position to read at. -/
abbrev Reader (α : Type) := ByteArray → Nat → Step α

/-- A reader that goes forward, and to which data behind what it reads makes no
difference. -/
structure Reader.Steady (r : Reader α) : Prop where
  forward : ∀ data position, (r data position).From position
  agrees : ∀ {data longer : ByteArray} {position : Nat}, ExtendsTo data longer →
    position ≤ 8 * data.size → (r data position).Agrees (8 * data.size) (r longer position)

namespace Reader.Steady

theorem value (v : α) : Reader.Steady fun _ position => .value v position where
  forward _ _ := Nat.le_refl _
  agrees _ hp := ⟨hp, rfl⟩

theorem corrupt : Reader.Steady (α := α) fun _ position => .corrupt position where
  forward _ _ := Nat.le_refl _
  agrees _ hp := ⟨hp, rfl⟩

theorem andThen {r : Reader α} {next : α → Reader β} (h : r.Steady)
    (hnext : ∀ v, (next v).Steady) :
    Reader.Steady fun data position =>
      (r data position).andThen fun v position => next v data position where
  forward data position :=
    (h.forward data position).andThen fun v position => (hnext v).forward data position
  agrees {data longer position} hext hp := by
    have hs := h.agrees hext hp
    cases hr : r data position with
    | value v position =>
        rw [hr] at hs
        obtain ⟨hle, hr'⟩ := hs
        simp only [hr', Step.andThen]
        exact (hnext v).agrees hext hle
    | exhausted =>
        rw [hr] at hs
        exact Step.From.andThen hs fun v position => (hnext v).forward longer position
    | corrupt position =>
        rw [hr] at hs
        simp only [hs.2, Step.andThen]
        exact ⟨hs.1, rfl⟩

/-- A reader that starts at the next whole byte. -/
theorem aligned {r : Reader α} (h : r.Steady) :
    Reader.Steady fun data position => r data ((position + 7) / 8 * 8) where
  forward data position := (h.forward data _).mono (by omega)
  agrees hext hp := h.agrees hext (by omega)

theorem ite {r r' : Reader α} (c : Prop) [Decidable c] (h : c → r.Steady)
    (h' : ¬ c → r'.Steady) :
    Reader.Steady fun data position => if c then r data position else r' data position := by
  by_cases hc : c
  · simpa only [hc, if_true] using h hc
  · simpa only [hc, if_false] using h' hc

end Reader.Steady

/-- A steady reader that reads at least one bit before it gives a value. -/
structure Reader.Taking (r : Reader α) : Prop extends r.Steady where
  takes : ∀ data position v stop, r data position = .value v stop → position < stop

theorem Reader.Taking.corrupt : Reader.Taking (α := α) fun _ position => .corrupt position where
  toSteady := .corrupt
  takes _ _ _ _ := nofun

theorem Reader.Taking.andThen {r : Reader α} {next : α → Reader β} (h : r.Taking)
    (hnext : ∀ v, (next v).Steady) :
    Reader.Taking fun data position =>
      (r data position).andThen fun v position => next v data position where
  toSteady := h.toSteady.andThen hnext
  takes data position w stop heq := by
    cases hr : r data position with
    | value v position' =>
        rw [hr] at heq
        have hforward := (hnext v).forward data position'
        simp only [Step.andThen] at heq
        rw [heq] at hforward
        exact Nat.lt_of_lt_of_le (h.takes _ _ _ _ hr) hforward
    | exhausted | corrupt =>
        rw [hr] at heq
        cases heq

/-! ## The readers of the decoder -/

theorem steady_bits (n : Nat) : Reader.Steady fun data position => Step.bits data position n where
  forward data position := by
    rw [Step.bits]
    split
    · exact Nat.le_add_right _ _
    · trivial
  agrees {data longer position} hext hp := by
    by_cases hn : n ≠ 0 ∧ 8 * data.size < position + n
    · rw [Step.bits, bitsAt_eq_none_iff.2 hn]
      show (Step.bits longer position n).From _
      rw [Step.bits]
      split
      · exact hn.2
      · trivial
    · have hle : position + n ≤ 8 * data.size := by omega
      rw [Step.bits, Step.bits, bitsAt_of_extends hext hle]
      split
      · exact ⟨hle, rfl⟩
      · rename_i hnone
        exact absurd (bitsAt_eq_none_iff.1 hnone) hn

theorem taking_bits {n : Nat} (hn : n ≠ 0) :
    Reader.Taking fun data position => Step.bits data position n where
  toSteady := steady_bits n
  takes data position v stop heq := by
    rw [Step.bits] at heq
    split at heq
    · cases heq
      omega
    · cases heq

theorem bits_one (data : ByteArray) (position : Nat) :
    Step.bits data position 1 =
      match bitAt data position with
      | some b => .value b (position + 1)
      | none => .exhausted := by
  rw [Step.bits, bitsAt]
  cases bitAt data position <;> rfl

/-- What the reading of a codeword comes to, as a step. -/
def Step.ofReading : Code.Reading → Step Nat
  | .symbol s position => .value s position
  | .exhausted => .exhausted
  | .invalid position => .corrupt position

theorem ofReading_readFrom_cons (code : Code) (data : ByteArray) (count : Nat)
    (counts : List Nat) (word first index position : Nat) :
    Step.ofReading
        (code.readFrom (bitAt data) (count :: counts) word first index position) =
      (Step.bits data position 1).andThen fun b position =>
        if 2 * word + b < first + count then
          .value (code.symbols.getD (index + (2 * word + b - first)) 0) position
        else
          .ofReading (code.readFrom (bitAt data) counts (2 * word + b) (2 * (first + count))
            (index + count) position) := by
  rw [Code.readFrom, bits_one]
  cases bitAt data position with
  | none => rfl
  | some b =>
      simp only [Step.andThen]
      split <;> rfl

theorem taking_readFrom (code : Code) (counts : List Nat) (word first index : Nat) :
    Reader.Taking fun data position =>
      Step.ofReading (code.readFrom (bitAt data) counts word first index position) := by
  induction counts generalizing word first index with
  | nil => exact .corrupt
  | cons count counts ih =>
      simp only [ofReading_readFrom_cons]
      exact (taking_bits Nat.one_ne_zero).andThen fun b =>
        .ite _ (fun _ => .value _) fun _ => (ih _ _ _).toSteady

theorem taking_symbol (code : Code) : Reader.Taking (Step.symbol code) := by
  have heq : Step.symbol code = fun data position =>
      .ofReading (code.readFrom (bitAt data) code.counts 0 0 0 position) := by
    funext data position
    rw [Step.symbol, Code.read]
    cases code.readFrom (bitAt data) code.counts 0 0 0 position <;> rfl
  exact heq ▸ taking_readFrom code code.counts 0 0 0

theorem steady_readOrdered (symbols : List Nat) :
    Reader.Steady fun data position => readOrdered data position symbols := by
  induction symbols with
  | nil => exact .value []
  | cons symbol rest ih =>
      exact (steady_bits 3).andThen fun length => ih.andThen fun more => .value _

theorem steady_readLengths (code : Code) (total fuel : Nat) (lengths : List Nat) :
    Reader.Steady fun data position =>
      readLengths code data total fuel lengths position := by
  induction fuel generalizing lengths with
  | zero => exact .corrupt
  | succ fuel ih =>
      simp only [readLengths]
      refine .ite _ (fun _ => .corrupt) fun _ => .ite _ (fun _ => .value _) fun _ => ?_
      refine (taking_symbol code).toSteady.andThen fun s => .ite _ (fun _ => ih _) fun _ => ?_
      refine .ite _ (fun _ => ?_) fun _ => .ite _ (fun _ => ?_) fun _ => ?_
      · cases lengths with
        | nil => exact .corrupt
        | cons last rest => exact (steady_bits 2).andThen fun n => ih _
      · exact (steady_bits 3).andThen fun n => ih _
      · exact (steady_bits 7).andThen fun n => ih _

theorem steady_readCodes : Reader.Steady readCodes := by
  refine (steady_bits 5).andThen fun hlit => (steady_bits 5).andThen fun hdist =>
    (steady_bits 4).andThen fun hclen => .ite _ (fun _ => .corrupt) fun _ => ?_
  refine (steady_readOrdered _).andThen fun ordered => ?_
  dsimp only
  cases Code.ofLengths? false ((List.range 19).map fun s => (ordered.lookup s).getD 0) with
  | none => exact .corrupt
  | some code =>
      refine (steady_readLengths code _ 400 []).andThen fun all => ?_
      cases Code.ofLengths? true (all.take (hlit + 257)) with
      | none => exact .corrupt
      | some literals =>
          cases Code.ofLengths? true (all.drop (hlit + 257)) with
          | none => exact .corrupt
          | some distances => exact .value _

theorem taking_blockHeader : Reader.Taking blockHeader := by
  refine (taking_bits Nat.one_ne_zero).andThen fun last => (steady_bits 2).andThen fun kind => ?_
  match kind with
  | 0 =>
      refine ((steady_bits 16).andThen fun length => (steady_bits 16).andThen fun check =>
        .ite _ (fun _ => .value _) fun _ => .corrupt).aligned
  | 1 =>
      simp only
      cases fixedCodes with
      | none => exact .corrupt
      | some codes => exact .value _
  | 2 => exact steady_readCodes.andThen fun codes => .value _
  | _ + 3 => exact .corrupt

theorem taking_oneSymbol (literals distances : Code) :
    Reader.Taking fun data position => oneSymbol data literals distances position := by
  refine (taking_symbol literals).andThen fun s => .ite _ (fun _ => .value _) fun _ =>
    .ite _ (fun _ => .value _) fun _ => ?_
  cases lengthTable[s - 257]? with
  | none => exact .corrupt
  | some length =>
      refine (steady_bits _).andThen fun more => ?_
      refine (taking_symbol distances).toSteady.andThen fun d => ?_
      cases distanceTable[d]? with
      | none => exact .corrupt
      | some distance => exact (steady_bits _).andThen fun dmore => .value _

end Inflate
end DocWatch.Archive
