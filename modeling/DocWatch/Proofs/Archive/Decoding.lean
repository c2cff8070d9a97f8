import DocWatch.Archive.Gzip
import DocWatch.Proofs.Archive.Bits

/-!
# Decoding the beginning of a body

The decoder is run on the beginning of some data and on the whole. The two runs
go through the same states, up to the pieces that are still to come
(`State.withMore`), and `run_withMore` says how they part: either the run on the
beginning comes to an end of its own, and then the other one ends with it, or it
has used up all its data, and then the other one goes on from there.

One fact about the second case is not plain from the code. The whole may turn out
to be corrupt behind the beginning, and corruption takes back what was decoded
ahead of the reader. It takes back nothing of the beginning: the corruption is
seen by a step that reads a bit behind it, which uses up the last of its pieces,
and with that `moveTo` settles all that was decoded before
(`State.Within.beyond`).
-/

namespace DocWatch.Archive.Inflate

variable {data longer : ByteArray} {s : State} {more : List Nat}

/-! ## States -/

/-- A state of a decoder that is somewhere in its data. The last piece ends where
the data does, and has not been used up. -/
structure State.Within (data : ByteArray) (s : State) : Prop where
  position_le : s.position ≤ 8 * data.size
  settled_le : s.settled ≤ s.out.size
  ends_le : ∀ e ∈ s.pieceEnds, e ≤ data.size
  last_mem : data.size ∈ s.pieceEnds

/-- The same state where further pieces are to come. -/
def State.withMore (s : State) (more : List Nat) : State :=
  { s with pieceEnds := s.pieceEnds ++ more }

@[simp] theorem State.position_withMore (s : State) : (s.withMore more).position = s.position :=
  rfl

/-- A later state of a decoder: no byte is taken back, and what is settled stays
so. -/
structure State.Later (s t : State) : Prop where
  out : ExtendsTo s.out t.out
  settled : s.settled ≤ t.settled
  settled_le : t.settled ≤ t.out.size

theorem State.Later.trans {t u : State} (h : s.Later t) (h' : t.Later u) : s.Later u :=
  ⟨h.out.trans h'.out, Nat.le_trans h.settled h'.settled, h'.settled_le⟩

theorem State.later_refl (h : s.settled ≤ s.out.size) : s.Later s :=
  ⟨.refl _, Nat.le_refl _, h⟩

theorem State.moveTo_position (s : State) (position : Nat) :
    (s.moveTo position).position = position := by
  obtain ⟨_, out, settled, ends⟩ := s
  cases ends with
  | nil => rfl
  | cons e rest =>
      simp only [State.moveTo]
      split <;> rfl

theorem State.moveTo_out (s : State) (position : Nat) : (s.moveTo position).out = s.out := by
  obtain ⟨_, out, settled, ends⟩ := s
  cases ends with
  | nil => rfl
  | cons e rest =>
      simp only [State.moveTo]
      split <;> rfl

theorem State.later_moveTo (h : s.settled ≤ s.out.size) (position : Nat) :
    s.Later (s.moveTo position) := by
  have hout := s.moveTo_out position
  obtain ⟨_, out, settled, ends⟩ := s
  cases ends with
  | nil => exact ⟨.refl _, Nat.le_refl _, h⟩
  | cons e rest =>
      simp only [State.moveTo]
      split
      · exact ⟨.refl _, h, Nat.le_refl _⟩
      · exact ⟨.refl _, Nat.le_refl _, h⟩

theorem State.later_push (h : s.settled ≤ s.out.size) (b : UInt8) : s.Later (s.push b) := by
  have hsize : (s.out.push b).size = s.out.size + 1 := ByteArray.size_push
  refine ⟨.push s.out b, ?_, ?_⟩ <;> simp only [State.push] <;> split <;> omega

theorem mem_dropWhile {α : Type} {p : α → Bool} {x : α} {l : List α} (h : x ∈ l)
    (hx : p x = false) : x ∈ l.dropWhile p := by
  induction l with
  | nil => cases h
  | cons y rest ih =>
      rw [List.dropWhile_cons]
      split
      · rcases List.mem_cons.1 h with rfl | h
        · simp_all
        · exact ih h
      · exact h

theorem State.Within.moveTo (h : s.Within data) {position : Nat}
    (hp : position ≤ 8 * data.size) : (s.moveTo position).Within data := by
  obtain ⟨_, out, settled, ends⟩ := s
  obtain ⟨-, hsettled, hends, hlast⟩ := h
  cases ends with
  | nil => cases hlast
  | cons e rest =>
      simp only [State.moveTo]
      split
      · rename_i he
        have hmem : data.size ∈ rest := by
          rcases List.mem_cons.1 hlast with heq | hmem
          · omega
          · exact hmem
        refine ⟨hp, Nat.le_refl _, fun e' he' => ?_, mem_dropWhile hmem (by simpa using hp)⟩
        exact hends e' (List.mem_cons_of_mem _ ((List.dropWhile_sublist _).mem he'))
      · exact ⟨hp, hsettled, hends, hlast⟩

theorem State.Within.withMore_moveTo (h : s.Within data) {position : Nat}
    (hp : position ≤ 8 * data.size) :
    (s.withMore more).moveTo position = (s.moveTo position).withMore more := by
  obtain ⟨_, out, settled, ends⟩ := s
  obtain ⟨-, -, -, hlast⟩ := h
  cases ends with
  | nil => cases hlast
  | cons e rest =>
      simp only [State.withMore, State.moveTo, List.cons_append]
      split
      · rename_i he
        have hmem : data.size ∈ rest := by
          rcases List.mem_cons.1 hlast with heq | hmem
          · omega
          · exact hmem
        have hne : (rest.dropWhile (8 * · < position)).isEmpty = false := by
          have := mem_dropWhile (p := (8 * · < position)) hmem (by simpa using hp)
          exact List.isEmpty_eq_false_iff.2 (List.ne_nil_of_mem this)
        rw [List.dropWhile_append, hne]
        rfl
      · rfl

/-- A step to bits behind the data has used up all its pieces, so that all that was
decoded from them is settled. -/
theorem State.Within.beyond (h : s.Within data) (more : List Nat) {position : Nat}
    (hp : 8 * data.size < position) :
    ((s.withMore more).moveTo position).settled = s.out.size := by
  obtain ⟨_, out, settled, ends⟩ := s
  obtain ⟨-, -, hends, hlast⟩ := h
  cases ends with
  | nil => cases hlast
  | cons e rest =>
      have he := hends e List.mem_cons_self
      have hlt : 8 * e < position := by omega
      simp only [State.withMore, State.moveTo, List.cons_append, hlt, if_true]

/-- A change of what is decoded, which moves neither the position nor the pieces. -/
structure State.Puts (put : State → State) : Prop where
  position : ∀ s, (put s).position = s.position
  pieceEnds : ∀ s, (put s).pieceEnds = s.pieceEnds
  withMore : ∀ s more, put (s.withMore more) = (put s).withMore more
  later : ∀ s : State, s.settled ≤ s.out.size → s.Later (put s)

theorem State.puts_id : State.Puts id :=
  ⟨fun _ => rfl, fun _ => rfl, fun _ _ => rfl, fun _ => later_refl⟩

theorem State.puts_push (b : UInt8) : State.Puts (State.push · b) :=
  ⟨fun _ => rfl, fun _ => rfl, fun _ _ => rfl, fun _ h => later_push h b⟩

theorem State.puts_repeatBack (distance n : Nat) : State.Puts (State.repeatBack distance n) := by
  induction n with
  | zero => exact puts_id
  | succ n ih =>
      refine ⟨fun s => ih.position _, fun s => ih.pieceEnds _,
        fun s more => ih.withMore (s.push _) more, fun s h => ?_⟩
      have hpush := later_push h
        (if distance ≤ s.out.size then byteAt s.out (s.out.size - distance) else 0)
      exact hpush.trans (ih.later _ hpush.settled_le)

theorem State.Puts.within {put : State → State} (h : State.Puts put) (hs : s.Within data) :
    (put s).Within data where
  position_le := h.position s ▸ hs.position_le
  settled_le := (h.later s hs.settled_le).settled_le
  ends_le := h.pieceEnds s ▸ hs.ends_le
  last_mem := h.pieceEnds s ▸ hs.last_mem

/-! ## Runs -/

/-- Goes on with what a reader has read, if it has. -/
def Step.thenRun {α : Type} (step : Step α) (s : State) (go : α → State → State × Ending) :
    State × Ending :=
  match step with
  | .value v position => go v (s.moveTo position)
  | .exhausted => (s, .exhausted)
  | .corrupt position => (s.moveTo position, .corrupt)

/-- What a symbol adds to the bytes that are decoded. -/
def State.put : Option (Nat × Option Nat) → State → State
  | none, s => s
  | some (b, none), s => s.push (UInt8.ofNat b)
  | some (length, some distance), s => s.repeatBack distance length

theorem State.puts_put (v : Option (Nat × Option Nat)) : State.Puts (State.put v) := by
  match v with
  | none => exact puts_id
  | some (b, none) => exact puts_push _
  | some (length, some distance) => exact puts_repeatBack distance length

theorem run_block (data : ByteArray) (fuel : Nat) (s : State) :
    run data (fuel + 1) .block s =
      (blockHeader data s.position).thenRun s fun next t => run data fuel next t := by
  rw [run]
  cases blockHeader data s.position <;> rfl

theorem run_stored (data : ByteArray) (fuel left : Nat) (last : Bool) (s : State) :
    run data (fuel + 1) (.stored (left + 1) last) s =
      (Step.bits data s.position 8).thenRun s fun b t =>
        run data fuel (.stored left last) (t.push (UInt8.ofNat b)) := by
  rw [run, Step.bits]
  cases bitsAt data s.position 8 <;> rfl

theorem run_symbols (data : ByteArray) (fuel : Nat) (literals distances : Code) (last : Bool)
    (s : State) :
    run data (fuel + 1) (.symbols literals distances last) s =
      (oneSymbol data literals distances s.position).thenRun s fun v t =>
        run data fuel (if v = none then afterBlock last else .symbols literals distances last)
          (t.put v) := by
  rw [run]
  rcases oneSymbol data literals distances s.position with ⟨_ | ⟨b, _ | distance⟩, position⟩ |
    _ | position <;> rfl

theorem later_thenRun {α : Type} {step : Step α} {go : α → State → State × Ending}
    (h : s.settled ≤ s.out.size)
    (hgo : ∀ v (t : State), t.settled ≤ t.out.size → t.Later (go v t).1) :
    s.Later (step.thenRun s go).1 := by
  cases step with
  | value v position =>
      have hmove := State.later_moveTo h position
      exact hmove.trans (hgo v _ hmove.settled_le)
  | exhausted => exact State.later_refl h
  | corrupt position => exact State.later_moveTo h position

theorem later_run (fuel : Nat) (expect : Expect) (h : s.settled ≤ s.out.size) :
    s.Later (run data fuel expect s).1 := by
  induction fuel generalizing expect s with
  | zero => exact State.later_refl h
  | succ fuel ih =>
      cases expect with
      | nothing => exact State.later_refl h
      | block =>
          rw [run_block]
          exact later_thenRun h fun next t ht => ih next ht
      | stored left last =>
          cases left with
          | zero => exact ih _ h
          | succ left =>
              rw [run_stored]
              refine later_thenRun h fun b t ht => ?_
              have hpush := State.later_push ht (UInt8.ofNat b)
              exact hpush.trans (ih _ hpush.settled_le)
      | symbols literals distances last =>
          rw [run_symbols]
          refine later_thenRun h fun v t ht => ?_
          have hput := (State.puts_put v).later t ht
          exact hput.trans (ih _ hput.settled_le)

/-- What decoding more data comes to, when decoding the beginning comes to the
first state and ending. -/
inductive Continues (data : ByteArray) (more : List Nat) :
    State × Ending → State × Ending → Prop where
  | finished {t : State} {used : Nat} (h : used ≤ data.size) :
      Continues data more (t, .finished used) (t.withMore more, .finished used)
  | corrupt {t : State} : Continues data more (t, .corrupt) (t.withMore more, .corrupt)
  /-- All that was decoded from the beginning is settled before it can be seen
  that the data is corrupt. -/
  | exhausted {t t' : State} {ending : Ending} (later : t.Later t')
      (kept : ending = .corrupt → t.out.size ≤ t'.settled) :
      Continues data more (t, .exhausted) (t', ending)

theorem continues_of_beyond (hs : s.Within data) {t : State} {position : Nat} {ending : Ending}
    (hp : 8 * data.size < position) (h : ((s.withMore more).moveTo position).Later t) :
    Continues data more (s, .exhausted) (t, ending) := by
  have hsettled := hs.beyond more hp
  have hmove := State.later_moveTo (s := s.withMore more) hs.settled_le position
  have hlater := hmove.trans h
  exact .exhausted ⟨hlater.out, hlater.settled, hlater.settled_le⟩ fun _ => hsettled ▸ h.settled

/-- The fuel that a decoder needs for the rest of its data. -/
def need (data : ByteArray) (s : State) : Expect → Nat
  | .stored .. => 2 * (8 * data.size - s.position) + 1
  | _ => 2 * (8 * data.size - s.position)

/-- One reader and what follows it. -/
theorem continues_of_taking {α : Type} {r : Reader α} (hr : r.Taking) (next : α → Expect)
    {put : α → State → State} (hput : ∀ v, State.Puts (put v)) (hext : ExtendsTo data longer)
    {fuel fuel' : Nat} (hs : s.Within data) (hneed : need data s .block ≤ fuel)
    (ih : ∀ {expect : Expect} {s : State}, s.Within data → need data s expect < fuel →
      Continues data more (run data fuel expect s)
        (run longer fuel' expect (s.withMore more))) :
    Continues data more
      ((r data s.position).thenRun s fun v t => run data fuel (next v) (put v t))
      ((r longer s.position).thenRun (s.withMore more) fun v t =>
        run longer fuel' (next v) (put v t)) := by
  have hagrees := hr.agrees hext hs.position_le
  have hlater : ∀ position, 8 * data.size < position → ∀ v,
      Continues data more (s, .exhausted)
        (run longer fuel' (next v) (put v ((s.withMore more).moveTo position))) := by
    intro position hposition v
    have hmove := State.later_moveTo (s := s.withMore more) hs.settled_le position
    have hlater := (hput v).later _ hmove.settled_le
    exact continues_of_beyond hs hposition (hlater.trans (later_run _ _ hlater.settled_le))
  cases hread : r data s.position with
  | value v position =>
      rw [hread] at hagrees
      obtain ⟨hle, hread'⟩ := hagrees
      have hlt : s.position < position := hr.takes _ _ _ _ hread
      have hwithin := (hput v).within (hs.moveTo hle)
      simp only [hread', Step.thenRun]
      rw [hs.withMore_moveTo hle, (hput v).withMore]
      refine ih hwithin ?_
      have hposition : (put v (s.moveTo position)).position = position := by
        rw [(hput v).position, State.moveTo_position]
      simp only [need] at hneed
      cases next v <;> simp only [need, hposition] <;> omega
  | exhausted =>
      rw [hread] at hagrees
      cases hread' : r longer s.position with
      | value v position =>
          rw [hread'] at hagrees
          exact hlater position hagrees v
      | exhausted => exact .exhausted ⟨.refl _, Nat.le_refl _, hs.settled_le⟩ nofun
      | corrupt position =>
          rw [hread'] at hagrees
          have hmove := State.later_moveTo (s := s.withMore more) hs.settled_le position
          exact continues_of_beyond hs hagrees (State.later_refl hmove.settled_le)
  | corrupt position =>
      rw [hread] at hagrees
      obtain ⟨hle, hread'⟩ := hagrees
      simp only [hread', Step.thenRun]
      rw [hs.withMore_moveTo hle]
      exact .corrupt

theorem run_withMore (hext : ExtendsTo data longer) {fuel fuel' : Nat} {expect : Expect}
    (hs : s.Within data) (hneed : need data s expect < fuel) (hfuel : fuel ≤ fuel') :
    Continues data more (run data fuel expect s) (run longer fuel' expect (s.withMore more)) := by
  induction fuel generalizing fuel' expect s with
  | zero => omega
  | succ fuel ih =>
      obtain ⟨fuel', rfl⟩ : ∃ n, fuel' = n + 1 := ⟨fuel' - 1, by omega⟩
      have hp := hs.position_le
      have hnext : ∀ {expect : Expect} {s : State}, s.Within data → need data s expect < fuel →
          Continues data more (run data fuel expect s)
            (run longer fuel' expect (s.withMore more)) :=
        fun hs hneed => ih hs hneed (by omega)
      cases expect with
      | nothing => exact .finished (by omega)
      | block =>
          rw [run_block, run_block]
          exact continues_of_taking taking_blockHeader id (fun _ => State.puts_id) hext hs
            (Nat.le_of_lt_succ hneed) hnext
      | stored left last =>
          cases left with
          | zero =>
              refine hnext hs (Nat.lt_of_lt_of_le ?_ (Nat.le_of_lt_succ hneed))
              cases last <;> exact Nat.lt_succ_self _
          | succ left =>
              rw [run_stored, run_stored]
              exact continues_of_taking (taking_bits (by decide)) (fun _ => .stored left last)
                (fun b => State.puts_push (UInt8.ofNat b)) hext hs
                (by simp only [need] at hneed ⊢; omega) hnext
      | symbols literals distances last =>
          rw [run_symbols, run_symbols]
          exact continues_of_taking (taking_oneSymbol literals distances) _ State.puts_put hext hs
            (Nat.le_of_lt_succ hneed) hnext

/-! ## All of the data -/

/-- The state that the decoding begins with. -/
def State.init (start : Nat) (ends : List Nat) : State :=
  ⟨8 * start, .empty, 0, ends⟩

/-- What a decoder has made of the beginning of its data, against what it makes of
more: bytes are added, and the run decoded ahead last begins no earlier. -/
structure Decoded.Precedes (d d' : Decoded) : Prop where
  out : ExtendsTo d.out d'.out
  lastRun : d.lastRun ≤ d'.lastRun

/-- What a reader gets to see of the last state. -/
def Decoded.ofRun : State × Ending → Decoded
  | (s, .corrupt) => ⟨s.out.extract 0 s.settled, .corrupt, s.settled⟩
  | (s, ending) => ⟨s.out, ending, s.settled⟩

theorem inflate_eq (data : ByteArray) (start : Nat) (ends : List Nat) :
    inflate data start ends =
      .ofRun (run data (16 * data.size + 16) .block (.init start ends)) := by
  simp only [inflate, State.init]
  rcases run data _ .block _ with ⟨s, _ | _ | _⟩ <;> rfl

theorem lastRun_le (data : ByteArray) (start : Nat) (ends : List Nat) :
    (inflate data start ends).lastRun ≤ (inflate data start ends).out.size := by
  rw [inflate_eq]
  have hlater : (State.init start ends).Later
      (run data (16 * data.size + 16) .block (.init start ends)).1 :=
    later_run _ _ (Nat.le_refl _)
  revert hlater
  rcases run data (16 * data.size + 16) .block (.init start ends) with ⟨s, used | _ | _⟩
  · exact fun hlater => hlater.settled_le
  · exact fun hlater => hlater.settled_le
  · intro hlater
    have hle : s.settled ≤ s.out.size := hlater.settled_le
    simp only [Decoded.ofRun, ByteArray.size_extract]
    omega

/-- Decoding more data goes on where the beginning ends, unless that comes to an
end of its own. -/
theorem inflate_append (hext : ExtendsTo data longer) {start : Nat} {ends : List Nat}
    (hs : (State.init start ends).Within data) (more : List Nat) :
    (inflate data start ends).ending = .exhausted ∧
        (inflate data start ends).Precedes (inflate longer start (ends ++ more)) ∨
      inflate longer start (ends ++ more) = inflate data start ends ∧
        ((inflate data start ends).ending = .corrupt ∨
          ∃ used ≤ data.size, (inflate data start ends).ending = .finished used) := by
  have hfuel : 16 * data.size + 16 ≤ 16 * longer.size + 16 := by
    have := hext.size_le
    omega
  have hneed : need data (State.init start ends) .block < 16 * data.size + 16 := by
    simp only [need]
    omega
  have hrun : Continues data more _ (run longer _ .block (.init start (ends ++ more))) :=
    run_withMore hext hs hneed hfuel
  rw [inflate_eq, inflate_eq]
  generalize run data _ .block (.init start ends) = r at hrun ⊢
  generalize run longer _ .block (.init start (ends ++ more)) = r' at hrun ⊢
  cases hrun with
  | finished hused => exact .inr ⟨rfl, .inr ⟨_, hused, rfl⟩⟩
  | corrupt => exact .inr ⟨rfl, .inl rfl⟩
  | @exhausted t t' ending later kept =>
      refine .inl ⟨rfl, ?_⟩
      match ending with
      | .finished _ | .exhausted => exact ⟨later.out, later.settled⟩
      | .corrupt =>
          -- all of `t.out` is settled, so that what is cut off lies behind it
          refine ⟨⟨?_, fun i hi => ?_⟩, later.settled⟩
          · have hle := later.settled_le
            have hkept := kept rfl
            simp only [Decoded.ofRun, ByteArray.size_extract]
            omega
          · simp only [Decoded.ofRun, ByteArray.getElem_extract, Nat.zero_add]
            exact later.out.getElem_eq i hi

end DocWatch.Archive.Inflate
