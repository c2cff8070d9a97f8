import DocWatch.Archive.Extract
import DocWatch.Proofs.Archive.Decompression

/-!
# Extracting from a body that is broken off

The reads of an extraction go through a stream from the front. As long as they
stay within the bytes before a failure they find what they find in a body that
goes on, and the first of them that asks for more is handed the failure. No read
site keeps it to itself: a header, an announcing header, the map of a sparse file
and the contents of a document all end the extraction with it, and the contents
of a member that is no document are not read, but passed over by the next header.

`Meets` says this of one read and `Listing.Meets` of the members that all of them
find. From these follows that a body whose beginning does not settle what is
extracted fails with whatever failure stands behind that beginning
(`extract_broken`).
-/

namespace DocWatch.Archive

/-- A read in a broken stream meets the failure, or it is the same read as in the
stream that goes on. -/
def Meets {ε α : Type} (e : ε) (x x' : Except ε α) : Prop :=
  x = .error e ∨ x' = x

theorem Meets.refl {ε α : Type} {e : ε} (x : Except ε α) : Meets e x x :=
  .inr rfl

theorem Meets.ite {ε α : Type} {e : ε} {c : Prop} [Decidable c] {x x' y y' : Except ε α}
    (h : c → Meets e x x') (h' : ¬ c → Meets e y y') :
    Meets e (if c then x else y) (if c then x' else y') := by
  split
  · exact h ‹_›
  · exact h' ‹_›

theorem Meets.bind {ε α β : Type} {e : ε} {x x' : Except ε α} {f f' : α → Except ε β}
    (h : Meets e x x') (hf : ∀ a, x = .ok a → Meets e (f a) (f' a)) :
    Meets e (x >>= f) (x' >>= f') := by
  rcases h with rfl | heq
  · exact .inl rfl
  · rw [heq]
    cases x with
    | error => exact .inr rfl
    | ok a => exact hf a rfl

/-- The same of a member: all that its header says is the same, and so are its
contents unless they meet the failure. The contents of what is no regular file do
not matter. -/
structure Member.Meets (e : ReadError) (m m' : Member) : Prop where
  name_eq : m'.name = m.name
  regular_eq : m'.regular = m.regular
  size_eq : m'.size = m.size
  payload : m.payload = .broken e ∨ m'.payload = m.payload

/-- The same of a listing: the members are the same up to the failure. -/
inductive Listing.Meets (e : ReadError) : Listing → Listing → Prop where
  | failure (l : Listing) : Meets e ⟨[], some e⟩ l
  | ending (x : Option ReadError) : Meets e ⟨[], x⟩ ⟨[], x⟩
  | member {m m' : Member} {l l' : Listing} (head : m.Meets e m') (tail : Meets e l l') :
      Meets e ⟨m :: l.members, l.ending⟩ ⟨m' :: l'.members, l'.ending⟩

theorem Listing.Meets.ite {e : ReadError} {c : Prop} [Decidable c] {l l' r r' : Listing}
    (h : c → l.Meets e l') (h' : ¬ c → r.Meets e r') :
    (if c then l else r).Meets e (if c then l' else r') := by
  split
  · exact h ‹_›
  · exact h' ‹_›

theorem Listing.Meets.after {α : Type} {e : ReadError} {x x' : Except ReadError α}
    {next next' : α → Listing} (h : Archive.Meets e x x')
    (hnext : ∀ a, (next a).Meets e (next' a)) :
    (Listing.after x next).Meets e (Listing.after x' next') := by
  rcases h with rfl | heq
  · exact .failure _
  · rw [heq]
    cases x with
    | error => exact .ending _
    | ok a => exact hnext a

namespace Tar

variable {s s' : Stream} {e : ReadError}

/-! ## Single reads -/

theorem slice_eq (h : s.Precedes s') {start n : Nat} (hn : n = 0 ∨ start + n ≤ s.bytes.size) :
    slice s'.bytes start n = slice s.bytes start n := by
  rcases hn with rfl | hn
  · rw [slice, slice, Nat.add_zero, ByteArray.extract_same, ByteArray.extract_same]
  · rw [slice, slice, h.bytes.extract_eq hn]

theorem missing_eq (hs : s.ending = some e) (detail : String) : Stream.missing s detail = e := by
  rw [Stream.missing, hs, Option.getD_some]

/-- A header is met with, or all of it lies within the stream. -/
theorem header?_meets (hs : s.ending = some e) (h : s.Precedes s') (start : Nat) :
    header? s start = .error e ∨
      header? s' start = header? s start ∧ start + blockSize ≤ s.bytes.size := by
  have hle := h.bytes.size_le
  have hdue := h.due_le
  simp only [header?, missing_eq hs, hs]
  split
  · exact .inl rfl
  split
  · exact .inl rfl
  split
  · exact .inl rfl
  have hdue' : ¬ s'.due < start := by omega
  have hend' : ¬ s'.bytes.size = start := by omega
  have hsize' : ¬ s'.bytes.size < start + blockSize := by omega
  refine .inr ⟨?_, by omega⟩
  rw [if_neg hdue', if_neg hend', if_neg hsize', slice_eq h (.inr (by omega))]

/-- Contents that are found in a stream are found in one that goes on. -/
theorem found_of_precedes (h : s.Precedes s') {start size : Nat}
    (hfound : size = 0 ∨ start ≤ s.due ∧ start + size ≤ s.bytes.size) :
    (size = 0 ∨ start ≤ s'.due ∧ start + size ≤ s'.bytes.size) ∧
      slice s'.bytes start size = slice s.bytes start size := by
  have hle := h.bytes.size_le
  have hdue := h.due_le
  exact ⟨by omega, slice_eq h (by omega)⟩

theorem payloadAt_meets (hs : s.ending = some e) (h : s.Precedes s') (start size : Nat) :
    payloadAt s start size = .broken e ∨ payloadAt s' start size = payloadAt s start size := by
  rw [payloadAt]
  split
  · rename_i hfound
    obtain ⟨hfound', heq⟩ := found_of_precedes h hfound
    rw [payloadAt, if_pos hfound', heq]
    exact .inr rfl
  · rw [hs]
    exact .inl rfl

theorem announcedAt_meets (hs : s.ending = some e) (h : s.Precedes s') (start size : Nat) :
    Meets e (announcedAt s start size) (announcedAt s' start size) := by
  rw [announcedAt]
  split
  · rename_i hfound
    obtain ⟨hfound', heq⟩ := found_of_precedes h hfound
    rw [announcedAt, if_pos hfound', heq]
    exact .inr rfl
  · rw [hs]
    exact .inl rfl

theorem checkContinued_meets (hs : s.ending = some e) (h : s.Precedes s') (size : Nat)
    (fuel fuel' : Nat) {start : Nat} (hstart : start ≤ s.bytes.size)
    (hneed : s.bytes.size < start + blockSize * fuel) (hfuel : fuel ≤ fuel') (state : Nat × Nat) :
    Meets e (checkContinued s size fuel start state)
      (checkContinued s' size fuel' start state) := by
  have hle := h.bytes.size_le
  have hdue := h.due_le
  induction fuel generalizing fuel' start state with
  | zero => omega
  | succ fuel ih =>
      obtain ⟨fuel', rfl⟩ : ∃ n, fuel' = n + 1 := ⟨fuel' - 1, by omega⟩
      simp only [checkContinued, missing_eq hs]
      split
      · exact .inl rfl
      have hwithin' : ¬ (s'.due < start ∨ s'.bytes.size < start + blockSize) := by omega
      rw [if_neg hwithin', slice_eq h (.inr (by omega))]
      cases checkExtents size (extentFields (slice s.bytes start blockSize) 0 21) state with
      | error => exact .inr rfl
      | ok state =>
          dsimp only
          split
          · rw [Nat.mul_succ] at hneed
            exact ih _ (by omega) (by omega) (by omega) state
          · exact .inr rfl

theorem checkSparse_meets (hs : s.ending = some e) (h : s.Precedes s') (header : Header)
    {start : Nat} (hstart : start ≤ s.bytes.size) (size : Nat) :
    Meets e (checkSparse s header start size) (checkSparse s' header start size) := by
  have hneed : s.bytes.size < start + blockSize * (s.bytes.size / blockSize + 1) := by
    have hlt := Nat.lt_mul_div_succ s.bytes.size (show 0 < blockSize by decide)
    omega
  have hfuel : s.bytes.size / blockSize + 1 ≤ s'.bytes.size / blockSize + 1 :=
    Nat.add_le_add_right (Nat.div_le_div_right h.bytes.size_le) 1
  have hcontinued := checkContinued_meets hs h size _ _ hstart hneed hfuel
  unfold checkSparse
  refine .ite (fun _ => .refl _) fun _ => .bind (.refl _) fun state _ => ?_
  refine .ite (fun _ => .bind (hcontinued state) fun _ _ => .refl _) fun _ => .refl _

/-! ## All members -/

/-- Two fuels that suffice: a header takes a block, and the last one is met at or
behind the end of the stream. -/
theorem membersFrom_meets (hs : s.ending = some e) (h : s.Precedes s') (fuel fuel' start : Nat)
    (announced : Announced) (hpos : 0 < fuel) (hneed : s.bytes.size < start + blockSize * fuel)
    (hfuel : fuel ≤ fuel') :
    (membersFrom s fuel start announced).Meets e (membersFrom s' fuel' start announced) := by
  induction fuel generalizing fuel' start announced with
  | zero => cases hpos
  | succ fuel ih =>
      obtain ⟨fuel', rfl⟩ : ∃ n, fuel' = n + 1 := ⟨fuel' - 1, by omega⟩
      simp only [membersFrom]
      rcases header?_meets hs h start with hheader | ⟨hheader, hend⟩
      · rw [hheader]
        exact .failure _
      rw [hheader]
      match header? s start with
      | .error e' => exact .ending _
      | .ok none => 
          dsimp only
          split
          · exact .ending _
          · exact .ending _
      | .ok (some header) =>
          have hnext : ∀ next announced, start + blockSize ≤ next →
              (membersFrom s fuel next announced).Meets e
                (membersFrom s' fuel' next announced) := by
            intro next announced hle
            rw [Nat.mul_succ] at hneed
            have hpos : 0 < fuel := by
              refine Nat.pos_of_ne_zero fun hzero => ?_
              rw [hzero, Nat.mul_zero] at hneed
              omega
            exact ih fuel' next announced hpos (by omega) (by omega)
          dsimp only
          cases octalField? (header.field 148 8) with
          | none => exact .ending _
          | some sum =>
          dsimp only
          refine .ite (fun _ => .ending _) fun _ => ?_
          cases number? (header.field 124 12) with
          | none => exact .ending _
          | some declared =>
          dsimp only
          refine .ite (fun _ => .ending _) fun _ => ?_
          have hannounced := announcedAt_meets hs h
          refine .ite (fun _ => .ite (fun _ => .ending _) fun _ => ?_) fun _ => ?_
          · exact .after (hannounced _ _) fun name => hnext _ _ (Nat.le_add_right _ _)
          refine .ite (fun _ => .ite (fun _ => .ending _) fun _ => ?_) fun _ => ?_
          · exact .after (hannounced _ _) fun link => hnext _ _ (Nat.le_add_right _ _)
          refine .ite (fun _ => .ite (fun _ => .ending _) fun _ => ?_) fun _ => ?_
          · exact .after (hannounced _ _) fun pax => hnext _ _ (Nat.le_add_right _ _)
          refine .ite (fun _ => .after (checkSparse_meets hs h header hend _) fun map => ?_)
            fun _ => ?_
          · refine .member ⟨rfl, rfl, rfl, payloadAt_meets hs h _ _⟩ (hnext _ _ ?_)
            rw [Nat.add_assoc]
            exact Nat.le_add_right _ _
          · exact .member ⟨rfl, rfl, rfl, payloadAt_meets hs h _ _⟩
              (hnext _ _ (Nat.le_add_right _ _))

theorem listing_meets (hs : s.ending = some e) (h : s.Precedes s') :
    (listing s).Meets e (listing s') := by
  refine membersFrom_meets hs h _ _ 0 .nothing (Nat.succ_pos _) ?_ ?_
  · have hlt := Nat.lt_mul_div_succ s.bytes.size (show 0 < blockSize by decide)
    rw [Nat.zero_add]
    exact Nat.lt_of_lt_of_le hlt (Nat.mul_le_mul_left _ (Nat.le_succ _))
  · exact Nat.add_le_add_right (Nat.div_le_div_right h.bytes.size_le) 2

end Tar

/-! ## The extraction -/

theorem Progress.next_meets {e : ReadError} {m m' : Member} (f : Filter) (p : Progress)
    (h : m.Meets e m') : Meets e.fault (p.next f m) (p.next f m') := by
  have hpath : f.pathOf? m' = f.pathOf? m := by
    simp only [Filter.pathOf?, h.name_eq, h.regular_eq]
  rw [Progress.next, Progress.next, hpath]
  cases f.pathOf? m with
  | none => exact .refl _
  | some path =>
      simp only [Progress.take, h.size_eq, h.name_eq]
      refine .ite (fun _ => .refl _) fun _ => .ite (fun _ => .refl _) fun _ => ?_
      rcases h.payload with hbroken | hsame
      · rw [hbroken]
        exact .inl rfl
      · rw [hsame]
        exact .refl _

/-- The documents of a listing that goes on behind some progress. -/
def Listing.extractFrom (f : Filter) (p : Progress) (l : Listing) : Except Fault Tree :=
  p.takeAll f l.members >>= fun q =>
    match l.ending with
    | some e => .error e.fault
    | none => if q.tree.size = 0 then .error .emptyArchive else .ok q.tree

theorem Listing.extract_eq (f : Filter) (l : Listing) : l.extract f = l.extractFrom f .start := by
  rw [Listing.extract, Listing.extractFrom]
  cases Progress.start.takeAll f l.members <;> rfl

theorem Listing.extractFrom_cons (f : Filter) (p : Progress) (m : Member) (l : Listing) :
    Listing.extractFrom f p ⟨m :: l.members, l.ending⟩ =
      p.next f m >>= fun q => l.extractFrom f q := by
  rw [Listing.extractFrom, Progress.takeAll]
  cases p.next f m <;> rfl

theorem Listing.Meets.extractFrom {e : ReadError} {l l' : Listing} (h : l.Meets e l')
    (f : Filter) (p : Progress) :
    Archive.Meets e.fault (l.extractFrom f p) (l'.extractFrom f p) := by
  induction h generalizing p with
  | failure l => exact .inl rfl
  | ending x => exact .refl _
  | member head _ ih =>
      rw [extractFrom_cons, extractFrom_cons]
      exact (p.next_meets f head).bind fun q _ => ih q

variable {f : Filter} {before : Feed}

theorem extract_meets (hbefore : before.failure? = none) (e : ReadError) (after rest : Feed) :
    Meets e.fault (extract f (before ++ .failure e :: after)) (extract f (before ++ rest)) := by
  simp only [extract, Listing.extract_eq]
  rcases Gzip.decompress_append hbefore e after rest with hsame | ⟨hending, hprecedes⟩
  · rw [hsame]
    exact .refl _
  · exact (Tar.listing_meets hending hprecedes).extractFrom f .start

/-- The beginning of a body does not settle what is extracted from it: the reads
of the extraction go beyond it. -/
def Reached (f : Filter) (before : Feed) : Prop :=
  ∃ rest rest', extract f (before ++ rest) ≠ extract f (before ++ rest')

theorem decompress_append_of_failure (h : before.failure? ≠ none) (rest : Feed) :
    Gzip.decompress (before ++ rest) = Gzip.decompress before := by
  have hbytes : (before ++ rest : Feed).bytes = before.bytes := by
    rw [Feed.bytes, Feed.arrived_append_of_failure h]
    rfl
  have hfailure : (before ++ rest : Feed).failure? = before.failure? := by
    rw [Feed.failure?_append]
    cases hb : before.failure? with
    | none => exact absurd hb h
    | some e => rfl
  simp only [Gzip.decompress, Gzip.trailed, Gzip.brokenOff, hbytes, hfailure,
    Feed.arrived_append_of_failure h]

theorem Reached.failure?_eq_none (h : Reached f before) : before.failure? = none := by
  obtain ⟨rest, rest', hne⟩ := h
  cases hfailure : before.failure? with
  | none => rfl
  | some e =>
      have hsome : before.failure? ≠ none := by rw [hfailure]; exact nofun
      refine absurd ?_ hne
      simp only [extract, decompress_append_of_failure hsome]

/-- A failure that the reads reach is what the extraction fails with. -/
theorem Reached.extract_eq (h : Reached f before) (e : ReadError) (after : Feed) :
    extract f (before ++ .failure e :: after) = .error e.fault := by
  have hbefore := h.failure?_eq_none
  obtain ⟨rest, rest', hne⟩ := h
  rcases extract_meets hbefore e after rest with hfails | hsame
  · exact hfails
  rcases extract_meets hbefore e after rest' with hfails | hsame'
  · exact hfails
  · exact absurd (hsame.trans hsame'.symm) hne

/-- What is reached is where every failure shows. -/
theorem reached_iff :
    Reached f before ↔
      ∀ e after, extract f (before ++ .failure e :: after) = .error e.fault := by
  refine ⟨fun h => h.extract_eq, fun h => ?_⟩
  refine ⟨[.failure (.abort .cancelled)], [.failure (.abort (.transport ""))], ?_⟩
  rw [h, h]
  exact nofun

end DocWatch.Archive
