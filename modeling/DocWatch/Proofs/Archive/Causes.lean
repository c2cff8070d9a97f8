import DocWatch.Proofs.Archive.Extraction

/-!
# What a failed extraction can be blamed on

An abort comes from outside: only the stream of a body raises it. So the errors
that the decompression and the archive reader find by themselves are all of the
other kind, and an extraction that fails with the fault of an abort has a body
that was aborted. Whatever else goes wrong with the bytes is reported as a damaged
archive.

The reads are gone through once, with the errors that they may fail with as a
parameter.
-/

namespace DocWatch.Archive

/-- All errors that a read may fail with. -/
def Blames {ε α : Type} (P : ε → Prop) (x : Except ε α) : Prop :=
  ∀ e, x = .error e → P e

section

variable {ε α β : Type} {P : ε → Prop}

theorem Blames.ok (a : α) : Blames P (.ok a : Except ε α) := nofun

theorem Blames.error {e : ε} (h : P e) : Blames P (.error e : Except ε α) := by
  rintro _ ⟨⟩
  exact h

theorem Blames.ite {c : Prop} [Decidable c] {x y : Except ε α} (h : Blames P x)
    (h' : Blames P y) : Blames P (if c then x else y) := by
  split
  · exact h
  · exact h'

theorem Blames.bind {x : Except ε α} {f : α → Except ε β} (h : Blames P x)
    (hf : ∀ a, Blames P (f a)) : Blames P (x >>= f) := by
  cases x with
  | error e => exact .error (h e rfl)
  | ok a => exact hf a

end

/-- All errors that a listing may hold: behind its members, and in the contents of
each of them. -/
structure Listing.Blames (P : ReadError → Prop) (l : Listing) : Prop where
  ending : ∀ e, l.ending = some e → P e
  payload : ∀ m ∈ l.members, ∀ e, m.payload = .broken e → P e

namespace Listing.Blames

variable {P : ReadError → Prop}

theorem nil : Listing.Blames P ⟨[], none⟩ := ⟨nofun, nofun⟩

theorem failed {e : ReadError} (h : P e) : Listing.Blames P ⟨[], some e⟩ := by
  refine ⟨?_, nofun⟩
  rintro _ ⟨⟩
  exact h

theorem cons {m : Member} {l : Listing} (hm : ∀ e, m.payload = .broken e → P e)
    (h : l.Blames P) : Listing.Blames P ⟨m :: l.members, l.ending⟩ :=
  ⟨h.ending, List.forall_mem_cons.2 ⟨hm, h.payload⟩⟩

theorem ite {c : Prop} [Decidable c] {l l' : Listing} (h : l.Blames P) (h' : l'.Blames P) :
    (if c then l else l').Blames P := by
  split
  · exact h
  · exact h'

theorem after {α : Type} {x : Except ReadError α} {next : α → Listing}
    (h : Archive.Blames P x) (hnext : ∀ a, (next a).Blames P) :
    (Listing.after x next).Blames P := by
  cases x with
  | error e => exact .failed (h e rfl)
  | ok a => exact hnext a

end Listing.Blames

namespace Tar

variable {P : ReadError → Prop} {s : Stream}

/-! ## Reads

Every read may find damage, and meet what its stream ends with. -/

section

variable (hdamaged : ∀ detail, P (damaged detail)) (hending : ∀ e, s.ending = some e → P e)
include hdamaged hending

theorem missing_blames (detail : String) : P (Stream.missing s detail) := by
  rw [Stream.missing]
  cases h : s.ending with
  | none => exact hdamaged detail
  | some e => exact hending e h

theorem header?_blames (start : Nat) : Blames P (header? s start) := by
  have hmissing := missing_blames hdamaged hending
  refine .ite (.error (hmissing _)) (.ite ?_ (.ite (.error (hmissing _)) (.ite (.ok _) (.ok _))))
  cases h : s.ending with
  | none => exact .ok _
  | some e => exact .error (hending e h)

omit hdamaged in
theorem payloadAt_blames (start size : Nat) (e : ReadError)
    (h : payloadAt s start size = .broken e) : P e := by
  rw [payloadAt] at h
  split at h
  · cases h
  · cases hs : s.ending with
    | none =>
        rw [hs] at h
        cases h
    | some e' =>
        rw [hs] at h
        cases h
        exact hending e hs

omit hdamaged in
theorem announcedAt_blames (start size : Nat) : Blames P (announcedAt s start size) := by
  refine .ite (.ok _) ?_
  cases h : s.ending with
  | none => exact .ok _
  | some e => exact .error (hending e h)

omit hending in
theorem checkExtents_blames (size : Nat) (fields : List Bytes) (state : Nat × Nat) :
    Blames P (checkExtents size fields state) := by
  induction fields generalizing state with
  | nil => exact .ok _
  | cons field rest ih =>
      have hextent : Blames P (extent? field) := by
        refine .ite (.ok _) ?_
        split
        · exact .ok _
        · exact .error (hdamaged _)
      simp only [checkExtents]
      cases hfield : extent? field with
      | error e => exact .error (hextent e hfield)
      | ok extent =>
          cases extent with
          | none => exact ih _
          | some extent =>
              exact .ite (.error (hdamaged _)) (.ite (.error (hdamaged _))
                (.ite (.error (hdamaged _)) (.ite (.error (hdamaged _)) (ih _))))

theorem checkContinued_blames (size fuel start : Nat) (state : Nat × Nat) :
    Blames P (checkContinued s size fuel start state) := by
  induction fuel generalizing start state with
  | zero => exact .ok _
  | succ fuel ih =>
      refine .ite (.error (missing_blames hdamaged hending _)) ?_
      have hextents := checkExtents_blames hdamaged size
        (extentFields (slice s.bytes start blockSize) 0 21) state
      dsimp only
      cases h : checkExtents size (extentFields (slice s.bytes start blockSize) 0 21) state with
      | error e => exact .error (hextents e h)
      | ok state => exact .ite (ih _ _) (.ok _)

theorem checkSparse_blames (header : Header) (start size : Nat) :
    Blames P (checkSparse s header start size) := by
  have hthrow (detail : String) :
      Blames P (.error (damaged detail) : Except ReadError (Nat × Nat)) :=
    .error (hdamaged detail)
  have hcontinued := checkContinued_blames hdamaged hending size
  unfold checkSparse
  refine .ite (hthrow _) (.bind (checkExtents_blames hdamaged _ _ _) fun state => ?_)
  -- what is checked behind the extents is the same with and without further blocks
  refine .ite (.bind (hcontinued _ _ _) fun reached => ?_) (.bind (.ok _) fun reached => ?_)
  all_goals
    split
    · exact hthrow _
    · exact .ite (hthrow _) (.ite (hthrow _) (.ok _))

theorem membersFrom_blames (fuel start : Nat) (announced : Announced) :
    (membersFrom s fuel start announced).Blames P := by
  have hfailed (detail : String) : Listing.Blames P ⟨[], some (damaged detail)⟩ :=
    .failed (hdamaged detail)
  have hannounced := announcedAt_blames hending
  have hpayload := payloadAt_blames hending
  induction fuel generalizing start announced with
  | zero => exact .nil
  | succ fuel ih =>
      have hheader := header?_blames hdamaged hending start
      simp only [membersFrom]
      cases h : header? s start with
      | error e => exact .failed (hheader e h)
      | ok header =>
      cases header with
      | none => exact .ite (hfailed _) .nil
      | some header =>
      dsimp only
      cases octalField? (header.field 148 8) with
      | none => exact hfailed _
      | some sum =>
      refine .ite (hfailed _) ?_
      cases number? (header.field 124 12) with
      | none => exact hfailed _
      | some declared =>
      refine .ite (hfailed _) (.ite (.ite (hfailed _) ?_) (.ite (.ite (hfailed _) ?_)
        (.ite (.ite (hfailed _) ?_) (.ite ?_ ?_))))
      · exact .after (hannounced _ _) fun name => ih _ _
      · exact .after (hannounced _ _) fun link => ih _ _
      · exact .after (hannounced _ _) fun pax => ih _ _
      · exact .after (checkSparse_blames hdamaged hending _ _ _) fun map =>
          .cons (hpayload _ _) (ih _ _)
      · exact .cons (hpayload _ _) (ih _ _)

end

end Tar

/-! ## The extraction -/

/-- The faults of an extraction that are not an abort: of the bytes of the archive,
and of the bounds that its documents are held to. -/
inductive OfContents : Fault → Prop where
  | damaged (damage : Damage) : OfContents (.malformedArchive damage)
  | empty : OfContents .emptyArchive
  | bytes (soFar : Nat) (name : String) (size limit : Nat) :
      OfContents (.sizeLimit (.extracted soFar name size limit))
  | documents (limit : Nat) : OfContents (.sizeLimit (.documents limit))

theorem ending_trailed {feed : Feed} {d : Inflate.Decoded} {e : ReadError}
    (h : (Gzip.trailed feed d).ending = some e) :
    feed.failure?.getD (.other "unexpected end of file") = e ∨ ∃ detail, e = .other detail := by
  rw [Gzip.trailed] at h
  split at h
  · exact .inr ⟨_, (Option.some.inj h).symm⟩
  · exact .inl (Option.some.inj h)
  · split at h
    · exact .inl (Option.some.inj h)
    · split at h
      · cases h
      · exact .inr ⟨_, (Option.some.inj h).symm⟩

theorem ending_decompress {feed : Feed} {e : ReadError}
    (h : (Gzip.decompress feed).ending = some e) :
    feed.failure? = some e ∨ ∃ detail, e = .other detail := by
  have hmissing : feed.failure?.getD (.other "unexpected end of file") = e →
      feed.failure? = some e ∨ ∃ detail, e = .other detail := by
    cases feed.failure? with
    | none => exact fun h => .inr ⟨_, h.symm⟩
    | some e' => exact fun h => .inl (congrArg some h)
  rw [Gzip.decompress] at h
  split at h
  · exact hmissing (Option.some.inj h)
  · exact .inr ⟨_, (Option.some.inj h).symm⟩
  · exact (ending_trailed h).elim hmissing .inr

/-- An extraction fails with the fault of an abort only where its body was aborted
in just that way. -/
theorem extract_blames {f : Filter} {feed : Feed} {fault : Fault}
    (h : extract f feed = .error fault) :
    (∃ cause, feed.failure? = some (.abort cause) ∧ fault = (ReadError.abort cause).fault) ∨
      OfContents fault := by
  have hblames : (Tar.listing (Gzip.decompress feed)).Blames fun e =>
      feed.failure? = some e ∨ ∃ detail, e = .other detail :=
    Tar.membersFrom_blames (fun detail => .inr ⟨detail, rfl⟩) (fun e => ending_decompress) _ _ _
  have hread : ∀ e : ReadError, (feed.failure? = some e ∨ ∃ detail, e = .other detail) →
      (∃ cause, feed.failure? = some (.abort cause) ∧ e.fault = (ReadError.abort cause).fault) ∨
        OfContents e.fault := by
    rintro (cause | detail) he
    · rcases he with he | ⟨detail, ⟨⟩⟩
      exact .inl ⟨cause, he, rfl⟩
    · exact .inr (.damaged _)
  cases Listing.fails_of_extract h with
  | @stopped before after m p _ split _ stop =>
      cases stop with
      | tooLarge => exact .inr (.bytes _ _ _ _)
      | tooMany => exact .inr (.documents _)
      | broken _ _ _ hbroken =>
          refine hread _ (hblames.payload m ?_ _ hbroken)
          rw [split]
          exact List.mem_append_right _ List.mem_cons_self
      | truncated => exact .inr (.damaged _)
  | broken _ ending => exact hread _ (hblames.ending _ ending)
  | empty => exact .inr .empty

end DocWatch.Archive
