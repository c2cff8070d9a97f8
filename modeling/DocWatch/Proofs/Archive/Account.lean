import DocWatch.Proofs.Archive.Extraction

/-!
# What an extraction holds when it has come past some members

The state of an extraction is a function of the members behind it, and can be
read off them without running anything. `Accounts` gives it part by part: the
sizes of all documents so far, the paths in the tree, and under each path the
contents of the last document that came with it. Each part holds at the start and
is kept by every step.
-/

namespace DocWatch.Archive

variable {f : Filter} {ms : List Member} {m : Member} {path : String}

/-! ## What the members say -/

/-- The declared sizes of the documents among members, replaced ones included. -/
def Filter.declaredSize (f : Filter) (ms : List Member) : Nat :=
  total ((ms.filter (f.Accepted ·)).map Member.size)

/-- The contents of a member can be read, all of them. -/
def Member.Whole (m : Member) : Prop :=
  ∃ bytes, m.payload = .read bytes ∧ bytes.length = m.size

/-- The last document under a path has these contents. -/
def Filter.Keeps (f : Filter) (ms : List Member) (path : String) (bytes : Bytes) : Prop :=
  ∃ before m after, ms = before ++ m :: after ∧ f.Accepts m path ∧
    m.payload = .read bytes ∧ ∀ m' ∈ after, ¬ f.Accepts m' path

namespace Filter

theorem declaredSize_append (before after : List Member) :
    f.declaredSize (before ++ after) = f.declaredSize before + f.declaredSize after := by
  rw [declaredSize, List.filter_append, List.map_append, total_append]
  rfl

theorem declaredSize_singleton (h : f.Accepted m) : f.declaredSize [m] = m.size := by
  simp [declaredSize, h, total]

theorem declaredSize_singleton_of_not (h : ¬ f.Accepted m) : f.declaredSize [m] = 0 := by
  simp [declaredSize, h, total]

theorem accepts_concat :
    (∃ m' ∈ ms ++ [m], f.Accepts m' path) ↔
      (∃ m' ∈ ms, f.Accepts m' path) ∨ f.Accepts m path := by
  simp [or_and_right, exists_or]

/-- A list with one element behind it is cut at that element or before it. -/
theorem concat_eq_cut {before after : List Member} {x : Member} :
    ms ++ [m] = before ++ x :: after ↔
      (before = ms ∧ x = m ∧ after = []) ∨
      ∃ rest, after = rest ++ [m] ∧ ms = before ++ x :: rest := by
  constructor
  · intro h
    rcases List.eq_nil_or_concat after with rfl | ⟨rest, last, rfl⟩
    · obtain ⟨rfl, hx⟩ := List.append_inj' h rfl
      cases hx
      exact Or.inl ⟨rfl, rfl, rfl⟩
    · rw [List.concat_eq_append, ← List.cons_append, ← List.append_assoc] at h
      obtain ⟨rfl, hlast⟩ := List.append_inj' h rfl
      cases hlast
      exact Or.inr ⟨rest, List.concat_eq_append, rfl⟩
  · rintro (⟨rfl, rfl, rfl⟩ | ⟨rest, rfl, rfl⟩)
    · rfl
    · rw [List.append_assoc, List.cons_append]

theorem keeps_concat_of_accepts {bytes : Bytes} (h : f.Accepts m path) :
    f.Keeps (ms ++ [m]) path bytes ↔ m.payload = .read bytes := by
  constructor
  · rintro ⟨before, x, after, hcut, -, hpayload, hafter⟩
    rcases concat_eq_cut.1 hcut with ⟨rfl, rfl, rfl⟩ | ⟨rest, rfl, rfl⟩
    · exact hpayload
    · exact absurd h (hafter m (by simp))
  · intro hpayload
    exact ⟨ms, m, [], rfl, h, hpayload, nofun⟩

theorem keeps_concat_of_not {bytes : Bytes} (h : ¬ f.Accepts m path) :
    f.Keeps (ms ++ [m]) path bytes ↔ f.Keeps ms path bytes := by
  constructor
  · rintro ⟨before, x, after, hcut, haccepts, hpayload, hafter⟩
    rcases concat_eq_cut.1 hcut with ⟨rfl, rfl, rfl⟩ | ⟨rest, rfl, rfl⟩
    · exact absurd haccepts h
    · exact ⟨before, x, rest, rfl, haccepts, hpayload,
        fun y hy => hafter y (List.mem_append_left _ hy)⟩
  · rintro ⟨before, x, after, rfl, haccepts, hpayload, hafter⟩
    refine ⟨before, x, after ++ [m], by simp, haccepts, hpayload, fun y hy => ?_⟩
    rcases List.mem_append.1 hy with hy | hy
    · exact hafter y hy
    · exact List.mem_singleton.1 hy ▸ h

end Filter

/-! ## What the state says -/

/-- A state that is the account of members. -/
structure Progress.Accounts (f : Filter) (ms : List Member) (p : Progress) : Prop where
  sound : p.tree.Sound
  extracted_eq : p.extracted = f.declaredSize ms
  extracted_le : p.extracted ≤ f.maxBytes
  held_le : p.tree.held ≤ p.extracted
  size_le : p.tree.size ≤ f.maxFiles
  whole : ∀ m ∈ ms, f.Accepted m → m.Whole
  mem_paths : ∀ path, path ∈ p.tree.paths ↔ ∃ m ∈ ms, f.Accepts m path
  get? : ∀ path bytes, p.tree.get? path = some bytes ↔ f.Keeps ms path bytes

namespace Progress

variable {p q : Progress}

theorem accounts_start : Progress.start.Accounts f [] where
  sound := Tree.sound_empty
  extracted_eq := rfl
  extracted_le := Nat.zero_le _
  held_le := Nat.le_refl _
  size_le := Nat.zero_le _
  whole := nofun
  mem_paths path := ⟨nofun, nofun⟩
  get? path bytes := by
    refine ⟨nofun, ?_⟩
    rintro ⟨before, m, after, heq, -⟩
    exact absurd heq (by simp)

namespace Accounts

theorem pass (h : p.Accounts f ms) (hm : ¬ f.Accepted m) : p.Accounts f (ms ++ [m]) where
  sound := h.sound
  extracted_eq := by
    rw [Filter.declaredSize_append, Filter.declaredSize_singleton_of_not hm]
    exact h.extracted_eq
  extracted_le := h.extracted_le
  held_le := h.held_le
  size_le := h.size_le
  whole m' hm' haccepted := by
    rcases List.mem_append.1 hm' with hm' | hm'
    · exact h.whole m' hm' haccepted
    · exact absurd (List.mem_singleton.1 hm' ▸ haccepted) hm
  mem_paths path := by
    rw [h.mem_paths, Filter.accepts_concat, or_iff_left fun haccepts => hm ⟨path, haccepts⟩]
  get? path bytes := by
    rw [h.get?, Filter.keeps_concat_of_not fun haccepts => hm ⟨path, haccepts⟩]

theorem take {bytes : Bytes} (h : p.Accounts f ms) (accepts : f.Accepts m path)
    (fits : m.size ≤ f.maxBytes - p.extracted) (room : p.tree.size < f.maxFiles)
    (payload : m.payload = .read bytes) (hwhole : bytes.length = m.size) :
    Accounts f (ms ++ [m]) ⟨p.tree.insert ⟨path, bytes⟩, p.extracted + m.size⟩ where
  sound := h.sound.insert _
  extracted_eq := by
    rw [Filter.declaredSize_append, Filter.declaredSize_singleton ⟨path, accepts⟩, ← h.extracted_eq]
  extracted_le := by
    have := h.extracted_le
    show p.extracted + m.size ≤ f.maxBytes
    omega
  held_le := by
    -- The document adds at most its size: it may also give bytes back.
    have hle := h.sound.held_insert_le (d := ⟨path, bytes⟩)
    have hheld := h.held_le
    show (p.tree.insert ⟨path, bytes⟩).held ≤ p.extracted + m.size
    have hlength : (Document.mk path bytes).data.length = m.size := hwhole
    omega
  size_le := Nat.le_trans Tree.size_insert_le room
  whole m' hm' haccepted := by
    rcases List.mem_append.1 hm' with hm' | hm'
    · exact h.whole m' hm' haccepted
    · exact List.mem_singleton.1 hm' ▸ ⟨bytes, payload, hwhole⟩
  mem_paths path' := by
    rw [Tree.mem_paths_insert, h.mem_paths, Filter.accepts_concat, or_comm]
    -- A member has one path, so the new one is found under that path only.
    refine or_congr_right ⟨?_, fun h => h.unique accepts⟩
    rintro rfl
    exact accepts
  get? path' bytes' := by
    rw [h.sound.get?_insert]
    split
    · rename_i heq
      subst heq
      rw [Filter.keeps_concat_of_accepts accepts, payload, Option.some.injEq,
        Payload.read.injEq]
    · rename_i hne
      rw [h.get?, Filter.keeps_concat_of_not fun haccepts => hne (haccepts.unique accepts)]

theorem step (h : p.Accounts f ms) (hstep : p.Step f m q) : q.Accounts f (ms ++ [m]) := by
  cases hstep with
  | pass hm => exact h.pass hm
  | take accepts fits room payload whole => exact h.take accepts fits room payload whole

end Accounts
end Progress

theorem Filter.Reaches.accounts {p : Progress} (h : f.Reaches ms p) : p.Accounts f ms :=
  h.induction Progress.accounts_start fun hms hstep => hms.step hstep

end DocWatch.Archive
