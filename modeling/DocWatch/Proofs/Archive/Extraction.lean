import Mathlib.Data.List.Induction
import DocWatch.Proofs.Archive.Acceptance
import DocWatch.Proofs.Tree

/-!
# What one member does to an extraction, and what many add up to

A member is passed over, or its document is taken, or the extraction ends at it.
`Step` and `Stop` list these ways with the guard of each, and nothing that follows
from them opens the definitions of the extraction again.

From one member to many there are two roads. A state that an extraction reaches
obeys every law that holds at the start and is kept by `Step`. An extraction that
fails does so at one member, and has reached a state there with all members
before it behind it: `Fails` says which, or that the archive itself ends badly.
-/

namespace DocWatch.Archive

variable {f : Filter}

/-! ## One member -/

/-- The ways past a member. -/
inductive Progress.Step (f : Filter) (p : Progress) (m : Member) : Progress → Prop where
  | pass (h : ¬ f.Accepted m) : Step f p m p
  | take {path : String} {bytes : Bytes} (accepts : f.Accepts m path)
      (fits : m.size ≤ f.maxBytes - p.extracted) (room : p.tree.size < f.maxFiles)
      (payload : m.payload = .read bytes) (whole : bytes.length = m.size) :
      Step f p m ⟨p.tree.insert ⟨path, bytes⟩, p.extracted + m.size⟩

/-- The ways in which an extraction ends at a member. -/
inductive Progress.Stop (f : Filter) (p : Progress) (m : Member) : Fault → Prop where
  | tooLarge (accepted : f.Accepted m) (h : f.maxBytes - p.extracted < m.size) :
      Stop f p m (.sizeLimit (.extracted p.extracted m.name m.size f.maxBytes))
  | tooMany (accepted : f.Accepted m) (fits : m.size ≤ f.maxBytes - p.extracted)
      (h : f.maxFiles ≤ p.tree.size) : Stop f p m (.sizeLimit (.documents f.maxFiles))
  | broken {e : ReadError} (accepted : f.Accepted m)
      (fits : m.size ≤ f.maxBytes - p.extracted) (room : p.tree.size < f.maxFiles)
      (h : m.payload = .broken e) : Stop f p m e.fault
  | truncated {bytes : Bytes} (accepted : f.Accepted m)
      (fits : m.size ≤ f.maxBytes - p.extracted) (room : p.tree.size < f.maxFiles)
      (payload : m.payload = .read bytes) (h : bytes.length ≠ m.size) :
      Stop f p m (.malformedArchive (.truncated m.name m.size bytes.length))

namespace Progress

variable {p q : Progress} {m : Member} {e : Fault}

/-- Every member is passed, taken or the end. The guards of a way are those that
the ways before it have left. -/
theorem next_cases (f : Filter) (p : Progress) (m : Member) :
    (∃ q, p.next f m = .ok q ∧ p.Step f m q) ∨
    ∃ e, p.next f m = .error e ∧ p.Stop f m e := by
  rw [next]
  split
  · rename_i hnone
    exact Or.inl ⟨p, rfl, .pass (Filter.pathOf?_eq_none_iff.1 hnone)⟩
  · rename_i path hpath
    have accepts := Filter.pathOf?_eq_some_iff.1 hpath
    rw [take]
    split
    · rename_i hlarge
      exact Or.inr ⟨_, rfl, .tooLarge ⟨path, accepts⟩ hlarge⟩
    · rename_i hfits
      have fits := Nat.le_of_not_lt hfits
      split
      · rename_i hmany
        exact Or.inr ⟨_, rfl, .tooMany ⟨path, accepts⟩ fits hmany⟩
      · rename_i hroom
        have room := Nat.lt_of_not_le hroom
        split
        · rename_i r hbroken
          exact Or.inr ⟨_, rfl, .broken ⟨path, accepts⟩ fits room hbroken⟩
        · rename_i bytes hread
          split
          · rename_i hwhole
            exact Or.inl ⟨_, rfl, .take accepts fits room hread hwhole⟩
          · rename_i hshort
            exact Or.inr ⟨_, rfl, .truncated ⟨path, accepts⟩ fits room hread hshort⟩

theorem next_of_accepts {path : String} (h : f.Accepts m path) :
    p.next f m = p.take f path m := by
  rw [next, Filter.pathOf?_eq_some_iff.2 h]

theorem next_of_tooLarge (h : f.Accepted m) (hlarge : f.maxBytes - p.extracted < m.size) :
    p.next f m =
      .error (.sizeLimit (.extracted p.extracted m.name m.size f.maxBytes)) := by
  obtain ⟨path, hpath⟩ := h
  rw [next_of_accepts hpath, take, if_pos hlarge]

theorem next_of_tooMany (h : f.Accepted m) (hfits : m.size ≤ f.maxBytes - p.extracted)
    (hfull : f.maxFiles ≤ p.tree.size) :
    p.next f m = .error (.sizeLimit (.documents f.maxFiles)) := by
  obtain ⟨path, hpath⟩ := h
  rw [next_of_accepts hpath, take, if_neg (Nat.not_lt.2 hfits), if_pos hfull]

/-! ## Many members -/

theorem takeAll_append (p : Progress) (before after : List Member) :
    p.takeAll f (before ++ after) =
      (p.takeAll f before).bind fun q => q.takeAll f after := by
  induction before generalizing p with
  | nil => rfl
  | cons m rest ih =>
      rw [List.cons_append, takeAll, takeAll]
      cases p.next f m with
      | error e => rfl
      | ok q => exact ih q

theorem takeAll_singleton (p : Progress) (m : Member) :
    p.takeAll f [m] = p.next f m := by
  rw [takeAll]
  cases p.next f m <;> rfl

theorem stop_of_takeAll {ms : List Member} (h : p.takeAll f ms = .error e) :
    ∃ before m after q, ms = before ++ m :: after ∧ p.takeAll f before = .ok q ∧
      q.Stop f m e := by
  induction ms generalizing p with
  | nil => cases h
  | cons m rest ih =>
      rw [takeAll] at h
      rcases next_cases f p m with ⟨q, hq, -⟩ | ⟨e', he', hstop⟩
      · rw [hq] at h
        obtain ⟨before, m', after, q', rfl, hbefore, hstop⟩ := ih h
        exact ⟨m :: before, m', after, q', rfl, by rw [takeAll, hq]; exact hbefore, hstop⟩
      · rw [he'] at h
        cases h
        exact ⟨[], m, rest, p, rfl, rfl, hstop⟩

theorem takeAll_of_next {before after : List Member} (hbefore : p.takeAll f before = .ok q)
    (h : q.next f m = .error e) : p.takeAll f (before ++ m :: after) = .error e := by
  rw [takeAll_append, hbefore]
  simp only [Except.bind]
  rw [takeAll, h]

end Progress

/-- An extraction that has come past members without a fault stands at a state. -/
def Filter.Reaches (f : Filter) (ms : List Member) (p : Progress) : Prop :=
  Progress.start.takeAll f ms = .ok p

theorem Filter.Reaches.of_concat {ms : List Member} {m : Member} {q : Progress}
    (h : f.Reaches (ms ++ [m]) q) : ∃ p, f.Reaches ms p ∧ p.Step f m q := by
  rw [Reaches, Progress.takeAll_append] at h
  cases hms : Progress.start.takeAll f ms with
  | error e =>
      rw [hms] at h
      cases h
  | ok p =>
      rw [hms] at h
      simp only [Except.bind] at h
      rw [Progress.takeAll_singleton] at h
      rcases Progress.next_cases f p m with ⟨q', hq', hstep⟩ | ⟨e, he, -⟩
      · rw [hq'] at h
        cases h
        exact ⟨p, hms, hstep⟩
      · rw [he] at h
        cases h

/-- A law of all states that an extraction comes to: it holds at the start, and
every way past one more member keeps it. -/
theorem Filter.Reaches.induction {P : List Member → Progress → Prop}
    (start : P [] .start)
    (step : ∀ {ms p m q}, P ms p → p.Step f m q → P (ms ++ [m]) q)
    {ms : List Member} {p : Progress} (h : f.Reaches ms p) : P ms p := by
  induction ms using List.reverseRecOn generalizing p with
  | nil =>
      cases h
      exact start
  | append_singleton ms m ih =>
      obtain ⟨q, hq, hstep⟩ := h.of_concat
      exact step (ih hq) hstep

/-! ## The whole archive -/

namespace Listing

variable {l : Listing}

theorem extract_eq_ok_iff {tree : Tree} :
    l.extract f = .ok tree ↔
      ∃ p, f.Reaches l.members p ∧ l.ending = none ∧ p.tree.size ≠ 0 ∧ p.tree = tree := by
  simp only [extract, Filter.Reaches]
  cases Progress.start.takeAll f l.members with
  | error e => simp
  | ok p =>
      cases l.ending with
      | some e => simp
      | none =>
          by_cases h : p.tree.size = 0
          · simp [h]
          · simp [h]

/-- The ways in which an extraction fails. -/
inductive Fails (f : Filter) (l : Listing) : Fault → Prop where
  | stopped {before after : List Member} {m : Member} {p : Progress} {e : Fault}
      (split : l.members = before ++ m :: after) (h : f.Reaches before p)
      (stop : p.Stop f m e) : Fails f l e
  | broken {p : Progress} {r : ReadError} (h : f.Reaches l.members p)
      (ending : l.ending = some r) : Fails f l r.fault
  | empty {p : Progress} (h : f.Reaches l.members p) (ending : l.ending = none)
      (empty : p.tree.size = 0) : Fails f l .emptyArchive

theorem fails_of_extract {e : Fault} (h : l.extract f = .error e) : l.Fails f e := by
  rw [extract] at h
  split at h
  · rename_i e' he'
    cases h
    obtain ⟨before, m, after, q, hsplit, hbefore, hstop⟩ := Progress.stop_of_takeAll he'
    exact .stopped hsplit hbefore hstop
  · rename_i p hp
    split at h
    · rename_i r hr
      cases h
      exact .broken hp hr
    · rename_i hnone
      split at h
      · rename_i hempty
        cases h
        exact .empty hp hnone hempty
      · cases h

theorem extract_of_next {before after : List Member} {m : Member} {p : Progress}
    {e : Fault} (split : l.members = before ++ m :: after) (h : f.Reaches before p)
    (hnext : p.next f m = .error e) : l.extract f = .error e := by
  rw [extract, split, Progress.takeAll_of_next h hnext]

end Listing

theorem size_ne_zero_of_extract {feed : Feed} {tree : Tree} (h : extract f feed = .ok tree) :
    tree.size ≠ 0 := by
  obtain ⟨p, -, -, hsize, rfl⟩ := Listing.extract_eq_ok_iff.1 h
  exact hsize

end DocWatch.Archive
