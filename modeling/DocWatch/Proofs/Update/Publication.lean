import DocWatch.Proofs.Archive.Stored
import DocWatch.Proofs.Update.Runs

/-!
# A call that publishes

The laws of histories say what a call may not do, and a system in which nobody ever
publishes would obey most of them. Here it is shown that a call does publish: one that
has reached for its turn while nobody has it gets to its end, if the branch has moved
and the body can be used. What it leaves behind is said in full, so that another call
can follow it. At the end two calls that are made at one time publish one after the
other.
-/

namespace DocWatch.Update

/-- It leaves what is published as it is. -/
def Effect.isQuiet : Effect → Bool
  | .publication _ => false
  | .nothing | .failure | .request _ => true

namespace System

variable {c : Settings} {s t u : System} {id token : Nat} {call call' : Call}

theorem result?_eq_some {r : Result} :
    s.result? id = some r ↔ s.phase? id = some (.returned r) := by
  rw [result?]
  split
  · rename_i r' h
    rw [h]
    simp
  · rename_i hno
    exact ⟨nofun, fun h => absurd h (hno r)⟩

/-- A call has moved on without publishing. What is published, which tokens have been
cancelled and how far all other calls have come is as it was. -/
structure Moved (s : System) (id : Nat) (call : Call) (t : System) : Prop where
  lt : id < s.calls.length
  calls : t.calls = s.calls.set id call
  shelf : t.shelf = s.shelf
  cancelled : t.cancelled = s.cancelled

namespace Moved

theorem call_eq (h : s.Moved id call t) : t.calls[id]? = some call := by
  rw [h.calls]
  exact List.getElem?_set_self h.lt

theorem trans (h : s.Moved id call t) (h' : t.Moved id call' u) : s.Moved id call' u where
  lt := h.lt
  calls := by rw [h'.calls, h.calls, List.set_set]
  shelf := h'.shelf.trans h.shelf
  cancelled := h'.cancelled.trans h.cancelled

theorem isCancelled_eq (h : s.Moved id call t) (k : Nat) : t.isCancelled k = s.isCancelled k := by
  rw [isCancelled, isCancelled, h.cancelled]

end Moved

theorem moved_of_next? {a : Action} {p p' : Phase} {e : Effect}
    (hcall : s.calls[id]? = some ⟨token, p⟩)
    (h : p.next? c (s.sight ⟨token, p⟩) a = some (p', e)) (hquiet : e.isQuiet = true) :
    ∃ t, s.step? c (.act id a) = some t ∧ s.Moved id ⟨token, p'⟩ t := by
  refine ⟨_, step?_of_next? hcall h, (List.getElem?_eq_some_iff.1 hcall).1, ?_, ?_, ?_⟩
  all_goals
    cases e with
    | nothing | failure | request => rfl
    | publication next => cases hquiet

section

variable {latest : String} {refs : Refs} {body : Archive.Feed} {tree : Tree}
  {snapshot : Snapshot}

/-- What has come of a body is extracted and indexed, the rest of one as well as all of it. -/
theorem indexed_of_body {cut : Option Nat}
    (hcall : s.calls[id]? = some ⟨token, .extracting latest body⟩)
    (early : cut.isSome → s.isCancelled token = true)
    (htree : Archive.extract c.filter (body.cutAt cut) = .ok tree)
    (hsnapshot : Snapshot.build tree = .ok snapshot) :
    ∃ t, s.run? c [.act id (.extracted cut), .act id .built] = some t ∧
      s.Moved id ⟨token, .publishing latest tree.size snapshot⟩ t := by
  have hextracted : Phase.next? c (s.sight ⟨token, .extracting latest body⟩)
      (.extracting latest body) (.extracted cut) = some (.indexing latest tree, .nothing) := by
    have hcut : ¬ (cut.isSome && !s.isCancelled token) := by
      intro h
      obtain ⟨hsome, hlook⟩ := Bool.and_eq_true_iff.1 h
      rw [early hsome] at hlook
      cases hlook
    simp only [Phase.next?, sight, if_neg hcut, htree]
    rfl
  have hbuilt : ∀ v, Phase.next? c v (.indexing latest tree) .built =
      some (.publishing latest tree.size snapshot, .nothing) := by
    simp [Phase.next?, Phase.built, hsnapshot]
  obtain ⟨s₁, h₁, hs₁⟩ := moved_of_next? hcall hextracted rfl
  obtain ⟨s₂, h₂, hs₂⟩ := moved_of_next? hs₁.call_eq (hbuilt _) rfl
  exact ⟨s₂, by simp only [run?, h₁, h₂], hs₁.trans hs₂⟩

/-- A call publishes whose body can be used. -/
theorem publishes_of_body (now : Time.Instant)
    (hcall : s.calls[id]? = some ⟨token, .extracting latest body⟩)
    (hlook : s.isCancelled token = false)
    (htree : Archive.extract c.filter body = .ok tree)
    (hsnapshot : Snapshot.build tree = .ok snapshot) :
    ∃ t, s.run? c [.act id (.extracted none), .act id .built, .act id .look,
        .act id (.publish now)] = some t ∧
      t.published = ⟨snapshot, latest, some now⟩ ∧
      t.result? id = some (.ok (.updated s.published.commit latest tree.size)) ∧
      t.calls = s.calls.set id
        ⟨token, .returned (.ok (.updated s.published.commit latest tree.size))⟩ ∧
      t.cancelled = s.cancelled := by
  have hcleared : ∀ v : Sight, v.cancelled = false →
      Phase.next? c v (.publishing latest tree.size snapshot) .look =
        some (.cleared latest tree.size snapshot, .nothing) := by
    intro v hv
    simp [Phase.next?, hv]
  have early : (none : Option Nat).isSome → s.isCancelled token = true := by
    intro h
    cases h
  obtain ⟨s₁, h₁, hs₁⟩ := indexed_of_body hcall early htree hsnapshot
  have hlook₁ : s₁.isCancelled token = false := (hs₁.isCancelled_eq token).trans hlook
  obtain ⟨s₂, h₂, hs₂⟩ := moved_of_next? hs₁.call_eq (hcleared _ hlook₁) rfl
  have hs₂ := hs₁.trans hs₂
  have hcommit : s₂.published.commit = s.published.commit := by
    rw [published, published, hs₂.shelf]
  obtain ⟨t, ht, h₃⟩ : ∃ t, t = s₂.advance id ⟨token, .cleared latest tree.size snapshot⟩
      (.returned (.ok (.updated s₂.published.commit latest tree.size)))
      (.publication ⟨snapshot, latest, some now⟩) ∧ s₂.step? c (.act id (.publish now)) = some t :=
    ⟨_, rfl, step?_of_next? hs₂.call_eq rfl⟩
  rw [hcommit] at ht
  have hrest : s₁.run? c [.act id .look, .act id (.publish now)] = some t := by
    simp only [run?, h₂, h₃]
  refine ⟨t, run?_append_eq_some.2 ⟨s₁, h₁, hrest⟩, by rw [ht]; rfl, ?_, ?_, ?_⟩
  · rw [ht, result?_eq_some, phase?_advance_self hs₂.call_eq]
  · rw [ht, advance, hs₂.calls, List.set_set]
  · rw [ht, cancelled_advance, hs₂.cancelled]

/-- A call publishes that gets its turn, and finds the branch moved and the body of use. -/
theorem publishes_of_ready (now : Time.Instant) (hcall : s.calls[id]? = some ⟨token, .ready⟩)
    (hfree : s.busy = false) (hlook : s.isCancelled token = false)
    (hlatest : refs.latest c.branch = .ok latest) (hne : latest ≠ s.published.commit)
    (htree : Archive.extract c.filter body = .ok tree)
    (hsnapshot : Snapshot.build tree = .ok snapshot) :
    ∃ t, s.run? c [.act id .acquire, .act id (.listed (.ok refs)), .act id (.fetched (.ok body)),
        .act id (.extracted none), .act id .built, .act id .look, .act id (.publish now)] =
        some t ∧
      t.published = ⟨snapshot, latest, some now⟩ ∧
      t.result? id = some (.ok (.updated s.published.commit latest tree.size)) ∧
      t.calls = s.calls.set id
        ⟨token, .returned (.ok (.updated s.published.commit latest tree.size))⟩ ∧
      t.cancelled = s.cancelled := by
  have hacquired : Phase.next? c (s.sight ⟨token, .ready⟩) .ready .acquire =
      some (.listing s.published.commit, .request .refs) := by
    simp [Phase.next?, sight, hfree]
  have hlisted : ∀ v, Phase.next? c v (.listing s.published.commit) (.listed (.ok refs)) =
      some (.fetching latest, .request (.archive c.archiveUrl)) := by
    have hbind : ((Except.ok refs : Except Fault Refs).bind fun refs =>
        refs.latest c.branch) = .ok latest := hlatest
    simp [Phase.next?, Phase.listed, hbind, hne]
  obtain ⟨s₁, h₁, hs₁⟩ := moved_of_next? hcall hacquired rfl
  obtain ⟨s₂, h₂, hs₂⟩ := moved_of_next? hs₁.call_eq (hlisted _) rfl
  obtain ⟨s₃, h₃, hs₃⟩ := moved_of_next? (a := .fetched (.ok body)) (c := c) hs₂.call_eq rfl rfl
  have hs₃ := (hs₁.trans hs₂).trans hs₃
  obtain ⟨t, ht, hpub, hresult, hcalls, hcancelled⟩ := publishes_of_body now hs₃.call_eq
    ((hs₃.isCancelled_eq token).trans hlook) htree hsnapshot
  have hcommit : s₃.published.commit = s.published.commit := by
    rw [published, published, hs₃.shelf]
  rw [hcommit] at hresult hcalls
  refine ⟨t, ?_, hpub, hresult, ?_, hcancelled.trans hs₃.cancelled⟩
  · simp only [run?, h₁, h₂, h₃]
    exact ht
  · rw [hcalls, hs₃.calls, List.set_set]

/-- A call publishes that is alone, if all answers are good. -/
theorem publishes_of_answers (now : Time.Instant)
    (idle : s.Idle) (hlook : s.isCancelled token = false)
    (hlatest : refs.latest c.branch = .ok latest) (hne : latest ≠ s.published.commit)
    (htree : Archive.extract c.filter body = .ok tree)
    (hsnapshot : Snapshot.build tree = .ok snapshot) :
    ∃ t, s.run? c [.call token, .act 0 .look, .act 0 .acquire,
        .act 0 (.listed (.ok refs)), .act 0 (.fetched (.ok body)),
        .act 0 (.extracted none), .act 0 .built, .act 0 .look,
        .act 0 (.publish now)] = some t ∧
      t.published = ⟨snapshot, latest, some now⟩ ∧
      t.result? 0 = some (.ok (.updated s.published.commit latest tree.size)) := by
  have hmem : token ∉ s.cancelled := by simpa [isCancelled] using hlook
  have hready : s.run? c [.call token, .act 0 .look] =
      some { s with calls := [⟨token, .ready⟩] } := by
    simp [run?, step?, act?, sight, idle.calls, hmem, isCancelled, Phase.next?, advance, perform]
  obtain ⟨t, ht, hpub, hresult, -⟩ :=
    @publishes_of_ready c { s with calls := [⟨token, .ready⟩] } 0 token latest refs body tree
      snapshot now rfl rfl hlook hlatest hne htree hsnapshot
  exact ⟨t, run?_append_eq_some.2 ⟨_, hready, ht⟩, hpub, hresult⟩

end

/-! ## Two calls at one time -/

/-- Two calls that are made at one time, until the first one has its archive. The
second one has reached for its turn in vain. -/
def twoCalls : List Event :=
  [.call 0, .call 0, .act 0 .look, .act 1 .look, .act 0 .acquire, .act 1 .acquire,
    .act 0 (.listed (.ok [("refs/heads/main", "b")])),
    .act 0 (.fetched (.ok Archive.shortArchive)), .act 1 .look]

theorem run_twoCalls : ∃ u,
    (System.start (.ofSnapshot .empty "a")).run? .ofMain twoCalls = some u ∧
      u.calls = [⟨0, .extracting "b" Archive.shortArchive⟩, ⟨0, .ready⟩] ∧ u.cancelled = [] ∧
      u.published.commit = "a" :=
  ⟨_, rfl, rfl, rfl, rfl⟩

/-- The first one publishes. The branch has moved on when the second one has its turn,
and so it publishes too. -/
def twoPublications : List Event :=
  twoCalls ++ [.act 0 (.extracted none), .act 0 .built, .act 0 .look, .act 0 (.publish ⟨0, 0⟩),
    .act 1 .acquire, .act 1 (.listed (.ok [("refs/heads/main", "c")])),
    .act 1 (.fetched (.ok Archive.shortArchive)), .act 1 (.extracted none), .act 1 .built,
    .act 1 .look, .act 1 (.publish ⟨1, 0⟩)]

/-- What the archive holds. -/
def shortTree : Tree :=
  .ofDocuments [⟨"a.md", Text.encode "hi".toList⟩]

theorem extract_shortTree :
    Archive.extract Settings.ofMain.filter Archive.shortArchive = .ok shortTree :=
  Archive.extract_shortArchive

theorem build_shortTree : ∃ snapshot, Snapshot.build shortTree = .ok snapshot :=
  Snapshot.exists_build (by decide +kernel)

theorem run_twoPublications : ∃ t,
    (System.start (.ofSnapshot .empty "a")).run? .ofMain twoPublications = some t ∧
      t.published.commit = "c" ∧ t.result? 0 = some (.ok (.updated "a" "b" 1)) ∧
      t.result? 1 = some (.ok (.updated "b" "c" 1)) := by
  obtain ⟨snapshot, hsnapshot⟩ := build_shortTree
  obtain ⟨u, hu, hcalls, hcancelled, hcommit⟩ := run_twoCalls
  obtain ⟨v, hv, hpub, -, hcallsv, hcancelledv⟩ := @publishes_of_body .ofMain u 0 0 "b" _ _ _
    ⟨0, 0⟩ (by rw [hcalls]; rfl) (by rw [isCancelled, hcancelled]; rfl) extract_shortTree hsnapshot
  rw [hcalls, hcommit] at hcallsv
  rw [hcancelled] at hcancelledv
  obtain ⟨t, ht, hpubt, hresult, hcallst, -⟩ := @publishes_of_ready .ofMain v 1 0 "c"
    [("refs/heads/main", "c")] _ _ _ ⟨1, 0⟩ (by rw [hcallsv]; rfl)
    (by rw [busy, hcallsv]; rfl) (by rw [isCancelled, hcancelledv]; rfl) rfl
    (by rw [hpub]; exact (by decide : "c" ≠ "b")) extract_shortTree hsnapshot
  rw [hpub] at hresult
  have hboth := run?_append_eq_some.2 ⟨v, hv, ht⟩
  refine ⟨t, run?_append_eq_some.2 ⟨u, hu, hboth⟩, by rw [hpubt], ?_, hresult⟩
  rw [result?, phase?, hcallst, hcallsv]
  rfl

end System
end DocWatch.Update
