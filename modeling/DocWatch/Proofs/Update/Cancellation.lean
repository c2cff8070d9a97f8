import DocWatch.Proofs.Update.Origin

/-!
# What a cancellation stops

A cancelled token stays cancelled, and two looks at it decide what a call can
still do. A call that is made later finds it cancelled at its first look, before
it reaches for its turn, so that the remote never hears of it. A call that is
under way finds it cancelled at its last look, and is not cleared. Only a call
that was cleared before goes on to publish.

The second look is what makes a body harmless that the cancellation has cut
short. Such a body may be extracted without a fault, and its documents may be
indexed, but a call that got this far has its last look still before it.
-/

namespace DocWatch.Update

/-- All that becomes of a call that has its first look behind a cancellation. -/
structure Refused (own : List Action) (p : Phase) : Prop where
  actions : ∀ a ∈ own, a = .look ∨ a = .drop
  phase : p = .waiting ∨ p = .dropped ∨
    p = .returned (.error ⟨.checkingRemote, .cancelled⟩)

theorem Refused.move {c : Settings} {v : Sight} {own : List Action}
    {p p' : Phase} {a : Action} {e : Effect} (h : Refused own p)
    (hv : v.cancelled = true) (hm : Phase.Move c v p a p' e) :
    Refused (own ++ [a]) p' := by
  have hactions : ∀ b, (b = .look ∨ b = .drop) →
      ∀ a ∈ own ++ [b], a = .look ∨ a = .drop := by
    intro b hb a ha
    rcases List.mem_append.1 ha with ha | ha
    · exact h.actions a ha
    · exact List.mem_singleton.1 ha ▸ hb
  rcases h.phase with rfl | rfl | rfl
  · cases hm with
    | giveUp => exact ⟨hactions _ (Or.inl rfl), Or.inr (Or.inr rfl)⟩
    | look hlook =>
        rw [hv] at hlook
        cases hlook
    | drop => exact ⟨hactions _ (Or.inr rfl), Or.inr (Or.inl rfl)⟩
    | fail hf => cases hf
  · cases hm.not_ended
  · cases hm.not_ended

def Phase.Cleared (p : Phase) : Prop :=
  ∃ latest files snapshot, p = .cleared latest files snapshot

theorem Phase.Move.not_cleared {c : Settings} {v : Sight} {p p' : Phase}
    {a : Action} {e : Effect} (h : Phase.Move c v p a p' e)
    (hv : v.cancelled = true) : ¬ p'.Cleared := by
  rintro ⟨latest, files, snapshot, rfl⟩
  cases h with
  | clear hlook =>
      rw [hv] at hlook
      cases hlook

/-- The remote is asked where a turn begins, and where a listing has brought a
commit that is not the published one. -/
theorem Phase.Move.asks {c : Settings} {v : Sight} {p p' : Phase} {a : Action}
    {what : Request} (h : Phase.Move c v p a p' (.request what)) :
    (a = .acquire ∨ ∃ answer, a = .listed answer) ∧ p'.hasTurn = true := by
  cases h with
  | acquire => exact ⟨Or.inl rfl, rfl⟩
  | pursue => exact ⟨Or.inr ⟨_, rfl⟩, rfl⟩

namespace System

variable {c : Settings} {s t u : System} {token : Nat}

theorem isCancelled_cancel :
    isCancelled { s with cancelled := token :: s.cancelled } token = true := by
  simp [isCancelled]

theorem isCancelled_of_run {history : List Event} (h : s.run? c history = some t)
    (hc : s.isCancelled token = true) : t.isCancelled token = true :=
  run?_induction (P := fun _ t => t.isCancelled token = true) hc
    (fun _ hc hstep => (step_of_step? hstep).isCancelled_mono hc) h

/-! ## Requests -/

theorem Step.requests {e : Event} (h : Step c s e t) {id : Nat} {what : Request}
    (hr : (id, what) ∈ t.requests) :
    (id, what) ∈ s.requests ∨
    ∃ a p, e = .act id a ∧ (a = .acquire ∨ ∃ answer, a = .listed answer) ∧
      t.phase? id = some p ∧ p.hasTurn = true := by
  cases h with
  | call | cancel => exact Or.inl hr
  | @act j a call phase effect hc hm =>
      cases effect with
      | nothing | failure | publication => exact Or.inl hr
      | request asked =>
          rcases List.mem_append.1 hr with hr | hr
          · exact Or.inl hr
          · cases List.mem_singleton.1 hr
            exact Or.inr ⟨a, phase, rfl, hm.asks.1, phase?_advance_self hc, hm.asks.2⟩

theorem asks_of_request {history : List Event} (h : s.run? c history = some t)
    {id : Nat} {what : Request} (hr : (id, what) ∈ t.requests) :
    (id, what) ∈ s.requests ∨
    ∃ a ∈ actionsOf id history, a = .acquire ∨ ∃ answer, a = .listed answer := by
  refine run?_induction (P := fun history t => (id, what) ∈ t.requests →
    (id, what) ∈ s.requests ∨
    ∃ a ∈ actionsOf id history, a = .acquire ∨ ∃ answer, a = .listed answer)
    Or.inl ?_ h hr
  intro history w e t _ ih hstep hr
  rcases (step_of_step? hstep).requests hr with hr | ⟨a, -, rfl, hasks, -⟩
  · rcases ih hr with hr | ⟨a, ha, hasks⟩
    · exact Or.inl hr
    · rw [actionsOf_append]
      exact Or.inr ⟨a, List.mem_append_left _ ha, hasks⟩
  · rw [actionsOf_concat_self]
    exact Or.inr ⟨a, List.mem_append_right _ (List.mem_singleton.2 rfl), hasks⟩

theorem hasBegun_of_request {history : List Event} (idle : s.Idle)
    (h : s.run? c history = some t) {id : Nat} {what : Request}
    (hr : (id, what) ∈ t.requests) : t.HasBegun id := by
  refine run?_induction (P := fun _ t => (id, what) ∈ t.requests → t.HasBegun id)
    ?_ ?_ h hr
  · intro hr
    rw [idle.requests] at hr
    cases hr
  · intro history w e t _ ih hstep hr
    replace hstep := step_of_step? hstep
    rcases hstep.requests hr with hr | ⟨a, p, -, -, hp, hturn⟩
    · exact hstep.hasBegun (ih hr)
    · exact ⟨p, hp, Or.inl hturn⟩

/-! ## The first look -/

/-- A call that is yet to be made, or to look at its token. -/
def Outside (s : System) (id : Nat) : Prop :=
  s.phase? id = none ∨ s.phase? id = some .waiting

theorem refused_of_run {history : List Event} (hs : s.isCancelled token = true)
    {id : Nat} (hout : s.Outside id) (h : s.run? c history = some t)
    {p : Phase} (hcall : t.calls[id]? = some ⟨token, p⟩) :
    Refused (actionsOf id history) p := by
  refine run?_induction (P := fun history t => ∀ p,
    t.calls[id]? = some ⟨token, p⟩ → Refused (actionsOf id history) p)
    ?_ ?_ h p hcall
  · intro p hp
    rcases hout with hout | hout
    · rw [phase?, hp] at hout
      cases hout
    · rw [phase?_of_getElem? hp] at hout
      cases hout
      exact ⟨List.forall_mem_nil _, Or.inl rfl⟩
  · intro history w e t hrun ih hstep p hp
    rcases (step_of_step? hstep).of_call id with ⟨he, hsame⟩ |
      ⟨k, rfl, hw, hwait⟩ | ⟨a, call, p', effect, rfl, hc, hm, -, hnext⟩
    · rw [actionsOf_concat_other he]
      exact ih p (hsame ▸ hp)
    · have hown : actionsOf id (history ++ [.call k]) = actionsOf id history :=
        actionsOf_concat_other fun a he => by cases he
      rw [hown, (actionsOf_of_unmade hrun hw).2]
      rw [hwait] at hp
      cases hp
      exact ⟨List.forall_mem_nil _, Or.inl rfl⟩
    · rw [hnext] at hp
      cases hp
      rw [actionsOf_concat_self]
      exact (ih call.phase hc).move (isCancelled_of_run hrun hs) hm

theorem Outside.no_request {history : List Event} {id : Nat} (hout : t.Outside id)
    (idle : s.Idle) (h : s.run? c history = some t) (what : Request) :
    (id, what) ∉ t.requests := by
  intro hr
  obtain ⟨p, hp, hturn⟩ := hasBegun_of_request idle h hr
  rcases hout with hout | hout
  · rw [hout] at hp
    cases hp
  · rw [hout] at hp
    cases hp
    rcases hturn with hturn | hend
    · cases hturn
    · cases hend

theorem cancelled_of_look {id : Nat} (hs : s.isCancelled token = true)
    (hcall : s.calls[id]? = some ⟨token, .waiting⟩) :
    ∃ t, s.step? c (.act id .look) = some t ∧
      t.result? id = some (.error ⟨.checkingRemote, .cancelled⟩) := by
  refine ⟨s.advance id ⟨token, .waiting⟩
    (.returned (.error ⟨.checkingRemote, .cancelled⟩)) .nothing, ?_,
    result?_eq_some.2 (phase?_advance_self hcall)⟩
  simp [step?, act?, hcall, Phase.next?, sight, hs]

/-- A call that is made with a cancelled token ends at its first look. -/
theorem refused_late (hs : s.isCancelled token = true) :
    ∃ t, s.run? c [.call token, .act s.calls.length .look] = some t ∧
      t.calls = s.calls ++ [⟨token, .returned (.error ⟨.checkingRemote, .cancelled⟩)⟩] := by
  obtain ⟨w, hmade, hw⟩ : ∃ w : System, s.step? c (.call token) = some w ∧
      w = { s with calls := s.calls ++ [⟨token, .waiting⟩] } :=
    ⟨_, rfl, rfl⟩
  have hlook : w.isCancelled token = true := by
    rw [hw]
    exact hs
  have hcall : w.calls[s.calls.length]? = some ⟨token, .waiting⟩ := by
    rw [hw]
    exact List.getElem?_concat_length
  have hrefused : Phase.next? c (w.sight ⟨token, .waiting⟩) .waiting .look =
      some (.returned (.error ⟨.checkingRemote, .cancelled⟩), .nothing) := by
    simp [Phase.next?, sight, hlook]
  obtain ⟨t, ht, hmoved⟩ := moved_of_next? hcall hrefused rfl
  refine ⟨t, by simp only [run?, hmade, ht], ?_⟩
  rw [hmoved.calls, hw]
  simp

/-! ## The last look -/

theorem no_publish_of_run {history : List Event} (hs : s.isCancelled token = true)
    {id : Nat} {p : Phase} (hcall : s.calls[id]? = some ⟨token, p⟩)
    (hp : ¬ p.Cleared) (h : s.run? c history = some t) (now : Time.Instant) :
    .act id (.publish now) ∉ history := by
  obtain ⟨q, hq⟩ := token_stable h hcall
  have hown := call_induction
    (R := fun b own q => b = true ∧ ¬ q.Cleared ∧ ∀ now, .publish now ∉ own)
    (fun call hc => ?_) (fun hnone => ?_) (fun ih => absurd ih.1 nofun) ?_ h hq
  · exact fun hpub => hown.2.2 now (mem_actionsOf.2 hpub)
  · rw [hcall] at hc
    cases hc
    exact ⟨hs, hp, nofun⟩
  · rw [hcall] at hnone
    cases hnone
  · rintro v own q a q' e hm ⟨hv, hq, hno⟩
    refine ⟨hv, hm.not_cleared hv, fun now hmem => ?_⟩
    rcases List.mem_append.1 hmem with hmem | hmem
    · exact hno now hmem
    · obtain rfl := List.mem_singleton.1 hmem
      obtain ⟨latest, files, snapshot, hcleared, -⟩ := hm.of_publish
      exact hq ⟨latest, files, snapshot, hcleared⟩

/-- What is left of a body may be extracted and indexed. The call ends there, with
nothing published. -/
theorem refused_of_body {id : Nat} {latest : String} {body : Archive.Feed} {cut : Option Nat}
    {tree : Tree} {snapshot : Snapshot}
    (hcall : s.calls[id]? = some ⟨token, .extracting latest body⟩)
    (hlook : s.isCancelled token = true)
    (htree : Archive.extract c.filter (body.cutAt cut) = .ok tree)
    (hsnapshot : Snapshot.build tree = .ok snapshot) :
    ∃ t, s.run? c [.act id (.extracted cut), .act id .built, .act id .look] = some t ∧
      s.Moved id ⟨token, .returned (.error ⟨.publishing, .cancelled⟩)⟩ t := by
  have hrefused : ∀ v : Sight, v.cancelled = true →
      Phase.next? c v (.publishing latest tree.size snapshot) .look =
        some (.returned (.error ⟨.publishing, .cancelled⟩), .failure) := by
    intro v hv
    simp [Phase.next?, hv, Phase.fail]
  obtain ⟨u, hu, hmoved⟩ := indexed_of_body hcall (fun _ => hlook) htree hsnapshot
  obtain ⟨t, ht, hrest⟩ :=
    moved_of_next? hmoved.call_eq (hrefused _ ((hmoved.isCancelled_eq token).trans hlook)) rfl
  have hlast : u.run? c [.act id .look] = some t := by simp only [run?, ht]
  exact ⟨t, run?_append_eq_some.2 ⟨u, hu, hlast⟩, hmoved.trans hrest⟩

/-- A call whose body was cut short does not publish, whatever was made of the
rest. -/
theorem no_publish_of_cut {history : List Event} (idle : s.Idle)
    (h : s.run? c history = some t) {id n : Nat}
    (hcut : .act id (.extracted (some n)) ∈ history) (now : Time.Instant) :
    .act id (.publish now) ∉ history := by
  intro hpub
  rw [← mem_actionsOf] at hcut
  cases hcall : t.calls[id]? with
  | none =>
      rw [(actionsOf_of_unmade h hcall).2] at hcut
      cases hcut
  | some call =>
      obtain ⟨old, new, files, hp⟩ :=
        updated_of_publish idle h (phase?_of_getElem? hcall) hpub
      have hcourse := (course_of_run idle h hcall).1
      rw [hp] at hcourse
      obtain ⟨own, later, snapshot, hown, hcleared⟩ := hcourse.of_updated
      obtain ⟨waits, refs, body, tree, hwaits, rfl, -⟩ := hcleared.of_cleared
      -- The account of a cleared call has one extraction, of the whole body.
      rw [hown] at hcut
      simp only [List.mem_append, List.mem_cons, List.not_mem_nil, or_false,
        reduceCtorEq, Action.extracted.injEq] at hcut
      rcases hwaits _ hcut with hlook | hacquire
      · cases hlook
      · cases hacquire

/-- What holds from the event on that cancels a token. A call with it that is made
later, or still waits for its turn, asks the remote for nothing and can only return
that it is cancelled, unless it is dropped. A call with it that is under way, and
has its last look still before it, does not publish. And no call publishes whose
body was cut short, even if what came of the body was extracted without a fault. -/
theorem quiet_after_cancel {before after : List Event} (idle : s.Idle)
    (hbefore : s.run? c before = some u)
    (hafter : u.run? c (.cancel token :: after) = some t) :
    (∀ id p, u.Outside id → t.calls[id]? = some ⟨token, p⟩ →
      (∀ what, (id, what) ∉ t.requests) ∧ Refused (actionsOf id after) p ∧
      (p = .waiting → ∃ t', t.step? c (.act id .look) = some t' ∧
        t'.result? id = some (.error ⟨.checkingRemote, .cancelled⟩))) ∧
    (∀ id p now, u.calls[id]? = some ⟨token, p⟩ → ¬ p.Cleared →
      .act id (.publish now) ∉ after) ∧
    (∀ id n now, .act id (.extracted (some n)) ∈ before ++ .cancel token :: after →
      .act id (.publish now) ∉ before ++ .cancel token :: after) := by
  have hwhole : s.run? c (before ++ .cancel token :: after) = some t :=
    run?_append_eq_some.2 ⟨u, hbefore, hafter⟩
  have hrun : System.run? c { u with cancelled := token :: u.cancelled } after =
      some t := hafter
  refine ⟨fun id p hout hcall => ?_, fun id p now hcall hp => ?_,
    fun id n now hcut => ?_⟩
  · have hrefused := refused_of_run isCancelled_cancel hout hrun hcall
    refine ⟨fun what hwhat => ?_, hrefused, fun hwait => ?_⟩
    · rcases asks_of_request hafter hwhat with hold | ⟨a, ha, hasks⟩
      · exact hout.no_request idle hbefore what hold
      · rcases hrefused.actions a ha with rfl | rfl <;>
          rcases hasks with hask | ⟨answer, hask⟩ <;> cases hask
    · subst hwait
      exact cancelled_of_look (isCancelled_of_run hrun isCancelled_cancel) hcall
  · exact no_publish_of_run isCancelled_cancel hcall hp hrun now
  · exact no_publish_of_cut idle hwhole hcut now

/-- A body that goes on behind the end of its archive. -/
def longBody : Archive.Feed :=
  Archive.shortArchive ++ [.data [0]]

/-- A call that has begun to extract its body, while another one waits. -/
def underWay : List Event :=
  [.call 0, .act 0 .look, .act 0 .acquire, .call 0, .act 1 .look, .act 1 .acquire,
    .act 0 (.listed (.ok [("refs/heads/main", "b")])), .act 0 (.fetched (.ok longBody))]

/-- The cancellation cuts its body short, and what is left is a whole archive. Its
documents are indexed; a third call comes too late. -/
def brokenOff : List Event :=
  [.act 0 (.extracted (some 1)), .act 0 .built, .act 0 .look, .call 0, .act 2 .look]

theorem extract_longBody :
    Archive.extract Settings.ofMain.filter (longBody.cutAt (some 1)) = .ok shortTree := by
  have hcut : longBody.cutAt (some 1) = Archive.shortArchive := rfl
  rw [hcut]
  exact extract_shortTree

theorem run_brokenOff (hcalls : u.calls = [⟨0, .extracting "b" longBody⟩, ⟨0, .waiting⟩]) :
    ∃ t, u.run? .ofMain (.cancel 0 :: brokenOff) = some t ∧
      t.calls = [⟨0, .returned (.error ⟨.publishing, .cancelled⟩)⟩, ⟨0, .waiting⟩,
        ⟨0, .returned (.error ⟨.checkingRemote, .cancelled⟩)⟩] := by
  obtain ⟨snapshot, hsnapshot⟩ := build_shortTree
  have hlook : isCancelled { u with cancelled := 0 :: u.cancelled } 0 = true := isCancelled_cancel
  have hcall : ({ u with cancelled := 0 :: u.cancelled } : System).calls[0]? =
      some ⟨0, .extracting "b" longBody⟩ := by
    rw [hcalls]
    rfl
  obtain ⟨s, hs, hmoved⟩ := refused_of_body hcall hlook extract_longBody hsnapshot
  have hcallss : s.calls = [⟨0, .returned (.error ⟨.publishing, .cancelled⟩)⟩, ⟨0, .waiting⟩] := by
    rw [hmoved.calls, hcalls]
    rfl
  obtain ⟨t, ht, hcallst⟩ :=
    refused_late (c := .ofMain) ((hmoved.isCancelled_eq 0).trans hlook)
  rw [hcallss] at ht hcallst
  exact ⟨t, run?_append_eq_some.2 ⟨s, hs, ht⟩, hcallst⟩

theorem quiet_after_cancel_under_way :
    ∃ u t, (System.start .nothing).run? .ofMain underWay = some u ∧
      u.run? .ofMain (.cancel 0 :: brokenOff) = some t ∧
      Archive.extract Settings.ofMain.filter (longBody.cutAt (some 1)) = .ok shortTree ∧
      t.phase? 0 = some (.returned (.error ⟨.publishing, .cancelled⟩)) ∧
      u.Outside 2 ∧
      t.phase? 2 = some (.returned (.error ⟨.checkingRemote, .cancelled⟩)) ∧
      (∀ what, (2, what) ∉ t.requests) ∧
      (∃ t', t.step? .ofMain (.act 1 .look) = some t' ∧
        t'.result? 1 = some (.error ⟨.checkingRemote, .cancelled⟩)) ∧
      (∀ now, .act 0 (.publish now) ∉ brokenOff) ∧
      ∀ now, .act 0 (.publish now) ∉ underWay ++ .cancel 0 :: brokenOff := by
  obtain ⟨u, hu, hcalls⟩ : ∃ u, (System.start .nothing).run? .ofMain underWay = some u ∧
      u.calls = [⟨0, .extracting "b" longBody⟩, ⟨0, .waiting⟩] :=
    ⟨_, rfl, rfl⟩
  obtain ⟨t, ht, hends⟩ := run_brokenOff hcalls
  obtain ⟨hlate, hunder, hcut⟩ := quiet_after_cancel (idle_start .nothing) hu ht
  have hfirst : u.calls[0]? = some ⟨0, .extracting "b" longBody⟩ := by rw [hcalls]; rfl
  have hopen : ¬ Phase.Cleared (.extracting "b" longBody) := by
    rintro ⟨latest, files, snapshot, h⟩
    cases h
  have hsecond : u.Outside 1 := Or.inr (by rw [phase?, hcalls]; rfl)
  have hthird : u.Outside 2 := Or.inl (by rw [phase?, hcalls]; rfl)
  refine ⟨u, t, hu, ht, extract_longBody, by rw [phase?, hends]; rfl, hthird,
    by rw [phase?, hends]; rfl, ?_, ?_, ?_, ?_⟩
  · exact (hlate 2 _ hthird (by rw [hends]; rfl)).1
  · exact (hlate 1 _ hsecond (by rw [hends]; rfl)).2.2 rfl
  · exact fun now => hunder 0 _ now hfirst hopen
  · exact fun now => hcut 0 1 now (by simp [brokenOff])

end System
end DocWatch.Update
