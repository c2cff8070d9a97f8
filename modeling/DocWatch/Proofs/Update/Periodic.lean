import DocWatch.Proofs.Update.Upstream
import DocWatch.Update.Periodic

/-!
# Updates at intervals go on

The loop ends in two ways, and for both of them its token has been cancelled: it has seen that
itself, or one of its calls has said so. The second way is the dangerous one, since a call says
many things that come from outside. That it does not say this one without reason is the law of
`Proofs/Update/Upstream`; here it is carried over to the loop.

Between its calls the loop depends on nobody. So as long as its token is not cancelled it needs but
a tick to make the next call, whatever the last one returned.
-/

namespace DocWatch.Update

namespace Beat

/-- What a beat does in the system of a loop with a token. -/
def event? (token : Nat) : Beat → Option Event
  | .tick => some (.call token)
  | .event e => some e
  | .look | .early | .settle => none

def isTick : Beat → Bool
  | .tick => true
  | _ => false

end Beat

/-- What happens in the system during some beats. -/
def eventsOf (token : Nat) (beats : List Beat) : List Event :=
  beats.filterMap (Beat.event? token)

theorem eventsOf_concat {token : Nat} {beats : List Beat} {b : Beat} :
    eventsOf token (beats ++ [b]) = eventsOf token beats ++ (b.event? token).toList := by
  rw [eventsOf, List.filterMap_append]
  cases h : b.event? token <;> simp [eventsOf, h]

/-- How often the clock has ticked. -/
def ticks (beats : List Beat) : Nat :=
  beats.countP Beat.isTick

theorem ticks_concat {beats : List Beat} {b : Beat} :
    ticks (beats ++ [b]) = ticks beats + if b.isTick then 1 else 0 := by
  rw [ticks, List.countP_append, List.countP_singleton]
  rfl

namespace Periodic

variable {c : Settings} {p q u : Periodic} {beats : List Beat} {b : Beat} {s : System}
  {token id : Nat}

/-! ## One beat -/

/-- The loop makes a call. -/
def called (p : Periodic) : Periodic :=
  { p with
    system := { p.system with calls := p.system.calls ++ [⟨p.token, .waiting⟩] }
    loop := .updating p.system.calls.length
    made := p.made ++ [p.system.calls.length] }

/-- What a beat makes of a loop. -/
inductive Step (c : Settings) (p : Periodic) : Beat → Periodic → Prop where
  | stop (h : p.loop = .waiting) (look : p.system.isCancelled p.token = true) :
      Step c p .look { p with loop := .stopped }
  | look (h : p.loop = .waiting) (look : p.system.isCancelled p.token = false) :
      Step c p .look { p with loop := .ready }
  | early (h : p.loop = .ready) : Step c p .early { p with loop := .waiting }
  | tick (h : p.loop = .ready) : Step c p .tick p.called
  | giveUp {id : Nat} {r : Result} (h : p.loop = .updating id)
      (hr : p.system.result? id = some r) (cancelled : saysCancelled r = true) :
      Step c p .settle { p with loop := .stopped }
  | goOn {id : Nat} {r : Result} (h : p.loop = .updating id)
      (hr : p.system.result? id = some r) (other : saysCancelled r = false) :
      Step c p .settle { p with loop := .waiting }
  | event {e : Event} {system : System} (kept : p.abandons e = false)
      (h : p.system.step? c e = some system) : Step c p (.event e) { p with system }

theorem step_of_step? (h : p.step? c b = some q) : Step c p b q := by
  cases b with
  | look =>
      simp only [step?] at h
      split at h
      · rename_i hloop
        cases h
        cases hlook : p.system.isCancelled p.token with
        | true => exact .stop hloop hlook
        | false => exact .look hloop hlook
      · cases h
  | early =>
      simp only [step?] at h
      split at h
      · rename_i hloop
        cases h
        exact .early hloop
      · cases h
  | tick =>
      simp only [step?] at h
      split at h
      · rename_i hloop
        cases h
        exact .tick hloop
      · cases h
  | settle =>
      simp only [step?] at h
      split at h
      · rename_i id hloop
        split at h
        · rename_i r hr
          cases h
          cases hsays : saysCancelled r with
          | true => exact .giveUp hloop hr hsays
          | false => exact .goOn hloop hr hsays
        · cases h
      · cases h
  | event e =>
      simp only [step?] at h
      split at h
      · cases h
      · rename_i hkept
        split at h
        · rename_i system hstep
          cases h
          exact .event (Bool.eq_false_iff.2 hkept) hstep
        · cases h

/-! ## All beats -/

theorem run?_append {before after : List Beat} : p.run? c (before ++ after) = some q ↔
    ∃ u, p.run? c before = some u ∧ u.run? c after = some q := by
  induction before generalizing p with
  | nil => simp [run?]
  | cons b rest ih =>
      simp only [List.cons_append, run?]
      cases p.step? c b with
      | none => simp
      | some next => exact ih

theorem run?_singleton : p.run? c [b] = p.step? c b := by
  simp only [run?]
  cases p.step? c b <;> rfl

theorem run?_concat : p.run? c (beats ++ [b]) = some q ↔
    ∃ u, p.run? c beats = some u ∧ u.step? c b = some q := by
  rw [run?_append]
  simp only [run?_singleton]

/-- The beats of a loop are a history of its system. -/
theorem Step.run? (h : Step c p b q) :
    q.token = p.token ∧ p.system.run? c (b.event? p.token).toList = some q.system := by
  cases h with
  | stop | look | early | giveUp | goOn | tick => exact ⟨rfl, rfl⟩
  | event _ hstep => exact ⟨rfl, (System.run?_singleton _).trans hstep⟩

theorem system_of_run (h : (start token s).run? c beats = some q) :
    q.token = token ∧ s.run? c (eventsOf token beats) = some q.system := by
  induction beats using List.reverseRecOn generalizing q with
  | nil =>
      cases h
      exact ⟨rfl, rfl⟩
  | append_singleton beats b ih =>
      obtain ⟨u, hu, hstep⟩ := run?_concat.1 h
      obtain ⟨htoken, hrun⟩ := ih hu
      obtain ⟨htoken', hrun'⟩ := (step_of_step? hstep).run?
      rw [htoken] at htoken' hrun'
      rw [eventsOf_concat]
      exact ⟨htoken', System.run?_append_eq_some.2 ⟨u.system, hrun, hrun'⟩⟩

theorem made_of_run (h : (start token s).run? c beats = some q) :
    q.made.length = ticks beats := by
  induction beats using List.reverseRecOn generalizing q with
  | nil =>
      cases h
      rfl
  | append_singleton beats b ih =>
      obtain ⟨u, hu, hstep⟩ := run?_concat.1 h
      rw [ticks_concat, ← ih hu]
      cases step_of_step? hstep with
      | tick => exact List.length_append
      | stop | look | early | giveUp | goOn | event => rfl

/-! ## The loop and its calls -/

/-- How the loop stands to its calls. All but the one that it waits for have returned, and that one
is not dropped. It has not stopped unless its token is cancelled. -/
structure Sound (q : Periodic) : Prop where
  stopped : q.loop = .stopped → q.system.isCancelled q.token = true
  nodup : q.made.Nodup
  own : ∀ id ∈ q.made, ∃ phase, q.system.calls[id]? = some ⟨q.token, phase⟩
  returned : ∀ id ∈ q.made, q.loop = .updating id ∨ ∃ r, q.system.result? id = some r
  current : ∀ id, q.loop = .updating id → id ∈ q.made ∧ q.system.phase? id ≠ some .dropped

theorem sound_start : (start token s).Sound where
  stopped := nofun
  nodup := List.nodup_nil
  own := nofun
  returned := nofun
  current := nofun

/-- Only a drop makes a call a dropped one. -/
theorem drop_of_step {s t : System} {e : Event} (h : System.Step c s e t)
    (hs : s.phase? id ≠ some .dropped) (ht : t.phase? id = some .dropped) : e = .act id .drop := by
  rcases h.of_phase? ht with ⟨hsame, -⟩ | ⟨-, hwait, -⟩ | ⟨a, call, effect, rfl, -, hm⟩
  · exact absurd hsame hs
  · cases hwait
  · generalize call.phase = before at hm
    cases hm with
    | drop => rfl

/-- What a call of the loop returns as cancelled has its reason in the token. -/
theorem Sound.cancelled_of_result {r : Result} (hp : p.Sound) (honest : p.system.Honest)
    (hloop : p.loop = .updating id) (hr : p.system.result? id = some r)
    (hcancelled : saysCancelled r = true) : p.system.isCancelled p.token = true := by
  obtain ⟨phase, hcall⟩ := hp.own id (hp.current id hloop).1
  have hphase := System.result?_eq_some.1 hr
  rw [System.phase?_of_getElem? hcall, Option.some_inj] at hphase
  have hcallHonest : phase.Honest (p.system.isCancelled p.token) := honest id _ hcall
  rw [show phase = .returned r from hphase] at hcallHonest
  cases r with
  | ok => cases hcancelled
  | error fault => exact hcallHonest (of_decide_eq_true hcancelled)

theorem Step.sound (h : Step c p b q) (hp : p.Sound) (honest : p.system.Honest) : q.Sound := by
  -- Between its calls the loop waits for none, so all of them have returned.
  have hidle : (∀ id, p.loop ≠ .updating id) → ∀ id ∈ p.made, ∃ r, p.system.result? id = some r :=
    fun hno id hid => (hp.returned id hid).resolve_left (hno id)
  have hsettled : ∀ {id r}, p.loop = .updating id → p.system.result? id = some r →
      ∀ other ∈ p.made, ∃ r, p.system.result? other = some r := by
    intro id r hloop hr other hother
    rcases hp.returned other hother with hcurrent | hreturned
    · rw [hloop] at hcurrent
      cases hcurrent
      exact ⟨r, hr⟩
    · exact hreturned
  have hrun := h.run?.2
  cases h with
  | stop hloop look =>
      exact ⟨fun _ => look, hp.nodup, hp.own,
        fun id hid => Or.inr (hidle (by simp [hloop]) id hid), nofun⟩
  | look hloop | early hloop =>
      exact ⟨nofun, hp.nodup, hp.own,
        fun id hid => Or.inr (hidle (by simp [hloop]) id hid), nofun⟩
  | giveUp hloop hr hcancelled =>
      exact ⟨fun _ => hp.cancelled_of_result honest hloop hr hcancelled, hp.nodup, hp.own,
        fun id hid => Or.inr (hsettled hloop hr id hid), nofun⟩
  | goOn hloop hr =>
      exact ⟨nofun, hp.nodup, hp.own, fun id hid => Or.inr (hsettled hloop hr id hid), nofun⟩
  | tick hloop =>
      have hnew : p.called.system.calls[p.system.calls.length]? = some ⟨p.token, .waiting⟩ :=
        List.getElem?_concat_length
      refine ⟨nofun, ?_, ?_, ?_, ?_⟩
      · refine List.nodup_append.2 ⟨hp.nodup, List.pairwise_singleton _ _, fun id hid k hk => ?_⟩
        obtain rfl := List.mem_singleton.1 hk
        rintro rfl
        obtain ⟨phase, hcall⟩ := hp.own _ hid
        rw [List.getElem?_eq_none (Nat.le_refl _)] at hcall
        cases hcall
      · intro id hid
        rcases List.mem_append.1 hid with hold | hlast
        · obtain ⟨phase, hcall⟩ := hp.own id hold
          exact System.token_stable hrun hcall
        · rw [List.mem_singleton.1 hlast]
          exact ⟨_, hnew⟩
      · intro id hid
        rcases List.mem_append.1 hid with hold | hlast
        · obtain ⟨r, hr⟩ := hidle (by simp [hloop]) id hold
          exact Or.inr ⟨r, System.result?_of_run hrun hr⟩
        · rw [List.mem_singleton.1 hlast]
          exact Or.inl rfl
      · rintro _ ⟨⟩
        refine ⟨List.mem_append_right _ (List.mem_singleton.2 rfl), ?_⟩
        rw [System.phase?_of_getElem? hnew]
        simp
  | @event e system kept hstep =>
      have hsystem := System.step_of_step? hstep
      refine ⟨fun hloop => hsystem.isCancelled_mono (hp.stopped hloop), hp.nodup, ?_, ?_, ?_⟩
      · intro id hid
        obtain ⟨phase, hcall⟩ := hp.own id hid
        exact System.token_stable hrun hcall
      · intro id hid
        rcases hp.returned id hid with hcurrent | ⟨r, hr⟩
        · exact Or.inl hcurrent
        · exact Or.inr ⟨r, System.result?_of_run hrun hr⟩
      · intro id hloop
        refine ⟨(hp.current id hloop).1, fun hdropped => ?_⟩
        rw [drop_of_step hsystem (hp.current id hloop).2 hdropped] at kept
        exact absurd hloop (of_decide_eq_false kept)

theorem sound_of_run (idle : s.Idle) (h : (start token s).run? c beats = some q)
    (hsupplied : System.Supplied c s (eventsOf token beats)) : q.Sound := by
  induction beats using List.reverseRecOn generalizing q with
  | nil =>
      cases h
      exact sound_start
  | append_singleton beats b ih =>
      obtain ⟨u, hu, hstep⟩ := run?_concat.1 h
      rw [eventsOf_concat] at hsupplied
      have hbefore := hsupplied.of_append
      exact (step_of_step? hstep).sound (ih hu hbefore)
        (System.honest_of_run idle (system_of_run hu).2 hbefore)

/-! ## Going on -/

/-- Some beats lead to the next call. -/
def NextCall (c : Settings) (q : Periodic) (beats : List Beat) : Prop :=
  ∃ q', q.run? c beats = some q' ∧ q'.loop = .updating q.system.calls.length ∧
    q'.made = q.made ++ [q.system.calls.length] ∧
    q'.system.calls[q.system.calls.length]? = some ⟨q.token, .waiting⟩

/-- A tick is all that the loop waits for, once its last call has returned anything at all. -/
def GoesOn (c : Settings) (q : Periodic) : Prop :=
  match q.loop with
  | .waiting => NextCall c q [.look, .tick]
  | .ready => NextCall c q [.tick]
  | .updating id => q.system.phase? id ≠ some .dropped ∧
      ∀ r, q.system.result? id = some r → NextCall c q [.settle, .look, .tick]
  | .stopped => False

theorem nextCall_of_ready (h : q.loop = .ready) : NextCall c q [.tick] := by
  refine ⟨q.called, ?_, rfl, rfl, List.getElem?_concat_length⟩
  simp [run?, step?, h, System.step?, called]

theorem NextCall.cons {b : Beat} {beats : List Beat} {u : Periodic}
    (hstep : q.step? c b = some u) (htoken : u.token = q.token) (hsystem : u.system = q.system)
    (hmade : u.made = q.made) (h : NextCall c u beats) : NextCall c q (b :: beats) := by
  obtain ⟨q', hrun, hnext⟩ := h
  rw [htoken, hsystem, hmade] at hnext
  exact ⟨q', by simp only [run?, hstep, hrun], hnext⟩

theorem nextCall_of_waiting (h : q.loop = .waiting)
    (hopen : q.system.isCancelled q.token = false) : NextCall c q [.look, .tick] := by
  have hstep : q.step? c .look = some { q with loop := .ready } := by
    simp [step?, h, hopen]
  exact .cons hstep rfl rfl rfl (nextCall_of_ready rfl)

theorem Sound.goesOn (hq : q.Sound) (honest : q.system.Honest)
    (hopen : q.system.isCancelled q.token = false) : q.GoesOn c := by
  rw [GoesOn]
  cases hloop : q.loop with
  | waiting => exact nextCall_of_waiting hloop hopen
  | ready => exact nextCall_of_ready hloop
  | updating id =>
      refine ⟨(hq.current id hloop).2, fun r hr => ?_⟩
      have hother : saysCancelled r = false := by
        refine Bool.eq_false_iff.2 fun hcancelled => ?_
        rw [hq.cancelled_of_result honest hloop hr hcancelled] at hopen
        cases hopen
      have hstep : q.step? c .settle = some { q with loop := .waiting } := by
        simp [step?, hloop, hr, hother]
      exact .cons hstep rfl rfl rfl (nextCall_of_waiting rfl hopen)
  | stopped =>
      rw [hq.stopped hloop] at hopen
      cases hopen

/-- Whatever the listing program does and prints, whatever the host answers and whatever comes in
a body, in all orders of events: a call returns that it was cancelled only if its token has been
cancelled. So the loop has stopped only if its token has been cancelled. It has made one call for
each tick, all different, each of them after the one before had returned; and as long as its token
is not cancelled, the next tick brings the next call, whatever its last call has returned. -/
theorem periodic_goes_on (idle : s.Idle) (h : (start token s).run? c beats = some q)
    (hsupplied : System.Supplied c s (eventsOf token beats)) :
    (∀ (id : Nat) (call : Call) (fault : UpdateFault), q.system.calls[id]? = some call →
      call.phase = .returned (.error fault) → fault.isCancelled = true →
      q.system.isCancelled call.token = true) ∧
    (q.loop = .stopped → q.system.isCancelled token = true) ∧
    (q.made.length = ticks beats ∧ q.made.Nodup ∧
      ∀ id ∈ q.made, (∃ phase, q.system.calls[id]? = some ⟨token, phase⟩) ∧
        (q.loop = .updating id ∨ ∃ r, q.system.result? id = some r)) ∧
    (q.system.isCancelled token = false → q.GoesOn c) := by
  obtain ⟨htoken, hrun⟩ := system_of_run h
  have hsound := sound_of_run idle h hsupplied
  have honest := System.honest_of_run idle hrun hsupplied
  have hstopped := hsound.stopped
  have hown := hsound.own
  have hgoesOn := hsound.goesOn (c := c) honest
  rw [htoken] at hstopped hown hgoesOn
  refine ⟨fun id call fault hcall hr hfault => ?_, hstopped,
    ⟨made_of_run h, hsound.nodup, fun id hid => ⟨hown id hid, hsound.returned id hid⟩⟩, hgoesOn⟩
  exact System.cancelled_of_result idle hrun hsupplied hcall hr hfault

/-- The listing program fails. At the next tick but one it succeeds, and the host does
not answer. -/
def twoTroubles : List Beat :=
  [.look, .tick, .event (.act 0 .look), .event (.act 0 .acquire),
    .event (.act 0 (.listed (.error (.remoteQuery
      (.exited "exit status: 128" "fatal: no route"))))),
    .settle, .look, .early, .look, .tick, .event (.act 1 .look), .event (.act 1 .acquire),
    .event (.act 1 (.listed (.ok [("refs/heads/main", "b0")]))),
    .event (.act 1 (.fetched (.error (.download none "connection reset")))), .settle]

def failingProgram : Listing.Program :=
  .ok fun _ => .ok ⟨[], Text.encode "fatal: no route\n".toList, .code 128⟩

def workingProgram : Listing.Program :=
  .ok fun _ => .ok ⟨Text.encode "b0\trefs/heads/main\n".toList, [], .code 0⟩

def silentHost : Net.Transport :=
  fun _ => .failed ⟨["connection reset"], false⟩

theorem lists_failing (cancelled : Bool) :
    Lists cancelled (.error (.remoteQuery (.exited "exit status: 128" "fatal: no route"))) :=
  ⟨failingProgram, "https://host/docs.git", false, nofun, by decide +kernel⟩

theorem lists_working (cancelled : Bool) :
    Lists cancelled (.ok [("refs/heads/main", "b0")]) :=
  ⟨workingProgram, "https://host/docs.git", false, nofun, by decide +kernel⟩

theorem fetches_silent (cancelled : Bool) :
    Fetches cancelled (.error (.download none "connection reset")) :=
  ⟨silentHost, 0, ⟨"https://host/main.tar.gz", [], ""⟩, false, nofun, by decide +kernel⟩

theorem supplied_twoTroubles (s : System) :
    System.Supplied .ofMain s (eventsOf 0 twoTroubles) := by
  intro before id a after u call hsplit _ _
  have hmem : .act id a ∈ eventsOf 0 twoTroubles := by
    rw [hsplit]
    exact List.mem_append_right _ List.mem_cons_self
  simp only [eventsOf, twoTroubles, List.filterMap_cons, Beat.event?, List.filterMap_nil,
    List.mem_cons, List.not_mem_nil, Event.act.injEq, reduceCtorEq, or_false, false_or] at hmem
  rcases hmem with ⟨-, rfl⟩ | ⟨-, rfl⟩ | ⟨-, rfl⟩ | ⟨-, rfl⟩ | ⟨-, rfl⟩ | ⟨-, rfl⟩ | ⟨-, rfl⟩
  · trivial
  · trivial
  · exact lists_failing _
  · trivial
  · trivial
  · exact lists_working _
  · exact fetches_silent _

theorem run_twoTroubles :
    ((start 0 (.start (.ofSnapshot .empty "a"))).run? .ofMain twoTroubles).map
      (fun q => (q.loop, q.system.result? 1, q.system.isCancelled 0)) =
    some (.waiting, some (.error ⟨.downloading, .download none "connection reset"⟩), false) := by
  decide +kernel

theorem periodic_goes_on_twoTroubles : ∃ q,
    (start 0 (.start (.ofSnapshot .empty "a"))).run? .ofMain twoTroubles = some q ∧
    q.system.result? 1 = some (.error ⟨.downloading, .download none "connection reset"⟩) ∧
    q.loop = .waiting ∧ q.made.length = ticks twoTroubles ∧ q.GoesOn .ofMain := by
  obtain ⟨q, hrun, hq⟩ := Option.map_eq_some_iff.1 run_twoTroubles
  simp only [Prod.mk.injEq] at hq
  obtain ⟨hloop, hresult, hopen⟩ := hq
  obtain ⟨-, -, ⟨hmade, -⟩, hgoesOn⟩ :=
    periodic_goes_on (System.idle_start _) hrun (supplied_twoTroubles _)
  exact ⟨q, hrun, hresult, hloop, hmade, hgoesOn hopen⟩

end Periodic

end DocWatch.Update
