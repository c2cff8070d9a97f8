import DocWatch.Proofs.Update.Succession

/-!
# What a call asks of the remote

A call asks for the refs once, when its turn begins, and for the archive once at
most, when the answer to the first request has come. `Phase.Asked` says for every
phase what the call has asked by then, and one move keeps it, so the requests of a
call can be read off its phase.

Whether the archive is asked for depends on the commit that the call has read at
the beginning of its turn, and the answer comes later. It is still the commit that
is published at that moment, since nobody else publishes during the turn.
-/

namespace DocWatch.Update

/-- The request that an effect makes, if it makes one. -/
def Effect.requests : Effect → List Request
  | .request what => [what]
  | .nothing | .failure | .publication _ => []

namespace Phase

/-- What a call has asked of the remote by the time that it is in a phase. -/
def Asked (c : Settings) (asked : List Request) : Phase → Prop
  | .waiting | .ready => asked = []
  | .listing _ | .returned (.ok (.upToDate _)) => asked = [.refs]
  | .fetching _ | .extracting .. | .indexing .. | .publishing .. | .cleared ..
  | .returned (.ok (.updated ..)) => asked = [.refs, .archive c.archiveUrl]
  | .returned (.error _) | .dropped => asked <+: [.refs, .archive c.archiveUrl]

variable {c : Settings} {v : Sight} {p p' : Phase} {a : Action} {e : Effect}
  {asked : List Request}

theorem Asked.isPrefix (h : p.Asked c asked) : asked <+: [.refs, .archive c.archiveUrl] := by
  cases p with
  | waiting | ready =>
      obtain rfl : asked = [] := h
      exact List.nil_prefix
  | listing =>
      obtain rfl : asked = [.refs] := h
      exact List.prefix_append _ _
  | fetching | extracting | indexing | publishing | cleared =>
      obtain rfl : asked = [.refs, .archive c.archiveUrl] := h
      exact List.prefix_refl _
  | dropped => exact h
  | returned r =>
      rcases r with fault | ⟨commit⟩ | ⟨old, new, files⟩
      · exact h
      · obtain rfl : asked = [.refs] := h
        exact List.prefix_append _ _
      · obtain rfl : asked = [.refs, .archive c.archiveUrl] := h
        exact List.prefix_refl _

theorem Asked.move (hp : p.Asked c asked) (h : Move c v p a p' e) :
    p'.Asked c (asked ++ e.requests) := by
  cases h with
  | look | wait | settle | receive | extract | build | clear | publish =>
      rw [Effect.requests, List.append_nil]
      exact hp
  | acquire =>
      obtain rfl : asked = [] := hp
      exact rfl
  | pursue =>
      obtain rfl : asked = [.refs] := hp
      exact rfl
  | giveUp | fail | drop =>
      rw [Effect.requests, List.append_nil]
      exact hp.isPrefix

/-- Whether a call may yet ask for something. -/
def mayAsk : Phase → Bool
  | .waiting | .ready | .listing _ => true
  | _ => false

theorem Move.mayAsk (h : Move c v p a p' e) (hp : p.mayAsk = false) :
    e.requests = [] ∧ p'.mayAsk = false := by
  cases h with
  | giveUp | look | wait | acquire | settle | pursue => cases hp
  | receive | extract | build | clear | publish | fail | drop => exact ⟨rfl, rfl⟩

/-- Only a listing makes a call ask for the archive. -/
theorem Move.archive {url : String} (h : Move c v p a p' e) (hurl : .archive url ∈ e.requests) :
    ∃ answer, a = .listed answer := by
  cases h with
  | pursue => exact ⟨_, rfl⟩
  | acquire => cases List.mem_singleton.1 hurl
  | giveUp | look | wait | settle | receive | extract | build | clear | publish | fail | drop =>
      cases hurl

end Phase

/-- The answer to a listing tells of a commit of the branch other than one. -/
def Behind (c : Settings) (commit : String) (answer : Except Fault Refs) : Prop :=
  ∃ refs latest, answer = .ok refs ∧ refs.latest c.branch = .ok latest ∧ latest ≠ commit

theorem Phase.Move.listed {c : Settings} {v : Sight} {p p' : Phase} {e : Effect}
    {answer : Except Fault Refs} (h : Move c v p (.listed answer) p' e) :
    ∃ tracked, p = .listing tracked ∧ p'.mayAsk = false ∧
      (Behind c tracked answer → e = .request (.archive c.archiveUrl)) ∧
      (¬ Behind c tracked answer → e.requests = []) := by
  cases h with
  | @settle tracked refs hlatest =>
      refine ⟨tracked, rfl, rfl, ?_, fun _ => rfl⟩
      rintro ⟨refs', latest, hrefs, hlatest', hne⟩
      cases hrefs
      rw [hlatest] at hlatest'
      cases hlatest'
      exact absurd rfl hne
  | @pursue tracked latest refs hlatest hne =>
      exact ⟨tracked, rfl, rfl, fun _ => rfl,
        fun hno => absurd ⟨refs, latest, rfl, hlatest, hne⟩ hno⟩
  | fail hf =>
      cases hf with
      | @listing tracked _ fault hfault =>
          refine ⟨tracked, rfl, rfl, ?_, fun _ => rfl⟩
          rintro ⟨refs, latest, rfl, hlatest, -⟩
          rw [show (Except.ok refs : Except Fault Refs).bind (fun refs => refs.latest c.branch) =
            refs.latest c.branch from rfl, hlatest] at hfault
          cases hfault

namespace System

variable {c : Settings} {s t u : System} {history : List Event} {id : Nat}

/-- What a call has asked of the remote, in order. -/
def requestsOf (s : System) (id : Nat) : List Request :=
  s.requests.filterMap fun (asker, what) => if asker = id then some what else none

theorem requestsOf_advance {j : Nat} {call : Call} {phase : Phase} {effect : Effect} :
    (s.advance j call phase effect).requestsOf id =
      s.requestsOf id ++ if j = id then effect.requests else [] := by
  cases effect with
  | request what =>
      simp only [requestsOf, advance, perform, Effect.requests, List.filterMap_append]
      by_cases hj : j = id <;> simp [hj]
  | nothing | failure | publication =>
      simp only [Effect.requests, ite_self, List.append_nil]
      rfl

theorem Step.requestsOf_other {e : Event} (h : Step c s e t) (he : ∀ a, e ≠ .act id a) :
    t.requestsOf id = s.requestsOf id := by
  cases h with
  | call | cancel => rfl
  | @act j a call phase effect =>
      have hj : j ≠ id := fun hj => he a (hj ▸ rfl)
      rw [requestsOf_advance, if_neg hj, List.append_nil]

theorem Step.requestsOf_call {token : Nat} (h : Step c s (.call token) t) :
    t.requestsOf id = s.requestsOf id := by
  cases h
  rfl

theorem Idle.requestsOf (idle : s.Idle) (id : Nat) : s.requestsOf id = [] := by
  rw [System.requestsOf, idle.requests]
  rfl

/-- A call that has not been made has asked for nothing, and the phase of any other
one says what it has asked. -/
theorem asked_of_run (idle : s.Idle) (h : s.run? c history = some t) :
    (t.phase? id = none → t.requestsOf id = []) ∧
      ∀ p, t.phase? id = some p → p.Asked c (t.requestsOf id) := by
  refine run?_induction (P := fun _ t => (t.phase? id = none → t.requestsOf id = []) ∧
    ∀ p, t.phase? id = some p → p.Asked c (t.requestsOf id)) ⟨fun _ => idle.requestsOf id, ?_⟩
    ?_ h
  · intro p hp
    rw [idle.phase?] at hp
    cases hp
  · rintro history w e t hrun ⟨hunmade, hasked⟩ hstep
    replace hstep := step_of_step? hstep
    rcases hstep.of_call id with ⟨he, hsame⟩ | ⟨token, rfl, hnew, hwait⟩ |
      ⟨a, call, p', effect, rfl, hc, hm, rfl, hnext⟩
    · rw [phase?, hsame, hstep.requestsOf_other he]
      exact ⟨hunmade, hasked⟩
    · rw [hstep.requestsOf_call, hunmade (by rw [phase?, hnew]; rfl), phase?, hwait]
      refine ⟨fun _ => rfl, fun p hp => ?_⟩
      cases hp
      exact rfl
    · rw [phase?_of_getElem? hnext, requestsOf_advance, if_pos rfl]
      constructor
      · intro hnone
        cases hnone
      · intro p hp
        cases hp
        exact (hasked _ (phase?_of_getElem? hc)).move hm

theorem requestsOf_settled (h : s.run? c history = some t) {p : Phase}
    (hp : s.phase? id = some p) (hsettled : p.mayAsk = false) :
    t.requestsOf id = s.requestsOf id := by
  refine (run?_induction (P := fun _ t => t.requestsOf id = s.requestsOf id ∧
    ∃ p, t.phase? id = some p ∧ p.mayAsk = false) ⟨rfl, p, hp, hsettled⟩ ?_ h).1
  rintro history w e t - ⟨hsame, p, hp, hsettled⟩ hstep
  replace hstep := step_of_step? hstep
  rcases hstep.of_call id with ⟨he, hcall⟩ | ⟨token, -, hnew, -⟩ |
    ⟨a, call, p', effect, rfl, hc, hm, rfl, hnext⟩
  · rw [hstep.requestsOf_other he, phase?, hcall]
    exact ⟨hsame, p, hp, hsettled⟩
  · rw [phase?, hnew] at hp
    cases hp
  · rw [phase?_of_getElem? hc] at hp
    cases hp
    obtain ⟨hnone, hsettled'⟩ := hm.mayAsk hsettled
    rw [requestsOf_advance, if_pos rfl, hnone, List.append_nil]
    exact ⟨hsame, p', phase?_of_getElem? hnext, hsettled'⟩

theorem listed_of_archive (idle : s.Idle) (h : s.run? c history = some t) {url : String}
    (hurl : .archive url ∈ t.requestsOf id) : ∃ answer, .act id (.listed answer) ∈ history := by
  refine run?_induction (P := fun history t => .archive url ∈ t.requestsOf id →
    ∃ answer, .act id (.listed answer) ∈ history) ?_ ?_ h hurl
  · rw [idle.requestsOf]
    exact nofun
  · intro history w e t _ ih hstep hurl
    replace hstep := step_of_step? hstep
    have hold : Request.archive url ∈ w.requestsOf id →
        ∃ answer, .act id (.listed answer) ∈ history ++ [e] := fun hw =>
      (ih hw).imp fun _ hmem => List.mem_append_left _ hmem
    rcases hstep.of_call id with ⟨he, -⟩ | ⟨token, rfl, -, -⟩ |
      ⟨a, call, p', effect, rfl, -, hm, rfl, -⟩
    · exact hold (hstep.requestsOf_other he ▸ hurl)
    · exact hold (hstep.requestsOf_call ▸ hurl)
    · rw [requestsOf_advance, if_pos rfl] at hurl
      rcases List.mem_append.1 hurl with hurl | hurl
      · exact hold hurl
      · obtain ⟨answer, rfl⟩ := hm.archive hurl
        exact ⟨answer, List.mem_append_right _ (List.mem_singleton.2 rfl)⟩

/-- What a call asks of the remote in a history: without the answer to a listing
never more than the refs, and with it the archive exactly if the answer tells of a
commit other than the one that is published at that moment. Whatever happens
afterwards, nothing else is asked, and nothing twice. -/
structure AsksOnce (c : Settings) (s : System) (history : List Event) (t : System) (id : Nat) :
    Prop where
  unlisted : (∀ answer, .act id (.listed answer) ∉ history) → t.requestsOf id <+: [.refs]
  listed : ∀ before answer after u, history = before ++ .act id (.listed answer) :: after →
    s.run? c before = some u →
    (Behind c u.published.commit answer → t.requestsOf id = [.refs, .archive c.archiveUrl]) ∧
    (¬ Behind c u.published.commit answer → t.requestsOf id = [.refs])

theorem asksOnce_of_run (idle : s.Idle) (h : s.run? c history = some t) :
    AsksOnce c s history t id where
  unlisted hno := by
    -- The phase gives a beginning of both requests; the second one needs a listing.
    have hpre : t.requestsOf id <+: [.refs] ++ [.archive c.archiveUrl] := by
      cases hp : t.phase? id with
      | none =>
          rw [(asked_of_run idle h).1 hp]
          exact List.nil_prefix
      | some p => exact ((asked_of_run idle h).2 p hp).isPrefix
    rcases List.prefix_concat_iff.1 hpre with hall | hpre
    · have hurl : .archive c.archiveUrl ∈ t.requestsOf id := by
        rw [hall]
        exact List.mem_append_right _ (List.mem_singleton.2 rfl)
      obtain ⟨answer, hanswer⟩ := listed_of_archive idle h hurl
      exact absurd hanswer (hno answer)
    · exact hpre
  listed before answer after u hsplit hu := by
    rw [hsplit] at h
    have hafter := run?_rest hu h
    rw [run?] at hafter
    split at hafter
    · cases hafter
    · rename_i w hw
      cases step_of_step? hw with
      | @act _ _ call phase effect hc hm =>
          obtain ⟨tracked, hlisting, hsettled, hbehind, hnot⟩ := hm.listed
          have hphase := phase?_of_getElem? hc
          rw [hlisting] at hphase
          have htracked : tracked = u.published.commit := fresh_of_run idle hu hphase
          have hasked : u.requestsOf id = [.refs] := (asked_of_run idle hu).2 _ hphase
          rw [requestsOf_settled hafter (phase?_advance_self hc) hsettled, requestsOf_advance,
            if_pos rfl, hasked, ← htracked]
          refine ⟨fun hb => ?_, fun hb => ?_⟩
          · rw [hbehind hb]
            rfl
          · rw [hnot hb]
            rfl

end System
end DocWatch.Update
