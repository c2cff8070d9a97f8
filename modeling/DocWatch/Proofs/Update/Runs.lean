import DocWatch.Proofs.Update.Moves

/-!
# Histories, and the part of one call in them

A run is the repetition of a step, so a law of runs is proved from the right, one
event at a time. `run?_induction` is that induction.

Most laws are about a single call, and of a history such a law needs only the
call's own actions: `actionsOf` picks them out. What the other calls do shows in
what the call sees, and all that a law may know of this is that a cancelled token
stays cancelled. `call_induction` is the induction over the actions of one call,
whatever happens in between.
-/

namespace DocWatch.Update

def Event.actionOf? (id : Nat) : Event → Option Action
  | .act j a => if j = id then some a else none
  | _ => none

/-- What happened to a call in a history, in order. -/
def actionsOf (id : Nat) (history : List Event) : List Action :=
  history.filterMap (Event.actionOf? id)

theorem actionsOf_append {id : Nat} {before after : List Event} :
    actionsOf id (before ++ after) = actionsOf id before ++ actionsOf id after :=
  List.filterMap_append

theorem mem_actionsOf {id : Nat} {a : Action} {history : List Event} :
    a ∈ actionsOf id history ↔ Event.act id a ∈ history := by
  rw [actionsOf, List.mem_filterMap]
  constructor
  · rintro ⟨e, he, ha⟩
    cases e with
    | act j b =>
        simp only [Event.actionOf?] at ha
        split at ha
        · rename_i hj
          cases ha
          exact hj ▸ he
        · cases ha
    | call | cancel => cases ha
  · intro h
    exact ⟨_, h, by simp [Event.actionOf?]⟩

theorem actionsOf_concat_self {id : Nat} {a : Action} {history : List Event} :
    actionsOf id (history ++ [.act id a]) = actionsOf id history ++ [a] := by
  rw [actionsOf_append]
  simp [actionsOf, Event.actionOf?]

theorem actionsOf_concat_other {id : Nat} {e : Event} {history : List Event}
    (h : ∀ a, e ≠ .act id a) :
    actionsOf id (history ++ [e]) = actionsOf id history := by
  rw [actionsOf_append]
  cases e with
  | act j a =>
      have hj : j ≠ id := fun hj => h a (hj ▸ rfl)
      simp [actionsOf, Event.actionOf?, hj]
  | call | cancel => simp [actionsOf, Event.actionOf?]

/-- Settings that follow the branch `main`, for histories that are written out. -/
def Settings.ofMain : Settings :=
  ⟨"https://host/main.tar.gz", "main", .standard, 1000⟩

namespace System

variable {c : Settings} {s t : System}

/-- No call has been made yet. What is published and measured, and which tokens
have been cancelled, is arbitrary. -/
structure Idle (s : System) : Prop where
  calls : s.calls = []
  requests : s.requests = []

theorem idle_start (published : Published) : (System.start published).Idle :=
  ⟨rfl, rfl⟩

theorem Idle.phase? (idle : s.Idle) (id : Nat) : s.phase? id = none := by
  rw [System.phase?, idle.calls]
  rfl

theorem run?_append (before after : List Event) :
    s.run? c (before ++ after) =
      (s.run? c before).bind fun u => u.run? c after := by
  induction before generalizing s with
  | nil => rfl
  | cons e rest ih =>
      simp only [List.cons_append, run?]
      cases s.step? c e with
      | none => rfl
      | some next => exact ih

theorem run?_append_eq_some {before after : List Event} :
    s.run? c (before ++ after) = some t ↔
      ∃ u, s.run? c before = some u ∧ u.run? c after = some t := by
  rw [run?_append, Option.bind_eq_some_iff]

theorem run?_rest {before after : List Event} {u : System} (hu : s.run? c before = some u)
    (h : s.run? c (before ++ after) = some t) : u.run? c after = some t := by
  rw [run?_append, hu] at h
  exact h

theorem run?_singleton (e : Event) : s.run? c [e] = s.step? c e := by
  simp only [run?]
  cases s.step? c e <;> rfl

theorem run?_concat {history : List Event} {e : Event} {u : System}
    (hu : s.run? c history = some u) (h : u.step? c e = some t) :
    s.run? c (history ++ [e]) = some t := by
  rw [run?_append_eq_some]
  exact ⟨u, hu, by rw [run?_singleton, h]⟩

/-- A law of all states that histories lead to: it holds where they start, and
one more event keeps it. -/
theorem run?_induction {P : List Event → System → Prop} (start : P [] s)
    (next : ∀ {history u e t}, s.run? c history = some u → P history u →
      u.step? c e = some t → P (history ++ [e]) t)
    {history : List Event} (h : s.run? c history = some t) : P history t := by
  -- From the right: what has happened moves over to the part that is settled.
  have settled : ∀ (after before : List Event) (u : System),
      s.run? c before = some u → P before u → u.run? c after = some t →
      P (before ++ after) t := by
    intro after
    induction after with
    | nil =>
        intro before u _ hP hu
        cases hu
        rw [List.append_nil]
        exact hP
    | cons e rest ih =>
        intro before u hb hP hu
        simp only [run?] at hu
        split at hu
        · cases hu
        · rename_i v hv
          have := ih (before ++ [e]) v (run?_concat hb hv) (next hb hP hv) hu
          rwa [List.append_assoc, List.singleton_append] at this
  exact settled history [] s rfl start h

/-- What an event means for one call: it is not its own, or makes it, or is its
next action. -/
theorem Step.of_call {e : Event} (h : Step c s e t) (id : Nat) :
    ((∀ a, e ≠ .act id a) ∧ t.calls[id]? = s.calls[id]?) ∨
    (∃ token, e = .call token ∧ s.calls[id]? = none ∧
      t.calls[id]? = some ⟨token, .waiting⟩) ∨
    (∃ a call phase effect, e = .act id a ∧ s.calls[id]? = some call ∧
      call.phase.Move c (s.sight call) a phase effect ∧
      t = s.advance id call phase effect ∧
      t.calls[id]? = some ⟨call.token, phase⟩) := by
  cases h with
  | call token =>
      have hother : ∀ a, Event.call token ≠ .act id a := by
        intro a he
        cases he
      rcases Nat.lt_trichotomy id s.calls.length with hlt | heq | hgt
      · left
        exact ⟨hother, List.getElem?_append_left hlt⟩
      · right; left
        subst heq
        exact ⟨token, rfl, List.getElem?_eq_none (Nat.le_refl _),
          List.getElem?_concat_length⟩
      · left
        refine ⟨hother, ?_⟩
        rw [List.getElem?_eq_none (by simp; omega),
          List.getElem?_eq_none (by omega)]
  | cancel token =>
      left
      refine ⟨fun a he => ?_, rfl⟩
      cases he
  | @act j a call phase effect hc hm =>
      by_cases hj : j = id
      · right; right
        subst hj
        obtain ⟨hlt, -⟩ := List.getElem?_eq_some_iff.1 hc
        exact ⟨a, call, phase, effect, rfl, hc, hm, rfl, by simp [advance, hlt]⟩
      · left
        refine ⟨fun b hb => hj (by cases hb; rfl), ?_⟩
        simp only [advance]
        exact List.getElem?_set_ne hj

/-- The same read backwards, from the phase that the call is in afterwards. -/
theorem Step.of_phase? {e : Event} {id : Nat} {p : Phase} (h : Step c s e t)
    (hp : t.phase? id = some p) :
    (s.phase? id = some p ∧ ∀ a, e ≠ .act id a) ∨
    (s.phase? id = none ∧ p = .waiting ∧ ∃ token, e = .call token) ∨
    (∃ (a : Action) (call : Call) (effect : Effect), e = .act id a ∧
      s.phase? id = some call.phase ∧ call.phase.Move c (s.sight call)
        a p effect) := by
  rcases h.of_call id with ⟨he, hsame⟩ | ⟨token, he, hnew, hwait⟩ |
    ⟨a, call, p', effect, he, hc, hm, -, hnext⟩
  · left
    rw [phase?, hsame] at hp
    exact ⟨hp, he⟩
  · right; left
    rw [phase?, hwait] at hp
    cases hp
    exact ⟨by rw [phase?, hnew]; rfl, rfl, token, he⟩
  · right; right
    rw [phase?, hnext] at hp
    cases hp
    exact ⟨a, call, effect, he, phase?_of_getElem? hc, hm⟩

theorem Step.of_ended {e : Event} {id : Nat} {p : Phase} (h : Step c s e t)
    (hp : s.phase? id = some p) (hend : p.ended = true) :
    (∀ a, e ≠ .act id a) ∧ t.phase? id = some p := by
  rcases h.of_call id with ⟨he, hsame⟩ | ⟨token, -, hnew, -⟩ |
    ⟨a, call, p', effect, -, hc, hm, -, -⟩
  · rw [phase?] at hp ⊢
    rw [hsame]
    exact ⟨he, hp⟩
  · rw [phase?, hnew] at hp
    cases hp
  · rw [phase?_of_getElem? hc] at hp
    cases hp
    rw [hm.not_ended] at hend
    cases hend

/-- A call has its turn, or goes no further. -/
def HasBegun (s : System) (id : Nat) : Prop :=
  ∃ p, s.phase? id = some p ∧ (p.hasTurn = true ∨ p.ended = true)

theorem Step.hasBegun {e : Event} {id : Nat} (h : Step c s e t)
    (hb : s.HasBegun id) : t.HasBegun id := by
  obtain ⟨p, hp, hturn | hend⟩ := hb
  · rcases h.of_call id with ⟨-, hsame⟩ | ⟨token, -, hnew, -⟩ |
      ⟨a, call, p', effect, -, hc, hm, -, hnext⟩
    · exact ⟨p, by rw [phase?, hsame]; exact hp, Or.inl hturn⟩
    · rw [phase?, hnew] at hp
      cases hp
    · rw [phase?_of_getElem? hc] at hp
      cases hp
      exact ⟨p', phase?_of_getElem? hnext, hm.turn_after hturn⟩
  · exact ⟨p, (h.of_ended hp hend).2, Or.inr hend⟩

theorem cancelled_advance {id : Nat} {call : Call} {phase : Phase}
    {effect : Effect} :
    (s.advance id call phase effect).cancelled = s.cancelled := by
  cases effect <;> rfl

theorem Step.isCancelled_mono {e : Event} (h : Step c s e t) {token : Nat}
    (hc : s.isCancelled token = true) : t.isCancelled token = true := by
  cases h with
  | call => exact hc
  | cancel k =>
      simp only [isCancelled, List.contains_cons] at hc ⊢
      rw [hc, Bool.or_true]
  | act => rwa [isCancelled, cancelled_advance]

theorem actionsOf_of_unmade {history : List Event} (h : s.run? c history = some t)
    {id : Nat} (hid : t.calls[id]? = none) :
    s.calls[id]? = none ∧ actionsOf id history = [] := by
  refine run?_induction (P := fun history t => t.calls[id]? = none →
    s.calls[id]? = none ∧ actionsOf id history = []) (fun h => ⟨h, rfl⟩) ?_ h hid
  intro history u e t _ ih hstep hid
  rcases (step_of_step? hstep).of_call id with ⟨he, hsame⟩ | ⟨token, -, -, hwait⟩ |
    ⟨a, call, phase, effect, -, -, -, -, hnext⟩
  · rw [actionsOf_concat_other he]
    exact ih (hsame ▸ hid)
  · rw [hwait] at hid
    cases hid
  · rw [hnext] at hid
    cases hid

/-- A law of one call over its own actions. It may depend on whether the token of
the call has been cancelled, which turns from false to true at some moment or
never. -/
theorem call_induction {id : Nat} {R : Bool → List Action → Phase → Prop}
    (start : ∀ call, s.calls[id]? = some call →
      R (s.isCancelled call.token) [] call.phase)
    (made : s.calls[id]? = none → ∀ b, R b [] .waiting)
    (cancel : ∀ {own p}, R false own p → R true own p)
    (move : ∀ {v : Sight} {own p a p' e}, Phase.Move c v p a p' e →
      R v.cancelled own p → R v.cancelled (own ++ [a]) p')
    {history : List Event} (h : s.run? c history = some t) {call : Call}
    (hcall : t.calls[id]? = some call) :
    R (t.isCancelled call.token) (actionsOf id history) call.phase := by
  refine run?_induction (P := fun history t => ∀ call, t.calls[id]? = some call →
    R (t.isCancelled call.token) (actionsOf id history) call.phase)
    start ?_ h call hcall
  intro history u e t hrun ih hstep call hcall
  replace hstep := step_of_step? hstep
  rcases hstep.of_call id with ⟨he, hsame⟩ | ⟨token, rfl, hnew, hwait⟩ |
    ⟨a, call', phase, effect, rfl, hc, hm, rfl, hnext⟩
  · have hR := ih call (hsame ▸ hcall)
    rw [actionsOf_concat_other he]
    cases hb : u.isCancelled call.token with
    | true =>
        rw [hstep.isCancelled_mono hb, ← hb]
        exact hR
    | false =>
        rw [hb] at hR
        cases t.isCancelled call.token with
        | true => exact cancel hR
        | false => exact hR
  · obtain ⟨hs, hown⟩ := actionsOf_of_unmade hrun hnew
    have hown' : actionsOf id (history ++ [.call token]) = actionsOf id history :=
      actionsOf_concat_other fun a he => by cases he
    rw [hwait] at hcall
    cases hcall
    rw [hown', hown]
    exact made hs _
  · rw [hnext] at hcall
    cases hcall
    rw [actionsOf_concat_self, isCancelled, cancelled_advance]
    exact move hm (ih call' hc)

theorem Idle.call_induction {id : Nat} {R : Bool → List Action → Phase → Prop}
    (idle : s.Idle) (made : ∀ b, R b [] .waiting)
    (cancel : ∀ {own p}, R false own p → R true own p)
    (move : ∀ {v : Sight} {own p a p' e}, Phase.Move c v p a p' e →
      R v.cancelled own p → R v.cancelled (own ++ [a]) p')
    {history : List Event} (h : s.run? c history = some t) {call : Call}
    (hcall : t.calls[id]? = some call) :
    R (t.isCancelled call.token) (actionsOf id history) call.phase := by
  refine System.call_induction (fun call hcall => ?_) (fun _ => made) cancel move h
    hcall
  rw [idle.calls] at hcall
  cases hcall

theorem token_stable {history : List Event} (h : s.run? c history = some t)
    {id : Nat} {call : Call} (hcall : s.calls[id]? = some call) :
    ∃ phase, t.calls[id]? = some ⟨call.token, phase⟩ := by
  refine run?_induction
    (P := fun _ t => ∃ phase, t.calls[id]? = some ⟨call.token, phase⟩) ?_ ?_ h
  · exact ⟨call.phase, hcall⟩
  · rintro history u e t - ⟨phase, hu⟩ hstep
    rcases (step_of_step? hstep).of_call id with ⟨-, hsame⟩ | ⟨token, -, hnew, -⟩ |
      ⟨a, call', phase', effect, -, hc, -, -, hnext⟩
    · exact ⟨phase, hsame.trans hu⟩
    · rw [hnew] at hu; cases hu
    · rw [hc] at hu; cases hu
      exact ⟨phase', hnext⟩

end System
end DocWatch.Update
