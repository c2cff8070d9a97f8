import DocWatch.Proofs.Update.Periodic
import DocWatch.Update.Scenario

/-!
# Scenarios are histories

A scenario decides by itself what happens next, and it is written as a program. All that it does to
its system, it does by events that can happen there, so what is true of all histories is true of
every scenario. `Leads` is the relation that its parts have in common, and each of them is put
together from `apply`.

A loop in a scenario is a loop, too: its beats are those of the loop and the events of the calls in
between.
-/

namespace DocWatch.Update

/-- A history in which no call is dropped leads from the system of one scenario to that of
another, with the same settings. -/
def Scenario.Leads (s s' : Scenario) : Prop :=
  s'.settings = s.settings ∧ ∃ history, (∀ id, .act id .drop ∉ history) ∧
    s.system.run? s.settings history = some s'.system

namespace Scenario

variable {s s' s'' : Scenario} {id : Nat}

/-! ## One call -/

theorem Leads.refl (s : Scenario) : Leads s s :=
  ⟨rfl, [], fun _ => List.not_mem_nil, rfl⟩

theorem Leads.trans (h : Leads s s') (h' : Leads s' s'') : Leads s s'' := by
  obtain ⟨hsettings, history, hno, hrun⟩ := h
  obtain ⟨hsettings', history', hno', hrun'⟩ := h'
  rw [hsettings] at hrun' hsettings'
  refine ⟨hsettings', history ++ history', fun id hmem => ?_,
    System.run?_append_eq_some.2 ⟨_, hrun, hrun'⟩⟩
  exact (List.mem_append.1 hmem).elim (hno id) (hno' id)

theorem leads_apply {e : Event} (he : ∀ id, e ≠ .act id .drop) : Leads s (s.apply e) := by
  rw [apply]
  split
  · rename_i system hstep
    refine ⟨rfl, [e], fun id hmem => he id (List.mem_singleton.1 hmem).symm, ?_⟩
    rw [System.run?_singleton, hstep]
  · exact Leads.refl s

theorem leads_act (a : Action) (ha : a ≠ .drop) : Leads s (s.apply (.act id a)) := by
  refine leads_apply fun other he => ha ?_
  cases he
  rfl

theorem leads_cancel : Leads s (s.apply .cancel) := leads_apply nofun

/-- What the remote is asked leaves the system alone. -/
theorem leads_remote (remote : Remote) : Leads s { s with remote } :=
  ⟨rfl, [], fun _ => List.not_mem_nil, rfl⟩

theorem leads_list : Leads s s.list.2.2 := by
  unfold list
  split
  · split
    · exact (leads_remote _).trans leads_cancel
    · exact leads_remote _
  · dsimp only
    split
    · exact (leads_remote _).trans leads_cancel
    · exact leads_remote _

theorem leads_fetch {answer : Except Fault Delivery} : Leads s (s.fetch id answer) :=
  (leads_remote _).trans (leads_act _ nofun)

theorem leads_extract {d : Delivery} : Leads s (s.extract id d) := by
  unfold extract
  split
  · exact leads_act .interrupted nofun
  · split
    · exact leads_act (.extracted none) nofun
    · split
      · split
        · exact leads_act .timedOut nofun
        · exact leads_cancel.trans (leads_act .interrupted nofun)
      · exact leads_act (.extracted none) nofun

theorem leads_bring {answer : Except Fault Delivery} : Leads s (s.bring id answer) := by
  unfold bring
  split
  · cases answer with
    | error fault => exact leads_fetch
    | ok d =>
        have hindexed : Leads s (((s.fetch id (.ok d)).extract id d).apply (.act id .built)) :=
          (leads_fetch.trans leads_extract).trans (leads_act .built nofun)
        exact (hindexed.trans (leads_act .look nofun)).trans (leads_act (.publish s.clock) nofun)
  · exact Leads.refl s

theorem leads_serve (s : Scenario) (id : Nat) : Leads s (s.serve id) := by
  unfold serve
  split
  · exact leads_act .look nofun
  · have hready : Leads s ((s.apply (.act id .look)).apply (.act id .acquire)) :=
      (leads_act .look nofun).trans (leads_act .acquire nofun)
    have hlisted : ∀ answer, Leads s
        (((s.apply (.act id .look)).apply (.act id .acquire)).list.2.2.apply
          (.act id (.listed answer))) :=
      fun answer => (hready.trans leads_list).trans (leads_act (.listed answer) nofun)
    dsimp only
    split
    · exact hlisted _
    · exact (hlisted _).trans leads_bring

theorem leads_concurrent (n : Nat) : Leads s (s.concurrent n).2 := by
  have hfold : ∀ (l : List Nat) (step : Scenario → Nat → Scenario) (s : Scenario),
      (∀ s i, Leads s (step s i)) → Leads s (l.foldl step s) := by
    intro l step s hstep
    induction l generalizing s with
    | nil => exact Leads.refl s
    | cons i rest ih => exact (hstep s i).trans (ih _)
  exact (hfold _ _ s fun s _ => leads_apply (e := .call) nofun).trans
    (hfold _ _ _ fun s i => leads_serve s _)

/-! ## Calls at intervals -/

theorem run?_events {c : Settings} {p : Periodic} {system : System} {history : List Event}
    (hno : ∀ id, .act id .drop ∉ history) (h : p.system.run? c history = some system) :
    p.run? c (history.map .event) = some { p with system } := by
  induction history generalizing p with
  | nil =>
      cases h
      rfl
  | cons e rest ih =>
      have hkept : p.abandons e = false := by
        cases e with
        | act id a =>
            cases a with
            | drop => exact absurd List.mem_cons_self (hno id)
            | _ => rfl
        | call | cancel => rfl
      simp only [System.run?] at h
      split at h
      · cases h
      · rename_i next hnext
        simp only [List.map_cons, Periodic.run?, Periodic.step?, hkept, hnext]
        exact ih (fun id hmem => hno id (List.mem_cons_of_mem _ hmem)) h

theorem beats_of_beat {p : Periodic} (b : Beat) (hp : p.system = s.system) :
    ∃ beats, p.run? s.settings beats = some (s.beat p b).2 ∧
      (s.beat p b).2.system = (s.beat p b).1.system ∧ (s.beat p b).1.settings = s.settings := by
  unfold beat
  rw [← hp]
  extract_lets here
  split
  · rename_i next hnext
    exact ⟨[b], by rw [Periodic.run?_singleton]; exact hnext, rfl, rfl⟩
  · exact ⟨[], rfl, hp, rfl⟩

theorem beats_of_serve {p : Periodic} (id : Nat) (hp : p.system = s.system) :
    ∃ beats, p.run? s.settings beats = some { p with system := (s.serve id).system } := by
  obtain ⟨-, history, hno, hrun⟩ := leads_serve s id
  exact ⟨history.map .event, run?_events hno (hp ▸ hrun)⟩

theorem beat_of_system {p : Periodic} (b : Beat) :
    s.beat { p with system := s.system } b = s.beat p b :=
  rfl

/-- A loop in a scenario comes to where beats of the loop lead. -/
theorem beats_of_periodicFrom {p : Periodic} (limit : Nat) (hp : p.system = s.system) :
    ∃ beats q, p.run? s.settings beats = some q ∧
      q.system = (periodicFrom p s limit).system := by
  induction limit generalizing p s with
  | zero => exact ⟨[], p, rfl, hp⟩
  | succ limit ih =>
      obtain ⟨first, hfirst, hlooked, hset₁⟩ := beats_of_beat .look hp
      obtain ⟨second, hsecond, hticked, hset₂⟩ := beats_of_beat .tick hlooked
      rw [periodicFrom]
      generalize s.beat p .look = look at *
      obtain ⟨looked, p₁⟩ := look
      dsimp only at *
      generalize looked.beat p₁ .tick = tick at *
      obtain ⟨ticked, p₂⟩ := tick
      dsimp only at *
      rw [hset₁] at hsecond hset₂
      have hmade := Periodic.run?_append.2 ⟨p₁, hfirst, hsecond⟩
      split
      · rename_i id hloop
        have hserved : (ticked.serve id).settings = s.settings :=
          (leads_serve ticked id).1.trans hset₂
        obtain ⟨third, hthird⟩ := beats_of_serve id hticked
        obtain ⟨fourth, hfourth, hsettled, hset₄⟩ := beats_of_beat (s := ticked.serve id)
          (p := { p₂ with system := (ticked.serve id).system }) .settle rfl
        rw [beat_of_system, hserved] at hfourth hset₄
        rw [beat_of_system] at hsettled
        obtain ⟨rest, q, hrest, hq⟩ := ih hsettled
        rw [hset₂] at hthird
        rw [hset₄] at hrest
        refine ⟨((first ++ second) ++ third) ++ (fourth ++ rest), q, ?_, hq⟩
        exact Periodic.run?_append.2 ⟨_, Periodic.run?_append.2 ⟨p₂, hmade, hthird⟩,
          Periodic.run?_append.2 ⟨_, hfourth, hrest⟩⟩
      · exact ⟨_, p₂, hmade, hticked⟩

theorem beats_of_periodic (limit : Nat) : ∃ beats q,
    (Periodic.start 0 s.system).run? s.settings beats = some q ∧
      q.system = (s.periodic limit).system :=
  beats_of_periodicFrom limit rfl

end Scenario

end DocWatch.Update
