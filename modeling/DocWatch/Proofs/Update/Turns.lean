import DocWatch.Proofs.Update.Runs

/-!
# One turn at a time

At most one call has its turn, in every state that a history leads to, whatever
the order of the events. That is the whole of the mutual exclusion: a call comes
to its turn while nobody has it, and an event moves one call only.

What it buys is that a turn is a time in which nobody else publishes. `Turn` is
the stretch of a history from the event with which a call takes its turn to the
one that ends it, with all that other calls do meanwhile. As long as the call has
not published itself, what is published and when it was published are the same
all along.
-/

namespace DocWatch.Update.System

variable {c : Settings} {s t : System}

/-! ## Publication -/

theorem Step.published {e : Event} (h : Step c s e t) :
    (t.published = s.published ∧ t.meters.lastUpdate = s.meters.lastUpdate ∧
      ∀ id now, e ≠ .act id (.publish now)) ∨
    (∃ id now latest files snapshot, e = .act id (.publish now) ∧
      s.phase? id = some (.cleared latest files snapshot) ∧
      t.phase? id =
        some (.returned (.ok (.updated s.published.commit latest files))) ∧
      t.published = ⟨snapshot, latest, some now⟩ ∧
      t.meters.lastUpdate = gaugeOf now) := by
  cases h with
  | call | cancel => exact Or.inl ⟨rfl, rfl, nofun⟩
  | @act id a call phase effect hc hm =>
      cases effect with
      | publication next =>
          right
          obtain ⟨latest, files, snapshot, now, hp, rfl, rfl, rfl⟩ :=
            hm.publication
          refine ⟨id, now, latest, files, snapshot, rfl, ?_,
            phase?_advance_self hc, rfl, rfl⟩
          rw [phase?_of_getElem? hc, hp]
      | nothing | failure | request =>
          left
          refine ⟨rfl, rfl, fun j now he => ?_⟩
          cases he
          obtain ⟨latest, files, snapshot, -, -, he⟩ := hm.of_publish
          cases he

theorem HasTurn.of_cleared {id : Nat} {latest : String} {files : Nat}
    {snapshot : Snapshot} (h : s.phase? id = some (.cleared latest files snapshot)) :
    s.HasTurn id :=
  ⟨_, h, rfl⟩

theorem updated_of_publish {id : Nat} {now : Time.Instant} {p : Phase}
    {history : List Event} (idle : s.Idle) (h : s.run? c history = some t)
    (hp : t.phase? id = some p) (hpub : .act id (.publish now) ∈ history) :
    ∃ old new files, p = .returned (.ok (.updated old new files)) := by
  rw [phase?, Option.map_eq_some_iff] at hp
  obtain ⟨call, hcall, rfl⟩ := hp
  refine idle.call_induction
    (R := fun _ own p => .publish now ∈ own →
      ∃ old new files, p = .returned (.ok (.updated old new files)))
    (fun _ hmem => by cases hmem) (fun ih => ih) ?_ h hcall (mem_actionsOf.2 hpub)
  intro v own p a p' e hm ih hmem
  rcases List.mem_append.1 hmem with hown | hlast
  · obtain ⟨old, new, files, rfl⟩ := ih hown
    cases hm.not_ended
  · obtain rfl := List.mem_singleton.1 hlast
    obtain ⟨latest, files, snapshot, -, hp', -⟩ := hm.of_publish
    exact ⟨_, _, _, hp'⟩

/-! ## Mutual exclusion -/

def Exclusive (s : System) : Prop :=
  ∀ i j, s.HasTurn i → s.HasTurn j → i = j

theorem exclusive_of_idle (idle : s.Idle) : s.Exclusive := by
  rintro i j ⟨phase, hp, -⟩
  rw [idle.phase?] at hp
  cases hp

theorem Step.turn_before {e : Event} (h : Step c s e t) {i : Nat}
    (ht : t.HasTurn i) :
    s.HasTurn i ∨ (e = .act i .acquire ∧ s.busy = false) := by
  obtain ⟨p, hp, hturn⟩ := ht
  rcases h.of_phase? hp with ⟨hsame, -⟩ | ⟨-, rfl, -⟩ |
    ⟨a, call, effect, rfl, hbefore, hm⟩
  · exact Or.inl ⟨p, hsame, hturn⟩
  · cases hturn
  · rcases hm.turn_before hturn with hb | ⟨-, rfl, hfree⟩
    · exact Or.inl ⟨call.phase, hbefore, hb⟩
    · exact Or.inr ⟨rfl, hfree⟩

theorem Exclusive.step {e : Event} (hex : s.Exclusive) (h : Step c s e t) :
    t.Exclusive := by
  intro i j hi hj
  rcases h.turn_before hi with hi | ⟨rfl, hfree⟩
  · rcases h.turn_before hj with hj | ⟨-, hfree⟩
    · exact hex i j hi hj
    · exact absurd hi (busy_eq_false_iff.1 hfree i)
  · rcases h.turn_before hj with hj | ⟨he, -⟩
    · exact absurd hj (busy_eq_false_iff.1 hfree j)
    · cases he
      rfl

theorem exclusive_of_run {history : List Event} (idle : s.Idle)
    (h : s.run? c history = some t) : t.Exclusive :=
  run?_induction (P := fun _ t => t.Exclusive) (exclusive_of_idle idle)
    (fun _ hex hstep => hex.step (step_of_step? hstep)) h

/-! ## Turns -/

/-- The history from the event with which a call takes its turn in `s`, as long
as it has its turn, or up to the event that has just ended it in `t`. -/
inductive Turn (c : Settings) (id : Nat) (s : System) :
    List Event → System → Prop where
  | begin {t : System} (h : s.step? c (.act id .acquire) = some t)
      (ht : t.HasTurn id) : Turn c id s [.act id .acquire] t
  | next {history : List Event} {e : Event} {t u : System}
      (before : Turn c id s history t) (ht : t.HasTurn id)
      (h : t.step? c e = some u) : Turn c id s (history ++ [e]) u

theorem Turn.run? {id : Nat} {history : List Event} (h : Turn c id s history t) :
    s.run? c history = some t := by
  induction h with
  | begin h _ => rw [run?_singleton, h]
  | next _ _ h ih => exact run?_concat ih h

theorem Exclusive.turn {id : Nat} {history : List Event} (hex : s.Exclusive)
    (h : Turn c id s history t) : t.Exclusive :=
  run?_induction (P := fun _ t => t.Exclusive) hex
    (fun _ hex hstep => hex.step (step_of_step? hstep)) h.run?

theorem Turn.published_eq {id : Nat} {history : List Event} (hex : s.Exclusive)
    (h : Turn c id s history t)
    (hno : ∀ old new files,
      t.phase? id ≠ some (.returned (.ok (.updated old new files)))) :
    t.published = s.published ∧ t.meters.lastUpdate = s.meters.lastUpdate := by
  induction h with
  | begin h _ =>
      rcases (step_of_step? h).published with ⟨hp, hm, -⟩ | ⟨j, now, _, _, _, he, -⟩
      · exact ⟨hp, hm⟩
      · cases he
  | @next history e u t before ht h ih =>
      have hu : u.published = s.published ∧
          u.meters.lastUpdate = s.meters.lastUpdate := by
        refine ih fun old new files hp => ?_
        cases ht.hasTurn hp
      rcases (step_of_step? h).published with
        ⟨hp, hm, -⟩ | ⟨j, now, latest, files, snapshot, -, hcleared, hret, -⟩
      · exact ⟨hp.trans hu.1, hm.trans hu.2⟩
      · -- Whoever publishes has its turn, so it is this call, and it has returned.
        obtain rfl := hex.turn before j id (.of_cleared hcleared) ht
        exact absurd hret (hno _ _ _)

theorem HasTurn.hasBegun {id : Nat} (h : s.HasTurn id) : s.HasBegun id := by
  obtain ⟨p, hp, hturn⟩ := h
  exact ⟨p, hp, Or.inl hturn⟩

theorem Turn.hasBegun {id : Nat} {history : List Event}
    (h : Turn c id s history t) : t.HasBegun id := by
  cases h with
  | begin _ ht => exact ht.hasBegun
  | next _ ht h => exact (step_of_step? h).hasBegun ht.hasBegun

/-- A call that has not had its turn in any state of a history. -/
def NeverHadTurn (c : Settings) (s : System) (id : Nat) (history : List Event) :
    Prop :=
  ∀ before u, before <+: history → s.run? c before = some u → ¬ u.HasTurn id

theorem neverHadTurn_concat {id : Nat} {history : List Event} {e : Event} {w : System}
    (hrun : s.run? c history = some w) (hstep : w.step? c e = some t) :
    NeverHadTurn c s id (history ++ [e]) ↔ NeverHadTurn c s id history ∧ ¬ t.HasTurn id := by
  have hall := run?_concat hrun hstep
  constructor
  · intro hnever
    exact ⟨fun before u hpre => hnever before u (hpre.trans (List.prefix_append _ _)),
      hnever _ t (List.prefix_refl _) hall⟩
  · rintro ⟨hnever, ht⟩ before u hpre hu
    rcases List.prefix_concat_iff.1 hpre with rfl | hpre
    · rw [hall] at hu
      cases hu
      exact ht
    · exact hnever before u hpre hu

theorem turn_of_run {id : Nat} {history : List Event} (idle : s.Idle)
    (h : s.run? c history = some t) :
    NeverHadTurn c s id history ∨
    ∃ before during after u v, history = before ++ during ++ after ∧
      s.run? c before = some u ∧ Turn c id u during v ∧
      v.phase? id = t.phase? id ∧ (t.HasTurn id → after = []) := by
  refine run?_induction (P := fun history t => NeverHadTurn c s id history ∨
    ∃ before during after u v, history = before ++ during ++ after ∧
      s.run? c before = some u ∧ Turn c id u during v ∧
      v.phase? id = t.phase? id ∧ (t.HasTurn id → after = [])) ?_ ?_ h
  · left
    rintro before u hpre hrun ⟨p, hp, -⟩
    rw [List.prefix_nil.1 hpre] at hrun
    cases hrun
    rw [idle.phase?] at hp
    cases hp
  · rintro history w e t hrun ih hstep
    rcases ih with hnever | ⟨before, during, after, u, v, rfl, hu, hturn, hv, hafter⟩
    · by_cases ht : t.HasTurn id
      · -- The turn begins here.
        right
        rcases (step_of_step? hstep).turn_before ht with hw | ⟨rfl, -⟩
        · exact absurd hw (hnever history w (List.prefix_refl _) hrun)
        · exact ⟨history, [.act id .acquire], [], w, t, by simp, hrun,
            .begin hstep ht, rfl, fun _ => rfl⟩
      · exact Or.inl ((neverHadTurn_concat hrun hstep).2 ⟨hnever, ht⟩)
    · right
      by_cases hw : w.HasTurn id
      · -- The turn goes on, so the state behind it is the present one.
        obtain rfl := hafter hw
        rw [List.append_nil] at hrun ⊢
        have hvw : v = w := by
          have hduring := run?_rest hu hrun
          rw [hturn.run?] at hduring
          exact Option.some.inj hduring
        subst hvw
        exact ⟨before, during ++ [e], [], u, t, by simp, hu,
          hturn.next hw hstep, rfl, fun _ => rfl⟩
      · -- The turn has ended, and nothing happens to the call any more.
        obtain ⟨p, hp, hon | hend⟩ := hturn.hasBegun
        · rw [hv] at hp
          exact absurd ⟨p, hp, hon⟩ hw
        · have hsame := ((step_of_step? hstep).of_ended (hv ▸ hp) hend).2
          refine ⟨before, during, after ++ [e], u, v, by simp, hu, hturn,
            hp.trans hsame.symm, fun ht => ?_⟩
          have hturn := ht.hasTurn hsame
          rw [Phase.hasTurn_of_ended hend] at hturn
          cases hturn

/-- If a call had its turn, then the turn is a stretch of the history, it ended
with the call in the phase `p`, and what is published and measured was the same at
its end as when it began. -/
def TurnKept (c : Settings) (s : System) (id : Nat) (history : List Event)
    (p : Phase) : Prop :=
  NeverHadTurn c s id history ∨
  ∃ before during after u v, history = before ++ during ++ after ∧
    s.run? c before = some u ∧ Turn c id u during v ∧ v.phase? id = some p ∧
    v.published = u.published ∧ v.meters.lastUpdate = u.meters.lastUpdate

/-- A call that has not returned an update has published nothing, and its turn,
if it had one, has changed neither what is published nor what is measured of it. -/
theorem published_kept_unless_updated {id : Nat} {history : List Event} {p : Phase}
    (idle : s.Idle) (h : s.run? c history = some t)
    (hp : t.phase? id = some p)
    (hno : ∀ old new files, p ≠ .returned (.ok (.updated old new files))) :
    (∀ now, .act id (.publish now) ∉ history) ∧ TurnKept c s id history p := by
  constructor
  · intro now hpub
    obtain ⟨old, new, files, hup⟩ := updated_of_publish idle h hp hpub
    exact hno old new files hup
  · rcases turn_of_run idle h with hnever |
      ⟨before, during, after, u, v, hsplit, hu, hturn, hv, -⟩
    · exact Or.inl hnever
    · right
      rw [hp] at hv
      have hkept := hturn.published_eq (exclusive_of_run idle hu)
        fun old new files hret => hno old new files (by
          rw [hv] at hret
          exact Option.some.inj hret)
      exact ⟨before, during, after, u, v, hsplit, hu, hturn, hv, hkept.1, hkept.2⟩

/-- A download that takes too long, while another call waits. -/
def slowDownload : List Event :=
  [.call 0, .act 0 .look, .act 0 .acquire,
    .act 0 (.listed (.ok [("refs/heads/main", "b")])), .call 1,
    .act 0 (.fetched (.ok [])), .act 1 .look, .act 1 .acquire, .act 0 .timedOut]

theorem published_kept_by_timeout :
    ∃ t, (System.start .nothing).run? .ofMain slowDownload = some t ∧
      t.phase? 0 = some (.returned (.error ⟨.downloading, timeoutFault 1000⟩)) ∧
      (∀ now, .act 0 (.publish now) ∉ slowDownload) ∧
      TurnKept .ofMain (System.start .nothing) 0 slowDownload
        (.returned (.error ⟨.downloading, timeoutFault 1000⟩)) :=
  ⟨_, rfl, rfl, published_kept_unless_updated (idle_start _) rfl rfl nofun⟩

end DocWatch.Update.System
