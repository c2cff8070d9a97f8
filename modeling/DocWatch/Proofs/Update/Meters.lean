import DocWatch.Proofs.Time.Timestamp
import DocWatch.Proofs.Update.Concurrent
import Mathlib.Data.Finset.Card

/-!
# What is measured of updates

Two meters tell an operator how updates fare. One counts failures, and what counts as one is
decided where a turn ends: `Phase.Move.failure_iff` says that a move counts exactly if it ends a
turn with a fault. So a call is counted once or never, and a call that gives up before its turn is
not counted. The other shows when the documents were last updated, and is written together with
what is published.

It shows seconds as a floating-point number, the quotient of the milliseconds and one thousand.
That number is seldom exact, but near enough that the milliseconds can be read back.
-/

namespace DocWatch

/-! ## The gauge -/

namespace Update

open Binary64

theorem gaugeOf_error {t : Time.Instant} (h : t.Representable) :
    ∃ x, (gaugeOf t).value? = some x ∧ |x - t.millis / 1000| ≤ 2 ^ (-11 : Int) := by
  obtain ⟨q, g, hgauge, herror⟩ := thousandths_error h.natAbs_millis_lt
  refine ⟨_, by rw [gaugeOf, hgauge]; rfl, ?_⟩
  -- The sign goes along with both sides.
  rcases lt_or_ge t.millis 0 with hneg | hpos
  · have hnat : (t.millis.natAbs : ℚ) = -t.millis := by
      rw [Nat.cast_natAbs, abs_of_neg hneg, Int.cast_neg]
    rw [hnat] at herror
    rw [decide_eq_true hneg, signedNat, if_pos rfl, ← abs_neg]
    convert herror using 2
    push_cast
    ring
  · have hnat : (t.millis.natAbs : ℚ) = t.millis := by
      rw [Nat.cast_natAbs, abs_of_nonneg hpos]
    rw [hnat] at herror
    rw [decide_eq_false (not_lt.2 hpos), signedNat, if_neg Bool.false_ne_true]
    exact_mod_cast herror

/-- The gauge shows the milliseconds of an instant, within less than half of one. -/
theorem round_gaugeOf {t : Time.Instant} (h : t.Representable) :
    ∃ x, (gaugeOf t).value? = some x ∧ round (x * 1000) = t.millis := by
  obtain ⟨x, hx, herror⟩ := gaugeOf_error h
  refine ⟨x, hx, round_eq_iff.2 ?_⟩
  rw [abs_le] at herror
  norm_num at herror
  constructor <;> linarith

/-! ## The counter -/

theorem Phase.Move.failure_iff {c : Settings} {v : Sight} {p p' : Phase} {a : Action} {e : Effect}
    (h : Phase.Move c v p a p' e) :
    e = .failure ↔ p.hasTurn = true ∧ ∃ fault, p' = .returned (.error fault) := by
  cases h with
  | fail hf => exact ⟨fun _ => ⟨hf.hasTurn, _, rfl⟩, fun _ => rfl⟩
  | giveUp | look | wait | acquire => simp [Phase.hasTurn]
  | settle | pursue | receive | extract | build | clear | publish | drop => simp

namespace System

variable {c : Settings} {s t w : System} {history : List Event} {e : Event} {id : Nat}

theorem failures_advance {call : Call} {phase : Phase} {effect : Effect} :
    (s.advance id call phase effect).meters.failures =
      s.meters.failures + if effect = .failure then 1 else 0 := by
  cases effect with
  | nothing | failure | request => rfl
  | publication next =>
      simp only [advance, perform, reduceCtorEq, if_false, Nat.add_zero]
      cases next.publishedAt <;> rfl

/-- The turn of a call ends with a fault between two states. -/
def Breaks (s t : System) (id : Nat) : Prop :=
  s.HasTurn id ∧ ∃ fault, t.result? id = some (.error fault)

theorem Step.acts_of_breaks (h : Step c s e t) (hbreaks : Breaks s t id) :
    ∃ a, e = .act id a := by
  obtain ⟨⟨p, hp, hturn⟩, fault, hr⟩ := hbreaks
  rcases h.of_call id with ⟨-, hsame⟩ | ⟨token, -, hnew, -⟩ | ⟨a, call, phase, effect, he, -⟩
  · rw [result?_eq_some, phase?, hsame, ← phase?, hp] at hr
    cases hr
    cases hturn
  · rw [phase?, hnew] at hp
    cases hp
  · exact ⟨a, he⟩

/-- One event counts one failure or none, and for one it ends a turn with a fault. -/
theorem Step.failures (h : Step c s e t) :
    (t.meters.failures = s.meters.failures ∧ ∀ id, ¬ Breaks s t id) ∨
    ∃ id, Breaks s t id ∧ (∀ other, Breaks s t other → other = id) ∧
      t.meters.failures = s.meters.failures + 1 := by
  have hacts : ∀ id, Breaks s t id → ∃ a, e = .act id a := fun id => h.acts_of_breaks
  cases h with
  | call | cancel =>
      left
      refine ⟨rfl, fun id hbreaks => ?_⟩
      obtain ⟨a, he⟩ := hacts id hbreaks
      cases he
  | @act id a call phase effect hc hm =>
      have hphase : (s.advance id call phase effect).phase? id = some phase :=
        phase?_advance_self hc
      have hbreaks_iff : Breaks s (s.advance id call phase effect) id ↔ effect = .failure := by
        rw [hm.failure_iff, Breaks]
        simp only [result?_eq_some, hphase, Option.some.injEq]
        refine and_congr_left fun _ => ⟨fun hturn => hturn.hasTurn (phase?_of_getElem? hc),
          fun hturn => ⟨_, phase?_of_getElem? hc, hturn⟩⟩
      have hother : ∀ other, Breaks s (s.advance id call phase effect) other → other = id := by
        intro other hbreaks
        obtain ⟨b, he⟩ := hacts other hbreaks
        cases he
        rfl
      by_cases hfailure : effect = .failure
      · right
        refine ⟨id, hbreaks_iff.2 hfailure, hother, ?_⟩
        rw [failures_advance, if_pos hfailure]
      · left
        refine ⟨by rw [failures_advance, if_neg hfailure, Nat.add_zero], fun other hbreaks => ?_⟩
        obtain rfl := hother other hbreaks
        exact hfailure (hbreaks_iff.1 hbreaks)

theorem hasBegun_of_turn (h : s.run? c history = some t) (hhad : ¬ NeverHadTurn c s id history) :
    t.HasBegun id := by
  simp only [NeverHadTurn, Classical.not_forall, Classical.not_not] at hhad
  obtain ⟨before, u, ⟨after, rfl⟩, hu, hturn⟩ := hhad
  exact run?_induction (P := fun _ t => t.HasBegun id) hturn.hasBegun
    (fun _ hbegun hstep => (step_of_step? hstep).hasBegun hbegun) (run?_rest hu h)

/-- A call that has had its turn and has returned a fault. -/
def Failed (c : Settings) (s : System) (history : List Event) (t : System) (id : Nat) : Prop :=
  ¬ NeverHadTurn c s id history ∧ ∃ fault, t.result? id = some (.error fault)

theorem failed_concat (hrun : s.run? c history = some w) (hstep : w.step? c e = some t) :
    Failed c s (history ++ [e]) t id ↔ Failed c s history w id ∨ Breaks w t id := by
  rw [Failed, neverHadTurn_concat hrun hstep]
  constructor
  · rintro ⟨hhad, fault, hr⟩
    have ht : ¬ t.HasTurn id := fun hturn => by
      cases hturn.hasTurn (result?_eq_some.1 hr)
    have hbefore : ¬ NeverHadTurn c s id history := fun hnever => hhad ⟨hnever, ht⟩
    obtain ⟨p, hp, hturn | hend⟩ := hasBegun_of_turn hrun hbefore
    · exact Or.inr ⟨⟨p, hp, hturn⟩, fault, hr⟩
    · left
      have hsame := ((step_of_step? hstep).of_ended hp hend).2
      rw [result?_eq_some, hsame] at hr
      exact ⟨hbefore, fault, result?_eq_some.2 (hp.trans hr)⟩
  · rintro (⟨hhad, fault, hr⟩ | ⟨hturn, hfault⟩)
    · exact ⟨fun hnever => hhad hnever.1, fault, (step_of_step? hstep).result?_stable hr⟩
    · exact ⟨fun hnever => hnever.1 history w (List.prefix_refl _) hrun hturn, hfault⟩

theorem failures_of_run (idle : s.Idle) (h : s.run? c history = some t) :
    ∃ failed : Finset Nat, (∀ id, id ∈ failed ↔ Failed c s history t id) ∧
      t.meters.failures = s.meters.failures + failed.card := by
  refine run?_induction (P := fun history t => ∃ failed : Finset Nat,
    (∀ id, id ∈ failed ↔ Failed c s history t id) ∧
    t.meters.failures = s.meters.failures + failed.card) ⟨∅, fun id => ?_, rfl⟩ ?_ h
  · simp only [Finset.notMem_empty, false_iff, Failed]
    rintro ⟨-, fault, hr⟩
    rw [result?_eq_some, idle.phase?] at hr
    cases hr
  · rintro history w e t hrun ⟨failed, hmem, hcount⟩ hstep
    simp only [failed_concat hrun hstep, ← hmem]
    rcases (step_of_step? hstep).failures with ⟨hsame, hnone⟩ | ⟨id, hbreaks, hone, hmore⟩
    · exact ⟨failed, fun id => by simp [hnone id], hsame.trans hcount⟩
    · refine ⟨insert id failed, fun other => ?_, ?_⟩
      · rw [Finset.mem_insert, or_comm]
        exact or_congr_right ⟨fun hother => hother ▸ hbreaks, hone other⟩
      · -- It had its turn until now, so it has not been counted before.
        have hnew : id ∉ failed := by
          intro hold
          obtain ⟨-, fault, hr⟩ := (hmem id).1 hold
          cases hbreaks.1.hasTurn (result?_eq_some.1 hr)
        rw [hmore, hcount, Finset.card_insert_of_notMem hnew, Nat.add_assoc]

/-! ## Both meters -/

theorem noted_of_run (h : s.run? c history = some t) :
    (publishers history = [] ∧ t.published = s.published ∧
      t.meters.lastUpdate = s.meters.lastUpdate) ∨
    (publishers history ≠ [] ∧ ∃ now, t.published.publishedAt = some now ∧
      t.meters.lastUpdate = gaugeOf now) := by
  refine run?_induction (P := fun history t =>
    (publishers history = [] ∧ t.published = s.published ∧
      t.meters.lastUpdate = s.meters.lastUpdate) ∨
    (publishers history ≠ [] ∧ ∃ now, t.published.publishedAt = some now ∧
      t.meters.lastUpdate = gaugeOf now)) (Or.inl ⟨rfl, rfl, rfl⟩) ?_ h
  intro history w e t _ ih hstep
  rcases (step_of_step? hstep).published with
    ⟨hsame, hgauge, hno⟩ | ⟨id, now, latest, files, snapshot, rfl, -, -, hpub, hgauge⟩
  · rw [publishers_concat_other hno, hsame, hgauge]
    exact ih
  · right
    rw [publishers_concat_publish, hpub]
    exact ⟨List.concat_ne_nil _ _, now, rfl, hgauge⟩

/-- Whatever the calls and the order of their events: the counter has gone up by the number of the
calls that had their turn and returned a fault. The gauge is what it was, and nothing has a time of
publication, as long as no call has returned an update; after that it shows the time when the
documents that are published were published, and its milliseconds can be read from it. -/
theorem meters_of_run (idle : s.Idle) (hs : s.published.publishedAt = none)
    (h : s.run? c history = some t) :
    (∃ failed : Finset Nat, (∀ id, id ∈ failed ↔ Failed c s history t id) ∧
      t.meters.failures = s.meters.failures + failed.card) ∧
    (t.published.publishedAt = none ↔ t.NoneUpdated) ∧
    (t.NoneUpdated → t.meters.lastUpdate = s.meters.lastUpdate) ∧
    ∀ now, t.published.publishedAt = some now → t.meters.lastUpdate = gaugeOf now ∧
      (now.Representable →
        ∃ x, t.meters.lastUpdate.value? = some x ∧ round (x * 1000) = now.millis) := by
  refine ⟨failures_of_run idle h, ?_⟩
  rw [noneUpdated_iff idle h]
  rcases noted_of_run h with ⟨hno, hsame, hgauge⟩ | ⟨hsome, now, hpub, hgauge⟩
  · rw [hsame, hs]
    exact ⟨iff_of_true rfl hno, fun _ => hgauge, nofun⟩
  · rw [hpub, hgauge]
    refine ⟨iff_of_false (Option.some_ne_none now) hsome, fun hno => absurd hno hsome, ?_⟩
    intro now' hnow
    cases hnow
    exact ⟨rfl, round_gaugeOf⟩

/-- The first call fails with its listing. The second one, which has reached for its turn in vain,
is cancelled while it waits. The third one gets its body. -/
def oneOfThree : List Event :=
  [.call 0, .call 1, .act 0 .look, .act 1 .look, .act 0 .acquire, .act 1 .acquire, .cancel 1,
    .act 1 .look, .act 0 (.listed (.error (.remoteQuery (.stated "no route to host")))), .call 0,
    .act 2 .look, .act 2 .acquire, .act 2 (.listed (.ok [("refs/heads/main", "b")])),
    .act 2 (.fetched (.ok Archive.shortArchive))]

/-- And it publishes. -/
def thenPublished : List Event :=
  [.act 2 (.extracted none), .act 2 .built, .act 2 .look,
    .act 2 (.publish ⟨1700000000, 123456789⟩)]

theorem meters_of_run_oneOfThree : ∃ (t : System) (failed : Finset Nat),
    (System.start (.ofSnapshot .empty "a")).run? .ofMain (oneOfThree ++ thenPublished) = some t ∧
    (∀ id, id ∈ failed ↔
      Failed .ofMain (.start (.ofSnapshot .empty "a")) (oneOfThree ++ thenPublished) t id) ∧
    t.meters.failures = failed.card ∧ ¬ t.NoneUpdated ∧
    ∃ x, t.meters.lastUpdate.value? = some x ∧ round (x * 1000) = 1700000000123 := by
  obtain ⟨snapshot, hsnapshot⟩ := build_shortTree
  obtain ⟨u, hu, hcall, hlook⟩ : ∃ u,
      (System.start (.ofSnapshot .empty "a")).run? .ofMain oneOfThree = some u ∧
      u.calls[2]? = some ⟨0, .extracting "b" Archive.shortArchive⟩ ∧ u.isCancelled 0 = false :=
    ⟨_, rfl, rfl, rfl⟩
  obtain ⟨t, ht, hpub, -⟩ :=
    publishes_of_body ⟨1700000000, 123456789⟩ hcall hlook extract_shortTree hsnapshot
  have hrun := run?_append_eq_some.2 ⟨u, hu, ht⟩
  obtain ⟨⟨failed, hfailed, hcount⟩, hnone, -, hgauge⟩ := meters_of_run (idle_start _) rfl hrun
  refine ⟨t, failed, hrun, hfailed, ?_, ?_, ?_⟩
  · rw [hcount]
    exact Nat.zero_add _
  · rw [← hnone, hpub]
    exact Option.some_ne_none _
  · exact (hgauge _ (by rw [hpub])).2 ⟨by decide, by decide⟩

end System
end Update
end DocWatch
