import DocWatch.Proofs.Update.Publication
import DocWatch.Proofs.Update.Turns

/-!
# Updates follow one another

A call reads the published commit when its turn begins and publishes at the end
of it, and many events lie between. Since nobody else publishes in between, what
it decided by that commit still holds at the end: `Fresh` is the invariant, and
it needs the mutual exclusion only where somebody publishes.

From this the updates form a chain, in the order in which they were published.
Each replaces the commit that the one before it published, by another one, and
none is lost.
-/

namespace DocWatch.Update

/-- What a call has decided fits the published commit: the commit that it tracks
is the published one, and the commit that it is after is not. -/
def Phase.Fresh (commit : String) : Phase → Prop
  | .listing tracked => tracked = commit
  | .fetching latest | .extracting latest _ | .indexing latest _
  | .publishing latest _ _ | .cleared latest _ _ => latest ≠ commit
  | .waiting | .ready | .returned _ | .dropped => True

theorem Phase.fresh_of_no_turn {p : Phase} {commit : String}
    (h : p.hasTurn = false) : p.Fresh commit := by
  cases p <;> first | exact trivial | cases h

theorem Phase.Move.fresh {c : Settings} {v : Sight} {p p' : Phase} {a : Action}
    {e : Effect} (h : Phase.Move c v p a p' e) (hp : p.Fresh v.commit) :
    p'.Fresh v.commit := by
  cases h with
  | giveUp | look | wait | settle | publish | fail | drop => exact trivial
  | acquire => exact rfl
  | @pursue tracked latest _ _ hne =>
      have htracked : tracked = v.commit := hp
      show latest ≠ v.commit
      rw [← htracked]
      exact hne
  | receive | extract | build | clear => exact hp

/-- The calls that have published, in the order in which they did. -/
def publishers (history : List Event) : List Nat :=
  history.filterMap fun
    | .act id (.publish _) => some id
    | _ => none

theorem publishers_append {before after : List Event} :
    publishers (before ++ after) = publishers before ++ publishers after :=
  List.filterMap_append

theorem publishers_concat_publish {history : List Event} {id : Nat}
    {now : Time.Instant} :
    publishers (history ++ [.act id (.publish now)]) = publishers history ++ [id] := by
  rw [publishers_append]
  rfl

theorem publishers_concat_other {history : List Event} {e : Event}
    (h : ∀ id now, e ≠ .act id (.publish now)) :
    publishers (history ++ [e]) = publishers history := by
  rw [publishers_append]
  cases e with
  | act id a =>
      cases a with
      | publish now => exact absurd rfl (h id now)
      | _ => exact List.append_nil _
  | call | cancel => exact List.append_nil _

theorem mem_publishers {history : List Event} {id : Nat} :
    id ∈ publishers history ↔ ∃ now, .act id (.publish now) ∈ history := by
  rw [publishers, List.mem_filterMap]
  constructor
  · rintro ⟨e, he, hid⟩
    split at hid
    · cases hid
      exact ⟨_, he⟩
    · cases hid
  · rintro ⟨now, h⟩
    exact ⟨_, h, rfl⟩

/-- The updates that some calls have returned lead from one commit to another:
each replaces the commit that the one before it brought, by another one. -/
def Chain (result? : Nat → Option Result) : String → List Nat → String → Prop
  | first, [], last => first = last
  | first, id :: rest, last =>
      ∃ new files, result? id = some (.ok (.updated first new files)) ∧
        first ≠ new ∧ Chain result? new rest last

theorem Chain.congr {r r' : Nat → Option Result} {ids : List Nat}
    {first last : String} (h : Chain r first ids last)
    (hsame : ∀ id ∈ ids, ∀ x, r id = some x → r' id = some x) :
    Chain r' first ids last := by
  induction ids generalizing first with
  | nil => exact h
  | cons id rest ih =>
      obtain ⟨new, files, hr, hne, hrest⟩ := h
      exact ⟨new, files, hsame id (by simp) _ hr, hne,
        ih hrest fun j hj => hsame j (by simp [hj])⟩

theorem Chain.concat {r : Nat → Option Result} {ids : List Nat} {id files : Nat}
    {first last new : String} (h : Chain r first ids last)
    (hr : r id = some (.ok (.updated last new files))) (hne : last ≠ new) :
    Chain r first (ids ++ [id]) new := by
  induction ids generalizing first with
  | nil =>
      cases h
      exact ⟨new, files, hr, hne, rfl⟩
  | cons j rest ih =>
      obtain ⟨next, n, hj, hnext, hrest⟩ := h
      exact ⟨next, n, hj, hnext, ih hrest⟩

theorem Chain.updated {r : Nat → Option Result} {ids : List Nat}
    {first last : String} (h : Chain r first ids last) {id : Nat} (hid : id ∈ ids) :
    ∃ old new files, r id = some (.ok (.updated old new files)) := by
  induction ids generalizing first with
  | nil => cases hid
  | cons j rest ih =>
      obtain ⟨new, files, hr, -, hrest⟩ := h
      rcases List.mem_cons.1 hid with rfl | hmem
      · exact ⟨first, new, files, hr⟩
      · exact ih hrest hmem

namespace System

variable {c : Settings} {s t : System}

theorem Step.result?_stable {e : Event} (h : Step c s e t) {id : Nat} {r : Result}
    (hr : s.result? id = some r) : t.result? id = some r := by
  rw [result?_eq_some] at hr ⊢
  exact (h.of_ended hr rfl).2

theorem result?_of_run {history : List Event} {id : Nat} {r : Result}
    (h : s.run? c history = some t) (hr : s.result? id = some r) : t.result? id = some r :=
  run?_induction (P := fun _ t => t.result? id = some r) hr
    (fun _ hr hstep => (step_of_step? hstep).result?_stable hr) h

theorem fresh_of_run {history : List Event} (idle : s.Idle)
    (h : s.run? c history = some t) {id : Nat} {p : Phase}
    (hp : t.phase? id = some p) : p.Fresh t.published.commit := by
  refine run?_induction (P := fun _ t => ∀ id p, t.phase? id = some p →
    p.Fresh t.published.commit) ?_ ?_ h id p hp
  · intro id p hp
    rw [idle.phase?] at hp
    cases hp
  · intro history w e t hrun ih hstep id p hp
    replace hstep := step_of_step? hstep
    rcases hstep.published with
      ⟨hsame, -, -⟩ | ⟨j, now, latest, files, snapshot, rfl, hcleared, hret, -, -⟩
    · rw [hsame]
      rcases hstep.of_phase? hp with ⟨hw, -⟩ | ⟨-, rfl, -⟩ |
        ⟨a, call, effect, -, hw, hm⟩
      · exact ih id p hw
      · exact trivial
      · exact hm.fresh (ih id _ hw)
    · -- Somebody publishes: the others have no turn, and it has returned itself.
      by_cases hj : id = j
      · rw [hj, hret] at hp
        cases hp
        exact trivial
      · rcases hstep.of_phase? hp with ⟨hw, -⟩ | ⟨-, -, token, he⟩ |
          ⟨a, call, effect, he, -⟩
        · refine Phase.fresh_of_no_turn (Bool.eq_false_iff.2 fun hturn => hj ?_)
          exact exclusive_of_run idle hrun id j ⟨p, hw, hturn⟩ (.of_cleared hcleared)
        · cases he
        · cases he
          exact absurd rfl hj

theorem chain_of_run {history : List Event} (idle : s.Idle)
    (h : s.run? c history = some t) :
    Chain t.result? s.published.commit (publishers history) t.published.commit := by
  refine run?_induction (P := fun history t => Chain t.result? s.published.commit
    (publishers history) t.published.commit) rfl ?_ h
  intro history w e t hrun ih hstep
  replace hstep := step_of_step? hstep
  have hold := ih.congr fun id _ x hx => hstep.result?_stable hx
  rcases hstep.published with
    ⟨hsame, -, hno⟩ | ⟨j, now, latest, files, snapshot, rfl, hcleared, hret, hpub, -⟩
  · rw [publishers_concat_other hno, hsame]
    exact hold
  · rw [publishers_concat_publish, hpub]
    exact hold.concat (result?_eq_some.2 hret)
      (Ne.symm (fresh_of_run idle hrun hcleared))

theorem nodup_publishers {history : List Event} (idle : s.Idle)
    (h : s.run? c history = some t) : (publishers history).Nodup := by
  refine run?_induction (P := fun history _ => (publishers history).Nodup)
    List.nodup_nil ?_ h
  intro history w e t hrun ih hstep
  rcases (step_of_step? hstep).published with
    ⟨-, -, hno⟩ | ⟨j, now, latest, files, snapshot, rfl, hcleared, -⟩
  · rw [publishers_concat_other hno]
    exact ih
  · rw [publishers_concat_publish, List.nodup_append]
    refine ⟨ih, List.pairwise_singleton _ j, fun i hi k hk => ?_⟩
    obtain rfl := List.mem_singleton.1 hk
    rintro rfl
    obtain ⟨now, hi⟩ := mem_publishers.1 hi
    obtain ⟨old, new, files, hp⟩ := updated_of_publish idle hrun hcleared hi
    cases hp

theorem publish_of_updated {history : List Event} (idle : s.Idle)
    (h : s.run? c history = some t) {id files : Nat} {old new : String}
    (hr : t.result? id = some (.ok (.updated old new files))) :
    id ∈ publishers history := by
  rw [result?_eq_some, phase?, Option.map_eq_some_iff] at hr
  obtain ⟨call, hcall, hp⟩ := hr
  have hown := idle.call_induction
    (R := fun _ own p => p = .returned (.ok (.updated old new files)) →
      ∃ now, Action.publish now ∈ own)
    (fun _ hp => by cases hp) (fun ih => ih) ?_ h hcall hp
  · obtain ⟨now, hnow⟩ := hown
    exact mem_publishers.2 ⟨now, mem_actionsOf.1 hnow⟩
  · intro v own p a p' e hm _ hp'
    subst hp'
    cases hm with
    | publish => exact ⟨_, List.mem_append_right _ (List.mem_singleton.2 rfl)⟩

/-- No call has returned an update. -/
def NoneUpdated (t : System) : Prop :=
  ∀ id old new files, t.result? id ≠ some (.ok (.updated old new files))

theorem noneUpdated_iff (idle : s.Idle) {history : List Event}
    (h : s.run? c history = some t) :
    t.NoneUpdated ↔ publishers history = [] := by
  constructor
  · intro hnone
    refine List.eq_nil_iff_forall_not_mem.2 fun id hid => ?_
    obtain ⟨old, new, files, hr⟩ := (chain_of_run idle h).updated hid
    exact hnone id old new files hr
  · intro hno id old new files hr
    have hmem := publish_of_updated idle h hr
    rw [hno] at hmem
    cases hmem

/-- Whatever the order of the events, at most one call has its turn, and the
updates that calls have returned, taken in the order of their publication, form a
chain of commits that leads from the one at the start to the one that is
published. No call decides by a commit that is no longer the published one: all
the time that it has its turn, what is published is what it found at the
beginning. -/
theorem updates_form_chain {history : List Event} (idle : s.Idle)
    (h : s.run? c history = some t) :
    (∀ i j, t.HasTurn i → t.HasTurn j → i = j) ∧
    Chain t.result? s.published.commit (publishers history) t.published.commit ∧
    (publishers history).Nodup ∧
    (∀ id, id ∈ publishers history ↔
      ∃ old new files, t.result? id = some (.ok (.updated old new files))) ∧
    ∀ id before during after u v, history = before ++ during ++ after →
      s.run? c before = some u → Turn c id u during v → v.HasTurn id →
      v.published = u.published := by
  refine ⟨exclusive_of_run idle h, chain_of_run idle h, nodup_publishers idle h,
    fun id => ⟨fun hid => ?_, fun ⟨old, new, files, hr⟩ => ?_⟩, ?_⟩
  · exact (chain_of_run idle h).updated hid
  · exact publish_of_updated idle h hr
  · rintro id before during after u v - hu hturn hv
    refine (hturn.published_eq (exclusive_of_run idle hu) fun old new files hp => ?_).1
    cases hv.hasTurn hp

theorem updates_form_chain_under_contention :
    ∃ t, (System.start (.ofSnapshot .empty "a")).run? .ofMain twoPublications = some t ∧
      t.result? 0 = some (.ok (.updated "a" "b" 1)) ∧
      t.result? 1 = some (.ok (.updated "b" "c" 1)) ∧
      (∀ i j, t.HasTurn i → t.HasTurn j → i = j) ∧
      publishers twoPublications = [0, 1] ∧ Chain t.result? "a" [0, 1] "c" := by
  obtain ⟨t, ht, hcommit, hfirst, hsecond⟩ := run_twoPublications
  obtain ⟨hexclusive, hchain, -⟩ := updates_form_chain (idle_start _) ht
  have hpublishers : publishers twoPublications = [0, 1] := rfl
  rw [hpublishers, hcommit] at hchain
  exact ⟨t, ht, hfirst, hsecond, hexclusive, hpublishers, hchain⟩

end System
end DocWatch.Update
