import DocWatch.Proofs.Update.Succession

/-!
# Where the published value comes from

A published value joins what a call learned at four different moments: the
listing gave its commit, the host its archive, the extraction its documents and
the indexing its snapshot. `Course` follows one call through these moments. It
relates what has happened to the call so far to the phase that it is in, one
constructor for each step forward, so that a cleared call carries the account of
all that it is about to publish.

A body that is cut short by a cancellation may well be extracted without a fault.
The account of a cleared call has no such cut in it: the token was cancelled by
then and would still be cancelled at the last look.
-/

namespace DocWatch.Update

/-- A call that has only looked at its token and reached for its turn. -/
def Waits (own : List Action) : Prop :=
  ∀ a ∈ own, a = .look ∨ a = .acquire

theorem Waits.concat {own : List Action} {a : Action} (h : Waits own)
    (ha : a = .look ∨ a = .acquire) : Waits (own ++ [a]) := by
  intro b hb
  rcases List.mem_append.1 hb with hb | hb
  · exact h b hb
  · exact List.mem_singleton.1 hb ▸ ha

/-- What has happened to a call that is in a phase. -/
inductive Course (c : Settings) : List Action → Phase → Prop where
  | waiting {own : List Action} (h : Waits own) : Course c own .waiting
  | ready {own : List Action} (h : Waits own) : Course c own .ready
  | listing {own : List Action} {tracked : String} (h : Waits own) :
      Course c own (.listing tracked)
  | fetching {own : List Action} {tracked latest : String} {refs : Refs}
      (h : Course c own (.listing tracked))
      (hlatest : refs.latest c.branch = .ok latest) :
      Course c (own ++ [.listed (.ok refs)]) (.fetching latest)
  | extracting {own : List Action} {latest : String} {body : Archive.Feed}
      (h : Course c own (.fetching latest)) :
      Course c (own ++ [.fetched (.ok body)]) (.extracting latest body)
  | indexing {own : List Action} {latest : String} {body : Archive.Feed}
      {cut : Option Nat} {tree : Tree} (h : Course c own (.extracting latest body))
      (htree : Archive.extract c.filter (body.cutAt cut) = .ok tree) :
      Course c (own ++ [.extracted cut]) (.indexing latest tree)
  | publishing {own : List Action} {latest : String} {tree : Tree}
      {snapshot : Snapshot} (h : Course c own (.indexing latest tree))
      (hsnapshot : Snapshot.build tree = .ok snapshot) :
      Course c (own ++ [.built]) (.publishing latest tree.size snapshot)
  | cleared {own : List Action} {latest : String} {files : Nat}
      {snapshot : Snapshot} (h : Course c own (.publishing latest files snapshot))
      (whole : ∀ n, .extracted (some n) ∉ own) :
      Course c (own ++ [.look]) (.cleared latest files snapshot)
  | updated {own : List Action} {old latest : String} {files : Nat}
      {snapshot : Snapshot} {now : Time.Instant}
      (h : Course c own (.cleared latest files snapshot)) :
      Course c (own ++ [.publish now]) (.returned (.ok (.updated old latest files)))
  | ended {own : List Action} {p : Phase} (h : p.ended = true)
      (hno : ∀ old new files, p ≠ .returned (.ok (.updated old new files))) :
      Course c own p

namespace Course

variable {c : Settings} {own : List Action} {latest : String}

theorem waits {p : Phase} (h : Course c own p) (ht : p.hasTurn = false)
    (hend : p.ended = false) : Waits own := by
  cases h with
  | waiting h | ready h => exact h
  | ended h =>
      rw [h] at hend
      cases hend
  | updated => cases hend
  | listing | fetching | extracting | indexing | publishing | cleared => cases ht

theorem of_listing {tracked : String} (h : Course c own (.listing tracked)) :
    Waits own := by
  cases h with
  | listing h => exact h
  | ended h => cases h

theorem move {v : Sight} {p p' : Phase} {a : Action} {e : Effect}
    (h : Course c own p) (hcut : ∀ n, .extracted (some n) ∈ own → v.cancelled = true)
    (hm : Phase.Move c v p a p' e) : Course c (own ++ [a]) p' := by
  cases hm with
  | giveUp | settle | fail | drop => exact .ended rfl nofun
  | look => exact .ready ((h.waits rfl rfl).concat (Or.inl rfl))
  | wait => exact .waiting ((h.waits rfl rfl).concat (Or.inr rfl))
  | acquire => exact .listing ((h.waits rfl rfl).concat (Or.inr rfl))
  | pursue hlatest => exact .fetching h hlatest
  | receive => exact .extracting h
  | extract _ htree => exact .indexing h htree
  | build hsnapshot => exact .publishing h hsnapshot
  | publish => exact .updated h
  | clear hlook =>
      refine .cleared h fun n hn => ?_
      rw [hcut n hn] at hlook
      cases hlook

theorem of_updated {old new : String} {files : Nat}
    (h : Course c own (.returned (.ok (.updated old new files)))) :
    ∃ before now snapshot, own = before ++ [.publish now] ∧
      Course c before (.cleared new files snapshot) := by
  cases h with
  | ended _ hno => exact absurd rfl (hno _ _ _)
  | updated h => exact ⟨_, _, _, rfl, h⟩

/-- The account of a cleared call, from its listing to its last look. -/
theorem of_cleared {files : Nat} {snapshot : Snapshot}
    (h : Course c own (.cleared latest files snapshot)) :
    ∃ waits refs body tree, Waits waits ∧
      own = waits ++ [.listed (.ok refs), .fetched (.ok body), .extracted none,
        .built, .look] ∧
      refs.latest c.branch = .ok latest ∧
      Archive.extract c.filter body = .ok tree ∧
      Snapshot.build tree = .ok snapshot ∧ files = tree.size := by
  cases h with
  | ended h => cases h
  | cleared h whole =>
      cases h with
      | ended h => cases h
      | @publishing _ _ tree _ h hsnapshot =>
          cases h with
          | ended h => cases h
          | @indexing _ _ body cut _ h htree =>
              cases cut with
              | some n => exact absurd (by simp) (whole n)
              | none =>
                  cases h with
                  | ended h => cases h
                  | extracting h =>
                      cases h with
                      | ended h => cases h
                      | @fetching own _ _ refs h hlatest =>
                          exact ⟨own, refs, body, tree, h.of_listing, by simp,
                            hlatest, htree, hsnapshot, rfl⟩

end Course

theorem Phase.Move.cancelled_of_cut {c : Settings} {v : Sight} {p p' : Phase}
    {n : Nat} {e : Effect}
    (h : Phase.Move c v p (.extracted (some n)) p' e) : v.cancelled = true := by
  cases h with
  | extract early => exact early rfl
  | fail hf =>
      cases hf with
      | extracting early => exact early rfl

namespace System

variable {c : Settings} {s t : System}

theorem course_of_run {history : List Event} {id : Nat} {call : Call}
    (idle : s.Idle) (h : s.run? c history = some t)
    (hcall : t.calls[id]? = some call) :
    Course c (actionsOf id history) call.phase ∧
      ∀ n, .extracted (some n) ∈ actionsOf id history →
        t.isCancelled call.token = true := by
  refine idle.call_induction
    (R := fun b own p => Course c own p ∧ ∀ n, .extracted (some n) ∈ own → b = true)
    (fun _ => ⟨.waiting nofun, nofun⟩) (fun ih => ⟨ih.1, fun _ _ => rfl⟩) ?_ h hcall
  rintro v own p a p' e hm ⟨hcourse, hcut⟩
  refine ⟨hcourse.move hcut hm, fun n hn => ?_⟩
  rcases List.mem_append.1 hn with hn | hn
  · exact hcut n hn
  · obtain rfl := List.mem_singleton.1 hn
    exact hm.cancelled_of_cut

theorem published_of_run {history : List Event} (idle : s.Idle)
    (h : s.run? c history = some t) :
    t.published = s.published ∨
    ∃ id own now old latest files snapshot,
      actionsOf id history = own ++ [.publish now] ∧
      Course c own (.cleared latest files snapshot) ∧
      t.published = ⟨snapshot, latest, some now⟩ ∧
      t.result? id = some (.ok (.updated old latest files)) := by
  refine run?_induction (P := fun history t => t.published = s.published ∨
    ∃ id own now old latest files snapshot,
      actionsOf id history = own ++ [.publish now] ∧
      Course c own (.cleared latest files snapshot) ∧
      t.published = ⟨snapshot, latest, some now⟩ ∧
      t.result? id = some (.ok (.updated old latest files))) (Or.inl rfl) ?_ h
  intro history w e t hrun ih hstep
  replace hstep := step_of_step? hstep
  rcases hstep.published with
    ⟨hsame, -, -⟩ | ⟨j, now, latest, files, snapshot, rfl, hcleared, hret, hpub, -⟩
  · rw [hsame]
    rcases ih with ih | ⟨id, own, now, old, latest, files, snapshot, hown, hcourse,
      hpub, hr⟩
    · exact Or.inl ih
    · right
      refine ⟨id, own, now, old, latest, files, snapshot, ?_, hcourse, hpub,
        hstep.result?_stable hr⟩
      rw [actionsOf_concat_other (hstep.of_ended (result?_eq_some.1 hr) rfl).1, hown]
  · right
    rw [phase?, Option.map_eq_some_iff] at hcleared
    obtain ⟨call, hcall, hphase⟩ := hcleared
    have hcourse := (course_of_run idle hrun hcall).1
    rw [hphase] at hcourse
    exact ⟨j, actionsOf j history, now, w.published.commit, latest, files, snapshot,
      actionsOf_concat_self, hcourse, hpub, result?_eq_some.2 hret⟩

/-- All of the published value comes from one call: its own listing gave the
commit, the whole of its own body gave the documents and their snapshot, and it
has returned just that update. -/
def PublishedBy (c : Settings) (t : System) (history : List Event) (id : Nat) :
    Prop :=
  ∃ waits refs body tree old now,
    (∀ a ∈ waits, a = .look ∨ a = .acquire) ∧
    actionsOf id history = waits ++ [.listed (.ok refs), .fetched (.ok body),
      .extracted none, .built, .look, .publish now] ∧
    refs.get? ("refs/heads/" ++ c.branch) = some t.published.commit ∧
    Archive.extract c.filter body = .ok tree ∧
    Snapshot.build tree = .ok t.published.snapshot ∧
    t.published.publishedAt = some now ∧
    t.result? id = some (.ok (.updated old t.published.commit
      t.published.snapshot.size))

theorem published_by_one_call {history : List Event} (idle : s.Idle)
    (h : s.run? c history = some t) :
    t.published = s.published ∨ ∃ id, PublishedBy c t history id := by
  rcases published_of_run idle h with hsame |
    ⟨id, own, now, old, latest, files, snapshot, hown, hcourse, hpub, hr⟩
  · exact Or.inl hsame
  · right
    obtain ⟨waits, refs, body, tree, hwaits, rfl, hlatest, htree, hsnapshot, rfl⟩ :=
      hcourse.of_cleared
    refine ⟨id, waits, refs, body, tree, old, now, hwaits, ?_, ?_, htree, ?_, ?_, ?_⟩
    · rw [hown, List.append_assoc]
      rfl
    · rw [hpub]
      exact Refs.latest_eq_ok.1 hlatest
    · rw [hpub]
      exact hsnapshot
    · rw [hpub]
    · rw [hr, hpub, Snapshot.size_of_build hsnapshot]

theorem published_by_later_of_two :
    ∃ t, (System.start (.ofSnapshot .empty "a")).run? .ofMain twoPublications = some t ∧
      t.published.commit = "c" ∧ PublishedBy .ofMain t twoPublications 1 := by
  obtain ⟨t, ht, hcommit, hfirst, -⟩ := run_twoPublications
  refine ⟨t, ht, hcommit, ?_⟩
  rcases published_by_one_call (idle_start _) ht with hsame | ⟨id, hby⟩
  · rw [hsame] at hcommit
    exact absurd hcommit (by decide)
  · suffices hid : id = 1 from hid ▸ hby
    obtain ⟨waits, refs, body, tree, old, now, -, hown, -, -, -, -, hresult⟩ := hby
    have hpublish : .act id (.publish now) ∈ twoPublications := by
      rw [← mem_actionsOf, hown]
      simp
    rcases List.mem_pair.1 (mem_publishers.2 ⟨now, hpublish⟩) with rfl | rfl
    · rw [hfirst, hcommit] at hresult
      simp at hresult
    · rfl

end System
end DocWatch.Update
