import DocWatch.Proofs.Update.Cancellation
import DocWatch.Proofs.Update.Requests
import Mathlib.Algebra.BigOperators.Group.Finset.Piecewise

/-!
# Many calls, one download

Calls that are made at one time wait for each other. The branch stands at a commit
that is not published, and every call would have fetched the archive if it had been
the first one. But each compares the commit when its own turn has come, and by then
the first one has published. So one of them fetches and publishes, and all others
find nothing to do.

The order of the events is arbitrary. `Event.Smooth` only says what they are: the
remote answers with the commit, and the bodies that it sends can be used. What is
shown of such histories needs no induction of its own over the turns. Every update
leads to the same commit, so the chain of updates has one link at most, and a call
that finds nothing to do has found the commit published. That the calls come to an
end is shown by a rank, which the call that has its turn, or some other one, can
always lower.
-/

namespace DocWatch.Update

/-- A body whose documents can be extracted and indexed. -/
def Usable (c : Settings) (body : Archive.Feed) : Prop :=
  ∃ tree snapshot, Archive.extract c.filter body = .ok tree ∧ Snapshot.build tree = .ok snapshot

/-- What may happen while the branch stands at a commit and nothing goes wrong. -/
inductive Event.Smooth (c : Settings) (commit : String) : Event → Prop where
  | call (token : Nat) : Smooth c commit (.call token)
  | cancel (token : Nat) : Smooth c commit (.cancel token)
  | look (id : Nat) : Smooth c commit (.act id .look)
  | acquire (id : Nat) : Smooth c commit (.act id .acquire)
  | listed (id : Nat) {refs : Refs} (h : refs.latest c.branch = .ok commit) :
      Smooth c commit (.act id (.listed (.ok refs)))
  | fetched (id : Nat) {body : Archive.Feed} (h : Usable c body) :
      Smooth c commit (.act id (.fetched (.ok body)))
  | extracted (id : Nat) : Smooth c commit (.act id (.extracted none))
  | built (id : Nat) : Smooth c commit (.act id .built)
  | publish (id : Nat) (now : Time.Instant) : Smooth c commit (.act id (.publish now))

namespace Phase

/-- How far a call may have come while nothing goes wrong. -/
inductive Smooth (c : Settings) (commit : String) : Phase → Prop where
  | waiting : Smooth c commit .waiting
  | ready : Smooth c commit .ready
  | listing (tracked : String) : Smooth c commit (.listing tracked)
  | fetching : Smooth c commit (.fetching commit)
  | extracting {body : Archive.Feed} (h : Usable c body) :
      Smooth c commit (.extracting commit body)
  | indexing {tree : Tree} {snapshot : Snapshot} (h : Snapshot.build tree = .ok snapshot) :
      Smooth c commit (.indexing commit tree)
  | publishing (files : Nat) (snapshot : Snapshot) :
      Smooth c commit (.publishing commit files snapshot)
  | cleared (files : Nat) (snapshot : Snapshot) :
      Smooth c commit (.cleared commit files snapshot)
  | upToDate : Smooth c commit (.returned (.ok (.upToDate commit)))
  | updated (old : String) (files : Nat) :
      Smooth c commit (.returned (.ok (.updated old commit files)))

variable {c : Settings} {commit : String} {v : Sight} {p p' : Phase} {a : Action} {e : Effect}
  {id : Nat}

theorem bind_latest {refs : Refs} (h : refs.latest c.branch = .ok commit) :
    ((Except.ok refs : Except Fault Refs).bind fun refs => refs.latest c.branch) = .ok commit :=
  h

theorem Fails.not_smooth {stage : Stage} {fault : Fault} (h : Fails c v p a stage fault)
    (hp : p.Smooth c commit) (ha : Event.Smooth c commit (.act id a))
    (hv : v.cancelled = false) : False := by
  cases h with
  | listing hfault =>
      cases ha with
      | listed _ hlatest =>
          rw [bind_latest hlatest] at hfault
          cases hfault
  | extracting early hfault =>
      cases ha
      cases hp with
      | extracting husable =>
          obtain ⟨tree, snapshot, htree, -⟩ := husable
          rw [Archive.Feed.cutAt, htree] at hfault
          cases hfault
  | indexing hfault =>
      cases hp with
      | indexing hsnapshot =>
          rw [hsnapshot] at hfault
          cases hfault
  | publishing hcancelled =>
      rw [hv] at hcancelled
      cases hcancelled
  | fetching | timedOut | interrupted | extractionCrashed | indexingCrashed => cases ha

theorem Smooth.move (hp : p.Smooth c commit) (hm : Move c v p a p' e)
    (ha : Event.Smooth c commit (.act id a)) (hv : v.cancelled = false) :
    p'.Smooth c commit := by
  cases hm with
  | giveUp hcancelled =>
      rw [hv] at hcancelled
      cases hcancelled
  | look => exact .ready
  | wait => exact .waiting
  | acquire => exact .listing _
  | settle htracked =>
      cases ha with
      | listed _ hlatest =>
          rw [hlatest] at htracked
          cases htracked
          exact .upToDate
  | pursue hlatest' =>
      cases ha with
      | listed _ hlatest =>
          rw [hlatest] at hlatest'
          cases hlatest'
          exact .fetching
  | receive =>
      cases hp
      cases ha with
      | fetched _ husable => exact .extracting husable
  | extract early htree =>
      cases ha
      cases hp with
      | extracting husable =>
          obtain ⟨tree, snapshot, htree', hsnapshot⟩ := husable
          rw [Archive.Feed.cutAt, htree'] at htree
          cases htree
          exact .indexing hsnapshot
  | build =>
      cases hp
      exact .publishing _ _
  | clear =>
      cases hp
      exact .cleared _ _
  | publish =>
      cases hp
      exact .updated _ _
  | fail hf => exact (hf.not_smooth hp ha hv).elim
  | drop => cases ha

/-- How many moves a call is away from its end, if it does not have to wait. -/
def rank : Phase → Nat
  | .waiting => 8
  | .ready => 7
  | .listing _ => 6
  | .fetching _ => 5
  | .extracting .. => 4
  | .indexing .. => 3
  | .publishing .. => 2
  | .cleared .. => 1
  | .returned _ | .dropped => 0

/-- A call that has not ended can be brought nearer to its end, unless it would have
to wait for another one. -/
theorem Smooth.progress {body : Archive.Feed} (hp : p.Smooth c commit) (hbody : Usable c body)
    (hend : p.ended = false) (hv : v.cancelled = false) (hready : p = .ready → v.busy = false) :
    ∃ a p' e, p.next? c v a = some (p', e) ∧ (∀ id, Event.Smooth c commit (.act id a)) ∧
      p'.rank < p.rank := by
  cases hp with
  | waiting =>
      refine ⟨.look, .ready, .nothing, ?_, .look, Nat.lt_succ_self 7⟩
      simp only [next?, hv, Bool.false_eq_true, if_false]
  | ready =>
      refine ⟨.acquire, .listing v.commit, .request .refs, ?_, .acquire, Nat.lt_succ_self 6⟩
      simp only [next?, hready rfl, Bool.false_eq_true, if_false]
  | listing tracked =>
      have hlatest : Refs.latest [(Refs.branchRef c.branch, commit)] c.branch = .ok commit :=
        Refs.latest_eq_ok.2 (by simp only [Table.get?, if_true])
      refine ⟨.listed (.ok [(Refs.branchRef c.branch, commit)]), _, _, rfl,
        fun id => .listed id hlatest, ?_⟩
      simp only [bind_latest hlatest]
      by_cases hsame : commit = tracked
      · simp only [hsame, if_true]
        exact Nat.zero_lt_succ 5
      · simp only [hsame, if_false]
        exact Nat.lt_succ_self 5
  | fetching =>
      exact ⟨.fetched (.ok body), _, _, rfl, fun id => .fetched id hbody, Nat.lt_succ_self 4⟩
  | extracting h =>
      obtain ⟨tree, snapshot, htree, -⟩ := h
      refine ⟨.extracted none, .indexing commit tree, .nothing, ?_, .extracted,
        Nat.lt_succ_self 3⟩
      simp only [next?, Archive.Feed.cutAt, htree, extracted, Option.isSome_none,
        Bool.false_and, Bool.false_eq_true, if_false]
  | @indexing tree snapshot h =>
      refine ⟨.built, .publishing commit tree.size snapshot, .nothing, ?_, .built,
        Nat.lt_succ_self 2⟩
      simp only [next?, built, h]
  | publishing files snapshot =>
      refine ⟨.look, .cleared commit files snapshot, .nothing, ?_, .look, Nat.lt_succ_self 1⟩
      simp only [next?, hv, Bool.false_eq_true, if_false]
  | cleared files snapshot =>
      exact ⟨.publish ⟨0, 0⟩, _, _, rfl, fun id => .publish id _, Nat.zero_lt_succ 0⟩
  | upToDate | updated => cases hend

end Phase

namespace System

variable {c : Settings} {s t : System} {history : List Event} {commit : String}

/-- No call has a token that is cancelled. -/
def Uncancelled (s : System) : Prop :=
  ∀ call ∈ s.calls, s.isCancelled call.token = false

theorem uncancelled_of_run (h : s.run? c history = some t) (ht : t.Uncancelled) :
    s.Uncancelled := by
  intro call hcall
  obtain ⟨id, hid⟩ := List.getElem?_of_mem hcall
  obtain ⟨phase, hphase⟩ := token_stable h hid
  cases hcancelled : s.isCancelled call.token with
  | false => rfl
  | true =>
      have hlate := isCancelled_of_run h hcancelled
      rw [ht _ (List.mem_of_getElem? hphase)] at hlate
      cases hlate

theorem smooth_of_run (idle : s.Idle) (h : s.run? c history = some t)
    (hsmooth : ∀ e ∈ history, e.Smooth c commit) (ht : t.Uncancelled) {id : Nat} {p : Phase}
    (hp : t.phase? id = some p) : p.Smooth c commit := by
  refine run?_induction (P := fun history t => (∀ e ∈ history, e.Smooth c commit) →
    t.Uncancelled → ∀ id p, t.phase? id = some p → p.Smooth c commit) ?_ ?_ h hsmooth ht id p hp
  · intro _ _ id p hp
    rw [idle.phase?] at hp
    cases hp
  · intro history w e t _ ih hstep hsmooth ht id p hp
    have hw : w.Uncancelled := uncancelled_of_run (by rw [run?_singleton, hstep]) ht
    replace ih := ih (fun e he => hsmooth e (List.mem_append_left _ he)) hw
    rcases (step_of_step? hstep).of_call id with ⟨-, hsame⟩ | ⟨token, -, -, hwait⟩ |
      ⟨a, call, p', effect, rfl, hc, hm, -, hnext⟩
    · rw [phase?, hsame] at hp
      exact ih id p hp
    · rw [phase?, hwait] at hp
      cases hp
      exact .waiting
    · rw [phase?_of_getElem? hnext] at hp
      cases hp
      exact (ih id _ (phase?_of_getElem? hc)).move hm
        (hsmooth _ (List.mem_append_right _ (List.mem_singleton.2 rfl)))
        (hw call (List.mem_of_getElem? hc))

/-- A call that finds nothing to do has found the commit published. -/
theorem commit_of_upToDate (idle : s.Idle) (h : s.run? c history = some t)
    (hsmooth : ∀ e ∈ history, e.Smooth c commit) (ht : t.Uncancelled) {id : Nat}
    (hresult : t.result? id = some (.ok (.upToDate commit))) : t.published.commit = commit := by
  refine run?_induction (P := fun history t => (∀ e ∈ history, e.Smooth c commit) →
    t.Uncancelled → ∀ id, t.result? id = some (.ok (.upToDate commit)) →
      t.published.commit = commit) ?_ ?_ h hsmooth ht id hresult
  · intro _ _ id hresult
    rw [result?_eq_some, idle.phase?] at hresult
    cases hresult
  · -- The call has just found it published, or has done so before; a later publication
    -- puts the same commit in its place.
    intro history w e t hrun ih hstep hsmooth ht id hresult
    have hw : w.Uncancelled := uncancelled_of_run (by rw [run?_singleton, hstep]) ht
    have hbefore : ∀ e ∈ history, e.Smooth c commit :=
      fun e he => hsmooth e (List.mem_append_left _ he)
    replace hstep := step_of_step? hstep
    rcases hstep.published with
      ⟨hsame, -, -⟩ | ⟨j, now, latest, files, snapshot, -, hcleared, -, hpub, -⟩
    · rw [hsame]
      rcases hstep.of_phase? (result?_eq_some.1 hresult) with ⟨hphase, -⟩ | ⟨-, hwait, -⟩ |
        ⟨a, call, effect, -, hphase, hm⟩
      · exact ih hbefore hw id (result?_eq_some.2 hphase)
      · cases hwait
      · generalize hfrom : call.phase = p at hm hphase
        cases hm with
        | settle =>
            have hfresh : commit = w.published.commit := fresh_of_run idle hrun hphase
            exact hfresh.symm
    · rw [hpub]
      cases smooth_of_run idle hrun hbefore hw hcleared
      rfl

/-! ## At most one publication -/

/-- Updates that all lead to one commit are one at most. -/
theorem Chain.length_le_one {result? : Nat → Option Result} {first last : String}
    {ids : List Nat} (h : Chain result? first ids last) (hne : commit ≠ first)
    (hsame : ∀ id old new files, result? id = some (.ok (.updated old new files)) →
      new = commit) : ids = [] ∨ ∃ id, ids = [id] := by
  cases ids with
  | nil => exact .inl rfl
  | cons id rest =>
      obtain ⟨new, files, hid, -, hrest⟩ := h
      obtain rfl := hsame id first new files hid
      cases rest with
      | nil => exact .inr ⟨id, rfl⟩
      | cons j more =>
          obtain ⟨new', files', hj, hne', -⟩ := hrest
          exact absurd (hsame j _ _ _ hj).symm hne'

theorem publishers_of_smooth (idle : s.Idle) (h : s.run? c history = some t)
    (hsmooth : ∀ e ∈ history, e.Smooth c commit) (ht : t.Uncancelled)
    (hne : commit ≠ s.published.commit) :
    publishers history = [] ∨ ∃ id, publishers history = [id] := by
  refine Chain.length_le_one (chain_of_run idle h) hne fun id old new files hresult => ?_
  cases smooth_of_run idle h hsmooth ht (result?_eq_some.1 hresult)
  rfl

theorem published_of_no_publisher (h : s.run? c history = some t)
    (hno : publishers history = []) : t.published = s.published := by
  refine run?_induction (P := fun history t => publishers history = [] →
    t.published = s.published) (fun _ => rfl) ?_ h hno
  intro history w e t _ ih hstep hno
  rcases (step_of_step? hstep).published with ⟨hsame, -, hother⟩ | ⟨j, now, _, _, _, rfl, -⟩
  · rw [publishers_concat_other hother] at hno
    rw [hsame, ih hno]
  · rw [publishers_concat_publish] at hno
    exact absurd hno (List.concat_ne_nil _ _)

/-- In all states behind a publication the same is published. -/
def ReplacedOnce (c : Settings) (s : System) (history : List Event) : Prop :=
  ∀ before id now during after u v,
    history = before ++ (.act id (.publish now) :: (during ++ after)) →
    s.run? c (before ++ [.act id (.publish now)]) = some u →
    u.run? c during = some v → v.published = u.published

theorem replacedOnce_of_smooth (idle : s.Idle) (h : s.run? c history = some t)
    (hsmooth : ∀ e ∈ history, e.Smooth c commit) (ht : t.Uncancelled)
    (hne : commit ≠ s.published.commit) : ReplacedOnce c s history := by
  intro before id now during after u v hsplit _ hduring
  -- Whoever published in between would be a second publisher of the history.
  refine published_of_no_publisher hduring ?_
  have hall : publishers history =
      publishers before ++ ([id] ++ (publishers during ++ publishers after)) := by
    rw [hsplit, publishers_append]
    exact congrArg (publishers before ++ id :: ·) publishers_append
  have hlength : (publishers history).length ≤ 1 := by
    rcases publishers_of_smooth idle h hsmooth ht hne with hnone | ⟨j, hone⟩
    · rw [hnone]
      exact Nat.zero_le 1
    · rw [hone]
      exact Nat.le_refl 1
  rw [hall] at hlength
  simp only [List.length_append, List.length_singleton] at hlength
  exact List.eq_nil_of_length_eq_zero (by omega)

/-! ## All requests -/

theorem lt_of_phase? {id : Nat} {p : Phase} (hp : s.phase? id = some p) :
    id < s.calls.length := by
  rw [phase?, Option.map_eq_some_iff] at hp
  obtain ⟨call, hcall, -⟩ := hp
  exact (List.getElem?_eq_some_iff.1 hcall).1

theorem caller_of_request (idle : s.Idle) (h : s.run? c history = some t) {id : Nat}
    {what : Request} (hr : (id, what) ∈ t.requests) : id < t.calls.length := by
  obtain ⟨p, hp, -⟩ := hasBegun_of_request idle h hr
  exact lt_of_phase? hp

/-- The requests are those of all callers together. -/
theorem count_requests {n : Nat} (h : ∀ r ∈ s.requests, r.1 < n) (what : Request) :
    (s.requests.map Prod.snd).count what =
      ∑ id ∈ Finset.range n, (s.requestsOf id).count what := by
  have hasked (id : Nat) : s.requestsOf id =
      s.requests.filterMap fun r => if r.1 = id then some r.2 else none := rfl
  simp only [hasked]
  clear hasked
  generalize s.requests = requests at h
  induction requests with
  | nil => simp
  | cons r rest ih =>
      have hasker : r.1 ∈ Finset.range n := Finset.mem_range.2 (h r List.mem_cons_self)
      have hcons (id : Nat) :
          ((r :: rest).filterMap fun r => if r.1 = id then some r.2 else none).count what =
            (rest.filterMap fun r => if r.1 = id then some r.2 else none).count what +
              if r.1 = id then (if r.2 == what then 1 else 0) else 0 := by
        by_cases hid : r.1 = id <;> simp [hid, List.count_cons]
      rw [List.map_cons, List.count_cons, ih fun r hr => h r (List.mem_cons_of_mem _ hr),
        Finset.sum_congr rfl fun id _ => hcons id, Finset.sum_add_distrib, Finset.sum_ite_eq,
        if_pos hasker]

/-- If one caller has asked for the archive, and all have asked for the refs, then there
is one request for the archive, and one for the refs of each. -/
theorem requests_perm {n id : Nat} {url : String} (h : ∀ r ∈ s.requests, r.1 < n)
    (hid : id < n) (hone : s.requestsOf id = [.refs, .archive url])
    (hothers : ∀ other < n, other ≠ id → s.requestsOf other = [.refs]) :
    (s.requests.map Prod.snd).Perm (.archive url :: List.replicate n .refs) := by
  rw [List.perm_iff_count]
  intro what
  have hcount : ∀ i ∈ Finset.range n, (s.requestsOf i).count what =
      [Request.refs].count what + if i = id then [Request.archive url].count what else 0 := by
    intro i hi
    by_cases hsame : i = id
    · rw [if_pos hsame, hsame, hone, ← List.count_append]
      rfl
    · rw [if_neg hsame, hothers i (Finset.mem_range.1 hi) hsame, Nat.add_zero]
  rw [count_requests h, Finset.sum_congr rfl hcount, Finset.sum_add_distrib, Finset.sum_ite_eq',
    if_pos (Finset.mem_range.2 hid), Finset.sum_const_nat fun _ _ => rfl, Finset.card_range,
    List.count_singleton, List.count_singleton, List.count_cons, List.count_replicate]
  cases what with
  | refs => simp
  | archive other => simp

/-- What becomes of some calls of which one updates what is published: it gets the
archive, all others find nothing to do, and each asks for the refs once. -/
structure UpdatedOnce (c : Settings) (s : System) (history : List Event) (t : System)
    (commit : String) (id : Nat) : Prop where
  updated : ∃ files, t.result? id = some (.ok (.updated s.published.commit commit files))
  others : ∀ other < t.calls.length, other ≠ id →
    t.result? other = some (.ok (.upToDate commit))
  requests : (t.requests.map Prod.snd).Perm
    (.archive c.archiveUrl :: List.replicate t.calls.length .refs)
  publishers : publishers history = [id]
  published : t.published.commit = commit

/-- All calls have come to their end. -/
def Finished (s : System) : Prop :=
  ∀ call ∈ s.calls, call.phase.ended = true

theorem result_of_finished (idle : s.Idle) (h : s.run? c history = some t)
    (hsmooth : ∀ e ∈ history, e.Smooth c commit) (ht : t.Uncancelled) (hfinished : t.Finished)
    {id : Nat} (hid : id < t.calls.length) :
    t.result? id = some (.ok (.upToDate commit)) ∨
      ∃ old files, t.result? id = some (.ok (.updated old commit files)) := by
  have hcall : t.calls[id]? = some t.calls[id] := List.getElem?_eq_getElem hid
  have hphase := phase?_of_getElem? hcall
  have hend := hfinished _ (List.getElem_mem hid)
  have hgood := smooth_of_run idle h hsmooth ht hphase
  simp only [result?_eq_some, hphase]
  generalize t.calls[id].phase = p at hend hgood
  cases hgood with
  | upToDate => exact .inl rfl
  | updated old files => exact .inr ⟨old, files, rfl⟩
  | _ => cases hend

theorem updatedOnce_of_smooth (idle : s.Idle) (h : s.run? c history = some t)
    (hsmooth : ∀ e ∈ history, e.Smooth c commit) (ht : t.Uncancelled)
    (hne : commit ≠ s.published.commit) (hfinished : t.Finished) (hsome : t.calls ≠ []) :
    ∃ id, UpdatedOnce c s history t commit id := by
  have hchain := chain_of_run idle h
  have hresult (id : Nat) (hid : id < t.calls.length) :=
    result_of_finished idle h hsmooth ht hfinished hid
  -- Without a publication the first call would have found the commit published.
  have hpublisher : publishers history ≠ [] := by
    intro hnone
    rw [hnone] at hchain
    have hkept : s.published.commit = t.published.commit := hchain
    rcases hresult 0 (List.length_pos_iff.2 hsome) with hidle | ⟨old, files, hupdated⟩
    · exact hne (hkept.trans (commit_of_upToDate idle h hsmooth ht hidle)).symm
    · have hmem := publish_of_updated idle h hupdated
      rw [hnone] at hmem
      cases hmem
  obtain ⟨id, hone⟩ := (publishers_of_smooth idle h hsmooth ht hne).resolve_left hpublisher
  rw [hone] at hchain
  obtain ⟨new, files, hupdated, -, hlast⟩ := hchain
  have hphase := result?_eq_some.1 hupdated
  obtain rfl : new = commit := by
    cases smooth_of_run idle h hsmooth ht hphase
    rfl
  have hothers : ∀ other < t.calls.length, other ≠ id →
      t.result? other = some (.ok (.upToDate new)) := by
    intro other hlt hother
    refine (hresult other hlt).resolve_right ?_
    rintro ⟨old, files, hupdated⟩
    apply hother
    have hmem := publish_of_updated idle h hupdated
    rw [hone] at hmem
    exact List.mem_singleton.1 hmem
  refine ⟨id, ⟨files, hupdated⟩, hothers, ?_, hone, hlast.symm⟩
  refine requests_perm (fun r hr => caller_of_request idle h hr) (lt_of_phase? hphase)
    ((asked_of_run idle h).2 _ hphase) fun other hlt hother => ?_
  exact (asked_of_run idle h).2 _ (result?_eq_some.1 (hothers other hlt hother))

/-! ## Every history can be brought to its end -/

/-- How many moves all calls together are away from their ends. -/
def rank (s : System) : Nat :=
  total (s.calls.map fun call => call.phase.rank)

theorem total_set_lt {l : List Nat} {i m n : Nat} (h : l[i]? = some m) (hlt : n < m) :
    total (l.set i n) < total l := by
  induction l generalizing i with
  | nil => cases h
  | cons k rest ih =>
      cases i with
      | zero =>
          cases h
          exact Nat.add_lt_add_right hlt _
      | succ i => exact Nat.add_lt_add_left (ih h) k

/-- A call that has not ended, and does not have to wait for another one. -/
theorem exists_free (hopen : ¬ s.Finished) : ∃ (id : Nat) (call : Call), s.calls[id]? = some call ∧
    call.phase.ended = false ∧ (call.phase = .ready → s.busy = false) := by
  cases hbusy : s.busy with
  | true =>
      have hsome : ∃ id, s.HasTurn id := by
        refine Classical.not_forall_not.1 fun hno => ?_
        rw [busy_eq_false_iff.2 hno] at hbusy
        cases hbusy
      obtain ⟨id, phase, hphase, hturn⟩ := hsome
      rw [phase?, Option.map_eq_some_iff] at hphase
      obtain ⟨call, hcall, rfl⟩ := hphase
      refine ⟨id, call, hcall, ?_, fun hready => ?_⟩
      · refine Bool.eq_false_iff.2 fun hend => ?_
        rw [Phase.hasTurn_of_ended hend] at hturn
        cases hturn
      · rw [hready] at hturn
        cases hturn
  | false =>
      simp only [Finished, Classical.not_forall] at hopen
      obtain ⟨call, hmem, hend⟩ := hopen
      obtain ⟨id, hcall⟩ := List.getElem?_of_mem hmem
      exact ⟨id, call, hcall, Bool.eq_false_iff.2 hend, fun _ => rfl⟩

theorem exists_progress {body : Archive.Feed} (hbody : Usable c body) (ht : t.Uncancelled)
    (hgood : ∀ id p, t.phase? id = some p → p.Smooth c commit) (hopen : ¬ t.Finished) :
    ∃ e u, t.step? c e = some u ∧ e.Smooth c commit ∧ u.Uncancelled ∧
      u.calls.length = t.calls.length ∧ u.rank < t.rank := by
  obtain ⟨id, call, hcall, hend, hready⟩ := exists_free hopen
  have hsight : (t.sight call).cancelled = false := ht call (List.mem_of_getElem? hcall)
  obtain ⟨a, p, effect, hnext, ha, hrank⟩ :=
    (hgood id _ (phase?_of_getElem? hcall)).progress hbody hend hsight hready
  refine ⟨.act id a, t.advance id call p effect, ?_, ha id, ?_, List.length_set, ?_⟩
  · simp only [step?, act?, hcall, hnext]
  · intro other hother
    rw [isCancelled, cancelled_advance]
    rcases List.mem_or_eq_of_mem_set hother with hmem | rfl
    · exact ht other hmem
    · exact ht call (List.mem_of_getElem? hcall)
  · have hranks : (t.calls.map fun call => call.phase.rank)[id]? = some call.phase.rank := by
      rw [List.getElem?_map, hcall]
      rfl
    simp only [rank, advance, List.map_set]
    exact total_set_lt hranks hrank

/-- The calls that there are can all be brought to their ends. -/
theorem exists_end {body : Archive.Feed} (idle : s.Idle) (h : s.run? c history = some t)
    (hsmooth : ∀ e ∈ history, e.Smooth c commit) (ht : t.Uncancelled) (hbody : Usable c body) :
    ∃ after u, t.run? c after = some u ∧ (∀ e ∈ after, e.Smooth c commit) ∧ u.Uncancelled ∧
      u.calls.length = t.calls.length ∧ u.Finished := by
  -- Some call can always move, and its move lowers the rank.
  induction hn : t.rank using Nat.strong_induction_on generalizing t history with
  | _ n ih =>
      by_cases hfinished : t.Finished
      · exact ⟨[], t, rfl, List.forall_mem_nil _, ht, rfl, hfinished⟩
      · obtain ⟨e, w, hstep, he, hw, hlength, hrank⟩ := exists_progress hbody ht
          (fun id p hp => smooth_of_run idle h hsmooth ht hp) hfinished
        have hrun := run?_concat h hstep
        have hall : ∀ e' ∈ history ++ [e], e'.Smooth c commit := by
          intro e' he'
          rcases List.mem_append.1 he' with hold | hnew
          · exact hsmooth e' hold
          · exact List.mem_singleton.1 hnew ▸ he
        obtain ⟨after, u, hafter, hsmooth', hu, hcalls, hend⟩ :=
          ih w.rank (hn ▸ hrank) hrun hall hw rfl
        refine ⟨e :: after, u, ?_, List.forall_mem_cons.2 ⟨he, hsmooth'⟩, hu,
          hcalls.trans hlength, hend⟩
        simp only [run?, hstep, hafter]

/-- In every history a call asks for the archive exactly if its listing tells of a
commit other than the one that is published at that moment, and then once. So where
the branch stands at a commit that is not published, and nothing goes wrong, calls
that are made at one time ask for the archive once, whatever their number and the
order of the events: one call updates, all others find the commit published, and
what is published is replaced once. And all of them can be brought to their ends. -/
theorem archive_fetched_once (idle : s.Idle) (h : s.run? c history = some t) :
    (∀ id, AsksOnce c s history t id) ∧
    ∀ commit, commit ≠ s.published.commit → (∀ e ∈ history, e.Smooth c commit) →
      t.Uncancelled →
      ReplacedOnce c s history ∧
      (t.Finished → t.calls ≠ [] → ∃ id, UpdatedOnce c s history t commit id) ∧
      ∀ body, Usable c body → ∃ after u, t.run? c after = some u ∧
        (∀ e ∈ after, e.Smooth c commit) ∧ u.Uncancelled ∧
        u.calls.length = t.calls.length ∧ u.Finished :=
  ⟨fun _ => asksOnce_of_run idle h, fun _ hne hsmooth ht =>
    ⟨replacedOnce_of_smooth idle h hsmooth ht hne,
      updatedOnce_of_smooth idle h hsmooth ht hne,
      fun _ => exists_end idle h hsmooth ht⟩⟩

/-- The first one of two calls publishes, and the second one has its turn behind it. -/
def twoCallsEnd : List Event :=
  [.act 0 (.extracted none), .act 0 .built, .act 0 .look, .act 0 (.publish ⟨0, 0⟩),
    .act 1 .acquire, .act 1 (.listed (.ok [("refs/heads/main", "b")]))]

theorem run_twoCallsEnd {u : System} {body : Archive.Feed} {tree : Tree} {snapshot : Snapshot}
    (htree : Archive.extract Settings.ofMain.filter body = .ok tree)
    (hsnapshot : Snapshot.build tree = .ok snapshot)
    (hcalls : u.calls = [⟨0, .extracting "b" body⟩, ⟨0, .ready⟩])
    (hcancelled : u.cancelled = []) (hcommit : u.published.commit = "a") :
    ∃ t, u.run? .ofMain twoCallsEnd = some t ∧
      t.calls = [⟨0, .returned (.ok (.updated "a" "b" tree.size))⟩,
        ⟨0, .returned (.ok (.upToDate "b"))⟩] ∧ t.cancelled = [] := by
  have hlatest : ((Except.ok [("refs/heads/main", "b")] : Except Fault Refs).bind fun refs =>
      refs.latest Settings.ofMain.branch) = .ok "b" := rfl
  simp only [published] at hcommit
  simp [twoCallsEnd, run?, step?, act?, sight, busy, isCancelled, published, hcalls, hcancelled,
    hcommit, Phase.hasTurn, Phase.next?, Phase.listed, hlatest, Phase.extracted,
    Archive.Feed.cutAt, htree, Phase.built, hsnapshot, advance, perform, Shelf.swap,
    Published.ofSnapshot, Published.publishedNow]

theorem archive_fetched_once_by_two : ∃ t id,
    (System.start (.ofSnapshot .empty "a")).run? .ofMain (twoCalls ++ twoCallsEnd) = some t ∧
      t.calls.length = 2 ∧
      UpdatedOnce .ofMain (.start (.ofSnapshot .empty "a")) (twoCalls ++ twoCallsEnd) t "b" id := by
  obtain ⟨u, hu, hcalls, hcancelled, hcommit⟩ := run_twoCalls
  obtain ⟨snapshot, hsnapshot⟩ := build_shortTree
  obtain ⟨t, ht, hcalls, hcancelled⟩ := run_twoCallsEnd extract_shortTree hsnapshot
    hcalls hcancelled hcommit
  have hrun : (System.start (.ofSnapshot .empty "a")).run? .ofMain (twoCalls ++ twoCallsEnd) =
      some t :=
    run?_append_eq_some.2 ⟨u, hu, ht⟩
  have hbody : Usable .ofMain Archive.shortArchive :=
    ⟨shortTree, snapshot, extract_shortTree, hsnapshot⟩
  have hlatest : Refs.latest [("refs/heads/main", "b")] Settings.ofMain.branch = .ok "b" := rfl
  have hsmooth : ∀ e ∈ twoCalls ++ twoCallsEnd, e.Smooth .ofMain "b" := by
    simp only [twoCalls, twoCallsEnd, List.cons_append, List.nil_append, List.forall_mem_cons]
    exact ⟨.call 0, .call 0, .look 0, .look 1, .acquire 0, .acquire 1, .listed 0 hlatest,
      .fetched 0 hbody, .look 1, .extracted 0, .built 0, .look 0, .publish 0 _, .acquire 1,
      .listed 1 hlatest, List.forall_mem_nil _⟩
  have huncancelled : t.Uncancelled := fun call _ => by rw [isCancelled, hcancelled]; rfl
  have hfinished : t.Finished := by
    rw [Finished, hcalls]
    simp [Phase.ended]
  obtain ⟨id, honce⟩ := ((archive_fetched_once (idle_start _) hrun).2 "b" (by decide) hsmooth
    huncancelled).2.1 hfinished (by rw [hcalls]; exact List.cons_ne_nil _ _)
  exact ⟨t, id, hrun, by rw [hcalls]; rfl, honce⟩

end System
end DocWatch.Update
