import DocWatch.Proofs.Archive.Causes
import DocWatch.Proofs.Update.Succession
import DocWatch.Remote.Download
import DocWatch.Remote.Listing

/-!
# Where a cancellation comes from

One fault says that an update was cancelled, and whoever makes updates at intervals ends with the
first call that returns it. So nobody from outside may bring it about: not the program that lists
the refs, whatever it prints and however it ends, not the host of the archive, and nothing in a
body. This file follows the fault to every place that makes it. Each has looked at the token.

The long way is through the body. An extraction reports what its body was aborted with, so a body
has to be known for what it is from the answer of the host to the end of the extraction:
`Phase.Honest` says so, and one move keeps it. All other places are a line each.
-/

namespace DocWatch

/-! ## What comes from outside -/

theorem Listing.Run.refs_ne_cancelled (r : Run) :
    r.refs.mapError Fault.remoteQuery ≠ .error .cancelled := by
  cases r.refs with
  | error cause => simp [Except.mapError]
  | ok refs => simp [Except.mapError]

theorem Listing.seen_of_cancelled {program : Program} {url : String} {seen : Bool}
    (h : (start program url seen).refs = .error .cancelled) : seen = true := by
  unfold start at h
  split at h
  · cases h
  · split at h
    · cases h
    · split at h
      · assumption
      · split at h
        · cases h
        · exact absurd h (Run.refs_ne_cancelled _)

namespace Download

variable {limit seen : Nat} {body : List Net.Part} {t : Net.Transport} {looked : Bool}
  {request : Net.Request}

/-- What can come of a request for the archive, for a token that is cancelled or not. -/
inductive Answer (limit : Nat) (cancelled : Bool) : Except Fault Archive.Feed → Prop where
  | cancelled (h : cancelled = true) : Answer limit cancelled (.error .cancelled)
  | failed {status : Option Nat} {message : String} :
      Answer limit cancelled (.error (.download status message))
  | tooLarge {excess : Excess} : Answer limit cancelled (.error (.sizeLimit excess))
  | body (parts : List Net.Part) : Answer limit cancelled (.ok (bounded limit parts))

theorem answer_fetch {cancelled : Bool} (h : looked = true → cancelled = true) :
    Answer limit cancelled (fetch t limit looked request) := by
  rw [fetch]
  split
  · rename_i hlooked
    exact .cancelled (h hlooked)
  · cases t request with
    | failed f => exact .failed
    | answered response =>
        rw [ofExchange, ofResponse]
        split
        · exact .failed
        · split
          · split
            · exact .tooLarge
            · exact .body _
          · exact .body _

theorem failure?_boundedFrom :
    (boundedFrom limit seen body).failure? ≠ some (.abort .cancelled) := by
  induction body generalizing seen with
  | nil => exact nofun
  | cons part rest ih =>
      cases part with
      | failed f => simp [boundedFrom, Archive.Feed.failure?]
      | data bytes =>
          rw [boundedFrom]
          split
          · exact ih
          · simp [Archive.Feed.failure?]

end Download

/-! ## What is made of it -/

theorem Archive.Feed.failure?_take {feed : Feed} {n : Nat} {e : ReadError}
    (h : Feed.failure? (feed.take n) = some e) : feed.failure? = some e := by
  induction feed generalizing n with
  | nil => simp [failure?] at h
  | cons piece rest ih =>
      cases n with
      | zero => cases h
      | succ n =>
          cases piece with
          | data bytes => exact ih h
          | failure e' => exact h

theorem Archive.Feed.failure?_cutAt {feed : Feed} {cut : Option Nat} {e : ReadError}
    (h : (feed.cutAt cut).failure? = some e) : feed.failure? = some e := by
  cases cut with
  | none => exact h
  | some n => exact failure?_take h

theorem Archive.aborted_of_cancelled {f : Filter} {feed : Feed}
    (h : extract f feed = .error .cancelled) : feed.failure? = some (.abort .cancelled) := by
  rcases extract_blames h with ⟨cause, habort, hfault⟩ | hcontents
  · cases cause with
    | cancelled => exact habort
    | tooLarge | transport => cases hfault
  · cases hcontents

theorem Refs.latest_ne_cancelled {refs : Refs} {branch : String} :
    refs.latest branch ≠ .error .cancelled := by
  rw [latest]
  split <;> simp

theorem Snapshot.build_ne_cancelled {tree : Tree} : Snapshot.build tree ≠ .error .cancelled := by
  have hindex : ∀ passages, Index.build passages ≠ .error .cancelled := by
    intro passages
    rw [Index.build]
    split
    · simp
    · split <;> simp
  rw [Snapshot.build]
  cases hbuild : Index.build (tree.documents.flatMap passagesOf) with
  | error fault =>
      intro h
      cases h
      exact hindex _ hbuild
  | ok index =>
      intro h
      cases h

namespace Update

/-! ## One call -/

/-- The answers of the listing program, whatever it does. That the token was cancelled is seen only
if it was. -/
def Lists (cancelled : Bool) (answer : Except Fault Refs) : Prop :=
  ∃ program url seen, (seen = true → cancelled = true) ∧
    answer = (Listing.start program url seen).refs

/-- The answers of the host of the archive, whatever comes of the request. -/
def Fetches (cancelled : Bool) (answer : Except Fault Archive.Feed) : Prop :=
  ∃ transport limit request seen, (seen = true → cancelled = true) ∧
    answer = Download.fetch transport limit seen request

theorem Fetches.answer {cancelled : Bool} {answer : Except Fault Archive.Feed}
    (h : Fetches cancelled answer) : ∃ limit, Download.Answer limit cancelled answer := by
  obtain ⟨transport, limit, request, seen, hseen, rfl⟩ := h
  exact ⟨limit, Download.answer_fetch hseen⟩

def Action.Supplied (cancelled : Bool) : Action → Prop
  | .listed answer => Lists cancelled answer
  | .fetched answer => Fetches cancelled answer
  | _ => True

namespace Phase

/-- A call says that it was cancelled only if it was, and will do so. -/
def Honest (cancelled : Bool) : Phase → Prop
  | .extracting _ body => body.failure? ≠ some (.abort .cancelled)
  | .returned (.error e) => e.fault = .cancelled → cancelled = true
  | _ => True

variable {c : Settings} {v : Sight} {p p' : Phase} {a : Action} {e : Effect} {stage : Stage}

theorem Honest.mono {b b' : Bool} (h : p.Honest b) (hle : b = true → b' = true) :
    p.Honest b' := by
  cases p with
  | extracting => exact h
  | returned r =>
      cases r with
      | error e => exact fun hfault => hle (h hfault)
      | ok => trivial
  | _ => trivial

theorem Fails.cancelled (h : Fails c v p a stage .cancelled) (ha : a.Supplied v.cancelled)
    (hp : p.Honest v.cancelled) : v.cancelled = true := by
  cases h with
  | @listing tracked answer _ hfault =>
      obtain ⟨program, url, seen, hseen, rfl⟩ := ha
      cases hrefs : (Listing.start program url seen).refs with
      | ok refs =>
          rw [hrefs] at hfault
          exact absurd hfault Refs.latest_ne_cancelled
      | error fault =>
          rw [hrefs] at hfault
          cases hfault
          exact hseen (Listing.seen_of_cancelled hrefs)
  | fetching =>
      obtain ⟨limit, hanswer⟩ := ha.answer
      cases hanswer with
      | cancelled h => exact h
  | extracting _ hfault =>
      exact absurd (Archive.Feed.failure?_cutAt (Archive.aborted_of_cancelled hfault)) hp
  | interrupted hlook | publishing hlook => exact hlook
  | indexing hfault => exact absurd hfault Snapshot.build_ne_cancelled

theorem Move.honest (h : Move c v p a p' e) (ha : a.Supplied v.cancelled)
    (hp : p.Honest v.cancelled) : p'.Honest v.cancelled := by
  cases h with
  | giveUp hlook => exact fun _ => hlook
  | look | wait | acquire | settle | pursue | extract | build | clear | publish | drop => trivial
  | receive =>
      obtain ⟨limit, hanswer⟩ := ha.answer
      cases hanswer with
      | body parts => exact Download.failure?_boundedFrom
  | fail hf =>
      intro hfault
      cases hfault
      exact hf.cancelled ha hp

end Phase

/-! ## All calls -/

namespace System

variable {c : Settings} {s t : System} {history : List Event} {id : Nat} {call : Call}

/-- All answers in a history come from the listing program and the host of the archive. -/
def Supplied (c : Settings) (s : System) (history : List Event) : Prop :=
  ∀ before id a after u call, history = before ++ .act id a :: after →
    s.run? c before = some u → u.calls[id]? = some call →
    a.Supplied (u.isCancelled call.token)

theorem Supplied.of_append {before after : List Event} (h : Supplied c s (before ++ after)) :
    Supplied c s before := by
  intro first id a rest u call hsplit
  exact h first id a (rest ++ after) u call (by rw [hsplit]; simp)

/-- All calls say that they were cancelled only if they were. -/
def Honest (t : System) : Prop :=
  ∀ (id : Nat) (call : Call), t.calls[id]? = some call →
    call.phase.Honest (t.isCancelled call.token)

theorem honest_of_run (idle : s.Idle) (h : s.run? c history = some t)
    (hsupplied : Supplied c s history) : t.Honest := by
  refine run?_induction (P := fun history t => Supplied c s history → t.Honest) ?_ ?_ h hsupplied
  · intro _ id call hcall
    rw [idle.calls] at hcall
    cases hcall
  · intro history u e t hrun ih hstep hsupplied id call hcall
    replace hstep := step_of_step? hstep
    have hbefore := ih hsupplied.of_append
    rcases hstep.of_call id with ⟨-, hsame⟩ | ⟨token, rfl, -, hwait⟩ |
      ⟨a, call', phase, effect, rfl, hc, hm, rfl, hnext⟩
    · rw [hsame] at hcall
      exact (hbefore id call hcall).mono hstep.isCancelled_mono
    · rw [hwait] at hcall
      cases hcall
      trivial
    · rw [hnext] at hcall
      cases hcall
      rw [isCancelled, cancelled_advance]
      exact hm.honest (hsupplied history id a [] u call' rfl hrun hc) (hbefore id call' hc)

/-- A call has returned that it was cancelled only if its token has been cancelled. -/
theorem cancelled_of_result {fault : UpdateFault} (idle : s.Idle)
    (h : s.run? c history = some t) (hsupplied : Supplied c s history)
    (hcall : t.calls[id]? = some call) (hr : call.phase = .returned (.error fault))
    (hfault : fault.isCancelled = true) : t.isCancelled call.token = true := by
  have hhonest := honest_of_run idle h hsupplied id call hcall
  rw [hr] at hhonest
  exact hhonest (of_decide_eq_true hfault)

end System
end Update
end DocWatch
