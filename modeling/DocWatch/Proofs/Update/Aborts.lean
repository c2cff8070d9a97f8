import DocWatch.Proofs.Archive.Causes
import DocWatch.Proofs.Archive.Interruption
import DocWatch.Proofs.Update.Origin

/-!
# What becomes of a call whose body fails to arrive

Behind the answer of the host all depends on the extraction of the body, unless
the call is stopped from outside. `Fate` lists what can have become of a call that
has a body and was neither cancelled nor out of time: the extraction is not over,
or its result is what the call went on with, or the thread that it was handed to
broke down.

An abort of the body that the reads of the extraction reach decides that result,
and so the call: it reports the cause of the abort, and publishes nothing.
-/

namespace DocWatch.Update

/-- What an update reports of a read that failed. -/
def report : ReadError → UpdateFault
  | .abort (.tooLarge limit) => ⟨.extracting, .sizeLimit (.received limit)⟩
  | .abort (.transport message) => ⟨.downloading, .download none message⟩
  | .abort .cancelled => ⟨.downloading, .cancelled⟩
  | .other detail => ⟨.extracting, .malformedArchive (.unreadable detail)⟩

theorem report_eq (e : ReadError) : report e = ⟨stageOf e.fault, e.fault⟩ := by
  rcases e with ⟨_ | _ | _⟩ | _ <;> rfl

/-- The phases behind the extraction. A call that fails in one of them does so
while it indexes. -/
def Phase.Extracted : Phase → Prop
  | .indexing .. | .publishing .. | .cleared .. | .returned (.ok _) | .dropped => True
  | .returned (.error e) => e.stage = .indexing
  | _ => False

/-- What can have become of a call that has a body, by its own actions so far. -/
inductive Fate (c : Settings) (body : Archive.Feed) (own : List Action) : Phase → Prop where
  | extracting (latest : String) : Fate c body own (.extracting latest body)
  | dropped : Fate c body own .dropped
  | failed {fault : Fault} (h : Archive.extract c.filter body = .error fault) :
      Fate c body own (.returned (.error ⟨stageOf fault, fault⟩))
  | crashed {why : String} (h : .crashed why ∈ own) :
      Fate c body own (.returned (.error
        ⟨.extracting, .malformedArchive (.unreadable ("extraction task failed: " ++ why))⟩))
  | extracted {tree : Tree} {p : Phase} (h : Archive.extract c.filter body = .ok tree)
      (hp : p.Extracted) : Fate c body own p

theorem Phase.Extracted.move {c : Settings} {v : Sight} {p p' : Phase} {a : Action} {e : Effect}
    (h : p.Extracted) (hv : v.cancelled = false) (hm : Phase.Move c v p a p' e) :
    p'.Extracted := by
  cases hm with
  | giveUp | look | wait | acquire | settle | pursue | receive | extract => cases h
  | build | clear | publish | drop => trivial
  | fail hf =>
      cases hf with
      | listing | fetching | extracting | timedOut | interrupted | extractionCrashed => cases h
      | indexing | indexingCrashed => rfl
      | publishing hlook =>
          rw [hv] at hlook
          cases hlook

namespace Fate

variable {c : Settings} {v : Sight} {body : Archive.Feed} {own : List Action} {p p' : Phase}
  {a : Action} {e : Effect}

theorem move (h : Fate c body own p) (hv : v.cancelled = false) (htime : a ≠ .timedOut)
    (hm : Phase.Move c v p a p' e) : Fate c body (own ++ [a]) p' := by
  cases h with
  | extracting latest =>
      cases hm with
      | @extract _ _ cut tree early h =>
          cases cut with
          | none => exact .extracted h trivial
          | some n =>
              rw [early rfl] at hv
              cases hv
      | fail hf =>
          cases hf with
          | @extracting _ _ cut fault early h =>
              cases cut with
              | none => exact .failed h
              | some n =>
                  rw [early rfl] at hv
                  cases hv
          | timedOut => exact absurd rfl htime
          | interrupted h =>
              rw [h] at hv
              cases hv
          | extractionCrashed =>
              exact .crashed (List.mem_append_right _ (List.mem_singleton.2 rfl))
      | drop => exact .dropped
  | dropped | failed | crashed => cases hm.not_ended
  | extracted h hp => exact .extracted h (hp.move hv hm)

end Fate

namespace System

variable {c : Settings} {s t : System} {id : Nat} {call : Call} {body : Archive.Feed}

theorem fate_of_run {history : List Event} (idle : s.Idle) (h : s.run? c history = some t)
    (hcall : t.calls[id]? = some call) (hbody : .act id (.fetched (.ok body)) ∈ history)
    (htime : .act id .timedOut ∉ history) (hcancel : t.isCancelled call.token = false) :
    Fate c body (actionsOf id history) call.phase := by
  refine idle.call_induction
    (R := fun b own p => b = false → .timedOut ∉ own → .fetched (.ok body) ∈ own →
      Fate c body own p)
    (fun _ _ _ => nofun) (fun _ => nofun) ?_ h hcall hcancel
    (fun hmem => htime (mem_actionsOf.1 hmem)) (mem_actionsOf.2 hbody)
  intro v own p a p' e hm ih hv htime hmem
  rw [List.mem_append, not_or] at htime
  rcases List.mem_append.1 hmem with hmem | hlast
  · exact (ih hv htime.1 hmem).move hv (fun ha => htime.2 (List.mem_singleton.2 ha.symm)) hm
  · obtain rfl := List.mem_singleton.1 hlast
    cases hm with
    | receive => exact .extracting _
    | fail hf => cases hf

/-- A call that publishes has one body, and has extracted the whole of it. -/
theorem extract_of_publish {history : List Event} {now : Time.Instant} (idle : s.Idle)
    (h : s.run? c history = some t) (hbody : .act id (.fetched (.ok body)) ∈ history)
    (hpub : .act id (.publish now) ∈ history) :
    ∃ tree, Archive.extract c.filter body = .ok tree := by
  rw [← mem_actionsOf] at hbody
  cases hcall : t.calls[id]? with
  | none =>
      rw [(actionsOf_of_unmade h hcall).2] at hbody
      cases hbody
  | some call =>
      obtain ⟨old, new, files, hp⟩ := updated_of_publish idle h (phase?_of_getElem? hcall) hpub
      have hcourse := (course_of_run idle h hcall).1
      rw [hp] at hcourse
      obtain ⟨own, later, snapshot, hown, hcleared⟩ := hcourse.of_updated
      obtain ⟨waits, refs, body', tree, hwaits, rfl, -, htree, -⟩ := hcleared.of_cleared
      rw [hown] at hbody
      simp only [List.mem_append, List.mem_cons, List.not_mem_nil, or_false, false_or,
        reduceCtorEq, Action.fetched.injEq, Except.ok.injEq] at hbody
      rcases hbody with hwait | rfl
      · rcases hwaits _ hwait with hlook | hacquire
        · cases hlook
        · cases hacquire
      · exact ⟨tree, htree⟩

/-- How a call stands that can only fail, with a fault that is known: it will fail
with it as soon as its extraction is over, or it has. -/
inductive Failing (c : Settings) (t : System) (history : List Event) (id : Nat)
    (fault : UpdateFault) : Prop where
  | underWay {t' : System} (h : t.step? c (.act id (.extracted none)) = some t')
      (result : t'.result? id = some (.error fault)) (kept : t'.published = t.published)
  | dropped (h : t.phase? id = some .dropped)
  | failed (h : t.result? id = some (.error fault))
  /-- The thread that extracts has broken down before. -/
  | crashed {why : String} (h : .act id (.crashed why) ∈ history)

theorem failing_of_fate {history : List Event} {fault : Fault}
    (hcall : t.calls[id]? = some call)
    (hfault : Archive.extract c.filter body = .error fault)
    (hfate : Fate c body (actionsOf id history) call.phase) :
    Failing c t history id ⟨stageOf fault, fault⟩ := by
  have hphase := phase?_of_getElem? hcall
  generalize hp : call.phase = p at hphase hfate
  cases hfate with
  | extracting latest =>
      have hstep : t.step? c (.act id (.extracted none)) =
          some (t.advance id call (.returned (.error ⟨stageOf fault, fault⟩)) .failure) := by
        simp [step?, act?, hcall, hp, Phase.next?, Archive.Feed.cutAt, hfault, Phase.extracted,
          Phase.breakOff, Phase.fail]
      exact .underWay hstep (result?_eq_some.2 (phase?_advance_self hcall)) rfl
  | dropped => exact .dropped hphase
  | failed h =>
      rw [hfault] at h
      cases h
      exact .failed (result?_eq_some.2 hphase)
  | crashed h => exact .crashed (mem_actionsOf.1 h)
  | extracted h =>
      rw [hfault] at h
      cases h

theorem stageOf_ofContents {fault : Fault} (h : Archive.OfContents fault) :
    stageOf fault = .extracting := by
  cases h <;> rfl

theorem ofContents_of_fate {own : List Action} {fault : UpdateFault}
    (hno : ∀ cause, body.failure? ≠ some (.abort cause))
    (hfate : Fate c body own (.returned (.error fault))) :
    fault.stage = .extracting ∧ Archive.OfContents fault.fault ∨ fault.stage = .indexing := by
  cases hfate with
  | failed h =>
      rcases Archive.extract_blames h with ⟨cause, habort, -⟩ | hcontents
      · exact absurd habort (hno cause)
      · exact .inl ⟨stageOf_ofContents hcontents, hcontents⟩
  | crashed => exact .inl ⟨rfl, .damaged _⟩
  | extracted _ hp => exact .inr hp

/-- A call whose body breaks off where the reads of the extraction reach, with an
abort or any other error: it publishes nothing, and unless it runs out of time or
is cancelled, the cause is what it reports. And a call whose body is not aborted
never reports an abort: it fails because of what is in the archive, or later. -/
theorem abort_reported {history : List Event} (idle : s.Idle) (h : s.run? c history = some t)
    (hcall : t.calls[id]? = some call) (hbody : .act id (.fetched (.ok body)) ∈ history) :
    (∀ before e after, body = before ++ .failure e :: after →
      Archive.Reached c.filter before →
      (∀ now, .act id (.publish now) ∉ history) ∧
      (.act id .timedOut ∉ history → t.isCancelled call.token = false →
        Failing c t history id (report e))) ∧
    ((∀ cause, body.failure? ≠ some (.abort cause)) →
      .act id .timedOut ∉ history → t.isCancelled call.token = false →
      ∀ fault, t.result? id = some (.error fault) →
        fault.stage = .extracting ∧ Archive.OfContents fault.fault ∨
        fault.stage = .indexing) := by
  refine ⟨fun before e after hsplit hreached => ?_, fun hno htime hcancel fault hresult => ?_⟩
  · have hfault : Archive.extract c.filter body = .error e.fault := by
      rw [hsplit]
      exact hreached.extract_eq e after
    refine ⟨fun now hpub => ?_, fun htime hcancel => ?_⟩
    · obtain ⟨tree, htree⟩ := extract_of_publish idle h hbody hpub
      rw [hfault] at htree
      cases htree
    · rw [report_eq]
      exact failing_of_fate hcall hfault (fate_of_run idle h hcall hbody htime hcancel)
  · have hfate := fate_of_run idle h hcall hbody htime hcancel
    rw [result?_eq_some, phase?_of_getElem? hcall, Option.some_inj] at hresult
    exact ofContents_of_fate hno (hresult ▸ hfate)

/-- The beginning of a body: a header, and the first bytes of a stored block. -/
def firstBytes : Archive.Feed :=
  [.data [31, 139, 8, 0, 0, 0, 0, 0, 0, 255], .data [1, 0, 2, 255, 253, 100, 111]]

theorem reached_firstBytes : Archive.Reached .standard firstBytes :=
  ⟨[], [.failure (.abort .cancelled)], by decide +kernel⟩

/-- The connection breaks off behind the first bytes. -/
def brokenBody : Archive.Feed :=
  firstBytes ++ [.failure (.abort (.transport "reset"))]

def reset : List Event :=
  [.call 0, .act 0 .look, .act 0 .acquire, .act 0 (.listed (.ok [("refs/heads/main", "b")])),
    .act 0 (.fetched (.ok brokenBody))]

theorem abort_reported_of_reset :
    ∃ t, (System.start (.ofSnapshot .empty "a")).run? .ofMain reset = some t ∧
      Archive.Reached .standard firstBytes ∧
      (∀ now, .act 0 (.publish now) ∉ reset) ∧
      Failing .ofMain t reset 0 ⟨.downloading, .download none "reset"⟩ := by
  refine ⟨_, rfl, reached_firstBytes, ?_⟩
  have hbody : .act 0 (.fetched (.ok brokenBody)) ∈ reset := by simp [reset]
  obtain ⟨hpublish, hfailing⟩ := (@abort_reported .ofMain (.start (.ofSnapshot .empty "a"))
    _ 0 _ _ reset (idle_start _) rfl rfl hbody).1 firstBytes _ [] rfl reached_firstBytes
  exact ⟨hpublish, hfailing (by simp [reset]) rfl⟩

end System
end DocWatch.Update
