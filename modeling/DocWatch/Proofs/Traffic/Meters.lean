import DocWatch.Proofs.History
import DocWatch.Proofs.Service
import DocWatch.Proofs.Table
import DocWatch.Proofs.Traffic.Requests

/-!
# The meters of the tools

Any number of requests are under way at one time. Each comes to a call or to none, a call may
end at any time later with any outcome, and meanwhile the documents are updated. A call is
counted when it ends, in the same event, so that the meters keep up with the requests. The
invariant `Sound` says how: a tool has a row from its first call on, with the number of its
calls that have come to a value or a fault, and another row with the number of the faults.
A call without any result is never counted.

The rows are found by the names of the tools of the registry, whatever the names in requests
are. So no request can bring about a series with a label of its own.
-/

namespace DocWatch

/-- Whether a call came to a value or a fault. -/
def CallOutcome.isResult : CallOutcome → Bool
  | .crashed => false
  | _ => true

theorem CallOutcome.isResult_of_isFault {outcome : CallOutcome} (h : outcome.isFault = true) :
    outcome.isResult = true := by
  cases outcome with
  | fault f => rfl
  | value | crashed => cases h

theorem Service.observe_eq (s : Service) (tool : String) (elapsed : Time.Span)
    (outcome : CallOutcome) :
    s.observe tool elapsed outcome =
      if outcome.isResult then { s with calls := s.calls.observe tool elapsed outcome.isFault }
      else s := by
  cases outcome <;> rfl

namespace Metrics

variable {updates : Update.Meters} {calls : Calls} {name tool : String} {elapsed : Time.Span}
  {failed : Bool} {sample : Sample} {v : Binary64}

/-! ## What one call adds -/

theorem total_observe (h : calls.durations.Ascending) :
    ((calls.observe tool elapsed failed).durations.get? name).map Histogram.total =
      if name = tool then some (calls.total tool + 1)
      else (calls.durations.get? name).map Histogram.total := by
  rw [Calls.observe, h.get?_alter]
  split
  · rw [Option.map_some, Calls.total]
    cases calls.durations.get? tool <;> rfl
  · rfl

theorem failed_observe (h : calls.failures.Ascending) :
    (calls.observe tool elapsed failed).failures.get? name =
      if failed ∧ name = tool then some (calls.failed tool + 1) else calls.failures.get? name := by
  rw [Calls.observe]
  cases failed with
  | false => simp
  | true => simp [h.get?_alter, Calls.failed]

theorem ascending_observe (hdurations : calls.durations.Ascending)
    (hfailures : calls.failures.Ascending) :
    (calls.observe tool elapsed failed).durations.Ascending ∧
      (calls.observe tool elapsed failed).failures.Ascending := by
  refine ⟨hdurations.alter, ?_⟩
  rw [Calls.observe]
  cases failed with
  | false => exact hfailures
  | true => exact hfailures.alter

/-! ## What is exported -/

/-- The name of the family with the durations of calls. -/
def durationFamily : String := "prom_mcp_tool_call_duration_seconds"

/-- The name of the family with the failures of calls. -/
def failureFamily : String := "prom_mcp_tool_calls_failed_total"

/-- The label of a tool. -/
def toolLabel (tool : String) : Label := ("tool_name", tool)

/-- A sample is exported in the family of a name. -/
def Exports (updates : Update.Meters) (calls : Calls) (family : String) (sample : Sample) : Prop :=
  ∃ f ∈ families updates calls, f.name = family ∧ sample ∈ f.samples

theorem exports_durations_iff :
    Exports updates calls durationFamily sample ↔
      ∃ row ∈ calls.durations, sample ∈ histogramSamples [toolLabel row.1] row.2 := by
  simp [Exports, families, durationFamily, toolLabel]

theorem exports_failures_iff :
    Exports updates calls failureFamily sample ↔
      ∃ row ∈ calls.failures, sample = ⟨"", [toolLabel row.1], .ofNat row.2⟩ := by
  simp [Exports, families, failureFamily, toolLabel, eq_comm]

theorem count_mem_iff {row : String × Histogram} :
    ⟨"_count", [toolLabel tool], v⟩ ∈ histogramSamples [toolLabel row.1] row.2 ↔
      row.1 = tool ∧ v = .ofNat row.2.total := by
  simp [histogramSamples, toolLabel, eq_comm]

theorem exports_count_iff (h : calls.durations.Ascending) :
    Exports updates calls durationFamily ⟨"_count", [toolLabel tool], v⟩ ↔
      ∃ n, (calls.durations.get? tool).map Histogram.total = some n ∧ v = .ofNat n := by
  simp only [exports_durations_iff, count_mem_iff, Option.map_eq_some_iff, h.get?_eq_some_iff]
  constructor
  · rintro ⟨⟨_, found⟩, hrow, rfl, rfl⟩
    exact ⟨_, ⟨found, hrow, rfl⟩, rfl⟩
  · rintro ⟨_, ⟨found, hrow, rfl⟩, rfl⟩
    exact ⟨_, hrow, rfl, rfl⟩

theorem exports_failed_iff (h : calls.failures.Ascending) :
    Exports updates calls failureFamily ⟨"", [toolLabel tool], v⟩ ↔
      ∃ n, calls.failures.get? tool = some n ∧ v = .ofNat n := by
  simp only [exports_failures_iff, h.get?_eq_some_iff]
  constructor
  · rintro ⟨⟨_, n⟩, hrow, heq⟩
    cases heq
    exact ⟨n, hrow, rfl⟩
  · rintro ⟨n, hrow, rfl⟩
    exact ⟨_, hrow, rfl⟩

theorem get?_ne_none_of_mem {α : Type} {t : Table α} {row : String × α} (h : row ∈ t) :
    t.get? row.1 ≠ none :=
  fun hnone => Table.get?_eq_none_iff.1 hnone (Table.mem_keys_of_mem h)

/-- Beside the labels of a histogram its samples have only the bound of a range. -/
theorem label_of_histogramSamples {labels : List Label} {label : Label} {h : Histogram}
    (hsample : sample ∈ histogramSamples labels h) (hlabel : label ∈ sample.labels) :
    label ∈ labels ∨ label.1 = "le" := by
  have hbound : ∀ bound : String, label ∈ labels ++ [("le", bound)] →
      label ∈ labels ∨ label.1 = "le" := by
    intro bound hmem
    rcases List.mem_append.1 hmem with hmem | hmem
    · exact .inl hmem
    · exact .inr (congrArg Prod.fst (List.mem_singleton.1 hmem))
  rw [histogramSamples, List.mem_append, List.mem_map] at hsample
  rcases hsample with ⟨bucket, -, rfl⟩ | hsample
  · exact hbound _ hlabel
  · simp only [List.mem_cons, List.not_mem_nil, or_false] at hsample
    rcases hsample with rfl | rfl | rfl
    · exact hbound _ hlabel
    · exact .inl hlabel
    · exact .inl hlabel

theorem toolLabel_injective (h : toolLabel tool = toolLabel name) : tool = name :=
  congrArg Prod.snd h

theorem row_of_label {f : Family} (hf : f ∈ families updates calls) (hsample : sample ∈ f.samples)
    (hlabel : toolLabel tool ∈ sample.labels) :
    calls.durations.get? tool ≠ none ∨ calls.failures.get? tool ≠ none := by
  simp only [families, List.mem_cons, List.not_mem_nil, or_false] at hf
  rcases hf with rfl | rfl | rfl | rfl | rfl
  · obtain rfl := List.mem_singleton.1 hsample
    have hkey : "tool_name" = "version" := congrArg Prod.fst (List.mem_singleton.1 hlabel)
    exact absurd hkey (by decide)
  · obtain rfl := List.mem_singleton.1 hsample
    cases hlabel
  · obtain rfl := List.mem_singleton.1 hsample
    cases hlabel
  · obtain ⟨row, hrow, hsample⟩ := List.mem_flatMap.1 hsample
    rcases label_of_histogramSamples hsample hlabel with hlabel | hbound
    · rw [toolLabel_injective (List.mem_singleton.1 hlabel)]
      exact .inl (get?_ne_none_of_mem hrow)
    · exact absurd (show "tool_name" = "le" from hbound) (by decide)
  · obtain ⟨row, hrow, rfl⟩ := List.mem_map.1 hsample
    rw [toolLabel_injective (List.mem_singleton.1 hlabel)]
    exact .inr (get?_ne_none_of_mem hrow)

end Metrics

/-! ## Requests under way -/

namespace Traffic

structure Request where
  arrival : Arrival
  /-- How the call ended that the request came to, if it has ended. -/
  outcome : Option CallOutcome

namespace Request

/-- Whether a request came to a call of a tool. -/
def reached (r : Request) : Bool :=
  (r.arrival.opened? .standard).isSome

/-- Whether a request names a tool, came to a call and has a result of it. -/
def finished (name : String) (r : Request) : Bool :=
  r.arrival.named? = some name && r.reached && r.outcome.any CallOutcome.isResult

/-- Whether a request names a tool, came to a call and has a fault for its result. -/
def failed (name : String) (r : Request) : Bool :=
  r.arrival.named? = some name && r.reached && r.outcome.any CallOutcome.isFault

end Request

/-- A service and the requests that have arrived so far. -/
structure World where
  service : Service
  requests : List Request

/-- What may happen. -/
inductive Event where
  | arrive (a : Arrival)
  /-- The call ends that a request has come to. -/
  | finish (request : Nat) (outcome : CallOutcome) (elapsed : Time.Span)
  /-- Something happens to the documents, the clock or the network. -/
  | elsewhere (updates : Update.Scenario) (transport : Net.Transport)

namespace World

def start (s : Service) : World :=
  ⟨s, []⟩

/-- The state after an event, if the event can happen. -/
def step? (w : World) : Event → Option World
  | .arrive a => some { w with requests := w.requests ++ [⟨a, none⟩] }
  | .finish k outcome elapsed =>
      w.requests[k]?.bind fun r =>
        match r.outcome, r.arrival.opened? w.service.tools with
        | none, some (tool, _) =>
            some ⟨w.service.observe tool.name elapsed outcome,
              w.requests.set k ⟨r.arrival, some outcome⟩⟩
        | _, _ => none
  | .elsewhere updates transport => some { w with service := { w.service with updates, transport } }

/-- The state after a history, if the history can happen. -/
def run? (w : World) (history : List Event) : Option World :=
  history.foldlM step? w

/-- The number of requests naming a tool that came to a call which has a result. -/
def finished (w : World) (name : String) : Nat :=
  w.requests.countP (Request.finished name)

/-- The number of requests naming a tool that came to a call which has a fault for its result. -/
def failed (w : World) (name : String) : Nat :=
  w.requests.countP (Request.failed name)

variable {s : Service} {u w : World} {e : Event} {history : List Event}

/-- What an event makes of the world. -/
inductive Step (w : World) : Event → World → Prop where
  | arrive (a : Arrival) : Step w (.arrive a) { w with requests := w.requests ++ [⟨a, none⟩] }
  | finish {k : Nat} {a : Arrival} {tool : Tool} {params : Json} (outcome : CallOutcome)
      (elapsed : Time.Span) (ha : w.requests[k]? = some ⟨a, none⟩)
      (hcall : a.opened? w.service.tools = some (tool, params)) :
      Step w (.finish k outcome elapsed)
        ⟨w.service.observe tool.name elapsed outcome, w.requests.set k ⟨a, some outcome⟩⟩
  | elsewhere (updates : Update.Scenario) (transport : Net.Transport) :
      Step w (.elsewhere updates transport)
        { w with service := { w.service with updates, transport } }

theorem step_of_step? (h : u.step? e = some w) : Step u e w := by
  cases e with
  | arrive a =>
      cases h
      exact .arrive a
  | elsewhere updates transport =>
      cases h
      exact .elsewhere updates transport
  | finish k outcome elapsed =>
      obtain ⟨⟨a, open?⟩, hr, h⟩ := Option.bind_eq_some_iff.1 h
      dsimp only at h
      split at h
      · rename_i tool params hcall
        cases h
        exact .finish outcome elapsed hr hcall
      · cases h

/-! ## The meters keep up -/

/-- A count as a row of a table has it: there is no row before there is something to count. -/
def row? (n : Nat) : Option Nat :=
  if n = 0 then none else some n

/-- What is measured is what has happened. -/
structure Sound (w : World) : Prop where
  tools : w.service.tools = .standard
  durations : w.service.calls.durations.Ascending
  failures : w.service.calls.failures.Ascending
  finished : ∀ name,
    (w.service.calls.durations.get? name).map Metrics.Histogram.total = row? (w.finished name)
  failed : ∀ name, w.service.calls.failures.get? name = row? (w.failed name)

theorem sound_start (htools : s.tools = .standard) (hcalls : s.calls = .none) :
    (start s).Sound where
  tools := htools
  durations := by
    rw [start, hcalls]
    exact Table.ascending_nil
  failures := by
    rw [start, hcalls]
    exact Table.ascending_nil
  finished name := by
    rw [start, hcalls]
    rfl
  failed name := by
    rw [start, hcalls]
    rfl

theorem not_counted (name : String) (a : Arrival) :
    Request.finished name ⟨a, none⟩ = false ∧ Request.failed name ⟨a, none⟩ = false :=
  ⟨Bool.and_false _, Bool.and_false _⟩

theorem countP_set {p : Request → Bool} {requests : List Request} {k : Nat} {r r' : Request}
    (hr : requests[k]? = some r) (hno : p r = false) :
    (requests.set k r').countP p = requests.countP p + if p r' = true then 1 else 0 := by
  obtain ⟨hlt, rfl⟩ := List.getElem?_eq_some_iff.1 hr
  rw [List.countP_set hlt, hno, if_neg Bool.false_ne_true, Nat.sub_zero]

theorem counted {a : Arrival} {tool : Tool} {params : Json} {outcome : CallOutcome}
    (hcall : a.opened? .standard = some (tool, params)) (name : String) :
    Request.finished name ⟨a, some outcome⟩ = (decide (name = tool.name) && outcome.isResult) ∧
    Request.failed name ⟨a, some outcome⟩ = (decide (name = tool.name) && outcome.isFault) := by
  obtain ⟨hname, -⟩ := Arrival.named?_of_opened? hcall
  have hreached : Request.reached ⟨a, some outcome⟩ = true := by
    rw [Request.reached, hcall]
    rfl
  have hnames : decide (a.named? = some name) = decide (name = tool.name) := by
    rw [hname, decide_eq_decide, Option.some.injEq, eq_comm]
  constructor
  · rw [Request.finished, hreached, hnames, Bool.and_true, Option.any_some]
  · rw [Request.failed, hreached, hnames, Bool.and_true, Option.any_some]

theorem finished_set {a : Arrival} {k : Nat} {tool : Tool} {params : Json} {outcome : CallOutcome}
    (ha : w.requests[k]? = some ⟨a, none⟩) (hcall : a.opened? .standard = some (tool, params))
    (name : String) :
    (w.requests.set k ⟨a, some outcome⟩).countP (Request.finished name) =
      w.finished name + if name = tool.name ∧ outcome.isResult then 1 else 0 := by
  rw [countP_set ha (not_counted name a).1, (counted hcall name).1]
  simp [World.finished]

theorem failed_set {a : Arrival} {k : Nat} {tool : Tool} {params : Json} {outcome : CallOutcome}
    (ha : w.requests[k]? = some ⟨a, none⟩) (hcall : a.opened? .standard = some (tool, params))
    (name : String) :
    (w.requests.set k ⟨a, some outcome⟩).countP (Request.failed name) =
      w.failed name + if name = tool.name ∧ outcome.isFault then 1 else 0 := by
  rw [countP_set ha (not_counted name a).2, (counted hcall name).2]
  simp [World.failed]

theorem row?_getD (n : Nat) : (row? n).getD 0 = n := by
  rw [row?]
  split
  · rename_i h
    exact h.symm
  · rfl

theorem row?_succ (n : Nat) : row? (n + 1) = some (n + 1) :=
  if_neg (Nat.succ_ne_zero n)

theorem Step.sound (h : Step u e w) (hsound : u.Sound) : w.Sound := by
  cases h with
  | elsewhere updates transport =>
      exact ⟨hsound.tools, hsound.durations, hsound.failures, hsound.finished, hsound.failed⟩
  | arrive a =>
      refine ⟨hsound.tools, hsound.durations, hsound.failures, fun name => ?_, fun name => ?_⟩
      · rw [hsound.finished, World.finished, World.finished, List.countP_append,
          List.countP_singleton, (not_counted name a).1]
        rfl
      · rw [hsound.failed, World.failed, World.failed, List.countP_append,
          List.countP_singleton, (not_counted name a).2]
        rfl
  | @finish k a tool params outcome elapsed ha hcall =>
      rw [hsound.tools] at hcall
      rw [Service.observe_eq]
      split
      · -- the rows of the tool change together with the counts of its name, and no others
        rename_i hresult
        obtain ⟨hdurations, hfailures⟩ := Metrics.ascending_observe hsound.durations hsound.failures
        refine ⟨hsound.tools, hdurations, hfailures, fun name => ?_, fun name => ?_⟩
        · rw [World.finished, finished_set ha hcall, Metrics.total_observe hsound.durations,
            Metrics.Calls.total, hsound.finished, hsound.finished, row?_getD]
          by_cases hname : name = tool.name
          · rw [if_pos hname, if_pos ⟨hname, hresult⟩, row?_succ, hname]
          · rw [if_neg hname, if_neg fun h => hname h.1, Nat.add_zero]
        · rw [World.failed, failed_set ha hcall, Metrics.failed_observe hsound.failures,
            Metrics.Calls.failed, hsound.failed, hsound.failed, row?_getD]
          by_cases hfault : outcome.isFault = true ∧ name = tool.name
          · rw [if_pos hfault, if_pos hfault.symm, row?_succ, hfault.2]
          · rw [if_neg hfault, if_neg fun h => hfault h.symm, Nat.add_zero]
      · rename_i hno
        have hnofault : ¬ outcome.isFault = true := fun h => hno (CallOutcome.isResult_of_isFault h)
        refine ⟨hsound.tools, hsound.durations, hsound.failures, fun name => ?_, fun name => ?_⟩
        · rw [World.finished, finished_set ha hcall, hsound.finished, if_neg fun h => hno h.2,
            Nat.add_zero]
        · rw [World.failed, failed_set ha hcall, hsound.failed, if_neg fun h => hnofault h.2,
            Nat.add_zero]

theorem sound_of_run (htools : s.tools = .standard) (hcalls : s.calls = .none)
    (h : (start s).run? history = some w) : w.Sound :=
  foldlM_induction (sound_start htools hcalls)
    (fun hstep hsound => (step_of_step? hstep).sound hsound) h

/-! ## What the meters show -/

/-- What is exported about the tools is what has happened to the requests. -/
structure Exposed (w : World) : Prop where
  /-- A tool has a histogram from its first call with a result on, with the number of these. -/
  finished : ∀ name v, Metrics.Exports w.service.updates.system.meters w.service.calls
      Metrics.durationFamily ⟨"_count", [Metrics.toolLabel name], v⟩ ↔
    w.finished name ≠ 0 ∧ v = .ofNat (w.finished name)
  /-- It has a counter of failures from the first one on. -/
  failed : ∀ name v, Metrics.Exports w.service.updates.system.meters w.service.calls
      Metrics.failureFamily ⟨"", [Metrics.toolLabel name], v⟩ ↔
    w.failed name ≠ 0 ∧ v = .ofNat (w.failed name)
  /-- No family has a series with the name of anything but a tool. -/
  named : ∀ f ∈ Metrics.families w.service.updates.system.meters w.service.calls,
    ∀ sample ∈ f.samples, ∀ name, Metrics.toolLabel name ∈ sample.labels →
      ∃ tool ∈ Registry.standard, tool.name = name

theorem row?_eq_some_iff {n k : Nat} : row? n = some k ↔ n ≠ 0 ∧ k = n := by
  rw [row?]
  split
  · rename_i h
    simp [h]
  · rename_i h
    simp [h, eq_comm]

theorem tool_of_request {r : Request} {name : String} (hname : r.arrival.named? = some name)
    (hreached : r.reached = true) : ∃ tool ∈ Registry.standard, tool.name = name := by
  obtain ⟨⟨tool, params⟩, hcall⟩ := Option.isSome_iff_exists.1 hreached
  obtain ⟨hnamed, hmem⟩ := Arrival.named?_of_opened? hcall
  rw [hname] at hnamed
  exact ⟨tool, hmem, (Option.some.inj hnamed).symm⟩

/-- What is counted is counted for a tool. -/
theorem tool_of_count {name : String} (h : w.finished name ≠ 0 ∨ w.failed name ≠ 0) :
    ∃ tool ∈ Registry.standard, tool.name = name := by
  rcases h with h | h
  · obtain ⟨r, -, hr⟩ := List.countP_pos_iff.1 (Nat.pos_of_ne_zero h)
    simp only [Request.finished, Bool.and_eq_true, decide_eq_true_eq] at hr
    exact tool_of_request hr.1.1 hr.1.2
  · obtain ⟨r, -, hr⟩ := List.countP_pos_iff.1 (Nat.pos_of_ne_zero h)
    simp only [Request.failed, Bool.and_eq_true, decide_eq_true_eq] at hr
    exact tool_of_request hr.1.1 hr.1.2

theorem Sound.exposed (h : w.Sound) : w.Exposed where
  finished name v := by
    rw [Metrics.exports_count_iff h.durations, h.finished]
    simp [row?_eq_some_iff]
  failed name v := by
    rw [Metrics.exports_failed_iff h.failures, h.failed]
    simp [row?_eq_some_iff]
  named f hf sample hsample name hlabel := by
    refine @tool_of_count w name ?_
    rcases Metrics.row_of_label hf hsample hlabel with hrow | hrow
    · refine .inl fun hzero => hrow (Option.map_eq_none_iff.1 ((h.finished name).trans ?_))
      rw [hzero, row?, if_pos rfl]
    · refine .inr fun hzero => hrow ((h.failed name).trans ?_)
      rw [hzero, row?, if_pos rfl]

/-! ## Requests that are handled at one stretch -/

/-- What a plan comes to reaches no further than the documents. -/
theorem perform_eq (s : Service) (plan : Plan) :
    (s.perform plan).2 = { s with updates := (s.perform plan).2.updates } := by
  cases plan with
  | refresh =>
      rw [Service.perform, Service.refresh]
      split <;> rfl
  | result | fail | crash | ask => rfl

theorem step?_finish {k : Nat} {a : Arrival} {tool : Tool} {params : Json} (outcome : CallOutcome)
    (elapsed : Time.Span) (ha : w.requests[k]? = some ⟨a, none⟩)
    (hcall : a.opened? w.service.tools = some (tool, params)) :
    w.step? (.finish k outcome elapsed) =
      some ⟨w.service.observe tool.name elapsed outcome,
        w.requests.set k ⟨a, some outcome⟩⟩ := by
  rw [step?, ha, Option.bind_some, hcall]

/-- To handle a request at one stretch is one of the things that may happen: it arrives, its call
reaches the documents, and its call ends. -/
theorem exists_run_handled (w : World) (a : Arrival) (elapsed : Time.Span) :
    ∃ events, w.run? events =
      some ⟨a.handled w.service elapsed, w.requests ++ [⟨a, a.outcome? w.service elapsed⟩]⟩ := by
  cases hcall : a.opened? w.service.tools with
  | none =>
      refine ⟨[.arrive a], ?_⟩
      rw [Arrival.handled_of_unopened elapsed hcall, Arrival.outcome?, hcall]
      rfl
  | some call =>
      obtain ⟨tool, params⟩ := call
      have hperform := perform_eq w.service
        (tool.plan params w.service.published w.service.updates.clock)
      rw [Arrival.handled_of_opened? elapsed hcall, Arrival.outcome?, hcall, Option.map_some,
        Service.call]
      generalize w.service.perform _ = result at hperform ⊢
      obtain ⟨outcome, after⟩ := result
      refine ⟨[.arrive a, .elsewhere after.updates w.service.transport,
        .finish w.requests.length outcome elapsed], ?_⟩
      have hfinish := @step?_finish
        ⟨{ w.service with updates := after.updates }, w.requests ++ [⟨a, none⟩]⟩ w.requests.length
        a tool params outcome elapsed List.getElem?_concat_length hcall
      change (step? ⟨{ w.service with updates := after.updates }, w.requests ++ [⟨a, none⟩]⟩
        (.finish w.requests.length outcome elapsed)).bind some = _
      dsimp only at hperform
      rw [hfinish, Option.bind_some, ← hperform, List.set_append_right _ _ (le_refl _),
        Nat.sub_self]
      rfl

/-- At every moment the meters of the tools show what has become of the requests so far. A
request that is handled at one stretch is no exception. And one that has the name of no tool, or
a body over HTTP that is neither null nor an object, comes to no call, and when it is handled
nothing changes. -/
theorem meters_show_requests (htools : s.tools = .standard) (hcalls : s.calls = .none)
    (h : (start s).run? history = some w) :
    w.Exposed ∧
    (∀ (a : Arrival) elapsed,
      ∃ events, w.run? events =
        some ⟨a.handled w.service elapsed, w.requests ++ [⟨a, a.outcome? w.service elapsed⟩]⟩) ∧
    ∀ (a : Arrival) elapsed,
      (∃ name, a.named? = some name ∧ ∀ tool ∈ Registry.standard, tool.name ≠ name) ∨ a.Shapeless →
      a.opened? .standard = none ∧ a.handled w.service elapsed = w.service := by
  have hsound := sound_of_run htools hcalls h
  refine ⟨hsound.exposed, exists_run_handled w, fun a elapsed hrefused => ?_⟩
  have hnone : a.opened? .standard = none := by
    rcases hrefused with ⟨name, hname, hunknown⟩ | hshapeless
    · exact Arrival.opened?_of_unknown hname hunknown
    · exact Arrival.opened?_of_shapeless hshapeless
  refine ⟨hnone, Arrival.handled_of_unopened elapsed ?_⟩
  rw [hsound.tools, hnone]

/-- A call of a tool over HTTP, with nothing for its parameters. -/
def listCall (target : String) : Arrival :=
  .http ⟨"POST", target, some "application/json", Text.encode "null".toList⟩

/-- A message that calls a tool. -/
def readCall : Arrival :=
  .message ⟨some (.string "first"), .callTool "docs_read" (.object [])⟩

/-- Two calls overlap, one of which fails; a third request names no tool. -/
def twoCalls : List Event :=
  [.arrive (listCall "/tools/docs_list"), .arrive readCall, .arrive (listCall "/tools/secrets"),
   .finish 1 (.fault (.blank "file")) ⟨0, 1000⟩, .finish 0 (.value .null) ⟨0, 2000⟩]

theorem meters_show_twoCalls :
    ∃ w, (start (.offline [])).run? twoCalls = some w ∧ w.finished "docs_list" = 1 ∧
      Metrics.Exports w.service.updates.system.meters w.service.calls Metrics.failureFamily
        ⟨"", [Metrics.toolLabel "docs_read"], .ofNat 1⟩ ∧
      (listCall "/tools/secrets").handled w.service ⟨1, 0⟩ = w.service := by
  have hcounts : ((start (.offline [])).run? twoCalls).map
      (fun w => (w.finished "docs_list", w.failed "docs_read")) = some (1, 1) := by
    decide +kernel
  obtain ⟨w, hrun, hcounts⟩ := Option.map_eq_some_iff.1 hcounts
  obtain ⟨hlist, hread⟩ := Prod.mk.inj hcounts
  obtain ⟨hexposed, -, hrefused⟩ := meters_show_requests rfl rfl hrun
  have hunknown : (listCall "/tools/secrets").named? = some "secrets" := by decide +kernel
  refine ⟨w, hrun, hlist, ?_, ?_⟩
  · refine (hexposed.failed "docs_read" (.ofNat 1)).2 ⟨?_, ?_⟩ <;> rw [hread]
    exact Nat.one_ne_zero
  · exact (hrefused _ ⟨1, 0⟩ (.inl ⟨_, hunknown, by decide⟩)).2

end World

end Traffic

end DocWatch
