import DocWatch.Metrics.Basic
import DocWatch.Tool.Registry
import DocWatch.Update.Scenario

/-!
# The service behind all surfaces

Clients reach the same tools and the same documents on several ways. Whatever
the way, a call goes through one place, where it is carried out and measured:
a call that comes to a value or a fault is counted once, under the name of its
tool, and a call without an end is not counted at all.
-/

namespace DocWatch

/-- How a call ends. -/
inductive CallOutcome where
  | value (v : Json)
  | fault (f : ToolFault)
  /-- The call ends without any result. -/
  | crashed

/-- Whether a call failed. -/
def CallOutcome.isFault : CallOutcome → Bool
  | .fault _ => true
  | _ => false

/-- Everything that calls share. -/
structure Service where
  tools : Registry
  /-- Whether clients may ask for updates of the documents. -/
  updatesEnabled : Bool
  updates : Update.Scenario
  database : Series.Database
  transport : Net.Transport
  calls : Metrics.Calls

namespace Service

/-- What readers see of the documents. -/
def published (s : Service) : Published :=
  s.updates.system.published

/-- The outcome of an update as a value. -/
def outcomeJson : Update.Outcome → Json
  | .upToDate commit => .ofMembers [("status", .string "up_to_date"), ("commit", .string commit)]
  | .updated oldCommit newCommit files =>
      .ofMembers
        [("status", .string "updated"), ("old_commit", .string oldCommit),
         ("new_commit", .string newCommit), ("files", .ofNat files)]

/-- Updates the documents on behalf of a call. -/
def refresh (s : Service) : CallOutcome × Service :=
  if s.updatesEnabled then
    let (result, updates) := s.updates.update
    (match result with
      | some (.ok outcome) => .value (outcomeJson outcome)
      | some (.error fault) => .fault (.update fault)
      | none => .crashed,
      { s with updates })
  else (.fault .updatesDisabled, s)

/-- Puts a question on behalf of a call. -/
def ask (s : Service) (question : Series.Question) : CallOutcome :=
  match s.database.ask s.transport question with
  | .ok reply => .value reply.toJson
  | .error fault => .fault (.query fault)

/-- Carries out a plan. -/
def perform (s : Service) : Plan → CallOutcome × Service
  | .result v => (.value v, s)
  | .fail fault => (.fault fault, s)
  | .crash => (.crashed, s)
  | .refresh => s.refresh
  | .ask question => (s.ask question, s)

/-- Counts a call that has come to an end. -/
def observe (s : Service) (tool : String) (elapsed : Time.Span) : CallOutcome → Service
  | .crashed => s
  | outcome => { s with calls := s.calls.observe tool elapsed outcome.isFault }

/-- Calls a tool, which takes some time. -/
def call (s : Service) (tool : Tool) (params : Json) (elapsed : Time.Span) :
    CallOutcome × Service :=
  let (outcome, after) := s.perform (tool.plan params s.published s.updates.clock)
  (outcome, after.observe tool.name elapsed outcome)

/-- Everything that is measured, as text. -/
def metricsText (s : Service) : String :=
  Metrics.render s.updates.system.meters s.calls

end Service

end DocWatch
