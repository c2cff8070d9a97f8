import DocWatch.Tool.Basic

/-!
# The tools for the time-series database

Three tools put questions to the database: an expression at one instant, an
expression over a range, and the names of all metrics. A range without a step
gets one that divides it into about 250 pieces, in whole seconds.
-/

namespace DocWatch.Tool

open Time

/-- What becomes of a question that cannot be put, or can. -/
def planOf : Except ToolFault Series.Question → Plan
  | .ok question => .ask question
  | .error (.step .overflow) => .crash
  | .error fault => .fail fault

/-- A point of time among the parameters. -/
def instant? (params : Json) (key : String) : Except ToolFault (Option Instant) :=
  match text? params key with
  | none => .ok none
  | some s => ((Instant.parse s).map some).mapError .timestamp

/-- Evaluates an expression at one instant, now unless it is told otherwise. -/
def instantQuestion (params : Json) (now : Instant) : Except ToolFault Series.Question := do
  let expr ← requiredText params "query"
  let time ← instant? params "time"
  return .instant expr (time.getD now)

/-- The tool for one instant. -/
def query : Tool where
  name := "query"
  description := "Execute an instant PromQL query"
  readOnly := true
  schema :=
    objectSchema
      [("query", property "string" "PromQL expression" []),
       ("time", property "string" "Evaluation time (Unix seconds or RFC 3339), defaults to now" [])]
      ["query"]
  plan params _ now := planOf (instantQuestion params now)

/-- How many seconds before its end a range starts unless it is told otherwise. -/
def defaultRange : Nat := 300

/-- About how many pieces a range is divided into. -/
def rangePieces : Nat := 250

/-- The whole seconds of the step that a range of some milliseconds gets by
itself, at least one. Each division is rounded as the arithmetic at hand does. -/
def stepSeconds (round : Binary64.Ratio → Binary64.Ratio) (millis : Nat) : Nat :=
  let seconds := round ((round (.ofNat millis)).dividedBy 1000)
  max 1 (round (seconds.dividedBy rangePieces)).floor

/-- The step that a range gets by itself. -/
def defaultStep (first last : Instant) : Span :=
  ⟨stepSeconds Binary64.rounded (last.millisSince first).toNat, 0⟩

/-- A range as far as it can be determined from the parameters. -/
structure RangeBounds where
  first : Instant
  last : Instant
  deriving DecidableEq, Repr

/-- The bounds of a range: it ends now and lasts five minutes unless it is told
otherwise. There are none if it would start before the beginning of time. -/
def rangeBounds (params : Json) (now : Instant) : Except ToolFault (Option RangeBounds) := do
  let last := (← instant? params "end").getD now
  match ← instant? params "start" with
  | some first => return some ⟨first, last⟩
  | none => return (last.before? defaultRange).map fun first => ⟨first, last⟩

/-- The step of a range. -/
def rangeStep (params : Json) (bounds : RangeBounds) : Except ToolFault Span :=
  match text? params "step" with
  | none => .ok (defaultStep bounds.first bounds.last)
  | some s => (Span.parse s).mapError .step

/-- What a call over a range comes to. -/
def rangePlan (params : Json) (now : Instant) : Plan :=
  match (do
      let expr ← requiredText params "query"
      return (expr, ← rangeBounds params now) : Except ToolFault (String × Option RangeBounds)) with
  | .error fault => .fail fault
  | .ok (_, none) => .crash
  | .ok (expr, some bounds) =>
      if bounds.last.before bounds.first then .fail .backwards
      else
        planOf ((rangeStep params bounds).map fun step =>
          .range expr bounds.first bounds.last step)

/-- The tool for a range. -/
def rangeQuery : Tool where
  name := "range_query"
  description := "Execute a PromQL query over a time range"
  readOnly := true
  schema :=
    objectSchema
      [("query", property "string" "PromQL expression" []),
       ("start", property "string"
         "Range start (Unix seconds or RFC 3339), defaults to end - 5m" []),
       ("end", property "string" "Range end (Unix seconds or RFC 3339), defaults to now" []),
       ("step", property "string" "Resolution, e.g. 15s or 1m; defaults to about 250 points" [])]
      ["query"]
  plan params _ now := rangePlan params now

/-- The label that holds the name of a metric. -/
def nameLabel : String := "__name__"

/-- Lists the names of all metrics. -/
def listMetrics : Tool where
  name := "list_metrics"
  description := "List all metric names known to the Prometheus server"
  readOnly := true
  schema := objectSchema [] []
  plan _ _ _ := .ask (.labelValues nameLabel)

end DocWatch.Tool
