import DocWatch.Metrics.Histogram
import DocWatch.Table
import DocWatch.Time.Span
import DocWatch.Update.System
import DocWatch.Version

/-!
# What the program measures of itself

The calls of every tool are timed, and those that fail are counted. Together
with the meters of the updates and the version they are written in the text
form that the time-series database collects: families by name, and in each
family the series by label.
-/

namespace DocWatch.Metrics

/-- What is measured of tools, by name. A tool has a row in a table from its
first call, or its first failure, on. -/
structure Calls where
  durations : Table Histogram
  failures : Table Nat
  deriving Repr

/-- No call yet. -/
def Calls.none : Calls := ⟨[], []⟩

/-- Counts a call. -/
def Calls.observe (c : Calls) (tool : String) (elapsed : Time.Span) (failed : Bool) : Calls where
  durations :=
    c.durations.alter (fun h => (h.getD .empty).observe elapsed.toSeconds) tool
  failures := if failed then c.failures.alter (fun n => n.getD 0 + 1) tool else c.failures

/-- The number of calls of a tool. -/
def Calls.total (c : Calls) (tool : String) : Nat :=
  ((c.durations.get? tool).map Histogram.total).getD 0

/-- The number of failed calls of a tool. -/
def Calls.failed (c : Calls) (tool : String) : Nat :=
  (c.failures.get? tool).getD 0

/-- A label with its value. -/
abbrev Label := String × String

/-- One sample: what stands behind the name of its family, its labels and its
value. -/
structure Sample where
  ending : String
  labels : List Label
  value : Binary64

/-- The samples of one name. -/
structure Family where
  name : String
  help : String
  kind : String
  samples : List Sample

/-- A character of a label as it is written. -/
def labelChar (c : Char) : List Char :=
  if c = '\\' then ['\\', '\\']
  else if c = '"' then ['\\', '"']
  else if c = '\n' then ['\\', 'n']
  else [c]

/-- A label as it is written. -/
def labelText (l : Label) : List Char :=
  l.1.toList ++ '=' :: '"' :: l.2.toList.flatMap labelChar ++ ['"']

/-- The labels of a sample as they are written. -/
def labelsText : List Label → List Char
  | [] => []
  | ls => '\x7b' :: [','].intercalate (ls.map labelText) ++ ['\x7d']

/-- A sample of a family as a line. -/
def Sample.line (name : String) (s : Sample) : List Char :=
  name.toList ++ s.ending.toList ++ labelsText s.labels ++ ' ' :: s.value.plain.toList ++
    ['\n']

/-- A family as lines; nothing if it has no samples. -/
def Family.lines (f : Family) : List Char :=
  if f.samples.isEmpty then []
  else
    ("# HELP " ++ f.name ++ " " ++ f.help ++
        "\n# TYPE " ++ f.name ++ " " ++ f.kind ++ "\n").toList ++
      f.samples.flatMap (Sample.line f.name)

/-- The samples of a histogram. -/
def histogramSamples (labels : List Label) (h : Histogram) : List Sample :=
  (h.buckets.map fun (bound, n) =>
    ⟨"_bucket", labels ++ [("le", bound.plain)], .ofNat n⟩) ++
  [⟨"_bucket", labels ++ [("le", "+Inf")], .ofNat h.total⟩,
   ⟨"_sum", labels, h.sum⟩,
   ⟨"_count", labels, .ofNat h.total⟩]

/-- All families in the order of their names. -/
def families (updates : Update.Meters) (calls : Calls) : List Family :=
  [{ name := "prom_mcp_build_info"
     help := "Build information, value is always 1."
     kind := "gauge"
     samples := [⟨"", [("version", version)], .ofNat 1⟩] },
   { name := "prom_mcp_docs_last_update_timestamp_seconds"
     help := "Unix timestamp of the last successful documentation update."
     kind := "gauge"
     samples := [⟨"", [], updates.lastUpdate⟩] },
   { name := "prom_mcp_docs_update_failures_total"
     help := "Total number of failed documentation update attempts."
     kind := "counter"
     samples := [⟨"", [], .ofNat updates.failures⟩] },
   { name := "prom_mcp_tool_call_duration_seconds"
     help := "Duration of MCP tool calls in seconds."
     kind := "histogram"
     samples := calls.durations.flatMap fun (tool, h) => histogramSamples [("tool_name", tool)] h },
   { name := "prom_mcp_tool_calls_failed_total"
     help := "Total number of failed tool calls."
     kind := "counter"
     samples := calls.failures.map fun (tool, n) => ⟨"", [("tool_name", tool)], .ofNat n⟩ }]

/-- Everything that is measured, as text. -/
def render (updates : Update.Meters) (calls : Calls) : String :=
  String.ofList ((families updates calls).flatMap Family.lines)

end DocWatch.Metrics
