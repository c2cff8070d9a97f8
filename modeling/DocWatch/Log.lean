import DocWatch.Config.Level
import DocWatch.Update.Scenario

/-!
# The log

What happens is written down in records, each with a level and the part of the
program that it comes from. A log keeps the records of its level and of all
graver ones, in the order in which they were made.
-/

namespace DocWatch.Log

/-- A record. -/
structure Record where
  level : Config.Level
  source : String
  text : String
  deriving DecidableEq, Repr

/-- The word for a level at the front of a record. -/
def Record.levelWord (r : Record) : String :=
  r.level.word.map Char.toUpper

/-- A record as a line. -/
def Record.line (r : Record) : String :=
  r.levelWord ++ " " ++ r.source ++ ": " ++ r.text

/-- The records that a log of a level keeps. -/
def kept (level : Config.Level) (records : List Record) : List Record :=
  records.filter fun r => level.keeps r.level

/-- What keeps a log from being written to a file: a path that names none. -/
def fileFault? (path : String) : Option String :=
  let name := (path.toList.reverse.takeWhile (· ≠ '/')).reverse
  if name = [] ∨ name = ['.'] ∨ name = ['.', '.'] then some ("Failed to open log file: " ++ path)
  else none

/-- The log itself is ready. -/
def ready : Record :=
  ⟨.debug, "prometheus_mcp::logging", "logging initialized"⟩

/-- What is said of the documents that come with the program. -/
def baseline : Except Fault Published → Record
  | .ok _ => ⟨.info, "prometheus_mcp::baseline", "loaded embedded docs baseline"⟩
  | .error _ => ⟨.error, "prometheus_mcp::baseline", "failed to load embedded docs baseline"⟩

/-- Where the records of updates come from. -/
def updates : String := "prometheus_mcp::updater"

/-- What is said of the result of a turn. -/
def result : Update.Result → List Record
  | .ok (.upToDate _) => []
  | .ok (.updated ..) => [⟨.info, updates, "docs updated"⟩]
  | .error fault =>
      if fault.isCancelled then [⟨.info, updates, "docs update cancelled"⟩]
      else [⟨.warn, updates, "docs update failed"⟩]

/-- What is said of the turns that calls took between two moments. -/
def between (before after : Update.Scenario) : List Record :=
  let fetches := after.remote.fetches.length - before.remote.fetches.length
  let returned := (after.system.calls.drop before.system.calls.length).filterMap fun
    | ⟨_, .returned r⟩ => some r
    | _ => none
  List.replicate fetches ⟨.info, updates, "docs update available"⟩ ++ returned.flatMap result

end DocWatch.Log
