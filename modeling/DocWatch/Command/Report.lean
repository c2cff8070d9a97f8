import DocWatch.Baseline
import DocWatch.Command.Arguments
import DocWatch.Config.Basic
import DocWatch.Json.Printer
import DocWatch.Log
import DocWatch.Remote.Listing
import DocWatch.Series.Reply
import DocWatch.Time.Timestamp
import DocWatch.Update.Scenario

/-!
# What a command does

Every command but the server itself runs to its end without further input. It
starts from the documents that come with the program, and what it prints, how
it fails and what it writes to the log follow from the configuration and from
what it finds around it.
-/

namespace DocWatch.Command

/-- What the program finds around it. -/
structure Surroundings where
  /-- The program that lists refs, if there is one. -/
  lister : Option (List String → Listing.Run)
  transport : Net.Transport
  now : Time.Instant

/-- What a command leaves behind. -/
structure Report where
  output : String
  /-- What the command failed with. -/
  failure : Option String
  records : List Log.Record
  /-- How often the refs were listed. -/
  listings : Nat
  deriving DecidableEq, Repr

namespace Surroundings

/-- Lists the refs at an address. -/
def listing (w : Surroundings) (url : String) : Except Fault Refs :=
  (Listing.attempt w.lister url false).refs

/-- Asks for the archive. -/
def archive (w : Surroundings) (d : Config.Docs) : Except Fault Update.Delivery :=
  (Download.fetch w.transport d.maxArchiveBytes false ⟨d.archiveUrl, [], userAgent⟩).map fun feed =>
    ⟨feed, none⟩

/-- How the remote behaves in every cycle. -/
def cycle (w : Surroundings) (d : Config.Docs) : Update.Cycle where
  cancelsWhileListing := false
  listing := w.listing d.repoUrl
  fetch := w.archive d

/-- The updates of the documents that come with the program. -/
def updates (w : Surroundings) (d : Config.Docs) : Update.Scenario where
  settings := d.updateSettings
  system := .start (Baseline.initial d.filter)
  remote := ⟨fun _ => some (w.cycle d), false, 0, []⟩
  clock := w.now

end Surroundings

/-- What is said of the documents that a program starts with. -/
def baselineRecord (d : Config.Docs) : Log.Record :=
  Log.baseline (Baseline.load d.filter Baseline.archive Baseline.commit)

/-- A report of a command on the documents at hand. -/
def readingReport (c : Config) (result : Except String String) : Report :=
  let records := [Log.ready, baselineRecord c.docs]
  match result with
  | .ok output => ⟨output, none, records, 0⟩
  | .error failure => ⟨"", some failure, records, 0⟩

/-- The documents that a command starts with. -/
def firstSnapshot (c : Config) : Snapshot :=
  (Baseline.initial c.docs.filter).snapshot

/-- Lines, each of them ended. -/
def unlines (lines : List String) : String :=
  String.join (lines.map (· ++ "\n"))

/-- A text in one line. -/
def oneLine (s : String) : String :=
  s.map fun c => if c = '\n' then ' ' else c

/-- Lists the documents. -/
def listReport (c : Config) : Report :=
  readingReport c (.ok (unlines (firstSnapshot c).fileNames))

/-- The lines for the results of a search, numbered from `n`. -/
def hitLines (n : Nat) : List (Hit Float) → List String
  | [] => []
  | h :: rest =>
      (toString n ++ ". [" ++ (Binary64.ofFloat h.score).fixed 3 ++ "] " ++ h.path) ::
        ("    " ++ oneLine h.snippet) :: hitLines (n + 1) rest

/-- What a search prints. -/
def searchOutput (hits : List (Hit Float)) : String :=
  if hits.isEmpty then unlines ["No results."] else unlines (hitLines 1 hits)

/-- Searches the documents, for one result at least. -/
def searchReport (c : Config) (query : String) (limit : Nat) : Report :=
  readingReport c (.ok (searchOutput ((firstSnapshot c).search query (max limit 1))))

/-- What reading a document prints. -/
def readOutput (s : Snapshot) (file : String) : Except String String :=
  match s.file? (String.ofList (file.toList.dropWhile (· == '/'))) with
  | some content => .ok content
  | none => .error ("document not found: " ++ file)

/-- Reads a document. -/
def readReport (c : Config) (file : String) : Report :=
  readingReport c (readOutput (firstSnapshot c) file)

/-- What a comparison with the remote prints. -/
def comparisonOutput (c : Update.Comparison) : String :=
  unlines
    ["tracked:  " ++ c.tracked, "upstream: " ++ c.latest,
     if c.changed then "update available" else "up to date"]

/-- What an update prints. -/
def outcomeOutput : Update.Outcome → String
  | .upToDate commit => unlines ["up to date at " ++ commit]
  | .updated oldCommit newCommit files =>
      unlines
        ["updated " ++ oldCommit ++ " -> " ++ newCommit ++ " (" ++ toString files ++ " files)"]

/-- Compares the documents at hand with the remote. -/
def checkReport (w : Surroundings) (c : Config) : Report :=
  let (result, after) := (w.updates c.docs).check
  let report := readingReport c ((result.map comparisonOutput).mapError Fault.message)
  { report with listings := after.remote.listings }

/-- Brings the documents at hand up to date. -/
def refreshReport (w : Surroundings) (c : Config) : Report :=
  let before := w.updates c.docs
  let (result, after) := before.update
  let report := readingReport c <| match result with
    | some (.ok outcome) => .ok (outcomeOutput outcome)
    | some (.error fault) => .error fault.message
    | none => .ok ""
  { report with
    listings := after.remote.listings
    records := report.records ++ Log.between before after }

/-- Evaluates an expression at one instant. -/
def queryOutput (w : Surroundings) (c : Config) (expr : String) (time : Option String) :
    Except String String := do
  let t ← match time with
    | none => pure w.now
    | some s => (Time.Instant.parse s).mapError Time.TimestampFault.message
  let reply ← ((Series.Database.ofUrl c.prometheus.url).ask w.transport (.instant expr t)).mapError
    Series.QueryFault.message
  return unlines [reply.toJson.pretty]

/-- A report of a question to the database. -/
def queryReport (w : Surroundings) (c : Config) (expr : String) (time : Option String) : Report :=
  match queryOutput w c expr time with
  | .ok output => ⟨output, none, [Log.ready], 0⟩
  | .error failure => ⟨"", some failure, [Log.ready], 0⟩

end DocWatch.Command
