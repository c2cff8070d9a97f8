import DocWatch.Archive.Extract
import DocWatch.Config.Level
import DocWatch.Text.Blank
import DocWatch.Toml.Reader
import DocWatch.Update.System

/-!
# The configuration

Four sections of settings, each with a usual value for whatever the file does
not say. Keys that are not known are passed over. A file that cannot be read,
is no TOML document or holds a value of the wrong kind is refused as a whole;
after that the values themselves are checked, one after the other, and the
first that will not do is reported.
-/

namespace DocWatch

/-- How the time-series database is reached. -/
structure Config.Prometheus where
  url : String
  timeoutSecs : Nat
  deriving DecidableEq, Repr

/-- How the server is reached. -/
structure Config.Server where
  bind : String
  transport : String
  deriving DecidableEq, Repr

/-- Where the documents come from, and how much of them is taken. -/
structure Config.Docs where
  autoUpdate : Bool
  repoUrl : String
  archiveUrl : String
  branch : String
  docsDir : String
  extension : String
  updateIntervalSecs : Nat
  httpTimeoutSecs : Nat
  maxArchiveBytes : Nat
  maxDecompressedBytes : Nat
  maxFileCount : Nat
  deriving DecidableEq, Repr

/-- What is logged, in which form, and where besides the standard error. -/
structure Config.Logging where
  level : String
  json : Bool
  file : Option String
  deriving DecidableEq, Repr

/-- All settings. -/
structure Config where
  prometheus : Config.Prometheus
  server : Config.Server
  docs : Config.Docs
  logging : Config.Logging
  deriving DecidableEq, Repr

namespace Config

/-- The usual settings. -/
def standard : Config where
  prometheus := ⟨"http://127.0.0.1:9090", 60⟩
  server := ⟨"127.0.0.1:8080", "stdio"⟩
  docs := {
    autoUpdate := true
    repoUrl := "https://github.com/prometheus/docs.git"
    archiveUrl := "https://github.com/prometheus/docs/archive/refs/heads/main.tar.gz"
    branch := "main"
    docsDir := "docs"
    extension := "md"
    updateIntervalSecs := 24 * 60 * 60
    httpTimeoutSecs := 300
    maxArchiveBytes := 50 * 1024 * 1024
    maxDecompressedBytes := 200 * 1024 * 1024
    maxFileCount := 10000 }
  logging := ⟨"info", false, none⟩

/-- What the extraction needs of the settings. -/
def Docs.filter (d : Docs) : Archive.Filter :=
  ⟨d.docsDir, d.extension, d.maxDecompressedBytes, d.maxFileCount⟩

/-- What an update needs of the settings. -/
def Docs.updateSettings (d : Docs) : Update.Settings :=
  ⟨d.archiveUrl, d.branch, d.filter, d.httpTimeoutSecs * 1000⟩

/-! ## Reading -/

/-- Why a configuration is refused. -/
inductive Fault where
  | unreadable (path : String)
  | unparsable
  | blank (key : String)
  | zero (key : String)
  | unknownTransport (name : String)
  | unknownLevel (name : String)
  deriving DecidableEq, Repr

/-- The text of a refusal. -/
def Fault.message : Fault → String
  | .unreadable path => "Failed to read config file: " ++ path
  | .unparsable => "Failed to parse config file"
  | .blank key => key ++ " must not be empty"
  | .zero key => key ++ " must be > 0"
  | .unknownTransport name =>
      "Unknown server transport: '" ++ name ++ "'. Must be stdio or http."
  | .unknownLevel name =>
      "Unknown logging.level: '" ++ name ++
        "'. Must be off, error, warn, info, debug, or trace."

/-- The values of a section: by key, or by position where it is written as an
array. A section that is missing, or a date in its place, gives no values. -/
inductive Section where
  | keyed (rows : Toml.Rows)
  | listed (items : List Toml)

/-- The section under a key; nothing if the value there is no section. -/
def section? (rows : Toml.Rows) (key : String) : Option Section :=
  match rows.get? key with
  | none => some (.keyed [])
  | some (.table _ rows) => some (.keyed rows)
  | some (.array items) => some (.listed items)
  | some (.tables newestFirst) =>
      some (.listed (newestFirst.reverse.map fun rows => .table .header rows))
  | some (.dateTime _) => some (.keyed [])
  | some _ => none

/-- The value at a place of a section. -/
def Section.get? (s : Section) (position : Nat) (key : String) : Option Toml :=
  match s with
  | .keyed rows => rows.get? key
  | .listed items => items[position]?

/-- A text, or the usual one where there is no value. -/
def Section.text? (s : Section) (position : Nat) (key usual : String) : Option String :=
  match s.get? position key with
  | none => some usual
  | some (.string t) => some t
  | some _ => none

/-- A text that may be missing. -/
def Section.optionalText? (s : Section) (position : Nat) (key : String) :
    Option (Option String) :=
  match s.get? position key with
  | none => some none
  | some (.string t) => some (some t)
  | some _ => none

/-- A count, or the usual one where there is no value. -/
def Section.count? (s : Section) (position : Nat) (key : String) (usual : Nat) : Option Nat :=
  match s.get? position key with
  | none => some usual
  | some (.integer n) => if 0 ≤ n then some n.toNat else none
  | some _ => none

/-- A choice, or the usual one where there is no value. -/
def Section.flag? (s : Section) (position : Nat) (key : String) (usual : Bool) : Option Bool :=
  match s.get? position key with
  | none => some usual
  | some (.boolean b) => some b
  | some _ => none

/-- The settings of the database. -/
def Prometheus.ofSection? (s : Section) : Option Prometheus := do
  let usual := standard.prometheus
  let url ← s.text? 0 "url" usual.url
  let timeoutSecs ← s.count? 1 "timeout_secs" usual.timeoutSecs
  return { url, timeoutSecs }

/-- The settings of the server. -/
def Server.ofSection? (s : Section) : Option Server := do
  let usual := standard.server
  let bind ← s.text? 0 "bind" usual.bind
  let transport ← s.text? 1 "transport" usual.transport
  return { bind, transport }

/-- The settings of the documents. -/
def Docs.ofSection? (s : Section) : Option Docs := do
  let usual := standard.docs
  let autoUpdate ← s.flag? 0 "auto_update" usual.autoUpdate
  let repoUrl ← s.text? 1 "repo_url" usual.repoUrl
  let archiveUrl ← s.text? 2 "archive_url" usual.archiveUrl
  let branch ← s.text? 3 "branch" usual.branch
  let docsDir ← s.text? 4 "docs_dir" usual.docsDir
  let extension ← s.text? 5 "extension" usual.extension
  let updateIntervalSecs ← s.count? 6 "update_interval_secs" usual.updateIntervalSecs
  let httpTimeoutSecs ← s.count? 7 "http_timeout_secs" usual.httpTimeoutSecs
  let maxArchiveBytes ← s.count? 8 "max_archive_bytes" usual.maxArchiveBytes
  let maxDecompressedBytes ← s.count? 9 "max_decompressed_bytes" usual.maxDecompressedBytes
  let maxFileCount ← s.count? 10 "max_file_count" usual.maxFileCount
  return {
    autoUpdate, repoUrl, archiveUrl, branch, docsDir, extension, updateIntervalSecs,
    httpTimeoutSecs, maxArchiveBytes, maxDecompressedBytes, maxFileCount }

/-- The settings of the log. -/
def Logging.ofSection? (s : Section) : Option Logging := do
  let usual := standard.logging
  let level ← s.text? 0 "level" usual.level
  let json ← s.flag? 1 "json" usual.json
  let file ← s.optionalText? 2 "file"
  return { level, json, file }

/-- The settings that a document gives, not checked yet. -/
def ofRows? (rows : Toml.Rows) : Option Config := do
  let prometheus ← (section? rows "prometheus").bind Prometheus.ofSection?
  let server ← (section? rows "server").bind Server.ofSection?
  let docs ← (section? rows "docs").bind Docs.ofSection?
  let logging ← (section? rows "logging").bind Logging.ofSection?
  return { prometheus, server, docs, logging }

/-- What each check of the values would report, in the order of the checks. -/
def checks (c : Config) : List (Option Fault) :=
  let filled (key value : String) : Option Fault :=
    if Text.isBlankText value then some (.blank key) else none
  let positive (key : String) (n : Nat) : Option Fault :=
    if n = 0 then some (.zero key) else none
  let transport := c.server.transport
  [filled "prometheus.url" c.prometheus.url,
   positive "prometheus.timeout_secs" c.prometheus.timeoutSecs,
   if transport = "stdio" ∨ transport = "http" then none else some (.unknownTransport transport),
   filled "docs.repo_url" c.docs.repoUrl,
   filled "docs.archive_url" c.docs.archiveUrl,
   filled "docs.branch" c.docs.branch,
   filled "docs.docs_dir" c.docs.docsDir,
   filled "docs.extension" c.docs.extension,
   positive "docs.update_interval_secs" c.docs.updateIntervalSecs,
   positive "docs.http_timeout_secs" c.docs.httpTimeoutSecs,
   positive "docs.max_archive_bytes" c.docs.maxArchiveBytes,
   positive "docs.max_decompressed_bytes" c.docs.maxDecompressedBytes,
   positive "docs.max_file_count" c.docs.maxFileCount,
   if (Level.parse? c.logging.level).isSome then none else some (.unknownLevel c.logging.level)]

/-- Checks the values. -/
def validate (c : Config) : Except Fault Config :=
  match c.checks.findSome? id with
  | some fault => .error fault
  | none => .ok c

/-- The settings that a file gives, of which only the bytes are known, if there
are any. -/
def ofFile (path : String) (content : Option Bytes) : Except Fault Config :=
  match content.bind Text.decode? with
  | none => .error (.unreadable path)
  | some text =>
      match (Toml.parse? text).bind ofRows? with
      | none => .error .unparsable
      | some c => c.validate

end Config

end DocWatch
