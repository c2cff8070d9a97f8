import DocWatch.Command.Report
import DocWatch.Mcp.Bridge

/-!
# Running the server

A server is set up from the configuration. If the documents are kept up to date
by themselves, the first update comes before any client. After that each
message of a client is taken in as it comes, and what happens is logged.
-/

namespace DocWatch.Command

/-- A server in operation, with what it has logged. -/
structure Session where
  service : Service
  records : List Log.Record

/-- What overrides the configuration on the command line. -/
def overridden (c : Config) (transport : Option Transport) (bind : Option String) : Config :=
  { c with server :=
    { transport := (transport.map Transport.name).getD c.server.transport
      bind := bind.getD c.server.bind } }

/-- Where the records of the program itself come from. -/
def programSource : String := "prometheus_mcp"

/-- What is said of the updates that come by themselves. -/
def updateRecord (d : Config.Docs) : Log.Record :=
  if d.autoUpdate then ⟨.info, Log.updates, "starting periodic docs updates"⟩
  else ⟨.info, programSource, "automatic docs updates disabled"⟩

namespace Session

/-- The service that a server starts with. -/
def firstService (w : Surroundings) (c : Config) : Service where
  tools := Registry.standard
  updatesEnabled := true
  updates := w.updates c.docs
  database := .ofUrl c.prometheus.url
  transport := w.transport
  calls := .none

/-- Sets a server up. -/
def start (w : Surroundings) (c : Config) : Session :=
  let service := firstService w c
  let updates := if c.docs.autoUpdate then service.updates.update.2 else service.updates
  { service := { service with updates }
    records :=
      [Log.ready, baselineRecord c.docs, updateRecord c.docs] ++
        Log.between service.updates updates }

/-- Whether the answer to a call says that it failed. -/
def saysFailed (answer : Json) : Bool :=
  match (answer.member "result").member "isError" with
  | .bool b => b
  | _ => false

/-- Takes a message in. -/
def take (s : Session) (m : Mcp.Message) (elapsed : Time.Span) : Option Json × Session :=
  let (answer, after) := Mcp.handle s.service m elapsed
  let failed := if answer.any saysFailed then
    [⟨.debug, "prometheus_mcp::mcp", "tool call failed"⟩] else []
  (answer,
    { service := after
      records := s.records ++ Log.between s.service.updates after.updates ++ failed })

/-- Takes messages in, one after the other, and collects the answers. -/
def converse (s : Session) (elapsed : Time.Span) : List Mcp.Message → List Json × Session
  | [] => ([], s)
  | m :: rest =>
      let (answer, after) := s.take m elapsed
      let (answers, last) := after.converse elapsed rest
      (answer.toList ++ answers, last)

/-- Writes down what happened. -/
def note (s : Session) (records : List Log.Record) : Session :=
  { s with records := s.records ++ records }

end Session

/-- Where the records of the server come from. -/
def serverSource : String := "prometheus_mcp::server"

/-- What is said at the end of the updates that come by themselves. -/
def lastRecords (d : Config.Docs) : List Log.Record :=
  if d.autoUpdate then [⟨.debug, Log.updates, "periodic docs updates stopped"⟩] else []

/-! ## A client on the standard streams -/

/-- The record that a server waits for messages. -/
def stdioReady : Log.Record :=
  ⟨.info, serverSource, "MCP server running on stdio"⟩

/-- The record that the client of a server has gone. -/
def stdioGone : Log.Record :=
  ⟨.info, serverSource, "stdio client disconnected"⟩

/-- How a server fails whose client goes before its first message. -/
def neverGreeted : String := "connection closed: initialize request"

/-! ## Clients over HTTP -/

/-- The record that a server waits for clients. -/
def httpReady : Log.Record :=
  ⟨.info, serverSource, "MCP server listening (streamable HTTP at /mcp)"⟩

/-- The record that the program is told to end. -/
def interrupted : Log.Record :=
  ⟨.info, programSource, "received interrupt, shutting down"⟩

/-- The record that a server no longer waits for clients. -/
def httpGone : Log.Record :=
  ⟨.info, serverSource, "HTTP server stopped"⟩

/-- What keeps an address from being one to wait for clients at. The port
follows the last colon. -/
def bindFault? (bind : String) : Option String :=
  let port := (bind.toList.reverse.takeWhile (· ≠ ':')).reverse
  if port.length = bind.length then some "invalid socket address"
  else
    match Text.plainDigits? port with
    | some digits => if Text.digitsValue digits < 65536 then none else some "invalid port value"
    | none => some "invalid port value"

end DocWatch.Command
