import DocWatch.Json.Printer
import DocWatch.Mcp.Request
import DocWatch.Mcp.Resource
import DocWatch.Service

/-!
# The bridge to clients of the context protocol

The tools and the documents are offered to clients that talk in messages. The
result of a tool is handed over as text, a fault of a tool as text with a mark;
only a request that does not get as far as a tool or a document is answered
with an error.
-/

namespace DocWatch.Mcp

/-- The version of the protocol that is spoken, unless a client only knows an
older one. -/
def protocolVersion : String := "2025-03-26"

/-- What clients are told about the server. -/
def instructions : String :=
  "Query a Prometheus server and read the Prometheus documentation. " ++
  "Use query, range_query and list_metrics for live data; docs_search, " ++
  "docs_list and docs_read (or the prometheus://docs resources) for " ++
  "reference material."

/-- The answer to the first message. -/
def greeting (protocol : String) : Json :=
  .ofMembers
    [("protocolVersion",
       .string (if protocol < protocolVersion then protocol else protocolVersion)),
     ("capabilities", .ofMembers [("resources", .object []), ("tools", .object [])]),
     ("serverInfo", .ofMembers
       [("name", .string "prometheus-mcp"), ("title", .string "Prometheus MCP"),
        ("version", .string version)]),
     ("instructions", .string instructions)]

/-- The schema of the parameters of a tool, which must be an object here. -/
def inputSchema : Json → Json
  | .object members => .object members
  | _ => .object []

/-- A tool in the list of tools. -/
def toolJson (t : Tool) : Json :=
  .ofMembers
    [("name", .string t.name), ("description", .string t.description),
     ("inputSchema", inputSchema t.schema),
     ("annotations", .ofMembers [("readOnlyHint", .bool t.readOnly)])]

/-- The resource that lists the documents. -/
def listResource : Json :=
  .ofMembers
    [("uri", .string listUri), ("name", .string "List of Official Prometheus Documentation Files"),
     ("description", .string "Paths of every published document, one per line"),
     ("mimeType", .string "text/plain")]

/-- The form of the resources that are documents. -/
def documentResources : Json :=
  .ofMembers
    [("uriTemplate", .string documentTemplate),
     ("name", .string "Official Prometheus Documentation"),
     ("description", .string "One markdown document, addressed by its path"),
     ("mimeType", .string "text/markdown")]

/-- What was read at an address. -/
def contentsJson (r : ResourceText) : Json :=
  .ofMembers [("contents", .array [.ofMembers
    [("uri", .string r.uri), ("mimeType", .string r.mimeType), ("text", .string r.text)]])]

/-- The text that a call is answered with, marked if the call failed. -/
def callResult (text : String) (isError : Bool) : Json :=
  .ofMembers
    [("content", .array [.ofMembers [("type", .string "text"), ("text", .string text)]]),
     ("isError", .bool isError)]

/-- The answer to a call; none if the call ended without any result. -/
def callAnswer? : CallOutcome → Option Json
  | .value v => some (callResult v.pretty false)
  | .fault f => some (callResult f.message true)
  | .crashed => none

/-- What a request is answered with. -/
abbrev Answer := Except RequestFault Json

/-- Answers a request, which takes some time. There is no answer to a call that
ends without any result. -/
def answer (s : Service) (r : Request) (elapsed : Time.Span) : Option Answer × Service :=
  match r with
  | .greet protocol => (some (.ok (greeting protocol)), s)
  | .ping => (some (.ok (.object [])), s)
  | .listTools => (some (.ok (.ofMembers [("tools", .array (s.tools.map toolJson))])), s)
  | .listResources => (some (.ok (.ofMembers [("resources", .array [listResource])])), s)
  | .listTemplates =>
      (some (.ok (.ofMembers [("resourceTemplates", .array [documentResources])])), s)
  | .listPrompts => (some (.ok (.ofMembers [("prompts", .array [])])), s)
  | .readResource uri => (some ((readResource s.published uri).map contentsJson), s)
  | .callTool name arguments =>
      match s.tools.find? name with
      | none => (some (.error (.unknownTool name)), s)
      | some tool =>
          let (outcome, after) := s.call tool arguments elapsed
          ((callAnswer? outcome).map .ok, after)
  | .other method => (some (.error (.unknownMethod method)), s)

/-- An answer as a message. -/
def answerJson (id : Json) : Answer → Json
  | .ok result => .ofMembers [("jsonrpc", .string "2.0"), ("id", id), ("result", result)]
  | .error fault =>
      .ofMembers
        [("jsonrpc", .string "2.0"), ("id", id),
         ("error", .ofMembers
           [("code", .number (.whole fault.code)), ("message", .string fault.message)])]

/-- Takes a message in, and gives the answer if there is to be one. A notice
changes nothing. -/
def handle (s : Service) (m : Message) (elapsed : Time.Span) : Option Json × Service :=
  match m.id with
  | none => (none, s)
  | some id =>
      let (a, after) := answer s m.request elapsed
      (a.map (answerJson id), after)

end DocWatch.Mcp
