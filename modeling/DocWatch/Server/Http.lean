import DocWatch.Json.Reader
import DocWatch.Net.MediaType
import DocWatch.Net.Percent
import DocWatch.Server.ErrorKind
import DocWatch.Service

/-!
# The server for requests over HTTP

Four resources: the state of the server, its meters, the list of tools, and
the tools themselves, which are called by sending their parameters as JSON. All
origins may ask. A call is looked at from the outside in: the path, the type of
the body, its syntax, the name of the tool, and last the parameters.
-/

namespace DocWatch.Server

/-- A request to the server. -/
structure HttpRequest where
  method : String
  /-- The path, with a query behind it, as it was sent. -/
  target : String
  contentType : Option String
  body : Bytes
  deriving DecidableEq, Repr

/-- What an answer says. -/
inductive Content where
  | nothing
  | json (v : Json)
  /-- Text, with its type. -/
  | text (kind body : String)

/-- An answer to a request. -/
structure HttpResponse where
  status : Nat
  content : Content

/-- The type that an answer declares. -/
def Content.kind : Content → Option String
  | .nothing => none
  | .json _ => some "application/json"
  | .text kind _ => some kind

/-- The origins that may ask. -/
def allowedOrigins : String := "*"

/-- The type of plain text. -/
def plainText : String := "text/plain; charset=utf-8"

/-- The type of the text form of meters. -/
def metersText : String := "text/plain; version=0.0.4"

/-- The largest body that is read. -/
def bodyLimit : Nat := 2097152

/-- The resources of the server. -/
inductive Route where
  | toolList
  /-- A tool, by the segment of the path that names it. -/
  | tool (segment : List Char)
  | health
  | meters
  deriving DecidableEq, Repr

/-- The path of a target: what stands before a query or a fragment. -/
def pathOf (target : String) : List Char :=
  target.toList.takeWhile fun c => c ≠ '?' && c ≠ '#'

/-- The resource at a path. A tool is named by one segment, which is not empty. -/
def Route.ofPath? (path : List Char) : Option Route :=
  if path = "/health".toList then some .health
  else if path = "/metrics".toList then some .meters
  else if path = "/tools/list".toList then some .toolList
  else
    match Text.stripFront? "/tools/".toList path with
    | some segment => if segment.isEmpty || segment.contains '/' then none else some (.tool segment)
    | none => none

/-- Whether a resource has a method. Where something can be got, its head can. -/
def Route.allows (r : Route) (method : String) : Bool :=
  match r with
  | .tool _ => method = "POST"
  | _ => method = "GET" || method = "HEAD"

/-- An answer without content. -/
def HttpResponse.empty (status : Nat) : HttpResponse :=
  ⟨status, .nothing⟩

/-- An answer in JSON. -/
def HttpResponse.json (status : Nat) (v : Json) : HttpResponse :=
  ⟨status, .json v⟩

/-- An answer that refuses a request before any tool is looked at. -/
def HttpResponse.refusal (status : Nat) (text : String) : HttpResponse :=
  ⟨status, .text plainText text⟩

/-- An answer that explains a failure. -/
def HttpResponse.error (kind : ErrorKind) (message : String) : HttpResponse :=
  .json kind.status (.ofMembers [("error", .ofMembers
    [("code", .string kind.code), ("message", .string message)])])

/-- The state of the server. -/
def healthResponse (s : Service) : HttpResponse :=
  .json 200 (.ofMembers
    [("status", .string "ok"), ("version", .string version),
     ("docs_commit", .string s.published.commit),
     ("docs_files", .ofNat s.published.snapshot.size)])

/-- A tool in the list of tools. -/
def toolJson (t : Tool) : Json :=
  .ofMembers
    [("name", .string t.name), ("description", .string t.description),
     ("read_only", .bool t.readOnly), ("parameters", t.schema)]

/-- The list of tools. -/
def toolListResponse (s : Service) : HttpResponse :=
  .json 200 (.ofMembers [("tools", .array (s.tools.map toolJson))])

/-- The meters as text. -/
def metersResponse (s : Service) : HttpResponse :=
  ⟨200, .text metersText s.metricsText⟩

/-- A call that got through to its parameters, or the answer that ends it. -/
inductive Inspection where
  | refused (response : HttpResponse)
  | accepted (tool : Tool) (params : Json)

/-- The parameters in a body: null stands for none. -/
def paramsOf? : Json → Option Json
  | .null => some (.object [])
  | .object members => some (.object members)
  | _ => none

/-- Looks at a call from the outside in. -/
def inspect (tools : Registry) (segment : List Char) (r : HttpRequest) : Inspection :=
  match Net.percentDecoded? segment with
  | none => .refused (.refusal 400 "Invalid URL")
  | some chars =>
      if !(r.contentType.any Net.namesJson) then
        .refused (.refusal 415 "Expected request with a JSON content type")
      else if bodyLimit < r.body.length then .refused (.refusal 413 "length limit exceeded")
      else
        match Json.ofBytes? r.body with
        | none => .refused (.refusal 400 "Failed to parse the request body as JSON")
        | some v =>
            match tools.find? (String.ofList chars) with
            | none => .refused (.error .notFound (Registry.unknownText (String.ofList chars)))
            | some tool =>
                match paramsOf? v with
                | none => .refused (.error .badRequest "parameters must be a JSON object")
                | some params => .accepted tool params

/-- The answer to a call; none if the call ended without any result. -/
def callResponse? (tool : Tool) : CallOutcome → Option HttpResponse
  | .value v => some (.json 200 (.ofMembers [("result", v)]))
  | .fault f => some (.error (.ofText f.message) (tool.name ++ ": " ++ f.message))
  | .crashed => none

/-- Calls a tool. -/
def callTool (s : Service) (segment : List Char) (r : HttpRequest) (elapsed : Time.Span) :
    Option HttpResponse × Service :=
  match inspect s.tools segment r with
  | .refused response => (some response, s)
  | .accepted tool params =>
      let (outcome, after) := s.call tool params elapsed
      (callResponse? tool outcome, after)

/-- The answer at a resource. -/
def respond (s : Service) (route : Route) (r : HttpRequest) (elapsed : Time.Span) :
    Option HttpResponse × Service :=
  match route with
  | .health => (some (healthResponse s), s)
  | .meters => (some (metersResponse s), s)
  | .toolList => (some (toolListResponse s), s)
  | .tool segment => callTool s segment r elapsed

/-- Answers a request, which takes some time. A question about what is allowed
is answered for every path. There is no answer if the request asks for a call
that ends without any result. -/
def handle (s : Service) (r : HttpRequest) (elapsed : Time.Span) :
    Option HttpResponse × Service :=
  if r.method = "OPTIONS" then (some (.empty 200), s)
  else
    match Route.ofPath? (pathOf r.target) with
    | none => (some (.empty 404), s)
    | some route =>
        if route.allows r.method then respond s route r elapsed else (some (.empty 405), s)

end DocWatch.Server
