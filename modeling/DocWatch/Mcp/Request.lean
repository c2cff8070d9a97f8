import DocWatch.Json.Basic

/-!
# Requests of clients

A client of the context protocol sends messages, each a JSON object with a
method and perhaps parameters. A message with a number or a name of its own
waits for an answer; all others are only notices.
-/

namespace DocWatch.Mcp

/-- What a client asks for. -/
inductive Request where
  /-- The first message: the version of the protocol that the client speaks. -/
  | greet (protocol : String)
  | ping
  | listTools
  | callTool (name : String) (arguments : Json)
  | listResources
  | listTemplates
  | readResource (uri : String)
  | listPrompts
  /-- A method that is not known, or not with these parameters. -/
  | other (method : String)

/-- The arguments of a call: null stands for none. -/
def arguments? : Json → Option Json
  | .null => some (.object [])
  | .object members => some (.object members)
  | _ => none

/-- The request of a method with parameters. -/
def Request.of (method : String) (params : Json) : Request :=
  match method with
  | "initialize" => .greet ((params.member "protocolVersion").text?.getD "")
  | "ping" => .ping
  | "tools/list" => .listTools
  | "tools/call" =>
      match (params.member "name").text?, arguments? (params.member "arguments") with
      | some name, some arguments => .callTool name arguments
      | _, _ => .other method
  | "resources/list" => .listResources
  | "resources/templates/list" => .listTemplates
  | "resources/read" =>
      match (params.member "uri").text? with
      | some uri => .readResource uri
      | none => .other method
  | "prompts/list" => .listPrompts
  | _ => .other method

/-- A message. -/
structure Message where
  /-- What the answer is sent under; a notice has none. -/
  id : Option Json
  request : Request

/-- Whether a value can be what an answer is sent under. -/
def isId : Json → Bool
  | .string _ | .number (.whole _) => true
  | _ => false

/-- Reads a message. -/
def Message.ofJson? (v : Json) : Option Message := do
  let method ← (v.member "method").text?
  let id := v.member "id"
  some ⟨if isId id then some id else none, .of method (v.member "params")⟩

end DocWatch.Mcp
