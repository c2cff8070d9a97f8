import DocWatch.Json.Reader
import DocWatch.Series.Question

/-!
# What the time-series database replies

A reply comes in an envelope that says whether the question could be answered,
and carries either the data with any warnings or a description of what is
wrong. The status of the exchange only counts where the body is no envelope.
-/

namespace DocWatch.Series

/-- An answer, with what the database wants to be known about it. -/
structure Reply where
  data : Json
  warnings : List String

/-- A reply as a value; warnings are only mentioned if there are any. -/
def Reply.toJson (r : Reply) : Json :=
  Json.ofMembers
    (("data", r.data.sorted) ::
      if r.warnings.isEmpty then [] else [("warnings", Json.ofStrings r.warnings)])

/-- Why there is no answer. -/
inductive QueryFault where
  /-- The exchange did not come to an answer. -/
  | unanswered (url : String) (failure : Net.Failure)
  /-- The body of the answer broke off. -/
  | brokenOff (url : String)
  /-- The status is one of failure, and the body is no envelope. -/
  | refused (status : Nat) (excerpt : String)
  /-- The status is one of success, but the body is no envelope. -/
  | undecodable
  /-- The database says what is wrong. -/
  | stated (kind text : Option String)
  deriving DecidableEq, Repr

/-- The text of a fault. It names the address but not what went wrong below. -/
def QueryFault.message : QueryFault → String
  | .unanswered url _ => "request to " ++ url ++ " failed"
  | .brokenOff url => "failed reading response from " ++ url
  | .refused status excerpt => "prometheus returned status " ++ toString status ++ ": " ++ excerpt
  | .undecodable => "failed to decode prometheus response"
  | .stated kind text =>
      "prometheus API error (" ++ kind.getD "unknown" ++ "): " ++ text.getD "no error message"

/-- The envelope of a reply. -/
structure Envelope where
  status : String
  data : Json
  kind : Option String
  error : Option String
  warnings : List String

namespace Envelope

/-- The fields of an envelope in their order. -/
def fields : List String :=
  ["status", "data", "errorType", "error", "warnings"]

/-- The value of a field in an object; nothing if it is given twice. -/
def field? (members : List (String × Json)) (name : String) : Option (Option Json) :=
  match members.filter (·.1 = name) with
  | [] => some none
  | [m] => some (some m.2)
  | _ => none

/-- The fields of an envelope, given by name or by position. -/
def values? : Json → Option (List (Option Json))
  | .object members => fields.mapM (field? members)
  | .array items =>
      if items.length ≤ fields.length then some ((List.range fields.length).map (items[·]?))
      else none
  | _ => none

/-- A text that may be missing or null. -/
def optionalText? : Option Json → Option (Option String)
  | none | some .null => some none
  | some (.string s) => some (some s)
  | _ => none

/-- A list of texts that may be missing, but not null. -/
def texts? : Option Json → Option (List String)
  | none => some []
  | some (.array items) => items.mapM Json.text?
  | _ => none

/-- Reads an envelope off a value. Only the status must be there. -/
def ofJson? (v : Json) : Option Envelope := do
  match ← values? v with
  | [some (.string status), data, kind, error, warnings] =>
      some ⟨status, data.getD .null, ← optionalText? kind, ← optionalText? error, ← texts? warnings⟩
  | _ => none

/-- Whether the question could be answered. -/
def reply (e : Envelope) : Except QueryFault Reply :=
  if e.status = "success" then .ok ⟨e.data, e.warnings⟩ else .error (.stated e.kind e.error)

end Envelope

/-- The beginning of a body that is shown in place of an answer. -/
def excerpt (body : Bytes) : String :=
  String.ofList (Text.trim (Text.decodeLossy (body.take 512)))

/-- Reads a whole body. -/
def Reply.ofBody (success : Bool) (status : Nat) (body : Bytes) : Except QueryFault Reply :=
  match (Json.ofBytes? body).bind Envelope.ofJson? with
  | some e => e.reply
  | none => .error (if success then .undecodable else .refused status (excerpt body))

/-- Puts a question to the database. -/
def Database.ask (d : Database) (t : Net.Transport) (q : Question) : Except QueryFault Reply :=
  match t (d.request q) with
  | .failed failure => .error (.unanswered (d.url q) failure)
  | .answered r =>
      if Net.isWhole r.body then Reply.ofBody r.isSuccess r.status (Net.arrived r.body)
      else .error (.brokenOff (d.url q))

end DocWatch.Series
