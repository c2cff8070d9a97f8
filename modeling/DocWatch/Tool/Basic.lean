import DocWatch.Json.Basic
import DocWatch.Published
import DocWatch.Series.Reply
import DocWatch.Time.Timestamp

/-!
# Tools

A tool is offered to clients under a name, with a description and a schema of
its parameters. What a call comes to is decided from the parameters, from what
is published at one moment and from the time: a result, an update of the
documents, or a question to the database. So a call reads the published value
once, and all that it says of the documents belongs together.
-/

namespace DocWatch

/-- Why a call fails. -/
inductive ToolFault where
  /-- A parameter that must be given is missing, or nothing but white space. -/
  | blank (key : String)
  | noDocument (file : String)
  | limitTooSmall
  | updatesDisabled
  | update (fault : UpdateFault)
  | timestamp (fault : Time.TimestampFault)
  | step (fault : Time.SpanFault)
  /-- A range ends before it starts. -/
  | backwards
  | query (fault : Series.QueryFault)
  /-- A fault in the words of the tool. -/
  | stated (text : String)
  deriving DecidableEq, Repr

/-- The text of a fault. -/
def ToolFault.message : ToolFault → String
  | .blank key => key ++ " must not be empty"
  | .noDocument file => "document not found: " ++ file
  | .limitTooSmall => "limit must be >= 1"
  | .updatesDisabled => "docs updates are disabled"
  | .update fault => fault.message
  | .timestamp fault => fault.message
  | .step fault => fault.message
  | .backwards => "start must not be after end"
  | .query fault => fault.message
  | .stated text => text

/-- What a call comes to. -/
inductive Plan where
  | result (value : Json)
  | fail (fault : ToolFault)
  /-- A time or a span that cannot be represented: the call ends without any
  result. -/
  | crash
  /-- An update of the documents. -/
  | refresh
  | ask (question : Series.Question)

/-- A tool. -/
structure Tool where
  name : String
  description : String
  /-- Whether a call leaves everything as it is. -/
  readOnly : Bool
  /-- The schema of the parameters. -/
  schema : Json
  /-- What a call comes to, by its parameters. -/
  plan : Json → Published → Time.Instant → Plan

namespace Tool

/-- A text among the parameters, trimmed, if it is there and not blank. -/
def text? (params : Json) (key : String) : Option String :=
  match (params.member key).text? with
  | none => none
  | some s => if Text.trimmed s = "" then none else some (Text.trimmed s)

/-- A text that must be among the parameters, trimmed. -/
def requiredText (params : Json) (key : String) : Except ToolFault String :=
  match text? params key with
  | some s => .ok s
  | none => .error (.blank key)

/-- The schema of one parameter: its type, what it means, and whatever else is
said of it. -/
def property (kind meaning : String) (more : List (String × Json)) : Json :=
  .ofMembers (("type", .string kind) :: ("description", .string meaning) :: more)

/-- The schema of parameters that form an object; the required ones are only
listed if there are any. -/
def objectSchema (properties : List (String × Json)) (required : List String) : Json :=
  .ofMembers
    (("type", .string "object") :: ("properties", .ofMembers properties) ::
      if required.isEmpty then [] else [("required", .ofStrings required)])

end Tool

end DocWatch
