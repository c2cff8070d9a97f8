import DocWatch.Text.Occurrence

/-!
# Kinds of failed calls

A client of the server learns from a status and a code who is to blame for a
failed call. The kind is read off the text of the fault: whatever an update
says of itself is a fault of the server, and after that the first phrase that
the text holds decides.
-/

namespace DocWatch.Server

/-- Who is to blame for a failed call. -/
inductive ErrorKind where
  | badRequest
  | updatesDisabled
  | notFound
  | timeout
  | toolError
  deriving DecidableEq, Repr

/-- The status of a kind. -/
def ErrorKind.status : ErrorKind → Nat
  | .badRequest | .updatesDisabled => 400
  | .notFound => 404
  | .timeout => 408
  | .toolError => 500

/-- The code of a kind. -/
def ErrorKind.code : ErrorKind → String
  | .badRequest => "bad_request"
  | .updatesDisabled => "updates_disabled"
  | .notFound => "not_found"
  | .timeout => "timeout"
  | .toolError => "tool_error"

/-- How the text of a failed update begins. -/
def updatePhrase : String := "docs update failed"

/-- Phrases with the kinds that they stand for, in the order in which they are
looked for. -/
def phrases : List (String × ErrorKind) :=
  [("document not found", .notFound),
   ("disabled", .updatesDisabled),
   ("must not be", .badRequest),
   ("must be", .badRequest),
   ("failed to parse", .badRequest),
   ("invalid", .badRequest),
   ("timed out", .timeout)]

/-- The kind of a fault, by its text. -/
def ErrorKind.ofText (text : String) : ErrorKind :=
  if Text.startsWith updatePhrase.toList text.toList then .toolError
  else
    match phrases.find? fun (phrase, _) => Text.holds text phrase with
    | some (_, kind) => kind
    | none => .toolError

end DocWatch.Server
