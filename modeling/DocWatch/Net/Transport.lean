import DocWatch.Text.Occurrence
import DocWatch.Tree

/-!
# Requests and their answers

The program asks two remote parties, the host of the archive and the
time-series database. How a request travels is not its business: a transport
maps a request to what came of it. An exchange may fail before there is an
answer, and the body of an answer may break off.
-/

namespace DocWatch.Net

/-- A request for a resource: its address, the parameters behind it, and the name
that the program gives itself. -/
structure Request where
  url : String
  params : List (String × String)
  userAgent : String
  deriving DecidableEq, Repr

/-- Why an exchange or a body broke off: the causes, the outermost first, and
whether the time allowed for the exchange had run out. -/
structure Failure where
  causes : List String
  timedOut : Bool
  deriving DecidableEq, Repr

/-- The causes in one text, which always says so if time ran out. -/
def Failure.text (f : Failure) : String :=
  let chain := ": ".intercalate f.causes
  if f.timedOut && !Text.holds chain "timed out" then chain ++ " (timed out)" else chain

/-- A part of a body. -/
inductive Part where
  | data (bytes : Bytes)
  | failed (failure : Failure)
  deriving DecidableEq, Repr

/-- The bytes of a body before its first failure. -/
def arrived : List Part → Bytes
  | .data bytes :: rest => bytes ++ arrived rest
  | _ => []

/-- Whether a body came to its end without a failure. -/
def isWhole : List Part → Bool
  | [] => true
  | .data _ :: rest => isWhole rest
  | .failed _ :: _ => false

/-- An answer. -/
structure Response where
  status : Nat
  /-- The length of the body that the answer declares beforehand. -/
  declaredLength : Option Nat
  body : List Part
  deriving DecidableEq, Repr

/-- Whether the status says that the request succeeded. -/
def Response.isSuccess (r : Response) : Bool :=
  200 ≤ r.status && r.status < 300

/-- What came of a request. -/
inductive Exchange where
  | failed (failure : Failure)
  | answered (response : Response)
  deriving DecidableEq, Repr

/-- How requests are answered. -/
abbrev Transport := Request → Exchange

end DocWatch.Net
