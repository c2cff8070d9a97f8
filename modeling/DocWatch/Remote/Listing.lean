import DocWatch.Remote.Refs
import DocWatch.Text.Utf8
import DocWatch.Tree

/-!
# Listing the refs of a remote

The refs are listed by an external program. What it printed counts only if it
succeeded; otherwise its complaint is reported together with how it ended.
-/

namespace DocWatch.Listing

/-- How the listing program ended. -/
inductive Exit where
  | code (n : UInt8)
  | killed (signal : Nat) (name : String)
  deriving DecidableEq, Repr

/-- Whether the listing program succeeded. -/
def Exit.isSuccess : Exit → Bool
  | .code n => n = 0
  | .killed .. => false

/-- How an end is reported. -/
def Exit.text : Exit → String
  | .code n => "exit status: " ++ toString n.toNat
  | .killed signal name => "signal: " ++ toString signal ++ " (" ++ name ++ ")"

/-- A finished run of the listing program. -/
structure Run where
  output : Bytes
  complaint : Bytes
  exit : Exit
  deriving DecidableEq, Repr

/-- The refs that a run found. -/
def Run.refs (r : Run) : Except ListingFault Refs :=
  if r.exit.isSuccess then Refs.parse (Text.decodeLossy r.output)
  else
    .error (.exited r.exit.text (String.ofList (Text.trim (Text.decodeLossy r.complaint))))

/-- The arguments of the listing program. The address stands behind the mark
that ends the options, so that it is never read as one. -/
def arguments (url : String) : List String :=
  ["ls-remote", "--", url]

/-- Whether an argument can be handed to a program at all. -/
def canPass (argument : String) : Bool :=
  argument.toList.all (·.toNat ≠ 0)

/-- What became of a listing: the program did not start, or was started and
gave up on a cancellation, or was lost before all that it printed had come, or ran
to its end. -/
inductive Attempt where
  | notStarted (why : String)
  | cancelled
  | lost (why : String)
  | finished (run : Run)
  deriving DecidableEq, Repr

/-- A listing program, given as what comes of it on its arguments, or as why it
cannot be started. -/
abbrev Program := Except String (List String → Except String Run)

/-- Starts a program to list the refs of an address. A cancellation is looked at
once the program has been started. -/
def start (program : Program) (url : String) (cancelled : Bool) : Attempt :=
  if !canPass url then .notStarted "nul byte found in provided data"
  else
    match program with
    | .error why => .notStarted why
    | .ok run =>
        if cancelled then .cancelled
        else
          match run (arguments url) with
          | .error why => .lost why
          | .ok finished => .finished finished

/-- Makes the attempt to list the refs of an address with a program that always
runs to its end, if there is one. -/
def attempt (program : Option (List String → Run)) (url : String) (cancelled : Bool) : Attempt :=
  match program with
  | none => start (.error "No such file or directory (os error 2)") url cancelled
  | some run => start (.ok fun arguments => .ok (run arguments)) url cancelled

/-- The refs that an attempt found. -/
def Attempt.refs : Attempt → Except Fault Refs
  | .notStarted why => .error (.remoteQuery (.notStarted why))
  | .cancelled => .error .cancelled
  | .lost why => .error (.remoteQuery (.stated ("git ls-remote failed: " ++ why)))
  | .finished run => run.refs.mapError .remoteQuery

end DocWatch.Listing
