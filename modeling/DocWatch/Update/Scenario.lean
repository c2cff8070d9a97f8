import DocWatch.Remote.Download
import DocWatch.Update.Periodic

/-!
# Updates against a given course of the outside world

A scenario fixes in advance how the remote behaves, cycle by cycle, and lets a
system run against it. It chooses among the events that can happen and never
changes a system in any other way: the state of a scenario is always one that
a history leads to. The calls of one scenario take their turns in the order in
which they were made.
-/

namespace DocWatch.Update

/-- How a body may come to a halt without an end. -/
inductive Hang where
  /-- Nothing further arrives. -/
  | stalls
  /-- The token is cancelled and nothing further arrives. -/
  | cancels
  deriving DecidableEq, Repr

/-- A body as it is going to arrive. -/
structure Delivery where
  feed : Archive.Feed
  hang : Option Hang
  deriving DecidableEq, Repr

/-- How the remote behaves in one cycle. -/
structure Cycle where
  /-- Whether the token is cancelled while the refs are listed. -/
  cancelsWhileListing : Bool
  listing : Except Fault Refs
  fetch : Except Fault Delivery

/-- The remote in a scenario: how it is going to behave, and what it was asked. -/
structure Remote where
  /-- The cycles by their numbers, from zero, as far as there are any. -/
  course : Nat → Option Cycle
  /-- Whether the token is cancelled when the remote is asked once more than
  there are cycles. -/
  cancelsAtEnd : Bool
  /-- The number of listings. -/
  listings : Nat
  /-- The addresses that were fetched. -/
  fetches : List String

/-- A system together with its remote. -/
structure Scenario where
  settings : Settings
  system : System
  remote : Remote
  /-- The time of every publication. -/
  clock : Time.Instant

/-- A comparison of the published commit with the latest one of the remote. -/
structure Comparison where
  tracked : String
  latest : String
  deriving DecidableEq, Repr

/-- Whether the remote has moved on. -/
def Comparison.changed (c : Comparison) : Bool :=
  c.latest ≠ c.tracked

/-- The fault of a listing for which the scenario holds nothing. -/
def outOfCycles : Fault :=
  .remoteQuery (.stated "no scripted cycle left")

/-- Whether the extraction of a body goes on to what comes behind the pieces
that arrive: whether it makes a difference what that is. -/
def readsPast (filter : Archive.Filter) (feed : Archive.Feed) : Bool :=
  let behind (mark : String) := feed ++ [.failure (.abort (.transport mark))]
  match Archive.extract filter (behind "0"), Archive.extract filter (behind "1") with
  | .error a, .error b => a ≠ b
  | _, _ => false

namespace Scenario

/-- Lets an event happen, if it can. -/
def apply (s : Scenario) (e : Event) : Scenario :=
  match s.system.step? s.settings e with
  | some system => { s with system }
  | none => s

/-- Whether the token of all calls has been cancelled. -/
def cancelled (s : Scenario) : Bool :=
  s.system.isCancelled 0

/-- Asks the remote for its refs: the answer, and the cycle that it comes from. -/
def list (s : Scenario) : Except Fault Refs × Option Cycle × Scenario :=
  let asked := { s with remote := { s.remote with listings := s.remote.listings + 1 } }
  match s.remote.course s.remote.listings with
  | none =>
      if s.remote.cancelsAtEnd then (.error .cancelled, none, asked.apply .cancel)
      else (.error outOfCycles, none, asked)
  | some cycle =>
      (cycle.listing, some cycle, if cycle.cancelsWhileListing then asked.apply .cancel else asked)

/-- Asks the remote for the archive, whose body arrives as far as it does. -/
def fetch (s : Scenario) (id : Nat) (answer : Except Fault Delivery) : Scenario :=
  let asked := { s with
    remote := { s.remote with fetches := s.remote.fetches ++ [s.settings.archiveUrl] } }
  asked.apply (.act id (.fetched (answer.map Delivery.feed)))

/-- Ends the extraction of a delivery: by a cancellation, at a halt, or with all
that arrives. -/
def extract (s : Scenario) (id : Nat) (d : Delivery) : Scenario :=
  if s.cancelled then s.apply (.act id .interrupted)
  else
    match d.hang with
    | none => s.apply (.act id (.extracted none))
    | some hang =>
        if readsPast s.settings.filter d.feed then
          match hang with
          | .stalls => s.apply (.act id .timedOut)
          | .cancels => (s.apply .cancel).apply (.act id .interrupted)
        else s.apply (.act id (.extracted none))

/-- Goes on with a call that has found something to fetch. -/
def bring (s : Scenario) (id : Nat) (answer : Except Fault Delivery) : Scenario :=
  match s.system.phase? id with
  | some (.fetching _) =>
      let fetched := s.fetch id answer
      match answer with
      | .error _ => fetched
      | .ok d =>
          let indexed := (fetched.extract id d).apply (.act id .built)
          (indexed.apply (.act id .look)).apply (.act id (.publish s.clock))
  | _ => s

/-- Gives a waiting call its turn, or lets it notice that it is cancelled. -/
def serve (s : Scenario) (id : Nat) : Scenario :=
  let looked := s.apply (.act id .look)
  if s.cancelled then looked
  else
    let (answer, cycle, asked) := (looked.apply (.act id .acquire)).list
    let listed := asked.apply (.act id (.listed answer))
    match cycle with
    | none => listed
    | some c => listed.bring id c.fetch

/-- Makes `n` calls at one time: what they return, in their order. -/
def concurrent (s : Scenario) (n : Nat) : List (Option Result) × Scenario :=
  let first := s.system.calls.length
  let made := (List.range n).foldl (fun s _ => s.apply .call) s
  let served := (List.range n).foldl (fun s i => s.serve (first + i)) made
  ((List.range n).map fun i => served.system.result? (first + i), served)

/-- Makes one call. -/
def update (s : Scenario) : Option Result × Scenario :=
  let (results, after) := s.concurrent 1
  (results.head?.join, after)

/-- Compares the published commit with the remote, and fetches nothing. -/
def check (s : Scenario) : Except Fault Comparison × Scenario :=
  let (answer, _, asked) := s.list
  (answer.bind fun refs =>
    (refs.latest s.settings.branch).map fun latest => ⟨asked.system.published.commit, latest⟩,
    asked)

/-- Lets a beat happen to a loop in the system of a scenario, if it can. -/
def beat (s : Scenario) (p : Periodic) (b : Beat) : Scenario × Periodic :=
  let here := { p with system := s.system }
  match here.step? s.settings b with
  | some next => ({ s with system := next.system }, next)
  | none => (s, here)

/-- Lets a loop go on for `limit` ticks at most, each as soon as the call before
it has returned. -/
def periodicFrom (p : Periodic) (s : Scenario) : Nat → Scenario
  | 0 => s
  | limit + 1 =>
      let (looked, p) := s.beat p .look
      let (ticked, p) := looked.beat p .tick
      match p.loop with
      | .updating id =>
          let (settled, p) := (ticked.serve id).beat p .settle
          periodicFrom p settled limit
      | _ => ticked

/-- Makes one call after the other, `limit` of them at most, until the token is
cancelled or a call ends cancelled. -/
def periodic (s : Scenario) (limit : Nat) : Scenario :=
  periodicFrom (.start 0 s.system) s limit

end Scenario

end DocWatch.Update
