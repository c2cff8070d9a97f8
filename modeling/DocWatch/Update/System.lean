import DocWatch.Archive.Extract
import DocWatch.Binary64.Rounding
import DocWatch.Published
import DocWatch.Remote.Refs

/-!
# The update of the documents, step by step

Any number of calls may ask for an update at one time. They share a published
value and two meters, and each has a token that cancels it, which it may share
with other calls. The system moves by one event at a time: a call is made, looks
at its token, takes its turn, learns what the remote lists, fetches, extracts,
builds and publishes. An event that cannot happen in a state has no successor
there, so that a history is any list of events that can follow one another.

Only one call at a time has its turn, from the moment it reads the published
commit until it returns or is dropped. Only the last event of a turn changes
what is published, and it comes behind a look at the token. Whatever ends a turn
before that leaves the published value as it was.

What a call does from one wait to the next happens at once: nobody else writes
what it reads there, with the exception of the token. A token may be cancelled
at any moment, and so every look at it is an event of its own.
-/

namespace DocWatch.Update

/-- What an update needs to know of the remote. -/
structure Settings where
  archiveUrl : String
  branch : String
  filter : Archive.Filter
  /-- How long download and extraction may take together. -/
  timeoutMillis : Nat
  deriving DecidableEq, Repr

/-- How an update succeeds. -/
inductive Outcome where
  | upToDate (commit : String)
  | updated (oldCommit newCommit : String) (files : Nat)
  deriving DecidableEq, Repr

/-- What an update returns. -/
abbrev Result := Except UpdateFault Outcome

/-- How far a call has come. -/
inductive Phase where
  /-- It waits for its turn. -/
  | waiting
  /-- It has found its token not cancelled and reaches for its turn. -/
  | ready
  /-- It has read the published commit and asked for the refs. -/
  | listing (tracked : String)
  /-- It has found another commit and asked for the archive. -/
  | fetching (latest : String)
  /-- The body arrives and is extracted as it does. -/
  | extracting (latest : String) (body : Archive.Feed)
  /-- The documents are indexed. -/
  | indexing (latest : String) (tree : Tree)
  /-- The snapshot is built, and the token has to be looked at once more. -/
  | publishing (latest : String) (files : Nat) (snapshot : Snapshot)
  /-- The last look has found the token not cancelled. -/
  | cleared (latest : String) (files : Nat) (snapshot : Snapshot)
  | returned (result : Result)
  /-- Its caller has no more use for it, so it goes no further. -/
  | dropped
  deriving Repr

/-- Whether a call has its turn. -/
def Phase.hasTurn : Phase → Bool
  | .waiting | .ready | .returned _ | .dropped => false
  | _ => true

/-- Whether a call waits for something, so that it can be dropped. -/
def Phase.awaits : Phase → Bool
  | .ready | .publishing .. | .cleared .. | .returned _ | .dropped => false
  | _ => true

/-- What happens to a single call. -/
inductive Action where
  /-- It looks at its token: before it reaches for its turn, and before it
  publishes. -/
  | look
  /-- It reaches for its turn. -/
  | acquire
  /-- The remote has answered with its refs. -/
  | listed (answer : Except Fault Refs)
  /-- The host has answered with the body of the archive. -/
  | fetched (answer : Except Fault Archive.Feed)
  /-- The extraction has ended. A cancellation ends the body early, behind some
  number of its pieces. -/
  | extracted (cut : Option Nat)
  /-- Download and extraction took too long. -/
  | timedOut
  /-- A cancellation is noticed during download and extraction. -/
  | interrupted
  /-- The index is built. -/
  | built
  /-- The work that was handed to another thread broke down there. -/
  | crashed (why : String)
  /-- It publishes. -/
  | publish (now : Time.Instant)
  | drop
  deriving Repr

/-- What the remote can be asked. -/
inductive Request where
  | refs
  | archive (url : String)
  deriving DecidableEq, Repr

/-- What a call sees of the system. -/
structure Sight where
  /-- Whether its token has been cancelled. -/
  cancelled : Bool
  /-- Whether some call has its turn. -/
  busy : Bool
  /-- The commit that is published. -/
  commit : String
  deriving DecidableEq, Repr

/-- What a call does to the system. -/
inductive Effect where
  | nothing
  /-- Its turn has ended with a fault, which is counted. -/
  | failure
  | request (what : Request)
  | publication (next : Published)
  deriving DecidableEq, Repr

/-- The stage that a fault of download and extraction belongs to. -/
def stageOf : Fault → Stage
  | .download .. | .cancelled => .downloading
  | _ => .extracting

/-- The fault of a download that takes too long. -/
def timeoutFault (millis : Nat) : Fault :=
  .download none ("archive download timed out after " ++ toString (millis / 1000) ++ "s")

namespace Phase

/-- Ends a turn with a fault. -/
def fail (stage : Stage) (fault : Fault) : Phase × Effect :=
  (.returned (.error ⟨stage, fault⟩), .failure)

/-- Ends a turn with a fault of download and extraction. -/
def breakOff (fault : Fault) : Phase × Effect :=
  fail (stageOf fault) fault

/-- Goes on with a listing: a branch that stands at the tracked commit needs
nothing more. -/
def listed (c : Settings) (tracked : String) (answer : Except Fault Refs) : Phase × Effect :=
  match answer.bind fun refs => refs.latest c.branch with
  | .error fault => fail .checkingRemote fault
  | .ok latest =>
      if latest = tracked then (.returned (.ok (.upToDate latest)), .nothing)
      else (.fetching latest, .request (.archive c.archiveUrl))

/-- Goes on with the answer of the host. -/
def fetched (latest : String) : Except Fault Archive.Feed → Phase × Effect
  | .error fault => fail .downloading fault
  | .ok body => (.extracting latest body, .nothing)

/-- Goes on with what the extraction of a body gave. -/
def extracted (latest : String) : Except Fault Tree → Phase × Effect
  | .error fault => breakOff fault
  | .ok tree => (.indexing latest tree, .nothing)

/-- Goes on with what the indexing gave. -/
def built (latest : String) (tree : Tree) : Phase × Effect :=
  match Snapshot.build tree with
  | .error fault => fail .indexing fault
  | .ok snapshot => (.publishing latest tree.size snapshot, .nothing)

/-- How a call goes on and what it does, if an action can happen to it. -/
def next? (c : Settings) (v : Sight) : Phase → Action → Option (Phase × Effect)
  | .waiting, .look =>
      if v.cancelled then some (.returned (.error ⟨.checkingRemote, .cancelled⟩), .nothing)
      else some (.ready, .nothing)
  | .ready, .acquire =>
      if v.busy then some (.waiting, .nothing) else some (.listing v.commit, .request .refs)
  | .listing tracked, .listed answer => some (listed c tracked answer)
  | .fetching latest, .fetched answer => some (fetched latest answer)
  | .extracting latest body, .extracted cut =>
      if cut.isSome && !v.cancelled then none
      else some (extracted latest (Archive.extract c.filter (body.cutAt cut)))
  | .extracting _ _, .timedOut => some (breakOff (timeoutFault c.timeoutMillis))
  | .extracting _ _, .interrupted =>
      if v.cancelled then some (fail .downloading .cancelled) else none
  | .extracting _ _, .crashed why =>
      some (breakOff (.malformedArchive (.unreadable ("extraction task failed: " ++ why))))
  | .indexing latest tree, .built => some (built latest tree)
  | .indexing _ _, .crashed why =>
      some (fail .indexing (.indexBuild (.stated ("indexing task failed: " ++ why))))
  | .publishing latest files snapshot, .look =>
      if v.cancelled then some (fail .publishing .cancelled)
      else some (.cleared latest files snapshot, .nothing)
  | .cleared latest files snapshot, .publish now =>
      some (.returned (.ok (.updated v.commit latest files)),
        .publication ((Published.ofSnapshot snapshot latest).publishedNow now))
  | phase, .drop => if phase.awaits then some (.dropped, .nothing) else none
  | _, _ => none

end Phase

/-- A call with the name of its token. -/
structure Call where
  token : Nat
  phase : Phase
  deriving Repr

/-- What is measured of updates. -/
structure Meters where
  /-- The turns that ended with a fault, cancelled ones included. -/
  failures : Nat
  /-- When an update last published, in seconds since the beginning of 1970. -/
  lastUpdate : Binary64
  deriving Repr

/-- Meters before anything happened. -/
def Meters.start : Meters := ⟨0, .zero⟩

/-- An instant in seconds since the beginning of 1970, as it is measured. -/
def gaugeOf (t : Time.Instant) : Binary64 :=
  (Binary64.ofInt t.millis).div (.ofNat 1000)

/-- Takes down when a value was published. -/
def Meters.note (m : Meters) : Option Time.Instant → Meters
  | some now => { m with lastUpdate := gaugeOf now }
  | none => m

/-- The published value, what is measured, the tokens that have been cancelled,
all calls in the order in which they were made, and what they have asked of the
remote, in that order too. -/
structure System where
  shelf : Shelf
  meters : Meters
  cancelled : List Nat
  calls : List Call
  requests : List (Nat × Request)
  deriving Repr

/-- A system without calls. -/
def System.start (published : Published) : System :=
  ⟨⟨published⟩, .start, [], [], []⟩

/-- What may happen. Calls are named by their number; token zero is the one that
all calls of the program share. -/
inductive Event where
  /-- A further call is made. -/
  | call (token : Nat := 0)
  /-- A token is cancelled. -/
  | cancel (token : Nat := 0)
  | act (id : Nat) (action : Action)
  deriving Repr

namespace System

/-- What readers see. -/
def published (s : System) : Published :=
  s.shelf.current

/-- Whether a token has been cancelled. -/
def isCancelled (s : System) (token : Nat) : Bool :=
  s.cancelled.contains token

/-- Whether some call has its turn. -/
def busy (s : System) : Bool :=
  s.calls.any fun call => call.phase.hasTurn

/-- What a call sees. -/
def sight (s : System) (call : Call) : Sight :=
  ⟨s.isCancelled call.token, s.busy, s.published.commit⟩

/-- Lets the effect of a call happen. -/
def perform (s : System) (id : Nat) : Effect → System
  | .nothing => s
  | .failure => { s with meters := { s.meters with failures := s.meters.failures + 1 } }
  | .request what => { s with requests := s.requests ++ [(id, what)] }
  | .publication next =>
      { s with
        shelf := (s.shelf.swap next).2
        meters := s.meters.note next.publishedAt }

/-- Moves a call on, which has an effect. -/
def advance (s : System) (id : Nat) (call : Call) (phase : Phase) (effect : Effect) : System :=
  { s.perform id effect with calls := s.calls.set id { call with phase } }

/-- Lets an action happen to a call, if it can. -/
def act? (c : Settings) (s : System) (id : Nat) (action : Action) : Option System :=
  match s.calls[id]? with
  | none => none
  | some call =>
      match call.phase.next? c (s.sight call) action with
      | none => none
      | some (phase, effect) => some (s.advance id call phase effect)

/-- The state after an event, if the event can happen. -/
def step? (c : Settings) (s : System) : Event → Option System
  | .call token => some { s with calls := s.calls ++ [⟨token, .waiting⟩] }
  | .cancel token => some { s with cancelled := token :: s.cancelled }
  | .act id action => s.act? c id action

/-- The state after a history, if the history can happen. -/
def run? (c : Settings) (s : System) : List Event → Option System
  | [] => some s
  | e :: rest =>
      match s.step? c e with
      | none => none
      | some next => run? c next rest

/-- How far a call has come. -/
def phase? (s : System) (id : Nat) : Option Phase :=
  s.calls[id]?.map Call.phase

/-- What a call has returned. -/
def result? (s : System) (id : Nat) : Option Result :=
  match s.phase? id with
  | some (.returned r) => some r
  | _ => none

end System

end DocWatch.Update
