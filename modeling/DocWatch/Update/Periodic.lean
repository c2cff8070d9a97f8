import DocWatch.Update.System

/-!
# Updates at intervals

A loop makes a call at every tick of its clock and waits for what the call
returns before it turns to the clock again. It ends where it finds its token
cancelled, and where a call returns that it was cancelled. Whatever else a call
returns, the loop goes on.

The loop shares the system with all other calls, and what happens there goes on
beside it. Only one thing cannot happen: it never drops the call that it waits
for.
-/

namespace DocWatch.Update

/-- Whether a result says that the call was cancelled. -/
def saysCancelled : Result → Bool
  | .error e => e.isCancelled
  | .ok _ => false

/-- How far a loop has come. -/
inductive Loop where
  /-- It waits for its clock or its token. -/
  | waiting
  /-- It has found its token not cancelled and turns to its clock. -/
  | ready
  /-- It waits for a call. -/
  | updating (id : Nat)
  | stopped
  deriving DecidableEq, Repr

/-- A loop with the system that it makes its calls in. -/
structure Periodic where
  /-- The token of the loop and of all its calls. -/
  token : Nat
  system : System
  loop : Loop
  /-- The calls that it has made, in order. -/
  made : List Nat
  deriving Repr

/-- What may happen around a loop. -/
inductive Beat where
  /-- It looks at its token. -/
  | look
  /-- It finds that its clock has not ticked. -/
  | early
  /-- It finds that its clock has ticked, and makes a call. -/
  | tick
  /-- It receives what its call has returned. -/
  | settle
  /-- Something happens in the system. -/
  | event (e : Event)
  deriving Repr

namespace Periodic

/-- A loop before its first tick. -/
def start (token : Nat) (system : System) : Periodic :=
  ⟨token, system, .waiting, []⟩

/-- Whether an event drops the call that a loop waits for. -/
def abandons (p : Periodic) : Event → Bool
  | .act id .drop => p.loop = .updating id
  | _ => false

/-- The state after a beat, if it can happen. -/
def step? (c : Settings) (p : Periodic) : Beat → Option Periodic
  | .look =>
      match p.loop with
      | .waiting =>
          some { p with loop := if p.system.isCancelled p.token then .stopped else .ready }
      | _ => none
  | .early =>
      match p.loop with
      | .ready => some { p with loop := .waiting }
      | _ => none
  | .tick =>
      match p.loop with
      | .ready =>
          match p.system.step? c (.call p.token) with
          | some system =>
              let id := p.system.calls.length
              some { p with system, loop := .updating id, made := p.made ++ [id] }
          | none => none
      | _ => none
  | .settle =>
      match p.loop with
      | .updating id =>
          match p.system.result? id with
          | some r => some { p with loop := if saysCancelled r then .stopped else .waiting }
          | none => none
      | _ => none
  | .event e =>
      if p.abandons e then none
      else
        match p.system.step? c e with
        | some system => some { p with system }
        | none => none

/-- The state after some beats, if they can happen. -/
def run? (c : Settings) (p : Periodic) : List Beat → Option Periodic
  | [] => some p
  | b :: rest =>
      match p.step? c b with
      | none => none
      | some next => run? c next rest

end Periodic

end DocWatch.Update
