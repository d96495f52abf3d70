import Exo.Shared.Apply
import Exo.Routing.EventBuffer

/-!
# The event router of a node

Events leave a node through `_ingest`, one coroutine for each sender handed out,
which numbers them and keeps a copy until the master's echo comes back. They come
back through `_run_ext_in`, which puts the master's events in the order of their
indices and hands them to the consumers on the node.

A coroutine can be suspended at every `await`, so each function below stops at
the next one and the state records where it stands.
-/

namespace Exo

open Lib

/-- One `_ingest` coroutine and the channel it reads. -/
structure Ingest where
  /-- Everything ever sent into its channel. The first `idx` of it have been taken out. -/
  emitted : List Event := []
  idx : Nat := 0
  /-- Sent, but not yet written to `out_for_delivery`. -/
  unrecorded : Option LocalForwarderEvent := none

/-- A receiver of the router's events: a `Worker` or an `API` and its state. -/
structure Consumer where
  /-- Its sender is still in `internal_outbound`. -/
  attached : Bool := true
  /-- It closed its end of the channel. -/
  closed : Bool := false
  /-- What waits in its channel. -/
  inbox : List IndexedEvent := []
  /-- What it has taken out so far. -/
  applied : List IndexedEvent := []
  state : State := {}
  /-- `apply` failed its assertion. -/
  raised : Bool := false

/-- Everything the router has handed to a consumer. -/
def Consumer.handed (c : Consumer) : List IndexedEvent := c.applied ++ c.inbox

/-- `sender.send`, which detaches a sender whose receiver is closed. -/
def Consumer.send (c : Consumer) (e : IndexedEvent) : Consumer :=
  if c.attached = false then c
  else if c.closed then { c with attached := false }
  else { c with inbox := c.inbox ++ [e] }

/-- The consumer's loop takes one event and applies it. -/
def Consumer.consume (c : Consumer) : Option Consumer :=
  if c.closed ∨ c.raised then none
  else
    match c.inbox with
    | [] => none
    | e :: rest =>
        match apply c.state e with
        | none => some { c with raised := true }
        | some s => some { c with inbox := rest, applied := c.applied ++ [e], state := s }

/-- A running `_nack_request`. -/
structure Nack where
  id : Nat
  sinceIdx : Nat
  /-- It has entered its cancel scope and is asleep. -/
  entered : Bool := false
  cancelCalled : Bool := false
  deriving DecidableEq

structure EventRouter where
  sessionId : SessionId
  buf : OrderedBuffer Event := {}
  outForDelivery : Dict EventId (Time × LocalForwarderEvent) := .empty
  /-- The rest of the snapshot that `_simple_retry` walks over. -/
  retrying : List (EventId × Time × LocalForwarderEvent) := []
  internalOutbound : List Consumer := []
  /-- The rest of the `for idx, event in drained` loop. -/
  drained : List (Nat × Event) := []
  /-- The consumer that is next in line for the head of `drained`. -/
  position : Nat := 0
  nackCancelScope : Option Nat := none
  nackAttempts : Nat := 0
  nacks : List Nack := []
  nextNackId : Nat := 0
  /-- The buffer failed its assertion. -/
  raised : Bool := false

namespace EventRouter

/-- `_simple_retry` resends what has been waiting for longer than this. -/
def retryAfter : Time := 5000

/-- `_nack_cancel_scope.cancel_called`. -/
def nackCancelCalled (r : EventRouter) : Bool :=
  r.nacks.any fun n => r.nackCancelScope == some n.id && n.cancelCalled

/-- `_nack_cancel_scope.cancel()`. -/
def cancelNack (r : EventRouter) : EventRouter :=
  { r with
    nacks := r.nacks.map fun n =>
      if r.nackCancelScope = some n.id then { n with cancelCalled := true } else n }

/-- `start_soon(self._nack_request, since_idx)`. -/
def startNack (r : EventRouter) (sinceIdx : Nat) : EventRouter :=
  { r with
    nacks := r.nacks ++ [{ id := r.nextNackId, sinceIdx := sinceIdx }]
    nextNackId := r.nextNackId + 1 }

/-- One round of `_run_ext_in`, up to the loop over the drained events. -/
def receive (r : EventRouter) (g : GlobalForwarderEvent) : EventRouter :=
  if g.session ≠ r.sessionId then r
  else if g.origin ≠ r.sessionId.masterNodeId then r
  else
    match r.buf.ingest g.originIdx g.event with
    | none => { r with raised := true }
    | some buf =>
        let released := buf.drainIndexed
        let r := { r with
          buf := released.2
          outForDelivery := r.outForDelivery.erase g.event.eventId }
        if released.1 = [] then
          if r.nackCancelScope = none ∨ r.nackCancelCalled then
            r.startNack released.2.nextIdxToRelease
          else r
        else
          { r.cancelNack with nackAttempts := 0, drained := released.1, position := 0 }

/-- The loop over the drained events hands one event to one consumer. -/
def handOut (r : EventRouter) : Option EventRouter :=
  match r.drained with
  | [] => none
  | (idx, event) :: rest =>
      match r.internalOutbound[r.position]? with
      | some c =>
          some { r with
            internalOutbound := r.internalOutbound.set r.position (c.send ⟨idx, event⟩)
            position := r.position + 1 }
      | none => some { r with drained := rest, position := 0 }

/-- `_nack_request` enters its scope and goes to sleep. -/
def nackEnter (r : EventRouter) (id : Nat) : EventRouter :=
  { r with
    nackCancelScope := some id
    nackAttempts := r.nackAttempts + 1
    nacks := r.nacks.map fun n => if n.id = id then { n with entered := true } else n }

/-- `_nack_request` ends, and gives its scope up if it still holds it. -/
def nackExit (r : EventRouter) (id : Nat) : EventRouter :=
  { r with
    nackCancelScope := if r.nackCancelScope = some id then none else r.nackCancelScope
    nacks := r.nacks.filter fun n => n.id ≠ id }

/-- `_simple_retry` takes the next entry of its snapshot; an old one is stamped and resent. -/
def retryNext (r : EventRouter) (now : Time) : Option (EventRouter × Option LocalForwarderEvent) :=
  match r.retrying with
  | [] => none
  | (eId, time, f) :: rest =>
      if now > time + retryAfter then
        some ({ r with
          retrying := rest
          outForDelivery := r.outForDelivery.set eId (now, f) }, some f)
      else some ({ r with retrying := rest }, none)

end EventRouter

end Exo
