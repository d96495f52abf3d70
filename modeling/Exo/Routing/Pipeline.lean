import Mathlib.Data.Multiset.AddSub
import Exo.Lib.Machine
import Exo.Routing.EventRouter
import Exo.Routing.Master

/-!
# The event pipeline of one session

The master, an event router on every node, and the network between them. A
message in flight can be lost, duplicated, and delivered in any order; a
broadcast is a message that is duplicated for every node it reaches.

`emitted` in an `Ingest` and `drawn` in a `World` are histories: no coroutine
reads the part of `emitted` it has already taken out, and `drawn` only says that
two events never draw the same id.
-/

namespace Exo

open Lib

inductive Message where
  | localEvent (f : LocalForwarderEvent)
  | globalEvent (g : GlobalForwarderEvent)
  | requestEventLog (sinceIdx : Nat)
  deriving DecidableEq

structure World where
  now : Time
  net : Multiset Message
  /-- The router of every node. -/
  routers : Nat → EventRouter
  /-- The node on whose router an `_ingest` runs, and the coroutine. -/
  ingests : SystemId → Option (Nat × Ingest)
  master : Master
  /-- The event ids drawn so far. -/
  drawn : List EventId

namespace World

/-- One session: its id, and how many consumers the router of each node has. -/
structure Config where
  sessionId : SessionId
  consumers : Nat → Nat

/-- A session starts with empty buffers and an empty log. -/
def init (cfg : Config) : World where
  now := 0
  net := 0
  routers := fun n =>
    { sessionId := cfg.sessionId
      internalOutbound := List.replicate (cfg.consumers n) {} }
  ingests := fun _ => none
  master := { nodeId := cfg.sessionId.masterNodeId, sessionId := cfg.sessionId }
  drawn := []

def setRouter (w : World) (n : Nat) (r : EventRouter) : World :=
  { w with routers := Function.update w.routers n r }

def setIngest (w : World) (s : SystemId) (n : Nat) (g : Ingest) : World :=
  { w with ingests := Function.update w.ingests s (some (n, g)) }

def send (w : World) (m : Message) : World := { w with net := m ::ₘ w.net }

/-- What a source has sent into its channel so far. -/
def emitted (w : World) (s : SystemId) : List Event :=
  (w.ingests s).elim [] fun p => p.2.emitted

section Projections

variable (w : World) (n n' : Nat) (r : EventRouter) (s s' : SystemId) (g : Ingest)

@[simp] theorem emitted_setRouter : (w.setRouter n r).emitted = w.emitted := rfl

theorem routers_setRouter : (w.setRouter n r).routers n' = if n' = n then r else w.routers n' := by
  simp [setRouter, Function.update_apply]

theorem ingests_setIngest :
    (w.setIngest s n g).ingests s' = if s' = s then some (n, g) else w.ingests s' := by
  simp [setIngest, Function.update_apply]

theorem emitted_setIngest :
    (w.setIngest s n g).emitted = Function.update w.emitted s g.emitted := by
  funext s'
  by_cases hs : s' = s
  · subst hs; simp [emitted, setIngest]
  · simp [emitted, setIngest, Function.update_of_ne hs]

end Projections

/-- What can happen next. -/
inductive Action where
  | tick (d : Nat)
  | lose (m : Message)
  | duplicate (m : Message)
  /-- A component asks its router for a sender. -/
  | sender (n : Nat) (s : SystemId)
  /-- A component sends an event. -/
  | emit (s : SystemId) (e : Event)
  | ingestSend (s : SystemId)
  | ingestRecord (s : SystemId)
  | retryStart (n : Nat)
  | retryNext (n : Nat)
  | receiveGlobal (n : Nat) (g : GlobalForwarderEvent)
  | handOut (n : Nat)
  | nackEnter (n : Nat) (k : Nack)
  | nackFire (n : Nat) (k : Nack)
  | nackCancelled (n : Nat) (k : Nack)
  | close (n : Nat) (i : Nat)
  | consume (n : Nat) (i : Nat)
  | masterReceive (f : LocalForwarderEvent)
  | masterIndex
  | masterReplay (sinceIdx : Nat)

/-- `_ingest` numbers the next event of its channel and sends it. -/
def ingestSend (w : World) (s : SystemId) : Option World :=
  match w.ingests s with
  | none => none
  | some (n, g) =>
      match g.unrecorded, g.emitted[g.idx]? with
      | none, some e =>
          let f : LocalForwarderEvent :=
            { originIdx := g.idx, origin := s, session := (w.routers n).sessionId, event := e }
          some ((w.setIngest s n { g with idx := g.idx + 1, unrecorded := some f }).send
            (.localEvent f))
      | _, _ => none

/-- `_ingest` writes what it has just sent to `out_for_delivery`. -/
def ingestRecord (w : World) (s : SystemId) : Option World :=
  match w.ingests s with
  | none => none
  | some (n, g) =>
      match g.unrecorded with
      | none => none
      | some f =>
          let r := w.routers n
          some ((w.setIngest s n { g with unrecorded := none }).setRouter n
            { r with outForDelivery := r.outForDelivery.set f.event.eventId (w.now, f) })

/-- The consumer at place `i` of a router changes. -/
def onConsumer (w : World) (n i : Nat) (f : Consumer → Option Consumer) : Option World :=
  match (w.routers n).internalOutbound[i]? with
  | none => none
  | some c =>
      (f c).map fun c' =>
        w.setRouter n { w.routers n with
          internalOutbound := (w.routers n).internalOutbound.set i c' }

def step (w : World) : Action → Option World
  | .tick d => some { w with now := w.now + d }
  | .lose m => if m ∈ w.net then some { w with net := w.net.erase m } else none
  | .duplicate m => if m ∈ w.net then some (w.send m) else none
  | .sender n s =>
      match w.ingests s with
      | some _ => none
      | none => some (w.setIngest s n {})
  | .emit s e =>
      match w.ingests s with
      | none => none
      | some (n, g) =>
          if e.eventId ∈ w.drawn then none
          else some { w.setIngest s n { g with emitted := g.emitted ++ [e] } with
            drawn := e.eventId :: w.drawn }
  | .ingestSend s => w.ingestSend s
  | .ingestRecord s => w.ingestRecord s
  | .retryStart n =>
      let r := w.routers n
      if r.retrying = [] then
        some (w.setRouter n { r with
          retrying := r.outForDelivery.entries.map fun e => (e.1, e.2.1, e.2.2) })
      else none
  | .retryNext n =>
      match (w.routers n).retryNext w.now with
      | none => none
      | some (r, none) => some (w.setRouter n r)
      | some (r, some f) => some ((w.setRouter n r).send (.localEvent f))
  | .receiveGlobal n g =>
      let r := w.routers n
      if .globalEvent g ∈ w.net ∧ r.raised = false ∧ r.drained = [] then
        some ({ w with net := w.net.erase (.globalEvent g) }.setRouter n (r.receive g))
      else none
  | .handOut n => (w.routers n).handOut.map fun r => w.setRouter n r
  | .nackEnter n k =>
      if k ∈ (w.routers n).nacks ∧ k.entered = false then
        some (w.setRouter n ((w.routers n).nackEnter k.id))
      else none
  | .nackFire n k =>
      if k ∈ (w.routers n).nacks ∧ k.entered ∧ k.cancelCalled = false then
        some ((w.setRouter n ((w.routers n).nackExit k.id)).send (.requestEventLog k.sinceIdx))
      else none
  | .nackCancelled n k =>
      if k ∈ (w.routers n).nacks ∧ k.entered ∧ k.cancelCalled then
        some (w.setRouter n ((w.routers n).nackExit k.id))
      else none
  | .close n i => w.onConsumer n i fun c => some { c with closed := true }
  | .consume n i => w.onConsumer n i Consumer.consume
  | .masterReceive f =>
      let m := w.master
      if .localEvent f ∈ w.net ∧ m.raised = false ∧ m.draining = [] then
        some { w with net := w.net.erase (.localEvent f), master := m.receive f }
      else none
  | .masterIndex =>
      if w.master.raised then none
      else
        match w.master.index w.now with
        | none => none
        | some (m, none) => some { w with master := m }
        | some (m, some g) => some ({ w with master := m }.send (.globalEvent g))
  | .masterReplay sinceIdx =>
      if .requestEventLog sinceIdx ∈ w.net then
        some { w with
          net := w.net.erase (.requestEventLog sinceIdx)
            + ((w.master.replay sinceIdx).map Message.globalEvent : List Message) }
      else none

/-- The pipeline of a session, as a machine. -/
def machine (cfg : Config) : Machine World Action := ⟨init cfg, step⟩

end World

end Exo
