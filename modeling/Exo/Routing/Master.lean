import Exo.Shared.Apply
import Exo.Routing.EventBuffer

/-!
# The master's event processor

The master puts the events of every source in order, gives each the next index
of its log, applies it and broadcasts it. The commands it handles reach the log
as events of its own sender, like those of everyone else; only the request to
replay a range of the log is answered here.
-/

namespace Exo

open Lib

/-- What the master overwrites in an event before logging it: the time a node was seen. -/
def Event.stamp (now : Time) (e : Event) : Event :=
  match e.body with
  | .nodeGatheredInfo nodeId _ => { e with body := .nodeGatheredInfo nodeId now }
  | _ => e

/-- An event without what the master overwrites. -/
def Event.unstamped (e : Event) : Event := e.stamp 0

@[simp] theorem Event.stamp_eventId (now : Time) (e : Event) :
    (e.stamp now).eventId = e.eventId := by
  unfold Event.stamp
  split <;> rfl

@[simp] theorem Event.unstamped_stamp (now : Time) (e : Event) :
    (e.stamp now).unstamped = e.unstamped := by
  obtain ⟨id, body⟩ := e
  cases body <;> rfl

structure Master where
  nodeId : NodeId
  sessionId : SessionId
  multiBuffer : MultiSourceBuffer SystemId Event := {}
  eventLog : List Event := []
  state : State := {}
  /-- The rest of the loop over the drained events. -/
  draining : List Event := []
  /-- An assertion failed in the event processor. -/
  raised : Bool := false

namespace Master

/-- At most this many events answer one request. -/
def replayLimit : Nat := 1000

/-- `_event_processor` takes a local event, unless it is of another session. -/
def receive (m : Master) (f : LocalForwarderEvent) : Master :=
  if f.session ≠ m.sessionId then m
  else
    match m.multiBuffer.ingest f.originIdx f.event f.origin with
    | none => { m with raised := true }
    | some buf => { m with multiBuffer := buf.drain.2, draining := buf.drain.1 }

theorem receive_eventLog (m : Master) (f : LocalForwarderEvent) :
    (m.receive f).eventLog = m.eventLog := by
  unfold receive
  split
  · rfl
  · split <;> rfl

/-- The broadcast form of a logged event. -/
def global (m : Master) (idx : Nat) (event : Event) : GlobalForwarderEvent :=
  { originIdx := idx, origin := m.nodeId, session := m.sessionId, event := event }

/--
One round of the loop over the drained events. Traces are collected elsewhere;
everything else is stamped, applied, logged and broadcast.
-/
def index (m : Master) (now : Time) : Option (Master × Option GlobalForwarderEvent) :=
  match m.draining with
  | [] => none
  | event :: rest =>
      if event.isTracesCollected then some ({ m with draining := rest }, none)
      else
        let event := event.stamp now
        let idx := m.eventLog.length
        match apply m.state ⟨idx, event⟩ with
        | none => some ({ m with raised := true }, none)
        | some s =>
            some ({ m with draining := rest, state := s, eventLog := m.eventLog ++ [event] },
              some (m.global idx event))

theorem receive_ids (m : Master) (f : LocalForwarderEvent) :
    (m.receive f).sessionId = m.sessionId ∧ (m.receive f).nodeId = m.nodeId := by
  unfold receive
  split
  · exact ⟨rfl, rfl⟩
  · split
    · exact ⟨rfl, rfl⟩
    · exact ⟨rfl, rfl⟩

theorem index_ids {m m' : Master} {now : Time} {out : Option GlobalForwarderEvent}
    (h : m.index now = some (m', out)) : m'.sessionId = m.sessionId ∧ m'.nodeId = m.nodeId := by
  unfold index at h
  split at h
  · cases h
  · split at h
    · obtain ⟨rfl, -⟩ := Prod.mk.inj (Option.some.inj h)
      exact ⟨rfl, rfl⟩
    · dsimp only at h
      split at h
      · obtain ⟨rfl, -⟩ := Prod.mk.inj (Option.some.inj h)
        exact ⟨rfl, rfl⟩
      · obtain ⟨rfl, -⟩ := Prod.mk.inj (Option.some.inj h)
        exact ⟨rfl, rfl⟩

/-- `DiskEventLog.read_range`: the events from `start` up to `stop`. -/
def readRange (log : List Event) (start stop : Nat) : List Event := (log.take stop).drop start

/-- The answer to `RequestEventLog`: a bounded range of the log, indexed as it was logged. -/
def replay (m : Master) (sinceIdx : Nat) : List GlobalForwarderEvent :=
  let stop := min (sinceIdx + replayLimit) m.eventLog.length
  ((readRange m.eventLog sinceIdx stop).zipIdx sinceIdx).map fun p => m.global p.2 p.1

end Master

end Exo
