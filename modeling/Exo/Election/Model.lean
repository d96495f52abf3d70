import Mathlib.Data.List.MinMax
import Exo.Lib.Machine
import Exo.Shared.Types

/-!
# The election of one node

Every round of an election is a campaign, a coroutine of its own. A message of a
higher clock or a new connection starts one; a campaign that starts kills the one
before it and waits until it is gone. A coroutine can be suspended at every
`await`, and a `Stage` says at which.

A scope that was cancelled raises at the next `await` that looks at it. A send
and a checkpoint look before they go on. A sleep does not, when its timer has
already fired.

`round`, `superseded`, `received` and `emitted` are histories: no coroutine reads
them.
-/

namespace Exo

open Lib

structure ElectionMessage where
  clock : Int
  seniority : Int
  proposedSession : SessionId
  commandsSeen : Int
  deriving DecidableEq, Repr

/-- `__lt__`. -/
def ElectionMessage.lt (a b : ElectionMessage) : Bool :=
  if a.clock ≠ b.clock then a.clock < b.clock
  else if a.seniority ≠ b.seniority then a.seniority < b.seniority
  else if a.commandsSeen ≠ b.commandsSeen then a.commandsSeen < b.commandsSeen
  else a.proposedSession.masterNodeId < b.proposedSession.masterNodeId

theorem ElectionMessage.lt_irrefl (a : ElectionMessage) : a.lt a = false := by
  simp [ElectionMessage.lt]

theorem ElectionMessage.lt_trans {a b c : ElectionMessage} (hab : a.lt b) (hbc : b.lt c) :
    a.lt c := by
  unfold ElectionMessage.lt at *
  split at hab <;> split at hbc <;> split <;> simp_all <;> grind

/-- `max(candidates)`, the first message that no other beats. -/
def maxCandidate (candidates : List ElectionMessage) : Option ElectionMessage :=
  candidates.foldl (List.argAux fun m best => best.lt m) none

variable {candidates : List ElectionMessage}

theorem maxCandidate_mem {m : ElectionMessage}
    (h : maxCandidate candidates = some m) : m ∈ candidates := by
  induction candidates using List.reverseRecOn generalizing m with
  | nil => simp [maxCandidate] at h
  | append_singleton l a ih =>
      simp only [maxCandidate, List.foldl_append, List.foldl_cons, List.foldl_nil] at h ih
      cases hb : l.foldl (List.argAux fun m best => best.lt m) none with
      | none => simp [hb, List.argAux] at h; simp [h]
      | some b =>
          rw [hb] at h
          simp only [List.argAux] at h
          split at h
          · rw [← Option.some.inj h]; simp
          · exact List.mem_append_left _ (Option.some.inj h ▸ ih hb)

/-- Nobody beats the elected message. -/
theorem maxCandidate_not_lt {m a : ElectionMessage}
    (h : maxCandidate candidates = some m) (ha : a ∈ candidates) : m.lt a = false := by
  have hirr : Std.Irrefl (fun m best : ElectionMessage => best.lt m = true) :=
    ⟨fun x hx => by simp [ElectionMessage.lt_irrefl] at hx⟩
  have htrans : IsTrans ElectionMessage (fun m best => best.lt m = true) :=
    ⟨fun _ _ _ hxy hyz => ElectionMessage.lt_trans hyz hxy⟩
  have := List.not_of_mem_foldl_argAux _ hirr htrans ha h
  simpa using this

structure ElectionResult where
  sessionId : SessionId
  wonClock : Int
  isNewMaster : Bool
  deriving DecidableEq, Repr

/-- A result, with the list it was taken from and how much had been received by then. -/
structure Outcome where
  result : ElectionResult
  queue : List ElectionMessage
  receivedBefore : Nat
  deriving DecidableEq, Repr

/-- The `await` a campaign is suspended at. -/
inductive Stage where
  /-- Created by `start_soon`, not run yet. -/
  | spawned
  /-- `await self._campaign_done.wait()`, with the campaign whose event it is. -/
  | waiting (done : Nat)
  /-- The first `await self._em_sender.send(status)`. -/
  | sending
  /-- `await anyio.sleep(campaign_timeout)`. -/
  | sleeping
  /-- The second `await self._em_sender.send(status)`. -/
  | resending
  /-- `await anyio.sleep(0)`. -/
  | checkpoint
  /-- `await self._er_sender.send(...)` in `elect`. -/
  | electing (outcome : Outcome)
  | finished
  deriving DecidableEq, Repr

/-- Past the wait for the old campaign, and not yet finished. -/
def Stage.running : Stage → Bool
  | .sending | .sleeping | .resending | .checkpoint | .electing _ => true
  | _ => false

/-- Still waiting for the old campaign. -/
def Stage.isWaiting : Stage → Bool
  | .waiting _ => true
  | _ => false

structure Campaign where
  /-- The clock when its list of candidates was made. -/
  round : Int
  candidates : List ElectionMessage
  /-- The clock it read when it started. -/
  clock : Int := 0
  status : Option ElectionMessage := none
  stage : Stage := .spawned
  /-- `scope.cancel()` was called. -/
  cancelCalled : Bool := false
  /-- A campaign started after it. -/
  superseded : Bool := false
  deriving DecidableEq, Repr

structure Election where
  nodeId : NodeId
  seniority : Int
  clock : Int := 0
  commandsSeen : Int := 0
  currentSession : SessionId
  campaigns : List Campaign := []
  /-- The campaign whose list is `_candidates`. -/
  candidates : Nat := 0
  /-- The campaign whose scope is `_campaign_cancel_scope`. -/
  campaignCancelScope : Option Nat := none
  /-- The campaign whose event is `_campaign_done`. -/
  campaignDone : Option Nat := none
  /-- What went out through `_em_sender`. -/
  broadcast : List ElectionMessage := []
  emitted : List Outcome := []
  /-- Every message that came in, with the clock right after it. -/
  received : List (Int × ElectionMessage) := []
  deriving DecidableEq

namespace Election

/-- `_election_status`. -/
def electionStatus (e : Election) (clock : Int) : ElectionMessage where
  proposedSession :=
    if e.currentSession.masterNodeId = e.nodeId then e.currentSession
    else { masterNodeId := e.nodeId, electionClock := clock }
  clock := clock
  seniority := e.seniority
  commandsSeen := e.commandsSeen

/-- A new list of candidates, and `start_soon(self._campaign, ...)` for it. -/
def spawn (e : Election) (candidates : List ElectionMessage) : Election :=
  { e with
    campaigns := e.campaigns ++ [{ round := e.clock, candidates := candidates }]
    candidates := e.campaigns.length }

/-- One round of `_election_receiver`. -/
def receive (e : Election) (m : ElectionMessage) : Election :=
  if m.proposedSession.masterNodeId = e.nodeId then e
  else if m.clock > e.clock then
    { e with clock := m.clock }.spawn [m]
  else if m.clock < e.clock then e
  else
    { e with
      campaigns := e.campaigns.modify e.candidates fun c =>
        { c with candidates := c.candidates ++ [m] } }

/-- One round of `_connection_receiver`. -/
def connect (e : Election) : Election :=
  { e with clock := e.clock + 1 }.spawn []

/-- A campaign goes past the wait, adds its own status and comes to the first send. -/
def enter (e : Election) (i : Nat) (c : Campaign) : Election :=
  let status := e.electionStatus c.clock
  { e with
    campaignDone := some i
    campaignCancelScope := some i
    campaigns := e.campaigns.set i
      { c with candidates := c.candidates ++ [status], status := some status, stage := .sending } }

/-- What the start of campaign `i` does to the others: the one whose scope it sees is cancelled. -/
def Campaign.overtaken (scope : Option Nat) (j : Nat) (c : Campaign) : Campaign :=
  if c.stage = .spawned then c
  else { c with superseded := true, cancelCalled := c.cancelCalled || scope == some j }

/-- A campaign starts: it reads the clock, kills the old one and comes to the wait. -/
def begin (e : Election) (i : Nat) : Option Election :=
  match e.campaigns[i]? with
  | some c =>
      if c.stage = .spawned then
        let e' := { e with
          campaigns := e.campaigns.mapIdx (Campaign.overtaken e.campaignCancelScope) }
        let c := { c with clock := e.clock }
        match e.campaignDone with
        | none => some (e'.enter i c)
        | some d =>
            some { e' with campaigns := e'.campaigns.set i { c with stage := .waiting d } }
      else none
  | none => none

/-- The `finally` block. -/
def finish (e : Election) (i : Nat) (c : Campaign) : Election :=
  { e with
    campaignCancelScope := if e.campaignCancelScope = some i then none else e.campaignCancelScope
    campaigns := e.campaigns.set i { c with stage := .finished } }

/-- The end of the election, and `elect` up to its send. -/
def elect (e : Election) (i : Nat) (c : Campaign) (elected : ElectionMessage) : Election :=
  { e with
    seniority :=
      if e.nodeId = elected.proposedSession.masterNodeId ∧ 0 ≤ e.seniority then
        max e.seniority c.candidates.length
      else e.seniority
    currentSession := elected.proposedSession
    campaigns := e.campaigns.set i
      { c with
        stage := .electing
          { result :=
              { sessionId := elected.proposedSession
                wonClock := elected.clock
                isNewMaster := elected.proposedSession ≠ e.currentSession }
            queue := c.candidates
            receivedBefore := e.received.length } } }

/-- The event of a campaign is set. -/
def isDone (e : Election) (d : Nat) : Bool :=
  (e.campaigns[d]?).any fun c => c.stage = .finished

theorem isDone_iff {e : Election} {d : Nat} :
    e.isDone d ↔ ∃ c, e.campaigns[d]? = some c ∧ c.stage = .finished := by
  unfold isDone
  cases e.campaigns[d]? <;> simp

/-- A suspended campaign goes on to its next `await`. -/
def resume (e : Election) (i : Nat) : Option Election :=
  match e.campaigns[i]? with
  | none => none
  | some c =>
      match c.stage with
      | .waiting d => if e.isDone d then some (e.enter i c) else none
      | .sending =>
          if c.cancelCalled then none
          else some { e with
            broadcast := e.broadcast ++ c.status.toList
            campaigns := e.campaigns.set i { c with stage := .sleeping } }
      | .sleeping => some { e with campaigns := e.campaigns.set i { c with stage := .resending } }
      | .resending =>
          if c.cancelCalled then none
          else some { e with
            broadcast := e.broadcast ++ c.status.toList
            campaigns := e.campaigns.set i { c with stage := .checkpoint } }
      | .checkpoint =>
          if c.cancelCalled then none
          else (maxCandidate c.candidates).map (e.elect i c)
      | .electing outcome =>
          if c.cancelCalled then none
          else some ({ e with emitted := e.emitted ++ [outcome] }.finish i c)
      | .spawned | .finished => none

/-- A cancelled campaign is told so at the `await` it is suspended at. -/
def cancelled (e : Election) (i : Nat) : Option Election :=
  match e.campaigns[i]? with
  | none => none
  | some c => if c.stage.running ∧ c.cancelCalled then some (e.finish i c) else none

inductive Action where
  /-- An election message comes in. -/
  | message (m : ElectionMessage)
  /-- Connection messages have come in and settled. -/
  | connection
  /-- `_command_counter` sees a command. -/
  | command
  /-- A spawned campaign runs for the first time. -/
  | start (i : Nat)
  | resume (i : Nat)
  | cancelled (i : Nat)
  deriving DecidableEq, Repr

/-- The campaign whose coroutine takes the step, once it has started. -/
def Action.campaign : Action → Option Nat
  | .resume i | .cancelled i => some i
  | _ => none

def step (e : Election) : Action → Option Election
  | .message m =>
      let e' := e.receive m
      some { e' with received := e.received ++ [(e'.clock, m)] }
  | .connection => some e.connect
  | .command => some { e with commandsSeen := e.commandsSeen + 1 }
  | .start i => e.begin i
  | .resume i => e.resume i
  | .cancelled i => e.cancelled i

structure Config where
  nodeId : NodeId
  isCandidate : Bool := true
  seniority : Int := 0

/-- `__init__`. -/
def create (cfg : Config) : Election where
  nodeId := cfg.nodeId
  seniority := if cfg.isCandidate then cfg.seniority else -1
  currentSession := { masterNodeId := cfg.nodeId, electionClock := 0 }

/-- `run` has come to the first `await` of the initial campaign. -/
def init (cfg : Config) : Election :=
  let e := (create cfg).spawn []
  (e.begin 0).getD e

/-- The election of a node, as a machine. -/
def machine (cfg : Config) : Machine Election Action := ⟨init cfg, step⟩

end Election

end Exo
