import Exo.Election.Campaigns

/-!
# A node follows its election

`_elect_loop` takes one result after the other. On a new session it replaces the
event router and everything that hangs on it; it promotes the node to master or
demotes it. It never replaces a master that is already there, so it relies on the
election for one thing: a node that is master proposes no other session than the
one it runs.

That holds as long as campaigns start one at a time, and no result that changes
the session is lost in its send.
-/

namespace Exo

open Lib

/-- The API of a node: the session it shows, and the last election it has heard of. -/
structure Api where
  session : SessionId
  lastCompletedElection : Int := 0
  paused : Bool := false
  deriving DecidableEq, Repr

/-- A component is given by the session whose event router it is connected to. -/
structure Node where
  nodeId : NodeId
  eventRouter : SessionId
  master : Option SessionId
  downloadCoordinator : Option SessionId := none
  worker : Option SessionId := none
  api : Option Api := none
  deriving DecidableEq, Repr

namespace Node

/-- What a node is started with. -/
structure Args where
  noDownloads : Bool := false
  noWorker : Bool := false
  spawnApi : Bool := true

/-- Every node starts with a master. -/
def create (nodeId : NodeId) (args : Args) : Node :=
  let sessionId : SessionId := { masterNodeId := nodeId, electionClock := 0 }
  { nodeId := nodeId
    eventRouter := sessionId
    master := some sessionId
    downloadCoordinator := if args.noDownloads then none else some sessionId
    worker := if args.noWorker then none else some sessionId
    api := if args.spawnApi then some { session := sessionId } else none }

/-- `api.reset`, with the receiver of a new event router. -/
def resetApi (api : Api) (session : SessionId) (wonClock : Int) : Api :=
  { api with session := session, lastCompletedElection := wonClock, paused := false }

def unpauseApi (api : Api) (wonClock : Int) : Api :=
  { api with lastCompletedElection := wonClock, paused := false }

/-- The four cases of `_elect_loop`: stay master, promote, demote, stay without one. -/
def setRole (n : Node) (sessionId : SessionId) : Node :=
  if sessionId.masterNodeId = n.nodeId ∧ n.master.isSome then n
  else if sessionId.masterNodeId = n.nodeId ∧ n.master.isNone then
    { n with master := some sessionId }
  else if sessionId.masterNodeId ≠ n.nodeId ∧ n.master.isSome then
    { n with master := none }
  else n

/-- One round of `_elect_loop`. -/
def electLoop (n : Node) (result : ElectionResult) : Node :=
  let n := if result.isNewMaster then { n with eventRouter := result.sessionId } else n
  let n := n.setRole result.sessionId
  if result.isNewMaster then
    { n with
      downloadCoordinator := n.downloadCoordinator.map fun _ => n.eventRouter
      worker := n.worker.map fun _ => n.eventRouter
      api := n.api.map fun a => resetApi a n.eventRouter result.wonClock }
  else
    { n with api := n.api.map fun a => unpauseApi a result.wonClock }

/-- What the node should be after a result. -/
structure Consistent (n : Node) (result : ElectionResult) : Prop where
  /-- There is a master exactly when the result names this node. -/
  role : n.master.isSome ↔ result.sessionId.masterNodeId = n.nodeId
  /-- The master runs the session of the event router. -/
  session : ∀ s, n.master = some s → s = n.eventRouter

/-- The node after a number of results. -/
def after (n : Node) (results : List ElectionResult) : Node := results.foldl electLoop n

/-- A node at rest: master of the session of its event router, if it is master at all. -/
def Settled (n : Node) : Prop :=
  n.master = if n.eventRouter.masterNodeId = n.nodeId then some n.eventRouter else none

variable {n : Node} {result : ElectionResult}

section SetRole

variable (n : Node) (sessionId : SessionId)

/-- The role is the only thing it changes. -/
theorem setRole_eq :
    n.setRole sessionId = { n with
      master := if sessionId.masterNodeId = n.nodeId then some (n.master.getD sessionId)
        else none } := by
  obtain ⟨id, router, master, dc, worker, api⟩ := n
  unfold setRole
  cases master <;> by_cases h : sessionId.masterNodeId = id <;> simp [h]

end SetRole

@[simp] theorem electLoop_nodeId : (n.electLoop result).nodeId = n.nodeId := by
  unfold electLoop
  simp only [setRole_eq]
  split <;> rfl

theorem electLoop_eventRouter :
    (n.electLoop result).eventRouter
      = if result.isNewMaster then result.sessionId else n.eventRouter := by
  unfold electLoop
  simp only [setRole_eq]
  split <;> rfl

theorem electLoop_master :
    (n.electLoop result).master
      = if result.sessionId.masterNodeId = n.nodeId then
          some (n.master.getD result.sessionId)
        else none := by
  unfold electLoop
  simp only [setRole_eq]
  split <;> rfl

/-- **A result that fits the session the node is in leaves it settled.** -/
theorem Settled.electLoop (h : n.Settled)
    (hnew : result.isNewMaster = decide (result.sessionId ≠ n.eventRouter))
    (hown : result.sessionId.masterNodeId = n.nodeId → n.eventRouter.masterNodeId = n.nodeId →
      result.sessionId = n.eventRouter) :
    (n.electLoop result).Settled ∧ (n.electLoop result).eventRouter = result.sessionId := by
  have hrouter : (n.electLoop result).eventRouter = result.sessionId := by
    rw [electLoop_eventRouter, hnew]
    by_cases hs : result.sessionId = n.eventRouter
    · simp [hs]
    · simp [hs]
  refine ⟨?_, hrouter⟩
  unfold Settled at h ⊢
  rw [hrouter, electLoop_master, electLoop_nodeId, h]
  by_cases hid : result.sessionId.masterNodeId = n.nodeId
  · rw [if_pos hid, if_pos hid]
    by_cases hr : n.eventRouter.masterNodeId = n.nodeId
    · rw [if_pos hr, hown hid hr]; rfl
    · rw [if_neg hr]; rfl
  · rw [if_neg hid, if_neg hid]

theorem Settled.consistent (h : n.Settled) (hs : n.eventRouter = result.sessionId) :
    n.Consistent result := by
  unfold Settled at h
  refine ⟨?_, ?_⟩
  · rw [h, hs]
    split <;> simp_all
  · intro s hm
    rw [h] at hm
    split at hm
    · exact (Option.some.inj hm).symm
    · cases hm

/-- Every component is connected to the node's own event router. -/
structure Connected (n : Node) : Prop where
  downloadCoordinator : ∀ s ∈ n.downloadCoordinator, s = n.eventRouter
  worker : ∀ s ∈ n.worker, s = n.eventRouter
  api : ∀ a ∈ n.api, a.session = n.eventRouter

theorem Connected.electLoop (h : n.Connected) : (n.electLoop result).Connected := by
  unfold Node.electLoop
  simp only [setRole_eq]
  split
  · refine ⟨?_, ?_, ?_⟩
    · intro s hs
      obtain ⟨t, -, rfl⟩ := Option.map_eq_some_iff.mp hs
      rfl
    · intro s hs
      obtain ⟨t, -, rfl⟩ := Option.map_eq_some_iff.mp hs
      rfl
    · intro a ha
      obtain ⟨b, -, rfl⟩ := Option.map_eq_some_iff.mp ha
      rfl
  · refine ⟨h.downloadCoordinator, h.worker, ?_⟩
    intro a ha
    obtain ⟨b, hb, rfl⟩ := Option.map_eq_some_iff.mp ha
    exact h.api b hb

end Node

end Exo
