import Exo.Shared.Types

/-!
# The replicated state and how events change it

`eventApply` is the pure transition of the event-sourced state; `apply` checks
that events come in the order of their indices and hands them to it. The fields
that only the placement of instances reads (topology, memory, network, cards)
are not part of this state.
-/

namespace Exo

open Lib (Dict)

/-- The replicated state of a session. -/
structure State where
  instances : Dict InstanceId Instance := .empty
  instanceLinks : Dict InstanceLinkId InstanceLink := .empty
  runners : Dict RunnerId RunnerStatus := .empty
  downloads : Dict NodeId (List DownloadProgress) := .empty
  tasks : Dict TaskId Task := .empty
  lastSeen : Dict NodeId Time := .empty
  prefillServerPorts : Dict RunnerId Nat := .empty
  lastEventAppliedIdx : Int := -1
  deriving DecidableEq

/-- Put `dp` in the place of the first entry about the same model, or at the end. -/
def replaceDownload (dp : DownloadProgress) : List DownloadProgress → List DownloadProgress
  | [] => [dp]
  | d :: ds => if d.modelId = dp.modelId then dp :: ds else d :: replaceDownload dp ds

def applyNodeDownloadProgress (dp : DownloadProgress) (state : State) : State :=
  let current := (state.downloads.get? dp.nodeId).getD []
  { state with downloads := state.downloads.set dp.nodeId (replaceDownload dp current) }

def applyTaskCreated (taskId : TaskId) (task : Task) (state : State) : State :=
  { state with tasks := state.tasks.set taskId task }

def applyTaskDeleted (taskId : TaskId) (state : State) : State :=
  { state with tasks := state.tasks.erase taskId }

/-- The task as a status event leaves it: any status but `Failed` clears the error. -/
def Task.withStatus (task : Task) (status : TaskStatus) : Task :=
  if status ≠ .failed then
    { task with taskStatus := status, errorType := none, errorMessage := none }
  else
    { task with taskStatus := status }

def applyTaskStatusUpdated (taskId : TaskId) (status : TaskStatus) (state : State) : State :=
  match state.tasks.get? taskId with
  | none => state
  | some task => { state with tasks := state.tasks.set taskId (task.withStatus status) }

def applyTaskFailed (taskId : TaskId) (errorType errorMessage : String) (state : State) : State :=
  match state.tasks.get? taskId with
  | none => state
  | some task =>
      { state with
        tasks := state.tasks.set taskId
          { task with errorType := some errorType, errorMessage := some errorMessage } }

def applyInstanceCreated (inst : Instance) (state : State) : State :=
  { state with instances := state.instances.set inst.instanceId inst }

/-- A link without an instance; it is kept while both of its sides have instances left. -/
def InstanceLink.without (instanceId : InstanceId) (link : InstanceLink) : InstanceLink :=
  { link with
    prefillInstances := link.prefillInstances.filter (· ≠ instanceId)
    decodeInstances := link.decodeInstances.filter (· ≠ instanceId) }

def applyInstanceDeleted (instanceId : InstanceId) (state : State) : State :=
  { state with
    instances := state.instances.erase instanceId
    instanceLinks :=
      (state.instanceLinks.mapValues fun _ link => link.without instanceId).filter fun _ link =>
        link.prefillInstances ≠ [] ∧ link.decodeInstances ≠ [] }

def applyInstanceLinkCreated (link : InstanceLink) (state : State) : State :=
  { state with instanceLinks := state.instanceLinks.set link.linkId link }

def applyInstanceLinkDeleted (linkId : InstanceLinkId) (state : State) : State :=
  { state with instanceLinks := state.instanceLinks.erase linkId }

/-- A runner that shut down is forgotten; a ready one may announce its prefill server. -/
def applyRunnerStatusUpdated (runnerId : RunnerId) (status : RunnerStatus) (state : State) :
    State :=
  match status with
  | .shutdown =>
      { state with
        runners := state.runners.erase runnerId
        prefillServerPorts := state.prefillServerPorts.erase runnerId }
  | .ready (some port) =>
      { state with
        runners := state.runners.set runnerId status
        prefillServerPorts := state.prefillServerPorts.set runnerId port }
  | _ => { state with runners := state.runners.set runnerId status }

def applyNodeTimedOut (nodeId : NodeId) (state : State) : State :=
  { state with
    lastSeen := state.lastSeen.erase nodeId
    downloads := state.downloads.erase nodeId }

def applyNodeGatheredInfo (nodeId : NodeId) (when : Time) (state : State) : State :=
  { state with lastSeen := state.lastSeen.set nodeId when }

/-- What an event does to the state. -/
def EventBody.apply (body : EventBody) (state : State) : State :=
  match body with
  | .testEvent | .chunkGenerated .. | .taskAcknowledged .. | .inputChunkReceived ..
  | .tracesCollected .. | .tracesMerged .. => state
  | .instanceCreated inst => applyInstanceCreated inst state
  | .instanceDeleted instanceId => applyInstanceDeleted instanceId state
  | .instanceLinkCreated link => applyInstanceLinkCreated link state
  | .instanceLinkDeleted linkId => applyInstanceLinkDeleted linkId state
  | .nodeTimedOut nodeId => applyNodeTimedOut nodeId state
  | .nodeDownloadProgress dp => applyNodeDownloadProgress dp state
  | .nodeGatheredInfo nodeId when => applyNodeGatheredInfo nodeId when state
  | .runnerStatusUpdated runnerId status => applyRunnerStatusUpdated runnerId status state
  | .taskCreated taskId task => applyTaskCreated taskId task state
  | .taskDeleted taskId => applyTaskDeleted taskId state
  | .taskFailed taskId errorType errorMessage =>
      applyTaskFailed taskId errorType errorMessage state
  | .taskStatusUpdated taskId status => applyTaskStatusUpdated taskId status state

/-- Apply an event to the state. -/
def eventApply (event : Event) (state : State) : State := event.body.apply state

/-- `none` is the failed assertion: the event is not the next one of the log. -/
def apply (state : State) (event : IndexedEvent) : Option State :=
  if state.lastEventAppliedIdx = event.idx - 1 then
    some { eventApply event.event state with lastEventAppliedIdx := event.idx }
  else
    none

/-- The state after the events of a log prefix, as a fold of `eventApply` alone. -/
def foldEvents (events : List Event) : State :=
  events.foldl (fun s e => eventApply e s) {}

@[simp] theorem foldEvents_nil : foldEvents [] = {} := rfl

@[simp] theorem foldEvents_append (es : List Event) (e : Event) :
    foldEvents (es ++ [e]) = eventApply e (foldEvents es) := by
  simp [foldEvents]

/-- No event touches the index of the last applied event. -/
theorem eventApply_lastEventAppliedIdx (e : Event) (s : State) :
    (eventApply e s).lastEventAppliedIdx = s.lastEventAppliedIdx := by
  unfold eventApply EventBody.apply
  split <;> first | rfl | skip
  · rename_i rid st _
    unfold applyRunnerStatusUpdated
    split <;> rfl
  · unfold applyTaskFailed
    split <;> rfl
  · unfold applyTaskStatusUpdated
    split <;> rfl

/-- Nothing that `eventApply` does depends on the index of the last applied event. -/
theorem eventApply_setIdx (e : Event) (s : State) (i : Int) :
    eventApply e { s with lastEventAppliedIdx := i }
      = { eventApply e s with lastEventAppliedIdx := i } := by
  unfold eventApply EventBody.apply
  split <;> first | rfl | skip
  · unfold applyRunnerStatusUpdated
    split <;> rfl
  · unfold applyTaskFailed
    split <;> rename_i h <;> simp_all
  · unfold applyTaskStatusUpdated
    split <;> rename_i h <;> simp_all

end Exo
