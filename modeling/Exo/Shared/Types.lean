import Exo.Lib.Dict

/-!
# Identifiers, tasks, instances and events

The values that travel between the parties. Identifiers are uuid strings the
code only compares and sorts, so a number stands for each of them: equal strings
are equal numbers, and the order of the strings is the order of the numbers.

A record keeps the fields that some modelled function reads. What is only stored
and shown (card metadata, host lists, trace data) is left out.
-/

namespace Exo

open Lib (Dict)

abbrev NodeId := Nat
abbrev SystemId := Nat
abbrev EventId := Nat
abbrev CommandId := Nat
abbrev ModelId := Nat
abbrev TaskId := Nat
abbrev InstanceId := Nat
abbrev RunnerId := Nat
abbrev Base64ImageHash := Nat
abbrev Base64Image := String
abbrev InstanceLinkId := Nat

/-- A wall-clock or event-loop time, in milliseconds. -/
abbrev Time := Nat

/-- The reserved id that cancels every task. Task ids are uuids, so no task has it. -/
def CANCEL_ALL_TASKS : TaskId := 0

/-- The session a master runs: who it is and the election round that made it. -/
structure SessionId where
  masterNodeId : NodeId
  electionClock : Int
  deriving DecidableEq, Repr

/-! ## Instances and runners -/

/-- The part of a model that one runner holds. -/
structure ShardMetadata where
  modelId : ModelId
  deviceRank : Int
  worldSize : Int
  startLayer : Nat
  endLayer : Nat
  deriving DecidableEq, Repr

/-- Which runner runs which shard, and on which node. -/
structure ShardAssignments where
  modelId : ModelId
  runnerToShard : Dict RunnerId ShardMetadata
  nodeToRunner : Dict NodeId RunnerId
  /-- `validate_runners_exist`. -/
  runnersExist : ∀ r ∈ nodeToRunner.values, (runnerToShard.get? r).isSome
  deriving DecidableEq

structure Instance where
  instanceId : InstanceId
  shardAssignments : ShardAssignments
  deriving DecidableEq

/-- An instance as seen by one of its runners. -/
structure BoundInstance where
  inst : Instance
  boundRunnerId : RunnerId
  boundNodeId : NodeId
  /-- `validate_shard_exists`. -/
  shardExists : (inst.shardAssignments.runnerToShard.get? boundRunnerId).isSome
  deriving DecidableEq

/-- Runner 11 alone is on node 1. -/
theorem soleRunner_exists : ∀ r ∈ (Dict.empty.set 1 11 : Dict NodeId RunnerId).values,
    ((Dict.empty.set 11 ⟨7, 0, 1, 0, 4⟩ : Dict RunnerId ShardMetadata).get? r).isSome := by decide

theorem soleShard_exists :
    ((Dict.empty.set 11 ⟨7, 0, 1, 0, 4⟩ : Dict RunnerId ShardMetadata).get? 11).isSome := by decide

/-- The shard of the bound runner. -/
def BoundInstance.boundShard (b : BoundInstance) : ShardMetadata :=
  (b.inst.shardAssignments.runnerToShard.get? b.boundRunnerId).get b.shardExists

/-- Which instances prefill for which. -/
structure InstanceLink where
  linkId : InstanceLinkId
  prefillInstances : List InstanceId
  decodeInstances : List InstanceId
  deriving DecidableEq, Repr

inductive RunnerStatus where
  | idle
  | connecting
  | connected
  | loading (layersLoaded totalLayers : Nat)
  | loaded
  | warmingUp
  | ready (prefillServerPort : Option Nat)
  | running
  | shuttingDown
  | shutdown
  | failed (errorMessage : Option String)
  deriving DecidableEq, Repr

/-- How far the download of a model on a node is. -/
inductive DownloadState where
  | pending
  | completed
  | failed
  | ongoing
  deriving DecidableEq, Repr

structure DownloadProgress where
  nodeId : NodeId
  modelId : ModelId
  state : DownloadState
  deriving DecidableEq, Repr

/-! ## Tasks -/

inductive TaskStatus where
  | pending
  | running
  | complete
  | timedOut
  | failed
  | cancelled
  deriving DecidableEq, Repr

/--
What distinguishes the task classes. The image hashes of a text generation are in the
order of their keys; its images and the data of an image edit are empty until a worker
puts them together.
-/
inductive TaskKind where
  | createRunner (boundInstance : BoundInstance)
  | downloadModel (shardMetadata : ShardMetadata)
  | loadModel
  | connectToGroup
  | startWarmup
  | textGeneration (commandId : CommandId) (imageHashes : List Base64ImageHash)
      (images : List Base64Image)
  | cancelTask (cancelledTaskId : TaskId) (runnerId : RunnerId)
  | imageGeneration (commandId : CommandId)
  | imageEdits (commandId : CommandId) (totalInputChunks : Nat) (imageData : String)
  | shutdown (runnerId : RunnerId)
  deriving DecidableEq

structure Task where
  taskId : TaskId
  taskStatus : TaskStatus
  instanceId : InstanceId
  kind : TaskKind
  errorType : Option String := none
  errorMessage : Option String := none
  deriving DecidableEq

/-- The command that created the task, for the tasks a client's request creates. -/
def TaskKind.commandId? : TaskKind → Option CommandId
  | .textGeneration commandId .. | .imageGeneration commandId | .imageEdits commandId .. =>
      some commandId
  | _ => none

/-- `isinstance(task, (TextGeneration, ImageGeneration, ImageEdits))`. -/
def Task.isGeneration (t : Task) : Bool := t.kind.commandId?.isSome

/-- `task.task_status in (TaskStatus.Pending, TaskStatus.Running)`. -/
def TaskStatus.inFlight : TaskStatus → Bool
  | .pending | .running => true
  | _ => false

/-- The statuses a task is meant to keep. -/
def TaskStatus.terminal : TaskStatus → Bool
  | .complete | .cancelled => true
  | _ => false

/-! ## Events -/

/-- One piece of a base64 image on its way to the workers. -/
structure InputImageChunk where
  commandId : CommandId
  chunkIndex : Nat
  totalChunks : Nat
  imageIndex : Nat
  data : String
  deriving DecidableEq, Repr

inductive EventBody where
  | testEvent
  | taskCreated (taskId : TaskId) (task : Task)
  | taskStatusUpdated (taskId : TaskId) (taskStatus : TaskStatus)
  | taskFailed (taskId : TaskId) (errorType errorMessage : String)
  | taskDeleted (taskId : TaskId)
  | taskAcknowledged (taskId : TaskId)
  | instanceCreated (inst : Instance)
  | instanceDeleted (instanceId : InstanceId)
  | instanceLinkCreated (link : InstanceLink)
  | instanceLinkDeleted (linkId : InstanceLinkId)
  | runnerStatusUpdated (runnerId : RunnerId) (runnerStatus : RunnerStatus)
  | nodeTimedOut (nodeId : NodeId)
  | nodeGatheredInfo (nodeId : NodeId) (when : Time)
  | nodeDownloadProgress (downloadProgress : DownloadProgress)
  | chunkGenerated (commandId : CommandId)
  | inputChunkReceived (commandId : CommandId) (chunk : InputImageChunk)
  | tracesCollected (taskId : TaskId) (rank : Nat)
  | tracesMerged (taskId : TaskId)
  deriving DecidableEq

/-- An event, with the id its emitter drew for it. -/
structure Event where
  eventId : EventId
  body : EventBody
  deriving DecidableEq

def Event.isTracesCollected (e : Event) : Bool :=
  match e.body with
  | .tracesCollected .. => true
  | _ => false

/-- An event with its place in the master's log. -/
structure IndexedEvent where
  idx : Nat
  event : Event
  deriving DecidableEq

/-- An event on its way from one source to the master. -/
structure LocalForwarderEvent where
  originIdx : Nat
  origin : SystemId
  session : SessionId
  event : Event
  deriving DecidableEq

/-- A logged event on its way from the master to everyone. -/
structure GlobalForwarderEvent where
  originIdx : Nat
  origin : NodeId
  session : SessionId
  event : Event
  deriving DecidableEq

end Exo
