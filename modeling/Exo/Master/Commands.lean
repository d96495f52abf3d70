import Mathlib.Data.List.MinMax
import Exo.Shared.Apply

/-!
# The commands a master executes

Every command becomes a list of events, which the master sends to itself like any other
source. A command that raises a `ValueError` has no effect.

Where an instance is placed is not part of the model: a placement that succeeds does what the
creation of the instance it chose does.
-/

namespace Exo

open Lib (Dict)

inductive Command where
  | textGeneration (commandId : CommandId) (model : ModelId) (imageHashes : List Base64ImageHash)
  | imageGeneration (commandId : CommandId) (model : ModelId)
  | imageEdits (commandId : CommandId) (model : ModelId) (totalInputChunks : Nat)
  | createInstance (inst : Instance)
  | deleteInstance (instanceId : InstanceId)
  | sendInputChunk (chunk : InputImageChunk)
  | taskCancelled (cancelledCommandId : CommandId)
  | taskFinished (finishedCommandId : CommandId)
  | setInstanceLink (link : InstanceLink)
  | deleteInstanceLink (linkId : InstanceLinkId)
  deriving DecidableEq

/-- The command of a client that waits for an answer. -/
def Command.requestId? : Command → Option CommandId
  | .textGeneration commandId .. | .imageGeneration commandId _ | .imageEdits commandId .. =>
      some commandId
  | _ => none

/-- The commands about a request that was made before. -/
def Command.isFollowUp : Command → Bool
  | .taskCancelled _ | .taskFinished _ => true
  | _ => false

/-- The part of the master that executes commands. -/
structure CommandProcessor where
  state : State := {}
  commandTaskMapping : Dict CommandId TaskId := .empty
  deriving DecidableEq

namespace CommandProcessor

/-- The number of tasks of an instance that are pending or running. -/
def taskCount (m : CommandProcessor) (instanceId : InstanceId) : Nat :=
  m.state.tasks.values.countP fun task =>
    task.instanceId = instanceId ∧ task.taskStatus.inFlight

/-- The instances that a link only prefills with. -/
def prefillOnly (m : CommandProcessor) (instanceId : InstanceId) : Bool :=
  (m.state.instanceLinks.values.any fun link => instanceId ∈ link.prefillInstances)
    ∧ ¬ m.state.instanceLinks.values.any fun link => instanceId ∈ link.decodeInstances

/-- The instances that serve a model. -/
def servingInstances (m : CommandProcessor) (model : ModelId) : List InstanceId :=
  (m.state.instances.values.filter (·.shardAssignments.modelId = model)).map (·.instanceId)

/-- `sorted(...)[0]`, the first of the instances with the fewest tasks. -/
def leastLoaded (m : CommandProcessor) (ids : List InstanceId) : Option InstanceId :=
  ids.argmin m.taskCount

/-- A task for a command, and the entry of `command_task_mapping` for it. -/
def createTask (m : CommandProcessor) (commandId : CommandId) (taskId : TaskId)
    (instanceId : Option InstanceId) (kind : TaskKind) : CommandProcessor × List EventBody :=
  match instanceId with
  | none => (m, [])
  | some instanceId =>
      ({ m with commandTaskMapping := m.commandTaskMapping.set commandId taskId },
        [.taskCreated taskId
          { taskId := taskId, taskStatus := .pending, instanceId := instanceId, kind := kind }])

/-- `get_transition_events` when one instance goes: its tasks in flight are cancelled first. -/
def deletionEvents (m : CommandProcessor) (instanceId : InstanceId) : List EventBody :=
  ((m.state.tasks.values.filter fun task =>
      task.instanceId = instanceId ∧ task.taskStatus.inFlight).map
    fun task => .taskStatusUpdated task.taskId .cancelled) ++ [.instanceDeleted instanceId]

/--
One round of `_command_processor`, with the events it sends. A task that it creates gets the
id `taskId`.
-/
def execute (m : CommandProcessor) (taskId : TaskId) :
    Command → CommandProcessor × List EventBody
  | .textGeneration commandId model imageHashes =>
      m.createTask commandId taskId
        (m.leastLoaded ((m.servingInstances model).filter fun i => !m.prefillOnly i))
        (.textGeneration commandId imageHashes [])
  | .imageGeneration commandId model =>
      m.createTask commandId taskId (m.leastLoaded (m.servingInstances model))
        (.imageGeneration commandId)
  | .imageEdits commandId model totalInputChunks =>
      m.createTask commandId taskId (m.leastLoaded (m.servingInstances model))
        (.imageEdits commandId totalInputChunks "")
  | .createInstance inst =>
      (m, if (m.state.instances.get? inst.instanceId).isSome then [] else [.instanceCreated inst])
  | .deleteInstance instanceId =>
      (m, if (m.state.instances.get? instanceId).isSome then m.deletionEvents instanceId else [])
  | .sendInputChunk chunk => (m, [.inputChunkReceived chunk.commandId chunk])
  | .taskCancelled commandId =>
      match m.commandTaskMapping.get? commandId with
      | some taskId => (m, [.taskStatusUpdated taskId .cancelled])
      | none => (m, [])
  | .taskFinished commandId =>
      match m.commandTaskMapping.get? commandId with
      | some taskId =>
          ({ m with commandTaskMapping := m.commandTaskMapping.erase commandId },
            [.taskDeleted taskId])
      | none => (m, [])
  | .setInstanceLink link =>
      (m, [.instanceLinkCreated
        { link with
          prefillInstances := link.prefillInstances.eraseDups
          decodeInstances := link.decodeInstances.eraseDups }])
  | .deleteInstanceLink linkId => (m, [.instanceLinkDeleted linkId])

end CommandProcessor

/-! ## The endpoints that send them -/

/-- The part of an API that streams answers. -/
structure StreamApi where
  /-- The commands that are being answered, each with whether its stream is open. -/
  queues : Dict CommandId Bool := .empty
  deriving DecidableEq

namespace StreamApi

/-- A client asks for a generation: the command is sent and its stream is opened. -/
def request (a : StreamApi) (commandId : CommandId) (command : Command) :
    StreamApi × List Command :=
  ({ queues := a.queues.set commandId true }, [command])

/-- `cancel_command`; `none` is the answer 404. -/
def cancelCommand (a : StreamApi) (commandId : CommandId) : Option (StreamApi × List Command) :=
  match a.queues.get? commandId with
  | some _ => some ({ queues := a.queues.set commandId false }, [.taskCancelled commandId])
  | none => none

/-- `_token_chunk_stream` ends, because the stream was closed or the last chunk came. -/
def streamEnd (a : StreamApi) (commandId : CommandId) : Option (StreamApi × List Command) :=
  match a.queues.get? commandId with
  | some _ => some ({ queues := a.queues.erase commandId }, [.taskFinished commandId])
  | none => none

/-- `_token_chunk_stream` is cancelled, because the client went away. -/
def streamCancelled (a : StreamApi) (commandId : CommandId) : Option (StreamApi × List Command) :=
  match a.queues.get? commandId with
  | some _ =>
      some ({ queues := a.queues.erase commandId },
        [.taskCancelled commandId, .taskFinished commandId])
  | none => none

end StreamApi

end Exo
