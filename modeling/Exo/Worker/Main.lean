import Exo.Worker.Plan

/-!
# A worker

A worker applies the logged events to its copy of the state, plans, and does what it planned.
The planning coroutine is suspended in three places: between two ticks, after it announced a
task, and until a runner acknowledges one.

An exception in the planning coroutine or in the coroutines of a supervisor leaves the task
group of the worker and ends all of it.

`sent` is a history: no coroutine reads it.
-/

namespace Exo

open Lib (Dict)

/-- The `await` the planning coroutine is suspended at. -/
inductive Planner where
  /-- `anyio.sleep(0.1)`. -/
  | sleeping
  /-- `event_sender.send(TaskCreated(...))`. -/
  | announced (task : Task)
  /-- `event.wait()` in `start_task`, for a runner of the worker. -/
  | starting (runnerId : RunnerId) (taskId : TaskId)
  /-- `event.wait()` in `start_task`, for the runner that was shut down last. -/
  | stopping (taskId : TaskId)
  deriving DecidableEq

structure Worker where
  nodeId : NodeId
  state : State := {}
  /-- How many logged events were applied. -/
  applied : Nat := 0
  runners : Dict RunnerId Supervisor := .empty
  /-- The supervisors that were shut down, the last one first. -/
  retired : List Supervisor := []
  inputChunkBuffer : Dict CommandId (Dict Nat InputImageChunk) := .empty
  inputChunkCounts : Dict CommandId Nat := .empty
  imageCache : Dict Base64ImageHash Base64Image := .empty
  downloadBackoff : KeyedBackoff := {}
  instanceBackoff : KeyedBackoff := {}
  planner : Planner := .sleeping
  /-- What it sent to the master and the master has not logged. -/
  outbox : List EventBody := []
  /-- The instances it asked the master to delete, with requests that are on their way. -/
  deletions : List InstanceId := []
  crashed : Bool := false
  /-- Every task a runner was sent, with the instance of the runner. -/
  sent : List (Task × Instance) := []
  deriving DecidableEq

namespace Worker

/-- `EXO_MAX_INSTANCE_RETRIES`. -/
def maxInstanceRetries : Nat := 5

/-- All supervisors, those shut down as well. -/
def supervisors (w : Worker) : List Supervisor := w.runners.values ++ w.retired

def emit (w : Worker) (events : List EventBody) : Worker := { w with outbox := w.outbox ++ events }

def crash (w : Worker) : Worker := { w with crashed := true }

def setRunner (w : Worker) (runnerId : RunnerId) (runner : Supervisor) : Worker :=
  { w with runners := w.runners.set runnerId runner }

/-! ## Applying events -/

/-- The images that a set of chunks makes up, each from its chunks in order. -/
def assembleImages (chunks : List InputImageChunk) : List Base64Image :=
  ((chunks.map (·.imageIndex)).eraseDups).map fun imageIndex =>
    let parts := (chunks.filter (·.imageIndex = imageIndex)).mergeSort
      fun a b => a.chunkIndex ≤ b.chunkIndex
    String.join (parts.map (·.data))

/-- The part of `_event_applier` about input chunks; `sha256` is `hashlib.sha256`. -/
def bufferChunk (sha256 : Base64Image → Base64ImageHash) (w : Worker) (commandId : CommandId)
    (chunk : InputImageChunk) : Worker :=
  let known := (w.inputChunkBuffer.get? commandId).isSome
  let counts := if known then w.inputChunkCounts
    else w.inputChunkCounts.set commandId chunk.totalChunks
  let chunks := ((w.inputChunkBuffer.get? commandId).getD .empty).set chunk.chunkIndex chunk
  { w with
    inputChunkBuffer := w.inputChunkBuffer.set commandId chunks
    inputChunkCounts := counts
    imageCache :=
      if counts.get? commandId = some chunks.entries.length then
        (assembleImages chunks.values).foldl (fun cache img => cache.set (sha256 img) img)
          w.imageCache
      else w.imageCache }

/-- One round of `_event_applier`. -/
def applyEvent (sha256 : Base64Image → Base64ImageHash) (w : Worker) (body : EventBody) : Worker :=
  let w := { w with state := body.apply w.state, applied := w.applied + 1 }
  match body with
  | .instanceDeleted instanceId =>
      { w with instanceBackoff := w.instanceBackoff.reset instanceId }
  | .inputChunkReceived commandId chunk => w.bufferChunk sha256 commandId chunk
  | _ => w

/-! ## Planning -/

/-- What `plan` is given. -/
def planInput (w : Worker) (now : Time) (freshTaskId : TaskId) : PlanInput where
  nodeId := w.nodeId
  runners := w.runners
  globalDownloadStatus := w.state.downloads
  instances := w.state.instances
  allRunners := w.state.runners
  tasks := w.state.tasks
  inputChunkBuffer := w.inputChunkBuffer
  imageCache := w.imageCache
  instanceBackoff := w.instanceBackoff
  downloadBackoff := w.downloadBackoff
  now := now
  freshTaskId := freshTaskId

/-- The instance a planned task gives up on: it was created too often already. -/
def gaveUp (w : Worker) (task : Task) : Bool :=
  match task.kind with
  | .createRunner _ =>
      maxInstanceRetries ≤ (w.instanceBackoff.attempts.get? task.instanceId).getD 0
  | _ => false

/-- `plan_step`, from the end of the sleep to the announcement of the planned task. -/
def planTick (w : Worker) (now : Time) (freshTaskId : TaskId) : Option Worker :=
  if w.planner = .sleeping then
    match (w.planInput now freshTaskId).plan with
    | .error _ => some w.crash
    | .ok none => some w
    | .ok (some task) =>
        if w.gaveUp task then some { w with deletions := w.deletions ++ [task.instanceId] }
        else some { w.emit [.taskCreated task.taskId task] with planner := .announced task }
  else none

/-! ## Acting -/

/-- `start_task` of the runner with this id. -/
def startOn (w : Worker) (runnerId : RunnerId) (task : Task) : Worker :=
  match w.runners.get? runnerId with
  | none => w.crash
  | some runner =>
      let (runner', waits) := runner.startTask task
      let w' := w.setRunner runnerId runner'
      if waits then
        { w' with
          planner := .starting runnerId task.taskId
          sent := w.sent ++ [(task, runner.boundInstance.inst)] }
      else { w' with planner := .sleeping }

/-- `_start_runner_task`. -/
def startRunnerTask (w : Worker) (task : Task) : Worker :=
  match w.state.instances.get? task.instanceId with
  | none => { w with planner := .sleeping }
  | some inst =>
      match inst.shardAssignments.nodeToRunner.get? w.nodeId with
      | none => w.crash
      | some runnerId => w.startOn runnerId task

/-- The buffered chunks of a command are dropped. -/
def dropChunks (w : Worker) (commandId : CommandId) : Worker :=
  { w with
    inputChunkBuffer := w.inputChunkBuffer.erase commandId
    inputChunkCounts := w.inputChunkCounts.erase commandId }

/-- The chunks of a command in the order of their indices; `none` is a missing index. -/
def assembleChunks (w : Worker) (commandId : CommandId) : Option String :=
  let chunks := (w.inputChunkBuffer.get? commandId).getD .empty
  ((List.range chunks.entries.length).mapM fun i => (chunks.get? i).map (·.data)).map String.join

/-- `case CreateRunner()`. -/
def actCreateRunner (w : Worker) (now : Time) (task : Task) (bound : BoundInstance) : Worker :=
  let w' := w.setRunner bound.boundRunnerId (.create bound)
  { w'.emit [.taskStatusUpdated task.taskId .complete] with
    instanceBackoff := w.instanceBackoff.recordAttempt now task.instanceId
    planner := .sleeping }

/-- `case DownloadModel()`; `found` says whether the model is on the disk of the node. -/
def actDownloadModel (w : Worker) (now : Time) (found : Bool) (task : Task)
    (shard : ShardMetadata) : Worker :=
  let events : List EventBody :=
    if found then
      [.nodeDownloadProgress { nodeId := w.nodeId, modelId := shard.modelId, state := .completed },
        .taskStatusUpdated task.taskId .complete]
    else [.taskStatusUpdated task.taskId .running]
  { w.emit events with
    downloadBackoff := w.downloadBackoff.recordAttempt now shard.modelId
    planner := .sleeping }

/-- `case Shutdown()`, up to the wait for the acknowledgement. -/
def actShutdown (w : Worker) (task : Task) (runnerId : RunnerId) : Worker :=
  match w.runners.get? runnerId with
  | none => w.crash
  | some runner =>
      let w' := { w with runners := w.runners.erase runnerId }
      let (runner', waits) := runner.startTask task
      if waits then
        { w' with
          retired := runner' :: w.retired
          planner := .stopping task.taskId
          sent := w.sent ++ [(task, runner.boundInstance.inst)] }
      else { w' with retired := runner'.stop :: w.retired, planner := .sleeping }

/-- `case CancelTask()`. -/
def actCancelTask (w : Worker) (task : Task) (cancelledTaskId : TaskId) (runnerId : RunnerId) :
    Worker :=
  match w.runners.get? runnerId with
  | none => w.crash
  | some runner =>
      { (w.setRunner runnerId (runner.cancelTask cancelledTaskId)).emit
          [.taskStatusUpdated task.taskId .complete] with planner := .sleeping }

/-- `case ImageEdits()` with chunks: the image is put into the task. -/
def actImageEdits (w : Worker) (task : Task) (commandId : CommandId) (totalInputChunks : Nat) :
    Worker :=
  match w.assembleChunks commandId with
  | none => w.crash
  | some assembled =>
      (w.dropChunks commandId).startRunnerTask
        { task with
          kind := .imageEdits commandId totalInputChunks assembled
          errorType := none
          errorMessage := none }

/-- `case TextGeneration()` with images: they are put into the task. -/
def actTextGeneration (w : Worker) (task : Task) (commandId : CommandId)
    (imageHashes : List Base64ImageHash) : Worker :=
  match imageHashes.mapM w.imageCache.get? with
  | none => w.crash
  | some images =>
      (w.dropChunks commandId).startRunnerTask
        { task with kind := .textGeneration commandId imageHashes images }

/-- The rest of `plan_step`: what is done about the announced task. -/
def act (w : Worker) (now : Time) (found : Bool) : Option Worker :=
  match w.planner with
  | .announced task =>
      match task.kind with
      | .createRunner bound => some (w.actCreateRunner now task bound)
      | .downloadModel shard => some (w.actDownloadModel now found task shard)
      | .shutdown runnerId => some (w.actShutdown task runnerId)
      | .cancelTask cancelledTaskId runnerId =>
          some (w.actCancelTask task cancelledTaskId runnerId)
      | .imageEdits commandId totalInputChunks _ =>
          if 0 < totalInputChunks then some (w.actImageEdits task commandId totalInputChunks)
          else some (w.startRunnerTask task)
      | .textGeneration commandId imageHashes _ =>
          if imageHashes ≠ [] then some (w.actTextGeneration task commandId imageHashes)
          else some (w.startRunnerTask task)
      | .loadModel =>
          let w' := match w.state.instances.get? task.instanceId with
            | some inst =>
                { w with downloadBackoff := w.downloadBackoff.reset inst.shardAssignments.modelId }
            | none => w
          some (w'.startRunnerTask task)
      | _ => some (w.startRunnerTask task)
  | _ => none

/-- `event.wait()` returns; a runner that was shut down is stopped now. -/
def acknowledged (w : Worker) : Option Worker :=
  match w.planner, w.retired with
  | .starting runnerId taskId, _ =>
      match w.runners.get? runnerId with
      | some runner =>
          if runner.isAcknowledged taskId then some { w with planner := .sleeping } else none
      | none => none
  | .stopping taskId, runner :: retired =>
      if runner.isAcknowledged taskId then
        some { w with planner := .sleeping, retired := runner.stop :: retired }
      else none
  | _, _ => none

/-- `fail_after(3)` fires while a runner is shut down. -/
def timedOut (w : Worker) : Option Worker :=
  match w.planner, w.retired with
  | .stopping taskId, runner :: retired =>
      some { w.emit [.taskStatusUpdated taskId .timedOut] with
        planner := .sleeping
        retired := runner.stop :: retired }
  | _, _ => none

/-! ## Steps -/

inductive Action where
  /-- The sleep of `plan_step` is over. -/
  | plan (now : Time) (freshTaskId : TaskId)
  /-- `plan_step` goes on with the task it announced. -/
  | act (now : Time) (found : Bool)
  | acknowledged
  | timedOut
  /-- A step of the supervisor of a runner. -/
  | runner (runnerId : RunnerId) (a : Supervisor.Action)
  /-- A step of a supervisor that was shut down. -/
  | retired (i : Nat) (a : Supervisor.Action)
  deriving DecidableEq

def step (w : Worker) (a : Action) : Option Worker :=
  if w.crashed then none
  else
    match a with
    | .plan now freshTaskId => w.planTick now freshTaskId
    | .act now found => w.act now found
    | .acknowledged => w.acknowledged
    | .timedOut => w.timedOut
    | .runner runnerId a => do
        let runner ← w.runners.get? runnerId
        match ← runner.step a with
        | none => some w.crash
        | some (runner', events) => some ((w.setRunner runnerId runner').emit events)
    | .retired i a => do
        let runner ← w.retired[i]?
        match ← runner.step a with
        | none => some w.crash
        | some (runner', events) =>
            some ({ w with retired := w.retired.set i runner' }.emit events)

/-- A cancellation of a task is logged. -/
def witness (w : Worker) (taskId : TaskId) : Worker :=
  { w with
    runners := w.runners.mapValues fun _ runner => runner.witness taskId
    retired := w.retired.map fun runner => runner.witness taskId }

end Worker

end Exo
