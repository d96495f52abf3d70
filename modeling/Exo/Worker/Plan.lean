import Exo.Shared.Apply
import Exo.Worker.Supervisor

/-!
# What a worker plans next

Every tenth of a second a worker looks at its copy of the state and at its own runners and
picks one task. The first of eight questions that has an answer decides.

A planned task that does not come from the state is a new one, with a fresh id. Times are in
milliseconds.
-/

namespace Exo

open Lib (Dict)

/-- What `plan` raises. -/
inductive PlanError where
  /-- The lookup `all_runners[global_runner_id]`. -/
  | keyError
  /-- The assertions `device_rank < world_size` and `device_rank >= 0`. -/
  | assertionError
  /-- The power `2.0**attempts`. -/
  | overflowError
  deriving DecidableEq, Repr

/-! ## Backoff -/

structure KeyedBackoff where
  attempts : Dict Nat Nat := .empty
  lastTime : Dict Nat Time := .empty
  deriving DecidableEq

namespace KeyedBackoff

/-- `base` and `cap`, as the worker sets them. -/
def base : Time := 500
def cap : Time := 10000

/-- The first power of two that is no double. -/
def maxExponent : Nat := 1024

def numAttempts (b : KeyedBackoff) (key : Nat) : Nat := (b.attempts.get? key).getD 0

/-- The delay after the last attempt is over. -/
def elapsed (b : KeyedBackoff) (now : Time) (key : Nat) : Bool :=
  min cap (base * 2 ^ b.numAttempts key) ≤ now - (b.lastTime.get? key).getD 0

def shouldProceed (b : KeyedBackoff) (now : Time) (key : Nat) : Except PlanError Bool :=
  if maxExponent ≤ b.numAttempts key then .error .overflowError else .ok (b.elapsed now key)

def recordAttempt (b : KeyedBackoff) (now : Time) (key : Nat) : KeyedBackoff where
  lastTime := b.lastTime.set key now
  attempts := b.attempts.set key ((b.attempts.get? key).getD 0 + 1)

def reset (b : KeyedBackoff) (key : Nat) : KeyedBackoff where
  attempts := b.attempts.erase key
  lastTime := b.lastTime.erase key

end KeyedBackoff

/-! ## Statuses -/

namespace RunnerStatus

def isFailed : RunnerStatus → Bool
  | .failed _ => true
  | _ => false

/-- `(RunnerReady, RunnerRunning)`. -/
def serves : RunnerStatus → Bool
  | .ready _ | .running => true
  | _ => false

/-- `(RunnerConnecting, RunnerIdle)`. -/
def connects : RunnerStatus → Bool
  | .connecting | .idle => true
  | _ => false

/-- `(RunnerConnected, RunnerLoading, RunnerLoaded)`. -/
def loads : RunnerStatus → Bool
  | .connected | .loading .. | .loaded => true
  | _ => false

/-- `(RunnerWarmingUp, RunnerReady)`. -/
def warms : RunnerStatus → Bool
  | .warmingUp | .ready _ => true
  | _ => false

end RunnerStatus

/-- What `plan` reads. -/
structure PlanInput where
  nodeId : NodeId
  runners : Dict RunnerId Supervisor
  globalDownloadStatus : Dict NodeId (List DownloadProgress)
  instances : Dict InstanceId Instance
  allRunners : Dict RunnerId RunnerStatus
  tasks : Dict TaskId Task
  inputChunkBuffer : Dict CommandId (Dict Nat InputImageChunk)
  imageCache : Dict Base64ImageHash Base64Image
  instanceBackoff : KeyedBackoff
  downloadBackoff : KeyedBackoff
  now : Time
  /-- The id a new task gets. -/
  freshTaskId : TaskId

/-- The runners of an instance. -/
def Instance.runnerIds (inst : Instance) : List RunnerId := inst.shardAssignments.runnerToShard.keys

/-- The first answer to a question asked of every element. -/
def firstAnswer {α β : Type} (f : α → Except PlanError (Option β)) :
    List α → Except PlanError (Option β)
  | [] => .ok none
  | a :: l =>
      match f a with
      | .ok none => firstAnswer f l
      | r => r

/-- `all(...)` over a lookup that raises when the key is missing. -/
def allServe (allRunners : Dict RunnerId RunnerStatus) : List RunnerId → Except PlanError Bool
  | [] => .ok true
  | r :: l =>
      match allRunners.get? r with
      | none => .error .keyError
      | some status => if status.serves then allServe allRunners l else .ok false

namespace PlanInput

/-- A task that starts its life here. -/
def newTask (p : PlanInput) (instanceId : InstanceId) (kind : TaskKind) : Task where
  taskId := p.freshTaskId
  taskStatus := .pending
  instanceId := instanceId
  kind := kind

/-- Whether the status of a runner is known and satisfies a test. -/
def runnerIs (p : PlanInput) (test : RunnerStatus → Bool) (r : RunnerId) : Bool :=
  (p.allRunners.get? r).any test

def cancelTasks (p : PlanInput) : Option Task :=
  p.tasks.values.findSome? fun task =>
    if task.taskStatus = .cancelled then
      p.runners.entries.findSome? fun (runnerId, runner) =>
        if task.instanceId = runner.instanceId ∧ task.taskId ∉ runner.cancelled then
          some (p.newTask task.instanceId (.cancelTask task.taskId runnerId))
        else none
    else none

def killRunner (p : PlanInput) : Option Task :=
  p.runners.values.findSome? fun runner =>
    let runnerId := runner.boundInstance.boundRunnerId
    let others := runner.boundInstance.inst.shardAssignments.nodeToRunner.values.filter (· ≠ runnerId)
    if (p.instances.get? runner.instanceId).isNone ∨ runner.status.isFailed
        ∨ others.any (p.runnerIs RunnerStatus.isFailed) then
      some (p.newTask runner.instanceId (.shutdown runnerId))
    else none

def createRunner (p : PlanInput) : Except PlanError (Option Task) :=
  p.instances.values |> firstAnswer fun inst =>
    match h : inst.shardAssignments.nodeToRunner.get? p.nodeId with
    | none => .ok none
    | some runnerId =>
        let others := inst.shardAssignments.nodeToRunner.values.filter (· ≠ runnerId)
        let instanceHasFailedRunner := others.any (p.runnerIs RunnerStatus.isFailed)
        let weHaveFailedBefore := p.runnerIs RunnerStatus.isFailed runnerId
        let task := p.newTask inst.instanceId (.createRunner
          { inst := inst
            boundRunnerId := runnerId
            boundNodeId := p.nodeId
            shardExists :=
              inst.shardAssignments.runnersExist runnerId (Dict.mem_values.2 ⟨_, h⟩) })
        if (p.runners.get? runnerId).isSome ∨ (instanceHasFailedRunner ∧ ¬ weHaveFailedBefore) then
          .ok none
        else
          (p.instanceBackoff.shouldProceed p.now inst.instanceId).map fun proceed =>
            if proceed then some task else none

/-- `download_status`: the last entry about a model counts. -/
def downloadStatus (p : PlanInput) (modelId : ModelId) : Option DownloadState :=
  (((p.globalDownloadStatus.get? p.nodeId).getD []).reverse.find? (·.modelId = modelId)).map
    (·.state)

def modelNeedsDownload (p : PlanInput) : Except PlanError (Option Task) :=
  p.runners.values |> firstAnswer fun runner =>
    let shard := runner.boundInstance.boundShard
    let status := p.downloadStatus shard.modelId
    if runner.status = .idle ∧ (status = none ∨ status = some .pending) then
      (p.downloadBackoff.shouldProceed p.now shard.modelId).map fun proceed =>
        if proceed then some (p.newTask runner.instanceId (.downloadModel shard)) else none
    else .ok none

def initDistributedBackend (p : PlanInput) : Except PlanError (Option Task) :=
  p.runners.values |> firstAnswer fun runner =>
    let inst := runner.boundInstance.inst
    let shard := runner.boundInstance.boundShard
    if inst.runnerIds.length = 1 then .ok none
    else if ¬ (runner.status = .idle ∧ inst.runnerIds.all (p.runnerIs RunnerStatus.connects)) then
      .ok none
    else if ¬ (shard.deviceRank < shard.worldSize ∧ 0 ≤ shard.deviceRank) then
      .error .assertionError
    else
      let acceptingRanks := shard.deviceRank + 1 < shard.worldSize
      let others := inst.runnerIds.filter (· ≠ runner.boundInstance.boundRunnerId)
      let connectingRankReady := shard.deviceRank + 1 = shard.worldSize
        ∧ others.all (p.runnerIs (· == .connecting))
      if acceptingRanks ∨ connectingRankReady then
        .ok (some (p.newTask inst.instanceId .connectToGroup))
      else .ok none

/-- The download of a model is complete on a node. -/
def downloaded (p : PlanInput) (modelId : ModelId) (nodeId : NodeId) : Bool :=
  ((p.globalDownloadStatus.get? nodeId).getD []).any fun dp =>
    dp.state = .completed ∧ dp.modelId = modelId

def loadModel (p : PlanInput) : Option Task :=
  p.runners.values.findSome? fun runner =>
    let inst := runner.boundInstance.inst
    let task := p.newTask inst.instanceId .loadModel
    if ¬ inst.shardAssignments.nodeToRunner.keys.all (p.downloaded inst.shardAssignments.modelId)
    then none
    else if inst.runnerIds.length = 1 ∧ runner.status = .idle then some task
    else if runner.status = .connected ∧ inst.runnerIds.all (p.runnerIs RunnerStatus.loads) then
      some task
    else none

def readyToWarmup (p : PlanInput) : Except PlanError (Option Task) :=
  p.runners.values |> firstAnswer fun runner =>
    let inst := runner.boundInstance.inst
    let shard := runner.boundInstance.boundShard
    if ¬ (shard.deviceRank < shard.worldSize ∧ 0 ≤ shard.deviceRank) then .error .assertionError
    else
      let others := inst.runnerIds.filter (· ≠ runner.boundInstance.boundRunnerId)
      let acceptingRanksReady := 0 < shard.deviceRank
        ∧ inst.runnerIds.all (p.runnerIs fun s => s == .loaded || s.warms)
      let connectingRankReady := shard.deviceRank = 0 ∧ others.all (p.runnerIs RunnerStatus.warms)
      if runner.status = .loaded ∧ (acceptingRanksReady ∨ connectingRankReady) then
        .ok (some (p.newTask inst.instanceId .startWarmup))
      else .ok none

/-- What a generation task waits for has arrived: the chunks or the images of its request. -/
def hasInputs (p : PlanInput) (task : Task) : Bool :=
  match task.kind with
  | .imageEdits commandId totalInputChunks _ =>
      totalInputChunks ≤ ((p.inputChunkBuffer.get? commandId).map (·.entries.length)).getD 0
  | .textGeneration _ imageHashes _ => imageHashes.all fun h => (p.imageCache.get? h).isSome
  | _ => true

def pendingTasks (p : PlanInput) : Except PlanError (Option Task) :=
  p.tasks.values |> firstAnswer fun task =>
    if ¬ task.isGeneration ∨ ¬ task.taskStatus.inFlight ∨ ¬ p.hasInputs task then .ok none
    else
      p.runners.values |> firstAnswer fun runner =>
        if task.instanceId ≠ runner.instanceId ∨ task.taskId ∈ runner.completed
            ∨ (runner.inProgress.get? task.taskId).isSome ∨ ¬ runner.status.serves then .ok none
        else
          (allServe p.allRunners runner.boundInstance.inst.runnerIds).map fun ready =>
            if ready then some task else none

/-- The next task of a worker. What comes after the first answer is not evaluated. -/
def plan (p : PlanInput) : Except PlanError (Option Task) :=
  firstAnswer id
    [.ok p.cancelTasks, .ok p.killRunner, p.createRunner, p.modelNeedsDownload,
      p.initDistributedBackend, .ok p.loadModel, p.readyToWarmup, p.pendingTasks]

end PlanInput

end Exo
