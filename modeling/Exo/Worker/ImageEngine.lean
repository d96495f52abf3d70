import Exo.Lib.Machine
import Exo.Worker.ActiveTasks

/-!
# The image engine

`ImageEngine` runs one task at a time. The task it runs is a generator, and `step` resumes it
once, or starts the next task if it has ended. What `generate_image` does when it is resumed is
up to the environment, cancellations included: the cancelled tasks are only read by it.

`submitted`, `left`, `yielded` and `raised` are histories.
-/

namespace Exo

open Lib (Dict Machine)

/-- The kinds of shard that `_is_primary_output_node` tells apart. -/
inductive ImageShard where
  | cfg (pipelineRank pipelineWorldSize cfgRank : Nat)
  | pipeline (deviceRank worldSize : Nat)
  | other
  deriving DecidableEq

/-- `_is_primary_output_node`. -/
def ImageShard.isPrimaryOutputNode : ImageShard → Bool
  | .cfg pipelineRank pipelineWorldSize cfgRank =>
      pipelineRank + 1 = pipelineWorldSize && cfgRank = 0
  | .pipeline deviceRank worldSize => deviceRank + 1 = worldSize
  | .other => false

/-- What happens when `generate_image` is resumed. -/
inductive ImageOutcome where
  | chunk
  | returns
  | raises (error : String)
  deriving DecidableEq

/-- Where `_run_image_task` is suspended. -/
inductive ImageStage where
  /-- At its start, or where it yields a response of `generate_image`. -/
  | running
  /-- Where it yields the `ErrorChunk`, with the exception still to be raised. -/
  | failed (error : String)
  /-- Where it yields the `FinishedResponse` in the `finally` block. -/
  | finishing (error : Option String)
  | exhausted
  deriving DecidableEq

namespace ImageStage

/--
`next` of the generator, when `generate_image` does `outcomes` one after the other. There is no
result as long as it runs. The response is `none` when the generator is exhausted.
-/
def next (isPrimary : Bool) :
    ImageStage → List ImageOutcome → Option (Except String (Option GenerationResponse) × ImageStage)
  | .running, [] => none
  | .running, .chunk :: outcomes =>
      if isPrimary then some (.ok (some .chunk), .running) else next isPrimary .running outcomes
  | .running, .returns :: _ => some (.ok (some .finished), .finishing none)
  | .running, .raises error :: _ =>
      if isPrimary then some (.ok (some .chunk), .failed error)
      else some (.ok (some .finished), .finishing (some error))
  | .failed error, _ => some (.ok (some .finished), .finishing (some error))
  | .finishing none, _ => some (.ok none, .exhausted)
  | .finishing (some error), _ => some (.error error, .exhausted)
  | .exhausted, _ => some (.ok none, .exhausted)

/-- The task has not yielded its `FinishedResponse`. -/
def unfinished : ImageStage → Bool
  | .running | .failed _ => true
  | .finishing _ | .exhausted => false

end ImageStage

structure ImageEngine where
  shardMetadata : ImageShard
  currentGen : Option (TaskId × ImageStage) := none
  queue : List TaskId := []
  deriving DecidableEq

namespace ImageEngine

/-- `submit`. -/
def submit (e : ImageEngine) (taskId : TaskId) : ImageEngine :=
  { e with queue := e.queue ++ [taskId] }

/-- The exception of a task, or a response to it. -/
abbrev Result := Except (TaskId × String) (Option (TaskId × GenerationResponse))

/-- `resp = next(self.current_gen, None)`, for the generator of a task. -/
def resume (e : ImageEngine) (taskId : TaskId) (stage : ImageStage)
    (outcomes : List ImageOutcome) : Option (Result × ImageEngine) :=
  (stage.next e.shardMetadata.isPrimaryOutputNode outcomes).map fun (result, stage') =>
    let e' := { e with currentGen := some (taskId, stage') }
    match result with
    | .ok resp => (.ok (resp.map (taskId, ·)), e')
    | .error error => (.error (taskId, error), e')

/-- `resp = None`, or what the current generator has to say. -/
def resumeCurrent (e : ImageEngine) (outcomes : List ImageOutcome) :
    Option (Result × ImageEngine) :=
  match e.currentGen with
  | none => some (.ok none, e)
  | some (taskId, stage) => e.resume taskId stage outcomes

/-- `step`, before the response is filtered. -/
def step (e : ImageEngine) (outcomes : List ImageOutcome) : Option (Result × ImageEngine) :=
  (e.resumeCurrent outcomes).bind fun (result, e') =>
    match result, e'.queue with
    | .ok none, taskId :: queue => { e' with queue := queue }.resume taskId .running outcomes
    | _, _ => some (result, e')

/-- The tasks that have not yielded their `FinishedResponse`, in order. -/
def live (e : ImageEngine) : List TaskId :=
  (e.currentGen.toList.filter fun g => g.2.unfinished).map Prod.fst ++ e.queue

/-- Nothing is queued, and the last generator has come to its end. -/
def exhausted (e : ImageEngine) : Bool :=
  e.queue.isEmpty && e.currentGen.all fun g => g.2 = .exhausted

end ImageEngine

/-- A runner with its image engine. -/
structure ImageRunner where
  runner : Runner
  engine : ImageEngine
  /-- The tasks submitted to the engine. -/
  submitted : List TaskId := []
  /-- The tasks that have left `active_tasks`. -/
  left : List TaskId := []
  /-- What the generators yielded. -/
  yielded : List (TaskId × GenerationResponse) := []
  /-- The task of each exception that a step raised, with the tasks active then. -/
  raised : List (TaskId × List TaskId) := []
  deriving DecidableEq

inductive ImageAction where
  | take (task : Task)
  | takeClosed
  /-- `queue.Empty`. -/
  | pollEmpty
  | step (outcomes : List ImageOutcome)
  deriving DecidableEq

namespace ImageRunner

/-- The runner goes on as `r`; what is no longer active has left. -/
def become (g : ImageRunner) (r : Runner) : ImageRunner :=
  { g with
    runner := r
    left := g.left ++ g.runner.activeTasks.keys.filter fun t => t ∉ r.activeTasks.keys }

/-- The runner takes a task; only image tasks come to an image model. -/
def take (g : ImageRunner) (task : Task) : Option ImageRunner :=
  match task.kind with
  | .textGeneration .. => none
  | _ =>
      (g.runner.take task).map fun (r, _) =>
        if g.runner.submits task then
          { g.become r with
            engine := g.engine.submit task.taskId
            submitted := g.submitted ++ [task.taskId] }
        else g.become r

/-- `self.generator.step()` in the loop of the runner. -/
def stepEngine (g : ImageRunner) (outcomes : List ImageOutcome) : Option ImageRunner :=
  (g.engine.step outcomes).bind fun (result, e) =>
    match result with
    | .error (taskId, error) =>
        some { g.become (g.runner.raise error).1 with
          engine := e
          raised := g.raised ++ [(taskId, g.runner.activeTasks.keys)] }
    | .ok resp =>
        let results := if e.shardMetadata.isPrimaryOutputNode then resp.toList else []
        (g.runner.engineStep results).map fun (r, _) =>
          { g.become r with engine := e, yielded := g.yielded ++ resp.toList }

def step (g : ImageRunner) : ImageAction → Option ImageRunner
  | .take task => g.take task
  | .takeClosed => g.runner.takeClosed.map g.become
  | .pollEmpty => if g.runner.phase = .polling then some (g.become g.runner.loop.1) else none
  | .step outcomes => if g.runner.phase = .generating then g.stepEngine outcomes else none

/-- A runner that waits for its first request, with a new engine. -/
def start (boundInstance : BoundInstance) (shard : ImageShard) (seen : List TaskId) :
    ImageRunner where
  runner :=
    { boundInstance := boundInstance
      currentStatus := .ready none
      isEngine := true
      seen := seen
      phase := .waiting }
  engine := { shardMetadata := shard }

def machine (boundInstance : BoundInstance) (shard : ImageShard) (seen : List TaskId) :
    Machine ImageRunner ImageAction where
  init := start boundInstance shard seen
  step := step

end ImageRunner

end Exo
