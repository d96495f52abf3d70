import Exo.Lib.Machine
import Exo.Worker.ActiveTasks
import Exo.Worker.BatchGenerator

/-!
# The generation loop

A runner and its batch engine. The runner hands the engine tasks between two calls of
`step`, and reads what a call returns into its own list of active tasks. Inside a call the
engine is at one of a few places where it waits for the other ranks or for the model, and
cancellations arrive all the time.
-/

namespace Exo

open Lib (Dict Machine)

/-- Where the engine is inside `step`. -/
inductive EngineStage where
  /-- At its first line, or not called. -/
  | entering
  /-- At the head of the loop that submits queued tasks. -/
  | submitting
  /-- In `_start_task`. -/
  | prefilling (task : TaskId)
  /-- After the cancellations of `distributed_prompt_progress_callback`. -/
  | checking (task : TaskId)
  /-- In `self._gen.step()`, with the responses so far. -/
  | generating (results : List TokenResponse)
  deriving DecidableEq

/-- The task that was taken off the queue and is not active yet. -/
def EngineStage.starting : EngineStage → List TaskId
  | .prefilling task | .checking task => [task]
  | _ => []

/-- What a call of `step` returned, and the tasks that were active in the runner then. -/
structure Round where
  active : List TaskId
  results : List (TaskId × GenerationResponse)
  deriving DecidableEq

/-- The task was active, and the round ends it. -/
def Round.ends (round : Round) (t : TaskId) : Bool :=
  round.active.contains t && round.results.any fun p => p.1 = t && p.2 ≠ .chunk

structure Generation where
  runner : Runner
  engine : BatchGenerator
  stage : EngineStage := .entering
  /-- The calls of `step` that returned. -/
  rounds : List Round := []
  deriving DecidableEq

/-- How a call of `step` goes on. -/
inductive EngineAction where
  | agreeOnTasks (others : Others)
  | startTask
  | promptProgress (others : Others)
  | check (others : Others)
  | prefilled
  | generate
  | token (response : TokenResponse) (others : Others)
  | finish
  | noWork
  /-- An exception leaves `step`. -/
  | fail
  deriving DecidableEq

inductive GenerationAction where
  | take (task : Task)
  | takeClosed
  /-- `queue.Empty`. -/
  | pollEmpty
  /-- A task id, or `CANCEL_ALL_TASKS`, comes to the cancel receiver. -/
  | cancel (taskId : TaskId)
  | engine (a : EngineAction)
  deriving DecidableEq

/-- What comes to the receiver is part of what it collects next. -/
def Agreements.receive (a : Agreements) (taskId : TaskId) : Agreements :=
  { a with cancelReceiver := [a.cancelReceiver.headD [] ++ [taskId]] }

namespace Generation

/-- The runner takes a task. `submit` asserts that it is a text generation. -/
def take (g : Generation) (task : Task) : Option Generation :=
  (g.runner.take task).map fun (r, _) =>
    if g.runner.submits task then
      match task.kind with
      | .textGeneration .. => { g with runner := r, engine := g.engine.submit task.taskId }
      | _ => { g with runner := (r.raise "AssertionError").1 }
    else { g with runner := r }

/-- The end of `step`, after the responses were handled, and what the runner does with them. -/
def finish (g : Generation) (e : BatchGenerator) (output : List (TaskId × GenerationResponse)) :
    Option Generation :=
  let (e, cancelled) := e.applyCancellations
  let results := (output ++ cancelled).filter fun p => p.2 ≠ .chunk || e.deviceRank = 0
  (g.runner.engineStep results).map fun (r, _) =>
    { runner := r, engine := e, stage := .entering
      rounds := g.rounds ++ [⟨g.runner.activeTasks.keys, results⟩] }

/-- `while self._queue and len(self._active_tasks) < EXO_MAX_CONCURRENT_REQUESTS`. -/
def submits (g : Generation) (maxConcurrentRequests : Nat) : Bool :=
  g.engine.queue ≠ [] && g.engine.activeTasks.entries.length < maxConcurrentRequests

/-- `step` of the engine, from one place where it waits to the next. -/
def stepEngine (maxConcurrentRequests : Nat) (g : Generation) :
    EngineStage → EngineAction → Option Generation
  | .entering, .agreeOnTasks others =>
      if g.engine.queue = [] then
        (g.engine.agree g.engine.agreeOnTasks others).map fun e =>
          { g with engine := e, stage := .submitting }
      else some { g with stage := .submitting }
  | .submitting, .startTask =>
      match g.engine.queue with
      | [] => none
      | task :: queue =>
          if g.submits maxConcurrentRequests then
            some { g with engine := { g.engine with queue := queue }, stage := .prefilling task }
          else none
  | .prefilling task, .promptProgress others =>
      (g.engine.agree g.engine.agreeOnCancellations others).map fun e =>
        { g with engine := e, stage := .checking task }
  | .checking task, .check others =>
      -- a cancelled prefill goes on with the next task of the queue
      if g.engine.shouldCancel task then some { g with stage := .submitting }
      else
        (g.engine.agree g.engine.agreeOnTasks others).map fun e =>
          { g with engine := e, stage := .prefilling task }
  | .prefilling task, .prefilled =>
      some { g with engine := g.engine.activate task, stage := .submitting }
  | .submitting, .generate =>
      if g.submits maxConcurrentRequests then none
      else some { g with stage := .generating [] }
  | .submitting, .noWork =>
      if g.submits maxConcurrentRequests || g.engine.gen.activeTasks.entries ≠ [] then none
      else g.finish g.engine []
  | .generating results, .token response others =>
      (g.engine.token response others).map fun e =>
        { g with engine := e, stage := .generating (results ++ [response]) }
  | .generating results, .finish =>
      let (activeTasks, output) := BatchGenerator.outputs results g.engine.activeTasks
      g.finish { g.engine with activeTasks := activeTasks } output
  | _, .fail => some { g with runner := (g.runner.raise "Exception").1 }
  | _, _ => none

def step (maxConcurrentRequests : Nat) (g : Generation) : GenerationAction → Option Generation
  | .take task => if task.taskId = CANCEL_ALL_TASKS then none else g.take task
  | .takeClosed => g.runner.takeClosed.map fun r => { g with runner := r }
  | .pollEmpty =>
      if g.runner.phase = .polling then some { g with runner := g.runner.loop.1 } else none
  | .cancel taskId =>
      some { g with engine := { g.engine with
        toAgreements := g.engine.toAgreements.receive taskId } }
  | .engine a =>
      if g.runner.phase = .generating then g.stepEngine maxConcurrentRequests g.stage a else none

/-- A runner that waits for its first request, with a new engine. -/
def start (boundInstance : BoundInstance) (port : Option Nat) (seen : List TaskId)
    (checkForCancelEvery : Nat) : Generation where
  runner :=
    { boundInstance := boundInstance
      currentStatus := .ready port
      isEngine := true
      seen := seen
      prefillServerPort := port
      phase := .waiting }
  engine :=
    { deviceRank := boundInstance.boundShard.deviceRank
      checkForCancelEvery := checkForCancelEvery }

/-- The tasks that the engine holds. -/
def live (g : Generation) : List TaskId :=
  g.engine.maybeQueue ++ g.engine.queue ++ g.stage.starting ++ g.engine.activeTasks.values

end Generation

/-- What the generation loop of a runner is set up with. -/
structure GenerationConfig where
  boundInstance : BoundInstance
  /-- The port of the prefill server. -/
  port : Option Nat := none
  /-- The tasks the runner handled while it was set up. -/
  seen : List TaskId := []
  checkForCancelEvery : Nat := 50
  /-- `EXO_MAX_CONCURRENT_REQUESTS`. -/
  maxConcurrentRequests : Nat := 8

def GenerationConfig.machine (cfg : GenerationConfig) : Machine Generation GenerationAction where
  init := .start cfg.boundInstance cfg.port cfg.seen cfg.checkForCancelEvery
  step := Generation.step cfg.maxConcurrentRequests

end Exo
