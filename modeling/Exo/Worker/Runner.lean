import Exo.Shared.Types

/-!
# The runner process

A runner reads tasks off its queue and sends events to its supervisor. It blocks in
four places: at the queue, while it connects, loads, warms up or closes, between two
steps of the engine, and at the poll after one. What it sends between two such places
is one list here, since nothing else writes to its event channel.

The engine is not part of the model. A step of it returns any list of responses about
any tasks.
-/

namespace Exo

open Lib (Dict)

/-- What comes out of the event channel of a runner. -/
inductive RunnerMessage where
  | event (body : EventBody)
  | terminationError (error : String)
  deriving DecidableEq

/-- What the engine reports about a task. -/
inductive GenerationResponse where
  | cancelled
  | finished
  | chunk
  deriving DecidableEq, Repr

/-- Where a runner is blocked. -/
inductive RunnerPhase where
  /-- The process has not constructed the runner yet. -/
  | starting
  /-- `self._work_queue.get()` in `main`. -/
  | waiting
  /-- `self.generator.connect(...)`. -/
  | connecting (task : Task)
  /-- `self.generator.load(...)`. -/
  | loading (task : Task)
  /-- `self.generator.warmup()`. -/
  | warmingUp (task : Task)
  /-- `self.generator.step()`. -/
  | generating
  /-- `self._work_queue.get_nowait()`. -/
  | polling
  /-- `self.generator.close()`. -/
  | closing (task : Task)
  | exited (exitcode : Int)
  deriving DecidableEq

structure Runner where
  boundInstance : BoundInstance
  currentStatus : RunnerStatus := .idle
  /-- `isinstance(self.generator, Engine)`; it is a `Builder` before. -/
  isEngine : Bool := false
  seen : List TaskId := []
  activeTasks : Dict TaskId Task := .empty
  prefillServerPort : Option Nat := none
  phase : RunnerPhase := .starting
  deriving DecidableEq

namespace Runner

/-- The event of `update_status`. -/
def statusEvent (r : Runner) (status : RunnerStatus) : RunnerMessage :=
  .event (.runnerStatusUpdated r.boundInstance.boundRunnerId status)

/-- The event of `send_task_status`. -/
def taskStatusEvent (taskId : TaskId) (status : TaskStatus) : RunnerMessage :=
  .event (.taskStatusUpdated taskId status)

/-- The event of `acknowledge_task`. -/
def ackEvent (taskId : TaskId) : RunnerMessage := .event (.taskAcknowledged taskId)

/-- An exception leaves `main`: the entry point reports it and exits. -/
def raise (r : Runner) (error : String) : Runner × List RunnerMessage :=
  ({ r with phase := .exited 1 }, [.terminationError error])

/-- `__init__`, up to the first `get` of `main`. -/
def boot (r : Runner) : Runner × List RunnerMessage :=
  ({ r with phase := .waiting }, [r.statusEvent .idle])

/-- `shutdown`, up to the end of `self.generator.close()`. -/
def shutdown (r : Runner) (task : Task) : Runner × List RunnerMessage :=
  ({ r with currentStatus := .shuttingDown, phase := .closing task },
    [r.statusEvent .shuttingDown, ackEvent task.taskId])

/-- `submit_generation`. -/
def submitGeneration (r : Runner) (task : Task) : Runner :=
  { r with activeTasks := r.activeTasks.set task.taskId task }

/-- The part of `handle_first_task` after its first line, up to where it blocks. -/
def handleTask (r : Runner) (task : Task) : Runner × List RunnerMessage :=
  match task.kind, r.currentStatus with
  | .connectToGroup, .idle =>
      if r.isEngine then r.raise "AssertionError"
      else
        ({ r with currentStatus := .connecting, phase := .connecting task },
          [r.statusEvent .connecting, ackEvent task.taskId])
  | .loadModel, .connected | .loadModel, .idle =>
      if r.isEngine then r.raise "Received LoadModel outside of state machine"
      else
        let shard := r.boundInstance.boundShard
        let status := .loading 0 (shard.endLayer - shard.startLayer)
        ({ r with currentStatus := status, phase := .loading task },
          [r.statusEvent status, ackEvent task.taskId])
  | .startWarmup, .loaded =>
      if r.isEngine then
        ({ r with currentStatus := .warmingUp, phase := .warmingUp task },
          [r.statusEvent .warmingUp, ackEvent task.taskId])
      else r.raise "AssertionError"
  | .textGeneration .., .ready _ | .imageGeneration .., .ready _ | .imageEdits .., .ready _ =>
      if r.isEngine then
        ({ r.submitGeneration task with currentStatus := .running, phase := .generating },
          [r.statusEvent .running, ackEvent task.taskId])
      else r.raise "AssertionError"
  | .shutdown _, _ => r.shutdown task
  | _, _ => r.raise "Received a task outside of state machine"

/-- One round of `main`: a task that was not seen before is reported as running and handled. -/
def handleFirstTask (r : Runner) (task : Task) : Runner × List RunnerMessage :=
  if task.taskId ∈ r.seen then (r, [])
  else
    let (r', sent) := { r with seen := task.taskId :: r.seen }.handleTask task
    (r', taskStatusEvent task.taskId .running :: sent)

/-- A blocking call returns, and the task that made it is complete. -/
def complete (r : Runner) (task : Task) (status : RunnerStatus) (phase : RunnerPhase) :
    Runner × List RunnerMessage :=
  ({ r with currentStatus := status, phase := phase },
    [taskStatusEvent task.taskId .complete, r.statusEvent status])

/-- `_start_prefill_server`, where `port` is the port a server can be started on. -/
def startPrefillServer (r : Runner) (port : Option Nat) : Runner :=
  if r.boundInstance.boundShard.deviceRank = 0 then
    { r with prefillServerPort := r.prefillServerPort.or port }
  else r

/-- The call the runner is blocked in returns; it exits with `AllTasksComplete` after `shutdown`. -/
def unblock (r : Runner) (port : Option Nat) : Option (Runner × List RunnerMessage) :=
  match r.phase with
  | .connecting task => some (r.complete task .connected .waiting)
  | .loading task => some ({ r with isEngine := true }.complete task .loaded .waiting)
  | .warmingUp task =>
      let r' := r.startPrefillServer port
      some (r'.complete task (.ready r'.prefillServerPort) .waiting)
  | .closing task => some (r.complete task .shutdown (.exited 0))
  | _ => none

/-- `load_progress` of a model that is loading. -/
def loadProgress (r : Runner) (layersLoaded totalLayers : Nat) :
    Option (Runner × List RunnerMessage) :=
  match r.phase with
  | .loading _ =>
      let status := .loading layersLoaded totalLayers
      some ({ r with currentStatus := status }, [r.statusEvent status])
  | _ => none

/--
What the responses of one step make the runner send, up to the first chunk of a task that
is not active, and whether there was none.
-/
def responseEvents (r : Runner) :
    List (TaskId × GenerationResponse) → List RunnerMessage × Bool
  | [] => ([], true)
  | (_, .cancelled) :: results => r.responseEvents results
  | (taskId, .finished) :: results =>
      let (sent, ok) := r.responseEvents results
      (taskStatusEvent taskId .complete :: sent, ok)
  | (taskId, .chunk) :: results =>
      match r.activeTasks.get? taskId with
      | none => ([], false)
      | some task =>
          let (sent, ok) := r.responseEvents results
          (task.kind.commandId?.toList.map (.event <| .chunkGenerated ·) ++ sent, ok)

/-- The tasks that a list of responses ends. -/
def finishedTasks (results : List (TaskId × GenerationResponse)) : List TaskId :=
  results.filterMap fun p => if p.2 = .chunk then none else some p.1

/-- `self.generator.step()` returns `results`, and the loop goes on to the poll. -/
def engineStep (r : Runner) (results : List (TaskId × GenerationResponse)) :
    Option (Runner × List RunnerMessage) :=
  match r.phase with
  | .generating =>
      let (sent, ok) := r.responseEvents results
      if ok then
        let activeTasks := (finishedTasks results).foldl Dict.erase r.activeTasks
        some ({ r with activeTasks := activeTasks, phase := .polling }, sent)
      else
        let (r', error) := r.raise "KeyError"
        some (r', sent ++ error)
  | _ => none

/-- `while self.active_tasks`. -/
def loop (r : Runner) : Runner × List RunnerMessage :=
  if r.activeTasks.entries = [] then
    let status := .ready r.prefillServerPort
    ({ r with currentStatus := status, phase := .waiting }, [r.statusEvent status])
  else ({ r with phase := .generating }, [])

/-- The poll finds a task. -/
def pollTask (r : Runner) (task : Task) : Runner × List RunnerMessage :=
  if task.taskId ∈ r.seen then r.loop
  else
    let r' := { r with seen := task.taskId :: r.seen }
    match task.kind with
    | .textGeneration .. | .imageGeneration .. | .imageEdits .. =>
        let (r'', sent) := (r'.submitGeneration task).loop
        (r'', ackEvent task.taskId :: sent)
    | .shutdown _ => r'.shutdown task
    | _ => r'.raise "Received a task outside of state machine"

/-- A task comes off the queue. -/
def take (r : Runner) (task : Task) : Option (Runner × List RunnerMessage) :=
  match r.phase with
  | .waiting => some (r.handleFirstTask task)
  | .polling => some (r.pollTask task)
  | _ => none

/-- The queue has come to its end: `main` breaks, and the generation loop goes back to `main`. -/
def takeClosed (r : Runner) : Option Runner :=
  match r.phase with
  | .waiting => some { r with phase := .exited 0 }
  | .polling => some { r with phase := .waiting }
  | _ => none

end Runner

end Exo
