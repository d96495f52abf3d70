import Exo.Worker.Runner

/-!
# The supervisor of a runner

A worker has one supervisor for each runner it created. The supervisor hands tasks and
cancellations to the process, keeps book of them, and forwards the events of the process
to the worker's event sender.

The channels to the process are unbounded, so a send to one never blocks. `witnessed` is a
history: no operation reads it.
-/

namespace Exo

open Lib (Dict)

structure Supervisor where
  boundInstance : BoundInstance
  status : RunnerStatus := .idle
  /-- The tasks that were not acknowledged yet, each with whether its event is set. -/
  pending : Dict TaskId Bool := .empty
  inProgress : Dict TaskId Task := .empty
  completed : List TaskId := []
  cancelled : List TaskId := []
  /-- What is on its way to the process. -/
  tasks : List Task := []
  cancels : List TaskId := []
  /-- The task channel is closed, by the process or by the supervisor. -/
  closed : Bool := false
  /-- `run` has ended. -/
  stopped : Bool := false
  /-- `_forward_events` is running. -/
  forwarding : Bool := true
  /-- What is on its way from the process. -/
  messages : List RunnerMessage := []
  runner : Runner
  /-- The tasks it had in progress when a cancellation of them was logged. -/
  witnessed : List TaskId := []
  deriving DecidableEq

namespace Supervisor

/-- `create`. -/
def create (boundInstance : BoundInstance) : Supervisor where
  boundInstance := boundInstance
  runner := { boundInstance := boundInstance }

/-- The instance of its runner. -/
def instanceId (s : Supervisor) : InstanceId := s.boundInstance.inst.instanceId

/-- The events of all pending tasks are set. -/
def releasePending (s : Supervisor) : Supervisor :=
  { s with pending := s.pending.mapValues fun _ _ => true }

/-- The `finally` block of `run`, once `shutdown` has cancelled its tasks. One of them may be
`_forward_events`, which sets the events of the pending tasks when it is cancelled. -/
def stop (s : Supervisor) : Supervisor :=
  { s with
    pending := if s.forwarding then s.releasePending.pending else s.pending
    closed := true
    stopped := true
    forwarding := false
    cancels := if s.stopped then s.cancels else s.cancels ++ [CANCEL_ALL_TASKS] }

/-- `start_task`, up to `event.wait()`, and whether it comes to that wait. -/
def startTask (s : Supervisor) (task : Task) : Supervisor × Bool :=
  if (s.pending.get? task.taskId).isSome then (s, false)
  else if task.taskId ∈ s.completed then (s, false)
  else
    let s' := { s with pending := s.pending.set task.taskId false }
    if s.closed then ({ s' with inProgress := s.inProgress.erase task.taskId }, false)
    else
      ({ s' with
        inProgress := s.inProgress.set task.taskId task
        tasks := s.tasks ++ [task] }, true)

/-- `event.wait()` returns. -/
def isAcknowledged (s : Supervisor) (taskId : TaskId) : Bool :=
  (s.pending.get? taskId).getD true

/-- `cancel_task`. -/
def cancelTask (s : Supervisor) (taskId : TaskId) : Supervisor :=
  { s with
    cancelled := taskId :: s.cancelled
    cancels := if taskId ∈ s.completed ∨ s.stopped then s.cancels else s.cancels ++ [taskId] }

/-- The statuses in which a runner completes a task. -/
def mayComplete : RunnerStatus → Bool
  | .running | .warmingUp | .loading .. | .connecting | .shuttingDown => true
  | _ => false

/--
`_check_runner`, which makes sure that the process has ended; `cause` is what it says about
the exit code. The tasks it generates for are answered with an error.
-/
def checkRunner (s : Supervisor) (exitcode : Int) (cause : String) :
    Supervisor × List EventBody :=
  let s := { s with runner := { s.runner with phase := .exited exitcode } }
  if exitcode = 0 then (s, [])
  else
    let failed := .failed (some ("Terminated (" ++ cause ++ ")"))
    ({ s with status := failed }.stop,
      (s.inProgress.values.filterMap fun task => task.kind.commandId?.map .chunkGenerated)
        ++ [.runnerStatusUpdated s.boundInstance.boundRunnerId failed])

/-- One round of `_forward_events` over an event; `none` is a failed lookup or assertion. -/
def forwardEvent (s : Supervisor) (body : EventBody) : Option (Supervisor × List EventBody) :=
  match body with
  | .runnerStatusUpdated _ status => some ({ s with status := status }, [body])
  | .taskAcknowledged taskId =>
      if (s.pending.get? taskId).isSome then
        some ({ s with pending := s.pending.erase taskId }, [])
      else none
  | .taskStatusUpdated taskId .complete =>
      if mayComplete s.status then
        some ({ s with
          inProgress := s.inProgress.erase taskId
          completed := taskId :: s.completed }, [body])
      else none
  | _ => some (s, [body])

/-- The `finally` block of `_forward_events`. -/
def endForwarding (s : Supervisor) : Supervisor := { s.releasePending with forwarding := false }

/-- What the process and the coroutines of its supervisor do by themselves. -/
inductive Action where
  /-- The process has started and constructs its runner. -/
  | boot
  /-- The runner takes the next task off its queue. -/
  | take
  /-- The runner finds its queue closed. -/
  | takeClosed
  /-- The runner polls its queue and finds nothing. -/
  | pollEmpty
  /-- A blocking call of the runner returns. -/
  | unblock (port : Option Nat)
  | loadProgress (layersLoaded totalLayers : Nat)
  /-- A step of the engine, in which it reads some of the cancellations. -/
  | engineStep (reads : Nat) (results : List (TaskId × GenerationResponse))
  /-- The process dies. -/
  | die (exitcode : Int)
  /-- `_forward_events` forwards the next event. -/
  | forward
  /-- `_forward_events` reads the error the process died of. -/
  | forwardError (exitcode : Int) (cause : String)
  /-- `_forward_events` finds the channel closed, whatever is still in it. -/
  | forwardClosed (exitcode : Int) (cause : String)
  /-- `_forward_events` comes to the end of the events. -/
  | forwardEnd
  /-- `_watch_runner` finds the process dead. -/
  | watch (cause : String)
  deriving DecidableEq

/-- The process has ended. -/
def exited (s : Supervisor) : Bool :=
  match s.runner.phase with
  | .exited _ => true
  | _ => false

/-- After a step of the process. When it leaves `main`, its end of the task channel is closed. -/
def sent (s : Supervisor) (p : Runner × List RunnerMessage) : Supervisor :=
  let s' := { s with runner := p.1, messages := s.messages ++ p.2 }
  { s' with closed := s.closed || s'.exited }

/--
A step of a supervisor and its process, with the events it sends to the worker's event
sender. The inner `none` is an exception, which ends the worker.
-/
def step (s : Supervisor) : Action → Option (Option (Supervisor × List EventBody))
  | .boot =>
      if s.runner.phase = .starting then some (some (s.sent s.runner.boot, [])) else none
  | .take =>
      match s.tasks with
      | task :: tasks =>
          (s.runner.take task).map fun p => some (({ s with tasks := tasks }.sent p), [])
      | [] => none
  | .takeClosed =>
      if s.closed then s.runner.takeClosed.map fun r => some (s.sent (r, []), []) else none
  | .pollEmpty =>
      if s.runner.phase = .polling then some (some (s.sent s.runner.loop, [])) else none
  | .unblock port => (s.runner.unblock port).map fun p => some (s.sent p, [])
  | .loadProgress layersLoaded totalLayers =>
      (s.runner.loadProgress layersLoaded totalLayers).map fun p => some (s.sent p, [])
  | .engineStep reads results =>
      (s.runner.engineStep results).map fun p =>
        some ({ s with cancels := s.cancels.drop reads }.sent p, [])
  | .die exitcode => some (some ({ s with runner := { s.runner with phase := .exited exitcode } }, []))
  | .forward =>
      if s.forwarding then
        match s.messages with
        | .event body :: messages => some ({ s with messages := messages }.forwardEvent body)
        | _ => none
      else none
  | .forwardError exitcode cause =>
      if s.forwarding then
        match s.messages with
        | .terminationError _ :: messages =>
            let (s', events) := { s with messages := messages }.checkRunner exitcode cause
            some (some (s'.endForwarding, events))
        | _ => none
      else none
  | .forwardClosed exitcode cause =>
      if s.forwarding ∧ s.closed ∧ s.exited then
        let (s', events) := s.checkRunner exitcode cause
        some (some (s'.endForwarding, events))
      else none
  | .forwardEnd =>
      if s.forwarding ∧ s.closed ∧ s.exited ∧ s.messages = [] then
        some (some (s.endForwarding, []))
      else none
  | .watch cause =>
      match s.runner.phase with
      | .exited exitcode => if s.stopped then none else some (some (s.checkRunner exitcode cause))
      | _ => none

/-- A cancellation of a task is logged. -/
def witness (s : Supervisor) (taskId : TaskId) : Supervisor :=
  if (s.inProgress.get? taskId).isSome then { s with witnessed := taskId :: s.witnessed } else s

end Supervisor

end Exo
