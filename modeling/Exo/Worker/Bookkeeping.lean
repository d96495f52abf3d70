import Exo.Lib.Liveness
import Exo.Worker.Supervisor

/-!
# The books of a supervisor

A supervisor enters a task in `in_progress` when it hands it to the runner, and takes it out when a
`Complete` of the runner is forwarded. Of a cancelled task the runner says nothing. The events in
`pending` are what `start_task` waits for; when the runner dies it is `_forward_events` that sets them.
When the runner failed, the generation tasks in progress are answered with an error.

The histories beside the supervisor record what the books are about. The three parts of the law are
that they agree, that nobody waits for a dead runner, and that the errors are those that were due.
-/

namespace Exo

open Lib (Dict Machine)

/-- The active tasks that a step of the engine drops: it was told to cancel them, and says so. -/
def Runner.drops (r : Runner) (results : List (TaskId × GenerationResponse)) : List TaskId :=
  if (r.responseEvents results).2 then
    r.activeTasks.keys.filter fun t => (t, .cancelled) ∈ results ∧ (t, .finished) ∉ results
  else []

/-- The commands of the generation tasks in progress. -/
def Supervisor.generating (s : Supervisor) : List CommandId :=
  s.inProgress.values.filterMap fun task => task.kind.commandId?

/-- A supervisor, and what happened to it. -/
structure Books where
  supervisor : Supervisor
  /-- The tasks that were sent to the runner. -/
  handed : List TaskId := []
  /-- The tasks that the runner dropped because they were cancelled. -/
  dropped : List TaskId := []
  /-- `_check_runner` reported that the runner failed. -/
  failed : Bool := false
  /-- The commands it sent an `ErrorChunk` for. -/
  answered : List CommandId := []

namespace Books

/-- What the worker does with a supervisor, and the steps of its own coroutines and of its process. -/
inductive Action where
  | startTask (task : Task)
  | cancelTask (taskId : TaskId)
  | shutdown
  | run (a : Supervisor.Action)

/-- `_check_runner` is called. -/
def checks : Supervisor.Action → Bool
  | .forwardError .. | .forwardClosed .. | .watch _ => true
  | _ => false

def dropsOf (s : Supervisor) : Supervisor.Action → List TaskId
  | .engineStep _ results => s.runner.drops results
  | _ => []

def errorCommand? : EventBody → Option CommandId
  | .chunkGenerated commandId => some commandId
  | _ => none

def isFailure : EventBody → Bool
  | .runnerStatusUpdated _ (.failed _) => true
  | _ => false

/-- A step of the supervisor, with the events it sent. -/
def after (b : Books) (a : Supervisor.Action) (s : Supervisor) (events : List EventBody) : Books where
  supervisor := s
  handed := b.handed
  dropped := dropsOf b.supervisor a ++ b.dropped
  failed := b.failed || checks a && events.any isFailure
  answered := if checks a then b.answered ++ events.filterMap errorCommand? else b.answered

/-- A process that is killed or crashes dies once, and not with exit code 0. -/
def mayTake (b : Books) : Supervisor.Action → Bool
  | .die exitcode => !b.supervisor.exited && exitcode ≠ 0
  | _ => true

/-- An exception in `_forward_events` ends the supervisor. A `cancel_task` whose pipe is blocked is a
`cancelTask`, then the end of the process and a `watch`. -/
def step (b : Books) : Action → Option Books
  | .startTask task =>
    let (supervisor, sent) := b.supervisor.startTask task
    some { b with supervisor, handed := if sent then task.taskId :: b.handed else b.handed }
  | .cancelTask taskId => some { b with supervisor := b.supervisor.cancelTask taskId }
  | .shutdown => some { b with supervisor := b.supervisor.stop }
  | .run a =>
    if b.mayTake a then
      match b.supervisor.step a with
      | none => none
      | some none => some (b.after a b.supervisor.endForwarding.stop [])
      | some (some (s, events)) => some (b.after a s events)
    else none

def machine (boundInstance : BoundInstance) : Machine Books Action :=
  ⟨{ supervisor := .create boundInstance }, step⟩

/-! ## The law -/

/-- The events of all pending tasks are set. -/
def AllSet (b : Books) : Prop := ∀ t set, b.supervisor.pending.get? t = some set → set = true

/-- What the supervisor does once its runner is dead: it forwards what is left, comes to the end, or
finds in `_watch_runner` that the runner failed. -/
def own (b : Books) : Action → Prop
  | .run .forward | .run (.forwardError ..) | .run (.forwardClosed ..) | .run .forwardEnd => True
  | .run (.watch _) => b.supervisor.runner.phase ≠ .exited 0
  | _ => False

/-- The law of the books. A completion counts once it is forwarded. -/
structure Kept (m : Machine Books Action) (b : Books) : Prop where
  inProgress : ∀ t, (b.supervisor.inProgress.get? t).isSome
    ↔ t ∈ b.handed ∧ t ∉ b.supervisor.completed ∧ t ∉ b.dropped
  released : b.supervisor.exited ∨ b.supervisor.forwarding = false → m.Inevitable own AllSet b
  answered : b.answered = if b.failed then b.supervisor.generating else []

/-- What the steps of a run have to meet. No task is started that nobody listens for any more, or that
is in progress while the channel is closed, or was dropped; and the runner drops no task in progress. -/
def Orderly (b : Books) : Action → Prop
  | .startTask task =>
    (b.supervisor.pending.get? task.taskId).isSome ∨ task.taskId ∈ b.supervisor.completed
      ∨ b.supervisor.forwarding
        ∧ (b.supervisor.closed → b.supervisor.inProgress.get? task.taskId = none)
        ∧ (b.supervisor.closed = false → task.taskId ∉ b.dropped)
  | .run a => ∀ t ∈ dropsOf b.supervisor a, b.supervisor.inProgress.get? t = none
  | _ => True

end Books

end Exo
