import Exo.Lib.Machine
import Exo.Master.Commands
import Exo.Worker.Main

/-!
# The master, the workers and the log between them

The master logs the events of every source in the order of that source and in any order
between two of them. Every worker applies the log in order, at its own pace. That the event
pipeline delivers exactly this is `World.pipeline_agreement`; here it is taken for granted.

Commands reach the master in any order. The ids of tasks are uuids, so a new one was never
drawn before; `issued` is the history of all that were.
-/

namespace Exo

open Lib (Dict Machine)

structure Cluster where
  /-- The APIs of all nodes. Their commands have ids of their own, so one table holds them. -/
  api : StreamApi := {}
  /-- What is on its way to the master. -/
  commands : List Command := []
  processor : CommandProcessor := {}
  /-- What the master sent to itself and has not logged. -/
  outbox : List EventBody := []
  log : List EventBody := []
  workers : Dict NodeId Worker
  /-- Every task id that was drawn, with the instance the task is for. -/
  issued : Dict TaskId InstanceId := .empty
  deriving DecidableEq

/-- Where the master takes the next event of its log from. -/
inductive Source where
  | master
  | worker (nodeId : NodeId)
  /-- The info gatherers, the download coordinators and the plan loop of the master. -/
  | other (body : EventBody)
  deriving DecidableEq

/-- The events of the other sources. -/
def EventBody.isOther : EventBody → Bool
  | .nodeTimedOut _ | .nodeGatheredInfo .. | .nodeDownloadProgress _ | .instanceDeleted _ => true
  | _ => false

namespace Cluster

inductive Action where
  /-- A client asks for a generation. -/
  | request (command : Command)
  /-- A client asks an API to cancel a command. -/
  | cancelCommand (commandId : CommandId)
  /-- The stream of a command ends. -/
  | streamEnd (commandId : CommandId)
  /-- The client of a stream goes away. -/
  | streamCancelled (commandId : CommandId)
  /-- Somebody sends another command. -/
  | submit (command : Command)
  /-- A worker's request to delete an instance is on its way. -/
  | deletion (nodeId : NodeId)
  /-- The master executes the command at this place. -/
  | execute (i : Nat) (freshTaskId : TaskId)
  | log (source : Source)
  | apply (nodeId : NodeId)
  | worker (nodeId : NodeId) (a : Worker.Action)
  deriving DecidableEq

/-- A task id that can be drawn. -/
def Fresh (s : Cluster) (taskId : TaskId) : Prop :=
  s.issued.get? taskId = none ∧ taskId ≠ CANCEL_ALL_TASKS

instance (s : Cluster) (taskId : TaskId) : Decidable (s.Fresh taskId) :=
  inferInstanceAs (Decidable (_ ∧ _))

/-- The id that an action draws. -/
def Action.draws? : Action → Option TaskId
  | .execute _ taskId | .worker _ (.plan _ taskId) => some taskId
  | _ => none

def setWorker (s : Cluster) (nodeId : NodeId) (w : Worker) : Cluster :=
  { s with workers := s.workers.set nodeId w }

/-- An API has done something. -/
def answered (s : Cluster) (p : StreamApi × List Command) : Cluster :=
  { s with api := p.1, commands := s.commands ++ p.2 }

/-- The task an event creates, and the instance it is for. -/
def created? : EventBody → Option (TaskId × InstanceId)
  | .taskCreated taskId task => some (taskId, task.instanceId)
  | _ => none

/-- The task created by a list of events is recorded; no step creates two. -/
def issue (s : Cluster) (events : List EventBody) : Cluster :=
  match events.findSome? created? with
  | some (taskId, instanceId) => { s with issued := s.issued.set taskId instanceId }
  | none => s

/-- The master executes a command. -/
def executeCommand (s : Cluster) (i : Nat) (taskId : TaskId) : Option Cluster :=
  (s.commands[i]?).map fun command =>
    let (processor, events) := s.processor.execute taskId command
    { s with
      commands := s.commands.eraseIdx i
      processor := processor
      outbox := s.outbox ++ events }.issue events

/-- The event a source has for the log. -/
def next? (s : Cluster) : Source → Option EventBody
  | .master => s.outbox.head?
  | .worker nodeId => (s.workers.get? nodeId).bind (·.outbox.head?)
  | .other body => if body.isOther then some body else none

/-- The source has handed its event over. -/
def takeNext (s : Cluster) : Source → Cluster
  | .master => { s with outbox := s.outbox.tail }
  | .worker nodeId =>
      match s.workers.get? nodeId with
      | some w => s.setWorker nodeId { w with outbox := w.outbox.tail }
      | none => s
  | .other _ => s

/-- The task a logged event cancels. -/
def cancelled? : EventBody → Option TaskId
  | .taskStatusUpdated taskId .cancelled => some taskId
  | _ => none

/-- The master logs an event and applies it. -/
def append (s : Cluster) (body : EventBody) : Cluster :=
  { s with
    log := s.log ++ [body]
    processor := { s.processor with state := body.apply s.processor.state }
    workers :=
      match cancelled? body with
      | some taskId => s.workers.mapValues fun _ w => w.witness taskId
      | none => s.workers }

/-- A worker applies the next event of the log. -/
def applyNext (sha256 : Base64Image → Base64ImageHash) (s : Cluster) (nodeId : NodeId) :
    Option Cluster := do
  let w ← s.workers.get? nodeId
  let body ← s.log[w.applied]?
  if w.crashed then none else some (s.setWorker nodeId (w.applyEvent sha256 body))

/-- A step of a worker; a task it announces has an id from now on. -/
def workerStep (s : Cluster) (nodeId : NodeId) (a : Worker.Action) : Option Cluster := do
  let w ← s.workers.get? nodeId
  let w' ← w.step a
  some ((s.setWorker nodeId w').issue (w'.outbox.drop w.outbox.length))

def step (sha256 : Base64Image → Base64ImageHash) (s : Cluster) (a : Action) : Option Cluster :=
  if ∀ taskId ∈ a.draws?, s.Fresh taskId then
    match a with
    | .request command =>
        command.requestId?.map fun commandId => s.answered (s.api.request commandId command)
    | .cancelCommand commandId => (s.api.cancelCommand commandId).map s.answered
    | .streamEnd commandId => (s.api.streamEnd commandId).map s.answered
    | .streamCancelled commandId => (s.api.streamCancelled commandId).map s.answered
    | .submit command =>
        if command.requestId?.isSome ∨ command.isFollowUp then none
        else some { s with commands := s.commands ++ [command] }
    | .deletion nodeId => do
        let w ← s.workers.get? nodeId
        let instanceId ← w.deletions.head?
        some { s.setWorker nodeId { w with deletions := w.deletions.tail } with
          commands := s.commands ++ [.deleteInstance instanceId] }
    | .execute i taskId => s.executeCommand i taskId
    | .log source => (s.next? source).map fun body => (s.takeNext source).append body
    | .apply nodeId => s.applyNext sha256 nodeId
    | .worker nodeId a => s.workerStep nodeId a
  else none

/-- A cluster of these nodes, before anything happened. -/
def init (nodeIds : List NodeId) : Cluster where
  workers := nodeIds.foldl (fun workers nodeId => workers.set nodeId { nodeId := nodeId }) .empty

def machine (sha256 : Base64Image → Base64ImageHash) (nodeIds : List NodeId) :
    Machine Cluster Action :=
  ⟨init nodeIds, step sha256⟩

end Cluster

end Exo
