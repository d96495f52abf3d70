import Exo.Lib.Machine
import Exo.Master.Commands
import Exo.Shared.Tasks

/-!
# The streams of an API

A client that asks for a text is checked against the API's own copy of the state, its command
goes to the master, and the API streams what the log brings for the command. The three look at
the instances at different times.

The API is one node's; the commands of all others come from elsewhere. What the workers report
is any sequence of events that workers send. `drawn` and `issued` are histories: they say that
no two requests and no two tasks draw the same id.
-/

namespace Exo

open Lib (Dict Machine)

/-- A chunk of a text, as far as a stream looks at it. -/
inductive TextChunk where
  /-- `TokenChunk`, with whether it has a `finish_reason`. -/
  | token (finished : Bool)
  | error
  | toolCall
  | prefillProgress (processedTokens totalTokens : Nat)
  deriving DecidableEq, Repr

/-- `chunk.finish_reason is not None`, for a chunk that has the field. -/
def TextChunk.finishes : TextChunk → Bool
  | .token finished => finished
  | .error | .toolCall => true
  | .prefillProgress .. => false

/-- A logged event, with the chunk if it carries one. -/
inductive LoggedEvent where
  | plain (body : EventBody)
  | chunk (commandId : CommandId) (chunk : TextChunk)
  deriving DecidableEq

def LoggedEvent.body : LoggedEvent → EventBody
  | .plain body => body
  | .chunk commandId _ => .chunkGenerated commandId

/-- A task of the command is on the instance. -/
def State.serves (s : State) (commandId : CommandId) (instanceId : InstanceId) : Bool :=
  s.tasks.values.any fun task =>
    task.instanceId = instanceId ∧ task.kind.commandId? = some commandId

/-- A channel of `_token_chunk_stream`. -/
structure TextQueue where
  /-- Everything ever sent into it. -/
  sent : List TextChunk := []
  /-- How much of it the stream has read. -/
  read : Nat := 0
  /-- Its sender is in `_text_generation_queues`. -/
  held : Bool := true
  /-- Its sender is closed. -/
  closed : Bool := false
  /-- The stream is over, and its receiver is closed. -/
  ended : Bool := false
  deriving DecidableEq

namespace TextQueue

/-- `queue.send(chunk)`, which gives up a sender that cannot send. -/
def send (q : TextQueue) (chunk : TextChunk) : TextQueue :=
  if q.held = false then q
  else if q.closed ∨ q.ended then { q with held := false }
  else { q with sent := q.sent ++ [chunk] }

/-- `pop` from the table and `close`. -/
def popClose (q : TextQueue) : TextQueue :=
  if q.held then { q with held := false, closed := true } else q

/-- The `finally` block of `_token_chunk_stream`. -/
def finish (q : TextQueue) : TextQueue := { q with held := false, ended := true }

/-- What a client waits for has come: the last chunk, or the end of the stream. -/
def resolved (q : TextQueue) : Bool := q.sent.any (·.finishes) || q.closed || q.ended

end TextQueue

/-- The part of an API that answers requests for texts. -/
structure TextApi where
  state : State := {}
  /-- How many logged events were applied. -/
  applied : Nat := 0
  /-- The models of the requests that passed the check and did not send their command. -/
  accepted : List ModelId := []
  /-- The commands that were sent and whose stream has not begun. -/
  unstreamed : List CommandId := []
  /-- The channel of every stream. -/
  queues : Dict CommandId TextQueue := .empty
  deriving DecidableEq

namespace TextApi

/-- The command is one of this API. -/
def owns (a : TextApi) (commandId : CommandId) : Bool :=
  commandId ∈ a.unstreamed ∨ (a.queues.get? commandId).isSome

def onQueue (a : TextApi) (commandId : CommandId) (f : TextQueue → TextQueue) : TextApi :=
  { a with queues := a.queues.mapValues fun c q => if c = commandId then f q else q }

/-- `_close_streams_for_instance`. -/
def closeStreamsForInstance (a : TextApi) (instanceId : InstanceId) : TextApi :=
  { a with queues := a.queues.mapValues fun commandId q =>
      if a.state.serves commandId instanceId then q.popClose else q }

/-- One round of `_apply_state`. -/
def applyEvent (a : TextApi) (e : LoggedEvent) : TextApi :=
  let a := { a with state := e.body.apply a.state, applied := a.applied + 1 }
  match e with
  | .chunk commandId chunk => a.onQueue commandId (·.send chunk)
  | .plain (.instanceDeleted instanceId) => a.closeStreamsForInstance instanceId
  | _ => a

/-- `_resolve_and_validate_text_model`; the else is the answer 404. -/
def validates (a : TextApi) (model : ModelId) : Bool :=
  a.state.instances.values.any fun inst => inst.shardAssignments.modelId = model

end TextApi

/-- An API, the master and the log between them. -/
structure Gateway where
  api : TextApi := {}
  /-- What is on its way to the master. -/
  commands : List Command := []
  processor : CommandProcessor := {}
  /-- What the master sent to itself and has not logged. -/
  outbox : List EventBody := []
  log : List LoggedEvent := []
  /-- The ids of all requests. -/
  drawn : List CommandId := []
  /-- Every task id that was drawn, with the command and the instance the task is for. -/
  issued : Dict TaskId (Option CommandId × InstanceId) := .empty
  deriving DecidableEq

namespace Gateway

inductive Action where
  /-- A client asks for a text of the model, and passes the check. -/
  | accept (model : ModelId)
  /-- The command of the accepted request at this place is sent. -/
  | sendCommand (i : Nat) (commandId : CommandId) (imageHashes : List Base64ImageHash)
  /-- `_token_chunk_stream` begins. -/
  | stream (commandId : CommandId)
  /-- The stream reads its next chunk, and is over after the last one. -/
  | read (commandId : CommandId)
  /-- The stream comes to the end of a channel that was closed. -/
  | exhausted (commandId : CommandId)
  /-- The client of the stream goes away. -/
  | clientGone (commandId : CommandId)
  | cancelCommand (commandId : CommandId)
  /-- Somebody else sends a command. -/
  | submit (command : Command)
  /-- The master executes the command at this place. -/
  | execute (i : Nat) (freshTaskId : TaskId)
  /-- The master logs what it sent to itself. -/
  | log
  /-- The master logs an event of a worker, or of its planning loop. -/
  | logOther (e : LoggedEvent)
  /-- The API applies the next event of the log. -/
  | apply
  deriving DecidableEq

def setApi (g : Gateway) (a : TextApi) : Gateway := { g with api := a }

/-- The stream of the command is over; `commands` are sent last. -/
def endStream (g : Gateway) (commandId : CommandId) (commands : List Command) : Gateway :=
  { g.setApi (g.api.onQueue commandId TextQueue.finish) with commands := g.commands ++ commands }

/-- The task an event creates, and the command and the instance it is for. -/
def created? : EventBody → Option (TaskId × Option CommandId × InstanceId)
  | .taskCreated taskId task => some (taskId, task.kind.commandId?, task.instanceId)
  | _ => none

/-- The task created by a list of events is recorded; no step creates two. -/
def issue (g : Gateway) (events : List EventBody) : Gateway :=
  match events.findSome? created? with
  | some (taskId, origin) => { g with issued := g.issued.set taskId origin }
  | none => g

/-- The master executes a command. -/
def executeCommand (g : Gateway) (i : Nat) (taskId : TaskId) : Option Gateway :=
  (g.commands[i]?).map fun command =>
    let (processor, events) := g.processor.execute taskId command
    { g with
      commands := g.commands.eraseIdx i
      processor := processor
      outbox := g.outbox ++ events }.issue events

/-- The master logs an event and applies it. -/
def append (g : Gateway) (e : LoggedEvent) : Gateway :=
  { g with
    log := g.log ++ [e]
    processor := { g.processor with state := e.body.apply g.processor.state } }

/--
The events that do not come out of a command. A worker announces tasks of its own, and tasks
that were logged before.
-/
def sentByOthers (g : Gateway) : LoggedEvent → Bool
  | .chunk .. => true
  | .plain (.taskCreated taskId task) =>
      decide (task.taskId = taskId)
        && (g.issued.get? taskId).all (· = (task.kind.commandId?, task.instanceId))
        && g.outbox.all fun body => (created? body).all (·.1 ≠ taskId)
  | .plain (.instanceCreated _) | .plain (.instanceLinkCreated _) | .plain (.instanceLinkDeleted _)
  | .plain (.taskDeleted _) | .plain (.chunkGenerated _) => false
  | .plain _ => true

/-- A command comes from elsewhere, and is about no request of this API. -/
def submitted (g : Gateway) (command : Command) : Option Gateway :=
  let g' := { g with commands := g.commands ++ [command] }
  match command with
  | .textGeneration commandId .. | .imageGeneration commandId _ | .imageEdits commandId .. =>
      if commandId ∈ g.drawn then none else some { g' with drawn := commandId :: g.drawn }
  | .taskCancelled commandId | .taskFinished commandId =>
      if g.api.owns commandId then none else some { g' with drawn := commandId :: g.drawn }
  | _ => some g'

def step (g : Gateway) : Action → Option Gateway
  | .accept model =>
      if g.api.validates model then
        some (g.setApi { g.api with accepted := g.api.accepted ++ [model] })
      else none
  | .sendCommand i commandId imageHashes => do
      let model ← g.api.accepted[i]?
      if commandId ∈ g.drawn then none
      else
        some { g.setApi { g.api with
            accepted := g.api.accepted.eraseIdx i
            unstreamed := g.api.unstreamed ++ [commandId] } with
          commands := g.commands ++ [.textGeneration commandId model imageHashes]
          drawn := commandId :: g.drawn }
  | .stream commandId =>
      if commandId ∈ g.api.unstreamed then
        some (g.setApi { g.api with
          unstreamed := g.api.unstreamed.erase commandId
          queues := g.api.queues.set commandId {} })
      else none
  | .read commandId => do
      let q ← g.api.queues.get? commandId
      let chunk ← q.sent[q.read]?
      let g' := g.setApi (g.api.onQueue commandId fun q => { q with read := q.read + 1 })
      if q.ended then none
      else if chunk.finishes then some (g'.endStream commandId [.taskFinished commandId])
      else some g'
  | .exhausted commandId => do
      let q ← g.api.queues.get? commandId
      if q.ended ∨ q.closed = false ∨ q.read < q.sent.length then none
      else some (g.endStream commandId [.taskFinished commandId])
  | .clientGone commandId => do
      let q ← g.api.queues.get? commandId
      if q.ended then none
      else some (g.endStream commandId [.taskCancelled commandId, .taskFinished commandId])
  | .cancelCommand commandId => do
      let q ← g.api.queues.get? commandId
      if q.held then
        some { g.setApi (g.api.onQueue commandId fun q => { q with closed := true }) with
          commands := g.commands ++ [.taskCancelled commandId] }
      else none
  | .submit command => g.submitted command
  | .execute i taskId =>
      if (g.issued.get? taskId).isSome then none else g.executeCommand i taskId
  | .log =>
      match g.outbox with
      | [] => none
      | body :: outbox => some ({ g with outbox := outbox }.append (.plain body))
  | .logOther e =>
      if g.sentByOthers e then
        let commandIds := ((created? e.body).bind (·.2.1)).toList
        some ({ g with drawn := commandIds ++ g.drawn }.issue [e.body] |>.append e)
      else none
  | .apply => (g.log[g.api.applied]?).map fun e => g.setApi (g.api.applyEvent e)

def machine : Machine Gateway Action := ⟨{}, step⟩

end Gateway

end Exo
