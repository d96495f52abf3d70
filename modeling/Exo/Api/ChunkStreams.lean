import Exo.Api.Claude
import Exo.Api.TextStreams
import Exo.Lib.Sequence
import Exo.Nodes.Addresses
import Exo.Nodes.Lifecycle

/-!
# Chunks on their way from the log to the streams

`_apply_state` hands the chunks of the log to the channels of the streams, text to text and images
to images, and dies when one is of the wrong type for the channel it is for. `TextApi` has the
requests around the streams of texts; here are the chunks themselves, with those of images and
with the part of the state that is about nodes.

The log is any sequence of events the other parties can send. `drawn` is a history: it says which
ids are those of commands for texts and which of commands for images.
-/

namespace Exo

open Lib (Dict Machine takeThrough)

/-! ## Chunks -/

inductive GenerationKind where
  | text
  | image
  deriving DecidableEq, Repr

structure ImageChunk where
  data : String
  chunkIndex : Nat
  totalChunks : Nat
  imageIndex : Nat
  isPartial : Bool := false
  deriving DecidableEq, Repr

/-- `Chunk`: `ImageChunk`, or one of the others. -/
inductive GeneratedChunk where
  | text (chunk : StreamChunk)
  | image (chunk : ImageChunk)
  deriving DecidableEq, Repr

/-- `chunk.finish_reason is not None`, for a chunk that has the field. -/
def StreamChunk.finishes : StreamChunk → Bool
  | .error _ | .toolCall .. => true
  | .token _ _ finishReason _ => finishReason.isSome
  | .prefillProgress .. => false

/-- Who makes chunks. -/
inductive ChunkSource where
  /-- The generators of an LLM, which only take `TextGeneration`. -/
  | textEngine
  /-- `ImageEngine`, which only takes `ImageGeneration` and `ImageEdits`. -/
  | imageEngine
  /-- The supervisor of a runner that died with the task in progress. -/
  | supervisor
  deriving DecidableEq, Repr

/-- The chunks a source sends for a task of a command of the kind. -/
def ChunkSource.sends : ChunkSource → GenerationKind → GeneratedChunk → Bool
  | .textEngine, .text, .text _ => true
  | .imageEngine, .image, .image _ => true
  | .imageEngine, .image, .text (.error _) => true
  | .supervisor, _, .text (.error _) => true
  | _, _, _ => false

/-! ## The channels of the streams -/

/-- A channel of `_token_chunk_stream`. -/
structure ChunkQueue where
  /-- Everything ever sent into it. -/
  sent : List StreamChunk := []
  /-- How much of it the stream has read. -/
  read : Nat := 0
  /-- Its sender is in `_text_generation_queues`. -/
  held : Bool := true
  /-- Its sender is closed. -/
  closed : Bool := false
  /-- The stream is over, and its receiver is closed. -/
  ended : Bool := false
  /-- History: the client of the stream went away. -/
  cancelled : Bool := false
  /-- History: how many events had been applied when it was closed or its client went away. -/
  stoppedAt : Option Nat := none
  deriving DecidableEq

namespace ChunkQueue

/-- What the stream has yielded. -/
def yielded (q : ChunkQueue) : List StreamChunk := q.sent.take q.read

/-- `queue.send(chunk)`, which gives up a sender that cannot send. -/
def send (q : ChunkQueue) (chunk : StreamChunk) : ChunkQueue :=
  if q.held = false then q
  else if q.closed ∨ q.ended then { q with held := false }
  else { q with sent := q.sent ++ [chunk] }

def stop (q : ChunkQueue) (applied : Nat) : ChunkQueue :=
  { q with stoppedAt := q.stoppedAt.or (some applied) }

/-- `sender.close()`. -/
def close (q : ChunkQueue) (applied : Nat) : ChunkQueue := { q.stop applied with closed := true }

/-- `pop` from the table and `close`. -/
def popClose (q : ChunkQueue) (applied : Nat) : ChunkQueue :=
  if q.held then { q.close applied with held := false } else q

/-- The `finally` block of `_token_chunk_stream`. -/
def finish (q : ChunkQueue) : ChunkQueue := { q with held := false, ended := true }

/-- The client of the stream goes away. -/
def leave (q : ChunkQueue) (applied : Nat) : ChunkQueue :=
  { (q.stop applied).finish with cancelled := true }

/-- The stream yields a chunk, and is over after the last one. -/
def advance (q : ChunkQueue) (chunk : StreamChunk) : ChunkQueue :=
  let q := { q with read := q.read + 1 }
  if chunk.finishes then q.finish else q

end ChunkQueue

/-- A channel of a stream of images. -/
structure ImageQueue where
  sent : List ImageChunk := []
  held : Bool := true
  closed : Bool := false
  ended : Bool := false
  deriving DecidableEq

namespace ImageQueue

def send (q : ImageQueue) (chunk : ImageChunk) : ImageQueue :=
  if q.held = false then q
  else if q.closed ∨ q.ended then { q with held := false }
  else { q with sent := q.sent ++ [chunk] }

def popClose (q : ImageQueue) : ImageQueue :=
  if q.held then { q with held := false, closed := true } else q

def finish (q : ImageQueue) : ImageQueue := { q with held := false, ended := true }

end ImageQueue

/-! ## The applier -/

inductive LogEntry where
  | plain (body : EventBody)
  | node (e : NodeEvent)
  | chunk (commandId : CommandId) (chunk : GeneratedChunk)
  deriving DecidableEq

/-- The part of an API that applies events. -/
structure ChunkApi where
  state : State := {}
  nodes : NodeState := {}
  /-- How many logged events were applied. -/
  applied : Nat := 0
  /-- `_apply_state` raised. -/
  failed : Bool := false
  /-- The commands that were sent and whose stream has not begun. -/
  unstreamed : List (CommandId × GenerationKind) := []
  textQueues : Dict CommandId ChunkQueue := .empty
  imageQueues : Dict CommandId ImageQueue := .empty

namespace ChunkApi

def onText (a : ChunkApi) (commandId : CommandId) (f : ChunkQueue → ChunkQueue) : ChunkApi :=
  { a with textQueues := a.textQueues.mapValues fun c q => if c = commandId then f q else q }

def onImage (a : ChunkApi) (commandId : CommandId) (f : ImageQueue → ImageQueue) : ChunkApi :=
  { a with imageQueues := a.imageQueues.mapValues fun c q => if c = commandId then f q else q }

/-- The command is in `_text_generation_queues`. -/
def textHeld (a : ChunkApi) (commandId : CommandId) : Bool :=
  (a.textQueues.get? commandId).any (·.held)

/-- The command is in `_image_generation_queues`. -/
def imageHeld (a : ChunkApi) (commandId : CommandId) : Bool :=
  (a.imageQueues.get? commandId).any (·.held)

/-- The chunk goes into the channels of its command, which assert its type. -/
def route (a : ChunkApi) (commandId : CommandId) : GeneratedChunk → ChunkApi
  | .image chunk =>
      let a := a.onImage commandId (·.send chunk)
      if a.textHeld commandId then { a with failed := true } else a
  | .text chunk =>
      if a.imageHeld commandId then { a with failed := true }
      else a.onText commandId (·.send chunk)

/-- `_close_streams_for_instance`. -/
def closeStreamsForInstance (a : ChunkApi) (instanceId : InstanceId) : ChunkApi :=
  { a with
    textQueues := a.textQueues.mapValues fun commandId q =>
      if a.state.serves commandId instanceId then q.popClose a.applied else q
    imageQueues := a.imageQueues.mapValues fun commandId q =>
      if a.state.serves commandId instanceId then q.popClose else q }

/-- `event_apply`. -/
def eventApply (lib : GraphLibrary) (a : ChunkApi) : LogEntry → Option ChunkApi
  | .plain body => some { a with state := body.apply a.state }
  | .node e => (a.nodes.apply lib e).map fun nodes =>
      { a with
        nodes
        state := match e.body? with
          | some body => body.apply a.state
          | none => a.state }
  | .chunk .. => some a

/-- `apply`, which asserts that the event is the next one. -/
def applyState (lib : GraphLibrary) (a : ChunkApi) (idx : Int) (e : LogEntry) : Option ChunkApi :=
  if a.state.lastEventAppliedIdx = idx - 1 then
    (a.eventApply lib e).map fun a =>
      { a with state := { a.state with lastEventAppliedIdx := idx } }
  else none

/-- One round of `_apply_state`. -/
def applyEvent (lib : GraphLibrary) (a : ChunkApi) (idx : Int) (e : LogEntry) : ChunkApi :=
  match { a with applied := a.applied + 1 }.applyState lib idx e with
  | none => { a with applied := a.applied + 1, failed := true }
  | some a =>
      match e with
      | .chunk commandId chunk => a.route commandId chunk
      | .plain (.instanceDeleted instanceId) => a.closeStreamsForInstance instanceId
      | _ => a

end ChunkApi

/-- An API and the log it applies. -/
structure Streams where
  api : ChunkApi := {}
  log : List LogEntry := []
  /-- The ids of all requests. -/
  drawn : Dict CommandId GenerationKind := .empty

namespace Streams

inductive Action where
  /-- A command of this API is sent. -/
  | sendCommand (commandId : CommandId) (kind : GenerationKind)
  /-- A command of another API is sent. -/
  | otherCommand (commandId : CommandId) (kind : GenerationKind)
  /-- The stream of a command begins. -/
  | stream (commandId : CommandId) (kind : GenerationKind)
  /-- A stream of text reads its next chunk, and is over after the last one. -/
  | read (commandId : CommandId)
  /-- A stream of text comes to the end of a channel that was closed. -/
  | exhausted (commandId : CommandId)
  /-- The client of a stream of text goes away. -/
  | clientGone (commandId : CommandId)
  /-- A stream of images is over, in one way or another. -/
  | imagesOver (commandId : CommandId)
  | cancelCommand (commandId : CommandId)
  /-- An event is logged that does not carry a chunk. -/
  | log (body : EventBody)
  | logNode (e : NodeEvent)
  | logChunk (source : ChunkSource) (commandId : CommandId) (chunk : GeneratedChunk)
  /-- The API applies the next event of the log. -/
  | apply
  deriving DecidableEq

def setApi (s : Streams) (a : ChunkApi) : Streams := { s with api := a }

def step (lib : GraphLibrary) (s : Streams) : Action → Option Streams
  | .sendCommand commandId kind =>
      if commandId ∈ s.drawn.keys then none
      else
        some { s.setApi { s.api with unstreamed := s.api.unstreamed ++ [(commandId, kind)] } with
          drawn := s.drawn.set commandId kind }
  | .otherCommand commandId kind =>
      if commandId ∈ s.drawn.keys then none
      else some { s with drawn := s.drawn.set commandId kind }
  | .stream commandId kind =>
      if (commandId, kind) ∈ s.api.unstreamed then
        let a := { s.api with unstreamed := s.api.unstreamed.erase (commandId, kind) }
        match kind with
        | .text => some (s.setApi { a with textQueues := a.textQueues.set commandId {} })
        | .image => some (s.setApi { a with imageQueues := a.imageQueues.set commandId {} })
      else none
  | .read commandId => do
      let q ← s.api.textQueues.get? commandId
      let chunk ← q.sent[q.read]?
      if q.ended then none else some (s.setApi (s.api.onText commandId (·.advance chunk)))
  | .exhausted commandId => do
      let q ← s.api.textQueues.get? commandId
      if q.ended ∨ q.closed = false ∨ q.read < q.sent.length then none
      else some (s.setApi (s.api.onText commandId ChunkQueue.finish))
  | .clientGone commandId => do
      let q ← s.api.textQueues.get? commandId
      if q.ended then none else some (s.setApi (s.api.onText commandId (·.leave s.api.applied)))
  | .imagesOver commandId => do
      let q ← s.api.imageQueues.get? commandId
      if q.ended then none else some (s.setApi (s.api.onImage commandId ImageQueue.finish))
  | .cancelCommand commandId =>
      if s.api.textHeld commandId then
        some (s.setApi (s.api.onText commandId (·.close s.api.applied)))
      else if s.api.imageHeld commandId then
        some (s.setApi (s.api.onImage commandId fun q => { q with closed := true }))
      else none
  | .log body =>
      match body with
      | .chunkGenerated _ | .nodeTimedOut _ | .nodeGatheredInfo .. => none
      | _ => some { s with log := s.log ++ [.plain body] }
  | .logNode e => if e.Addressed then some { s with log := s.log ++ [.node e] } else none
  | .logChunk source commandId chunk => do
      let kind ← s.drawn.get? commandId
      if source.sends kind chunk then
        some { s with log := s.log ++ [.chunk commandId chunk] }
      else none
  | .apply => do
      let e ← s.log[s.api.applied]?
      if s.api.failed then none else some (s.setApi (s.api.applyEvent lib s.api.applied e))

def machine (lib : GraphLibrary) : Machine Streams Action := ⟨{}, step lib⟩

end Streams

end Exo
