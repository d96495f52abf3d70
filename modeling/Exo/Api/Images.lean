import Exo.Lib.Machine
import Exo.Lib.Pieces
import Exo.Worker.Main

/-!
# Images on their way to the workers

A request that has images sends those whose hashes this API has not sent yet, in chunks, and then
its command, which names all of them by their hashes. The workers put the images together again and
keep them, so that a later request need not send them.

`_sent_image_hashes` gets the hashes of a request before its first chunk is sent. Between any two
sends the request can be aborted, and other requests go on.
-/

namespace Exo

open Lib (Dict Machine slices enumerate)

/-- `EXO_MAX_CHUNK_SIZE`. -/
def exoMaxChunkSize : Nat := 512 * 1024

/-- `img.encode("ascii")` does not raise. -/
def isAscii (img : Base64Image) : Bool := img.toList.all fun c => c.toNat < 128

/-- The loop over the images of a request: the hashes that were sent then, and the new images. -/
def markNewImages (sha256 : Base64Image → Base64ImageHash) :
    List Base64ImageHash → List (Nat × Base64Image) →
      List Base64ImageHash × List (Nat × Base64Image)
  | sent, [] => (sent, [])
  | sent, (idx, img) :: images =>
      if sha256 img ∈ sent then markNewImages sha256 sent images
      else
        let (sent', new) := markNewImages sha256 (sha256 img :: sent) images
        (sent', (idx, img) :: new)

/-- `all_chunks`: the data of the new images, with their indices. -/
def allChunks (new : List (Nat × Base64Image)) : List (Nat × String) :=
  new.flatMap fun (imgIdx, imgData) =>
    (slices exoMaxChunkSize imgData.toList).map fun chunk => (imgIdx, String.ofList chunk)

/-- The `InputImageChunk`s of a command. -/
def inputChunks (commandId : CommandId) (new : List (Nat × Base64Image)) : List InputImageChunk :=
  (enumerate (allChunks new)).map fun (globalIdx, imgIdx, chunkData) =>
    { commandId
      chunkIndex := globalIdx
      totalChunks := (allChunks new).length
      imageIndex := imgIdx
      data := chunkData }

/-- A call of `_send_text_generation_with_images`. -/
structure ImageRequest where
  commandId : CommandId
  /-- `image_hashes` of its command. -/
  imageHashes : List Base64ImageHash
  newImages : List (Nat × Base64Image)
  /-- How many of its chunks it has sent. -/
  sent : Nat := 0
  /-- Its command was sent. -/
  completed : Bool := false
  aborted : Bool := false
  deriving DecidableEq

namespace ImageRequest

/-- All chunks it has to send. -/
def chunks (r : ImageRequest) : List InputImageChunk := inputChunks r.commandId r.newImages

/-- What happens before the first `await`; an image that is not ASCII raises. -/
def create (sha256 : Base64Image → Base64ImageHash) (sent : List Base64ImageHash)
    (commandId : CommandId) (images : List Base64Image) :
    Option (List Base64ImageHash × ImageRequest) :=
  if images.all isAscii then
    let (sent', newImages) := markNewImages sha256 sent (enumerate images)
    some (sent', { commandId, imageHashes := images.map sha256, newImages })
  else none

/-- It is neither over nor aborted. -/
def running (r : ImageRequest) : Bool := !r.completed && !r.aborted

end ImageRequest

/-- The requests of an API one after the other, without those that raise. -/
def sendRequests (sha256 : Base64Image → Base64ImageHash) :
    List Base64ImageHash → List (CommandId × List Base64Image) → List ImageRequest
  | _, [] => []
  | sent, (commandId, images) :: requests =>
      match ImageRequest.create sha256 sent commandId images with
      | none => sendRequests sha256 sent requests
      | some (sent', r) => r :: sendRequests sha256 sent' requests

/-- The APIs of the nodes, the log and the workers. -/
structure Imaging where
  /-- `_sent_image_hashes` of each API. -/
  sentImageHashes : Dict NodeId (List Base64ImageHash) := .empty
  /-- The requests of all APIs. -/
  requests : Dict CommandId ImageRequest := .empty
  log : List EventBody := []
  workers : Dict NodeId Worker := .empty

namespace Imaging

inductive Action where
  /-- A request begins at the API of a node. -/
  | begin (nodeId : NodeId) (commandId : CommandId) (images : List Base64Image)
  /-- A request sends its next chunk. -/
  | send (commandId : CommandId)
  /-- A request sends its command. -/
  | finish (commandId : CommandId)
  /-- A request is aborted at one of its `await`s. -/
  | abort (commandId : CommandId)
  /-- An event is logged that does not carry a chunk of an image. -/
  | log (body : EventBody)
  /-- A worker applies the next event of the log. -/
  | apply (nodeId : NodeId)
  /-- A worker that has the images of a task starts it. -/
  | dispatch (nodeId : NodeId) (commandId : CommandId) (task : Task)
  deriving DecidableEq

def setRequest (s : Imaging) (commandId : CommandId) (r : ImageRequest) : Imaging :=
  { s with requests := s.requests.set commandId r }

def step (sha256 : Base64Image → Base64ImageHash) (s : Imaging) : Action → Option Imaging
  | .begin nodeId commandId images => do
      let (sent, r) ← ImageRequest.create sha256 ((s.sentImageHashes.get? nodeId).getD [])
        commandId images
      if commandId ∈ s.requests.keys then none
      else
        some { s.setRequest commandId r with
          sentImageHashes := s.sentImageHashes.set nodeId sent }
  | .send commandId => do
      let r ← s.requests.get? commandId
      let chunk ← r.chunks[r.sent]?
      if r.running then
        some { s.setRequest commandId { r with sent := r.sent + 1 } with
          log := s.log ++ [.inputChunkReceived chunk.commandId chunk] }
      else none
  | .finish commandId => do
      let r ← s.requests.get? commandId
      if r.running ∧ r.sent = r.chunks.length then
        some (s.setRequest commandId { r with completed := true })
      else none
  | .abort commandId => do
      let r ← s.requests.get? commandId
      if r.running then some (s.setRequest commandId { r with aborted := true }) else none
  | .log body =>
      match body with
      | .inputChunkReceived .. => none
      | _ => some { s with log := s.log ++ [body] }
  | .apply nodeId => do
      let w ← s.workers.get? nodeId
      let body ← s.log[w.applied]?
      some { s with workers := s.workers.set nodeId (w.applyEvent sha256 body) }
  | .dispatch nodeId commandId task => do
      let w ← s.workers.get? nodeId
      let r ← s.requests.get? commandId
      if r.completed ∧ r.imageHashes.all fun h => (w.imageCache.get? h).isSome then
        some { s with
          workers := s.workers.set nodeId (w.actTextGeneration task commandId r.imageHashes) }
      else none

def init (nodeIds : List NodeId) : Imaging where
  workers := nodeIds.foldl (fun workers nodeId => workers.set nodeId { nodeId }) .empty

def machine (sha256 : Base64Image → Base64ImageHash) (nodeIds : List NodeId) :
    Machine Imaging Action := ⟨init nodeIds, step sha256⟩

end Imaging

end Exo
