import Exo.Disaggregated.Protocol
import Exo.Lib.Dict
import Exo.Mlx.Cache
import Mathlib.Algebra.Ring.Int.Defs

/-!
# Remote prefill

The client reads the whole answer of a prefill server first and then puts it into the caches of
the layers, one after the other and in place. Each function that assigns returns the cache as it
left it, next to the exception it may have raised.

What numpy and `mlx` do with an array is a parameter; an operation that can refuse its arguments
returns the exception.
-/

namespace Exo

open Lib (Dict)
open Disaggregated

/-- The element types `np.frombuffer` is called with. -/
inductive NpDType where
  | uint16
  | float16
  | float32
  deriving DecidableEq

/-- The array operations of the adapter; `N` stands for numpy's arrays, `A` for `mlx`'s. -/
structure ArrayOps (N A : Type) where
  frombuffer : Bytes → NpDType → Except String N
  reshape : N → List Int → Except String N
  /-- `mx.array(arr)`. -/
  mxArray : N → Except String A
  /-- `a.view(mx.bfloat16)`. -/
  viewBfloat16 : A → A
  ndim : A → Nat
  /-- `mx.transpose(t, (1, 0, 2))`. -/
  transpose : A → A
  /-- `mx.expand_dims(t, 0)`. -/
  expandDims : A → A
  concatenate : (axis : Nat) → List A → Except String A
  /-- `a[:, :, :n, :]`. -/
  takePositions : Int → A → Except String A
  /-- `a.shape[2]`. -/
  positions : A → Nat

section Adapter

variable {N A V : Type} (ops : ArrayOps N A)

/-- `bytes_to_array`. -/
def bytesToArray (data : Bytes) (shape : List Int) (dtype : DType) : Except String A :=
  let load (dt : NpDType) : Except String A :=
    (ops.frombuffer data dt).bind fun arr => (ops.reshape arr shape).bind ops.mxArray
  match dtype with
  | .bfloat16 => (load .uint16).map ops.viewBfloat16
  | .float16 => load .float16
  | .float32 => load .float32

/-- `nhd_to_bhsd`. -/
def nhdToBhsd (t : A) : Except String A :=
  if ops.ndim t ≠ 3 then .error "Expected NHD (3D)" else .ok (ops.expandDims (ops.transpose t))

/-- `chunk_to_mlx_nhd`. -/
def chunkToMlxNhd (chunk : KVChunk) : Except String (A × A) :=
  (bytesToArray ops chunk.keys chunk.shape chunk.dtype).bind fun k =>
    (bytesToArray ops chunk.values chunk.shape chunk.dtype).map (k, ·)

/-- `blob_to_mlx`. -/
def blobToMlx (blob : TensorBlob) : Except String A :=
  bytesToArray ops blob.data blob.shape blob.dtype

/-- `mx.concatenate([existing[:, :, :start_pos, :], a], axis=2)`. -/
def appendAt (startPos : Int) (existing a : A) : Except String A :=
  (ops.takePositions startPos existing).bind fun held => ops.concatenate 2 [held, a]

/-- `inject_kv_chunk`. -/
def injectKvChunk (cache : KVCache A) (keysNhd valuesNhd : A) (offset : Int) (startPos : Int)
    (existingK existingV : Option A) : Except String Unit × KVCache A :=
  match nhdToBhsd ops keysNhd, nhdToBhsd ops valuesNhd with
  | .error e, _ => (.error e, cache)
  | .ok _, .error e => (.error e, cache)
  | .ok k, .ok v =>
    match decide (0 < startPos), existingK, existingV with
    | true, some existingK, some existingV =>
      match appendAt ops startPos existingK k with
      | .error e => (.error e, cache)
      | .ok keys =>
        -- `cache.keys` is assigned before the values are joined
        let cache := { cache with keys := some keys }
        match appendAt ops startPos existingV v with
        | .error e => (.error e, cache)
        | .ok values => (.ok (), { cache with values := some values, offset := offset })
    | _, _, _ => (.ok (), { cache with keys := some k, values := some v, offset := offset })

/-- `inject_rotating_kv_chunk`. -/
def injectRotatingKvChunk (cache : RotatingKVCache A) (keysNhd valuesNhd : A) (offset : Int) :
    Except String Unit × RotatingKVCache A :=
  match nhdToBhsd ops keysNhd, nhdToBhsd ops valuesNhd with
  | .error e, _ => (.error e, cache)
  | .ok _, .error e => (.error e, cache)
  | .ok k, .ok v =>
    (.ok (), { cache with
      keys := some k
      values := some v
      offset := offset
      idx := ops.positions k })

/-- `inject_arrays_cache`. -/
def injectArraysCache (cache : ArraysCache A) (blobs : List TensorBlob) :
    Except String Unit × ArraysCache A :=
  match blobs.mapM (blobToMlx ops) with
  | .error e => (.error e, cache)
  | .ok state => (.ok (), ⟨state.map some⟩)

/-! ## The client -/

structure PrefillResult where
  header : Header
  kvChunks : Dict Int (List KVChunk) := .empty
  arrays : Dict Int (List TensorBlob) := .empty
  totalTokens : Int := 0
  deriving DecidableEq

/-- The keys and values the answer has for one layer. -/
def decodeChunks (chunks : List KVChunk) : Except String (A × A) :=
  match chunks with
  | [chunk] => chunkToMlxNhd ops chunk
  | chunks =>
    (chunks.mapM (chunkToMlxNhd ops)).bind fun decoded =>
      (ops.concatenate 0 (decoded.map Prod.fst)).bind fun k =>
        (ops.concatenate 0 (decoded.map Prod.snd)).map (k, ·)

/-- `final_offset`. -/
def PrefillResult.finalOffset (result : PrefillResult) (startPos : Int) : Int :=
  startPos + (result.kvChunks.values.map fun chunks => (chunks.map (·.numTokens)).sum).max?.getD 0

/-- `inject_kv_chunk` or `inject_rotating_kv_chunk`, for the caches that take keys and values. -/
def injectChunks (cache : LayerCache A V) (k v : A) (startPos finalOffset : Int) :
    Except String Unit × LayerCache A V :=
  match cache with
  | .plain (.rotating c) =>
    let (result, c) := injectRotatingKvChunk ops c k v finalOffset
    (result, .plain (.rotating c))
  | .plain (.kv c) =>
    let (result, c) := if 0 < startPos
      then injectKvChunk ops c k v finalOffset startPos c.keys c.values
      else injectKvChunk ops c k v finalOffset 0 none none
    (result, .plain (.kv c))
  | c => (.ok (), c)

/-- The keys and values of layer `i`. -/
def ingestChunks (result : PrefillResult) (startPos : Int) (i : Nat) (cache : LayerCache A V) :
    Except String Unit × LayerCache A V :=
  match result.kvChunks.get? i with
  | none => (.ok (), cache)
  | some chunks =>
    match decodeChunks ops chunks with
    | .error e => (.error e, cache)
    | .ok (k, v) => injectChunks ops cache k v startPos (result.finalOffset startPos)

/-- The states of layer `i`, if it has an `ArraysCache`. -/
def ingestArrays (result : PrefillResult) (i : Nat) (cache : LayerCache A V) :
    Except String Unit × LayerCache A V :=
  match result.arrays.get? i, cache with
  | some blobs, .plain (.arrays c) =>
    let (injected, c) := injectArraysCache ops c blobs
    (injected, .plain (.arrays c))
  | _, _ => (.ok (), cache)

/-- The body of the loop of `ingest_into_mlx_cache`. -/
def ingestLayer (result : PrefillResult) (startPos : Int) (i : Nat) (cache : LayerCache A V) :
    Except String Unit × LayerCache A V :=
  match ingestChunks ops result startPos i cache with
  | (.error e, cache) => (.error e, cache)
  | (.ok (), cache) => ingestArrays ops result i cache

/-- The loop of `ingest_into_mlx_cache` from layer `i` on. -/
def ingestLoop (result : PrefillResult) (startPos : Int) :
    Nat → List (LayerCache A V) → Except String Unit × List (LayerCache A V)
  | _, [] => (.ok (), [])
  | i, c :: cs =>
    match ingestLayer ops result startPos i c with
    | (.error e, c) => (.error e, c :: cs)
    | (.ok (), c) =>
      let (rest, cs) := ingestLoop result startPos (i + 1) cs
      (rest, c :: cs)

/-- `ingest_into_mlx_cache`. -/
def ingestIntoMlxCache (result : PrefillResult) (caches : List (LayerCache A V)) (startPos : Int) :
    Except String Int × List (LayerCache A V) :=
  let (ingested, caches) := ingestLoop ops result startPos 0 caches
  (ingested.map fun _ => result.finalOffset startPos, caches)

end Adapter

/-- `on_prefill_progress`, with the exception it raises, if any. -/
abbrev Progress := Option (Int → Int → Option String)

/-- `_on_chunk` of `remote_prefill`. -/
def onChunk (progress : Progress) (numLayers totalPromptTokens : Int) (chunksReceived : Nat) :
    Option String :=
  progress.bind fun report =>
    if 0 < numLayers ∧ (chunksReceived : Int) % numLayers = 0 then
      report (min (chunksReceived / numLayers) totalPromptTokens) totalPromptTokens
    else none

/-- The loop of `remote_prefill_fetch`. -/
def fetchLoop (codec : Codec) (onKvChunk : Nat → Option String) (s : Stream)
    (chunksReceived : Nat) (result : PrefillResult) : Except String PrefillResult :=
  match h : readMessage codec s with
  | .error e => .error e
  | .ok (none, _) => .ok result
  | .ok (some (.kvChunk chunk), s') =>
    have := readMessage_shorter h
    match onKvChunk (chunksReceived + 1) with
    | some e => .error e
    | none =>
      let chunks := (result.kvChunks.get? chunk.layerIdx).getD []
      fetchLoop codec onKvChunk s' (chunksReceived + 1)
        { result with kvChunks := result.kvChunks.set chunk.layerIdx (chunks ++ [chunk]) }
  | .ok (some (.arraysState layerIdx arrays), s') =>
    have := readMessage_shorter h
    fetchLoop codec onKvChunk s' chunksReceived
      { result with arrays := result.arrays.set layerIdx arrays }
  | .ok (some (.done totalTokens), _) => .ok { result with totalTokens := totalTokens }
  | .ok (some (.error code message), _) =>
    .error ("Prefill server error [" ++ toString code ++ "]: " ++ message)
termination_by s.bytes.length

/-- `remote_prefill_fetch`; `connection` is what the socket has to read, if it can be opened. -/
def remotePrefillFetch (codec : Codec) (progress : Progress) (connection : Except String Stream)
    (totalPromptTokens : Int) : Except String PrefillResult :=
  connection.bind fun s =>
    (readHeader codec s).bind fun (header, s) =>
      fetchLoop codec (onChunk progress header.numLayers totalPromptTokens) s 0
        { header := header }

/-- `remote_prefill`: the number of tokens and the snapshot, or an exception, and the caches. -/
def remotePrefill {N A V : Type} (ops : ArrayOps N A) (lib : MlxLm A V) (codec : Codec)
    (progress : Progress) (connection : Except String Stream) (totalPromptTokens : Int)
    (cache : List (LayerCache A V)) (startPos : Int) :
    Except String (Int × List (CacheSnapshot A V)) × List (LayerCache A V) :=
  match remotePrefillFetch codec progress connection totalPromptTokens with
  | .error e => (.error e, cache)
  | .ok result =>
    let (ingested, cache) := ingestIntoMlxCache ops result cache startPos
    (ingested.map fun finalOffset => (finalOffset - startPos, [snapshotSsmStates lib cache]), cache)

end Exo
