import Mathlib.Data.List.Basic

/-!
# Prefill of a prompt with images

Here a cache is known by what it was computed from: a `KVCache` has one row for each position,
and an `ArraysCache` has absorbed one row after the other. A row is the embedding of a token, or
one of the image features.

`stream_generate` and `pipeline_parallel_prefill` feed a prompt in chunks, then its last token,
and then one token more; how they cut the prompt, and what that token is, is up to them. A
progress callback stands before the first chunk, after each chunk and at the end.
-/

namespace Exo

/-- What one position was computed from. -/
inductive Row (Token : Type) where
  | text (t : Token)
  | image (feature : Nat)
  deriving DecidableEq

/-- The caches of a model, by the rows they hold. -/
structure FedCache (Token : Type) where
  /-- Of each `KVCache`. -/
  kv : List (Row Token) := []
  /-- Of each `ArraysCache`. -/
  arrays : List (Row Token) := []
  deriving DecidableEq

/-- A cache that was filled up to one position. -/
structure FilledCache (Token : Type) extends FedCache Token where
  length : Nat
  kv_length : kv.length = length
  arrays_length : arrays.length = length

variable {Token : Type}

def FedCache.feed (c : FedCache Token) (rows : List (Row Token)) : FedCache Token :=
  ⟨c.kv ++ rows, c.arrays ++ rows⟩

/-- `create_vision_embeddings`, for `features` rows of image features. -/
def createVisionEmbeddings [DecidableEq Token] (promptTokens : List Token) (features : Nat)
    (imageTokenId : Token) : List (Row Token) :=
  promptTokens.mapIdx fun p t =>
    if t = imageTokenId then
      .image (min ((promptTokens.take (p + 1)).count imageTokenId - 1) (features - 1))
    else .text t

/-! ## Feeding the model -/

/-- The arguments of `patch_embed_tokens`. -/
structure EmbedPatch (Token : Type) where
  embeddings : List (Row Token)
  startOffset : Nat
  tokenCount : Nat

/-- `end_offset`. -/
def EmbedPatch.endOffset (p : EmbedPatch Token) : Nat := p.startOffset + p.tokenCount

/-- `_inject`: the embeddings of a chunk that starts at `chunkStart`. -/
def EmbedPatch.inject (p : EmbedPatch Token) (chunkStart : Nat) (inputIds : List Token) :
    List (Row Token) :=
  let chunkEnd := chunkStart + inputIds.length
  let textEmbeds := inputIds.map Row.text
  if chunkEnd ≤ p.startOffset ∨ p.endOffset ≤ chunkStart then textEmbeds
  else
    let overlapStart := max chunkStart p.startOffset
    let overlapEnd := min chunkEnd p.endOffset
    textEmbeds.take (overlapStart - chunkStart)
      ++ (p.embeddings.drop overlapStart).take (overlapEnd - overlapStart)
      ++ textEmbeds.drop (overlapEnd - chunkStart)

/-- `embed_tokens`, patched or not. -/
def embedTokens (patch : Option (EmbedPatch Token)) (chunkStart : Nat) (inputIds : List Token) :
    List (Row Token) :=
  match patch with
  | none => inputIds.map Row.text
  | some p => p.inject chunkStart inputIds

/-- `model(input_ids, cache=cache)`, with the offset of the patch. -/
def feedModel (patch : Option (EmbedPatch Token)) (s : Nat × FedCache Token)
    (inputIds : List Token) : Nat × FedCache Token :=
  (s.1 + inputIds.length, s.2.feed (embedTokens patch s.1 inputIds))

/-- The calls that feed a prompt. -/
structure PromptCalls (prompt : List Token) where
  chunks : List (List Token)
  last : Token
  covers : chunks.flatten ++ [last] = prompt
  /-- The token of the additional step. -/
  generated : Token

/-- `prefill`. -/
def prefill (patch : Option (EmbedPatch Token)) (offset : Nat) (cache : FedCache Token)
    (prompt : List Token) (calls : prompt ≠ [] → PromptCalls prompt) : FedCache Token :=
  if h : prompt = [] then cache
  else
    let calls := calls h
    let states := calls.chunks.scanl (feedModel patch) (offset, cache)
    let filled := calls.chunks.foldl (feedModel patch) (offset, cache)
    let final := feedModel patch (feedModel patch filled [calls.last]) [calls.generated]
    -- one snapshot at each callback
    let snapshots := (states ++ [final]).map fun s => s.2.arrays
    let preGen := snapshots.getD (snapshots.length - 2) []
    { kv := final.2.kv.take (final.2.kv.length - 2), arrays := preGen }

/-! ## The prefill server -/

/-- `think_start_tokens` and `think_end_tokens` of a tokenizer that has thinking. -/
structure ThinkTokens (Token : Type) where
  thinkStart : List Token
  thinkEnd : List Token

/-- The loop of `fix_unmatched_think_end_tokens`. -/
def fixLoop [DecidableEq Token] (think : ThinkTokens Token) :
    (depth startLength endLength : Nat) → List Token → List Token
  | _, _, _, [] => []
  | depth, startLength, endLength, token :: tokens =>
    if think.thinkStart[startLength]? = some token then
      token :: (if startLength + 1 = think.thinkStart.length
        then fixLoop think (depth + 1) 0 endLength tokens
        else fixLoop think depth (startLength + 1) endLength tokens)
    else if think.thinkEnd[endLength]? = some token then
      if endLength + 1 = think.thinkEnd.length then
        if depth = 0 then think.thinkStart ++ token :: fixLoop think 0 startLength 0 tokens
        else token :: fixLoop think (depth - 1) startLength 0 tokens
      else token :: fixLoop think depth startLength (endLength + 1) tokens
    else token :: fixLoop think depth 0 0 tokens

/-- `fix_unmatched_think_end_tokens`. -/
def fixUnmatchedThinkEndTokens [DecidableEq Token] (think : Option (ThinkTokens Token))
    (tokens : List Token) : List Token :=
  match think with
  | none => tokens
  | some think => fixLoop think 0 0 0 tokens

/-- `prefill_input` of `run_prefill_for_request`, after a hit of some length. -/
def prefillInput (promptTokens : List Token) (prefixHitLength : Nat) : List Token :=
  let targetOffset := promptTokens.length - 2
  let newTokens := targetOffset - prefixHitLength
  (promptTokens.drop prefixHitLength).take newTokens

/-- `run_prefill_for_request`, from the prefix that the server's own prefix cache had. -/
def runPrefillForRequest (promptTokens : List Token) (hit : FilledCache Token)
    (calls : prefillInput promptTokens hit.length ≠ [] →
      PromptCalls (prefillInput promptTokens hit.length)) : FedCache Token :=
  prefill none 0 hit.toFedCache (prefillInput promptTokens hit.length) calls

/-! ## The request -/

/-- `REMOTE_PREFILL_MIN_TOKENS`. -/
def REMOTE_PREFILL_MIN_TOKENS : Nat := 1000

/-- What `ExoBatchGenerator.submit` has when it comes to the prefill of a prompt with images. -/
structure VisionRequest (Token : Type) where
  allPromptTokens : List Token
  imageTokenId : Token
  /-- The number of rows of image features. -/
  features : Nat
  /-- The prefix that the prefix cache had. -/
  hit : FilledCache Token
  hit_short : hit.length < allPromptTokens.length
  think : Option (ThinkTokens Token)

namespace VisionRequest

/-- `prompt_tokens`: what is not cached. -/
def promptTokens (r : VisionRequest Token) : List Token := r.allPromptTokens.drop r.hit.length

/-- `vision.embeddings`. -/
def embeddings [DecidableEq Token] (r : VisionRequest Token) : List (Row Token) :=
  createVisionEmbeddings r.allPromptTokens r.features r.imageTokenId

/-- `vision_ctx`. -/
def patch [DecidableEq Token] (r : VisionRequest Token) : EmbedPatch Token where
  embeddings := r.embeddings
  startOffset := r.hit.length
  tokenCount := r.promptTokens.length - 1

/-- The prompt the server works on: the tokens that are not cached, without the last one. -/
def servedTokens [DecidableEq Token] (r : VisionRequest Token) : List Token :=
  fixUnmatchedThinkEndTokens r.think r.promptTokens.dropLast

/-- How a prompt is prefilled. A failed remote attempt is followed by the local way. -/
inductive Way [DecidableEq Token] (r : VisionRequest Token) where
  | locally (calls : r.promptTokens.dropLast ≠ [] → PromptCalls r.promptTokens.dropLast)
  | remotely (prefillEndpoint : String)
      (uncached : REMOTE_PREFILL_MIN_TOKENS < r.promptTokens.length)
      (hit : FilledCache Token)
      (calls : prefillInput r.servedTokens hit.length ≠ [] →
        PromptCalls (prefillInput r.servedTokens hit.length))

variable [DecidableEq Token]

/-- What `remote_prefill` makes of the cache: the server's rows follow the held ones. -/
def remotePrefill (r : VisionRequest Token) (served : FedCache Token) : FedCache Token where
  kv := r.hit.kv ++ served.kv.drop r.hit.length
  arrays := if served.arrays = [] then r.hit.arrays else served.arrays

/-- The cache that `submit` hands to the decode step. -/
def prefilled (r : VisionRequest Token) : r.Way → FedCache Token
  | .locally calls => prefill (some r.patch) r.hit.length r.hit.toFedCache r.promptTokens.dropLast calls
  | .remotely _ _ hit calls => r.remotePrefill (runPrefillForRequest r.servedTokens hit calls)

end VisionRequest

end Exo
