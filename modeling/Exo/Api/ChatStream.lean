import Exo.Lib.Json

/-!
# The text of a chat completion stream

`generate_chat_stream` writes the chunks of a generation as server-sent events: a comment for the
progress of a prefill, a record for every token, one for all tool calls, one for an error. The
first chunk that says how the generation finished is the last one written.

How pydantic writes a model down is a parameter; what a model says as JSON is here, with every
field that is `None` left out.
-/

namespace Exo.Chat

open Lib

/-- A float as it is written down. What is not finite is written as `null`. -/
inductive WrittenFloat where
  | finite (n : Number)
  | other
deriving DecidableEq

/-- `PromptTokensDetails`, `CompletionTokensDetails` and what `Usage` has besides. -/
structure Usage where
  promptTokens : Nat
  completionTokens : Nat
  totalTokens : Nat
  cachedTokens : Nat
  promptAudioTokens : Nat
  reasoningTokens : Nat
  completionAudioTokens : Nat
  acceptedPredictionTokens : Nat
  rejectedPredictionTokens : Nat
deriving DecidableEq

structure GenerationStats where
  promptTps : WrittenFloat
  generationTps : WrittenFloat
  promptTokens : Nat
  generationTokens : Nat
  peakMemoryInBytes : Nat
  prefixCacheHit : String
deriving DecidableEq

structure TopLogprobItem where
  token : String
  logprob : WrittenFloat
  bytes : Option (List Nat)
deriving DecidableEq

structure ToolCallItem where
  id : String
  name : String
  arguments : String
deriving DecidableEq

inductive StopReason where
  | stop
  | length
  | contentFilter
deriving DecidableEq

structure TokenChunk where
  model : String
  text : String
  usage : Option Usage
  finishReason : Option StopReason
  stats : Option GenerationStats
  logprob : Option WrittenFloat
  topLogprobs : Option (List TopLogprobItem)
  isThinking : Bool
deriving DecidableEq

/-- `PrefillProgressChunk | ErrorChunk | ToolCallChunk | TokenChunk` -/
inductive Chunk where
  | prefillProgress (model : String) (processedTokens totalTokens : Nat)
  | error (model errorMessage : String)
  | toolCalls (model : String) (toolCalls : List ToolCallItem) (usage : Option Usage)
      (stats : Option GenerationStats)
  | token (chunk : TokenChunk)
deriving DecidableEq

/-! ## Models and what they say -/

/-- `ToolCall`: its type is always `function`. -/
structure ToolCall where
  id : String
  index : Nat
  function : ToolCallItem
deriving DecidableEq

/-- What the adapter gives a `ChatCompletionMessage`. Its role is always `assistant`. -/
structure Delta where
  content : Option String := none
  reasoningContent : Option String := none
  toolCalls : Option (List ToolCall) := none
deriving DecidableEq

structure LogprobsContentItem where
  token : String
  logprob : WrittenFloat
  topLogprobs : List TopLogprobItem
deriving DecidableEq

/-- `ChatCompletionResponse` with its one `StreamingChoiceResponse`, whose index is always 0. -/
structure Response where
  id : String
  created : Nat
  model : String
  delta : Delta
  logprobs : Option LogprobsContentItem := none
  finishReason : Option String := none
  usage : Option Usage := none
deriving DecidableEq

/-- What the adapter has pydantic write. -/
inductive Model where
  | prefillProgress (model : String) (processedTokens totalTokens : Nat)
  | error (message : String)
  | response (r : Response)
  | stats (s : GenerationStats)
deriving DecidableEq

def text (s : String) : Json := .str (Text.of s)

def nat (n : Nat) : Json := .num { whole := n }

def WrittenFloat.json : WrittenFloat → Json
  | .finite n => .num n
  | .other => .const .null

/-- A field that is left out when it is `None`. -/
def field (key : String) : Option Json → List (Text × Json)
  | none => []
  | some j => [(Text.of key, j)]

def Usage.json (u : Usage) : Json :=
  .obj (field "prompt_tokens" (nat u.promptTokens) ++
    field "completion_tokens" (nat u.completionTokens) ++
    field "total_tokens" (nat u.totalTokens) ++
    field "prompt_tokens_details" (some (.obj (field "cached_tokens" (nat u.cachedTokens) ++
      field "audio_tokens" (nat u.promptAudioTokens)))) ++
    field "completion_tokens_details" (some (.obj (
      field "reasoning_tokens" (nat u.reasoningTokens) ++
      field "audio_tokens" (nat u.completionAudioTokens) ++
      field "accepted_prediction_tokens" (nat u.acceptedPredictionTokens) ++
      field "rejected_prediction_tokens" (nat u.rejectedPredictionTokens)))))

def GenerationStats.json (s : GenerationStats) : Json :=
  .obj (field "prompt_tps" s.promptTps.json ++ field "generation_tps" s.generationTps.json ++
    field "prompt_tokens" (nat s.promptTokens) ++
    field "generation_tokens" (nat s.generationTokens) ++
    field "peak_memory_usage" (some (.obj (field "in_bytes" (nat s.peakMemoryInBytes)))) ++
    field "prefix_cache_hit" (text s.prefixCacheHit))

def TopLogprobItem.json (i : TopLogprobItem) : Json :=
  .obj (field "token" (text i.token) ++ field "logprob" i.logprob.json ++
    field "bytes" (i.bytes.map fun bs => .arr (bs.map nat)))

def LogprobsContentItem.json (i : LogprobsContentItem) : Json :=
  .obj (field "token" (text i.token) ++ field "logprob" i.logprob.json ++
    field "top_logprobs" (some (.arr (i.topLogprobs.map TopLogprobItem.json))))

def ToolCallItem.json (t : ToolCallItem) : Json :=
  .obj (field "id" (text t.id) ++ field "name" (text t.name) ++
    field "arguments" (text t.arguments))

def ToolCall.json (t : ToolCall) : Json :=
  .obj (field "id" (text t.id) ++ field "index" (nat t.index) ++ field "type" (text "function") ++
    field "function" t.function.json)

def Delta.json (d : Delta) : Json :=
  .obj (field "role" (text "assistant") ++ field "content" (d.content.map text) ++
    field "reasoning_content" (d.reasoningContent.map text) ++
    field "tool_calls" (d.toolCalls.map fun ts => .arr (ts.map ToolCall.json)))

def Response.json (r : Response) : Json :=
  .obj (field "id" (text r.id) ++ field "object" (text "chat.completion") ++
    field "created" (nat r.created) ++ field "model" (text r.model) ++
    field "choices" (some (.arr [.obj (field "index" (nat 0) ++ field "delta" r.delta.json ++
      field "logprobs" (r.logprobs.map fun i => .obj (field "content" (some (.arr [i.json])))) ++
      field "finish_reason" (r.finishReason.map text))])) ++
    field "usage" (r.usage.map Usage.json))

def Model.json : Model → Json
  | .prefillProgress model processedTokens totalTokens =>
    .obj (field "PrefillProgressChunk" (some (.obj (field "model" (text model) ++
      field "processed_tokens" (nat processedTokens) ++
      field "total_tokens" (nat totalTokens)))))
  | .error message =>
    .obj (field "error" (some (.obj (field "message" (text message) ++
      field "type" (text "InternalServerError") ++ field "code" (nat 500)))))
  | .response r => r.json
  | .stats s => s.json

/-- How pydantic writes a model: as a JSON object in one piece that reads back as what it says. -/
structure WritesJson (modelDumpJson : Model → Text) : Prop where
  loads : ∀ m, Json.loads (modelDumpJson m) = some m.json
  oneLine : ∀ m, 0x0A ∉ modelDumpJson m
  closed : ∀ m, ∃ t, modelDumpJson m = t ++ Text.of "\x7d"

/-! ## The stream -/

def StopReason.text : StopReason → String
  | .stop => "stop"
  | .length => "length"
  | .contentFilter => "content_filter"

/-- `chunk_to_response` -/
def chunkToResponse (commandId : String) (now : Nat) (c : TokenChunk) : Response where
  id := commandId
  created := now
  model := c.model
  delta :=
    if c.isThinking then { reasoningContent := some c.text } else { content := some c.text }
  logprobs := c.logprob.map fun l =>
    { token := c.text, logprob := l, topLogprobs := c.topLogprobs.getD [] }
  finishReason := c.finishReason.map StopReason.text

variable (modelDumpJson : Model → Text) (commandId : String) (now : Nat → Nat)

def data (t : Text) : Text := Text.of "data: " ++ t ++ Text.of "\n\n"

def comment (name : String) (m : Model) : Text :=
  Text.of ": " ++ Text.of name ++ Text.of " " ++ modelDumpJson m ++ Text.of "\n\n"

/-- What follows the last record of a stream. -/
def ending (stats : Option GenerationStats) : List Text :=
  (stats.toList.map fun s => comment modelDumpJson "generation_stats" (.stats s)) ++
    [data (Text.of "[DONE]")]

/--
`generate_chat_stream`: what it yields for the chunks from the `i`-th on, with the usage it has
seen last.
-/
def generateChatStream : Nat → Option Usage → List Chunk → List Text
  | _, _, [] => []
  | i, lastUsage, .prefillProgress model processedTokens totalTokens :: chunks =>
    comment modelDumpJson "prefill_progress"
      (.prefillProgress model processedTokens totalTokens) ::
      generateChatStream (i + 1) lastUsage chunks
  | _, _, .error _ errorMessage :: _ =>
    [data (modelDumpJson (.error
      (if errorMessage = "" then "Internal server error" else errorMessage))),
      data (Text.of "[DONE]")]
  | i, lastUsage, .toolCalls model toolCalls usage stats :: _ =>
    data (modelDumpJson (.response
      { id := commandId, created := now i, model
        delta := { toolCalls := some (toolCalls.mapIdx fun index tool =>
          { id := tool.id, index, function := tool }) }
        finishReason := some "tool_calls", usage := usage.or lastUsage })) ::
      ending modelDumpJson stats
  | i, lastUsage, .token c :: chunks =>
    match c.finishReason with
    | none =>
      data (modelDumpJson (.response (chunkToResponse commandId (now i) c))) ::
        generateChatStream (i + 1) (c.usage.or lastUsage) chunks
    | some _ =>
      data (modelDumpJson (.response
        { chunkToResponse commandId (now i) c with usage := c.usage.or lastUsage })) ::
        ending modelDumpJson c.stats

end Exo.Chat
