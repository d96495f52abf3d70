import Exo.Api.ChatStream
import Exo.Lib.Transcript

/-!
# A chat completion in one piece

`collect_chat_response` makes one response of the chunks that `generate_chat_stream` makes a stream
of. The stream is taken apart into its events first: comments, records, and the mark behind the last
record.
-/

namespace Exo.Chat

open Lib

/-- An event of the stream. -/
inductive StreamEvent where
  | comment (name : String) (model : Model)
  | record (model : Model)
  | done

namespace StreamEvent

def text (modelDumpJson : Model → Text) : StreamEvent → Text
  | .comment name model => Chat.comment modelDumpJson name model
  | .record model => data (modelDumpJson model)
  | .done => data (Text.of "[DONE]")

def record? : StreamEvent → Option Model
  | .record model => some model
  | _ => none

end StreamEvent

/-- It says that the generation has ended. -/
def Chunk.finishes : Chunk → Bool
  | .prefillProgress .. => false
  | .error .. | .toolCalls .. => true
  | .token c => c.finishReason.isSome

/-- `chunk.error_message or "Internal server error"` -/
def errorText (errorMessage : String) : String :=
  if errorMessage = "" then "Internal server error" else errorMessage

def toolCallDeltas (toolCalls : List ToolCallItem) : List ToolCall :=
  toolCalls.mapIdx fun index tool => { id := tool.id, index, function := tool }

variable (commandId : String) (now : Nat → Nat)

def statsEvents (stats : Option GenerationStats) : List StreamEvent :=
  (stats.toList.map fun s => .comment "generation_stats" (.stats s)) ++ [.done]

/-- The events of `generate_chat_stream`. -/
def chatEvents : Nat → Option Usage → List Chunk → List StreamEvent
  | _, _, [] => []
  | i, lastUsage, .prefillProgress model processedTokens totalTokens :: chunks =>
    .comment "prefill_progress" (.prefillProgress model processedTokens totalTokens) ::
      chatEvents (i + 1) lastUsage chunks
  | _, _, .error _ errorMessage :: _ => [.record (.error (errorText errorMessage)), .done]
  | i, lastUsage, .toolCalls model toolCalls usage stats :: _ =>
    .record (.response
      { id := commandId, created := now i, model
        delta := { toolCalls := some (toolCallDeltas toolCalls) }
        finishReason := some "tool_calls", usage := usage.or lastUsage }) :: statsEvents stats
  | i, lastUsage, .token c :: chunks =>
    match c.finishReason with
    | none =>
      .record (.response (chunkToResponse commandId (now i) c)) ::
        chatEvents (i + 1) (c.usage.or lastUsage) chunks
    | some _ =>
      .record (.response
        { chunkToResponse commandId (now i) c with usage := c.usage.or lastUsage }) ::
        statsEvents c.stats

/-- The stream is the text of its events. -/
theorem generateChatStream_eq (modelDumpJson : Model → Text) (i : Nat) (lastUsage : Option Usage)
    (chunks : List Chunk) : generateChatStream modelDumpJson commandId now i lastUsage chunks
      = (chatEvents commandId now i lastUsage chunks).map (StreamEvent.text modelDumpJson) := by
  have hstats : ∀ stats, ending modelDumpJson stats
      = (statsEvents stats).map (StreamEvent.text modelDumpJson) := fun stats => by
    cases stats <;> rfl
  induction chunks generalizing i lastUsage with
  | nil => rfl
  | cons chunk chunks ih =>
      cases chunk with
      | prefillProgress model processedTokens totalTokens =>
          rw [generateChatStream, chatEvents, List.map_cons, ih]
          rfl
      | error model errorMessage => rfl
      | toolCalls model toolCalls usage stats =>
          rw [generateChatStream, chatEvents, List.map_cons, hstats]
          rfl
      | token c =>
          rw [generateChatStream, chatEvents]
          cases c.finishReason with
          | none =>
              simp only [List.map_cons, ih]
              rfl
          | some reason =>
              simp only [List.map_cons, hstats]
              rfl

/-! ## `collect_chat_response` -/

/-- Its variables. -/
structure ChatParts where
  textParts : List String := []
  thinkingParts : List String := []
  toolCalls : List ToolCall := []
  logprobsContent : List LogprobsContentItem := []
  model : Option String := none
  finishReason : Option String := none
  errorMessage : Option String := none
  lastUsage : Option Usage := none

namespace ChatParts

def add (p : ChatParts) : Chunk → ChatParts
  | .prefillProgress .. => p
  | .error _ errorMessage => { p with errorMessage := some (errorText errorMessage) }
  | .token c =>
    { p with
      model := p.model.or (some c.model)
      lastUsage := c.usage.or p.lastUsage
      thinkingParts := if c.isThinking then p.thinkingParts ++ [c.text] else p.thinkingParts
      textParts := if c.isThinking then p.textParts else p.textParts ++ [c.text]
      logprobsContent := p.logprobsContent ++ (c.logprob.map fun l =>
        { token := c.text, logprob := l, topLogprobs := c.topLogprobs.getD [] }).toList
      finishReason := (c.finishReason.map StopReason.text).or p.finishReason }
  | .toolCalls model toolCalls usage _ =>
    { p with
      model := p.model.or (some model)
      lastUsage := usage.or p.lastUsage
      toolCalls := p.toolCalls ++ toolCallDeltas toolCalls
      finishReason := some "tool_calls" }

/-- The loop over the chunks ends at an error. -/
def collect (p : ChatParts) : List Chunk → ChatParts
  | [] => p
  | chunk :: chunks =>
    match chunk with
    | .error .. => p.add chunk
    | _ => (p.add chunk).collect chunks

end ChatParts

/-- `ChatCompletionResponse` with its one `ChatCompletionChoice`. -/
structure ChatCompletion where
  id : String
  created : Nat
  model : String
  content : String
  reasoningContent : Option String
  toolCalls : Option (List ToolCall)
  logprobs : Option (List LogprobsContentItem)
  finishReason : Option String
  usage : Option Usage

/-- What is left out when it is empty. -/
def orNone {α : Type} (l : List α) : Option (List α) := if l.isEmpty then none else some l

/-- It raises for an error, and when no chunk says a model. -/
def collectChatResponse (created : Nat) (chunks : List Chunk) : Option ChatCompletion :=
  let p := ChatParts.collect {} chunks
  if p.errorMessage.isSome then none
  else p.model.map fun model =>
    { id := commandId, created, model
      content := String.join p.textParts
      reasoningContent := joinParts p.thinkingParts
      toolCalls := orNone p.toolCalls
      logprobs := orNone p.logprobsContent
      finishReason := p.finishReason
      usage := p.lastUsage }

/-! ## As a client reads them -/

/-- The ending of a completion: the reason and the usage. -/
abbrev ChatEnding := Option String × Option Usage

def Model.fragment : Model → Fragment ToolCall ChatEnding
  | .response r =>
    { text := r.delta.content
      thinking := r.delta.reasoningContent
      toolCalls := r.delta.toolCalls.getD []
      finish := r.finishReason.map fun reason => .finished (some reason, r.usage) }
  | .error _ => { finish := some .failed }
  | .prefillProgress .. | .stats _ => {}

def ChatCompletion.answer (c : ChatCompletion) : Answer ToolCall ChatEnding where
  text := c.content
  thinking := c.reasoningContent
  toolCalls := c.toolCalls.getD []
  ending := (c.finishReason, c.usage)

/-- The fragments of the stream from the `i`-th chunk on. -/
def chatFragmentsFrom (i : Nat) (usage : Option Usage) (chunks : List Chunk) :
    List (Fragment ToolCall ChatEnding) :=
  ((chatEvents commandId now i usage chunks).filterMap StreamEvent.record?).map Model.fragment

def chatFragments (chunks : List Chunk) : List (Fragment ToolCall ChatEnding) :=
  chatFragmentsFrom commandId now 0 none chunks

end Exo.Chat
