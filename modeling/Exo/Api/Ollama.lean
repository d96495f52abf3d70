import Exo.Api.ChatCollect
import Exo.Parsers.Values

/-!
# The answers of the Ollama endpoints

`/api/chat` and `/api/generate` answer with one record for each chunk, or with one record for all. A
record that is done is the last one; a token of thinking makes a record that is not done. Tool calls are
read as JSON before pydantic takes them, and both can raise: nothing is yielded then.
-/

namespace Exo.Chat

open Lib

inductive OllamaDoneReason where
  | stop
  | length
  | toolCall
  | error
deriving DecidableEq

/-- `_map_done_reason` -/
def mapDoneReason : Option String → Option OllamaDoneReason
  | none => none
  | some finishReason =>
    if finishReason = "stop" then some .stop
    else if finishReason = "length" then some .length
    else if finishReason = "tool_calls" ∨ finishReason = "function_call" then some .toolCall
    else if finishReason = "error" then some .error
    else some .stop

/-- `_try_parse_json`. It raises for a number that has too many digits, and only then. -/
def tryParseJson (value : Text) : Option Parsers.Value :=
  match Json.loads value with
  | none => some (.str value)
  | some j => Parsers.Value.ofJson j

/-- The counts of a prompt and of an answer. -/
abbrev EvalCounts := Option Nat × Option Nat

/-- `_get_usage` -/
def getUsage (usage : Option Usage) (stats : Option GenerationStats) : EvalCounts :=
  match usage, stats with
  | some usage, _ => (some usage.promptTokens, some usage.completionTokens)
  | none, some stats => (some stats.promptTokens, some stats.generationTokens)
  | none, none => (none, none)

/-- `OllamaToolCall` with its `OllamaToolFunction`. Its type is always `function`. -/
structure OllamaToolCall where
  id : String
  name : String
  arguments : Parsers.Value
  index : Nat

/-- `OllamaChatResponse` with its `OllamaMessage`, whose role is always `assistant`. -/
structure OllamaChatResponse where
  model : String
  content : String
  thinking : Option String := none
  toolCalls : Option (List OllamaToolCall) := none
  done : Bool
  doneReason : Option OllamaDoneReason := none
  evalCounts : EvalCounts := (none, none)

structure OllamaGenerateResponse where
  model : String
  response : String
  thinking : Option String := none
  done : Bool
  doneReason : Option OllamaDoneReason := none
  evalCounts : EvalCounts := (none, none)

-- whether pydantic takes a value as `dict[str, Any] | str` and writes it
variable (takesArguments : Parsers.Value → Bool)

def buildToolCall (index : Nat) (tool : ToolCallItem) : Option OllamaToolCall :=
  (tryParseJson (Text.of tool.arguments)).bind fun arguments =>
    if takesArguments arguments then some { id := tool.id, name := tool.name, arguments, index }
    else none

/-- `_build_tool_calls` -/
def buildToolCalls (toolCalls : List ToolCallItem) : Option (List OllamaToolCall) :=
  (toolCalls.mapIdx fun index tool => buildToolCall takesArguments index tool).mapM id

/-! ## `/api/chat` -/

def generateOllamaChatStream (thinkingParts : List String) : List Chunk → List OllamaChatResponse
  | [] => []
  | .prefillProgress .. :: chunks => generateOllamaChatStream thinkingParts chunks
  | .error model errorMessage :: _ =>
    [{ model, content := errorMessage, done := true, doneReason := some .error }]
  | .toolCalls model toolCalls usage stats :: _ =>
    ((buildToolCalls takesArguments toolCalls).map fun toolCalls =>
      { model, content := "", toolCalls := some toolCalls
        thinking := joinParts thinkingParts
        done := true, doneReason := some .toolCall, evalCounts := getUsage usage stats }).toList
  | .token c :: chunks =>
    let done := c.finishReason.isSome
    let rest := fun thinkingParts =>
      if done then [] else generateOllamaChatStream thinkingParts chunks
    if c.isThinking then
      { model := c.model, content := "", thinking := some c.text, done := false } ::
        rest (thinkingParts ++ [c.text])
    else if done then
      { model := c.model, content := c.text, done := true
        doneReason := mapDoneReason (c.finishReason.map StopReason.text)
        evalCounts := getUsage c.usage c.stats } :: rest thinkingParts
    else { model := c.model, content := c.text, done := false } :: rest thinkingParts

/-! ## `/api/generate` -/

def generateOllamaGenerateStream : List Chunk → List OllamaGenerateResponse
  | [] => []
  | .prefillProgress .. :: chunks => generateOllamaGenerateStream chunks
  | .error model _ :: _ =>
    [{ model, response := "", done := true, doneReason := some .error }]
  | .toolCalls model _ usage stats :: _ =>
    -- the endpoint has no tools
    [{ model, response := "", done := true, doneReason := some .stop
       evalCounts := getUsage usage stats }]
  | .token c :: chunks =>
    let done := c.finishReason.isSome
    let rest := if done then [] else generateOllamaGenerateStream chunks
    if c.isThinking then
      { model := c.model, response := "", thinking := some c.text, done := false } :: rest
    else if done then
      { model := c.model, response := c.text, done := true
        doneReason := mapDoneReason (c.finishReason.map StopReason.text)
        evalCounts := getUsage c.usage c.stats } :: rest
    else { model := c.model, response := c.text, done := false } :: rest

/-! ## In one piece -/

/-- The variables of the two that collect. -/
structure OllamaParts where
  textParts : List String := []
  thinkingParts : List String := []
  toolCalls : List OllamaToolCall := []
  model : Option String := none
  finishReason : Option String := none
  evalCounts : EvalCounts := (none, none)

/-- Their loop, given what is made of tool calls. It raises for an error. -/
def OllamaParts.collect (build : List ToolCallItem → Option (List OllamaToolCall)) (p : OllamaParts) :
    List Chunk → Option OllamaParts
  | [] => some p
  | .prefillProgress .. :: chunks => p.collect build chunks
  | .error .. :: _ => none
  | .token c :: chunks =>
    OllamaParts.collect build
      { p with
        model := p.model.or (some c.model)
        thinkingParts := if c.isThinking then p.thinkingParts ++ [c.text] else p.thinkingParts
        textParts := if c.isThinking then p.textParts else p.textParts ++ [c.text]
        finishReason := (c.finishReason.map StopReason.text).or p.finishReason
        evalCounts := if c.finishReason.isSome then getUsage c.usage c.stats else p.evalCounts }
      chunks
  | .toolCalls model toolCalls usage stats :: chunks =>
    (build toolCalls).bind fun toolCalls =>
      OllamaParts.collect build
        { p with
          model := p.model.or (some model)
          toolCalls := p.toolCalls ++ toolCalls
          finishReason := some "tool_calls"
          evalCounts := getUsage usage stats }
        chunks

/-- `collect_ollama_chat_response` -/
def collectOllamaChatResponse (chunks : List Chunk) : Option OllamaChatResponse :=
  (OllamaParts.collect (buildToolCalls takesArguments) {} chunks).bind fun p =>
    p.model.map fun model =>
      { model, content := String.join p.textParts
        thinking := joinParts p.thinkingParts
        toolCalls := orNone p.toolCalls
        done := true, doneReason := mapDoneReason p.finishReason, evalCounts := p.evalCounts }

/-- `collect_ollama_generate_response` -/
def collectOllamaGenerateResponse (chunks : List Chunk) : Option OllamaGenerateResponse :=
  (OllamaParts.collect (fun _ => some []) {} chunks).bind fun p =>
    p.model.map fun model =>
      { model, response := String.join p.textParts
        thinking := joinParts p.thinkingParts
        done := true, doneReason := mapDoneReason p.finishReason, evalCounts := p.evalCounts }

/-! ## As a client reads them -/

/-- The ending of an Ollama answer: the reason and the counts. -/
abbrev OllamaEnding := Option OllamaDoneReason × EvalCounts

/-- A record that is done ends the stream. -/
def ollamaFinish (done : Bool) (doneReason : Option OllamaDoneReason) (evalCounts : EvalCounts) :
    Option (Finish OllamaEnding) :=
  if done then
    if doneReason = some .error then some .failed else some (.finished (doneReason, evalCounts))
  else none

def OllamaChatResponse.fragment (r : OllamaChatResponse) : Fragment OllamaToolCall OllamaEnding where
  text := some r.content
  thinking := r.thinking
  toolCalls := r.toolCalls.getD []
  finish := ollamaFinish r.done r.doneReason r.evalCounts

def OllamaChatResponse.answer (r : OllamaChatResponse) : Answer OllamaToolCall OllamaEnding where
  text := r.content
  thinking := r.thinking
  toolCalls := r.toolCalls.getD []
  ending := (r.doneReason, r.evalCounts)

def OllamaGenerateResponse.fragment (r : OllamaGenerateResponse) :
    Fragment OllamaToolCall OllamaEnding where
  text := some r.response
  thinking := r.thinking
  finish := ollamaFinish r.done r.doneReason r.evalCounts

def OllamaGenerateResponse.answer (r : OllamaGenerateResponse) :
    Answer OllamaToolCall OllamaEnding where
  text := r.response
  thinking := r.thinking
  toolCalls := []
  ending := (r.doneReason, r.evalCounts)

end Exo.Chat
