import Exo.Lib.Blocks
import Exo.Shared.Types

/-!
# The Claude adapter of the API

`generate_claude_stream` turns the chunks of a text into the events of a Claude message: blocks of
thinking, of text and of tool use, each opened, filled and closed. It keeps its place in two flags
and three indices; an index of -1 is one that was not given yet.

How an event is written out is not part of the model.
-/

namespace Exo

open Lib (BlockEvent BlockScan)

inductive FinishReason where
  | stop
  | length
  | toolCalls
  | contentFilter
  | functionCall
  | error
  deriving DecidableEq, Repr

structure Usage where
  promptTokens : Nat
  completionTokens : Nat
  totalTokens : Nat
  /-- `prompt_tokens_details.cached_tokens`. -/
  cachedTokens : Nat
  /-- `completion_tokens_details.reasoning_tokens`. -/
  reasoningTokens : Nat
  deriving DecidableEq, Repr

structure ToolCallItem where
  id : String
  name : String
  arguments : String
  deriving DecidableEq, Repr

/-- `ErrorChunk | ToolCallChunk | TokenChunk | PrefillProgressChunk`. -/
inductive StreamChunk where
  | error (errorMessage : String)
  | toolCall (toolCalls : List ToolCallItem) (usage : Option Usage)
  | token (text : String) (isThinking : Bool) (finishReason : Option FinishReason)
      (usage : Option Usage)
  | prefillProgress (processedTokens totalTokens : Nat)
  deriving DecidableEq, Repr

inductive ClaudeStopReason where
  | endTurn
  | maxTokens
  | toolUse
  deriving DecidableEq, Repr

def finishReasonToClaudeStopReason : FinishReason → ClaudeStopReason
  | .stop => .endTurn
  | .length => .maxTokens
  | .toolCalls => .toolUse
  | .contentFilter => .endTurn
  | .functionCall => .toolUse
  | .error => .endTurn

inductive ClaudeBlock where
  | text
  | thinking
  | toolUse (id name : String)
  deriving DecidableEq, Repr

inductive ClaudeDelta where
  | text (text : String)
  | thinking (thinking : String)
  | inputJson (partialJson : String)
  deriving DecidableEq, Repr

inductive ClaudeEvent where
  | messageStart (id model : String)
  | contentBlockStart (index : Int) (contentBlock : ClaudeBlock)
  | contentBlockDelta (index : Int) (delta : ClaudeDelta)
  | contentBlockStop (index : Int)
  | messageDelta (stopReason : Option ClaudeStopReason) (outputTokens : Nat)
  | messageStop
  deriving DecidableEq, Repr

/-- The variables of `generate_claude_stream`. -/
structure ClaudeStream where
  outputTokens : Nat := 0
  stopReason : Option ClaudeStopReason := none
  lastUsage : Option Usage := none
  nextBlockIndex : Int := 0
  thinkingBlockStarted : Bool := false
  thinkingBlockIndex : Int := -1
  textBlockStarted : Bool := false
  textBlockIndex : Int := -1
  deriving DecidableEq, Repr

namespace ClaudeStream

/-- The blocks of one tool call each. -/
def toolUses (s : ClaudeStream) : List ToolCallItem → ClaudeStream × List ClaudeEvent
  | [] => (s, [])
  | tool :: tools =>
      let (s', events) := { s with nextBlockIndex := s.nextBlockIndex + 1 }.toolUses tools
      (s', .contentBlockStart s.nextBlockIndex (.toolUse ("toolu_" ++ tool.id) tool.name)
        :: .contentBlockDelta s.nextBlockIndex (.inputJson tool.arguments)
        :: .contentBlockStop s.nextBlockIndex :: events)

/-- A token of the thinking; the first one starts the block. -/
def thinkingToken (s : ClaudeStream) (text : String) : ClaudeStream × List ClaudeEvent :=
  if s.thinkingBlockStarted then
    (s, [.contentBlockDelta s.thinkingBlockIndex (.thinking text)])
  else
    ({ s with
        thinkingBlockStarted := true
        thinkingBlockIndex := s.nextBlockIndex
        nextBlockIndex := s.nextBlockIndex + 1 },
      [.contentBlockStart s.nextBlockIndex .thinking,
        .contentBlockDelta s.nextBlockIndex (.thinking text)])

/-- A token of the text; the first one closes the block of the thinking and starts its own. -/
def textToken (s : ClaudeStream) (text : String) : ClaudeStream × List ClaudeEvent :=
  let closing := if s.thinkingBlockStarted ∧ s.textBlockIndex = -1
    then [.contentBlockStop s.thinkingBlockIndex] else []
  if s.textBlockStarted then
    (s, closing ++ [.contentBlockDelta s.textBlockIndex (.text text)])
  else
    ({ s with
        textBlockStarted := true
        textBlockIndex := s.nextBlockIndex
        nextBlockIndex := s.nextBlockIndex + 1 },
      closing ++ [.contentBlockStart s.nextBlockIndex .text,
        .contentBlockDelta s.nextBlockIndex (.text text)])

/-- `async for chunk in chunk_stream`, up to the end or an error. -/
def loop (s : ClaudeStream) : List StreamChunk → ClaudeStream × List ClaudeEvent
  | [] => (s, [])
  | .prefillProgress .. :: chunks => s.loop chunks
  | .error _ :: _ => (s, [])
  | .toolCall toolCalls usage :: chunks =>
      let s := { s with lastUsage := usage.or s.lastUsage, stopReason := some .toolUse }
      let (s', events) := s.toolUses toolCalls
      let (s'', rest) := s'.loop chunks
      (s'', events ++ rest)
  | .token text isThinking finishReason usage :: chunks =>
      let s := { s with
        lastUsage := usage.or s.lastUsage, outputTokens := s.outputTokens + 1 }
      let (s', events) := if isThinking then s.thinkingToken text else s.textToken text
      let s' := { s' with
        stopReason := (finishReason.map finishReasonToClaudeStopReason).or s'.stopReason }
      let (s'', rest) := s'.loop chunks
      (s'', events ++ rest)

/-- Open blocks are closed; a message without thinking and text has an empty text. -/
def closeBlocks (s : ClaudeStream) : List ClaudeEvent :=
  (if s.thinkingBlockStarted ∧ s.textBlockIndex = -1
    then [.contentBlockStop s.thinkingBlockIndex] else [])
  ++ (if s.textBlockStarted then [.contentBlockStop s.textBlockIndex] else [])
  ++ (if ¬ s.thinkingBlockStarted ∧ ¬ s.textBlockStarted
    then [.contentBlockStart 0 .text, .contentBlockStop 0] else [])

end ClaudeStream

def generateClaudeStream (commandId model : String) (chunkStream : List StreamChunk) :
    List ClaudeEvent :=
  let (s, events) := ({} : ClaudeStream).loop chunkStream
  let outputTokens := (s.lastUsage.map (·.completionTokens)).getD s.outputTokens
  [.messageStart ("msg_" ++ commandId) model] ++ events ++ s.closeBlocks
    ++ [.messageDelta s.stopReason outputTokens, .messageStop]

end Exo
