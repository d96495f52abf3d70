import Exo.Api.ChatStream
import Exo.Api.Claude
import Exo.Lib.Generator

/-!
# What the parsers of model output read and yield

A generator of tokens yields a response for every token, or `None` where there is none yet. A
parser turns these into responses of its own, some of which are tool calls.

The id that a tool call is given is random, and nothing here reads it.
-/

namespace Exo.Parsers

open Lib

structure GenerationResponse where
  text : Text
  token : Nat
  logprob : Option Chat.WrittenFloat := none
  topLogprobs : Option (List Chat.TopLogprobItem) := none
  finishReason : Option FinishReason := none
  stats : Option Chat.GenerationStats := none
  usage : Option Chat.Usage
  isThinking : Bool := false
deriving DecidableEq

structure ToolCallItem where
  name : Text
  arguments : Text
deriving DecidableEq

structure ToolCallResponse where
  toolCalls : List ToolCallItem
  usage : Option Chat.Usage
  stats : Option Chat.GenerationStats := none
deriving DecidableEq

/-- `GenerationResponse | ToolCallResponse` -/
inductive Parsed where
  | generation (r : GenerationResponse)
  | toolCall (t : ToolCallResponse)
deriving DecidableEq

/-- The text of all tokens. -/
def textOf (responses : List (Option GenerationResponse)) : Text :=
  responses.flatMap fun
    | none => []
    | some r => r.text

@[simp] theorem textOf_nil : textOf [] = [] := rfl

@[simp] theorem textOf_some (r : GenerationResponse) (responses : List (Option GenerationResponse)) :
    textOf (some r :: responses) = r.text ++ textOf responses := rfl

/-- Only the last token says that the generation has finished. -/
def FinishLast : List (Option GenerationResponse) → Prop
  | [] => True
  | none :: responses => FinishLast responses
  | some r :: responses => (r.finishReason ≠ none → responses = []) ∧ FinishLast responses

/-- What a model puts out, cut into tokens. -/
structure ModelOutput where
  responses : List (Option GenerationResponse)
  finishLast : FinishLast responses

/-- The last token, and no other one, says that the generation has finished. -/
def Finished : List (Option GenerationResponse) → Prop
  | [] => False
  | none :: responses => Finished responses
  | some r :: responses =>
    r.finishReason ≠ none ∧ responses = [] ∨ r.finishReason = none ∧ Finished responses

/-- What a model puts out until it finishes, cut into tokens. -/
structure FinishedOutput where
  responses : List (Option GenerationResponse)
  finished : Finished responses

end Exo.Parsers
