import Exo.Parsers.ToolCallSafety

/-!
# The output of gpt-oss

`parse_gpt_oss` lets a parser of its own read every token: the parser knows to whom the model speaks,
in which channel, and what the token adds. What is said to a tool is kept for its arguments, and the
call is yielded when the model no longer speaks to that tool. When the parser gives up, so does the
generator, without a word.
-/

namespace Exo.Parsers

open Lib

/-- What a `StreamableParser` has read with a token. -/
structure HarmonyReading where
  lastContentDelta : Option Text
  currentChannel : Option Text
  currentRecipient : Option Text

/-- `StreamableParser`. It may raise a `HarmonyError` at any token. -/
structure Harmony (σ : Type) where
  init : σ
  process : σ → Nat → Option (σ × HarmonyReading)

/-- The variables of `parse_gpt_oss`. -/
structure GptOssState (σ : Type) where
  stream : σ
  currentToolName : Option Text := none
  toolArgParts : Text := []

/-- The name of a tool without `functions.`. -/
def toolName (name : Text) : Text :=
  if (Text.of "functions.").isPrefixOf name then name.drop (Text.of "functions.").length else name

namespace HarmonyReading

variable (reading : HarmonyReading)

def delta : Text := reading.lastContentDelta.getD []

def isThinking : Bool := decide (reading.currentChannel = some (Text.of "analysis"))

end HarmonyReading

namespace Harmony

variable {σ : Type} (harmony : Harmony σ)

def next (s : GptOssState σ) :
    Option GenerationResponse → List (Option Parsed) × Option (GptOssState σ)
  | none => ([none], some s)
  | some response =>
    match harmony.process s.stream response.token with
    | none => ([], none)
    | some (stream, reading) =>
      let (yielded, toolArgParts) : List (Option Parsed) × Text :=
        if reading.currentRecipient ≠ s.currentToolName then
          match s.currentToolName with
          | none => ([], s.toolArgParts)
          | some name =>
            ([some (.toolCall ⟨[⟨toolName name, s.toolArgParts.strip⟩], response.usage, none⟩)], [])
        else ([], s.toolArgParts)
      let currentToolName := reading.currentRecipient
      if currentToolName ≠ none then
        let toolArgParts := toolArgParts ++ reading.delta
        if response.finishReason.isSome then
          (yielded ++ [some (.generation { response with text := toolArgParts })],
            some { stream, currentToolName, toolArgParts := [] })
        else (yielded, some { stream, currentToolName, toolArgParts })
      else
        let said : List (Option Parsed) :=
          if reading.delta = [] then []
          else [some (.generation
            { response with text := reading.delta, isThinking := reading.isThinking })]
        let finished : List (Option Parsed) :=
          if response.finishReason.isSome then [some (.generation response)] else []
        (yielded ++ said ++ finished, some { stream, currentToolName, toolArgParts })

end Harmony

def gptOssGenerator {σ : Type} (harmony : Harmony σ) :
    Generator (GptOssState σ) (Option GenerationResponse) (Option Parsed) where
  step := harmony.next

def parseGptOss {σ : Type} (harmony : Harmony σ) (responses : List (Option GenerationResponse)) :
    List (Option Parsed) :=
  (gptOssGenerator harmony).output { stream := harmony.init } responses

/-! ## What there is to say and to call -/

namespace GptOssState

variable {σ : Type} (s : GptOssState σ) (reading : HarmonyReading)

/-- The model no longer speaks to the tool that it spoke to. -/
def leaves : Bool :=
  s.currentToolName.isSome && decide (reading.currentRecipient ≠ s.currentToolName)

/-- The call that is complete with this reading. -/
def called : List ToolCallItem :=
  if s.leaves reading then [⟨toolName (s.currentToolName.getD []), s.toolArgParts.strip⟩] else []

/-- Nothing is kept where the model speaks to no tool. -/
def Fits : Prop := s.currentToolName = none → s.toolArgParts = []

def after (stream : σ) : GptOssState σ where
  stream := stream
  currentToolName := reading.currentRecipient
  toolArgParts := (if s.leaves reading then [] else s.toolArgParts) ++
    if reading.currentRecipient.isSome then reading.delta else []

end GptOssState

/-- What a token adds that is not said to a tool. The last token is taken as it is. -/
def HarmonyReading.said (reading : HarmonyReading) (response : GenerationResponse) : Text :=
  if reading.currentRecipient.isSome then []
  else if response.finishReason.isSome then response.text
  else reading.delta

namespace Harmony

variable {σ : Type} (harmony : Harmony σ)

/-- What is said to nobody or to a tool that is not called in the end, and all calls. What the
parser cannot read is text. -/
def expected : GptOssState σ → List (Option GenerationResponse) → Text × List ToolCallItem
  | s, [] => (s.toolArgParts, [])
  | s, none :: rest => expected s rest
  | s, some response :: rest =>
    match harmony.process s.stream response.token with
    | none => (s.toolArgParts ++ textOf (some response :: rest), [])
    | some (stream, reading) =>
      let later := expected (s.after reading stream) rest
      (reading.said response ++ later.1, s.called reading ++ later.2)

/-- Nothing is added from here on until the parser gives up, and no text is left then. -/
def Quiet : GptOssState σ → List (Option GenerationResponse) → Prop
  | _, [] => False
  | s, none :: rest => Quiet s rest
  | s, some response :: rest =>
    match harmony.process s.stream response.token with
    | none => textOf (some response :: rest) = []
    | some (stream, reading) =>
      s.leaves reading = false ∧ reading.delta = [] ∧ response.finishReason = none ∧
        Quiet (s.after reading stream) rest

/-- The parser reads every token, no call is ever complete, and the token that finishes is said to a
tool or adds nothing. Or one call is complete, and from then on nothing is added until the parser
gives up. -/
def Undisturbed : GptOssState σ → List (Option GenerationResponse) → Prop
  | _, [] => False
  | s, none :: rest => Undisturbed s rest
  | s, some response :: rest =>
    match harmony.process s.stream response.token with
    | none => False
    | some (stream, reading) =>
      if s.leaves reading then
        reading.delta = [] ∧ response.finishReason = none ∧
          harmony.Quiet (s.after reading stream) rest
      else if response.finishReason.isSome then
        Parsed.MayFinish response.finishReason ∧
          (reading.currentRecipient.isSome ∨ reading.delta = [])
      else Undisturbed (s.after reading stream) rest

end Harmony

end Exo.Parsers
