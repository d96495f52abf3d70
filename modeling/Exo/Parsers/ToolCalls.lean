import Exo.Parsers.Chunks

/-!
# Tool calls in the output of a model

`parse_tool_calls` takes the tokens from one that starts with the start of a tool call to one that
ends with its end for a block, and hands its text to a parser. What was parsed is kept until the
generation finishes, and then answers for the token that finishes it. A block that cannot be parsed
ends everything at once; one that is never closed ends in an error that says its text.
-/

namespace Exo.Parsers

open Lib

/-- A `ToolParser` with the tools it was asked for. Nothing is known of what it parses. -/
structure ToolParser where
  startParsing : Text
  endParsing : Text
  parse : Text → Option (List ToolCallItem)

/-- The variables of `parse_tool_calls`. -/
structure ToolCallState where
  inToolCall : Bool := false
  toolCallText : Text := []
  accumulatedToolCalls : List ToolCallItem := []

namespace ToolParser

variable (parser : ToolParser)

def next (s : ToolCallState) :
    Option GenerationResponse → List (Option Parsed) × Option ToolCallState
  | none => ([none], some s)
  | some response =>
    let inToolCall := s.inToolCall || parser.startParsing.isPrefixOf response.text
    if inToolCall = false ∧ s.accumulatedToolCalls ≠ [] ∧
        (response.stats.isSome ∨ response.finishReason.isSome) then
      ([some (.toolCall ⟨s.accumulatedToolCalls, response.usage, response.stats⟩)],
        some { s with accumulatedToolCalls := [] })
    else if inToolCall = false then ([some (.generation response)], some s)
    else
      let combined := s.toolCallText ++ response.text
      if parser.endParsing.isSuffixOf response.text then
        match parser.parse combined.strip with
        | none =>
          ([some (.generation
            { response with text := combined, token := 0, finishReason := some .error })], none)
        | some parsed =>
          let accumulated := s.accumulatedToolCalls ++ parsed
          if accumulated ≠ [] ∧ (response.finishReason.isSome ∨ response.stats.isSome) then
            ([some (.toolCall ⟨accumulated, response.usage, response.stats⟩)], some {})
          else ([], some { accumulatedToolCalls := accumulated })
      else if response.finishReason.isSome then
        ([some (.generation
            { response with text := combined, token := 0, finishReason := some .error })],
          some { s with inToolCall, toolCallText := combined })
      else ([], some { s with inToolCall, toolCallText := combined })

end ToolParser

def toolCallGenerator (parser : ToolParser) :
    Generator ToolCallState (Option GenerationResponse) (Option Parsed) where
  step := parser.next

def parseToolCalls (responses : List (Option GenerationResponse)) (parser : ToolParser) :
    List (Option Parsed) :=
  (toolCallGenerator parser).output {} responses

/-! ## What there is to say and to call -/

/-- Where a token stands. -/
inductive TokenRole where
  | outside
  | within (text : Text)
  | failed (text : Text)
  | parsed (text : Text) (toolCalls : List ToolCallItem)

namespace ToolParser

variable (parser : ToolParser)

def role (inToolCall : Bool) (toolCallText : Text) (response : GenerationResponse) : TokenRole :=
  if inToolCall || parser.startParsing.isPrefixOf response.text then
    let combined := toolCallText ++ response.text
    if parser.endParsing.isSuffixOf response.text then
      match parser.parse combined.strip with
      | none => .failed combined
      | some toolCalls => .parsed combined toolCalls
    else .within combined
  else .outside

/-- The text of a block that no call stands for. -/
def unanswered (text : Text) (toolCalls : List ToolCallItem) : Text :=
  if toolCalls = [] then text else []

/-- The text outside of blocks and of those that no call stands for, and all calls that are parsed.
Behind a block that cannot be parsed nothing is. -/
def expected : Bool → Text → List (Option GenerationResponse) → Text × List ToolCallItem
  | _, toolCallText, [] => (toolCallText, [])
  | inToolCall, toolCallText, none :: rest => expected inToolCall toolCallText rest
  | inToolCall, toolCallText, some response :: rest =>
    match parser.role inToolCall toolCallText response with
    | .outside => (response.text ++ (expected false [] rest).1, (expected false [] rest).2)
    | .within text => expected true text rest
    | .failed text => (text ++ textOf rest, [])
    | .parsed text toolCalls =>
      (unanswered text toolCalls ++ (expected false [] rest).1,
        toolCalls ++ (expected false [] rest).2)

/-! ## When all of it is delivered -/

/-- Nothing is yielded for these: every token is a block of its own, and an empty one. -/
structure Mute (rest : List (Option GenerationResponse)) : Prop where
  start : parser.startParsing = []
  stop : parser.endParsing = []
  parse : parser.parse [] = some []
  text : textOf rest = []

/-- What the tokens do, given the calls that are kept so far: a block that cannot be parsed is the
only one with anything to it, and nothing is said behind it; every other block has a call, unless
it has no text; statistics come with the token that finishes; and that token leaves no block open
behind others, says nothing behind a call, and closes no block without any. -/
def Answered : ToolCallState → List (Option GenerationResponse) → Prop
  | _, [] => False
  | s, none :: rest => Answered s rest
  | s, some response :: rest =>
    match parser.role s.inToolCall s.toolCallText response with
    | .outside =>
      if s.accumulatedToolCalls = [] then
        if response.finishReason.isSome then Parsed.MayFinish response.finishReason
        else Answered {} rest
      else if response.finishReason.isSome then response.text = []
      else if response.stats.isSome then response.text = [] ∧ parser.Mute rest
      else Answered { accumulatedToolCalls := s.accumulatedToolCalls } rest
    | .within text =>
      if response.finishReason.isSome then s.accumulatedToolCalls = []
      else Answered { s with inToolCall := true, toolCallText := text } rest
    | .failed _ => s.accumulatedToolCalls = [] ∧ textOf rest = []
    | .parsed text toolCalls =>
      let accumulated := s.accumulatedToolCalls ++ toolCalls
      unanswered text toolCalls = [] ∧
        if response.finishReason.isSome then accumulated ≠ []
        else if accumulated ≠ [] ∧ response.stats.isSome then parser.Mute rest
        else Answered { accumulatedToolCalls := accumulated } rest

end ToolParser

/-! ## What is yielded for a token -/

section Tokens

variable {parser : ToolParser} {s : ToolCallState} {response : GenerationResponse}

/-- Outside of a block the text of one is gone. -/
def ToolCallState.Fits (s : ToolCallState) : Prop := s.inToolCall = false → s.toolCallText = []

theorem role_cases (parser : ToolParser) (s : ToolCallState) (response : GenerationResponse) :
    (s.inToolCall || parser.startParsing.isPrefixOf response.text) = false ∧
      parser.role s.inToolCall s.toolCallText response = .outside ∨
    (s.inToolCall || parser.startParsing.isPrefixOf response.text) = true ∧
      (parser.endParsing.isSuffixOf response.text = false ∧
        parser.role s.inToolCall s.toolCallText response
          = .within (s.toolCallText ++ response.text) ∨
      parser.endParsing.isSuffixOf response.text = true ∧
        (parser.parse (s.toolCallText ++ response.text).strip = none ∧
          parser.role s.inToolCall s.toolCallText response
            = .failed (s.toolCallText ++ response.text) ∨
        ∃ toolCalls, parser.parse (s.toolCallText ++ response.text).strip = some toolCalls ∧
          parser.role s.inToolCall s.toolCallText response
            = .parsed (s.toolCallText ++ response.text) toolCalls)) := by
  unfold ToolParser.role
  cases hopen : s.inToolCall || parser.startParsing.isPrefixOf response.text with
  | false => exact .inl ⟨rfl, rfl⟩
  | true =>
      refine .inr ⟨rfl, ?_⟩
      cases hend : parser.endParsing.isSuffixOf response.text with
      | false => exact .inl ⟨rfl, rfl⟩
      | true =>
          refine .inr ⟨rfl, ?_⟩
          cases hparse : parser.parse (s.toolCallText ++ response.text).strip with
          | none => exact .inl ⟨rfl, by simp [hparse]⟩
          | some toolCalls => exact .inr ⟨toolCalls, rfl, by simp [hparse]⟩

theorem next_outside
    (h : parser.role s.inToolCall s.toolCallText response = .outside) :
    parser.next s (some response) =
      if s.accumulatedToolCalls ≠ [] ∧ (response.stats.isSome ∨ response.finishReason.isSome) then
        ([some (.toolCall ⟨s.accumulatedToolCalls, response.usage, response.stats⟩)],
          some { s with accumulatedToolCalls := [] })
      else ([some (.generation response)], some s) := by
  rcases role_cases parser s response with ⟨ho, hr⟩ | ⟨ho, ⟨he, hr⟩ | ⟨he, ⟨hp, hr⟩ | ⟨cs, hp, hr⟩⟩⟩ <;>
    rw [h] at hr <;> cases hr
  simp only [ToolParser.next, ho, true_and, if_true]

/-- What is said of a block that is not closed or cannot be parsed. -/
def GenerationResponse.failure (response : GenerationResponse) (text : Text) :
    GenerationResponse :=
  { response with text, token := 0, finishReason := some .error }

theorem next_within {text : Text}
    (h : parser.role s.inToolCall s.toolCallText response = .within text) :
    parser.next s (some response) =
      (if response.finishReason.isSome then [some (.generation (response.failure text))] else [],
        some { s with inToolCall := true, toolCallText := text }) := by
  rcases role_cases parser s response with ⟨ho, hr⟩ | ⟨ho, ⟨he, hr⟩ | ⟨he, ⟨hp, hr⟩ | ⟨cs, hp, hr⟩⟩⟩ <;>
    rw [h] at hr <;> cases hr
  simp only [ToolParser.next, ho, he, Bool.true_eq_false, false_and, if_false, Bool.false_eq_true]
  split <;> rfl

theorem next_failed {text : Text}
    (h : parser.role s.inToolCall s.toolCallText response = .failed text) :
    parser.next s (some response) = ([some (.generation (response.failure text))], none) := by
  rcases role_cases parser s response with ⟨ho, hr⟩ | ⟨ho, ⟨he, hr⟩ | ⟨he, ⟨hp, hr⟩ | ⟨cs, hp, hr⟩⟩⟩ <;>
    rw [h] at hr <;> cases hr
  simp only [ToolParser.next, ho, he, hp, Bool.true_eq_false, false_and, if_false, if_true]
  rfl

theorem next_parsed {text : Text} {toolCalls : List ToolCallItem}
    (h : parser.role s.inToolCall s.toolCallText response = .parsed text toolCalls) :
    parser.next s (some response) =
      if s.accumulatedToolCalls ++ toolCalls ≠ [] ∧
          (response.finishReason.isSome ∨ response.stats.isSome) then
        ([some (.toolCall ⟨s.accumulatedToolCalls ++ toolCalls, response.usage, response.stats⟩)],
          some {})
      else ([], some { accumulatedToolCalls := s.accumulatedToolCalls ++ toolCalls }) := by
  rcases role_cases parser s response with ⟨ho, hr⟩ | ⟨ho, ⟨he, hr⟩ | ⟨he, ⟨hp, hr⟩ | ⟨cs, hp, hr⟩⟩⟩ <;>
    rw [h] at hr <;> cases hr
  simp only [ToolParser.next, ho, he, hp, Bool.true_eq_false, false_and, if_false, if_true]

end Tokens

end Exo.Parsers
