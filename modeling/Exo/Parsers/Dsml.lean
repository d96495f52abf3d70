import Exo.Lib.Cutting
import Exo.Parsers.Responses

/-!
# Tool calls between DSML markers

`_parse_dsml_stream` looks for blocks of tool calls in the text of the tokens. It holds tokens back
while the marker that begins a block may have begun, and gathers the text from that marker on until
the text has the marker that ends the block.

A block is cut off where the marker that ends it is seen, at the end of a token, and the token that
begins it gives no text in front of it. The last token goes another way.
-/

namespace Exo.Parsers

open Lib

structure DsmlMarkers where
  /-- `tool_calls_start` -/
  start : Text
  /-- `tool_calls_end` -/
  stop : Text
  start_ne_nil : start ≠ []
  stop_ne_nil : stop ≠ []

/-- What is yielded. An answer to a block comes with the text that was parsed. -/
inductive Yielded where
  | pass
  | token (r : GenerationResponse)
  | block (text : Text) (answer : Parsed)

def Yielded.response : Yielded → Option Parsed
  | .pass => none
  | .token r => some (.generation r)
  | .block _ answer => some answer

/-- The variables of `_parse_dsml_stream`. -/
structure DsmlParser where
  accumulated : Text := []
  inToolCall : Bool := false
  pendingBuffer : List GenerationResponse := []
  toolCallText : Text := []

def couldBeMarkerPrefix (text marker : Text) : Bool :=
  (text.drop (text.length - marker.length)).tails.any fun suffix =>
    !suffix.isEmpty && suffix.isPrefixOf marker

/-- The tokens that are held back, as far as their text stands in front of the marker. -/
def flushBefore : List GenerationResponse → Text → List GenerationResponse
  | [], _ => []
  | buffered :: pendingBuffer, preText =>
    if preText = [] then []
    else if buffered.text.length ≤ preText.length then
      buffered :: flushBefore pendingBuffer (preText.drop buffered.text.length)
    else [{ buffered with text := preText }]

section

variable (m : DsmlMarkers) (parseBody : Text → Option (List ToolCallItem))

/-- `_try_parse_tool_call` -/
def tryParseToolCall (text : Text) (response : GenerationResponse) : Yielded :=
  .block text (match parseBody text with
    | some parsed =>
      .toolCall { toolCalls := parsed, usage := response.usage, stats := response.stats }
    | none => .generation { response with text := text })

namespace DsmlParser

/-- What the token that finishes yields. -/
def last (s : DsmlParser) (response : GenerationResponse) : List Yielded :=
  if s.inToolCall then
    let toolCallText := s.toolCallText ++ response.text
    if (cut m.stop toolCallText).isSome then [tryParseToolCall parseBody toolCallText response]
    else [.token { response with text := toolCallText }]
  else
    match cut m.start response.text, cut m.stop response.text with
    | some (before, block), some _ =>
      (if before = [] then [] else [.token { response with text := before }]) ++
        [tryParseToolCall parseBody block response]
    | _, _ => [.token response]

def next (s : DsmlParser) : Option GenerationResponse → List Yielded × Option DsmlParser
  | none => ([.pass], some s)
  | some response =>
    if response.finishReason.isSome then
      (s.pendingBuffer.map .token ++ s.last m parseBody response, none)
    else if s.inToolCall then
      let toolCallText := s.toolCallText ++ response.text
      if (cut m.stop toolCallText).isSome then
        ([tryParseToolCall parseBody toolCallText response],
          some { s with inToolCall := false, toolCallText := [] })
      else ([], some { s with toolCallText := toolCallText })
    else
      let accumulated := s.accumulated ++ response.text
      match cut m.start accumulated with
      | some (preText, toolCallText) =>
        let flushed := (flushBefore s.pendingBuffer preText).map .token
        if (cut m.stop toolCallText).isSome then
          (flushed ++ [tryParseToolCall parseBody toolCallText response],
            some { s with pendingBuffer := [], accumulated := [], toolCallText := [] })
        else
          (flushed, some { inToolCall := true, toolCallText := toolCallText })
      | none =>
        if couldBeMarkerPrefix accumulated m.start then
          ([], some { s with
            accumulated := accumulated, pendingBuffer := s.pendingBuffer ++ [response] })
        else
          (s.pendingBuffer.map .token ++ [.token response],
            some { s with pendingBuffer := [], accumulated := [] })

end DsmlParser

def dsmlGenerator : Generator DsmlParser (Option GenerationResponse) Yielded where
  step := DsmlParser.next m parseBody
  atEnd s := s.pendingBuffer.map .token

def parseDsmlStream (responses : List (Option GenerationResponse)) : List (Option Parsed) :=
  ((dsmlGenerator m parseBody).output {} responses).map Yielded.response

/-! ## What the text says -/

/-- A character outside of all blocks, or a block with the tool calls in it. -/
inductive Item where
  | char (c : CodePoint)
  | block (text : Text) (toolCalls : Option (List ToolCallItem))
deriving DecidableEq

/-- What stands in front of the first complete block, the block, and the rest. -/
def firstBlock (t : Text) : Option (Text × Text × Text) :=
  (cut m.start t).bind fun p => (cutBehind m.stop p.2).map fun q => (p.1, q.1, q.2)

theorem length_of_firstBlock {m : DsmlMarkers} {t pre block rest : Text}
    (h : firstBlock m t = some (pre, block, rest)) : rest.length < t.length := by
  obtain ⟨⟨before, behind⟩, hcut, h⟩ := Option.bind_eq_some_iff.mp h
  obtain ⟨⟨block, rest⟩, hbehind, h⟩ := Option.map_eq_some_iff.mp h
  cases h
  have hlt := length_of_cutBehind m.stop_ne_nil hbehind
  obtain ⟨rfl, -, -⟩ := cut_eq_some_iff.1 hcut
  simp only [List.length_append] at hlt ⊢
  omega

/-- The text outside of complete blocks, and the blocks. -/
def items (t : Text) : List Item :=
  match h : firstBlock m t with
  | none => t.map .char
  | some (pre, block, rest) =>
    have := length_of_firstBlock h
    pre.map .char ++ .block block (parseBody block) :: items rest
termination_by t.length

/-- What is yielded, text by the character. -/
def Yielded.items : Yielded → List Item
  | .pass => []
  | .token r => r.text.map .char
  | .block text (.toolCall t) => [.block text (some t.toolCalls)]
  | .block _ (.generation r) => [.block r.text none]

/-- What is yielded is the text outside of all blocks, and one answer for each block. -/
def Conserves (o : FinishedOutput) : Prop :=
  ((dsmlGenerator m parseBody).output {} o.responses).flatMap Yielded.items
    = items m parseBody (textOf o.responses)

/-- The block is complete only at the end of the text. -/
def Whole (t : Text) : Prop := ∀ q ∈ cutBehind m.stop t, q.2 = []

instance (t : Text) : Decidable (Whole m t) := inferInstanceAs (Decidable (∀ _ ∈ _, _))

namespace DsmlParser

def held (s : DsmlParser) : Text := if s.inToolCall then s.toolCallText else s.accumulated

/-- The token has no text in front of a block that begins in it, and none behind a block that ends
in it. The last one has a block up to its end, or none at all. -/
def MayTake (s : DsmlParser) (response : GenerationResponse) : Prop :=
  if response.finishReason.isSome then
    if s.inToolCall then Whole m (s.held ++ response.text)
    else if (cut m.start response.text).isSome ∧ (cut m.stop response.text).isSome then
      ∀ p ∈ cut m.start response.text,
        firstBlock m (s.held ++ response.text) = some (s.held ++ p.1, p.2, [])
    else firstBlock m (s.held ++ response.text) = none
  else
    ∀ p ∈ cut m.start (s.held ++ response.text), p.1.length ≤ s.held.length ∧ Whole m p.2

instance (s : DsmlParser) (response : GenerationResponse) : Decidable (s.MayTake m response) :=
  inferInstanceAs (Decidable (ite _ _ _))

/-- Every token may be taken. -/
def Tidy : DsmlParser → List (Option GenerationResponse) → Prop
  | _, [] => True
  | s, none :: responses => Tidy s responses
  | s, some r :: responses => s.MayTake m r ∧
      ∀ s' ∈ (s.next m parseBody (some r)).2, Tidy s' responses

instance decidableTidy : (s : DsmlParser) → (responses : List (Option GenerationResponse)) →
    Decidable (Tidy m parseBody s responses)
  | _, [] => isTrue trivial
  | s, none :: responses => decidableTidy s responses
  | _, some _ :: responses =>
    have := fun s' => decidableTidy s' responses
    inferInstanceAs (Decidable (_ ∧ _))

end DsmlParser

end

end Exo.Parsers
