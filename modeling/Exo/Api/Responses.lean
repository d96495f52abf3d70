import Exo.Api.Claude

/-!
# The Responses adapter of the API

`generate_responses_stream` turns the chunks of a text into the events of an OpenAI response. Each
output item is added, filled and done under an output index; the response as a whole comes last.
An index of -1 is one that was not given yet.

Of an item's parts there is one: a message has one text, and a reasoning has one summary. How an
event is written out is not part of the model, nor is the time a response is created at.
-/

namespace Exo

inductive ResponseStatus where
  | completed
  | failed
  | inProgress
  | incomplete
  deriving DecidableEq, Repr

inductive ResponseItem where
  | message (id : String) (content : List String) (status : ResponseStatus)
  | functionCall (id callId name arguments : String) (status : ResponseStatus)
  | reasoning (id : String) (summary : List String) (status : ResponseStatus)
  deriving DecidableEq, Repr

def ResponseItem.id : ResponseItem → String
  | .message id .. | .functionCall id .. | .reasoning id .. => id

structure ResponseUsage where
  inputTokens : Nat
  cachedTokens : Nat
  outputTokens : Nat
  reasoningTokens : Nat
  totalTokens : Nat
  deriving DecidableEq, Repr

/-- `_build_response_usage`. -/
def buildResponseUsage (usage : Usage) : ResponseUsage where
  inputTokens := usage.promptTokens
  cachedTokens := usage.cachedTokens
  outputTokens := usage.completionTokens
  reasoningTokens := usage.reasoningTokens
  totalTokens := usage.totalTokens

structure ResponsesResponse where
  id : String
  status : ResponseStatus
  model : String
  output : List ResponseItem
  outputText : String
  usage : Option ResponseUsage := none
  deriving DecidableEq, Repr

/-- What an event says, apart from its number. -/
inductive ResponsesEventBody where
  | created (response : ResponsesResponse)
  | inProgress (response : ResponsesResponse)
  | outputItemAdded (outputIndex : Int) (item : ResponseItem)
  | contentPartAdded (itemId : String) (outputIndex : Int) (contentIndex : Nat) (part : String)
  | textDelta (itemId : String) (outputIndex : Int) (contentIndex : Nat) (delta : String)
  | textDone (itemId : String) (outputIndex : Int) (contentIndex : Nat) (text : String)
  | contentPartDone (itemId : String) (outputIndex : Int) (contentIndex : Nat) (part : String)
  | outputItemDone (outputIndex : Int) (item : ResponseItem)
  | functionCallArgumentsDelta (itemId : String) (outputIndex : Int) (delta : String)
  | functionCallArgumentsDone (itemId : String) (outputIndex : Int) (name arguments : String)
  | reasoningSummaryPartAdded (itemId : String) (outputIndex : Int) (summaryIndex : Nat)
      (part : String)
  | reasoningSummaryTextDelta (itemId : String) (outputIndex : Int) (summaryIndex : Nat)
      (delta : String)
  | reasoningSummaryTextDone (itemId : String) (outputIndex : Int) (summaryIndex : Nat)
      (text : String)
  | reasoningSummaryPartDone (itemId : String) (outputIndex : Int) (summaryIndex : Nat)
      (part : String)
  | completed (response : ResponsesResponse)
  deriving DecidableEq, Repr

structure ResponsesStreamEvent where
  sequenceNumber : Nat
  body : ResponsesEventBody
  deriving DecidableEq, Repr

/-- The variables of `generate_responses_stream`. -/
structure ResponsesStream where
  /-- What `next(seq)` gives next. -/
  seq : Nat := 1
  accumulatedText : String := ""
  accumulatedThinking : String := ""
  functionCallItems : List ResponseItem := []
  lastUsage : Option Usage := none
  nextOutputIndex : Int := 0
  reasoningStarted : Bool := false
  reasoningOutputIndex : Int := -1
  messageStarted : Bool := false
  messageOutputIndex : Int := -1
  deriving DecidableEq, Repr

/-- Events with the numbers from `seq` on. -/
def numberEvents (seq : Nat) : List ResponsesEventBody → List ResponsesStreamEvent
  | [] => []
  | body :: bodies => ⟨seq, body⟩ :: numberEvents (seq + 1) bodies

namespace ResponsesStream

/-- Each event takes the next number. -/
def emit (s : ResponsesStream) (bodies : List ResponsesEventBody) :
    ResponsesStream × List ResponsesStreamEvent :=
  ({ s with seq := s.seq + bodies.length }, numberEvents s.seq bodies)

section Items

variable (commandId : String)

def responseId : String := "resp_" ++ commandId
def itemId : String := "item_" ++ commandId
def reasoningId : String := "rs_" ++ commandId

/-- The item of a tool call. -/
def functionCallItem (tool : ToolCallItem) (arguments : String) (status : ResponseStatus) :
    ResponseItem :=
  .functionCall ("fc_" ++ tool.id) ("call_" ++ tool.id) tool.name arguments status

/-- The reasoning as it is done. -/
def reasoningItem (s : ResponsesStream) : ResponseItem :=
  .reasoning (reasoningId commandId) [s.accumulatedThinking] .completed

/-- `final_message_item`. -/
def messageItem (s : ResponsesStream) : ResponseItem :=
  .message (itemId commandId) [s.accumulatedText] .completed

end Items

/-- A tool call is added, filled and done. -/
def functionCall (s : ResponsesStream) (tool : ToolCallItem) :
    ResponsesStream × List ResponsesStreamEvent :=
  let fcId := "fc_" ++ tool.id
  let index := s.nextOutputIndex
  let fcDoneItem := functionCallItem tool tool.arguments .completed
  let (s, events) := s.emit
    [.outputItemAdded index (functionCallItem tool "" .inProgress),
      .functionCallArgumentsDelta fcId index tool.arguments,
      .functionCallArgumentsDone fcId index tool.name tool.arguments,
      .outputItemDone index fcDoneItem]
  ({ s with
    functionCallItems := s.functionCallItems ++ [fcDoneItem]
    nextOutputIndex := s.nextOutputIndex + 1 }, events)

/-- `for tool in chunk.tool_calls`. -/
def functionCalls (s : ResponsesStream) :
    List ToolCallItem → ResponsesStream × List ResponsesStreamEvent
  | [] => (s, [])
  | tool :: tools =>
      let (s, events) := s.functionCall tool
      let (s, rest) := s.functionCalls tools
      (s, events ++ rest)

/-- The first token of the thinking adds the reasoning. -/
def startReasoning (commandId : String) (s : ResponsesStream) :
    ResponsesStream × List ResponsesStreamEvent :=
  if s.reasoningStarted then (s, [])
  else
    { s with
      reasoningStarted := true
      reasoningOutputIndex := s.nextOutputIndex
      nextOutputIndex := s.nextOutputIndex + 1 }.emit
      [.outputItemAdded s.nextOutputIndex (.reasoning (reasoningId commandId) [] .inProgress),
        .reasoningSummaryPartAdded (reasoningId commandId) s.nextOutputIndex 0 ""]

/-- `if chunk.is_thinking`. -/
def thinkingToken (commandId : String) (s : ResponsesStream) (text : String) :
    ResponsesStream × List ResponsesStreamEvent :=
  let (s, started) := s.startReasoning commandId
  let (s, events) := { s with accumulatedThinking := s.accumulatedThinking ++ text }.emit
    [.reasoningSummaryTextDelta (reasoningId commandId) s.reasoningOutputIndex 0 text]
  (s, started ++ events)

/-- `if reasoning_started and not message_started`: the reasoning is done. -/
def closeReasoning (commandId : String) (s : ResponsesStream) :
    ResponsesStream × List ResponsesStreamEvent :=
  if s.reasoningStarted ∧ ¬ s.messageStarted then
    s.emit
      [.reasoningSummaryTextDone (reasoningId commandId) s.reasoningOutputIndex 0
          s.accumulatedThinking,
        .reasoningSummaryPartDone (reasoningId commandId) s.reasoningOutputIndex 0
          s.accumulatedThinking,
        .outputItemDone s.reasoningOutputIndex (s.reasoningItem commandId)]
  else (s, [])

/-- `if not message_started`: the message is added. -/
def startMessage (commandId : String) (s : ResponsesStream) :
    ResponsesStream × List ResponsesStreamEvent :=
  if s.messageStarted then (s, [])
  else
    { s with
      messageStarted := true
      messageOutputIndex := s.nextOutputIndex
      nextOutputIndex := s.nextOutputIndex + 1 }.emit
      [.outputItemAdded s.nextOutputIndex (.message (itemId commandId) [""] .inProgress),
        .contentPartAdded (itemId commandId) s.nextOutputIndex 0 ""]

/-- A token of the text. -/
def textToken (commandId : String) (s : ResponsesStream) (text : String) :
    ResponsesStream × List ResponsesStreamEvent :=
  let (s, closed) := s.closeReasoning commandId
  let (s, started) := s.startMessage commandId
  let (s, events) := { s with accumulatedText := s.accumulatedText ++ text }.emit
    [.textDelta (itemId commandId) s.messageOutputIndex 0 text]
  (s, closed ++ started ++ events)

/-- `async for chunk in chunk_stream`, up to the end or an error. -/
def loop (commandId : String) (s : ResponsesStream) :
    List StreamChunk → ResponsesStream × List ResponsesStreamEvent
  | [] => (s, [])
  | .prefillProgress .. :: chunks => s.loop commandId chunks
  | .error _ :: _ => (s, [])
  | .toolCall toolCalls usage :: chunks =>
      let s := { s with lastUsage := usage.or s.lastUsage }
      let (s, events) := s.functionCalls toolCalls
      let (s, rest) := s.loop commandId chunks
      (s, events ++ rest)
  | .token text isThinking _ usage :: chunks =>
      let s := { s with lastUsage := usage.or s.lastUsage }
      let (s, events) :=
        if isThinking then s.thinkingToken commandId text else s.textToken commandId text
      let (s, rest) := s.loop commandId chunks
      (s, events ++ rest)

/-- The `output` of the response. -/
def output (commandId : String) (s : ResponsesStream) : List ResponseItem :=
  (if s.reasoningStarted then [s.reasoningItem commandId] else [])
    ++ [s.messageItem commandId] ++ s.functionCallItems

/-- The message is done. -/
def closeMessage (commandId : String) (s : ResponsesStream) :
    ResponsesStream × List ResponsesStreamEvent :=
  s.emit
    [.textDone (itemId commandId) s.messageOutputIndex 0 s.accumulatedText,
      .contentPartDone (itemId commandId) s.messageOutputIndex 0 s.accumulatedText,
      .outputItemDone s.messageOutputIndex (s.messageItem commandId)]

/-- `response.completed`. -/
def complete (commandId model : String) (s : ResponsesStream) :
    ResponsesStream × List ResponsesStreamEvent :=
  s.emit [.completed
    { id := responseId commandId
      status := .completed
      model
      output := s.output commandId
      outputText := s.accumulatedText
      usage := s.lastUsage.map buildResponseUsage }]

end ResponsesStream

open ResponsesStream in
def generateResponsesStream (commandId model : String) (chunkStream : List StreamChunk) :
    List ResponsesStreamEvent :=
  let initialResponse : ResponsesResponse :=
    { id := responseId commandId, status := .inProgress, model, output := [], outputText := "" }
  let (s, opened) := ({} : ResponsesStream).emit
    [.created initialResponse, .inProgress initialResponse]
  let (s, events) := s.loop commandId chunkStream
  let (s, reasoned) := s.closeReasoning commandId
  let (s, started) := s.startMessage commandId
  let (s, done) := s.closeMessage commandId
  let (_, completed) := s.complete commandId model
  opened ++ events ++ reasoned ++ started ++ done ++ completed

end Exo
