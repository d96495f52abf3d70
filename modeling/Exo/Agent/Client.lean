import Exo.Lib.Dict
import Exo.Lib.Json

/-!
# The agent's client of the chat completions API

`complete_stream_events` reads a response line by line. A record is read as JSON and taken apart
into what it adds to the reasoning, to the content and to the tool calls, which are collected by
their index and handed on at the end. Whatever goes wrong with a record is passed over in silence.

Of the values a record can hold, only those of the shape the API writes are followed: where the API
writes a string, a list, an object or a whole number, anything else that Python takes for true counts
as something the client fails on.
-/

namespace Exo.Agent

open Lib

/-- What Python takes for false, a missing value among it. -/
def falsy : Option Json → Bool
  | none => true
  | some (.const .null) => true
  | some (.const (.bool false)) => true
  | some (.str []) => true
  | some (.arr []) => true
  | some (.obj []) => true
  | some (.num n) => n.whole = 0 ∧ n.fraction.all (· = 0)
  | some _ => false

/-- A text under a key; one that is false is the empty one. -/
def textField (key : String) (j : Json) : Option Text :=
  if falsy (j.get? (Text.of key)) then some []
  else
    match j.get? (Text.of key) with
    | some (.str t) => some t
    | _ => none

def listField (key : String) (j : Json) : Option (List Json) :=
  if falsy (j.get? (Text.of key)) then some []
  else
    match j.get? (Text.of key) with
    | some (.arr items) => some items
    | _ => none

def objectField (key : String) (j : Json) : Option Json :=
  if falsy (j.get? (Text.of key)) then some (.obj [])
  else
    match j.get? (Text.of key) with
    | some (.obj members) => some (.obj members)
    | _ => none

def indexField (key : String) (j : Json) : Option Nat :=
  if falsy (j.get? (Text.of key)) then some 0
  else
    match j.get? (Text.of key) with
    | some (.num { negative := false, whole, fraction := [], exponent := none }) => some whole
    | _ => none

def isObject : Json → Bool
  | .obj _ => true
  | _ => false

/-- A tool call as it is collected. -/
structure CollectedCall where
  id : Text
  type : Text
  name : Text
  arguments : Text
deriving DecidableEq

inductive ClientEvent where
  | reasoning (delta : Text)
  | content (delta : Text)
  | toolCall (call : CollectedCall)
deriving DecidableEq

abbrev ToolCalls := Dict Nat CollectedCall

/-- The call at an index before a piece of it is read, and after its id and type are. -/
def currentCall (toolCalls : ToolCalls) (index : Nat) (id type : Text) : CollectedCall :=
  let current := (toolCalls.get? index).getD
    { id := if id = [] then Text.of "call_" ++ Json.natText index else id
      type := if type = [] then Text.of "function" else type, name := [], arguments := [] }
  { current with
    id := if id = [] then current.id else id
    type := if type = [] then current.type else type }

/-- One entry of `delta["tool_calls"]`, and whether it was read to its end. -/
def readTool (toolCalls : ToolCalls) (rawTool : Json) : ToolCalls × Bool :=
  if isObject rawTool then
    match indexField "index" rawTool, textField "id" rawTool, textField "type" rawTool with
    | some index, some id, some type =>
      let current := currentCall toolCalls index id type
      match objectField "function" rawTool with
      | none => (toolCalls.set index current, false)
      | some function =>
        match textField "name" function with
        | none => (toolCalls.set index current, false)
        | some name =>
          let current := { current with name := current.name ++ name }
          match textField "arguments" function with
          | none => (toolCalls.set index current, false)
          | some arguments =>
            (toolCalls.set index { current with arguments := current.arguments ++ arguments }, true)
    | _, _, _ => (toolCalls, false)
  else (toolCalls, false)

/-- An entry that is not read to its end takes the ones behind it along. -/
def readTools (toolCalls : ToolCalls) : List Json → ToolCalls
  | [] => toolCalls
  | rawTool :: more =>
    if (readTool toolCalls rawTool).2 then readTools (readTool toolCalls rawTool).1 more
    else (readTool toolCalls rawTool).1

/-- The delta of a record, if it has one. -/
def deltaOf (data : Json) : Option Json :=
  if isObject data then
    match listField "choices" data with
    | some (choice :: _) => if isObject choice then objectField "delta" choice else none
    | _ => none
  else none

def readDelta (toolCalls : ToolCalls) (delta : Json) : List ClientEvent × ToolCalls :=
  match textField "reasoning_content" delta with
  | none => ([], toolCalls)
  | some reasoning =>
    let events := if reasoning = [] then [] else [ClientEvent.reasoning reasoning]
    match textField "content" delta with
    | none => (events, toolCalls)
    | some content =>
      let events := events ++ if content = [] then [] else [ClientEvent.content content]
      match listField "tool_calls" delta with
      | none => (events, toolCalls)
      | some rawTools => (events, readTools toolCalls rawTools)

/-- A record: what is no JSON or has no delta says nothing. -/
def readRecord (toolCalls : ToolCalls) (record : Text) : List ClientEvent × ToolCalls :=
  match Json.loads record >>= deltaOf with
  | none => ([], toolCalls)
  | some delta => readDelta toolCalls delta

/-- The calls that have a name, in the order of their indices. -/
def collected (toolCalls : ToolCalls) : List ClientEvent :=
  (toolCalls.entries.mergeSort (fun a b => a.1 ≤ b.1)).filterMap fun entry =>
    if entry.2.name = [] then none else some (.toolCall entry.2)

/-- The lines of a response, read up to its end or to the record that ends it. -/
def readLinesFrom (toolCalls : ToolCalls) : List Text → List ClientEvent
  | [] => collected toolCalls
  | line :: more =>
    let line := line.strip
    if (Text.of "data: ").isPrefixOf line then
      let record := line.drop 6
      if record = Text.of "[DONE]" then collected toolCalls
      else (readRecord toolCalls record).1 ++ readLinesFrom (readRecord toolCalls record).2 more
    else readLinesFrom toolCalls more

/-- What the API answers. -/
inductive Reply where
  | refused (code : Nat) (body : Text)
  | stream (body : Text)

/-- What a call of the client yields, and the error it ends with if it raises. -/
structure Reading where
  events : List ClientEvent
  raised : Option Text
deriving DecidableEq

/-- `LLMClient.complete_stream_events` -/
def completeStreamEvents : Reply → Reading
  | .refused code body =>
    { events := []
      raised := some (Text.of "LLM HTTP " ++ Json.natText code ++ Text.of ": " ++ body.take 500) }
  | .stream body => { events := readLinesFrom .empty (body.splitOn 0x0A), raised := none }

end Exo.Agent
