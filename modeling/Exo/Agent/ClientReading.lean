import Exo.Agent.Client
import Exo.Api.ChatStream

/-!
# What the agent's client hears of a chat completion stream

Record by record: a token's text is yielded as it was generated, the tool calls of the one record
that has any are collected one to an index, and a record with an error has no choices and so says
nothing. The client has no other reason to raise, so the error is never noticed.
-/

namespace Exo.Agent

open Lib
open Chat (Chunk TokenChunk ToolCallItem Model WritesJson generateChatStream)

/-- The event of a token, if it has a text. -/
def tokenEvents (c : TokenChunk) : List ClientEvent :=
  if c.text = "" then []
  else if c.isThinking then [.reasoning (Text.of c.text)] else [.content (Text.of c.text)]

/-- A tool call as it was generated. -/
def generatedCall (tool : ToolCallItem) : CollectedCall where
  id := Text.of tool.id
  type := Text.of "function"
  name := Text.of tool.name
  arguments := Text.of tool.arguments

/-- A tool call as the client has it: without an id it gets one made from its index. -/
def heardCall (index : Nat) (tool : ToolCallItem) : CollectedCall :=
  { generatedCall tool with
    id := if tool.id = "" then Text.of "call_" ++ Json.natText index else Text.of tool.id }

/-- Without a name it is not heard at all. -/
def heardEvent (entry : ToolCallItem × Nat) : Option ClientEvent :=
  if entry.1.name = "" then none else some (.toolCall (heardCall entry.2 entry.1))

def heardCalls (tools : List ToolCallItem) : List ClientEvent := tools.zipIdx.filterMap heardEvent

/-- What the client yields: nothing behind the first chunk that ends the stream. -/
def heard : List Chunk → List ClientEvent
  | [] => []
  | .prefillProgress _ _ _ :: chunks => heard chunks
  | .error _ _ :: _ => []
  | .toolCalls _ tools _ _ :: _ => heardCalls tools
  | .token c :: chunks =>
    tokenEvents c ++ if c.finishReason = none then heard chunks else []

/-! ## Lines -/

theorem of_eq_nil {s : String} : Text.of s = [] ↔ s = "" := by
  rw [Text.of, List.map_eq_nil_iff, String.toList_eq_nil_iff]

/-- The events of a body, from a collection of tool calls on. -/
def readBody (toolCalls : ToolCalls) (body : Text) : List ClientEvent :=
  readLinesFrom toolCalls (body.splitOn 0x0A)

theorem readLinesFrom_skip (toolCalls : ToolCalls) {line : Text}
    (h : (Text.of "data: ").isPrefixOf line.strip = false) (more : List Text) :
    readLinesFrom toolCalls (line :: more) = readLinesFrom toolCalls more := by
  rw [readLinesFrom]
  simp only [h, Bool.false_eq_true, if_false]

/-- A line with a blank line behind it. -/
theorem readBody_line (toolCalls : ToolCalls) {line : Text} (h : 0x0A ∉ line) (rest : Text) :
    readBody toolCalls (line ++ Text.of "\n\n" ++ rest)
      = readLinesFrom toolCalls (line :: [] :: rest.splitOn 0x0A) := by
  have hshape : line ++ Text.of "\n\n" ++ rest = line ++ 0x0A :: ([] ++ 0x0A :: rest) := by
    simp [show Text.of "\n\n" = [0x0A, 0x0A] from rfl]
  rw [readBody, hshape, List.splitOn_append_cons_self_of_not_mem h,
    List.splitOn_append_cons_self_of_not_mem List.not_mem_nil]

section
variable {modelDumpJson : Model → Text} (hw : WritesJson modelDumpJson)
include hw

/-- A comment says nothing. -/
theorem readBody_comment (toolCalls : ToolCalls) {name : String} (hname : 0x0A ∉ Text.of name)
    (m : Model) (rest : Text) :
    readBody toolCalls (Chat.comment modelDumpJson name m ++ rest) = readBody toolCalls rest := by
  have hline : (0x0A : CodePoint) ∉
      Text.of ": " ++ Text.of name ++ Text.of " " ++ modelDumpJson m := by
    simp only [List.mem_append, not_or]
    exact ⟨⟨⟨by decide, hname⟩, by decide⟩, hw.oneLine m⟩
  obtain ⟨u, hu⟩ := Text.strip_cons (c := 58)
    (Text.of " " ++ Text.of name ++ Text.of " " ++ modelDumpJson m) (by decide)
  have hskip : (Text.of "data: ").isPrefixOf
      (Text.strip (Text.of ": " ++ Text.of name ++ Text.of " " ++ modelDumpJson m)) = false := by
    rw [show Text.of ": " ++ Text.of name ++ Text.of " " ++ modelDumpJson m
      = 58 :: (Text.of " " ++ Text.of name ++ Text.of " " ++ modelDumpJson m) from rfl, hu]
    rfl
  rw [Chat.comment, readBody_line toolCalls hline, readLinesFrom_skip toolCalls hskip,
    readLinesFrom_skip toolCalls rfl]
  rfl

omit hw in
/-- The line of a record: what is behind its lead ends with something. -/
theorem strip_data {t : Text} (ht : ∃ u d, t = u ++ [d] ∧ CodePoint.isSpace d = false) :
    Text.strip (Text.of "data: " ++ t) = Text.of "data: " ++ t := by
  obtain ⟨u, d, rfl, hd⟩ := ht
  rw [← List.append_assoc]
  exact Text.strip_eq_self (Text.of "ata: " ++ u) (by decide) hd

/-- A record is read. -/
theorem readBody_record (toolCalls : ToolCalls) (m : Model) (rest : Text) :
    readBody toolCalls (Chat.data (modelDumpJson m) ++ rest)
      = (readRecord toolCalls (modelDumpJson m)).1 ++
        readBody (readRecord toolCalls (modelDumpJson m)).2 rest := by
  have hline : (0x0A : CodePoint) ∉ Text.of "data: " ++ modelDumpJson m := by
    rw [List.mem_append, not_or]
    exact ⟨by decide, hw.oneLine m⟩
  have hstrip := strip_data (t := modelDumpJson m) (by
    obtain ⟨u, hu⟩ := hw.closed m
    exact ⟨u, 0x7D, hu, by decide⟩)
  have hlead : (Text.of "data: ").isPrefixOf (Text.of "data: " ++ modelDumpJson m) = true := rfl
  have hdrop : (Text.of "data: " ++ modelDumpJson m).drop 6 = modelDumpJson m := rfl
  have hdone : modelDumpJson m ≠ Text.of "[DONE]" := by
    intro he
    have hread := hw.loads m
    rw [he] at hread
    cases hread
  rw [Chat.data, readBody_line toolCalls hline, readLinesFrom]
  simp only [hstrip, hlead, hdrop, if_true, if_neg hdone]
  rw [readLinesFrom_skip _ rfl]
  rfl

omit hw in
/-- The last record ends the reading. -/
theorem readBody_done (toolCalls : ToolCalls) (rest : Text) :
    readBody toolCalls (Chat.data (Text.of "[DONE]") ++ rest) = collected toolCalls := by
  have hstrip := strip_data (t := Text.of "[DONE]") ⟨Text.of "[DONE", 93, rfl, by decide⟩
  have hlead : (Text.of "data: ").isPrefixOf (Text.of "data: " ++ Text.of "[DONE]") = true := rfl
  have hdrop : (Text.of "data: " ++ Text.of "[DONE]").drop 6 = Text.of "[DONE]" := rfl
  rw [Chat.data, readBody_line toolCalls (by decide), readLinesFrom]
  simp only [hstrip, hlead, hdrop, if_true]

theorem readBody_ending (toolCalls : ToolCalls) (stats : Option Chat.GenerationStats)
    (rest : Text) : readBody toolCalls ((Chat.ending modelDumpJson stats).flatten ++ rest)
      = collected toolCalls := by
  cases stats with
  | none => exact readBody_done toolCalls _
  | some s =>
      simp only [Chat.ending, Option.toList_some, List.map_cons, List.map_nil, List.cons_append,
        List.nil_append, List.flatten_cons, List.flatten_nil, List.append_assoc]
      rw [readBody_comment hw toolCalls (by decide), readBody_done]

/-! ## Records -/

theorem readRecord_model (toolCalls : ToolCalls) (m : Model) :
    readRecord toolCalls (modelDumpJson m) =
      match deltaOf m.json with
      | none => ([], toolCalls)
      | some delta => readDelta toolCalls delta := by
  rw [readRecord, hw.loads]
  rfl

/-- **The client takes an error for a record that says nothing.** -/
theorem readRecord_error (toolCalls : ToolCalls) (message : String) :
    readRecord toolCalls (modelDumpJson (.error message)) = ([], toolCalls) := by
  rw [readRecord_model hw]
  rfl

theorem readRecord_response (toolCalls : ToolCalls) (r : Chat.Response) :
    readRecord toolCalls (modelDumpJson (.response r)) = readDelta toolCalls r.delta.json := by
  have hdelta : deltaOf r.json = some r.delta.json := by
    obtain ⟨id, created, model, delta, logprobs, finishReason, usage⟩ := r
    cases usage <;> cases logprobs <;> cases finishReason <;> rfl
  rw [readRecord_model hw]
  simp only [Model.json, hdelta]

end

/-! ## Deltas -/

theorem textField_text {key : String} {j : Json} {s : String}
    (h : j.get? (Text.of key) = some (Chat.text s)) : textField key j = some (Text.of s) := by
  rw [textField, h, Chat.text]
  cases ht : Text.of s with
  | nil => rfl
  | cons c t => rfl

/-- A token's delta says what the token says. -/
theorem readDelta_token (toolCalls : ToolCalls) (c : TokenChunk) :
    readDelta toolCalls (if c.isThinking then { reasoningContent := some c.text }
      else { content := some c.text } : Chat.Delta).json = (tokenEvents c, toolCalls) := by
  rw [tokenEvents]
  cases c.isThinking with
  | true =>
      have hreasoning : textField "reasoning_content"
          (Chat.Delta.json { reasoningContent := some c.text }) = some (Text.of c.text) :=
        textField_text rfl
      have hcontent : textField "content" (Chat.Delta.json { reasoningContent := some c.text })
          = some [] := rfl
      have htools : listField "tool_calls" (Chat.Delta.json { reasoningContent := some c.text })
          = some [] := rfl
      simp only [if_true, readDelta, hreasoning, hcontent, htools, of_eq_nil, List.append_nil,
        readTools]
  | false =>
      have hcontent : textField "content" (Chat.Delta.json { content := some c.text })
          = some (Text.of c.text) := textField_text rfl
      have hreasoning : textField "reasoning_content" (Chat.Delta.json { content := some c.text })
          = some [] := rfl
      have htools : listField "tool_calls" (Chat.Delta.json { content := some c.text })
          = some [] := rfl
      simp only [Bool.false_eq_true, if_false, readDelta, hreasoning, hcontent, htools, of_eq_nil,
        if_true, List.nil_append, readTools]

/-- A tool call in its place in a record. -/
def toolJson (index : Nat) (tool : ToolCallItem) : Json :=
  Chat.ToolCall.json { id := tool.id, index, function := tool }

/-- A tool call under a new index is collected as it is heard. -/
theorem readTool_new (toolCalls : ToolCalls) {index : Nat} (h : index ∉ toolCalls.keys)
    (tool : ToolCallItem) : readTool toolCalls (toolJson index tool)
      = (toolCalls.set index (heardCall index tool), true) := by
  have hnew : toolCalls.get? index = none := by
    by_contra hsome
    exact h (Dict.mem_keys.2 (Option.isSome_iff_ne_none.mpr hsome))
  have hobject : isObject (toolJson index tool) = true := rfl
  have hindex : indexField "index" (toolJson index tool) = some index := by
    cases index <;> rfl
  have hid : textField "id" (toolJson index tool) = some (Text.of tool.id) := textField_text rfl
  have htype : textField "type" (toolJson index tool) = some (Text.of "function") := rfl
  have hfunction : objectField "function" (toolJson index tool) = some tool.json := rfl
  have hname : textField "name" tool.json = some (Text.of tool.name) := textField_text rfl
  have harguments : textField "arguments" tool.json = some (Text.of tool.arguments) :=
    textField_text rfl
  have hcurrent : currentCall toolCalls index (Text.of tool.id) (Text.of "function")
      = { heardCall index tool with name := [], arguments := [] } := by
    simp only [currentCall, hnew, Option.getD_none, heardCall, generatedCall, of_eq_nil]
    split
    · rfl
    · rfl
  rw [readTool, if_pos hobject]
  simp only [hindex, hid, htype, hfunction, hname, harguments, hcurrent, List.nil_append]
  rfl

/-- All tool calls of a record, from an index on that none of the collected ones reaches. -/
theorem readTools_new (toolCalls : ToolCalls) (tools : List ToolCallItem) (i : Nat)
    (h : ∀ k ∈ toolCalls.keys, k < i) :
    (readTools toolCalls ((tools.zipIdx i).map fun entry => toolJson entry.2 entry.1)).entries
      = toolCalls.entries ++
        (tools.zipIdx i).map fun entry => (entry.2, heardCall entry.2 entry.1) := by
  induction tools generalizing toolCalls i with
  | nil => simp [readTools]
  | cons tool tools ih =>
      have hnew : i ∉ toolCalls.keys := fun hi => absurd (h i hi) (Nat.lt_irrefl i)
      rw [List.zipIdx_cons, List.map_cons, List.map_cons, readTools, readTool_new toolCalls hnew,
        if_pos rfl, ih]
      · rw [Dict.entries_set_of_new hnew, List.append_assoc, List.singleton_append]
      · intro k hk
        rcases Dict.mem_keys_set.1 hk with hk | hk
        · omega
        · have := h k hk
          omega

/-- Calls collected in the order of their indices are handed on in it. -/
theorem collected_entries {toolCalls : ToolCalls} {tools : List ToolCallItem}
    (h : toolCalls.entries = tools.zipIdx.map fun entry => (entry.2, heardCall entry.2 entry.1)) :
    collected toolCalls = heardCalls tools := by
  have hsorted : (tools.zipIdx.map fun entry => (entry.2, heardCall entry.2 entry.1)).Pairwise
      (fun a b => decide (a.1 ≤ b.1) = true) := by
    have hrange := List.pairwise_le_range' (s := 0) (n := tools.length) 1
    rw [← List.zipIdx_map_snd, List.pairwise_map] at hrange
    rw [List.pairwise_map]
    exact hrange.imp fun hle => decide_eq_true hle
  rw [collected, h, List.mergeSort_of_pairwise hsorted, List.filterMap_map, heardCalls]
  refine List.filterMap_congr fun entry _ => ?_
  simp only [Function.comp_apply, heardEvent, heardCall, generatedCall, of_eq_nil]

theorem collected_empty : collected .empty = [] := by
  rw [collected, Dict.entries_empty, List.mergeSort_nil, List.filterMap_nil]

theorem readDelta_tools (tools : List ToolCallItem) :
    readDelta .empty (Chat.Delta.json { toolCalls := some (tools.mapIdx fun index tool =>
        { id := tool.id, index, function := tool }) })
      = ([], readTools .empty (tools.zipIdx.map fun entry => toolJson entry.2 entry.1)) := by
  have hreasoning : ∀ ts, textField "reasoning_content" (Chat.Delta.json { toolCalls := some ts })
      = some [] := fun _ => rfl
  have hcontent : ∀ ts, textField "content" (Chat.Delta.json { toolCalls := some ts })
      = some [] := fun _ => rfl
  have htools : ∀ ts, listField "tool_calls" (Chat.Delta.json { toolCalls := some ts })
      = some (ts.map Chat.ToolCall.json) := by
    intro ts
    cases ts <;> rfl
  simp only [readDelta, hreasoning, hcontent, htools, if_true, List.append_nil]
  rw [List.mapIdx_eq_zipIdx_map, List.map_map]
  rfl

/-- **What the client yields** of the stream of any chunks. -/
theorem readBody_generateChatStream {modelDumpJson : Model → Text} (hw : WritesJson modelDumpJson)
    (commandId : String) (now : Nat → Nat) (chunks : List Chunk) (i : Nat)
    (lastUsage : Option Chat.Usage) :
    readBody .empty (generateChatStream modelDumpJson commandId now i lastUsage chunks).flatten
      = heard chunks := by
  induction chunks generalizing i lastUsage with
  | nil => exact collected_empty
  | cons chunk chunks ih =>
      cases chunk with
      | prefillProgress model processedTokens totalTokens =>
          rw [generateChatStream, List.flatten_cons, readBody_comment hw _ (by decide), ih, heard]
      | error model errorMessage =>
          rw [generateChatStream, List.flatten_cons, readBody_record hw, readRecord_error hw,
            List.flatten_cons, readBody_done, collected_empty]
          rfl
      | toolCalls model tools usage stats =>
          have hentries := readTools_new .empty tools 0 fun k hk => absurd hk List.not_mem_nil
          have hending := readBody_ending hw (readTools .empty
            (tools.zipIdx.map fun entry => toolJson entry.2 entry.1)) stats []
          rw [List.append_nil] at hending
          rw [generateChatStream, List.flatten_cons, readBody_record hw, readRecord_response hw,
            readDelta_tools, hending, heard, collected_entries hentries]
          rfl
      | token c =>
          cases hfinish : c.finishReason with
          | none =>
              have hread : readRecord .empty (modelDumpJson (.response
                  (Chat.chunkToResponse commandId (now i) c))) = (tokenEvents c, .empty) := by
                rw [readRecord_response hw]
                exact readDelta_token .empty c
              rw [generateChatStream, hfinish]
              simp only [List.flatten_cons]
              rw [readBody_record hw, hread, ih, heard, if_pos hfinish]
          | some reason =>
              have hread : ∀ usage, readRecord .empty (modelDumpJson (.response
                  { Chat.chunkToResponse commandId (now i) c with usage := usage }))
                    = (tokenEvents c, .empty) := by
                intro usage
                rw [readRecord_response hw]
                exact readDelta_token .empty c
              have hending := readBody_ending hw .empty c.stats []
              rw [List.append_nil, collected_empty] at hending
              rw [generateChatStream, hfinish]
              simp only [List.flatten_cons]
              rw [readBody_record hw, hread, hending, heard, if_neg (by rw [hfinish]; exact nofun)]

end Exo.Agent
