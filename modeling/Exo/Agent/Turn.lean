import Exo.Agent.ClientReading
import Exo.Lib.JsonLines

/-!
# A turn of the agent

`stream_prepared_turn` asks for one generation after the other as long as the client hears tool
calls in them, up to a bound. What the client raises ends the turn with an error; otherwise what
was heard is recorded as the reply.

Not modelled: the messages a turn sends along and the arguments of its tools, which only the model
and the tools read; the slot it waits for; how often it persists before its end.
-/

namespace Exo.Agent

open Lib
open Chat (Chunk ToolCallItem Model WritesJson generateChatStream)

/-- What the API makes of a request: a refusal, or chunks. -/
inductive Generation where
  | refused (code : Nat) (body : Text)
  | stream (commandId : String) (now : Nat → Nat) (chunks : List Chunk)

def Generation.reply (modelDumpJson : Model → Text) : Generation → Reply
  | .refused code body => .refused code body
  | .stream commandId now chunks =>
    .stream (generateChatStream modelDumpJson commandId now 0 none chunks).flatten

inductive TurnEvent where
  | reasoning (delta : Text)
  | content (delta : Text)
  | tool (name : Text) (ok : Bool)
  | error (message : Text)

/-- The events of a turn, and the assistant's message as it is persisted at its end. -/
structure Turn where
  events : List TurnEvent
  content : Text
  reasoning : Option Text

def contentOf (events : List ClientEvent) : Text :=
  events.flatMap fun
    | .content delta => delta
    | _ => []

def reasoningOf (events : List ClientEvent) : Text :=
  events.flatMap fun
    | .reasoning delta => delta
    | _ => []

def toolCallsOf (events : List ClientEvent) : List CollectedCall :=
  events.filterMap fun
    | .toolCall call => some call
    | _ => none

/-- The deltas, as they are passed on. -/
def passedOn (events : List ClientEvent) : List TurnEvent :=
  events.filterMap fun
    | .reasoning delta => some (.reasoning delta)
    | .content delta => some (.content delta)
    | .toolCall _ => none

section
variable (modelDumpJson : Model → Text) (generation : Nat → Generation)
  (toolOk : Nat → CollectedCall → Bool)

/-- The rounds from the `i`-th on, `more` of them behind it at most. -/
def roundsFrom : Nat → Nat → Text → Text → Turn
  | more, i, content, reasoning =>
    let reading := completeStreamEvents ((generation i).reply modelDumpJson)
    let content := content ++ contentOf reading.events
    let reasoning := reasoning ++ reasoningOf reading.events
    let events := passedOn reading.events
    match reading.raised with
    | some error =>
      let message := if error.take 1000 = [] then Text.of "RuntimeError" else error.take 1000
      { events := events ++ [.error message]
        content := if content = [] then Text.of "오류: " ++ message else content
        reasoning := if reasoning = [] then none else some reasoning }
    | none =>
      let toolCalls := toolCallsOf reading.events
      if toolCalls = [] then
        { events, content, reasoning := if reasoning = [] then none else some reasoning }
      else
        match more with
        | 0 =>
          { events
            content := content ++ Text.of "\n\n도구 호출 한도에 도달해 작업을 중단했습니다."
            reasoning := if reasoning = [] then none else some reasoning }
        | more + 1 =>
          let turn := roundsFrom more (i + 1) content reasoning
          { turn with
            events := events ++ toolCalls.map (fun call => .tool call.name (toolOk i call)) ++
              turn.events }
termination_by structural more => more

/-- `AgentRunner.stream_prepared_turn` -/
def streamPreparedTurn (maxToolRounds : Nat) : Turn :=
  roundsFrom modelDumpJson generation toolOk maxToolRounds 0 [] []

end

/-! ## What the API says and what the client makes of it -/

/-- The texts of all tokens of a generation. -/
def deltas (chunks : List Chunk) : List ClientEvent :=
  chunks.flatMap fun
    | .token c => tokenEvents c
    | _ => []

/-- All tool calls of a generation. -/
def calls (chunks : List Chunk) : List ClientEvent :=
  chunks.flatMap fun
    | .toolCalls _ tools _ _ => tools.map fun tool => .toolCall (generatedCall tool)
    | _ => []

def EndsInError (chunks : List Chunk) : Prop :=
  ∃ model message, chunks.getLast? = some (.error model message)

/-- The client tells what was generated, and raises exactly if that ended in an error. -/
structure Decodes (chunks : List Chunk) (reading : Reading) : Prop where
  events : reading.events = deltas chunks ++ calls chunks
  raised : reading.raised.isSome ↔ EndsInError chunks

def Chunk.Silent : Chunk → Prop
  | .token c => c.text = ""
  | .toolCalls _ tools _ _ => tools = []
  | _ => True

/-- A tool call the client has as it was generated. -/
def Complete (tool : ToolCallItem) : Prop := tool.name ≠ "" ∧ tool.id ≠ ""

/-- Nothing is said behind the first chunk that ends the stream, and every tool call is complete. -/
def EndsWithItsEnd : List Chunk → Prop
  | [] => True
  | .prefillProgress _ _ _ :: chunks => EndsWithItsEnd chunks
  | .error _ _ :: chunks => ∀ chunk ∈ chunks, Chunk.Silent chunk
  | .toolCalls _ tools _ _ :: chunks =>
    (∀ tool ∈ tools, Complete tool) ∧ ∀ chunk ∈ chunks, Chunk.Silent chunk
  | .token c :: chunks =>
    if c.finishReason = none then EndsWithItsEnd chunks
    else ∀ chunk ∈ chunks, Chunk.Silent chunk

variable (chunks : List Chunk)

theorem silent_iff :
    deltas chunks ++ calls chunks = [] ↔ ∀ chunk ∈ chunks, Chunk.Silent chunk := by
  rw [List.append_eq_nil_iff, deltas, calls, List.flatMap_eq_nil_iff, List.flatMap_eq_nil_iff,
    ← forall₂_and]
  refine forall₂_congr fun chunk _ => ?_
  cases chunk with
  | token c =>
      simp only [tokenEvents, Chunk.Silent, and_true]
      by_cases hc : c.text = ""
      · simp [hc]
      · cases c.isThinking <;> simp [hc]
  | toolCalls model tools usage stats => simp [Chunk.Silent]
  | error model message => simp [Chunk.Silent]
  | prefillProgress model processedTokens totalTokens => simp [Chunk.Silent]

theorem heardCall_eq_iff (index : Nat) (tool : ToolCallItem) :
    heardCall index tool = generatedCall tool ↔ tool.id ≠ "" := by
  by_cases hid : tool.id = ""
  · simp only [hid, ne_eq, not_true, iff_false, heardCall, generatedCall, if_true]
    intro he
    exact absurd (CollectedCall.mk.inj he).1 (by simp [Text.of])
  · simp [heardCall, generatedCall, hid]

variable (tools : List ToolCallItem)

theorem heardCalls_length_le (i : Nat) :
    ((tools.zipIdx i).filterMap heardEvent).length ≤ tools.length := by
  refine (List.length_filterMap_le _ _).trans ?_
  rw [List.length_zipIdx]

variable {tool : ToolCallItem}

theorem heardEvent_unnamed (h : tool.name = "") (i : Nat) :
    heardEvent (tool, i) = none := if_pos h

theorem heardEvent_named (h : tool.name ≠ "") (i : Nat) :
    heardEvent (tool, i) = some (.toolCall (heardCall i tool)) := if_neg h

theorem heardCalls_eq_iff (i : Nat) :
    (tools.zipIdx i).filterMap heardEvent
      = (tools.map fun tool => ClientEvent.toolCall (generatedCall tool)) ↔
    ∀ tool ∈ tools, Complete tool := by
  induction tools generalizing i with
  | nil => simp
  | cons tool tools ih =>
      rw [List.zipIdx_cons, List.forall_mem_cons, List.map_cons]
      by_cases hname : tool.name = ""
      · have hlen := heardCalls_length_le tools (i + 1)
        rw [List.filterMap_cons_none (heardEvent_unnamed hname i)]
        refine ⟨fun he => ?_, fun h => absurd hname h.1.1⟩
        rw [he, List.length_cons, List.length_map] at hlen
        omega
      · rw [List.filterMap_cons_some (heardEvent_named hname i), List.cons.injEq,
          ClientEvent.toolCall.injEq, heardCall_eq_iff, ih, Complete, and_iff_right hname]

/-- **All that is said is heard** exactly if nothing is said after the end, or without a name. -/
theorem heard_eq_iff :
    heard chunks = deltas chunks ++ calls chunks ↔ EndsWithItsEnd chunks := by
  induction chunks with
  | nil => exact iff_of_true rfl trivial
  | cons chunk chunks ih =>
      cases chunk with
      | prefillProgress model processedTokens totalTokens => exact ih
      | error model message =>
          rw [EndsWithItsEnd, ← silent_iff]
          exact eq_comm
      | toolCalls model tools usage stats =>
          have hcalls : calls (.toolCalls model tools usage stats :: chunks)
              = (tools.map fun tool => .toolCall (generatedCall tool)) ++ calls chunks := rfl
          have hdeltas : deltas (.toolCalls model tools usage stats :: chunks) = deltas chunks := rfl
          have hlen := heardCalls_length_le tools 0
          rw [EndsWithItsEnd, ← silent_iff, ← heardCalls_eq_iff tools 0, hcalls, hdeltas]
          constructor
          · intro h
            -- the calls that are heard are no more than the record's own
            have hall := congrArg List.length h
            simp only [heard, heardCalls, List.length_append, List.length_map] at hall
            have hdelta : deltas chunks = [] := List.length_eq_zero_iff.mp (by omega)
            have hcall : calls chunks = [] := List.length_eq_zero_iff.mp (by omega)
            rw [hdelta, hcall, List.nil_append, List.append_nil] at h
            exact ⟨h, by rw [hdelta, hcall]; rfl⟩
          · rintro ⟨htools, hrest⟩
            obtain ⟨hdelta, hcall⟩ := List.append_eq_nil_iff.mp hrest
            rw [hdelta, hcall, List.nil_append, List.append_nil]
            exact htools
      | token c =>
          have hdeltas : deltas (.token c :: chunks) ++ calls (.token c :: chunks)
              = tokenEvents c ++ (deltas chunks ++ calls chunks) := List.append_assoc _ _ _
          rw [heard, hdeltas, List.append_cancel_left_eq, EndsWithItsEnd]
          by_cases hfinish : c.finishReason = none
          · rw [if_pos hfinish, if_pos hfinish]
            exact ih
          · rw [if_neg hfinish, if_neg hfinish, ← silent_iff]
            exact eq_comm

variable {modelDumpJson : Model → Text}

/-- A stream is read to its end, whatever it says. -/
theorem completeStreamEvents_stream
    (hw : WritesJson modelDumpJson) (commandId : String) (now : Nat → Nat) (chunks : List Chunk) :
    completeStreamEvents ((Generation.stream commandId now chunks).reply modelDumpJson)
      = { events := heard chunks, raised := none } := by
  rw [Generation.reply, completeStreamEvents]
  exact congrArg (Reading.mk · none)
    (readBody_generateChatStream hw commandId now chunks 0 none)

theorem decodes_iff (hw : WritesJson modelDumpJson)
    (commandId : String) (now : Nat → Nat) (chunks : List Chunk) :
    Decodes chunks (completeStreamEvents
      ((Generation.stream commandId now chunks).reply modelDumpJson)) ↔
    ¬ EndsInError chunks ∧ EndsWithItsEnd chunks := by
  rw [completeStreamEvents_stream hw, ← heard_eq_iff]
  constructor
  · intro h
    exact ⟨fun he => absurd (h.raised.mpr he) (by simp), h.events⟩
  · rintro ⟨herror, hevents⟩
    exact ⟨hevents, iff_of_false (by simp) herror⟩

/-! ## Turns -/

def Generation.Failed : Generation → Prop
  | .refused _ _ => False
  | .stream _ _ chunks => EndsInError chunks

def Generation.isRefused : Generation → Bool
  | .refused _ _ => true
  | .stream _ _ _ => false

/-- The stream of these chunks ends with a tool call that has a name. -/
def asksForTools : List Chunk → Bool
  | [] => false
  | .prefillProgress _ _ _ :: chunks => asksForTools chunks
  | .error _ _ :: _ => false
  | .toolCalls _ tools _ _ :: _ => tools.any fun tool => tool.name ≠ ""
  | .token c :: chunks => c.finishReason = none && asksForTools chunks

def Generation.asksForTools : Generation → Bool
  | .refused _ _ => false
  | .stream _ _ chunks => Agent.asksForTools chunks

/-- The turn comes to its `k`-th generation: all before it ask for tools. -/
def Reached (generation : Nat → Generation) (maxToolRounds k : Nat) : Prop :=
  k ≤ maxToolRounds ∧ ∀ j < k, (generation j).asksForTools = true

def Turn.ReportsError (turn : Turn) : Prop := ∃ message, .error message ∈ turn.events

theorem toolCallsOf_append (es es' : List ClientEvent) :
    toolCallsOf (es ++ es') = toolCallsOf es ++ toolCallsOf es' := List.filterMap_append

theorem toolCallsOf_tokenEvents (c : Chat.TokenChunk) : toolCallsOf (tokenEvents c) = [] := by
  rw [tokenEvents]
  split
  · rfl
  · split <;> rfl

theorem toolCallsOf_heardCalls (i : Nat) :
    toolCallsOf ((tools.zipIdx i).filterMap heardEvent) ≠ [] ↔
      (tools.any fun tool => tool.name ≠ "") = true := by
  induction tools generalizing i with
  | nil => exact iff_of_false (fun h => h rfl) (by simp)
  | cons tool tools ih =>
      rw [List.zipIdx_cons, List.any_cons]
      by_cases hname : tool.name = ""
      · rw [List.filterMap_cons_none (heardEvent_unnamed hname i), ih]
        simp [hname]
      · rw [List.filterMap_cons_some (heardEvent_named hname i)]
        exact iff_of_true (List.cons_ne_nil _ _) (by simp [hname])

/-- Tools are called exactly if the stream ends with a call that has a name. -/
theorem toolCallsOf_heard :
    toolCallsOf (heard chunks) ≠ [] ↔ asksForTools chunks = true := by
  induction chunks with
  | nil => exact iff_of_false (fun h => h rfl) (by simp [asksForTools])
  | cons chunk chunks ih =>
      cases chunk with
      | prefillProgress model processedTokens totalTokens => exact ih
      | error model message => exact iff_of_false (fun h => h rfl) (by simp [asksForTools])
      | toolCalls model tools usage stats =>
          rw [heard, heardCalls, toolCallsOf_heardCalls, asksForTools]
      | token c =>
          rw [heard, toolCallsOf_append, toolCallsOf_tokenEvents, List.nil_append, asksForTools]
          by_cases hfinish : c.finishReason = none
          · rw [if_pos hfinish, ih]
            simp [hfinish]
          · rw [if_neg hfinish]
            exact iff_of_false (fun h => h rfl) (by simp [hfinish])

/-- What one generation makes of the turn, and whether the turn goes on to the next. -/
theorem reading_cases (hw : WritesJson modelDumpJson)
    (g : Generation) :
    (g.isRefused = true ∧ ∃ error,
      (completeStreamEvents (g.reply modelDumpJson)).raised = some error) ∨
    (g.isRefused = false ∧ (completeStreamEvents (g.reply modelDumpJson)).raised = none ∧
      (toolCallsOf (completeStreamEvents (g.reply modelDumpJson)).events ≠ [] ↔
        g.asksForTools = true)) := by
  cases g with
  | refused code body => exact Or.inl ⟨rfl, _, rfl⟩
  | stream commandId now chunks =>
      rw [completeStreamEvents_stream hw]
      exact Or.inr ⟨rfl, rfl, toolCallsOf_heard chunks⟩

theorem not_error_passedOn (events : List ClientEvent) (message : Text) :
    TurnEvent.error message ∉ passedOn events := by
  intro h
  obtain ⟨event, -, he⟩ := List.mem_filterMap.mp h
  cases event <;> cases he

variable {toolOk : Nat → CollectedCall → Bool}

variable {generation : Nat → Generation}

/-- A round that is refused reports it. -/
theorem roundsFrom_raised
    {i : Nat} {error : Text}
    (h : (completeStreamEvents ((generation i).reply modelDumpJson)).raised = some error)
    (more : Nat) (content reasoning : Text) :
    (roundsFrom modelDumpJson generation toolOk more i content reasoning).ReportsError := by
  rw [roundsFrom]
  simp only [h]
  exact ⟨_, List.mem_append_right _ List.mem_cons_self⟩

/-- A round in which no tool is called is the last one, and so is a round with no other behind it. -/
theorem roundsFrom_last
    {more i : Nat}
    (h : (completeStreamEvents ((generation i).reply modelDumpJson)).raised = none)
    (hlast : toolCallsOf (completeStreamEvents ((generation i).reply modelDumpJson)).events = [] ∨
      more = 0) (content reasoning : Text) :
    ¬ (roundsFrom modelDumpJson generation toolOk more i content reasoning).ReportsError := by
  rw [roundsFrom]
  simp only [h]
  split
  · exact fun ⟨message, hm⟩ => not_error_passedOn _ message hm
  · next htools =>
      obtain rfl := hlast.resolve_left htools
      exact fun ⟨message, hm⟩ => not_error_passedOn _ message hm

/-- After a round in which tools are called the next one decides. -/
theorem roundsFrom_next
    {i : Nat}
    (h : (completeStreamEvents ((generation i).reply modelDumpJson)).raised = none)
    (htools : toolCallsOf (completeStreamEvents ((generation i).reply modelDumpJson)).events ≠ [])
    (more : Nat) (content reasoning : Text) :
    (roundsFrom modelDumpJson generation toolOk (more + 1) i content reasoning).ReportsError ↔
      (roundsFrom modelDumpJson generation toolOk more (i + 1)
        (content ++ contentOf (completeStreamEvents ((generation i).reply modelDumpJson)).events)
        (reasoning ++ reasoningOf (completeStreamEvents
          ((generation i).reply modelDumpJson)).events)).ReportsError := by
  rw [roundsFrom]
  simp only [h, if_neg htools]
  refine exists_congr fun message => ?_
  simp only [List.mem_append, List.mem_map, reduceCtorEq, and_false, exists_false, or_false]
  exact or_iff_right (not_error_passedOn _ message)

/-- **An error is reported** exactly if a generation the rounds come to was refused. -/
theorem roundsFrom_reports (hw : WritesJson modelDumpJson)
    (generation : Nat → Generation) (toolOk : Nat → CollectedCall → Bool) (more i : Nat)
    (content reasoning : Text) :
    (roundsFrom modelDumpJson generation toolOk more i content reasoning).ReportsError ↔
      ∃ k, Reached (fun j => generation (i + j)) more k ∧ (generation (i + k)).isRefused = true := by
  induction more generalizing i content reasoning with
  | zero =>
      rcases reading_cases hw (generation i) with ⟨hrefused, error, hraised⟩ | ⟨hnot, hraised, -⟩
      · exact iff_of_true (roundsFrom_raised hraised 0 content reasoning)
          ⟨0, ⟨Nat.le_refl 0, fun j hj => absurd hj (Nat.not_lt_zero j)⟩, hrefused⟩
      · refine iff_of_false (roundsFrom_last hraised (Or.inr rfl) content reasoning) ?_
        rintro ⟨k, ⟨hk, -⟩, hrefused⟩
        obtain rfl := Nat.le_zero.mp hk
        rw [Nat.add_zero, hnot] at hrefused
        cases hrefused
  | succ more ih =>
      rcases reading_cases hw (generation i) with ⟨hrefused, error, hraised⟩ | ⟨hnot, hraised, hasks⟩
      · exact iff_of_true (roundsFrom_raised hraised _ content reasoning)
          ⟨0, ⟨Nat.zero_le _, fun j hj => absurd hj (Nat.not_lt_zero j)⟩, hrefused⟩
      by_cases htools :
          toolCallsOf (completeStreamEvents ((generation i).reply modelDumpJson)).events = []
      · refine iff_of_false (roundsFrom_last hraised (Or.inl htools) content reasoning) ?_
        rintro ⟨k, ⟨-, hbefore⟩, hrefused⟩
        cases k with
        | zero => rw [Nat.add_zero, hnot] at hrefused; cases hrefused
        | succ k => exact hasks.mpr (hbefore 0 (Nat.succ_pos k)) htools
      · rw [roundsFrom_next hraised htools, ih]
        -- the `k`-th generation of the rest is the one after it of the whole
        constructor
        · rintro ⟨k, ⟨hk, hbefore⟩, hrefused⟩
          refine ⟨k + 1, ⟨Nat.succ_le_succ hk, fun j hj => ?_⟩, ?_⟩
          · cases j with
            | zero => exact hasks.mp htools
            | succ j =>
                have hasked : (generation (i + 1 + j)).asksForTools = true :=
                  hbefore j (Nat.lt_of_succ_lt_succ hj)
                rwa [Nat.add_right_comm i 1 j] at hasked
          · rwa [Nat.add_right_comm i 1 k] at hrefused
        · rintro ⟨k, ⟨hk, hbefore⟩, hrefused⟩
          cases k with
          | zero => rw [Nat.add_zero, hnot] at hrefused; cases hrefused
          | succ k =>
              refine ⟨k, ⟨Nat.le_of_succ_le_succ hk, fun j hj => ?_⟩, ?_⟩
              · have hasked : (generation (i + j + 1)).asksForTools = true :=
                  hbefore (j + 1) (Nat.succ_lt_succ hj)
                rwa [← Nat.add_right_comm i 1 j] at hasked
              · rwa [Nat.add_right_comm i 1 k]

/-- No turn that comes to a generation that ended in an error is recorded as a reply. -/
def NeverRecordsFailed (generation : Nat → Generation) (maxToolRounds : Nat) (turn : Turn) : Prop :=
  (∃ k, Reached generation maxToolRounds k ∧ (generation k).Failed) → turn.ReportsError

/--
**The client decodes what the API encodes** exactly if the chunks do not end in an error, say
nothing behind the first one that ends the stream, and give every tool call a name and an id; and
**the agent reports a failed generation** exactly if its turn comes to none, or to a refused one.
-/
theorem clientDecodes_iff {modelDumpJson : Model → Text} (hw : WritesJson modelDumpJson) :
    (∀ commandId now chunks, Decodes chunks (completeStreamEvents
        ((Generation.stream commandId now chunks).reply modelDumpJson)) ↔
      ¬ EndsInError chunks ∧ EndsWithItsEnd chunks) ∧
    ∀ generation toolOk maxToolRounds, NeverRecordsFailed generation maxToolRounds
        (streamPreparedTurn modelDumpJson generation toolOk maxToolRounds) ↔
      (∀ k, Reached generation maxToolRounds k → ¬ (generation k).Failed) ∨
        ∃ k, Reached generation maxToolRounds k ∧ (generation k).isRefused = true := by
  refine ⟨fun commandId now chunks => decodes_iff hw commandId now chunks,
    fun generation toolOk maxToolRounds => ?_⟩
  have hreports := roundsFrom_reports hw generation toolOk maxToolRounds 0 [] []
  simp only [Nat.zero_add] at hreports
  rw [NeverRecordsFailed, streamPreparedTurn, hreports, imp_iff_not_or]
  refine or_congr ?_ Iff.rfl
  exact ⟨fun h k hk hf => h ⟨k, hk, hf⟩, fun h ⟨k, hk, hf⟩ => h k hk hf⟩

/-- The plain way to write a model down: what it says, without white space. -/
def compactJson (m : Model) : Text := Json.dumps ⟨0, 0⟩ m.json

theorem compactJson_writes : WritesJson compactJson where
  loads m := Json.loads_dumps _ _
  oneLine m h := absurd (Json.dumps_printable ⟨0, 0⟩ m.json _ h) (by decide)
  closed m := by
    obtain ⟨members, hobject⟩ : ∃ members, m.json = .obj members := by
      cases m <;> exact ⟨_, rfl⟩
    obtain ⟨t, ht⟩ := Json.joined_closed ⟨0, 0⟩ 125 (Json.dumpMembers ⟨0, 0⟩ members)
    exact ⟨123 :: t, by rw [compactJson, hobject, Json.dumps, ht]; rfl⟩

def hello : List Chunk :=
  [.token
    { model := "m", text := "hello", usage := none, finishReason := some .stop, stats := none
      logprob := none, topLogprobs := none, isThinking := false }]

theorem clientDecodes_hello :
    Decodes hello (completeStreamEvents
      ((Generation.stream "c" (fun _ => 0) hello).reply compactJson)) :=
  ((clientDecodes_iff compactJson_writes).1 "c" (fun _ => 0) hello).mpr
    ⟨fun ⟨_, _, he⟩ => absurd he nofun, fun _ h => absurd h List.not_mem_nil⟩

/-- An error alone is enough: the client ends as if nothing had been generated. -/
theorem not_forall_decodes :
    ¬ ∀ modelDumpJson, WritesJson modelDumpJson → ∀ commandId now chunks,
      Decodes chunks (completeStreamEvents
        ((Generation.stream commandId now chunks).reply modelDumpJson)) := by
  intro h
  have hdecodes := h compactJson compactJson_writes "c" (fun _ => 0) [.error "m" "out of memory"]
  exact ((decodes_iff compactJson_writes "c" (fun _ => 0) _).mp hdecodes).1 ⟨_, _, rfl⟩

end Exo.Agent
