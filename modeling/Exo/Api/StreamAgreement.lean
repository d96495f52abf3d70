import Exo.Api.Ollama

/-!
# Streams and answers in one piece

Both read the chunks of a generation up to the first that finishes it. Up to there every stream has
one record that is not done for each token, and who collects has the same texts. So all depends on the
chunk that finishes: a token of thinking is never done at the Ollama endpoints; their tool calls come
with all of the thinking once more, or with another reason.
-/

namespace Exo.Chat

open Lib

/-- What says text and thinking among the chunks. -/
def Chunk.said : Chunk → Option String
  | .token c => if c.isThinking then none else some c.text
  | _ => none

def Chunk.thought : Chunk → Option String
  | .token c => if c.isThinking then some c.text else none
  | _ => none

/-- The usage that was seen last. -/
def lastUsage (usage : Option Usage) : List Chunk → Option Usage
  | [] => usage
  | .token c :: chunks => lastUsage (c.usage.or usage) chunks
  | _ :: chunks => lastUsage usage chunks

/-- Those that do not finish. -/
def Unfinished (chunks : List Chunk) : Prop := ∀ c ∈ chunks, c.finishes = false

variable {γ ε : Type} {before : List Chunk} {last : Chunk}

theorem Unfinished.tail {c : Chunk} (h : Unfinished (c :: before)) : Unfinished before :=
  fun d hd => h d (List.mem_cons_of_mem c hd)

variable {c : TokenChunk}

theorem Unfinished.token (h : Unfinished (.token c :: before)) :
    c.finishReason = none :=
  Option.isSome_eq_false_iff.mp (h (.token c) List.mem_cons_self) |> Option.isNone_iff_eq_none.mp

/-! ## Before the chunk that finishes -/

/-- A fragment for a token is its text or its thought, and does not end anything. -/
structure IsDelta (delta : TokenChunk → Fragment γ ε) : Prop where
  finish : ∀ c, (delta c).finish = none
  toolCalls : ∀ c, (delta c).toolCalls = []
  text : ∀ c, (delta c).text.getD "" = (Chunk.said (.token c)).getD ""
  thinking : ∀ c, (delta c).thinking = Chunk.thought (.token c)

/-- The fragments of the tokens. -/
def deltas (delta : TokenChunk → Fragment γ ε) (chunks : List Chunk) : List (Fragment γ ε) :=
  chunks.filterMap fun
    | .token c => some (delta c)
    | _ => none

theorem deltas_token (delta : TokenChunk → Fragment γ ε) (c : TokenChunk) (chunks : List Chunk) :
    deltas delta (.token c :: chunks) = delta c :: deltas delta chunks := rfl

theorem join_filterMap {α : Type} (f : α → Option String) (l : List α) :
    String.join (l.filterMap f) = String.join (l.map fun a => (f a).getD "") := by
  induction l with
  | nil => rfl
  | cons a l ih =>
      rw [List.filterMap_cons, List.map_cons, String.join_cons, ← ih]
      cases f a with
      | none => rw [Option.getD_none, String.empty_append]
      | some s => rw [String.join_cons, Option.getD_some]

variable {delta : TokenChunk → Fragment γ ε}

theorem join_deltas (h : IsDelta delta) (chunks : List Chunk) :
    String.join ((deltas delta chunks).filterMap (·.text)) = String.join (chunks.filterMap Chunk.said) := by
  induction chunks with
  | nil => rfl
  | cons chunk chunks ih =>
      cases chunk with
      | token c =>
          rw [join_filterMap, join_filterMap] at ih ⊢
          rw [deltas, List.filterMap_cons, List.map_cons, List.map_cons, String.join_cons,
            String.join_cons, h.text]
          exact congrArg _ ih
      | prefillProgress | error | toolCalls => exact ih

theorem thinking_deltas (h : IsDelta delta)
    (chunks : List Chunk) :
    (deltas delta chunks).filterMap (·.thinking) = chunks.filterMap Chunk.thought := by
  rw [deltas, List.filterMap_filterMap]
  refine List.filterMap_congr fun chunk _ => ?_
  cases chunk with
  | token c => exact h.thinking c
  | prefillProgress | error | toolCalls => rfl

/-- The fragments of tokens are all alike. -/
theorem forall_mem_deltas {P : Fragment γ ε → Prop}
    (h : ∀ c, P (delta c)) (chunks : List Chunk) : ∀ f ∈ deltas delta chunks, P f := by
  intro f hf
  obtain ⟨chunk, -, hchunk⟩ := List.mem_filterMap.mp hf
  cases chunk with
  | token c =>
      obtain rfl := Option.some.inj hchunk
      exact h c
  | prefillProgress | error | toolCalls => cases hchunk

/-- What a client has when one more fragment has come. -/
theorem accumulate_deltas (h : IsDelta delta)
    (chunks : List Chunk) (f : Fragment γ ε) (ending : ε) :
    Fragment.accumulate (deltas delta chunks ++ [f]) ending
      = { text := String.join (chunks.filterMap Chunk.said) ++ f.text.getD ""
          thinking := joinParts (chunks.filterMap Chunk.thought ++ f.thinking.toList)
          toolCalls := f.toolCalls
          ending } := by
  have htext : String.join ((deltas delta chunks ++ [f]).filterMap (·.text))
      = String.join (chunks.filterMap Chunk.said) ++ f.text.getD "" := by
    rw [List.filterMap_append, String.join_append, join_deltas h]
    cases hf : f.text <;> simp [hf]
  have hthinking : (deltas delta chunks ++ [f]).filterMap (·.thinking)
      = chunks.filterMap Chunk.thought ++ f.thinking.toList := by
    rw [List.filterMap_append, thinking_deltas h]
    cases hf : f.thinking <;> simp [hf]
  have htools : (deltas delta chunks ++ [f]).flatMap (·.toolCalls) = f.toolCalls := by
    rw [List.flatMap_append, List.flatMap_eq_nil_iff.mpr (forall_mem_deltas h.toolCalls chunks)]
    simp
  rw [Fragment.accumulate, htext, hthinking, htools]

/-! ## Chat completions -/

def chatDelta (c : TokenChunk) : Fragment ToolCall ChatEnding :=
  if c.isThinking then { thinking := some c.text } else { text := some c.text }

theorem chatDelta_isDelta : IsDelta chatDelta where
  finish := fun c => by unfold chatDelta; split <;> rfl
  toolCalls := fun c => by unfold chatDelta; split <;> rfl
  text := fun c => by unfold chatDelta Chunk.said; split <;> simp [*]
  thinking := fun c => by unfold chatDelta Chunk.thought; split <;> simp [*]

variable (commandId : String)

theorem chatFragmentsFrom_token (now : Nat → Nat) (i : Nat)
    (usage : Option Usage) (h : c.finishReason = none) (chunks : List Chunk) :
    chatFragmentsFrom commandId now i usage (.token c :: chunks)
      = chatDelta c :: chatFragmentsFrom commandId now (i + 1) (c.usage.or usage) chunks := by
  have hfragment : (Model.response (chunkToResponse commandId (now i) c)).fragment = chatDelta c := by
    simp only [Model.fragment, chunkToResponse, chatDelta, h]
    cases c.isThinking <;> rfl
  rw [chatFragmentsFrom, chatEvents, h, ← hfragment]
  rfl

theorem chatFragmentsFrom_append (now : Nat → Nat) (h : Unfinished before)
    (i : Nat) (usage : Option Usage) :
    chatFragmentsFrom commandId now i usage (before ++ [last]) = deltas chatDelta before
      ++ chatFragmentsFrom commandId now (i + before.length) (lastUsage usage before) [last] := by
  induction before generalizing i usage with
  | nil => rfl
  | cons chunk before ih =>
      have hnext : i + (chunk :: before).length = i + 1 + before.length := by
        rw [List.length_cons]
        omega
      rw [hnext]
      cases chunk with
      | token c =>
          rw [List.cons_append, chatFragmentsFrom_token commandId now i usage h.token,
            ih h.tail (i + 1) (c.usage.or usage)]
          rfl
      | prefillProgress model processedTokens totalTokens => exact ih h.tail (i + 1) usage
      | error model errorMessage => cases h _ List.mem_cons_self
      | toolCalls model toolCalls usage stats => cases h _ List.mem_cons_self

/-- What `collect_chat_response` has behind chunks that do not finish. -/
structure Gathered (p : ChatParts) (chunks : List Chunk) (q : ChatParts) : Prop where
  textParts : q.textParts = p.textParts ++ chunks.filterMap Chunk.said
  thinkingParts : q.thinkingParts = p.thinkingParts ++ chunks.filterMap Chunk.thought
  toolCalls : q.toolCalls = p.toolCalls
  errorMessage : q.errorMessage = p.errorMessage
  lastUsage : q.lastUsage = lastUsage p.lastUsage chunks

theorem exists_gathered (last : Chunk) (h : Unfinished before) (p : ChatParts) :
    ∃ q, p.collect (before ++ [last]) = q.collect [last] ∧ Gathered p before q := by
  induction before generalizing p with
  | nil => exact ⟨p, rfl, by rw [List.filterMap_nil, List.append_nil], by simp, rfl, rfl, rfl⟩
  | cons chunk before ih =>
      cases chunk with
      | token c =>
          obtain ⟨q, hq, hgathered⟩ := ih h.tail (p.add (.token c))
          refine ⟨q, hq, ?_, ?_, hgathered.toolCalls, hgathered.errorMessage, hgathered.lastUsage⟩
          · rw [hgathered.textParts]
            unfold ChatParts.add Chunk.said
            cases hthinking : c.isThinking <;> simp [hthinking]
          · rw [hgathered.thinkingParts]
            unfold ChatParts.add Chunk.thought
            cases hthinking : c.isThinking <;> simp [hthinking]
      | prefillProgress model processedTokens totalTokens =>
          obtain ⟨q, hq, hgathered⟩ := ih h.tail p
          exact ⟨q, hq, hgathered.textParts, hgathered.thinkingParts, hgathered.toolCalls,
            hgathered.errorMessage, hgathered.lastUsage⟩
      | error model errorMessage => cases h _ List.mem_cons_self
      | toolCalls model toolCalls usage stats => cases h _ List.mem_cons_self

theorem exists_model (model : Option String) (model' : String) :
    ∃ m, model.or (some model') = some m := by
  cases model <;> exact ⟨_, rfl⟩

variable {chunks : List Chunk} {model : String}

/-- What is collected from chunks that no error is among. -/
theorem collectChatResponse_answer {commandId : String} {created : Nat}
    {p : ChatParts} (h : ChatParts.collect {} chunks = p)
    (herror : p.errorMessage = none) (hmodel : p.model = some model) :
    (collectChatResponse commandId created chunks).map ChatCompletion.answer
      = some { text := String.join p.textParts, thinking := joinParts p.thinkingParts
               toolCalls := p.toolCalls, ending := (p.finishReason, p.lastUsage) } := by
  have horNone : (orNone p.toolCalls).getD [] = p.toolCalls := by
    cases htools : p.toolCalls <;> rfl
  rw [collectChatResponse, h, herror, hmodel]
  simp only [Option.isSome_none, Bool.false_eq_true, if_false, Option.map_some, ChatCompletion.answer,
    horNone]

/-- **A chat completion stream agrees with the completion in one piece.** -/
theorem chat_agrees (now : Nat → Nat) (created : Nat) (h : Unfinished before)
    (hlast : last.finishes = true) :
    Fragment.Agrees (chatFragmentsFrom commandId now 0 none (before ++ [last]))
      ((collectChatResponse commandId created (before ++ [last])).map ChatCompletion.answer) := by
  rw [chatFragmentsFrom_append commandId now h]
  have hbefore := forall_mem_deltas (P := fun f => f.finish = none) chatDelta_isDelta.finish before
  obtain ⟨q, hq, hgathered⟩ := exists_gathered last h {}
  cases last with
  | prefillProgress model processedTokens totalTokens => cases hlast
  | error model errorMessage =>
      have hnone : collectChatResponse commandId created (before ++ [.error model errorMessage])
          = none := by
        rw [collectChatResponse, hq]
        rfl
      rw [hnone]
      exact Fragment.agrees_of_failed hbefore rfl
  | toolCalls model toolCalls usage stats =>
      obtain ⟨m, hm⟩ := exists_model q.model model
      have hfragment : chatFragmentsFrom commandId now (0 + before.length) (lastUsage none before)
          [.toolCalls model toolCalls usage stats] = [{
            toolCalls := toolCallDeltas toolCalls
            finish := some (.finished (some "tool_calls", usage.or (lastUsage none before))) }] := by
        cases stats <;> rfl
      have hadd : ChatParts.collect {} (before ++ [.toolCalls model toolCalls usage stats])
          = q.add (.toolCalls model toolCalls usage stats) := hq
      rw [collectChatResponse_answer hadd hgathered.errorMessage hm, hfragment]
      refine (Fragment.agrees_iff_of_finished hbefore rfl).mpr ?_
      rw [accumulate_deltas chatDelta_isDelta]
      simp only [ChatParts.add, hgathered.textParts, hgathered.thinkingParts, hgathered.toolCalls,
        hgathered.lastUsage]
      simp
  | token c =>
      obtain ⟨m, hm⟩ := exists_model q.model c.model
      obtain ⟨reason, hreason⟩ := Option.isSome_iff_exists.mp hlast
      have hfragment : chatFragmentsFrom commandId now (0 + before.length) (lastUsage none before)
          [.token c] = [{ chatDelta c with
            finish := some (.finished (some reason.text, c.usage.or (lastUsage none before))) }] := by
        rw [chatFragmentsFrom, chatEvents, hreason]
        simp only [chunkToResponse, chatDelta, hreason]
        cases c.isThinking <;> cases c.stats <;> rfl
      have hadd : ChatParts.collect {} (before ++ [.token c]) = q.add (.token c) := hq
      rw [collectChatResponse_answer hadd hgathered.errorMessage hm, hfragment]
      refine (Fragment.agrees_iff_of_finished hbefore rfl).mpr ?_
      rw [accumulate_deltas chatDelta_isDelta]
      simp only [ChatParts.add, hgathered.textParts, hgathered.thinkingParts, hgathered.toolCalls,
        hgathered.lastUsage, hreason, chatDelta]
      cases c.isThinking <;> simp

/-! ## The Ollama endpoints -/

def ollamaDelta (c : TokenChunk) : Fragment OllamaToolCall OllamaEnding :=
  if c.isThinking then { text := some "", thinking := some c.text } else { text := some c.text }

theorem ollamaDelta_isDelta : IsDelta ollamaDelta where
  finish := fun c => by unfold ollamaDelta; split <;> rfl
  toolCalls := fun c => by unfold ollamaDelta; split <;> rfl
  text := fun c => by unfold ollamaDelta Chunk.said; split <;> simp [*]
  thinking := fun c => by unfold ollamaDelta Chunk.thought; split <;> simp [*]

variable {takesArguments : Parsers.Value → Bool}

theorem ollamaChat_append (h : Unfinished before) (thinkingParts : List String) :
    (generateOllamaChatStream takesArguments thinkingParts (before ++ [last])).map
        OllamaChatResponse.fragment
      = deltas ollamaDelta before ++ (generateOllamaChatStream takesArguments
        (thinkingParts ++ before.filterMap Chunk.thought) [last]).map OllamaChatResponse.fragment := by
  induction before generalizing thinkingParts with
  | nil => simp [deltas]
  | cons chunk before ih =>
      cases chunk with
      | token c =>
          rw [List.cons_append, generateOllamaChatStream, h.token, deltas_token, ollamaDelta,
            List.filterMap_cons, Chunk.thought]
          cases c.isThinking with
          | true =>
              have htail := ih h.tail (thinkingParts ++ [c.text])
              rw [List.append_assoc, List.singleton_append] at htail
              exact congrArg _ htail
          | false => exact congrArg _ (ih h.tail thinkingParts)
      | prefillProgress model processedTokens totalTokens => exact ih h.tail thinkingParts
      | error model errorMessage => cases h _ List.mem_cons_self
      | toolCalls model toolCalls usage stats => cases h _ List.mem_cons_self

theorem ollamaGenerate_append (h : Unfinished before) :
    (generateOllamaGenerateStream (before ++ [last])).map OllamaGenerateResponse.fragment
      = deltas ollamaDelta before
        ++ (generateOllamaGenerateStream [last]).map OllamaGenerateResponse.fragment := by
  induction before with
  | nil => rfl
  | cons chunk before ih =>
      cases chunk with
      | token c =>
          rw [List.cons_append, generateOllamaGenerateStream, h.token, deltas_token, ollamaDelta]
          cases c.isThinking with
          | true | false => exact congrArg _ (ih h.tail)
      | prefillProgress model processedTokens totalTokens => exact ih h.tail
      | error model errorMessage => cases h _ List.mem_cons_self
      | toolCalls model toolCalls usage stats => cases h _ List.mem_cons_self

/-- What the two that collect have behind chunks that do not finish. -/
structure OllamaGathered (p : OllamaParts) (chunks : List Chunk) (q : OllamaParts) : Prop where
  textParts : q.textParts = p.textParts ++ chunks.filterMap Chunk.said
  thinkingParts : q.thinkingParts = p.thinkingParts ++ chunks.filterMap Chunk.thought
  toolCalls : q.toolCalls = p.toolCalls

theorem exists_ollamaGathered (last : Chunk)
    (build : List ToolCallItem → Option (List OllamaToolCall)) (h : Unfinished before) (p : OllamaParts) :
    ∃ q, p.collect build (before ++ [last]) = q.collect build [last]
      ∧ OllamaGathered p before q := by
  induction before generalizing p with
  | nil => exact ⟨p, rfl, by rw [List.filterMap_nil, List.append_nil], by simp, rfl⟩
  | cons chunk before ih =>
      cases chunk with
      | token c =>
          rw [List.cons_append, OllamaParts.collect]
          obtain ⟨q, hq, hgathered⟩ := ih h.tail _
          refine ⟨q, hq, ?_, ?_, hgathered.toolCalls⟩
          · rw [hgathered.textParts]
            unfold Chunk.said
            cases hthinking : c.isThinking <;> simp [hthinking]
          · rw [hgathered.thinkingParts]
            unfold Chunk.thought
            cases hthinking : c.isThinking <;> simp [hthinking]
      | prefillProgress model processedTokens totalTokens =>
          obtain ⟨q, hq, hgathered⟩ := ih h.tail p
          exact ⟨q, hq, hgathered.textParts, hgathered.thinkingParts, hgathered.toolCalls⟩
      | error model errorMessage => cases h _ List.mem_cons_self
      | toolCalls model toolCalls usage stats => cases h _ List.mem_cons_self

theorem mapM_id_isSome {α : Type} (l : List (Option α)) :
    (l.mapM id : Option (List α)).isSome = true ↔ ∀ o ∈ l, o.isSome = true := by
  induction l with
  | nil => exact iff_of_true rfl fun o ho => by cases ho
  | cons o l ih =>
      rw [List.forall_mem_cons, ← ih, List.mapM_cons]
      cases o with
      | none => simp
      | some a => cases (l.mapM id : Option (List α)) <;> simp

/-- The arguments of the call are read, and pydantic takes them. -/
def Readable (takesArguments : Parsers.Value → Bool) (tool : ToolCallItem) : Prop :=
  ∃ arguments, tryParseJson (Text.of tool.arguments) = some arguments
    ∧ takesArguments arguments = true

theorem buildToolCalls_isSome (toolCalls : List ToolCallItem) :
    (buildToolCalls takesArguments toolCalls).isSome = true
      ↔ ∀ tool ∈ toolCalls, Readable takesArguments tool := by
  have hone : ∀ index tool, (buildToolCall takesArguments index tool).isSome = true
      ↔ Readable takesArguments tool := fun index tool => by
    rw [buildToolCall, Readable]
    cases tryParseJson (Text.of tool.arguments) with
    | none => simp
    | some arguments => cases htakes : takesArguments arguments <;> simp [htakes]
  rw [buildToolCalls, mapM_id_isSome]
  constructor
  · intro h tool htool
    obtain ⟨i, hi, rfl⟩ := List.mem_iff_getElem.mp htool
    exact (hone i _).mp (h _ (List.mem_mapIdx.mpr ⟨i, hi, rfl⟩))
  · intro h o ho
    obtain ⟨i, hi, rfl⟩ := List.mem_mapIdx.mp ho
    exact (hone i _).mpr (h _ (List.getElem_mem hi))

/-- What the two that collect answer. -/
def OllamaParts.answer (p : OllamaParts) : Answer OllamaToolCall OllamaEnding where
  text := String.join p.textParts
  thinking := joinParts p.thinkingParts
  toolCalls := p.toolCalls
  ending := (mapDoneReason p.finishReason, p.evalCounts)

variable {p : OllamaParts}

theorem collectOllamaChat_answer
    (h : OllamaParts.collect (buildToolCalls takesArguments) {} chunks = some p)
    (hmodel : p.model = some model) :
    (collectOllamaChatResponse takesArguments chunks).map OllamaChatResponse.answer
      = some p.answer := by
  have horNone : (orNone p.toolCalls).getD [] = p.toolCalls := by
    cases htools : p.toolCalls <;> rfl
  rw [collectOllamaChatResponse, h, Option.bind_some, hmodel]
  simp only [Option.map_some, OllamaChatResponse.answer, horNone, OllamaParts.answer]

theorem collectOllamaGenerate_answer
    (h : OllamaParts.collect (fun _ => some []) {} chunks = some p) (hmodel : p.model = some model)
    (htools : p.toolCalls = []) :
    (collectOllamaGenerateResponse chunks).map OllamaGenerateResponse.answer = some p.answer := by
  rw [collectOllamaGenerateResponse, h, Option.bind_some, hmodel]
  simp only [Option.map_some, OllamaGenerateResponse.answer, OllamaParts.answer, htools]

theorem ollamaFinish_stopReason (reason : StopReason) (evalCounts : EvalCounts) :
    ollamaFinish true (mapDoneReason (some reason.text)) evalCounts
      = some (.finished (mapDoneReason (some reason.text), evalCounts)) := by
  cases reason <;> rfl

/-- A token of the text finishes, or an error; or tool calls that pydantic takes, after no thinking that
says anything. -/
def FitsOllamaChat (takesArguments : Parsers.Value → Bool) (before : List Chunk) : Chunk → Prop
  | .token c => c.isThinking = false
  | .toolCalls _ toolCalls _ _ => String.join (before.filterMap Chunk.thought) = ""
    ∧ ∀ tool ∈ toolCalls, Readable takesArguments tool
  | _ => True

/-- A token of the text finishes, or an error. -/
def FitsOllamaGenerate : Chunk → Prop
  | .token c => c.isThinking = false
  | .toolCalls .. => False
  | _ => True

/-- The record of a token of the text that finishes. -/
def finishing (c : TokenChunk) : Fragment OllamaToolCall OllamaEnding where
  text := some c.text
  finish := some (.finished
    (mapDoneReason (c.finishReason.map StopReason.text), getUsage c.usage c.stats))

/-- Where a token of the text finishes, the stream and what is collected agree. -/
theorem agrees_finishing {build : List ToolCallItem → Option (List OllamaToolCall)} {q : OllamaParts}
    (hgathered : OllamaGathered {} before q) (hthinking : c.isThinking = false)
    (hfinishes : c.finishReason.isSome = true) : ∃ p,
      q.collect build [.token c] = some p ∧ p.model = q.model.or (some c.model) ∧ p.toolCalls = []
        ∧ Fragment.Agrees (deltas ollamaDelta before ++ [finishing c]) (some p.answer) := by
  have hbefore := forall_mem_deltas (P := fun f => f.finish = none) ollamaDelta_isDelta.finish before
  obtain ⟨reason, hreason⟩ := Option.isSome_iff_exists.mp hfinishes
  refine ⟨_, rfl, rfl, hgathered.toolCalls, ?_⟩
  refine (Fragment.agrees_iff_of_finished hbefore rfl).mpr ?_
  rw [accumulate_deltas ollamaDelta_isDelta]
  simp only [OllamaParts.answer, hgathered.textParts, hgathered.thinkingParts, hgathered.toolCalls,
    hthinking, hreason, finishing]
  simp

/-- Where a token of thinking finishes, nothing is done. -/
theorem not_agrees_thinking {answer : Option (Answer OllamaToolCall OllamaEnding)} :
    ¬ Fragment.Agrees (deltas ollamaDelta before ++ [ollamaDelta c]) answer := by
  refine Fragment.not_agrees fun f hf => ?_
  rcases List.mem_append.mp hf with hf | hf
  · exact forall_mem_deltas (P := fun f => f.finish = none) ollamaDelta_isDelta.finish before f hf
  · rw [List.mem_singleton.mp hf]
    exact ollamaDelta_isDelta.finish c

/-- **When `/api/chat` agrees with itself.** -/
theorem ollamaChat_agrees_iff (h : Unfinished before) (hlast : last.finishes = true) :
    Fragment.Agrees
        ((generateOllamaChatStream takesArguments [] (before ++ [last])).map
          OllamaChatResponse.fragment)
        ((collectOllamaChatResponse takesArguments (before ++ [last])).map OllamaChatResponse.answer)
      ↔ FitsOllamaChat takesArguments before last := by
  rw [ollamaChat_append h, List.nil_append]
  have hbefore := forall_mem_deltas (P := fun f => f.finish = none) ollamaDelta_isDelta.finish before
  obtain ⟨q, hq, hgathered⟩ :=
    exists_ollamaGathered last (buildToolCalls takesArguments) h {}
  cases last with
  | prefillProgress model processedTokens totalTokens => cases hlast
  | error model errorMessage =>
      refine iff_of_true ?_ trivial
      rw [collectOllamaChatResponse, hq]
      exact Fragment.agrees_of_failed hbefore rfl
  | toolCalls model toolCalls usage stats =>
      show _ ↔ String.join (before.filterMap Chunk.thought) = "" ∧ _
      rw [← buildToolCalls_isSome]
      cases hbuild : buildToolCalls takesArguments toolCalls with
      | none =>
          rw [generateOllamaChatStream, hbuild]
          refine iff_of_false ?_ fun h => Bool.false_ne_true h.2
          rw [Option.map_none, Option.toList_none, List.map_nil, List.append_nil]
          exact Fragment.not_agrees hbefore
      | some calls =>
          obtain ⟨m, hm⟩ := exists_model q.model model
          have hcollect : OllamaParts.collect (buildToolCalls takesArguments) {}
              (before ++ [.toolCalls model toolCalls usage stats])
              = some { q with
                  model := q.model.or (some model), toolCalls := q.toolCalls ++ calls
                  finishReason := some "tool_calls", evalCounts := getUsage usage stats } := by
            rw [hq, OllamaParts.collect, hbuild]
            rfl
          have hfragment : (generateOllamaChatStream takesArguments (before.filterMap Chunk.thought)
              [.toolCalls model toolCalls usage stats]).map OllamaChatResponse.fragment
              = [{ text := some "", thinking := joinParts (before.filterMap Chunk.thought)
                   toolCalls := calls
                   finish := some (.finished (some .toolCall, getUsage usage stats)) }] := by
            rw [generateOllamaChatStream, hbuild]
            rfl
          rw [collectOllamaChat_answer hcollect hm, hfragment,
            Fragment.agrees_iff_of_finished hbefore rfl, accumulate_deltas ollamaDelta_isDelta,
            Option.some_inj, ← joinParts_append_joinParts]
          -- the texts, the calls and the ending are the same in any case
          simp only [OllamaParts.answer, hgathered.textParts, hgathered.thinkingParts,
            hgathered.toolCalls, List.nil_append, Option.getD_some, String.append_empty,
            Answer.mk.injEq, Option.isSome_some, and_true, true_and]
          exact ⟨fun h => h.1.symm, fun h => ⟨h.symm, rfl⟩⟩
  | token c =>
      show _ ↔ c.isThinking = false
      obtain ⟨reason, hreason⟩ := Option.isSome_iff_exists.mp hlast
      cases hthinking : c.isThinking with
      | true =>
          have hfragment : (generateOllamaChatStream takesArguments (before.filterMap Chunk.thought)
              [.token c]).map OllamaChatResponse.fragment = [ollamaDelta c] := by
            rw [generateOllamaChatStream, ollamaDelta, hthinking, hreason]
            rfl
          rw [hfragment]
          exact iff_of_false not_agrees_thinking Bool.noConfusion
      | false =>
          have hfragment : (generateOllamaChatStream takesArguments (before.filterMap Chunk.thought)
              [.token c]).map OllamaChatResponse.fragment = [finishing c] := by
            rw [generateOllamaChatStream, finishing, hthinking, hreason]
            exact congrArg (fun finish => [({ text := some c.text, finish } : Fragment _ _)])
              (ollamaFinish_stopReason reason _)
          obtain ⟨m, hm⟩ := exists_model q.model c.model
          obtain ⟨p, hp, hmodel, -, hagrees⟩ := agrees_finishing hgathered hthinking hlast
          rw [collectOllamaChat_answer (hq.trans hp) (hmodel.trans hm), hfragment]
          exact iff_of_true hagrees rfl

/-- **When `/api/generate` agrees with itself.** -/
theorem ollamaGenerate_agrees_iff (h : Unfinished before) (hlast : last.finishes = true) :
    Fragment.Agrees
        ((generateOllamaGenerateStream (before ++ [last])).map OllamaGenerateResponse.fragment)
        ((collectOllamaGenerateResponse (before ++ [last])).map OllamaGenerateResponse.answer)
      ↔ FitsOllamaGenerate last := by
  rw [ollamaGenerate_append h]
  have hbefore := forall_mem_deltas (P := fun f => f.finish = none) ollamaDelta_isDelta.finish before
  obtain ⟨q, hq, hgathered⟩ := exists_ollamaGathered last (fun _ => some []) h {}
  cases last with
  | prefillProgress model processedTokens totalTokens => cases hlast
  | error model errorMessage =>
      refine iff_of_true ?_ trivial
      rw [collectOllamaGenerateResponse, hq]
      exact Fragment.agrees_of_failed hbefore rfl
  | toolCalls model toolCalls usage stats =>
      refine iff_of_false (fun hagrees => ?_) id
      obtain ⟨m, hm⟩ := exists_model q.model model
      have hcollect : OllamaParts.collect (fun _ => some []) {}
          (before ++ [.toolCalls model toolCalls usage stats])
          = some { q with
              model := q.model.or (some model), toolCalls := q.toolCalls ++ []
              finishReason := some "tool_calls", evalCounts := getUsage usage stats } := hq
      have htools : q.toolCalls ++ [] = [] := by
        rw [hgathered.toolCalls]
        rfl
      rw [collectOllamaGenerate_answer hcollect hm htools] at hagrees
      have hanswer := (Fragment.agrees_iff_of_finished hbefore rfl).mp hagrees
      -- one says that it stopped, the other that it called tools
      have hending := congrArg (fun answer => answer.ending.1) (Option.some.inj hanswer)
      cases hending
  | token c =>
      show _ ↔ c.isThinking = false
      obtain ⟨reason, hreason⟩ := Option.isSome_iff_exists.mp hlast
      cases hthinking : c.isThinking with
      | true =>
          have hfragment : (generateOllamaGenerateStream [.token c]).map
              OllamaGenerateResponse.fragment = [ollamaDelta c] := by
            rw [generateOllamaGenerateStream, ollamaDelta, hthinking, hreason]
            rfl
          rw [hfragment]
          exact iff_of_false not_agrees_thinking Bool.noConfusion
      | false =>
          have hfragment : (generateOllamaGenerateStream [.token c]).map
              OllamaGenerateResponse.fragment = [finishing c] := by
            rw [generateOllamaGenerateStream, finishing, hthinking, hreason]
            exact congrArg (fun finish => [({ text := some c.text, finish } : Fragment _ _)])
              (ollamaFinish_stopReason reason _)
          obtain ⟨m, hm⟩ := exists_model q.model c.model
          obtain ⟨p, hp, hmodel, htools, hagrees⟩ := agrees_finishing hgathered hthinking hlast
          rw [collectOllamaGenerate_answer (hq.trans hp) (hmodel.trans hm) htools, hfragment]
          exact iff_of_true hagrees rfl

/-! ## All adapters -/

inductive Adapter where
  | chatCompletions
  | ollamaChat
  | ollamaGenerate
deriving DecidableEq

/-- The stream of an adapter agrees with its answer in one piece. -/
def Adapter.Agrees (takesArguments : Parsers.Value → Bool) (commandId : String) (now : Nat → Nat)
    (created : Nat) (chunks : List Chunk) : Adapter → Prop
  | .chatCompletions => Fragment.Agrees (chatFragments commandId now chunks)
    ((collectChatResponse commandId created chunks).map ChatCompletion.answer)
  | .ollamaChat => Fragment.Agrees
    ((generateOllamaChatStream takesArguments [] chunks).map OllamaChatResponse.fragment)
    ((collectOllamaChatResponse takesArguments chunks).map OllamaChatResponse.answer)
  | .ollamaGenerate => Fragment.Agrees
    ((generateOllamaGenerateStream chunks).map OllamaGenerateResponse.fragment)
    ((collectOllamaGenerateResponse chunks).map OllamaGenerateResponse.answer)

/-- What the chunk that finishes has to be. -/
def Adapter.Fits (takesArguments : Parsers.Value → Bool) (before : List Chunk) (last : Chunk) :
    Adapter → Prop
  | .chatCompletions => True
  | .ollamaChat => FitsOllamaChat takesArguments before last
  | .ollamaGenerate => FitsOllamaGenerate last

/--
**When streams and answers in one piece agree.** For chat completions always. At the Ollama endpoints
the chunk that finishes must not be a token of thinking, and tool calls may only finish a chat, with
arguments that pydantic takes and without thinking before them.
-/
theorem adapter_agrees_iff (takesArguments : Parsers.Value → Bool) (commandId : String)
    (now : Nat → Nat) (created : Nat) (adapter : Adapter) {before : List Chunk} {last : Chunk}
    (hbefore : Unfinished before) (hlast : last.finishes = true) :
    adapter.Agrees takesArguments commandId now created (before ++ [last])
      ↔ adapter.Fits takesArguments before last := by
  cases adapter with
  | chatCompletions => exact iff_of_true (chat_agrees commandId now created hbefore hlast) trivial
  | ollamaChat => exact ollamaChat_agrees_iff hbefore hlast
  | ollamaGenerate => exact ollamaGenerate_agrees_iff hbefore hlast

/-- Dictionaries and strings. -/
def dictOrString : Parsers.Value → Bool
  | .dict _ | .str _ => true
  | _ => false

def thinkingToken (finishReason : Option StopReason) : TokenChunk where
  model := "m"
  text := "so"
  usage := none
  finishReason
  stats := none
  logprob := none
  topLogprobs := none
  isThinking := true

/-- The length runs out while the model thinks. -/
theorem adapter_agrees_iff_cutThinking :
    Adapter.chatCompletions.Agrees dictOrString "c" id 0
        ([.token (thinkingToken none)] ++ [.token (thinkingToken (some .length))])
      ↔ Adapter.chatCompletions.Fits dictOrString [.token (thinkingToken none)]
        (.token (thinkingToken (some .length))) :=
  adapter_agrees_iff dictOrString "c" id 0 .chatCompletions
    (fun c hc => by rw [List.mem_singleton.mp hc]; rfl) rfl

/-- The chat of the Ollama endpoint never ends then. -/
theorem not_forall_adapter_agrees : ¬ ∀ (takesArguments : Parsers.Value → Bool) (commandId : String)
    (now : Nat → Nat) (created : Nat) (adapter : Adapter) (before : List Chunk) (last : Chunk),
    Unfinished before → last.finishes = true →
      adapter.Agrees takesArguments commandId now created (before ++ [last]) := by
  intro h
  have hagrees := h dictOrString "c" id 0 .ollamaChat [] (.token (thinkingToken (some .length)))
    (fun c hc => by cases hc) rfl
  refine Fragment.not_agrees (fun f hf => ?_) hagrees
  rw [List.mem_singleton.mp hf]
  rfl

end Exo.Chat
