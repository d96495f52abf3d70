import Exo.Parsers.Responses

/-!
# From what is parsed to the chunks of a client

The last two of the parsers: the tokens of thought are counted into the usage of what ends a
generation, and every response is made a chunk. The API hands chunks on until one of them has a
reason to finish, and waits for one as long as there is none. So a stream is delivered when such a
chunk is its last one and no other one is.

What is the same for every chunk, its model, is left out.
-/

namespace Exo.Parsers

open Lib

/-! ## `count_reasoning_tokens` -/

def Parsed.usage : Parsed → Option Chat.Usage
  | .generation r => r.usage
  | .toolCall t => t.usage

/-- `isinstance(response, GenerationResponse) and response.is_thinking` -/
def Parsed.isThought : Parsed → Bool
  | .generation r => r.isThinking
  | .toolCall _ => false

def Parsed.withUsage (usage : Option Chat.Usage) : Parsed → Parsed
  | .generation r => .generation { r with usage }
  | .toolCall t => .toolCall { t with usage }

/-- The total is patched into a usage, if there is one and it is not zero. -/
def patched (reasoningTokens : Nat) (p : Parsed) : Parsed :=
  match p.usage with
  | none => p
  | some usage => if 0 < reasoningTokens then p.withUsage (some { usage with reasoningTokens }) else p

def countReasoningTokens (reasoningTokens : Nat) : List (Option Parsed) → List (Option Parsed)
  | [] => []
  | none :: responses => none :: countReasoningTokens reasoningTokens responses
  | some p :: responses =>
    let reasoningTokens := if p.isThought then reasoningTokens + 1 else reasoningTokens
    some (patched reasoningTokens p) :: countReasoningTokens reasoningTokens responses

/-! ## `map_responses_to_chunks` -/

structure TokenChunk where
  text : Text
  tokenId : Nat
  usage : Option Chat.Usage
  finishReason : Option Chat.StopReason
  stats : Option Chat.GenerationStats
  logprob : Option Chat.WrittenFloat
  topLogprobs : Option (List Chat.TopLogprobItem)
  isThinking : Bool
deriving DecidableEq

inductive GenerationChunk where
  | token (chunk : TokenChunk)
  | error (errorMessage : Text)
  | toolCall (toolCalls : List ToolCallItem) (usage : Option Chat.Usage)
      (stats : Option Chat.GenerationStats)
deriving DecidableEq

/-- The reasons a token chunk may finish for; the assertion is about the others. -/
def stopReason : FinishReason → Option Chat.StopReason
  | .stop => some .stop
  | .length => some .length
  | .contentFilter => some .contentFilter
  | _ => none

def GenerationResponse.toChunk (r : GenerationResponse) (finishReason : Option Chat.StopReason) :
    GenerationChunk :=
  .token
    { text := r.text
      tokenId := r.token
      usage := r.usage
      finishReason
      stats := r.stats
      logprob := r.logprob
      topLogprobs := r.topLogprobs
      isThinking := r.isThinking }

/-- `none` is a failed assertion. -/
def mapResponsesToChunks : Option Parsed → Option (Option GenerationChunk)
  | none => some none
  | some (.generation r) =>
    match r.finishReason with
    | none => some (some (r.toChunk none))
    | some .error => some (some (.error r.text))
    | some reason => (stopReason reason).map fun reason => some (r.toChunk (some reason))
  | some (.toolCall t) => some (some (.toolCall t.toolCalls t.usage t.stats))

/-- What a parser yields, counted and made chunks. -/
def chunksOf (responses : List (Option Parsed)) : List (Option (Option GenerationChunk)) :=
  (countReasoningTokens 0 responses).map mapResponsesToChunks

/-! ## What the API takes for the end -/

/-- `chunk.finish_reason is not None` -/
def GenerationChunk.isTerminal : GenerationChunk → Bool
  | .token chunk => chunk.finishReason.isSome
  | .error _ => true
  | .toolCall .. => true

def GenerationChunk.text : GenerationChunk → Text
  | .token chunk => chunk.text
  | .error errorMessage => errorMessage
  | .toolCall .. => []

def GenerationChunk.toolCalls : GenerationChunk → List ToolCallItem
  | .toolCall toolCalls _ _ => toolCalls
  | _ => []

/-- The chunks there are. -/
def chunkItems (chunks : List (Option (Option GenerationChunk))) : List GenerationChunk :=
  chunks.filterMap Option.join

/-- The last one is the only one of its kind. -/
def OnlyLast {α : Type} (p : α → Bool) (xs : List α) : Prop :=
  ∃ init last, xs = init ++ [last] ∧ p last = true ∧ ∀ x ∈ init, p x = false

/-- A stream that ends once, at its end, with everything that it was to say and to call. -/
structure Delivered (chunks : List (Option (Option GenerationChunk))) (text : Text)
    (toolCalls : List ToolCallItem) : Prop where
  asserted : none ∉ chunks
  terminal : OnlyLast GenerationChunk.isTerminal (chunkItems chunks)
  text : (chunkItems chunks).flatMap GenerationChunk.text = text
  toolCalls : (chunkItems chunks).flatMap GenerationChunk.toolCalls = toolCalls

/-! ## The same of what a parser yields -/

namespace Parsed

def isTerminal : Parsed → Bool
  | .generation r => r.finishReason.isSome
  | .toolCall _ => true

def text : Parsed → Text
  | .generation r => r.text
  | .toolCall _ => []

def toolCalls : Parsed → List ToolCallItem
  | .generation _ => []
  | .toolCall t => t.toolCalls

/-- A reason to finish that a token chunk may have, or an error chunk has. -/
def MayFinish (reason : Option FinishReason) : Prop :=
  reason ≠ some .toolCalls ∧ reason ≠ some .functionCall

instance (reason : Option FinishReason) : Decidable (MayFinish reason) :=
  inferInstanceAs (Decidable (_ ∧ _))

def Asserted : Parsed → Prop
  | .generation r => MayFinish r.finishReason
  | .toolCall _ => True

instance (p : Parsed) : Decidable p.Asserted := by
  cases p <;> unfold Asserted <;> infer_instance

end Parsed

/-- What a parser yields makes a stream that is delivered. -/
structure Ends (out : List Parsed) (text : Text) (toolCalls : List ToolCallItem) : Prop where
  asserted : ∀ p ∈ out, p.Asserted
  terminal : OnlyLast Parsed.isTerminal out
  text : out.flatMap Parsed.text = text
  toolCalls : out.flatMap Parsed.toolCalls = toolCalls

/-! ## Counting and mapping change nothing of this -/

section Mapping

variable {p : Parsed} {n : Nat}

theorem patched_cases (n : Nat) (p : Parsed) :
    patched n p = p ∨ ∃ usage, patched n p = p.withUsage usage := by
  unfold patched
  split
  · exact .inl rfl
  · split
    · exact .inr ⟨_, rfl⟩
    · exact .inl rfl

@[simp] theorem patched_isTerminal : (patched n p).isTerminal = p.isTerminal := by
  rcases patched_cases n p with h | ⟨usage, h⟩ <;> rw [h]
  cases p <;> rfl

@[simp] theorem patched_text : (patched n p).text = p.text := by
  rcases patched_cases n p with h | ⟨usage, h⟩ <;> rw [h]
  cases p <;> rfl

@[simp] theorem patched_toolCalls : (patched n p).toolCalls = p.toolCalls := by
  rcases patched_cases n p with h | ⟨usage, h⟩ <;> rw [h]
  cases p <;> rfl

@[simp] theorem patched_asserted : (patched n p).Asserted ↔ p.Asserted := by
  rcases patched_cases n p with h | ⟨usage, h⟩ <;> rw [h]
  cases p <;> rfl

theorem mapResponsesToChunks_of_asserted (h : p.Asserted) :
    ∃ chunk, mapResponsesToChunks (some p) = some (some chunk) ∧
      chunk.isTerminal = p.isTerminal ∧ chunk.text = p.text ∧ chunk.toolCalls = p.toolCalls := by
  cases p with
  | toolCall t => exact ⟨_, rfl, rfl, rfl, rfl⟩
  | generation r =>
      obtain ⟨text, token, logprob, topLogprobs, finishReason, stats, usage, isThinking⟩ := r
      rcases finishReason with - | reason
      · exact ⟨_, rfl, rfl, rfl, rfl⟩
      · cases reason with
        | toolCalls => exact absurd rfl h.1
        | functionCall => exact absurd rfl h.2
        | _ => exact ⟨_, rfl, rfl, rfl, rfl⟩

theorem mapResponsesToChunks_of_not_asserted (h : ¬ p.Asserted) :
    mapResponsesToChunks (some p) = none := by
  cases p with
  | toolCall t => exact absurd trivial h
  | generation r =>
      obtain ⟨text, token, logprob, topLogprobs, finishReason, stats, usage, isThinking⟩ := r
      rcases finishReason with - | reason
      · exact absurd ⟨nofun, nofun⟩ h
      · cases reason with
        | toolCalls => rfl
        | functionCall => rfl
        | _ => exact absurd ⟨nofun, nofun⟩ h

end Mapping

theorem onlyLast_map {α β : Type} (f : α → β) (p : β → Bool) (xs : List α) :
    OnlyLast p (xs.map f) ↔ OnlyLast (fun x => p (f x)) xs := by
  constructor
  · rintro ⟨init, last, hxs, hlast, hinit⟩
    obtain ⟨xs, ys, rfl, rfl, hys⟩ := List.map_eq_append_iff.mp hxs
    obtain ⟨y, rfl, rfl⟩ := List.map_eq_singleton_iff.mp hys
    exact ⟨xs, y, rfl, hlast, fun x hx => hinit _ (List.mem_map_of_mem hx)⟩
  · rintro ⟨init, last, rfl, hlast, hinit⟩
    refine ⟨init.map f, f last, by rw [List.map_append, List.map_singleton], hlast, fun x hx => ?_⟩
    obtain ⟨y, hy, rfl⟩ := List.mem_map.mp hx
    exact hinit y hy

/-- The chunks of what is asserted are, seen from the client, what was yielded. -/
theorem chunkItems_countReasoningTokens (n : Nat) (out : List (Option Parsed))
    (h : ∀ p ∈ out.filterMap id, p.Asserted) :
    none ∉ (countReasoningTokens n out).map mapResponsesToChunks ∧
    (chunkItems ((countReasoningTokens n out).map mapResponsesToChunks)).map
        (fun c => (c.isTerminal, c.text, c.toolCalls))
      = (out.filterMap id).map fun p => (p.isTerminal, p.text, p.toolCalls) := by
  induction out generalizing n with
  | nil => exact ⟨List.not_mem_nil, rfl⟩
  | cons x out ih =>
      cases x with
      | none =>
          obtain ⟨hnone, hitems⟩ := ih n h
          refine ⟨?_, hitems⟩
          simpa [countReasoningTokens, mapResponsesToChunks] using hnone
      | some p =>
          have hp : p.Asserted := h p (by simp)
          have hout : ∀ q ∈ out.filterMap id, q.Asserted := fun q hq => h q (by simp_all)
          obtain ⟨hnone, hitems⟩ := ih (if p.isThought then n + 1 else n) hout
          obtain ⟨chunk, hchunk, hterminal, htext, hcalls⟩ :=
            mapResponsesToChunks_of_asserted
              ((patched_asserted (n := if p.isThought then n + 1 else n)).mpr hp)
          rw [patched_isTerminal] at hterminal
          rw [patched_text] at htext
          rw [patched_toolCalls] at hcalls
          simp only [countReasoningTokens, List.map_cons, hchunk]
          refine ⟨?_, ?_⟩
          · simpa using hnone
          · exact congrArg₂ List.cons (by simp only [hterminal, htext, hcalls]) hitems

/-- Where the assertion does not fail everything that was yielded meets it. -/
theorem asserted_of_none_not_mem (n : Nat) (out : List (Option Parsed))
    (h : none ∉ (countReasoningTokens n out).map mapResponsesToChunks) :
    ∀ p ∈ out.filterMap id, p.Asserted := by
  induction out generalizing n with
  | nil => exact fun p hp => absurd hp List.not_mem_nil
  | cons x out ih =>
      cases x with
      | none => exact ih n fun hmem => h (List.mem_cons_of_mem _ hmem)
      | some p =>
          have hp : p.Asserted := by
            by_contra hp
            have hfails := mapResponsesToChunks_of_not_asserted
              ((patched_asserted (n := if p.isThought then n + 1 else n)).not.mpr hp)
            exact h (List.mem_cons.mpr (.inl hfails.symm))
          exact List.forall_mem_cons.mpr ⟨hp, ih _ fun hmem => h (List.mem_cons_of_mem _ hmem)⟩

/-- **What a parser yields is delivered** exactly if it ends once and says and calls everything. -/
theorem delivered_chunksOf_iff (out : List (Option Parsed)) (text : Text)
    (toolCalls : List ToolCallItem) :
    Delivered (chunksOf out) text toolCalls ↔ Ends (out.filterMap id) text toolCalls := by
  by_cases h : ∀ p ∈ out.filterMap id, p.Asserted
  · obtain ⟨hnone, hitems⟩ := chunkItems_countReasoningTokens 0 out h
    have hterminal := congrArg (OnlyLast Prod.fst) hitems
    have htext := congrArg (List.flatMap fun c => c.2.1) hitems
    have hcalls := congrArg (List.flatMap fun c => c.2.2) hitems
    simp only [onlyLast_map, List.flatMap_map] at hterminal htext hcalls
    exact ⟨fun hd => ⟨h, hterminal.mp hd.terminal, htext ▸ hd.text, hcalls ▸ hd.toolCalls⟩,
      fun he => ⟨hnone, hterminal.mpr he.terminal, htext.trans he.text, hcalls.trans he.toolCalls⟩⟩
  · exact iff_of_false (fun hd => h (asserted_of_none_not_mem 0 out hd.asserted))
      fun he => h he.asserted

/-! ## What ends, item by item -/

section OnlyLast

variable {α : Type} {p : α → Bool} {x : α} {xs : List α}

theorem not_onlyLast_nil : ¬ OnlyLast p [] := by
  rintro ⟨init, last, h, -⟩
  exact absurd h.symm (by simp)

theorem onlyLast_cons_of_false (hx : p x = false) : OnlyLast p (x :: xs) ↔ OnlyLast p xs := by
  constructor
  · rintro ⟨init, last, h, hlast, hinit⟩
    cases init with
    | nil =>
        obtain ⟨rfl, rfl⟩ := List.cons.inj h
        exact absurd hlast (by simp [hx])
    | cons y init =>
        obtain ⟨rfl, rfl⟩ := List.cons.inj h
        exact ⟨init, last, rfl, hlast, fun z hz => hinit z (List.mem_cons_of_mem _ hz)⟩
  · rintro ⟨init, last, rfl, hlast, hinit⟩
    exact ⟨x :: init, last, rfl, hlast, List.forall_mem_cons.mpr ⟨hx, hinit⟩⟩

theorem onlyLast_cons_of_true (hx : p x = true) : OnlyLast p (x :: xs) ↔ xs = [] := by
  constructor
  · rintro ⟨init, last, h, hlast, hinit⟩
    cases init with
    | nil => exact (List.cons.inj h).2
    | cons y init =>
        obtain ⟨rfl, rfl⟩ := List.cons.inj h
        exact absurd (hinit x List.mem_cons_self) (by simp [hx])
  · rintro rfl
    exact ⟨[], x, rfl, hx, fun y hy => absurd hy List.not_mem_nil⟩

end OnlyLast

namespace Ends

variable {out : List Parsed} {text : Text} {toolCalls : List ToolCallItem}

theorem not_nil : ¬ Ends [] text toolCalls := fun h => not_onlyLast_nil h.terminal

variable {r : GenerationResponse}

/-- A token that does not finish is said. -/
theorem cons_token (hr : r.finishReason = none) :
    Ends (.generation r :: out) (r.text ++ text) toolCalls ↔ Ends out text toolCalls := by
  have hterminal : Parsed.isTerminal (.generation r) = false := by
    rw [Parsed.isTerminal, hr]
    rfl
  have hasserted : Parsed.Asserted (.generation r) := by
    rw [Parsed.Asserted, hr]
    exact ⟨nofun, nofun⟩
  constructor
  · intro h
    exact ⟨(List.forall_mem_cons.mp h.asserted).2, (onlyLast_cons_of_false hterminal).mp h.terminal,
      List.append_cancel_left h.text, h.toolCalls⟩
  · intro h
    exact ⟨List.forall_mem_cons.mpr ⟨hasserted, h.asserted⟩,
      (onlyLast_cons_of_false hterminal).mpr h.terminal, congrArg (r.text ++ ·) h.text, h.toolCalls⟩

/-- What the client takes for the end has to be the end, with everything that is left. -/
theorem cons_terminal {p : Parsed} (hp : p.isTerminal = true) :
    Ends (p :: out) text toolCalls ↔
      p.Asserted ∧ out = [] ∧ p.text = text ∧ p.toolCalls = toolCalls := by
  constructor
  · intro h
    obtain rfl := (onlyLast_cons_of_true hp).mp h.terminal
    refine ⟨h.asserted p List.mem_cons_self, rfl, ?_, ?_⟩
    · simpa using h.text
    · simpa using h.toolCalls
  · rintro ⟨hasserted, rfl, rfl, rfl⟩
    exact ⟨List.forall_mem_cons.mpr ⟨hasserted, fun q hq => absurd hq List.not_mem_nil⟩,
      (onlyLast_cons_of_true hp).mpr rfl, by simp, by simp⟩

/-- A token that finishes says all that is left. -/
theorem finish_iff (hr : r.finishReason.isSome = true) :
    Ends [.generation r] text toolCalls ↔
      Parsed.MayFinish r.finishReason ∧ r.text = text ∧ toolCalls = [] := by
  rw [cons_terminal (p := .generation r) hr]
  exact ⟨fun ⟨ha, _, ht, hc⟩ => ⟨ha, ht, hc.symm⟩, fun ⟨ha, ht, hc⟩ => ⟨ha, rfl, ht, hc.symm⟩⟩

/-- A tool call leaves nothing to say. -/
theorem answer_iff {t : ToolCallResponse} :
    Ends (.toolCall t :: out) text toolCalls ↔
      out = [] ∧ text = [] ∧ t.toolCalls = toolCalls := by
  rw [cons_terminal rfl]
  exact ⟨fun ⟨_, ho, ht, hc⟩ => ⟨ho, ht.symm, hc⟩, fun ⟨ho, ht, hc⟩ => ⟨trivial, ho, ht.symm, hc⟩⟩

end Ends

end Exo.Parsers
