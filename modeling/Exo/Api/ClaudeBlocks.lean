import Exo.Api.Claude

/-!
# The blocks of a Claude message

A client reads the events of a message as a row of blocks. The adapter keeps to that when the
tool calls come first, then the thinking, then the text, and when a tool call is not all there
is: a block is only closed when the text begins or the message ends, the thinking is never begun
again, and the empty text of a message without thinking and text has the index 0.
-/

namespace Exo

open Lib (BlockEvent BlockScan blockEvents)

/-! ## What a client relies on -/

inductive BlockKind where
  | text
  | thinking
  | toolUse
  deriving DecidableEq, Repr

def ClaudeBlock.kind : ClaudeBlock → BlockKind
  | .text => .text
  | .thinking => .thinking
  | .toolUse .. => .toolUse

/-- The kind of block a delta belongs into, and what it adds to it. -/
def ClaudeDelta.parts : ClaudeDelta → BlockKind × String
  | .text s => (.text, s)
  | .thinking s => (.thinking, s)
  | .inputJson s => (.toolUse, s)

/-- The event as one of a stream of blocks. -/
def ClaudeEvent.blockEvent? : ClaudeEvent → Option (BlockEvent BlockKind String)
  | .contentBlockStart index block => some (.start index block.kind)
  | .contentBlockDelta index delta => some (.delta index delta.parts.1 delta.parts.2)
  | .contentBlockStop index => some (.stop index)
  | _ => none

/--
A well-formed message: its start, blocks one after the other with the indices from 0 on, each
opened once, filled with deltas of its type and closed once, and its end.
-/
def WellFormedMessage (events : List ClaudeEvent) : Prop :=
  ∃ id model body stopReason outputTokens blocks,
    events = .messageStart id model :: body ++ [.messageDelta stopReason outputTokens, .messageStop]
      ∧ body.map (·.blockEvent?) = (blockEvents 0 blocks).map some

/-- What the deltas of a kind add up to. -/
def deltasOf (kind : BlockKind) (events : List ClaudeEvent) : List String :=
  events.filterMap fun e =>
    match e with
    | .contentBlockDelta _ delta => if delta.parts.1 = kind then some delta.parts.2 else none
    | _ => none

/-! ## What comes in -/

/-- The chunks up to the first error, without the progress of the prefill. -/
def received : List StreamChunk → List StreamChunk
  | [] => []
  | .prefillProgress .. :: chunks => received chunks
  | .error _ :: _ => []
  | .toolCall toolCalls usage :: chunks => .toolCall toolCalls usage :: received chunks
  | .token text isThinking finishReason usage :: chunks =>
      .token text isThinking finishReason usage :: received chunks

namespace StreamChunk

def isToken : StreamChunk → Bool
  | .token .. => true
  | _ => false

/-- It is a token of the text. -/
def isText : StreamChunk → Bool
  | .token _ isThinking _ _ => !isThinking
  | _ => false

def isThinking : StreamChunk → Bool
  | .token _ isThinking _ _ => isThinking
  | _ => false

/-- It is a tool call, and not an empty list of them. -/
def callsTools : StreamChunk → Bool
  | .toolCall toolCalls _ => toolCalls ≠ []
  | _ => false

/-- What the chunk has for blocks of a kind. -/
def inputs (kind : BlockKind) : StreamChunk → List String
  | .token text isThinking _ _ =>
      if kind = (if isThinking then .thinking else .text) then [text] else []
  | .toolCall toolCalls _ => if kind = .toolUse then toolCalls.map (·.arguments) else []
  | _ => []

end StreamChunk

/-- The block discipline for a stream of chunks. -/
structure Disciplined (chunks : List StreamChunk) (events : List ClaudeEvent) : Prop where
  wellFormed : WellFormedMessage events
  texts : ∀ kind, String.join (deltasOf kind events)
    = String.join ((received chunks).flatMap (·.inputs kind))

/-- Tool calls come before tokens, thinking comes before text, and tool calls are not all. -/
structure InOrder (chunks : List StreamChunk) : Prop where
  order : chunks.Pairwise fun a b =>
    (a.isToken → b.callsTools = false) ∧ (a.isText → b.isThinking = false)
  tokens : (∃ c ∈ chunks, c.callsTools) → ∃ c ∈ chunks, c.isToken

/-! ## Reading the events -/

/-- The events of blocks among the events of a message. -/
def blocksOf (events : List ClaudeEvent) : List (BlockEvent BlockKind String) :=
  events.filterMap (·.blockEvent?)

namespace ClaudeStream

/-- Where a client is that read what the adapter sent, when all is in order. -/
def scan (s : ClaudeStream) : BlockScan BlockKind :=
  if s.textBlockStarted then ⟨s.textBlockIndex, some .text⟩
  else if s.thinkingBlockStarted then ⟨s.thinkingBlockIndex, some .thinking⟩
  else ⟨s.nextBlockIndex, none⟩

/-- The indices belong to the blocks they are named after. -/
structure Placed (s : ClaudeStream) : Prop where
  nonneg : 0 ≤ s.nextBlockIndex
  text : s.textBlockIndex = -1 ↔ s.textBlockStarted = false
  thinking : s.thinkingBlockStarted → s.textBlockStarted = false →
    s.nextBlockIndex = s.thinkingBlockIndex + 1

/-- What is left is in order, after what the adapter has seen and numbered. -/
structure Rest (thinking text : Bool) (next : Int) (chunks : List StreamChunk) : Prop where
  order : chunks.Pairwise fun a b =>
    (a.isToken → b.callsTools = false) ∧ (a.isText → b.isThinking = false)
  noTools : thinking ∨ text → ∀ c ∈ chunks, c.callsTools = false
  noThinking : text → ∀ c ∈ chunks, c.isThinking = false
  tokens : 0 < next ∨ (∃ c ∈ chunks, c.callsTools) →
    thinking ∨ text ∨ ∃ c ∈ chunks, c.isToken

/-- The state of the adapter that decides about the rest. -/
def InOrderAfter (s : ClaudeStream) (chunks : List StreamChunk) : Prop :=
  Rest s.thinkingBlockStarted s.textBlockStarted s.nextBlockIndex chunks

/-- A client reads whole blocks from here on. -/
def Reads (scan : BlockScan BlockKind) (events : List ClaudeEvent) : Prop :=
  ∃ j, scan.run (blocksOf events) = some ⟨j, none⟩

variable {s : ClaudeStream}

theorem scan_text (h : s.textBlockStarted) :
    s.scan = ⟨s.textBlockIndex, some .text⟩ := by
  simp [scan, h]

theorem scan_thinking (h : s.thinkingBlockStarted)
    (ht : s.textBlockStarted = false) : s.scan = ⟨s.thinkingBlockIndex, some .thinking⟩ := by
  simp [scan, h, ht]

theorem scan_none (h : s.thinkingBlockStarted = false)
    (ht : s.textBlockStarted = false) : s.scan = ⟨s.nextBlockIndex, none⟩ := by
  simp [scan, h, ht]

variable {s : ClaudeStream} {chunks : List StreamChunk} {rest : List ClaudeEvent}

/-- No block starts while another one is open. -/
theorem not_reads_start {n i : Int} {k : BlockKind} {block : ClaudeBlock} :
    ¬ Reads ⟨n, some k⟩ (.contentBlockStart i block :: rest) := by
  intro ⟨j, h⟩
  simp [blocksOf, ClaudeEvent.blockEvent?, BlockScan.run, BlockScan.step] at h

theorem reads_nil (n : Int) : Reads ⟨n, none⟩ [] := ⟨n, rfl⟩

theorem reads_start (n : Int) (block : ClaudeBlock) :
    Reads ⟨n, none⟩ (.contentBlockStart n block :: rest) ↔ Reads ⟨n, some block.kind⟩ rest := by
  have hrun := BlockScan.run_start (i := n) (k := block.kind) (blocksOf rest)
  simp only [Reads, blocksOf, ClaudeEvent.blockEvent?, List.filterMap_cons] at hrun ⊢
  rw [hrun]

theorem reads_delta (n : Int) (delta : ClaudeDelta) :
    Reads ⟨n, some delta.parts.1⟩ (.contentBlockDelta n delta :: rest)
      ↔ Reads ⟨n, some delta.parts.1⟩ rest := by
  have hrun := BlockScan.run_deltas (i := n) (k := delta.parts.1) [delta.parts.2] (blocksOf rest)
  simp only [Reads, blocksOf, ClaudeEvent.blockEvent?, List.filterMap_cons, List.map_cons,
    List.map_nil, List.singleton_append] at hrun ⊢
  rw [hrun]

theorem reads_stop (n : Int) (k : BlockKind) :
    Reads ⟨n, some k⟩ (.contentBlockStop n :: rest) ↔ Reads ⟨n + 1, none⟩ rest := by
  have hrun := BlockScan.run_stop (i := n) (k := k) (blocksOf rest)
  simp only [Reads, blocksOf, ClaudeEvent.blockEvent?, List.filterMap_cons] at hrun ⊢
  rw [hrun]

/-! ## The steps of the adapter -/

variable (tools : List ToolCallItem)

/-- Tool calls while no block is open. -/
theorem toolUses_spec (s : ClaudeStream) :
    (s.toolUses tools).1 = { s with nextBlockIndex := s.nextBlockIndex + tools.length }
      ∧ ∀ rest, Reads ⟨s.nextBlockIndex, none⟩ ((s.toolUses tools).2 ++ rest)
        ↔ Reads ⟨s.nextBlockIndex + tools.length, none⟩ rest := by
  induction tools generalizing s with
  | nil => simp [toolUses]
  | cons tool tools ih =>
      obtain ⟨hstate, hreads⟩ := ih { s with nextBlockIndex := s.nextBlockIndex + 1 }
      have hlen : s.nextBlockIndex + 1 + tools.length
          = s.nextBlockIndex + (tool :: tools).length := by
        rw [List.length_cons]
        omega
      refine ⟨?_, fun rest => ?_⟩
      · rw [toolUses]
        simp only [hstate, hlen]
      · rw [← hlen, ← hreads rest]
        refine (reads_start _ _).trans ?_
        exact (reads_delta _ (.inputJson tool.arguments)).trans (reads_stop _ _)

/-- No tool is called while a block is open. -/
theorem not_reads_toolUses {n : Int} {k : BlockKind} {tools : List ToolCallItem}
    (h : tools ≠ []) : ¬ Reads ⟨n, some k⟩ ((s.toolUses tools).2 ++ rest) := by
  cases tools with
  | nil => exact absurd rfl h
  | cons tool tools => exact not_reads_start

/-- A token of the thinking, before the text. -/
theorem thinkingToken_spec (h : s.Placed) (ht : s.textBlockStarted = false) (text : String) :
    (s.thinkingToken text).1.Placed ∧ (s.thinkingToken text).1.thinkingBlockStarted
      ∧ (s.thinkingToken text).1.textBlockStarted = false
      ∧ ∀ rest, Reads s.scan ((s.thinkingToken text).2 ++ rest)
        ↔ Reads (s.thinkingToken text).1.scan rest := by
  unfold thinkingToken
  by_cases hs : s.thinkingBlockStarted
  · rw [if_pos hs]
    refine ⟨h, hs, ht, fun rest => ?_⟩
    rw [scan_thinking hs ht]
    exact reads_delta _ (.thinking text)
  · rw [if_neg hs]
    have hnext := h.nonneg
    refine ⟨⟨by dsimp only; omega, h.text, fun _ _ => rfl⟩, rfl, ht, fun rest => ?_⟩
    have hscan : scan { s with
        thinkingBlockStarted := true
        thinkingBlockIndex := s.nextBlockIndex
        nextBlockIndex := s.nextBlockIndex + 1 } = ⟨s.nextBlockIndex, some .thinking⟩ :=
      scan_thinking rfl ht
    rw [scan_none (by simpa using hs) ht, hscan]
    exact (reads_start _ _).trans (reads_delta _ (.thinking text))

/-- The thinking does not go on after the text. -/
theorem not_reads_thinkingToken (ht : s.textBlockStarted) (text : String) :
    ¬ Reads s.scan ((s.thinkingToken text).2 ++ rest) := by
  rw [scan_text ht]
  unfold thinkingToken
  split
  · intro ⟨j, h⟩
    simp [blocksOf, ClaudeEvent.blockEvent?, BlockScan.run, BlockScan.step, ClaudeDelta.parts] at h
  · exact not_reads_start

/-- A token of the text. -/
theorem textToken_spec (h : s.Placed) (text : String) :
    (s.textToken text).1.Placed ∧ (s.textToken text).1.textBlockStarted
      ∧ (s.textToken text).1.thinkingBlockStarted = s.thinkingBlockStarted
      ∧ ∀ rest, Reads s.scan ((s.textToken text).2 ++ rest)
        ↔ Reads (s.textToken text).1.scan rest := by
  have hnext := h.nonneg
  unfold textToken
  by_cases ht : s.textBlockStarted
  · have hindex : s.textBlockIndex ≠ -1 := fun heq => by
      rw [h.text.mp heq] at ht
      cases ht
    have hclosing : ¬ (s.thinkingBlockStarted ∧ s.textBlockIndex = -1) := fun hc => hindex hc.2
    rw [if_pos ht, if_neg hclosing]
    refine ⟨h, ht, rfl, fun rest => ?_⟩
    rw [scan_text ht]
    exact reads_delta _ (.text text)
  · have ht : s.textBlockStarted = false := by simpa using ht
    have hindex : s.textBlockIndex = -1 := h.text.mpr ht
    rw [if_neg (by simp [ht])]
    refine ⟨⟨by dsimp only; omega, by dsimp only; simp; omega, fun _ hf => by cases hf⟩, rfl,
      rfl, fun rest => ?_⟩
    have hscan : scan { s with
        textBlockStarted := true
        textBlockIndex := s.nextBlockIndex
        nextBlockIndex := s.nextBlockIndex + 1 } = ⟨s.nextBlockIndex, some .text⟩ :=
      scan_text rfl
    rw [hscan]
    by_cases hs : s.thinkingBlockStarted
    · rw [if_pos ⟨hs, hindex⟩, scan_thinking hs ht, h.thinking hs ht]
      exact (reads_stop _ _).trans ((reads_start _ _).trans (reads_delta _ (.text text)))
    · rw [if_neg fun hc => hs hc.1, scan_none (by simpa using hs) ht]
      exact (reads_start _ _).trans (reads_delta _ (.text text))

/-- The end of the message closes what is open, and is out of place after tool calls alone. -/
theorem reads_closeBlocks (h : s.Placed) :
    Reads s.scan s.closeBlocks ↔ s.InOrderAfter [] := by
  have hnext := h.nonneg
  unfold closeBlocks
  by_cases ht : s.textBlockStarted
  · have hindex : s.textBlockIndex ≠ -1 := fun heq => by
      rw [h.text.mp heq] at ht
      cases ht
    rw [if_neg fun hc => hindex hc.2, if_pos ht, if_neg fun hc => hc.2 ht, scan_text ht]
    refine iff_of_true ((reads_stop _ _).mpr (reads_nil _)) ?_
    exact ⟨.nil, by simp, by simp, fun _ => .inr (.inl ht)⟩
  · have ht' : s.textBlockStarted = false := by simpa using ht
    by_cases hs : s.thinkingBlockStarted
    · rw [if_pos ⟨hs, h.text.mpr ht'⟩, if_neg ht, if_neg fun hc => hc.1 hs, scan_thinking hs ht']
      refine iff_of_true ((reads_stop _ _).mpr (reads_nil _)) ?_
      exact ⟨.nil, by simp, by simp, fun _ => .inl hs⟩
    · have hs' : s.thinkingBlockStarted = false := by simpa using hs
      rw [if_neg fun hc => hs hc.1, if_neg ht, if_pos ⟨hs, ht⟩, scan_none hs' ht']
      constructor
      · intro ⟨j, hj⟩
        have hzero : s.nextBlockIndex = 0 := by
          by_contra hne
          simp [blocksOf, ClaudeEvent.blockEvent?, BlockScan.run, BlockScan.step, Ne.symm hne] at hj
        exact ⟨.nil, by simp, by simp, fun hc => by simp [hzero] at hc⟩
      · intro hrest
        have hzero : s.nextBlockIndex = 0 := by
          by_contra hne
          have := hrest.tokens (.inl (by omega))
          simp [hs', ht'] at this
        rw [hzero]
        exact (reads_start _ _).mpr ((reads_stop _ _).mpr (reads_nil _))

/-! ## The whole message -/

section Order

variable {thinking text : Bool} {next : Int}

variable {c : StreamChunk}

theorem rest_token (hc : c.isToken) (htools : c.callsTools = false)
    (ht : text → c.isThinking = false) :
    Rest thinking text next (c :: chunks)
      ↔ Rest (thinking || c.isThinking) (text || c.isText) next chunks := by
  have hkind : c.isThinking ∨ c.isText := by
    cases c with
    | token s isThinking finishReason usage => cases isThinking <;> simp [StreamChunk.isThinking,
        StreamChunk.isText]
    | _ => cases hc
  constructor
  · intro h
    obtain ⟨hhead, htail⟩ := List.pairwise_cons.mp h.order
    refine ⟨htail, fun _ b hb => (hhead b hb).1 hc, fun hx b hb => ?_, fun _ => ?_⟩
    · rcases Bool.or_eq_true_iff.mp hx with hx | hx
      · exact h.noThinking hx b (List.mem_cons_of_mem _ hb)
      · exact (hhead b hb).2 hx
    · rcases hkind with hk | hk
      · exact .inl (by simp [hk])
      · exact .inr (.inl (by simp [hk]))
  · intro h
    have hopen : (thinking || c.isThinking) = true ∨ (text || c.isText) = true := by
      rcases hkind with hk | hk <;> simp [hk]
    refine ⟨List.pairwise_cons.mpr ⟨fun b hb => ⟨fun _ => h.noTools hopen b hb, fun hx => ?_⟩,
      h.order⟩, fun _ => ?_, fun hx => ?_, fun _ => .inr (.inr ⟨c, List.mem_cons_self, hc⟩)⟩
    · exact h.noThinking (by simp [hx]) b hb
    · exact List.forall_mem_cons.mpr ⟨htools, h.noTools hopen⟩
    · exact List.forall_mem_cons.mpr ⟨ht hx, h.noThinking (by simp [hx])⟩

/-- Tool calls may still come, and a token must come after them. -/
theorem rest_toolCall {toolCalls : List ToolCallItem} {usage : Option Usage} (hnext : 0 ≤ next) :
    Rest false false next (.toolCall toolCalls usage :: chunks)
      ↔ Rest false false (next + toolCalls.length) chunks := by
  have hcalls : (StreamChunk.toolCall toolCalls usage).callsTools ↔ 0 < toolCalls.length := by
    simp [StreamChunk.callsTools, List.length_pos_iff]
  constructor
  · intro h
    refine ⟨(List.pairwise_cons.mp h.order).2, fun hf => (by simp at hf), fun hf => (by cases hf),
      fun hx => ?_⟩
    have hsome : 0 < next ∨ ∃ c ∈ .toolCall toolCalls usage :: chunks, c.callsTools := by
      rcases hx with hx | ⟨c, hc, hx⟩
      · by_cases hlen : 0 < toolCalls.length
        · exact .inr ⟨_, List.mem_cons_self, hcalls.mpr hlen⟩
        · exact .inl (by omega)
      · exact .inr ⟨c, List.mem_cons_of_mem _ hc, hx⟩
    obtain hf | hf | ⟨c, hc, ht⟩ := h.tokens hsome
    · cases hf
    · cases hf
    · rcases List.mem_cons.mp hc with rfl | hc
      · cases ht
      · exact .inr (.inr ⟨c, hc, ht⟩)
  · intro h
    refine ⟨List.pairwise_cons.mpr ⟨fun b _ => ⟨fun hf => (by cases hf), fun hf => (by cases hf)⟩,
      h.order⟩, fun hf => (by simp at hf), fun hf => (by cases hf), fun hx => ?_⟩
    have hsome : 0 < next + toolCalls.length ∨ ∃ c ∈ chunks, c.callsTools := by
      rcases hx with hx | ⟨c, hc, hx⟩
      · exact .inl (by omega)
      · rcases List.mem_cons.mp hc with rfl | hc
        · have := hcalls.mp hx
          exact .inl (by omega)
        · exact .inr ⟨c, hc, hx⟩
    obtain hf | hf | ⟨c, hc, ht⟩ := h.tokens hsome
    · cases hf
    · cases hf
    · exact .inr (.inr ⟨c, List.mem_cons_of_mem _ hc, ht⟩)

/-- A chunk without a tool call and without a token changes nothing. -/
theorem rest_nothing (hc : c.isToken = false) (htools : c.callsTools = false) :
    Rest thinking text next (c :: chunks) ↔ Rest thinking text next chunks := by
  have hkind : c.isThinking = false ∧ c.isText = false := by
    cases c with
    | token s isThinking finishReason usage => cases hc
    | _ => exact ⟨rfl, rfl⟩
  constructor
  · intro h
    refine ⟨(List.pairwise_cons.mp h.order).2,
      fun hx b hb => h.noTools hx b (List.mem_cons_of_mem _ hb),
      fun hx b hb => h.noThinking hx b (List.mem_cons_of_mem _ hb), fun hx => ?_⟩
    have hsome : 0 < next ∨ ∃ b ∈ c :: chunks, b.callsTools :=
      hx.imp_right fun ⟨b, hb, hx⟩ => ⟨b, List.mem_cons_of_mem _ hb, hx⟩
    refine (h.tokens hsome).imp_right (Or.imp_right fun ⟨b, hb, ht⟩ => ⟨b, ?_, ht⟩)
    rcases List.mem_cons.mp hb with rfl | hb
    · rw [hc] at ht
      cases ht
    · exact hb
  · intro h
    refine ⟨List.pairwise_cons.mpr ⟨fun b _ => ⟨fun hf => ?_, fun hf => ?_⟩, h.order⟩,
      fun hx => List.forall_mem_cons.mpr ⟨htools, h.noTools hx⟩,
      fun hx => List.forall_mem_cons.mpr ⟨hkind.1, h.noThinking hx⟩, fun hx => ?_⟩
    · rw [hc] at hf
      cases hf
    · rw [hkind.2] at hf
      cases hf
    · have hsome : 0 < next ∨ ∃ b ∈ chunks, b.callsTools := by
        refine hx.imp_right fun ⟨b, hb, hcalls⟩ => ⟨b, ?_, hcalls⟩
        rcases List.mem_cons.mp hb with rfl | hb
        · rw [htools] at hcalls
          cases hcalls
        · exact hb
      exact (h.tokens hsome).imp_right
        (Or.imp_right fun ⟨b, hb, ht⟩ => ⟨b, List.mem_cons_of_mem _ hb, ht⟩)

/-- The number of blocks does not matter once there is a token. -/
theorem rest_next {next' : Int} (h : thinking ∨ text) :
    Rest thinking text next chunks ↔ Rest thinking text next' chunks := by
  have htokens : thinking = true ∨ text = true ∨ ∃ c ∈ chunks, c.isToken :=
    h.imp_right .inl
  exact ⟨fun hr => ⟨hr.order, hr.noTools, hr.noThinking, fun _ => htokens⟩,
    fun hr => ⟨hr.order, hr.noTools, hr.noThinking, fun _ => htokens⟩⟩

end Order

/-- **The events of the rest are whole blocks exactly when the rest is in order.** -/
theorem reads_loop (h : s.Placed) (chunks : List StreamChunk) :
    Reads s.scan ((s.loop chunks).2 ++ (s.loop chunks).1.closeBlocks)
      ↔ s.InOrderAfter (received chunks) := by
  induction chunks generalizing s with
  | nil => exact reads_closeBlocks h
  | cons c chunks ih =>
      cases c with
      | prefillProgress processedTokens totalTokens => exact ih h
      | error errorMessage => exact reads_closeBlocks h
      | toolCall toolCalls usage =>
          rw [loop, received, List.append_assoc]
          generalize hs₁ : { s with
            lastUsage := usage.or s.lastUsage, stopReason := some .toolUse } = s₁
          have hscan : s₁.scan = s.scan := by rw [← hs₁]; rfl
          have hplaced : s₁.Placed := by rw [← hs₁]; exact ⟨h.nonneg, h.text, h.thinking⟩
          have horder : s.InOrderAfter (.toolCall toolCalls usage :: received chunks)
              ↔ s₁.InOrderAfter (.toolCall toolCalls usage :: received chunks) := by
            rw [← hs₁]
            rfl
          rw [← hscan, horder]
          by_cases hopen : s₁.thinkingBlockStarted ∨ s₁.textBlockStarted
          · by_cases hnil : toolCalls = []
            · -- an empty list of calls
              subst hnil
              exact (ih hplaced).trans (rest_nothing rfl rfl).symm
            · refine iff_of_false ?_ fun hrest => ?_
              · obtain ⟨k, n, hopened⟩ : ∃ k n, s₁.scan = ⟨n, some k⟩ := by
                  by_cases ht : s₁.textBlockStarted
                  · exact ⟨_, _, scan_text ht⟩
                  · exact ⟨_, _, scan_thinking (hopen.resolve_right ht) (by simpa using ht)⟩
                rw [hopened]
                exact not_reads_toolUses hnil
              · have := hrest.noTools hopen _ List.mem_cons_self
                simp [StreamChunk.callsTools, hnil] at this
          · rw [not_or, Bool.not_eq_true, Bool.not_eq_true] at hopen
            obtain ⟨hs, ht⟩ := hopen
            obtain ⟨hstate, hreads⟩ := toolUses_spec toolCalls s₁
            have hnext := hplaced.nonneg
            have hs₂ : (s₁.toolUses toolCalls).1.thinkingBlockStarted = false := by
              rw [hstate]
              exact hs
            have ht₂ : (s₁.toolUses toolCalls).1.textBlockStarted = false := by
              rw [hstate]
              exact ht
            have hn₂ : (s₁.toolUses toolCalls).1.nextBlockIndex
                = s₁.nextBlockIndex + toolCalls.length := by
              rw [hstate]
            have hplaced₂ : (s₁.toolUses toolCalls).1.Placed := by
              rw [hstate]
              exact ⟨by dsimp only; omega, hplaced.text, fun hf => by rw [hs] at hf; cases hf⟩
            rw [scan_none hs ht, hreads, ← hn₂, ← scan_none hs₂ ht₂, ih hplaced₂, InOrderAfter,
              InOrderAfter, hs, ht, hs₂, ht₂, hn₂]
            exact (rest_toolCall hplaced.nonneg).symm
      | token t isThinking finishReason usage =>
          rw [loop, received, List.append_assoc]
          generalize hs₁ : { s with
            lastUsage := usage.or s.lastUsage, outputTokens := s.outputTokens + 1 } = s₁
          have hscan : s₁.scan = s.scan := by rw [← hs₁]; rfl
          have hplaced : s₁.Placed := by rw [← hs₁]; exact ⟨h.nonneg, h.text, h.thinking⟩
          have horder : s.InOrderAfter (.token t isThinking finishReason usage :: received chunks)
              ↔ s₁.InOrderAfter (.token t isThinking finishReason usage :: received chunks) := by
            rw [← hs₁]
            rfl
          rw [← hscan, horder]
          by_cases hafter : isThinking = true ∧ s₁.textBlockStarted = true
          · -- thinking after the text
            obtain ⟨rfl, ht⟩ := hafter
            refine iff_of_false (not_reads_thinkingToken ht t) fun hrest => ?_
            have := hrest.noThinking ht _ List.mem_cons_self
            cases this
          · -- the token goes into its block
            have hstep : ∃ s₂ events, (if isThinking then s₁.thinkingToken t else s₁.textToken t)
                = (s₂, events) ∧ s₂.Placed
                ∧ s₂.thinkingBlockStarted = (s₁.thinkingBlockStarted || isThinking)
                ∧ s₂.textBlockStarted = (s₁.textBlockStarted || !isThinking)
                ∧ ∀ rest, Reads s₁.scan (events ++ rest) ↔ Reads s₂.scan rest := by
              cases isThinking with
              | true =>
                  have ht : s₁.textBlockStarted = false := by simpa using hafter
                  obtain ⟨hp, hs, ht', hreads⟩ := thinkingToken_spec hplaced ht t
                  exact ⟨_, _, rfl, hp, hs.trans (by simp), ht'.trans (by simp [ht]), hreads⟩
              | false =>
                  obtain ⟨hp, ht, hs, hreads⟩ := textToken_spec hplaced t
                  exact ⟨_, _, rfl, hp, hs.trans (by simp), ht.trans (by simp), hreads⟩
            obtain ⟨s₂, events, hresult, hplaced₂, hs, ht, hreads⟩ := hstep
            rw [hresult]
            dsimp only
            generalize hs₃ : { s₂ with stopReason :=
              (finishReason.map finishReasonToClaudeStopReason).or s₂.stopReason } = s₃
            have hscan₃ : s₃.scan = s₂.scan := by rw [← hs₃]; rfl
            have hplaced₃ : s₃.Placed := by
              rw [← hs₃]
              exact ⟨hplaced₂.nonneg, hplaced₂.text, hplaced₂.thinking⟩
            have hs₃' : s₃.thinkingBlockStarted = (s₁.thinkingBlockStarted || isThinking) := by
              rw [← hs₃]
              exact hs
            have ht₃' : s₃.textBlockStarted = (s₁.textBlockStarted || !isThinking) := by
              rw [← hs₃]
              exact ht
            rw [hreads, ← hscan₃, ih hplaced₃, InOrderAfter, InOrderAfter, hs₃', ht₃']
            have htoken : Rest s₁.thinkingBlockStarted s₁.textBlockStarted s₁.nextBlockIndex
                (.token t isThinking finishReason usage :: received chunks) ↔ _ :=
              rest_token rfl rfl fun ht => by
                by_contra hk
                exact hafter ⟨by simpa [StreamChunk.isThinking] using hk, ht⟩
            refine (rest_next ?_).trans htoken.symm
            cases isThinking <;> simp

/-! ## What the events say -/

/-- There are only events of blocks. -/
def OnlyBlocks (events : List ClaudeEvent) : Prop := ∀ e ∈ events, e.blockEvent?.isSome

theorem OnlyBlocks.append {es es' : List ClaudeEvent} (h : OnlyBlocks es) (h' : OnlyBlocks es') :
    OnlyBlocks (es ++ es') := fun e he => (List.mem_append.mp he).elim (h e) (h' e)

theorem onlyBlocks_toolUses (s : ClaudeStream) :
    OnlyBlocks (s.toolUses tools).2 := by
  induction tools generalizing s with
  | nil => simp [toolUses, OnlyBlocks]
  | cons tool tools ih =>
      have hrest := ih { s with nextBlockIndex := s.nextBlockIndex + 1 }
      have hblock : OnlyBlocks [.contentBlockStart s.nextBlockIndex
          (.toolUse ("toolu_" ++ tool.id) tool.name),
          .contentBlockDelta s.nextBlockIndex (.inputJson tool.arguments),
          .contentBlockStop s.nextBlockIndex] := by
        simp [OnlyBlocks, ClaudeEvent.blockEvent?]
      exact hblock.append hrest

theorem onlyBlocks_thinkingToken (s : ClaudeStream) (text : String) :
    OnlyBlocks (s.thinkingToken text).2 := by
  unfold thinkingToken
  split <;> simp [OnlyBlocks, ClaudeEvent.blockEvent?]

theorem onlyBlocks_textToken (s : ClaudeStream) (text : String) :
    OnlyBlocks (s.textToken text).2 := by
  have hclosing : OnlyBlocks (if s.thinkingBlockStarted ∧ s.textBlockIndex = -1
      then [.contentBlockStop s.thinkingBlockIndex] else []) := by
    split <;> simp [OnlyBlocks, ClaudeEvent.blockEvent?]
  unfold textToken
  by_cases ht : s.textBlockStarted
  · rw [if_pos ht]
    exact hclosing.append (by simp [OnlyBlocks, ClaudeEvent.blockEvent?])
  · rw [if_neg ht]
    exact hclosing.append (by simp [OnlyBlocks, ClaudeEvent.blockEvent?])

theorem onlyBlocks_closeBlocks (s : ClaudeStream) : OnlyBlocks s.closeBlocks := by
  unfold closeBlocks
  refine (OnlyBlocks.append ?_ ?_).append ?_ <;> split <;>
    simp [OnlyBlocks, ClaudeEvent.blockEvent?]

theorem onlyBlocks_loop (chunks : List StreamChunk) (s : ClaudeStream) :
    OnlyBlocks (s.loop chunks).2 := by
  induction chunks generalizing s with
  | nil => simp [loop, OnlyBlocks]
  | cons c chunks ih =>
      cases c with
      | prefillProgress processedTokens totalTokens => exact ih s
      | error errorMessage => simp [loop, OnlyBlocks]
      | toolCall toolCalls usage => exact (onlyBlocks_toolUses toolCalls _).append (ih _)
      | token t isThinking finishReason usage =>
          cases isThinking with
          | true => exact (onlyBlocks_thinkingToken _ t).append (ih _)
          | false => exact (onlyBlocks_textToken _ t).append (ih _)

variable {kind : BlockKind}

@[simp] theorem deltasOf_append (es es' : List ClaudeEvent) :
    deltasOf kind (es ++ es') = deltasOf kind es ++ deltasOf kind es' :=
  List.filterMap_append

theorem deltasOf_toolUses (s : ClaudeStream) :
    deltasOf kind (s.toolUses tools).2
      = if kind = .toolUse then tools.map (·.arguments) else [] := by
  induction tools generalizing s with
  | nil => simp [toolUses, deltasOf]
  | cons tool tools ih =>
      have hrest := ih { s with nextBlockIndex := s.nextBlockIndex + 1 }
      cases kind <;> simpa [toolUses, deltasOf, ClaudeDelta.parts] using hrest

theorem deltasOf_thinkingToken (s : ClaudeStream) (text : String) :
    deltasOf kind (s.thinkingToken text).2 = if kind = .thinking then [text] else [] := by
  unfold thinkingToken
  split <;> cases kind <;> simp [deltasOf, ClaudeDelta.parts]

theorem deltasOf_textToken (s : ClaudeStream) (text : String) :
    deltasOf kind (s.textToken text).2 = if kind = .text then [text] else [] := by
  have hclosing : deltasOf kind (if s.thinkingBlockStarted ∧ s.textBlockIndex = -1
      then [.contentBlockStop s.thinkingBlockIndex] else []) = [] := by
    split <;> rfl
  unfold textToken
  by_cases ht : s.textBlockStarted
  · rw [if_pos ht, deltasOf_append, hclosing]
    cases kind <;> rfl
  · rw [if_neg ht, deltasOf_append, hclosing]
    cases kind <;> rfl

theorem deltasOf_closeBlocks (s : ClaudeStream) : deltasOf kind s.closeBlocks = [] := by
  unfold closeBlocks
  simp only [deltasOf_append, List.append_eq_nil_iff]
  refine ⟨⟨?_, ?_⟩, ?_⟩ <;> split <;> rfl

/-- The deltas of a kind are what came in for it, in order. -/
theorem deltasOf_loop (chunks : List StreamChunk) (s : ClaudeStream) :
    deltasOf kind (s.loop chunks).2 = (received chunks).flatMap (·.inputs kind) := by
  induction chunks generalizing s with
  | nil => rfl
  | cons c chunks ih =>
      cases c with
      | prefillProgress processedTokens totalTokens => exact ih s
      | error errorMessage => rfl
      | toolCall toolCalls usage =>
          rw [loop, received, List.flatMap_cons]
          simp only [deltasOf_append, ih, deltasOf_toolUses, StreamChunk.inputs]
      | token t isThinking finishReason usage =>
          rw [loop, received, List.flatMap_cons]
          cases isThinking with
          | true =>
              simp only [if_true, deltasOf_append, ih, deltasOf_thinkingToken, StreamChunk.inputs]
          | false =>
              simp only [if_false, Bool.false_eq_true, deltasOf_append, ih, deltasOf_textToken,
                StreamChunk.inputs]

end ClaudeStream

/-- A message is well formed when a client reads whole blocks from 0 on. -/
theorem wellFormedMessage_iff {id model : String} {body : List ClaudeEvent}
    {stopReason : Option ClaudeStopReason} {outputTokens : Nat}
    (hbody : ClaudeStream.OnlyBlocks body) :
    WellFormedMessage (.messageStart id model :: body
        ++ [.messageDelta stopReason outputTokens, .messageStop])
      ↔ ClaudeStream.Reads ⟨0, none⟩ body := by
  have hmap : body.map (·.blockEvent?) = (blocksOf body).map some := by
    rw [blocksOf]
    induction body with
    | nil => rfl
    | cons e body ih =>
        obtain ⟨b, hb⟩ := Option.isSome_iff_exists.mp (hbody e List.mem_cons_self)
        have hrest := ih fun e he => hbody e (List.mem_cons_of_mem _ he)
        rw [List.map_cons, hrest, List.filterMap_cons_some hb, hb, List.map_cons]
  have hinj : Function.Injective (List.map (some (α := BlockEvent BlockKind String))) :=
    List.map_injective_iff.mpr fun _ _ => Option.some.inj
  unfold ClaudeStream.Reads
  rw [BlockScan.run_eq_some_iff]
  constructor
  · intro ⟨_, _, body', _, _, blocks, heq, hblocks⟩
    rw [List.cons_append, List.cons_append, List.cons.injEq] at heq
    obtain ⟨rfl, -⟩ := List.append_inj' heq.2 rfl
    exact ⟨blocks, hinj (hmap.symm.trans hblocks)⟩
  · intro ⟨blocks, hblocks⟩
    exact ⟨id, model, body, stopReason, outputTokens, blocks, rfl, by rw [hmap, hblocks]⟩

section Stream

variable (commandId model : String) (chunkStream : List StreamChunk)

/-- The events between the ends of the message. -/
def claudeBody : List ClaudeEvent :=
  (({} : ClaudeStream).loop chunkStream).2 ++ (({} : ClaudeStream).loop chunkStream).1.closeBlocks

theorem generateClaudeStream_shape : ∃ stopReason outputTokens,
    generateClaudeStream commandId model chunkStream
      = .messageStart ("msg_" ++ commandId) model :: claudeBody chunkStream
        ++ [.messageDelta stopReason outputTokens, .messageStop] := by
  set s := (({} : ClaudeStream).loop chunkStream).1 with hs
  refine ⟨s.stopReason, (s.lastUsage.map (·.completionTokens)).getD s.outputTokens, ?_⟩
  simp [generateClaudeStream, claudeBody, hs]

theorem wellFormed_generateClaudeStream :
    WellFormedMessage (generateClaudeStream commandId model chunkStream)
      ↔ ClaudeStream.Reads ⟨0, none⟩ (claudeBody chunkStream) := by
  obtain ⟨_, _, hshape⟩ := generateClaudeStream_shape commandId model chunkStream
  rw [hshape]
  exact wellFormedMessage_iff
    ((ClaudeStream.onlyBlocks_loop chunkStream _).append (ClaudeStream.onlyBlocks_closeBlocks _))

/-- No text is lost, whatever the blocks look like. -/
theorem deltasOf_generateClaudeStream (kind : BlockKind) :
    deltasOf kind (generateClaudeStream commandId model chunkStream)
      = (received chunkStream).flatMap (·.inputs kind) := by
  obtain ⟨_, _, hshape⟩ := generateClaudeStream_shape commandId model chunkStream
  rw [hshape, ClaudeStream.deltasOf_append, ← List.singleton_append, ClaudeStream.deltasOf_append,
    claudeBody, ClaudeStream.deltasOf_append, ClaudeStream.deltasOf_loop,
    ClaudeStream.deltasOf_closeBlocks]
  simp [deltasOf]

/--
**The blocks are in order exactly when the chunks are**: tool calls come before every token, the
thinking does not go on after the text, and after tool calls there is a token.
-/
theorem generateClaudeStream_disciplined_iff :
    Disciplined chunkStream (generateClaudeStream commandId model chunkStream)
      ↔ InOrder (received chunkStream) := by
  have hplaced : ({} : ClaudeStream).Placed :=
    ⟨Int.le_refl 0, by simp, fun hf => by cases hf⟩
  have hrest : ({} : ClaudeStream).InOrderAfter (received chunkStream)
      ↔ InOrder (received chunkStream) := by
    constructor
    · intro h
      refine ⟨h.order, fun hcalls => ?_⟩
      simpa using h.tokens (.inr hcalls)
    · intro h
      refine ⟨h.order, by simp, by simp, fun hcalls => .inr (.inr (h.tokens ?_))⟩
      exact hcalls.resolve_left (by simp)
  have hreads : ClaudeStream.Reads ⟨0, none⟩ (claudeBody chunkStream) ↔ _ :=
    ClaudeStream.reads_loop hplaced chunkStream
  rw [← hrest, ← hreads, ← wellFormed_generateClaudeStream commandId model]
  constructor
  · exact fun h => h.wellFormed
  · intro h
    refine ⟨h, fun kind => ?_⟩
    rw [deltasOf_generateClaudeStream]

end Stream

/-- A tool that is called after some thinking opens its block inside the one of the thinking. -/
theorem generateClaudeStream_tool_while_thinking :
    ¬ Disciplined
      [.token "Let me look." true none none,
        .toolCall [⟨"1", "read", "\x7b\x7d"⟩] none]
      (generateClaudeStream "0" "m" [.token "Let me look." true none none,
        .toolCall [⟨"1", "read", "\x7b\x7d"⟩] none]) := by
  intro h
  obtain ⟨j, hj⟩ := (wellFormed_generateClaudeStream "0" "m" _).mp h.wellFormed
  cases hj

end Exo
