import Exo.Api.RequestImages

/-!
# The texts of a conversation

The template of a model is given messages; a text that is in none of them is not read. The
adapters sort each message into one of several kinds, and what its kind does not ask for is left
out: a text beside the result of a tool, a result beside the call of one, a string that follows
the images of a system message.
-/

namespace Exo

open Exo.Lib

variable {Value : Type} {lib : RequestLibrary Value}

/-! ## What is promised -/

def ContentPart.text? : ContentPart → Option String
  | .text t => some t
  | .image _ => none

def TemplateContent.texts : TemplateContent → List String
  | .text t => [t]
  | .parts ps => ps.filterMap (·.text?)

/-- The texts of the messages, one after the other. -/
def templateTexts (messages : List (TemplateMessage Value)) : List String :=
  messages.flatMap (·.content.texts)

/-- Each text that is not empty is part of one content, in order; contents are nothing else. -/
def Appear (texts contents : List String) : Prop :=
  ∃ groups : List (List String),
    groups.flatten = texts.filter (· ≠ "") ∧ groups.map String.join = contents

/-- The turn of a user or of an assistant that an entry of the input was made from. -/
def InputMessage.turn? (entry : InputMessage) : Option (Nat × MessageRole) :=
  match entry.role with
  | .user | .assistant => entry.origin.map (·, entry.role)
  | _ => none

/--
The texts of a request appear in the messages for the template, and each turn of a user or of an
assistant has one entry in the input.
-/
def Conserves (texts : List String) (turns : List (Nat × MessageRole)) :
    Except ConversionError (TextGenerationTaskParams Value) → Prop
  | .ok params => Appear texts (templateTexts (params.chatTemplateMessages.getD []))
      ∧ params.input.filterMap (·.turn?) = turns
  | .error _ => True

/-! ## The texts of a request -/

def MessageRole.isTurn : MessageRole → Bool
  | .user | .assistant => true
  | _ => false

/-- The messages of users and assistants, by their number. -/
def turns {α : Type} (role : α → MessageRole) (messages : List α) : List (Nat × MessageRole) :=
  ((enumerate messages).filter fun p => (role p.2).isTurn).map fun p => (p.1, role p.2)

def ClaudeToolResultBlock.texts (block : ClaudeToolResultBlock) : List String :=
  match block.content with
  | none => []
  | some (.text t) => [t]
  | some (.blocks bs) => bs.filterMap (·.text?)

/-- The text of a block, or those of a tool's result. -/
def ClaudeInputContentBlock.texts : ClaudeInputContentBlock Value → List String
  | .text t => [t]
  | .toolResult result => result.texts
  | _ => []

def ClaudeMessage.texts (msg : ClaudeMessage Value) : List String :=
  match msg.content with
  | .text t => [t]
  | .blocks bs => bs.flatMap (·.texts)

def ClaudeMessagesRequest.texts (request : ClaudeMessagesRequest Value) : List String :=
  request.systemText.toList ++ request.messages.flatMap (·.texts)

def ResponseContent.texts : ResponseContent → List String
  | .text t => [t]
  | .parts ps => ps.filterMap (·.text?)

/-- What an item says, and the output of a tool. -/
def ResponseInputItem.texts (lib : RequestLibrary Value) : ResponseInputItem Value → List String
  | .message _ content => content.texts
  | .functionCallOutput _ output | .localShellCallOutput _ output | .shellCallOutput _ output
  | .applyPatchCallOutput _ output | .customToolCallOutput _ output | .toolSearchOutput _ output
  | .computerCallOutput _ (.inl output) => [output]
  | .computerCallOutput _ (.inr output) => [lib.jsonDumps output]
  | .reasoning content summary => [joinD "" (reasoningEntries content summary)]
  | .compaction summary => [summary]
  | .mcpListTools serverLabel names =>
      if joinD ", " names = "" then []
      else ["Available MCP tools (" ++ serverLabel ++ "): " ++ joinD ", " names]
  | .mcpApprovalResponse _ approve reason =>
      [(if approve then "Approved" else "Denied") ++ if reason = "" then "" else ": " ++ reason]
  | _ => []

/-- When the input makes no messages, those of the template are the client's own, if any. -/
def ResponsesRequest.texts (lib : RequestLibrary Value) (request : ResponsesRequest Value) :
    List String :=
  if request.speaks then
    request.instructions.toList ++ request.items.flatMap (·.texts lib)
  else templateTexts (request.chatTemplateMessages.getD [])

/-- The role of a message; of other items there are no turns. -/
def ResponseInputItem.role : ResponseInputItem Value → MessageRole
  | .message role _ => role.toRole
  | _ => .tool

/-- A plain string is the turn of a user. -/
def ResponsesRequest.turns (request : ResponsesRequest Value) : List (Nat × MessageRole) :=
  match request.input with
  | .text _ => [(0, .user)]
  | .items is => Exo.turns (·.role) is

def OllamaChatRequest.texts (request : OllamaChatRequest Value) : List String :=
  request.messages.flatMap (·.content.toList)

/-! ## When it is kept -/

/-- The results of a message's tools. -/
def ClaudeMessage.toolResults (msg : ClaudeMessage Value) : List ClaudeToolResultBlock :=
  msg.blocks.filterMap (·.toolResult?)

def ClaudeInputContentBlock.isToolUse : ClaudeInputContentBlock Value → Bool
  | .toolUse .. => true
  | _ => false

/-- Beside a call no result says anything, and beside results no text does. -/
structure ClaudeMessage.TextsInPlace (msg : ClaudeMessage Value) : Prop where
  results : msg.blocks.any (·.isToolUse) = true →
    ∀ result ∈ msg.toolResults, ∀ text ∈ result.texts, text = ""
  texts : msg.blocks.any (·.isToolUse) = false → msg.toolResults ≠ [] →
    ∀ text ∈ msg.blocks.filterMap (·.text?), text = ""

/-- A string is left out when the images of a system message want their places. -/
def ResponseInputItem.Heard (carried : Bool) : ResponseInputItem Value → Prop
  | .message role (.text t) => role ≠ .system → carried = true → t = ""
  | _ => True

/-- As the items come. -/
def HeardFrom (carried : Bool) : List (Nat × ResponseInputItem Value) → Prop
  | [] => True
  | p :: l => p.2.Heard carried ∧ HeardFrom (p.2.carries carried p.1) l

/-- If nothing fails, no string of a turn comes next after a system message with images. -/
def ResponsesRequest.TextsInPlace (lib : RequestLibrary Value)
    (request : ResponsesRequest Value) : Prop :=
  (∀ p ∈ enumerate request.items, p.2.readable lib p.1) → HeardFrom false (enumerate request.items)

/-- The message says something, apart from its images. -/
def OllamaMessage.speaks (msg : OllamaMessage Value) : Bool :=
  msg.content.isSome || msg.thinking.isSome || msg.toolCalls.any (¬ ·.isEmpty)

/-- A turn has images or says something, and not both. -/
def OllamaMessage.TurnInPlace (msg : OllamaMessage Value) : Prop :=
  msg.role.toRole.isTurn = true → (msg.images.getD [] = [] ↔ msg.speaks = true)

/-! ## Texts and contents -/

/-- How long texts are together. -/
def size (texts : List String) : Nat := (texts.map String.length).sum

theorem size_append (texts texts' : List String) :
    size (texts ++ texts') = size texts + size texts' := by
  simp [size]

theorem size_join (texts : List String) : (String.join texts).length = size texts := by
  induction texts with
  | nil => rfl
  | cons t texts ih =>
      rw [String.join_cons, String.length_append, ih]
      simp [size]

variable {texts : List String}

theorem size_eq_zero : size texts = 0 ↔ ∀ t ∈ texts, t = "" := by
  induction texts with
  | nil => exact iff_of_true rfl fun t ht => absurd ht List.not_mem_nil
  | cons t texts ih =>
      have hcons : size (t :: texts) = t.length + size texts := rfl
      rw [hcons, Nat.add_eq_zero_iff, ih, List.forall_mem_cons, String.length_eq_zero_iff]

theorem size_filter (texts : List String) : size (texts.filter (· ≠ "")) = size texts := by
  induction texts with
  | nil => rfl
  | cons t texts ih =>
      rw [List.filter_cons]
      by_cases ht : t = ""
      · simpa [ht, size] using ih
      · simpa [ht, size] using ih

theorem join_filter (texts : List String) :
    String.join (texts.filter (· ≠ "")) = String.join texts := by
  induction texts with
  | nil => rfl
  | cons t texts ih =>
      rw [List.filter_cons]
      by_cases ht : t = "" <;> simp [ht, ← ih]

namespace Appear

variable {texts texts' contents contents' : List String}

theorem append (h : Appear texts contents) (h' : Appear texts' contents') :
    Appear (texts ++ texts') (contents ++ contents') := by
  obtain ⟨groups, hflat, hjoin⟩ := h
  obtain ⟨groups', hflat', hjoin'⟩ := h'
  exact ⟨groups ++ groups', by rw [List.flatten_append, hflat, hflat', List.filter_append],
    by rw [List.map_append, hjoin, hjoin']⟩

/-- Empty texts make no difference. -/
theorem congr (h : Appear texts contents) (heq : texts.filter (· ≠ "") = texts'.filter (· ≠ "")) :
    Appear texts' contents := by
  obtain ⟨groups, hflat, hjoin⟩ := h
  exact ⟨groups, hflat.trans heq, hjoin⟩

theorem nil : Appear [] [] := ⟨[], rfl, rfl⟩

theorem join (texts : List String) : Appear texts [String.join texts] :=
  ⟨[texts.filter (· ≠ "")], by simp, by rw [List.map_singleton, join_filter]⟩

theorem self (texts : List String) : Appear texts texts := by
  induction texts with
  | nil => exact nil
  | cons t texts ih =>
      have hone : Appear [t] [t] := by simpa using join [t]
      exact hone.append ih

theorem size_eq (h : Appear texts contents) : size contents = size texts := by
  obtain ⟨groups, hflat, rfl⟩ := h
  rw [← size_filter texts, ← hflat]
  clear hflat
  induction groups with
  | nil => rfl
  | cons group groups ih =>
      rw [List.flatten_cons, size_append, ← ih, List.map_cons, ← List.singleton_append,
        size_append]
      simp [size]

end Appear

/-- Contents that have the texts when something holds, and else less. -/
structure Keeps (texts contents : List String) (P : Prop) : Prop where
  le : size contents ≤ size texts
  appear : P → Appear texts contents
  all : size contents = size texts → P

variable {texts contents : List String}

variable {P : Prop}

theorem Keeps.iff (h : Keeps texts contents P) :
    Appear texts contents ↔ P :=
  ⟨fun ha => h.all ha.size_eq, h.appear⟩

theorem Keeps.append {texts texts' contents contents' : List String} {P Q : Prop}
    (h : Keeps texts contents P) (h' : Keeps texts' contents' Q) :
    Keeps (texts ++ texts') (contents ++ contents') (P ∧ Q) where
  le := by
    rw [size_append, size_append]
    exact Nat.add_le_add h.le h'.le
  appear := fun ⟨hp, hq⟩ => (h.appear hp).append (h'.appear hq)
  all := by
    rw [size_append, size_append]
    intro heq
    have hle := h.le
    have hle' := h'.le
    exact ⟨h.all (by omega), h'.all (by omega)⟩

theorem Keeps.of_appear (h : Appear texts contents) :
    Keeps texts contents True :=
  ⟨Nat.le_of_eq h.size_eq, fun _ => h, fun _ => trivial⟩

theorem Keeps.congr {P Q : Prop} (h : Keeps texts contents P)
    (hPQ : P ↔ Q) : Keeps texts contents Q :=
  ⟨h.le, fun hq => h.appear (hPQ.mpr hq), fun heq => hPQ.mp (h.all heq)⟩

theorem templateTexts_append (ms ms' : List (TemplateMessage Value)) :
    templateTexts (ms ++ ms') = templateTexts ms ++ templateTexts ms' :=
  List.flatMap_append

theorem templateTexts_params (s : Conversion Value) :
    templateTexts (s.params.chatTemplateMessages.getD [])
      = templateTexts s.chatTemplateMessages := by
  unfold Conversion.params
  cases s.chatTemplateMessages <;> rfl

/-- The entry of an input without messages is the turn of none. -/
theorem turns_params (s : Conversion Value) :
    s.params.input.filterMap (·.turn?) = s.inputMessages.filterMap (·.turn?) := by
  unfold Conversion.params
  cases s.inputMessages <;> rfl

/-- What a step adds to the contents and to the turns. -/
def Tells (s s' : Conversion Value) (texts : List String) (P : Prop)
    (turns : List (Nat × MessageRole)) : Prop :=
  (∃ contents, templateTexts s'.chatTemplateMessages
      = templateTexts s.chatTemplateMessages ++ contents ∧ Keeps texts contents P)
    ∧ s'.inputMessages.filterMap (·.turn?) = s.inputMessages.filterMap (·.turn?) ++ turns

theorem Tells.nil (s : Conversion Value) : Tells s s [] True [] :=
  ⟨⟨[], (List.append_nil _).symm, Keeps.of_appear Appear.nil⟩, (List.append_nil _).symm⟩

theorem Tells.append {s s' s'' : Conversion Value} {texts texts' : List String} {P Q : Prop}
    {turns turns' : List (Nat × MessageRole)} (h : Tells s s' texts P turns)
    (h' : Tells s' s'' texts' Q turns') :
    Tells s s'' (texts ++ texts') (P ∧ Q) (turns ++ turns') := by
  obtain ⟨⟨contents, heq, hkeeps⟩, hturns⟩ := h
  obtain ⟨⟨contents', heq', hkeeps'⟩, hturns'⟩ := h'
  refine ⟨⟨contents ++ contents', ?_, hkeeps.append hkeeps'⟩, ?_⟩
  · rw [heq', heq, List.append_assoc]
  · rw [hturns', hturns, List.append_assoc]

/-- Messages and entries are put at the end of the lists. -/
theorem tells_of_eq {s s' : Conversion Value} {messages : List (TemplateMessage Value)}
    {entries : List InputMessage}
    {turns : List (Nat × MessageRole)}
    (hmessages : s'.chatTemplateMessages = s.chatTemplateMessages ++ messages)
    (hentries : s'.inputMessages = s.inputMessages ++ entries)
    (hkeeps : Keeps texts (templateTexts messages) P)
    (hturns : entries.filterMap (·.turn?) = turns) : Tells s s' texts P turns :=
  ⟨⟨_, by rw [hmessages, templateTexts_append], hkeeps⟩,
    by rw [hentries, List.filterMap_append, hturns]⟩

/-- When what was told to nothing is conserved. -/
theorem conserves_params_iff {s : Conversion Value}
    {turns turns' : List (Nat × MessageRole)} (h : Tells {} s texts P turns) :
    Conserves texts turns' (.ok s.params) ↔ P ∧ turns = turns' := by
  obtain ⟨⟨contents, heq, hkeeps⟩, hturns⟩ := h
  rw [Conserves, templateTexts_params, turns_params, heq, hturns]
  exact and_congr_left' hkeeps.iff

/-- A run of steps that cannot fail. -/
theorem tells_foldl {σ α : Type} (view : σ → Conversion Value) {f : σ → Nat × α → σ}
    {texts : Nat × α → List String} {P : Nat × α → Prop}
    {turns : Nat × α → List (Nat × MessageRole)}
    (hstep : ∀ s p, Tells (view s) (view (f s p)) (texts p) (P p) (turns p)) (s : σ)
    (l : List (Nat × α)) :
    Tells (view s) (view (l.foldl f s)) (l.flatMap texts) (∀ p ∈ l, P p) (l.flatMap turns) := by
  induction l generalizing s with
  | nil => simpa using Tells.nil (view s)
  | cons p l ih =>
      rw [List.flatMap_cons, List.flatMap_cons, List.foldl_cons]
      simp only [List.forall_mem_cons]
      exact (hstep s p).append (ih (f s p))

/-- The turns of a run, message by message. -/
theorem turns_eq_flatMap {α : Type} (role : α → MessageRole) (messages : List α) :
    turns role messages = (enumerate messages).flatMap fun p =>
      if (role p.2).isTurn then [(p.1, role p.2)] else [] := by
  unfold turns
  induction enumerate messages with
  | nil => rfl
  | cons p l ih =>
      rw [List.filter_cons, List.flatMap_cons, ← ih]
      split <;> rfl

theorem flatMap_texts_enumerate {α : Type} (texts : α → List String) (messages : List α) :
    ((enumerate messages).flatMap fun p => texts p.2) = messages.flatMap texts := by
  conv => rhs; rw [← map_snd_enumerate messages, List.flatMap_map]

/-! ## Claude -/

section Claude

theorem turns_entry (role : MessageRole) (content : String) (i : Nat) :
    [(⟨role, content, some i⟩ : InputMessage)].filterMap (·.turn?)
      = if role.isTurn then [(i, role)] else [] := by
  cases role <;> rfl

theorem filter_eq_nil (h : ∀ t ∈ texts, t = "") :
    texts.filter (· ≠ "") = [] :=
  List.filter_eq_nil_iff.mpr fun t ht => by simp [h t ht]

/-- The texts of blocks are their own texts and those of results. -/
theorem size_texts (blocks : List (ClaudeInputContentBlock Value)) :
    size (blocks.flatMap (·.texts)) = size (blocks.filterMap (·.text?))
      + size ((blocks.filterMap (·.toolResult?)).flatMap (·.texts)) := by
  induction blocks with
  | nil => rfl
  | cons block blocks ih =>
      rw [List.flatMap_cons, size_append, ih]
      cases block with
      | text t =>
          have hcons : (ClaudeInputContentBlock.text t :: blocks).filterMap (·.text?)
              = [t] ++ blocks.filterMap (·.text?) := rfl
          rw [hcons, size_append, Nat.add_assoc]
          rfl
      | toolResult result =>
          have hcons : ((ClaudeInputContentBlock.toolResult result :: blocks).filterMap
              (·.toolResult?)).flatMap (·.texts)
              = result.texts ++ (blocks.filterMap (·.toolResult?)).flatMap (·.texts) := rfl
          rw [hcons, size_append, Nat.add_left_comm]
          rfl
      | _ => exact Nat.zero_add _

variable {blocks : List (ClaudeInputContentBlock Value)}

/-- When the results say nothing. -/
theorem filter_texts_of_results
    (h : ∀ result ∈ blocks.filterMap (·.toolResult?), ∀ text ∈ result.texts, text = "") :
    (blocks.flatMap (·.texts)).filter (· ≠ "")
      = (blocks.filterMap (·.text?)).filter (· ≠ "") := by
  induction blocks with
  | nil => rfl
  | cons block blocks ih =>
      rw [List.flatMap_cons, List.filter_append]
      cases block with
      | text t =>
          have hcons : (ClaudeInputContentBlock.text t :: blocks).filterMap (·.text?)
              = [t] ++ blocks.filterMap (·.text?) := rfl
          rw [ih h, hcons, List.filter_append]
          rfl
      | toolResult result =>
          have hempty : ∀ text ∈ result.texts, text = "" := h result List.mem_cons_self
          have hrest := ih fun r hr => h r (List.mem_cons_of_mem _ hr)
          have htexts : (ClaudeInputContentBlock.toolResult result
            : ClaudeInputContentBlock Value).texts = result.texts := rfl
          rw [hrest, htexts, filter_eq_nil hempty]
          rfl
      | _ => exact ih h

/-- When the texts beside the results say nothing. -/
theorem filter_texts_of_texts
    (h : ∀ text ∈ blocks.filterMap (·.text?), text = "") :
    (blocks.flatMap (·.texts)).filter (· ≠ "")
      = ((blocks.filterMap (·.toolResult?)).flatMap (·.texts)).filter (· ≠ "") := by
  induction blocks with
  | nil => rfl
  | cons block blocks ih =>
      rw [List.flatMap_cons, List.filter_append]
      cases block with
      | text t =>
          have hempty : t = "" := h t List.mem_cons_self
          have hrest := ih fun r hr => h r (List.mem_cons_of_mem _ hr)
          rw [hrest, hempty]
          rfl
      | toolResult result =>
          have hcons : ((ClaudeInputContentBlock.toolResult result :: blocks).filterMap
              (·.toolResult?)).flatMap (·.texts)
              = result.texts ++ (blocks.filterMap (·.toolResult?)).flatMap (·.texts) := rfl
          rw [ih h, hcons, List.filter_append]
          rfl
      | _ => exact ih h

theorem ClaudeToolResultBlock.text_eq (result : ClaudeToolResultBlock) :
    result.text = String.join result.texts := by
  unfold text texts
  cases result.content with
  | none => rfl
  | some content =>
      cases content with
      | text t => simp
      | blocks bs => rfl

/-- The messages of results hold their texts, one message a result. -/
theorem appear_results (results : List ClaudeToolResultBlock) :
    Appear (results.flatMap (·.texts)) (results.map (·.text)) := by
  induction results with
  | nil => exact Appear.nil
  | cons result results ih =>
      rw [List.flatMap_cons, List.map_cons, ← List.singleton_append, result.text_eq]
      exact (Appear.join result.texts).append ih

theorem templateTexts_results (results : List ClaudeToolResultBlock) :
    templateTexts (results.map fun tr =>
      { role := .tool, content := .text tr.text, toolCallId := tr.toolUseId }
        : List (TemplateMessage Value)) = results.map (·.text) := by
  induction results with
  | nil => rfl
  | cons result results ih => exact congrArg (result.text :: ·) ih

theorem texts_claudeMultimodal (i : Nat) (blocks : List (ClaudeInputContentBlock Value)) :
    ((enumerate blocks).filterMap fun p => p.2.multimodal? i p.1).filterMap (·.text?)
      = blocks.filterMap (·.text?) := by
  conv => rhs; rw [← map_snd_enumerate blocks]
  induction enumerate blocks with
  | nil => rfl
  | cons p l ih =>
      obtain ⟨j, block⟩ := p
      cases block with
      | text t => exact congrArg (t :: ·) ih
      | _ => exact ih

theorem any_isToolUse (lib : RequestLibrary Value)
    (blocks : List (ClaudeInputContentBlock Value)) :
    blocks.any (·.isToolUse) = !(blocks.filterMap (·.toolCall? lib)).isEmpty := by
  induction blocks with
  | nil => rfl
  | cons block blocks ih =>
      rw [List.any_cons, ih]
      cases block <;> rfl

theorem size_singleton (t : String) : size [t] = t.length := Nat.add_zero _

/-- The message of a call has the texts, and of results nothing. -/
theorem keeps_calls (blocks : List (ClaudeInputContentBlock Value)) :
    Keeps (blocks.flatMap (·.texts)) [String.join (blocks.filterMap (·.text?))]
      (∀ result ∈ blocks.filterMap (·.toolResult?), ∀ text ∈ result.texts, text = "") where
  le := by
    rw [size_singleton, size_join, size_texts]
    exact Nat.le_add_right _ _
  appear := fun h => (Appear.join _).congr (filter_texts_of_results h).symm
  all := by
    rw [size_singleton, size_join, size_texts]
    intro heq result hresult text htext
    have hzero : size ((blocks.filterMap (·.toolResult?)).flatMap (·.texts)) = 0 := by omega
    exact size_eq_zero.1 hzero text (List.mem_flatMap.mpr ⟨result, hresult, htext⟩)

/-- The messages of results have nothing of the texts beside them. -/
theorem keeps_results (blocks : List (ClaudeInputContentBlock Value)) :
    Keeps (blocks.flatMap (·.texts)) ((blocks.filterMap (·.toolResult?)).map (·.text))
      (∀ text ∈ blocks.filterMap (·.text?), text = "") where
  le := by
    rw [(appear_results _).size_eq, size_texts]
    exact Nat.le_add_left _ _
  appear := fun h => (appear_results _).congr (filter_texts_of_texts h).symm
  all := by
    rw [(appear_results _).size_eq, size_texts]
    intro heq
    exact size_eq_zero.1 (by omega)

/-- Where there are no results, the texts are all there is. -/
theorem texts_of_no_results
    (h : blocks.filterMap (·.toolResult?) = []) {contents : List String}
    (happear : Appear (blocks.filterMap (·.text?)) contents) :
    Appear (blocks.flatMap (·.texts)) contents := by
  refine happear.congr (filter_texts_of_results ?_).symm
  rw [h]
  exact fun result hresult => absurd hresult List.not_mem_nil

/-- What the messages of blocks hold of their texts. -/
theorem ClaudeMessage.keeps_blocks (lib : RequestLibrary Value) (i : Nat)
    {msg : ClaudeMessage Value}
    (hblocks : msg.blocks = blocks) :
    Keeps (blocks.flatMap (·.texts))
      (templateTexts (claudeTemplateMessages lib i msg.role blocks)) msg.TextsInPlace := by
  subst hblocks
  have huse := any_isToolUse lib msg.blocks
  unfold claudeTemplateMessages
  dsimp only
  cases hcalls : (msg.blocks.filterMap (·.toolCall? lib)).isEmpty with
  | false =>
      rw [hcalls] at huse
      rw [if_pos Bool.false_ne_true]
      refine (keeps_calls msg.blocks).congr ⟨fun h => ⟨fun _ => h, fun hno => ?_⟩, fun h =>
        h.results huse⟩
      rw [huse] at hno
      cases hno
  | true =>
      rw [hcalls] at huse
      have hcalled : msg.blocks.any (·.isToolUse) = true → ∀ result ∈ msg.toolResults,
          ∀ text ∈ result.texts, text = "" := by
        intro hyes
        rw [huse] at hyes
        cases hyes
      rw [if_neg (not_not.mpr rfl)]
      cases hresults : (msg.blocks.filterMap (·.toolResult?)).isEmpty with
      | false =>
          have hsome : msg.toolResults ≠ [] := List.isEmpty_eq_false_iff.mp hresults
          rw [if_pos Bool.false_ne_true, templateTexts_results]
          exact (keeps_results msg.blocks).congr
            ⟨fun h => ⟨hcalled, fun _ _ => h⟩, fun h => h.texts huse hsome⟩
      | true =>
          have hnone : msg.toolResults = [] := List.isEmpty_iff.mp hresults
          have hplace : True ↔ msg.TextsInPlace :=
            iff_of_true trivial ⟨hcalled, fun _ hsome => absurd hnone hsome⟩
          rw [if_neg (not_not.mpr rfl)]
          split
          · refine (Keeps.of_appear (texts_of_no_results hnone ?_)).congr hplace
            rw [templateTexts, List.flatMap_singleton, TemplateContent.texts,
              texts_claudeMultimodal]
            exact Appear.self _
          · exact (Keeps.of_appear (texts_of_no_results hnone (Appear.join _))).congr hplace

theorem ClaudeMessage.tells_convert (lib : RequestLibrary Value) (s : Conversion Value) (i : Nat)
    (msg : ClaudeMessage Value) :
    Tells s (msg.convert lib s i) msg.texts msg.TextsInPlace
      (if msg.role.toRole.isTurn then [(i, msg.role.toRole)] else []) := by
  cases hcontent : msg.content with
  | text t =>
      have hblocks : msg.blocks = [] := by rw [blocks, hcontent]
      have hplace : msg.TextsInPlace :=
        ⟨fun _ r hr => by simp [toolResults, hblocks] at hr, fun _ h => by
          simp [toolResults, hblocks] at h⟩
      rw [texts, convert, hcontent]
      exact tells_of_eq rfl rfl ((Keeps.of_appear (Appear.self [t])).congr
        (iff_of_true trivial hplace)) (turns_entry _ t i)
  | blocks bs =>
      have hblocks : msg.blocks = bs := by rw [ClaudeMessage.blocks, hcontent]
      rw [texts, convert, hcontent]
      refine tells_of_eq rfl rfl (keeps_blocks lib i hblocks) ?_
      cases msg.role <;> rfl

theorem ClaudeMessagesRequest.conservesTexts_iff (request : ClaudeMessagesRequest Value) :
    Conserves request.texts (turns (·.role.toRole) request.messages)
      (.ok (claudeRequestToTextGeneration lib request))
      ↔ ∀ msg ∈ request.messages, msg.TextsInPlace := by
  have hsystem : Tells ({} : Conversion Value) {
      instructions := request.systemText
      chatTemplateMessages := (request.systemText.map fun text =>
        { role := .system, content := .text text }).toList } request.systemText.toList True [] := by
    cases request.systemText with
    | none => exact Tells.nil _
    | some t => exact tells_of_eq rfl rfl (Keeps.of_appear (Appear.self [t])) rfl
  have htells := hsystem.append (tells_foldl id (f := fun s p => p.2.convert lib s p.1)
    (fun s p => p.2.tells_convert lib s p.1) _ (enumerate request.messages))
  rw [flatMap_texts_enumerate] at htells
  refine (conserves_params_iff htells).trans ?_
  rw [List.nil_append, turns_eq_flatMap]
  exact (and_iff_left rfl).trans ((and_iff_right trivial).trans forall_mem_enumerate)

end Claude

/-! ## Ollama -/

section Ollama

/-- The entries a message gets: one if it says something, and one if it has images. -/
def OllamaMessage.entered (i : Nat) (msg : OllamaMessage Value) : List (Nat × MessageRole) :=
  if msg.role.toRole.isTurn then
    (if msg.speaks then [(i, msg.role.toRole)] else [])
      ++ if msg.images.getD [] = [] then [] else [(i, msg.role.toRole)]
  else []

theorem appear_content (content : Option String) : Appear content.toList [content.getD ""] := by
  cases content with
  | none => exact Appear.join []
  | some t => exact Appear.self [t]

theorem OllamaMessage.appear_multimodal (i : Nat) (msg : OllamaMessage Value) :
    Appear msg.content.toList ((msg.multimodal i).filterMap (·.text?)) := by
  have himages : ((enumerate (msg.images.getD [])).map fun p =>
      ContentPart.image (some ⟨i, p.1, none⟩)).filterMap (·.text?) = [] := by
    simp [ContentPart.text?]
  rw [multimodal, List.filterMap_append, himages, List.nil_append]
  by_cases hempty : msg.content.getD "" = ""
  · rw [if_pos hempty]
    refine (Appear.nil).congr ?_
    cases hcontent : msg.content with
    | none => rfl
    | some t =>
        rw [hcontent] at hempty
        simp_all
  · rw [if_neg hempty]
    exact appear_content msg.content

theorem OllamaMessage.isEmpty_readImages (i : Nat) (msg : OllamaMessage Value) :
    (msg.readImages i).isEmpty = true ↔ msg.images.getD [] = [] := by
  rw [readImages, List.isEmpty_map, List.isEmpty_iff]
  cases msg.images.getD [] with
  | nil => exact iff_of_true rfl rfl
  | cons data images => exact iff_of_false (List.cons_ne_nil _ _) (List.cons_ne_nil _ _)

theorem OllamaMessage.tells_convert (lib : RequestLibrary Value) (s : OllamaConversion Value)
    (i : Nat) (msg : OllamaMessage Value) :
    Tells s.toConversion (msg.convert lib s i).toConversion msg.content.toList True
      (msg.entered i) := by
  have hkeeps : Keeps msg.content.toList [msg.content.getD ""] True :=
    Keeps.of_appear (appear_content msg.content)
  have hturn : msg.role = .user ∨ msg.role = .assistant ↔ msg.role.toRole.isTurn = true := by
    cases msg.role <;> simp [OllamaRole.toRole, MessageRole.isTurn]
  have hspeaks : (msg.content.isSome ∨ msg.thinking.isSome ∨ msg.toolCalls.any (¬ ·.isEmpty))
      ↔ msg.speaks = true := by
    simp [speaks, or_assoc]
  unfold OllamaMessage.convert entered
  dsimp only
  by_cases hsystem : msg.role = .system
  · have hno : msg.role.toRole.isTurn = false := by rw [hsystem]; rfl
    rw [if_pos hsystem, hno, if_neg Bool.false_ne_true]
    exact tells_of_eq rfl (List.append_nil _).symm hkeeps rfl
  · rw [if_neg hsystem]
    have hfirst : (if (msg.role = .user ∨ msg.role = .assistant) ∧ (msg.content.isSome
          ∨ msg.thinking.isSome ∨ msg.toolCalls.any (¬ ·.isEmpty)) then
          [(⟨msg.role.toRole, msg.content.getD "", some i⟩ : InputMessage)]
        else []).filterMap (·.turn?) = if msg.role.toRole.isTurn then
          if msg.speaks then [(i, msg.role.toRole)] else []
        else [] := by
      simp only [hturn, hspeaks]
      cases hrole : msg.role.toRole.isTurn <;> cases msg.speaks <;> simp [turns_entry, hrole]
    split
    · rename_i hsome
      rw [msg.isEmpty_readImages i] at hsome
      refine tells_of_eq rfl (List.append_assoc _ _ _) ?_ ?_
      · refine Keeps.of_appear ?_
        rw [templateTexts, List.flatMap_singleton]
        exact msg.appear_multimodal i
      · rw [List.filterMap_append, hfirst, if_neg hsome]
        simp only [hturn]
        cases hrole : msg.role.toRole.isTurn <;> simp [turns_entry, hrole]
    · rename_i hnone
      rw [msg.isEmpty_readImages i, not_not] at hnone
      refine tells_of_eq rfl rfl hkeeps ?_
      rw [hfirst, if_pos hnone, List.append_nil]

theorem OllamaMessage.entered_eq_iff (i : Nat) (msg : OllamaMessage Value) :
    msg.entered i = (if msg.role.toRole.isTurn then [(i, msg.role.toRole)] else [])
      ↔ msg.TurnInPlace := by
  unfold entered TurnInPlace
  cases msg.role.toRole.isTurn with
  | false => exact iff_of_true rfl nofun
  | true =>
      rw [if_pos rfl, if_pos rfl]
      by_cases hnone : msg.images.getD [] = [] <;> cases msg.speaks <;> simp [hnone]

theorem OllamaChatRequest.conservesTexts_iff (request : OllamaChatRequest Value) :
    Conserves request.texts (turns (·.role.toRole) request.messages)
      (.ok (ollamaRequestToTextGeneration lib request))
      ↔ ∀ msg ∈ request.messages, msg.TurnInPlace := by
  have htells := tells_foldl OllamaConversion.toConversion
    (f := fun s p => p.2.convert lib s p.1)
    (fun s p => p.2.tells_convert lib s p.1) {} (enumerate request.messages)
  rw [flatMap_texts_enumerate fun msg : OllamaMessage Value => msg.content.toList] at htells
  refine (conserves_params_iff htells).trans ((and_iff_right fun _ _ => trivial).trans ?_)
  rw [turns_eq_flatMap]
  refine (flatMap_inj_of_tags Prod.fst (nodup_fst_enumerate _) ?_ ?_).trans ?_
  · intro p _ turn hturn
    unfold OllamaMessage.entered at hturn
    split at hturn
    · rcases List.mem_append.mp hturn with hturn | hturn <;>
      · split at hturn <;> simp_all
    · cases hturn
  · intro p _ turn hturn
    split at hturn
    · rw [List.mem_singleton.mp hturn]
    · cases hturn
  · simp only [OllamaMessage.entered_eq_iff]
    exact forall_mem_enumerate

end Ollama

/-! ## Responses -/

section Responses

theorem ResponseContent.extract_eq (content : ResponseContent) :
    content.extract = String.join content.texts := by
  cases content with
  | text t => exact (Appear.join [t]).elim fun _ _ => by simp [extract, texts]
  | parts ps => rfl

theorem ResponseContent.texts_multimodal (i : Nat) (ps : List ResponseContentPart) :
    (ResponseContent.multimodal i (.parts ps)).filterMap (·.text?)
      = (ResponseContent.parts ps).texts := by
  unfold multimodal texts
  dsimp only
  conv => rhs; rw [← map_snd_enumerate ps]
  induction enumerate ps with
  | nil => rfl
  | cons p l ih =>
      obtain ⟨j, part⟩ := p
      cases part with
      | inputImage imageUrl => exact ih
      | inputText t | outputText t => exact congrArg (t :: ·) ih

/-- A tool call says nothing, but may get a message of its own. -/
theorem templateTexts_appendToolCall (messages : List (TemplateMessage Value))
    (toolCall : TemplateToolCall) : ∃ contents, templateTexts (appendToolCall messages toolCall)
      = templateTexts messages ++ contents ∧ Appear [] contents := by
  unfold appendToolCall
  dsimp only
  split
  · exact ⟨_, templateTexts_append _ _, Appear.join []⟩
  · rename_i prev hprev
    split
    · rename_i hrole hcontent
      have hsplit : messages = messages.dropLast ++ [prev] :=
        (List.dropLast_append_getLast? prev hprev).symm
      refine ⟨[], ?_, Appear.nil⟩
      conv => rhs; rw [hsplit]
      rw [templateTexts_append, templateTexts_append, List.append_nil]
      rfl
    · exact ⟨_, templateTexts_append _ _, Appear.join []⟩

/-- A string that is left out. -/
theorem keeps_left_out (t : String) : Keeps [t] [] (t = "") where
  le := Nat.zero_le _
  appear := fun ht => (Appear.nil).congr (by rw [ht]; rfl)
  all := fun heq => by
    have hzero := size_eq_zero.1 heq.symm
    exact hzero t List.mem_cons_self

variable {i : Nat}

theorem ResponsesConversion.tells_addMessage {s : ResponsesConversion Value}
    {role : ResponseRole} {content : ResponseContent} {images : List RequestImage}
    (himages : content.readImages lib i = .ok images) :
    Tells s.toConversion (s.addMessage i role content images).toConversion content.texts
      ((ResponseInputItem.message role content : ResponseInputItem Value).Heard s.hasImages)
      (if role.toRole.isTurn then [(i, role.toRole)] else []) := by
  have hextract : Keeps content.texts [content.extract] True := by
    rw [content.extract_eq]
    exact Keeps.of_appear (Appear.join _)
  have hentries : (if role = .system then [] else
      [(⟨role.toRole, content.extract, some i⟩ : InputMessage)]).filterMap (·.turn?)
      = if role.toRole.isTurn then [(i, role.toRole)] else [] := by
    cases role <;> rfl
  by_cases hsystem : role = .system
  · have hadd : s.addMessage i role content images = _ := if_pos hsystem
    have hheard : True ↔ (ResponseInputItem.message role content : ResponseInputItem Value).Heard
        s.hasImages := by
      refine iff_of_true trivial ?_
      cases content with
      | text t => exact fun hno => absurd hsystem hno
      | parts ps => trivial
    rw [hadd]
    exact tells_of_eq rfl rfl (hextract.congr hheard) hentries
  · have hadd : s.addMessage i role content images = _ := if_neg hsystem
    rw [hadd]
    cases hwanted : s.hasImages || !images.isEmpty with
    | true =>
        rw [if_pos rfl]
        refine tells_of_eq rfl rfl ?_ hentries
        rw [templateTexts, List.flatMap_singleton]
        cases content with
        | text t =>
            -- a string has no images: those that want a place are another's
            cases himages
            have hcarried : s.hasImages = true := by simpa using hwanted
            exact (keeps_left_out t).congr ⟨fun ht _ _ => ht, fun h => h hsystem hcarried⟩
        | parts ps =>
            rw [TemplateContent.texts, ResponseContent.texts_multimodal]
            exact Keeps.of_appear (Appear.self _)
    | false =>
        have hno : s.hasImages = false := (Bool.or_eq_false_iff.mp hwanted).1
        rw [if_neg Bool.false_ne_true]
        refine tells_of_eq rfl rfl (hextract.congr (iff_of_true trivial ?_)) hentries
        cases content with
        | text t =>
            intro _ hcarried
            rw [hno] at hcarried
            cases hcarried
        | parts ps => trivial

variable {item : ResponseInputItem Value}

variable {s s' : ResponsesConversion Value}

/-- Items that are no messages say what they have to. -/
theorem ResponsesConversion.tells_of_contents
    {contents : List String} (hitem : item.isMessage = false)
    (hcontents : templateTexts s'.chatTemplateMessages
      = templateTexts s.chatTemplateMessages ++ contents)
    (happear : Appear (item.texts lib) contents) (hinput : s'.inputMessages = s.inputMessages) :
    Tells s.toConversion s'.toConversion (item.texts lib) (item.Heard s.hasImages)
      (if item.role.isTurn then [(i, item.role)] else []) := by
  have hnone : item.Heard s.hasImages ∧ item.role.isTurn = false := by
    cases item with
    | message => cases hitem
    | _ => exact ⟨trivial, rfl⟩
  obtain ⟨hheard, hrole⟩ := hnone
  refine ⟨⟨contents, hcontents, (Keeps.of_appear happear).congr (iff_of_true trivial hheard)⟩, ?_⟩
  rw [hinput, hrole, if_neg Bool.false_ne_true, List.append_nil]

theorem ResponsesConversion.tells_call (s : ResponsesConversion Value) (i : Nat)
    (hitem : item.isMessage = false)
    (htexts : item.texts lib = []) (id name arguments : String) :
    Tells s.toConversion (s.call id name arguments).toConversion (item.texts lib)
      (item.Heard s.hasImages) (if item.role.isTurn then [(i, item.role)] else []) := by
  obtain ⟨contents, hcontents, happear⟩ :=
    templateTexts_appendToolCall s.chatTemplateMessages { id, name, arguments }
  exact tells_of_contents hitem hcontents (htexts ▸ happear) rfl

theorem ResponsesConversion.tells_say (s : ResponsesConversion Value) (i : Nat)
    (hitem : item.isMessage = false)
    {message : TemplateMessage Value} {text : String} (hmessage : message.content = .text text)
    (htexts : item.texts lib = [text]) :
    Tells s.toConversion (s.say message).toConversion (item.texts lib)
      (item.Heard s.hasImages) (if item.role.isTurn then [(i, item.role)] else []) := by
  have hcontents : templateTexts (s.say message).chatTemplateMessages
      = templateTexts s.chatTemplateMessages ++ [text] := by
    rw [ResponsesConversion.say, templateTexts_append]
    refine congrArg (templateTexts s.chatTemplateMessages ++ ·) ?_
    rw [templateTexts, List.flatMap_singleton, hmessage]
    rfl
  exact tells_of_contents hitem hcontents (htexts ▸ Appear.self [text]) rfl

theorem ResponsesConversion.tells_self (s : ResponsesConversion Value) (i : Nat)
    (hitem : item.isMessage = false)
    (htexts : Appear (item.texts lib) []) :
    Tells s.toConversion s.toConversion (item.texts lib) (item.Heard s.hasImages)
      (if item.role.isTurn then [(i, item.role)] else []) :=
  tells_of_contents hitem (List.append_nil _).symm htexts rfl

/-- What an item says. -/
theorem ResponsesConversion.tells_item
    (h : s.item lib i item = .ok s') :
    Tells s.toConversion s'.toConversion (item.texts lib) (item.Heard s.hasImages)
      (if item.role.isTurn then [(i, item.role)] else []) := by
  cases item with
  | message role content =>
      obtain ⟨images, himages, heq⟩ := bind_eq_ok.1 h
      cases heq
      exact tells_addMessage himages
  | reasoning content summary =>
      obtain ⟨text, htext, heq⟩ := bind_eq_ok.1 h
      rcases reasoningText_cases content summary with ⟨-, hread⟩ | ⟨-, hread⟩
      · rw [hread] at htext
        cases htext
        cases heq
        split
        · rename_i hempty
          refine s.tells_self i rfl ?_
          rw [ResponseInputItem.texts, hempty]
          exact (Appear.nil).congr rfl
        · exact s.tells_say i rfl rfl rfl
      · rw [hread] at htext
        cases htext
  | mcpListTools serverLabel names =>
      obtain ⟨text, htext, heq⟩ := bind_eq_ok.1 h
      rcases joinEntries_cases ", " names with ⟨-, hread⟩ | ⟨-, hread⟩
      · rw [hread] at htext
        cases htext
        cases heq
        split
        · rename_i hempty
          refine s.tells_self i rfl ?_
          rw [ResponseInputItem.texts, if_pos hempty]
          exact Appear.nil
        · rename_i hsome
          exact s.tells_say i rfl rfl (if_neg hsome)
      · rw [hread] at htext
        cases htext
  | compaction summary =>
      cases h
      split
      · rename_i hempty
        refine s.tells_self i rfl ?_
        rw [ResponseInputItem.texts, hempty]
        exact (Appear.nil).congr rfl
      · exact s.tells_say i rfl rfl rfl
  | itemReference =>
      cases h
      exact s.tells_self i rfl Appear.nil
  | computerCallOutput callId output =>
      cases output <;>
      · cases h
        exact s.tells_say i rfl rfl rfl
  | functionCallOutput | localShellCallOutput | shellCallOutput | applyPatchCallOutput
  | customToolCallOutput | toolSearchOutput | mcpApprovalResponse =>
      cases h
      exact s.tells_say i rfl rfl rfl
  | _ =>
      cases h
      exact s.tells_call i rfl rfl _ _ _

variable {l : List (Nat × ResponseInputItem Value)}

/-- What items say, one after the other. -/
theorem tells_responsesLoop
    (h : l.foldlM (fun s p => s.item lib p.1 p.2) s = .ok s') :
    Tells s.toConversion s'.toConversion (l.flatMap fun p => p.2.texts lib)
      (HeardFrom s.hasImages l)
      (l.flatMap fun p => if p.2.role.isTurn then [(p.1, p.2.role)] else []) := by
  induction l generalizing s with
  | nil =>
      cases h
      exact Tells.nil _
  | cons p l ih =>
      rw [List.foldlM_cons] at h
      obtain ⟨t, hstep, hrun⟩ := bind_eq_ok.1 h
      have hcarries : t.hasImages = p.2.carries s.hasImages p.1 := by
        rcases s.item_cases lib p.1 p.2 with ⟨-, t', hstep', hgoes⟩ | ⟨-, e, hstep', -⟩
        · rw [hstep] at hstep'
          cases hstep'
          exact hgoes.carries
        · rw [hstep] at hstep'
          cases hstep'
      have hrest := ih hrun
      rw [hcarries] at hrest
      exact (ResponsesConversion.tells_item hstep).append hrest

/-- Where no item says anything, nothing is left out. -/
theorem heardFrom_of_silent {carried : Bool}
    (h : ∀ p ∈ l, p.2.speaks = false) : HeardFrom carried l := by
  induction l generalizing carried with
  | nil => trivial
  | cons p l ih =>
      refine ⟨?_, ih fun q hq => h q (List.mem_cons_of_mem _ hq)⟩
      have hsilent := h p List.mem_cons_self
      cases hitem : p.2 with
      | message role content =>
          rw [hitem] at hsilent
          cases hsilent
      | _ => trivial

theorem templateTexts_asGiven (messages : List (TemplateMessage Value)) :
    templateTexts (messages.map (·.asGiven)) = templateTexts messages := by
  unfold templateTexts
  rw [List.flatMap_map]
  refine List.flatMap_congr fun message _ => ?_
  unfold TemplateMessage.asGiven
  cases message.content with
  | text t => rfl
  | parts ps =>
      simp only [TemplateContent.texts, List.filterMap_map]
      refine List.filterMap_congr fun part _ => ?_
      cases part <;> rfl

theorem ResponsesRequest.conservesTexts_iff (request : ResponsesRequest Value) :
    Conserves (request.texts lib) request.turns (responsesRequestToTextGeneration lib request)
      ↔ request.TextsInPlace lib := by
  obtain ⟨input, instructions, given⟩ := request
  have hgiven : templateTexts ((given.map fun messages =>
      messages.map (·.asGiven)).getD []) = templateTexts (given.getD []) := by
    cases given with
    | none => rfl
    | some messages => exact templateTexts_asGiven messages
  cases input with
  | text t =>
      refine iff_of_true ⟨?_, rfl⟩ fun _ => trivial
      exact hgiven ▸ Appear.self (templateTexts (given.getD []))
  | items is =>
      have hs : Tells {} (ResponsesRequest.start instructions
          : ResponsesConversion Value).toConversion instructions.toList True [] := by
        cases instructions with
        | none => exact Tells.nil _
        | some t => exact tells_of_eq rfl rfl (Keeps.of_appear (Appear.self [t])) rfl
      unfold responsesRequestToTextGeneration ResponsesRequest.convert
      dsimp only
      rcases responsesLoop_cases lib (ResponsesRequest.start instructions) (enumerate is) with
        ⟨hall, s', hrun, -, hspeaks⟩ | ⟨⟨p, hp, hno⟩, e, hrun, he⟩
      · have htells := hs.append (tells_responsesLoop hrun)
        rw [ResponsesRequest.start] at hrun
        rw [hrun]
        rw [flatMap_texts_enumerate fun item : ResponseInputItem Value => item.texts lib,
          List.nil_append] at htells
        rw [ResponsesRequest.start_eq_nil, ← ResponsesRequest.speaks_eq_false (g := given)]
          at hspeaks
        let s'' : Conversion Value := { s'.toConversion with instructions }
        have htells' : Tells {} s'' (instructions.toList ++ is.flatMap (·.texts lib))
            (True ∧ HeardFrom false (enumerate is)) (Exo.turns (·.role) is) := by
          rw [turns_eq_flatMap]
          exact htells
        by_cases htemplate : s'.chatTemplateMessages = []
        · -- the messages are the client's, with the client's texts
          have hsilent := hspeaks.mp htemplate
          have hnone : s''.params.chatTemplateMessages = none := by
            have hnil : s''.chatTemplateMessages = [] := htemplate
            rw [Conversion.params, hnil]
            rfl
          refine iff_of_true ⟨?_, ?_⟩ fun _ =>
            heardFrom_of_silent (ResponsesRequest.speaks_eq_false.1 hsilent).2
          · have hcontents : templateTexts ((s''.params.chatTemplateMessages.or
                (given.map fun messages => messages.map (·.asGiven))).getD [])
                = templateTexts (given.getD []) := by
              rw [hnone, Option.none_or, hgiven]
            rw [ResponsesRequest.texts, if_neg (by rw [hsilent]; exact Bool.false_ne_true)]
            exact hcontents ▸ Appear.self _
          · exact (turns_params s'').trans htells'.2
        · have hsame : { s''.params with
              chatTemplateMessages := s''.params.chatTemplateMessages.or
                (given.map fun messages => messages.map (·.asGiven)) } = s''.params := by
            rw [or_given_eq (s := s'') htemplate]
          have hspeaks' : (⟨.items is, instructions, given⟩ : ResponsesRequest Value).speaks
              = true := by
            by_contra hno
            exact htemplate (hspeaks.mpr (by simpa using hno))
          rw [ResponsesRequest.texts, if_pos hspeaks']
          refine (Iff.of_eq (congrArg (fun p => Conserves _ _ (.ok p)) hsame)).trans
            ((conserves_params_iff htells').trans ?_)
          exact ⟨fun h _ => h.1.2, fun h => ⟨⟨trivial, h hall⟩, rfl⟩⟩
      · rw [ResponsesRequest.start] at hrun
        rw [hrun]
        refine iff_of_true trivial fun hall => ?_
        rw [hall p hp] at hno
        cases hno

end Responses

/-! ## Any of the three -/

end Exo
