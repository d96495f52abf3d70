import Mathlib.Data.List.TakeWhile
import Mathlib.Logic.Function.Basic
import Exo.Api.ClaudeBlocks
import Exo.Api.Responses

/-!
# The output items of a response

A client files what it reads under output indices. The adapter gives an index to an item when it
adds it, and puts the output together at the end: first the reasoning, then the message, then the
tool calls. The two agree when no tool is called before the text begins and nothing is thought
after that: the message is added when the text begins, and the reasoning is done then.
-/

namespace Exo

/-! ## What a client relies on -/

namespace ResponsesEventBody

/-- The item that is added (`inl`) or done (`inr`) under an output index. -/
def mark? : ResponsesEventBody → Option (Int × (ResponseItem ⊕ ResponseItem))
  | .outputItemAdded i item => some (i, .inl item)
  | .outputItemDone i item => some (i, .inr item)
  | _ => none

def delta? : ResponsesEventBody → Option (Int × String)
  | .textDelta _ i _ delta | .functionCallArgumentsDelta _ i delta
  | .reasoningSummaryTextDelta _ i _ delta => some (i, delta)
  | _ => none

/-- What an item, or its part, is said to add up to. -/
def total? : ResponsesEventBody → Option (Int × String)
  | .textDone _ i _ text | .contentPartDone _ i _ text | .functionCallArgumentsDone _ i _ text
  | .reasoningSummaryTextDone _ i _ text | .reasoningSummaryPartDone _ i _ text => some (i, text)
  | _ => none

variable (i : Int) (item : ResponseItem)

@[simp] theorem mark?_added : (outputItemAdded i item).mark? = some (i, .inl item) := rfl
@[simp] theorem delta?_added : (outputItemAdded i item).delta? = none := rfl
@[simp] theorem total?_added : (outputItemAdded i item).total? = none := rfl
@[simp] theorem mark?_done : (outputItemDone i item).mark? = some (i, .inr item) := rfl
@[simp] theorem delta?_done : (outputItemDone i item).delta? = none := rfl
@[simp] theorem total?_done : (outputItemDone i item).total? = none := rfl

end ResponsesEventBody

/-- What some events have under an output index. -/
def under {α : Type} (f : ResponsesEventBody → Option (Int × α)) (i : Int)
    (events : List ResponsesStreamEvent) : List α :=
  events.filterMap fun e => (f e.body).bind fun p => if p.1 = i then some p.2 else none

/--
What a client relies on: events are numbered from 1 on, an item that is added is done once, the
response has the items that were done under the index of each, and a text that is done is what
its deltas add up to.
-/
structure ConsistentResponse (events : List ResponsesStreamEvent) : Prop where
  numbered : events.map (·.sequenceNumber) = List.range' 1 events.length
  once : ∀ i, under (·.mark?) i events = [] ∨ ∃ item item' : ResponseItem,
    under (·.mark?) i events = [.inl item, .inr item'] ∧ item'.id = item.id
  output : ∃ number response, events.getLast? = some ⟨number, .completed response⟩
    ∧ ∀ (i : Nat) item, response.output[i]? = some item ↔ .inr item ∈ under (·.mark?) i events
  totals : ∀ i, ∀ text ∈ under (·.total?) i events,
    text = String.join (under (·.delta?) i events)

/-! ## What comes in -/

/-- The text of a token. -/
def StreamChunk.text : StreamChunk → String
  | .token text .. => text
  | _ => ""

/-- What comes before the first token of the text. -/
def beforeText (chunks : List StreamChunk) : List StreamChunk :=
  (received chunks).takeWhile fun c => ¬ c.isText

/-- The first token of the text, and what comes after it. -/
def fromText (chunks : List StreamChunk) : List StreamChunk :=
  (received chunks).dropWhile fun c => ¬ c.isText

/--
No tool is called before the text begins, and nothing is thought after that; a thought without
text, after others before the text, makes no difference.
-/
structure InPlace (chunks : List StreamChunk) : Prop where
  tools : ∀ c ∈ beforeText chunks, c.callsTools = false
  thinking : ∀ c ∈ fromText chunks, c.isThinking →
    c.text = "" ∧ ∃ b ∈ beforeText chunks, b.isThinking

/-! ## Events under an index -/

section Under

variable {α : Type} {f : ResponsesEventBody → Option (Int × α)} {i : Int}

theorem under_append (es es' : List ResponsesStreamEvent) :
    under f i (es ++ es') = under f i es ++ under f i es' :=
  List.filterMap_append

theorem under_numberEvents (seq : Nat) (bodies : List ResponsesEventBody) :
    under f i (numberEvents seq bodies)
      = bodies.filterMap fun b => (f b).bind fun p => if p.1 = i then some p.2 else none := by
  induction bodies generalizing seq with
  | nil => rfl
  | cons b bodies ih =>
      have hrest := ih (seq + 1)
      unfold under at hrest ⊢
      rw [numberEvents, List.filterMap_cons, List.filterMap_cons, hrest]

end Under

/-- An item as far as a client has read it. -/
structure Slot where
  id : String
  text : String
  item : Option ResponseItem := none
  /-- An item is done under the id it was added with. -/
  named : ∀ x ∈ item, x.id = id := by simp

/-- What was read under an index is the item. -/
def Slot.Read (events : List ResponsesStreamEvent) (i : Int) : Option Slot → Prop
  | none => under (·.mark?) i events = [] ∧ under (·.delta?) i events = []
      ∧ under (·.total?) i events = []
  | some slot =>
      (∃ item : ResponseItem, item.id = slot.id
        ∧ under (·.mark?) i events = .inl item :: (slot.item.map .inr).toList)
      ∧ String.join (under (·.delta?) i events) = slot.text
      ∧ ∀ text ∈ under (·.total?) i events, slot.item.isSome ∧ text = slot.text

/-- What was read under all indices. -/
def ReadsAs (events : List ResponsesStreamEvent) (slots : Int → Option Slot) : Prop :=
  ∀ i, Slot.Read events i (slots i)

namespace ReadsAs

open ResponsesEventBody

variable {events : List ResponsesStreamEvent} {slots : Int → Option Slot} {k : Int} {slot : Slot}

/-- What is read is about no item. -/
theorem other (h : ReadsAs events slots) (seq : Nat) (bodies : List ResponsesEventBody)
    (hother : ∀ b ∈ bodies, b.mark? = none ∧ b.delta? = none ∧ b.total? = none) :
    ReadsAs (events ++ numberEvents seq bodies) slots := by
  intro i
  have hmark : under (·.mark?) i (numberEvents seq bodies) = [] := by
    rw [under_numberEvents, List.filterMap_eq_nil_iff]
    exact fun b hb => by rw [(hother b hb).1]; rfl
  have hdelta : under (·.delta?) i (numberEvents seq bodies) = [] := by
    rw [under_numberEvents, List.filterMap_eq_nil_iff]
    exact fun b hb => by rw [(hother b hb).2.1]; rfl
  have htotal : under (·.total?) i (numberEvents seq bodies) = [] := by
    rw [under_numberEvents, List.filterMap_eq_nil_iff]
    exact fun b hb => by rw [(hother b hb).2.2]; rfl
  have hread := h i
  unfold Slot.Read at hread ⊢
  simp only [under_append, hmark, hdelta, htotal, List.append_nil]
  exact hread

/-- More is read under one index. -/
theorem update (h : ReadsAs events slots) {more : List ResponsesStreamEvent}
    (hother : ∀ i ≠ k, under (·.mark?) i more = [] ∧ under (·.delta?) i more = []
      ∧ under (·.total?) i more = [])
    (hk : Slot.Read (events ++ more) k (some slot)) :
    ReadsAs (events ++ more) (Function.update slots k (some slot)) := by
  intro i
  by_cases hi : i = k
  · subst hi
    rw [Function.update_self]
    exact hk
  · obtain ⟨hmark, hdelta, htotal⟩ := hother i hi
    rw [Function.update_of_ne hi]
    have hread := h i
    unfold Slot.Read at hread ⊢
    simp only [under_append, hmark, hdelta, htotal, List.append_nil]
    exact hread

/-- An item is added, with an empty part. -/
theorem add (h : ReadsAs events slots) (seq : Nat) (hk : slots k = none) (item : ResponseItem)
    (part : ResponsesEventBody) (hmark : part.mark? = none) (hdelta : part.delta? = none)
    (htotal : part.total? = none) :
    ReadsAs (events ++ numberEvents seq [.outputItemAdded k item, part])
      (Function.update slots k (some { id := item.id, text := "" })) := by
  have hread := h k
  rw [hk] at hread
  obtain ⟨hmarks, hdeltas, htotals⟩ := hread
  refine h.update (fun i hi => ?_) ?_
  · simp [under_numberEvents, hmark, hdelta, htotal, Ne.symm hi]
  · refine ⟨⟨item, rfl, ?_⟩, ?_, ?_⟩
    · simp [under_append, under_numberEvents, hmarks, hmark]
    · rw [under_append, under_numberEvents, hdeltas]
      simp only [List.filterMap_cons, List.filterMap_nil, delta?_added, hdelta, Option.bind_none]
      rfl
    · simp [under_append, under_numberEvents, htotals, htotal]

/-- An item grows; one that is done does not. -/
theorem delta (h : ReadsAs events slots) (seq : Nat) (hk : slots k = some slot)
    (body : ResponsesEventBody) {text : String} (hmark : body.mark? = none)
    (hdelta : body.delta? = some (k, text)) (htotal : body.total? = none)
    (hopen : slot.item = none ∨ text = "") :
    ReadsAs (events ++ numberEvents seq [body])
      (Function.update slots k (some { slot with text := slot.text ++ text })) := by
  have hread := h k
  rw [hk] at hread
  obtain ⟨⟨item, hid, hmarks⟩, hdeltas, htotals⟩ := hread
  refine h.update (fun i hi => ?_) ⟨⟨item, hid, ?_⟩, ?_, ?_⟩
  · simp [under_numberEvents, hmark, hdelta, htotal, Ne.symm hi]
  · simpa [under_append, under_numberEvents, hmark] using hmarks
  · simp [under_append, under_numberEvents, hdelta, ← hdeltas, String.join_append]
  · intro total hmem
    have hbefore : total ∈ under (·.total?) k events := by
      simpa [under_append, under_numberEvents, htotal] using hmem
    obtain ⟨hdone, heq⟩ := htotals total hbefore
    rcases hopen with hopen | rfl
    · rw [hopen] at hdone
      cases hdone
    · exact ⟨hdone, by simpa using heq⟩

/-- An item is done. -/
theorem close (h : ReadsAs events slots) (seq : Nat) (hk : slots k = some slot)
    (hopen : slot.item = none) (item : ResponseItem) (hid : item.id = slot.id)
    (totals : List ResponsesEventBody)
    (htotals : ∀ b ∈ totals, b.mark? = none ∧ b.delta? = none ∧ b.total? = some (k, slot.text)) :
    ReadsAs (events ++ numberEvents seq (totals ++ [.outputItemDone k item]))
      (Function.update slots k (some { slot with
        item := some item
        named := fun _ hx => Option.some.inj hx ▸ hid })) := by
  have hread := h k
  rw [hk] at hread
  obtain ⟨⟨added, hadded, hmarks⟩, hdeltas, hbefore⟩ := hread
  have hnomark : ∀ i, (totals.filterMap fun b => b.mark?.bind fun p =>
      if p.1 = i then some p.2 else none) = [] := by
    intro i
    refine List.filterMap_eq_nil_iff.mpr fun b hb => ?_
    rw [(htotals b hb).1]
    rfl
  have hnodelta : ∀ i, (totals.filterMap fun b => b.delta?.bind fun p =>
      if p.1 = i then some p.2 else none) = [] := by
    intro i
    refine List.filterMap_eq_nil_iff.mpr fun b hb => ?_
    rw [(htotals b hb).2.1]
    rfl
  have hnototal : ∀ i ≠ k, (totals.filterMap fun b => b.total?.bind fun p =>
      if p.1 = i then some p.2 else none) = [] := by
    intro i hi
    refine List.filterMap_eq_nil_iff.mpr fun b hb => ?_
    rw [(htotals b hb).2.2]
    exact if_neg (Ne.symm hi)
  refine h.update (fun i hi => ?_) ⟨⟨added, hadded.trans ?_, ?_⟩, ?_, ?_⟩
  · simp [under_numberEvents, hnomark, hnodelta, hnototal i hi, Ne.symm hi]
  · rfl
  · simp [under_append, under_numberEvents, hmarks, hopen, hnomark]
  · rw [under_append, under_numberEvents, List.filterMap_append, hnodelta]
    simp only [List.filterMap_cons, List.filterMap_nil, delta?_done, Option.bind_none,
      List.append_nil]
    exact hdeltas
  · intro total hmem
    rw [under_append, under_numberEvents, List.filterMap_append] at hmem
    simp only [List.filterMap_cons, List.filterMap_nil, total?_done, Option.bind_none,
      List.append_nil, List.mem_append] at hmem
    refine ⟨rfl, ?_⟩
    rcases hmem with hmem | hmem
    · exact (hbefore total hmem).2
    · obtain ⟨b, hb, heq⟩ := List.mem_filterMap.mp hmem
      rw [(htotals b hb).2.2, Option.bind_some, if_pos rfl] at heq
      exact (Option.some.inj heq).symm

/-- A call is added, filled and done at once. -/
theorem call (h : ReadsAs events slots) (seq : Nat) (hk : slots k = none)
    (item item' : ResponseItem) (hid : item'.id = item.id) (id name arguments : String) :
    ReadsAs (events ++ numberEvents seq [.outputItemAdded k item,
        .functionCallArgumentsDelta id k arguments,
        .functionCallArgumentsDone id k name arguments, .outputItemDone k item'])
      (Function.update slots k (some {
        id := item.id
        text := arguments
        item := some item'
        named := fun _ hx => Option.some.inj hx ▸ hid })) := by
  have hread := h k
  rw [hk] at hread
  obtain ⟨hmarks, hdeltas, htotals⟩ := hread
  refine h.update (fun i hi => ?_) ⟨⟨item, rfl, ?_⟩, ?_, ?_⟩
  · simp [under_numberEvents, mark?, delta?, total?, Ne.symm hi]
  · rw [under_append, under_numberEvents, hmarks]
    simp [mark?]
  · rw [under_append, under_numberEvents, hdeltas]
    simp [delta?]
  · intro total hmem
    rw [under_append, under_numberEvents, htotals] at hmem
    simp [total?] at hmem
    exact ⟨rfl, hmem⟩

end ReadsAs

/-! ## The numbers of the events -/

namespace ResponsesStream

variable {commandId : String} {s s' : ResponsesStream} {chunks : List StreamChunk}

/-- Events take the numbers from `seq` on; `next` is left. -/
structure Numbers (seq : Nat) (events : List ResponsesStreamEvent) (next : Nat) : Prop where
  numbered : events.map (·.sequenceNumber) = List.range' seq events.length
  next : next = seq + events.length

theorem length_numberEvents (seq : Nat) (bodies : List ResponsesEventBody) :
    (numberEvents seq bodies).length = bodies.length := by
  induction bodies generalizing seq with
  | nil => rfl
  | cons b bodies ih => rw [numberEvents, List.length_cons, List.length_cons, ih]

theorem numbers_numberEvents (seq : Nat) (bodies : List ResponsesEventBody) :
    Numbers seq (numberEvents seq bodies) (seq + bodies.length) := by
  refine ⟨?_, congrArg (seq + ·) (length_numberEvents seq bodies).symm⟩
  induction bodies generalizing seq with
  | nil => rfl
  | cons b bodies ih =>
      rw [numberEvents, List.map_cons, ih, List.length_cons, List.range'_succ]

theorem numbers_nil (seq : Nat) : Numbers seq [] seq := ⟨rfl, rfl⟩

variable {es es' : List ResponsesStreamEvent}

theorem Numbers.append {seq seq' next : Nat}
    (h : Numbers seq es seq') (h' : Numbers seq' es' next) : Numbers seq (es ++ es') next where
  numbered := by
    rw [List.map_append, h.numbered, h'.numbered, List.length_append, h.next,
      ← List.range'_append_1]
  next := by rw [h'.next, h.next, List.length_append, Nat.add_assoc]

theorem numbers_functionCalls (s : ResponsesStream) (tools : List ToolCallItem) :
    Numbers s.seq (s.functionCalls tools).2 (s.functionCalls tools).1.seq := by
  induction tools generalizing s with
  | nil => exact numbers_nil _
  | cons tool tools ih =>
      have hcall : Numbers s.seq (s.functionCall tool).2 (s.functionCall tool).1.seq :=
        numbers_numberEvents _ _
      exact hcall.append (ih (s.functionCall tool).1)

theorem numbers_startReasoning (s : ResponsesStream) :
    Numbers s.seq (s.startReasoning commandId).2 (s.startReasoning commandId).1.seq := by
  unfold startReasoning
  split
  · exact numbers_nil _
  · exact numbers_numberEvents _ _

theorem numbers_closeReasoning (s : ResponsesStream) :
    Numbers s.seq (s.closeReasoning commandId).2 (s.closeReasoning commandId).1.seq := by
  unfold closeReasoning
  split
  · exact numbers_numberEvents _ _
  · exact numbers_nil _

theorem numbers_startMessage (s : ResponsesStream) :
    Numbers s.seq (s.startMessage commandId).2 (s.startMessage commandId).1.seq := by
  unfold startMessage
  split
  · exact numbers_nil _
  · exact numbers_numberEvents _ _

theorem numbers_thinkingToken (s : ResponsesStream) (text : String) :
    Numbers s.seq (s.thinkingToken commandId text).2 (s.thinkingToken commandId text).1.seq :=
  (numbers_startReasoning s).append (numbers_numberEvents (s.startReasoning commandId).1.seq _)

theorem numbers_textToken (s : ResponsesStream) (text : String) :
    Numbers s.seq (s.textToken commandId text).2 (s.textToken commandId text).1.seq :=
  ((numbers_closeReasoning s).append (numbers_startMessage (s.closeReasoning commandId).1)).append
    (numbers_numberEvents ((s.closeReasoning commandId).1.startMessage commandId).1.seq _)

theorem numbers_loop (s : ResponsesStream) (chunks : List StreamChunk) :
    Numbers s.seq (s.loop commandId chunks).2 (s.loop commandId chunks).1.seq := by
  induction chunks generalizing s with
  | nil => exact numbers_nil _
  | cons chunk chunks ih =>
      cases chunk with
      | error => exact numbers_nil _
      | prefillProgress => exact ih s
      | toolCall toolCalls usage =>
          let s' := { s with lastUsage := usage.or s.lastUsage }
          exact (numbers_functionCalls s' toolCalls).append (ih (s'.functionCalls toolCalls).1)
      | token text isThinking finishReason usage =>
          let s' := { s with lastUsage := usage.or s.lastUsage }
          cases isThinking with
          | true =>
              exact (numbers_thinkingToken s' text).append (ih (s'.thinkingToken commandId text).1)
          | false => exact (numbers_textToken s' text).append (ih (s'.textToken commandId text).1)

/-! ## The slots of the adapter -/

/-- The slot under an index, of slots numbered from 0 on. -/
def slotAt (slots : List Slot) (i : Int) : Option Slot := if 0 ≤ i then slots[i.toNat]? else none

theorem slotAt_natCast (slots : List Slot) (n : Nat) : slotAt slots n = slots[n]? := by
  rw [slotAt, if_pos (Int.natCast_nonneg n), Int.toNat_natCast]

theorem slotAt_of_neg (slots : List Slot) {i : Int} (h : i < 0) : slotAt slots i = none := by
  rw [slotAt, if_neg (by omega)]

/-- Slots that agree at each number from 0 on agree under each index. -/
theorem slotAt_eq {slots slots' : List Slot} {n : Nat} {slot : Slot}
    (h : ∀ k, slots'[k]? = if k = n then some slot else slots[k]?) :
    slotAt slots' = Function.update (slotAt slots) n (some slot) := by
  funext i
  by_cases hi : i < 0
  · rw [slotAt_of_neg _ hi, Function.update_of_ne (by omega), slotAt_of_neg _ hi]
  · obtain ⟨k, rfl⟩ := Int.eq_ofNat_of_zero_le (by omega : 0 ≤ i)
    rw [slotAt_natCast, h k]
    split
    · rename_i hk
      rw [hk, Function.update_self]
    · rename_i hk
      rw [Function.update_of_ne (by omega), slotAt_natCast]

theorem slotAt_append (slots : List Slot) (slot : Slot) :
    slotAt (slots ++ [slot]) = Function.update (slotAt slots) slots.length (some slot) := by
  refine slotAt_eq fun k => ?_
  rw [List.getElem?_append]
  split
  · rename_i hk
    rw [if_neg (by omega)]
  · split
    · rename_i hk
      rw [hk, Nat.sub_self]
      rfl
    · rw [List.getElem?_eq_none (by simp; omega), List.getElem?_eq_none (by omega)]

theorem slotAt_set (slots slots' : List Slot) (slot slot' : Slot) :
    slotAt (slots ++ slot' :: slots')
      = Function.update (slotAt (slots ++ slot :: slots')) slots.length (some slot') := by
  refine slotAt_eq fun k => ?_
  rw [List.getElem?_append, List.getElem?_append]
  split
  · rw [if_neg (by omega)]
  · split
    · rename_i hk
      rw [hk, Nat.sub_self]
      rfl
    · obtain ⟨j, hj⟩ : ∃ j, k - slots.length = j + 1 := ⟨k - slots.length - 1, by omega⟩
      rw [hj, List.getElem?_cons_succ, List.getElem?_cons_succ]

/-- The slot of the reasoning, until it is done. -/
def thinkingSlot (commandId text : String) : Slot where
  id := reasoningId commandId
  text := text

def thoughtSlot (commandId text : String) : Slot where
  id := reasoningId commandId
  text := text
  item := some (.reasoning (reasoningId commandId) [text] .completed)
  named := fun _ hx => Option.some.inj hx ▸ rfl

def reasoningSlots (commandId : String) (s : ResponsesStream) : List Slot :=
  if s.reasoningStarted then
    [if s.messageStarted then thoughtSlot commandId s.accumulatedThinking
      else thinkingSlot commandId s.accumulatedThinking]
  else []

/-- The slot of the message, until it is done. -/
def messageSlot (commandId : String) (s : ResponsesStream) : Slot where
  id := itemId commandId
  text := s.accumulatedText

/-- The text has not begun, and no tool was called. -/
structure BeforeMessage (commandId : String) (s : ResponsesStream)
    (events : List ResponsesStreamEvent) : Prop where
  started : s.messageStarted = false
  text : s.accumulatedText = ""
  calls : s.functionCallItems = []
  thinking : s.reasoningStarted = false → s.accumulatedThinking = ""
  reasoning : s.reasoningStarted → s.reasoningOutputIndex = 0
  next : s.nextOutputIndex = (s.reasoningSlots commandId).length
  reads : ReadsAs events (slotAt (s.reasoningSlots commandId))

/-- The text has begun. -/
structure InMessage (commandId : String) (s : ResponsesStream)
    (events : List ResponsesStreamEvent) : Prop where
  started : s.messageStarted = true
  message : s.messageOutputIndex = (s.reasoningSlots commandId).length
  reasoning : s.reasoningStarted → s.reasoningOutputIndex = 0
  next : s.nextOutputIndex = (s.reasoningSlots commandId).length + 1 + s.functionCallItems.length
  reads : ∃ calls : List Slot, calls.map (·.item) = s.functionCallItems.map some
    ∧ ReadsAs events
      (slotAt (s.reasoningSlots commandId ++ s.messageSlot commandId :: calls))

variable {events : List ResponsesStreamEvent}

/-- The reasoning is added, if it was not yet. -/
theorem BeforeMessage.startReasoning (h : BeforeMessage commandId s events) :
    BeforeMessage commandId (s.startReasoning commandId).1
      (events ++ (s.startReasoning commandId).2)
      ∧ (s.startReasoning commandId).1.reasoningStarted := by
  unfold ResponsesStream.startReasoning
  split
  · rename_i hr
    rw [List.append_nil]
    exact ⟨h, hr⟩
  · rename_i hr
    have hr : s.reasoningStarted = false := by simpa using hr
    have hnone : s.reasoningSlots commandId = [] := by
      rw [reasoningSlots, hr]
      rfl
    have hnext : s.nextOutputIndex = 0 := by
      rw [h.next, hnone]
      rfl
    have hreads := h.reads
    rw [hnone] at hreads
    have hadded := hreads.add (k := 0) s.seq rfl
      (.reasoning (reasoningId commandId) [] .inProgress)
      (.reasoningSummaryPartAdded (reasoningId commandId) 0 0 "") rfl rfl rfl
    refine ⟨⟨h.started, h.text, h.calls, nofun, fun _ => hnext, ?_, ?_⟩, rfl⟩
    · simp [emit, reasoningSlots, hnext]
    · simp only [emit, reasoningSlots, h.started, h.thinking hr, hnext]
      exact (slotAt_append [] _) ▸ hadded

/-- A token of the thinking, before the text. -/
theorem BeforeMessage.thinkingToken (h : BeforeMessage commandId s events) (text : String) :
    BeforeMessage commandId (s.thinkingToken commandId text).1
      (events ++ (s.thinkingToken commandId text).2) := by
  obtain ⟨h', hr⟩ := h.startReasoning
  unfold ResponsesStream.thinkingToken
  dsimp only
  rw [← List.append_assoc]
  generalize s.startReasoning commandId = p at h' hr
  obtain ⟨s', started⟩ := p
  dsimp only at h' hr ⊢
  have hslots : s'.reasoningSlots commandId
      = [thinkingSlot commandId s'.accumulatedThinking] := by
    simp [reasoningSlots, hr, h'.started]
  have hreads := h'.reads
  rw [hslots] at hreads
  have hdelta := hreads.delta (k := 0) s'.seq rfl
    (.reasoningSummaryTextDelta (reasoningId commandId) 0 0 text) rfl rfl rfl (.inl rfl)
  refine ⟨h'.started, h'.text, h'.calls, fun hno => ?_, fun _ => h'.reasoning hr, ?_, ?_⟩
  · rw [show s'.reasoningStarted = false from hno] at hr
    cases hr
  · rw [emit]
    dsimp only
    rw [h'.next, hslots]
    simp [reasoningSlots, hr]
  · simp only [emit, reasoningSlots, hr, h'.started, h'.reasoning hr, if_true]
    exact (slotAt_set [] [] _ _) ▸ hdelta

/-- The message is added; the reasoning before it is done. -/
def openMessage (commandId : String) (s : ResponsesStream) :
    ResponsesStream × List ResponsesStreamEvent :=
  let (s, closed) := s.closeReasoning commandId
  let (s, started) := s.startMessage commandId
  (s, closed ++ started)

/-- The text begins. -/
theorem BeforeMessage.openMessage (h : BeforeMessage commandId s events) :
    InMessage commandId (s.openMessage commandId).1
      (events ++ (s.openMessage commandId).2) := by
  unfold ResponsesStream.openMessage closeReasoning startMessage
  by_cases hr : s.reasoningStarted
  · have hslots : s.reasoningSlots commandId
        = [thinkingSlot commandId s.accumulatedThinking] := by
      simp [reasoningSlots, hr, h.started]
    have hnext : s.nextOutputIndex = 1 := by
      rw [h.next, hslots]
      rfl
    have hreads := h.reads
    rw [hslots] at hreads
    have hclosed := hreads.close (k := 0) s.seq rfl rfl (s.reasoningItem commandId) rfl
      ([.reasoningSummaryTextDone (reasoningId commandId) 0 0 s.accumulatedThinking,
        .reasoningSummaryPartDone (reasoningId commandId) 0 0 s.accumulatedThinking]) (by
        intro b hb
        simp only [List.mem_cons, List.not_mem_nil, or_false] at hb
        rcases hb with rfl | rfl <;> exact ⟨rfl, rfl, rfl⟩)
    have hadded := hclosed.add (k := 1) (s.seq + 3) rfl
      (.message (itemId commandId) [""] .inProgress)
      (.contentPartAdded (itemId commandId) 1 0 "") rfl rfl rfl
    simp only [hr, h.started, emit, true_and, if_true, Bool.false_eq_true, not_false_eq_true,
      if_false, h.reasoning hr, hnext]
    refine ⟨rfl, ?_, fun _ => rfl, ?_, [], ?_, ?_⟩
    · simp [reasoningSlots]
    · simp [reasoningSlots, h.calls]
    · rw [h.calls]
      rfl
    · rw [← List.append_assoc]
      simp only [reasoningSlots, if_true]
      have hset := slotAt_set [] [] (thinkingSlot commandId s.accumulatedThinking)
        (thoughtSlot commandId s.accumulatedThinking)
      have happend := slotAt_append [thoughtSlot commandId s.accumulatedThinking]
        { id := itemId commandId, text := "" }
      rw [List.nil_append, List.nil_append] at hset
      rw [hset] at happend
      simp only [messageSlot, h.text]
      exact happend ▸ hadded
  · have hr : s.reasoningStarted = false := by simpa using hr
    have hslots : s.reasoningSlots commandId = [] := by simp [reasoningSlots, hr]
    have hnext : s.nextOutputIndex = 0 := by
      rw [h.next, hslots]
      rfl
    have hreads := h.reads
    rw [hslots] at hreads
    have hadded := hreads.add (k := 0) s.seq rfl
      (.message (itemId commandId) [""] .inProgress)
      (.contentPartAdded (itemId commandId) 0 0 "") rfl rfl rfl
    simp only [hr, h.started, emit, Bool.false_eq_true, false_and, if_false, List.nil_append,
      hnext]
    refine ⟨rfl, ?_, fun hno => ?_, ?_, [], ?_, ?_⟩
    · simp [reasoningSlots]
    · cases hno
    · simp [reasoningSlots, h.calls]
    · rw [h.calls]
      rfl
    · simp only [reasoningSlots, messageSlot, h.text, Bool.false_eq_true, if_false,
        List.nil_append]
      exact (slotAt_append [] _) ▸ hadded

/-- The text has begun already. -/
theorem openMessage_started (h : s.messageStarted = true) : s.openMessage commandId = (s, []) := by
  simp [ResponsesStream.openMessage, closeReasoning, startMessage, h]

theorem textToken_eq (s : ResponsesStream) (text : String) :
    s.textToken commandId text =
      let (s, opened) := s.openMessage commandId
      let (s, events) := { s with accumulatedText := s.accumulatedText ++ text }.emit
        [.textDelta (itemId commandId) s.messageOutputIndex 0 text]
      (s, opened ++ events) := rfl

/-- A token of the text. -/
theorem InMessage.textToken (h : InMessage commandId s events) (text : String) :
    InMessage commandId (s.textToken commandId text).1
      (events ++ (s.textToken commandId text).2) := by
  obtain ⟨calls, hcalls, hreads⟩ := h.reads
  rw [textToken_eq, openMessage_started h.started]
  dsimp only
  rw [List.nil_append]
  have hslot : slotAt (s.reasoningSlots commandId ++ s.messageSlot commandId :: calls)
      (s.reasoningSlots commandId).length = some (s.messageSlot commandId) := by
    rw [slotAt_natCast]
    simp
  have hdelta := hreads.delta s.seq hslot
    (.textDelta (itemId commandId) (s.reasoningSlots commandId).length 0 text)
    rfl rfl rfl (.inl rfl)
  rw [← slotAt_set _ calls (s.messageSlot commandId)] at hdelta
  refine ⟨h.started, h.message, h.reasoning, h.next, calls, hcalls, ?_⟩
  rw [h.message]
  exact hdelta

/-- A thought without text, after the reasoning is done. -/
theorem InMessage.thinkingToken (h : InMessage commandId s events)
    (hr : s.reasoningStarted = true) :
    InMessage commandId (s.thinkingToken commandId "").1
      (events ++ (s.thinkingToken commandId "").2) := by
  obtain ⟨calls, hcalls, hreads⟩ := h.reads
  have hslots : s.reasoningSlots commandId = [thoughtSlot commandId s.accumulatedThinking] := by
    simp [reasoningSlots, hr, h.started]
  have hstep : s.thinkingToken commandId "" = s.emit
      [.reasoningSummaryTextDelta (reasoningId commandId) s.reasoningOutputIndex 0 ""] := by
    simp [ResponsesStream.thinkingToken, startReasoning, hr, emit]
  rw [hstep, h.reasoning hr]
  have hslot : slotAt (s.reasoningSlots commandId ++ s.messageSlot commandId :: calls) 0
      = some (thoughtSlot commandId s.accumulatedThinking) := by
    rw [hslots]
    rfl
  have hdelta := hreads.delta s.seq hslot
    (.reasoningSummaryTextDelta (reasoningId commandId) 0 0 "") rfl rfl rfl (.inr rfl)
  refine ⟨h.started, h.message, h.reasoning, h.next, calls, hcalls, ?_⟩
  have hsame : Function.update
      (slotAt (s.reasoningSlots commandId ++ s.messageSlot commandId :: calls)) 0
      (some { thoughtSlot commandId s.accumulatedThinking with
        text := (thoughtSlot commandId s.accumulatedThinking).text ++ "" })
      = slotAt (s.reasoningSlots commandId ++ s.messageSlot commandId :: calls) := by
    simp only [String.append_empty]
    refine Function.update_eq_self_iff.mpr ?_
    rw [hslots]
    rfl
  exact hsame ▸ hdelta

/-- A tool call, after the text has begun. -/
theorem InMessage.functionCall (h : InMessage commandId s events) (tool : ToolCallItem) :
    InMessage commandId (s.functionCall tool).1 (events ++ (s.functionCall tool).2) := by
  obtain ⟨calls, hcalls, hreads⟩ := h.reads
  have hlength : calls.length = s.functionCallItems.length := by
    simpa using congrArg List.length hcalls
  have hnext : s.nextOutputIndex
      = (s.reasoningSlots commandId ++ s.messageSlot commandId :: calls).length := by
    rw [h.next, ← hlength, List.length_append, List.length_cons]
    omega
  have hnone : slotAt (s.reasoningSlots commandId ++ s.messageSlot commandId :: calls)
      (s.reasoningSlots commandId ++ s.messageSlot commandId :: calls).length = none := by
    rw [slotAt_natCast]
    exact List.getElem?_eq_none (Nat.le_refl _)
  have hcalled := hreads.call s.seq hnone (functionCallItem tool "" .inProgress)
    (functionCallItem tool tool.arguments .completed) rfl ("fc_" ++ tool.id) tool.name
    tool.arguments
  rw [← slotAt_append, List.append_assoc, List.cons_append, ← hnext] at hcalled
  refine ⟨h.started, h.message, h.reasoning, ?_, _, ?_, hcalled⟩
  · simp only [ResponsesStream.functionCall, emit, List.length_append, List.length_singleton]
    rw [h.next]
    simp only [reasoningSlots]
    omega
  · simp [ResponsesStream.functionCall, emit, hcalls]

theorem InMessage.functionCalls (h : InMessage commandId s events) (tools : List ToolCallItem) :
    InMessage commandId (s.functionCalls tools).1 (events ++ (s.functionCalls tools).2) := by
  induction tools generalizing s events with
  | nil =>
      rw [ResponsesStream.functionCalls, List.append_nil]
      exact h
  | cons tool tools ih =>
      have hrest := ih (h.functionCall tool)
      rw [List.append_assoc] at hrest
      exact hrest

/-! ## What a step leaves -/

/-- How many indices were given to neither a reasoning nor a tool call. -/
def spare (s : ResponsesStream) : Int :=
  s.nextOutputIndex - s.functionCallItems.length - if s.reasoningStarted then 1 else 0

/-- What chunks leave, while no message is added. -/
structure Leaves (s : ResponsesStream) (chunks : List StreamChunk) (s' : ResponsesStream) :
    Prop where
  messageStarted : s'.messageStarted = s.messageStarted
  messageOutputIndex : s'.messageOutputIndex = s.messageOutputIndex
  reasoningStarted : s'.reasoningStarted = (s.reasoningStarted || chunks.any (·.isThinking))
  thinking : s'.accumulatedThinking
    = s.accumulatedThinking ++ String.join ((chunks.filter (·.isThinking)).map (·.text))
  calls : s.functionCallItems.length ≤ s'.functionCallItems.length
  called : (∃ c ∈ chunks, c.callsTools) →
    s.functionCallItems.length < s'.functionCallItems.length
  spare : s'.spare = s.spare

theorem leaves_nil (s : ResponsesStream) : Leaves s [] s where
  messageStarted := rfl
  messageOutputIndex := rfl
  reasoningStarted := (Bool.or_false _).symm
  thinking := (String.append_empty).symm
  calls := Nat.le_refl _
  called := fun ⟨_, hc, _⟩ => by cases hc
  spare := rfl

variable {c : StreamChunk}

theorem Leaves.cons {t : ResponsesStream} (h : Leaves s [c] t)
    (h' : Leaves t chunks s') : Leaves s (c :: chunks) s' where
  messageStarted := h'.messageStarted.trans h.messageStarted
  messageOutputIndex := h'.messageOutputIndex.trans h.messageOutputIndex
  reasoningStarted := by
    rw [h'.reasoningStarted, h.reasoningStarted, List.any_cons, List.any_cons, List.any_nil,
      Bool.or_false, Bool.or_assoc]
  thinking := by
    rw [h'.thinking, h.thinking, String.append_assoc, ← String.join_append, ← List.map_append,
      ← List.filter_append]
    rfl
  calls := Nat.le_trans h.calls h'.calls
  called := by
    rintro ⟨d, hd, hcall⟩
    rcases List.mem_cons.mp hd with rfl | hd
    · exact Nat.lt_of_lt_of_le (h.called ⟨d, List.mem_singleton_self d, hcall⟩) h'.calls
    · exact Nat.lt_of_le_of_lt h.calls (h'.called ⟨d, hd, hcall⟩)
  spare := h'.spare.trans h.spare

theorem uncalled {n m : Nat} (h : c.callsTools = false)
    (hc : ∃ d ∈ [c], d.callsTools) : n < m := by
  obtain ⟨d, hd, hcall⟩ := hc
  rw [List.mem_singleton.mp hd, h] at hcall
  cases hcall

/-- The events are done with nothing but tool calls. -/
def OnlyCalls (events : List ResponsesStreamEvent) : Prop :=
  ∀ i item, .inr item ∈ under (·.mark?) i events →
    ∃ id callId name arguments status, item = .functionCall id callId name arguments status

theorem onlyCalls_nil : OnlyCalls [] := fun _ _ h => by cases h

theorem onlyCalls_numberEvents {seq : Nat} {bodies : List ResponsesEventBody}
    (h : ∀ b ∈ bodies, ∀ j item, b.mark? = some (j, .inr item) →
      ∃ id callId name arguments status, item = .functionCall id callId name arguments status) :
    OnlyCalls (numberEvents seq bodies) := by
  intro i item hmem
  rw [under_numberEvents] at hmem
  obtain ⟨b, hb, heq⟩ := List.mem_filterMap.mp hmem
  obtain ⟨⟨j, mark⟩, hmark, heq⟩ := Option.bind_eq_some_iff.mp heq
  split at heq
  · obtain rfl := Option.some.inj heq
    exact h b hb j item hmark
  · cases heq

theorem OnlyCalls.append (h : OnlyCalls es)
    (h' : OnlyCalls es') : OnlyCalls (es ++ es') := by
  intro i item hmem
  rw [under_append] at hmem
  rcases List.mem_append.mp hmem with hmem | hmem
  · exact h i item hmem
  · exact h' i item hmem

/-- The tools of a chunk. -/
theorem leaves_functionCalls (s : ResponsesStream) (tools : List ToolCallItem)
    (usage : Option Usage) :
    Leaves s [.toolCall tools usage] (s.functionCalls tools).1
      ∧ OnlyCalls (s.functionCalls tools).2 := by
  suffices h : ((s.functionCalls tools).1.messageStarted = s.messageStarted
      ∧ (s.functionCalls tools).1.messageOutputIndex = s.messageOutputIndex
      ∧ (s.functionCalls tools).1.reasoningStarted = s.reasoningStarted
      ∧ (s.functionCalls tools).1.accumulatedThinking = s.accumulatedThinking
      ∧ (s.functionCalls tools).1.functionCallItems.length
        = s.functionCallItems.length + tools.length
      ∧ (s.functionCalls tools).1.spare = s.spare)
      ∧ OnlyCalls (s.functionCalls tools).2 by
    obtain ⟨⟨hm, hi, hr, ht, hc, hs⟩, honly⟩ := h
    refine ⟨⟨hm, hi, hr.trans (Bool.or_false _).symm, ht.trans String.append_empty.symm,
      hc ▸ Nat.le_add_right _ _, ?_, hs⟩, honly⟩
    rintro ⟨c, hmem, hcall⟩
    obtain rfl := List.mem_singleton.mp hmem
    have hne : tools ≠ [] := by simpa [StreamChunk.callsTools] using hcall
    have hpos : 0 < tools.length := List.length_pos_iff.mpr hne
    omega
  induction tools generalizing s with
  | nil => exact ⟨⟨rfl, rfl, rfl, rfl, rfl, rfl⟩, onlyCalls_nil⟩
  | cons tool tools ih =>
      obtain ⟨⟨hm, hi, hr, ht, hc, hs⟩, honly⟩ := ih (s.functionCall tool).1
      have hlength : (s.functionCall tool).1.functionCallItems.length
          = s.functionCallItems.length + 1 := by
        simp [ResponsesStream.functionCall, emit]
      have hspare : (s.functionCall tool).1.spare = s.spare := by
        rw [ResponsesStream.spare, hlength]
        simp only [ResponsesStream.spare, ResponsesStream.functionCall, emit]
        congr 1
        omega
      refine ⟨⟨hm, hi, hr, ht, ?_, hs.trans hspare⟩, OnlyCalls.append ?_ honly⟩
      · rw [hlength] at hc
        exact hc.trans (Nat.add_right_comm _ 1 _)
      · refine onlyCalls_numberEvents fun b hb j item hmark => ?_
        simp only [List.mem_cons, List.not_mem_nil, or_false] at hb
        rcases hb with rfl | rfl | rfl | rfl <;> cases hmark
        exact ⟨_, _, _, _, _, rfl⟩

theorem leaves_thinkingToken (commandId : String) (s : ResponsesStream) (text : String)
    (finishReason : Option FinishReason) (usage : Option Usage) :
    Leaves s [.token text true finishReason usage] (s.thinkingToken commandId text).1
      ∧ OnlyCalls (s.thinkingToken commandId text).2 := by
  have hnone : OnlyCalls (s.thinkingToken commandId text).2 := by
    unfold thinkingToken startReasoning
    dsimp only
    refine OnlyCalls.append ?_ (onlyCalls_numberEvents ?_)
    · split
      · exact onlyCalls_nil
      · refine onlyCalls_numberEvents fun b hb j item hmark => ?_
        simp only [List.mem_cons, List.not_mem_nil, or_false] at hb
        rcases hb with rfl | rfl <;> cases hmark
    · intro b hb j item hmark
      rw [List.mem_singleton.mp hb] at hmark
      cases hmark
  refine ⟨?_, hnone⟩
  unfold thinkingToken startReasoning
  by_cases hr : s.reasoningStarted
  · rw [if_pos hr]
    exact {
      messageStarted := rfl
      messageOutputIndex := rfl
      reasoningStarted := by simp [emit, hr, StreamChunk.isThinking]
      thinking := by simp [emit, StreamChunk.isThinking, StreamChunk.text]
      calls := Nat.le_refl _
      called := uncalled rfl
      spare := rfl }
  · rw [if_neg hr]
    exact {
      messageStarted := rfl
      messageOutputIndex := rfl
      reasoningStarted := by simp [emit, StreamChunk.isThinking]
      thinking := by simp [emit, StreamChunk.isThinking, StreamChunk.text]
      calls := Nat.le_refl _
      called := uncalled rfl
      spare := by
        simp only [spare, emit, hr, if_true, Bool.false_eq_true, if_false]
        omega }

theorem leaves_textToken (commandId : String) (h : s.messageStarted = true) (text : String)
    (finishReason : Option FinishReason) (usage : Option Usage) :
    Leaves s [.token text false finishReason usage] (s.textToken commandId text).1
      ∧ OnlyCalls (s.textToken commandId text).2 := by
  rw [textToken_eq, openMessage_started h]
  refine ⟨⟨rfl, rfl, (Bool.or_false _).symm, String.append_empty.symm, Nat.le_refl _,
    uncalled rfl, rfl⟩,
    onlyCalls_numberEvents fun b hb j item hmark => ?_⟩
  rw [List.mem_singleton.mp hb] at hmark
  cases hmark

/-- While the text does not begin, nothing but tool calls is done. -/
theorem leaves_loop (commandId : String) (hchunks : ∀ c ∈ chunks, ∀ message, c ≠ .error message)
    (h : s.messageStarted = true ∨ ∀ c ∈ chunks, c.isText = false) :
    Leaves s chunks (s.loop commandId chunks).1 ∧ OnlyCalls (s.loop commandId chunks).2 := by
  induction chunks generalizing s with
  | nil => exact ⟨leaves_nil s, onlyCalls_nil⟩
  | cons chunk chunks ih =>
      have hnext : ∀ t : ResponsesStream, t.messageStarted = s.messageStarted →
          Leaves t chunks (t.loop commandId chunks).1
            ∧ OnlyCalls (t.loop commandId chunks).2 := by
        intro t ht
        refine ih (fun c hc => hchunks c (List.mem_cons_of_mem _ hc)) ?_
        rw [ht]
        exact h.imp_right fun hno c hc => hno c (List.mem_cons_of_mem _ hc)
      cases chunk with
      | error message => exact absurd rfl (hchunks _ List.mem_cons_self message)
      | prefillProgress processed total =>
          obtain ⟨hleaves, honly⟩ := hnext s rfl
          have hskips : Leaves s [.prefillProgress processed total] s :=
            ⟨rfl, rfl, (Bool.or_false _).symm, String.append_empty.symm, Nat.le_refl _,
    uncalled rfl, rfl⟩
          exact ⟨hskips.cons hleaves, honly⟩
      | toolCall toolCalls usage =>
          obtain ⟨hstep, hfirst⟩ := leaves_functionCalls
            { s with lastUsage := usage.or s.lastUsage } toolCalls usage
          obtain ⟨hleaves, honly⟩ := hnext _ hstep.messageStarted
          have hused : Leaves s [.toolCall toolCalls usage] _ :=
            ⟨hstep.messageStarted, hstep.messageOutputIndex, hstep.reasoningStarted,
              hstep.thinking, hstep.calls, hstep.called, hstep.spare⟩
          exact ⟨hused.cons hleaves, hfirst.append honly⟩
      | token text isThinking finishReason usage =>
          cases isThinking with
          | true =>
              obtain ⟨hstep, hfirst⟩ := leaves_thinkingToken commandId
                { s with lastUsage := usage.or s.lastUsage } text finishReason usage
              obtain ⟨hleaves, honly⟩ := hnext _ hstep.messageStarted
              have hused : Leaves s [.token text true finishReason usage] _ :=
                ⟨hstep.messageStarted, hstep.messageOutputIndex, hstep.reasoningStarted,
                  hstep.thinking, hstep.calls, hstep.called, hstep.spare⟩
              exact ⟨hused.cons hleaves, hfirst.append honly⟩
          | false =>
              have hm : s.messageStarted = true := by
                rcases h with h | h
                · exact h
                · cases h _ List.mem_cons_self
              obtain ⟨hstep, hfirst⟩ := leaves_textToken commandId
                (s := { s with lastUsage := usage.or s.lastUsage }) hm text finishReason usage
              obtain ⟨hleaves, honly⟩ := hnext _ hstep.messageStarted
              have hused : Leaves s [.token text false finishReason usage] _ :=
                ⟨hstep.messageStarted, hstep.messageOutputIndex, hstep.reasoningStarted,
                  hstep.thinking, hstep.calls, hstep.called, hstep.spare⟩
              exact ⟨hused.cons hleaves, hfirst.append honly⟩

/-! ## Whole streams -/

theorem loop_received (s : ResponsesStream) (chunks : List StreamChunk) :
    s.loop commandId (received chunks) = s.loop commandId chunks := by
  induction chunks generalizing s with
  | nil => rfl
  | cons chunk chunks ih =>
      cases chunk with
      | error => rfl
      | prefillProgress => exact ih s
      | toolCall toolCalls usage | token text isThinking finishReason usage =>
          simp only [received, loop, ih]

/-- The chunks up to a point, and the rest. -/
theorem loop_append (s : ResponsesStream) {xs ys : List StreamChunk}
    (hxs : ∀ c ∈ xs, ∀ message, c ≠ .error message) :
    s.loop commandId (xs ++ ys) =
      let (s, events) := s.loop commandId xs
      let (s, rest) := s.loop commandId ys
      (s, events ++ rest) := by
  induction xs generalizing s with
  | nil => rfl
  | cons chunk xs ih =>
      have hrest := fun s => ih s fun c hc => hxs c (List.mem_cons_of_mem _ hc)
      cases chunk with
      | error message => exact absurd rfl (hxs _ List.mem_cons_self message)
      | prefillProgress => exact hrest s
      | toolCall toolCalls usage | token text isThinking finishReason usage =>
          simp only [List.cons_append, loop, hrest, List.append_assoc]

theorem ne_error_of_mem_received {chunks : List StreamChunk}
    (hc : c ∈ received chunks) (message : String) : c ≠ .error message := by
  induction chunks with
  | nil => cases hc
  | cons chunk chunks ih =>
      cases chunk with
      | error => cases hc
      | prefillProgress => exact ih hc
      | toolCall toolCalls usage | token text isThinking finishReason usage =>
          rcases List.mem_cons.mp hc with rfl | hc
          · nofun
          · exact ih hc

/-- Before the text, without tool calls. -/
theorem BeforeMessage.loop (h : BeforeMessage commandId s events)
    (hchunks : ∀ c ∈ chunks, c.isText = false ∧ c.callsTools = false) :
    BeforeMessage commandId (s.loop commandId chunks).1
      (events ++ (s.loop commandId chunks).2) := by
  induction chunks generalizing s events with
  | nil =>
      rw [ResponsesStream.loop, List.append_nil]
      exact h
  | cons chunk chunks ih =>
      have hrest : ∀ c ∈ chunks, c.isText = false ∧ c.callsTools = false :=
        fun c hc => hchunks c (List.mem_cons_of_mem _ hc)
      obtain ⟨htext, htools⟩ := hchunks chunk List.mem_cons_self
      cases chunk with
      | error =>
          rw [ResponsesStream.loop, List.append_nil]
          exact h
      | prefillProgress => exact ih h hrest
      | toolCall toolCalls usage =>
          obtain rfl : toolCalls = [] := by simpa [StreamChunk.callsTools] using htools
          have hused : BeforeMessage commandId { s with lastUsage := usage.or s.lastUsage }
              events :=
            ⟨h.started, h.text, h.calls, h.thinking, h.reasoning, h.next, h.reads⟩
          exact ih hused hrest
      | token text isThinking finishReason usage =>
          obtain rfl : isThinking = true := by simpa [StreamChunk.isText] using htext
          have hused : BeforeMessage commandId { s with lastUsage := usage.or s.lastUsage }
              events :=
            ⟨h.started, h.text, h.calls, h.thinking, h.reasoning, h.next, h.reads⟩
          have hthought := ih (hused.thinkingToken text) hrest
          rw [List.append_assoc] at hthought
          exact hthought

/-- After the text has begun, without thoughts that say something. -/
theorem InMessage.loop (h : InMessage commandId s events)
    (hchunks : ∀ c ∈ chunks, c.isThinking → c.text = "" ∧ s.reasoningStarted = true) :
    InMessage commandId (s.loop commandId chunks).1
      (events ++ (s.loop commandId chunks).2) := by
  induction chunks generalizing s events with
  | nil =>
      rw [ResponsesStream.loop, List.append_nil]
      exact h
  | cons chunk chunks ih =>
      have hrest : ∀ c ∈ chunks, c.isThinking → c.text = "" ∧ s.reasoningStarted = true :=
        fun c hc => hchunks c (List.mem_cons_of_mem _ hc)
      cases chunk with
      | error =>
          rw [ResponsesStream.loop, List.append_nil]
          exact h
      | prefillProgress => exact ih h hrest
      | toolCall toolCalls usage =>
          have hused : InMessage commandId { s with lastUsage := usage.or s.lastUsage } events :=
            ⟨h.started, h.message, h.reasoning, h.next, h.reads⟩
          have hleaves := (leaves_functionCalls { s with lastUsage := usage.or s.lastUsage }
            toolCalls usage).1
          have hcalled := ih (hused.functionCalls toolCalls) (by
            rw [hleaves.reasoningStarted]
            exact fun c hc ht => (hrest c hc ht).imp_right fun hr => by simp [hr])
          rw [List.append_assoc] at hcalled
          exact hcalled
      | token text isThinking finishReason usage =>
          have hused : InMessage commandId { s with lastUsage := usage.or s.lastUsage } events :=
            ⟨h.started, h.message, h.reasoning, h.next, h.reads⟩
          cases isThinking with
          | true =>
              obtain ⟨rfl, hr⟩ : text = "" ∧ s.reasoningStarted = true :=
                hchunks _ List.mem_cons_self rfl
              have hleaves := (leaves_thinkingToken commandId
                { s with lastUsage := usage.or s.lastUsage } "" finishReason usage).1
              have hthought := ih (hused.thinkingToken hr) (by
                rw [hleaves.reasoningStarted]
                exact fun c hc ht => (hrest c hc ht).imp_right fun hr => by simp [hr])
              rw [List.append_assoc] at hthought
              exact hthought
          | false =>
              have hleaves := (leaves_textToken commandId hused.started text
                finishReason usage).1
              have hsaid := ih (hused.textToken text) (by
                rw [hleaves.reasoningStarted]
                exact fun c hc ht => (hrest c hc ht).imp_right fun hr => by simp [hr])
              rw [List.append_assoc] at hsaid
              exact hsaid

theorem messageStarted_openMessage (s : ResponsesStream) :
    (s.openMessage commandId).1.messageStarted = true := by
  unfold openMessage closeReasoning startMessage
  dsimp only
  by_cases hm : s.messageStarted
  · simp [hm]
  · by_cases hr : s.reasoningStarted <;> simp [hm, hr, emit]

/-- What adding the message leaves. -/
structure Opens (commandId : String) (s : ResponsesStream)
    (p : ResponsesStream × List ResponsesStreamEvent) : Prop where
  reasoningStarted : p.1.reasoningStarted = s.reasoningStarted
  thinking : p.1.accumulatedThinking = s.accumulatedThinking
  message : p.1.messageOutputIndex = s.nextOutputIndex
  /-- Only the reasoning is done. -/
  done : ∀ i item, .inr item ∈ under (·.mark?) i p.2 →
    s.reasoningStarted = true ∧ item = s.reasoningItem commandId

theorem opens_openMessage (h : s.messageStarted = false) :
    Opens commandId s (s.openMessage commandId) := by
  unfold openMessage closeReasoning startMessage
  by_cases hr : s.reasoningStarted
  · simp only [h, hr, emit, true_and, Bool.false_eq_true, not_false_eq_true, if_true, if_false]
    refine ⟨hr.symm, rfl, rfl, fun i item hmem => ⟨hr, ?_⟩⟩
    rw [under_append, under_numberEvents, under_numberEvents] at hmem
    simp [ResponsesEventBody.mark?] at hmem
    exact hmem.2.symm
  · rw [Bool.not_eq_true] at hr
    simp only [h, hr, emit, false_and, Bool.false_eq_true, if_false, List.nil_append]
    refine ⟨hr.symm, rfl, rfl, fun i item hmem => ?_⟩
    rw [under_numberEvents] at hmem
    simp [ResponsesEventBody.mark?] at hmem

/-- The usage has nothing to do with the items. -/
theorem openMessage_lastUsage (s : ResponsesStream) (usage : Option Usage) :
    { s with lastUsage := usage }.openMessage commandId
      = ({ (s.openMessage commandId).1 with lastUsage := usage }, (s.openMessage commandId).2) := by
  unfold openMessage closeReasoning startMessage
  dsimp only
  by_cases hm : s.messageStarted
  · simp [hm]
  · by_cases hr : s.reasoningStarted <;> simp [hm, hr, emit, reasoningItem]

theorem lastUsage_openMessage (s : ResponsesStream) :
    (s.openMessage commandId).1.lastUsage = s.lastUsage := by
  unfold openMessage closeReasoning startMessage
  dsimp only
  by_cases hm : s.messageStarted
  · simp [hm]
  · by_cases hr : s.reasoningStarted <;> simp [hm, hr, emit]

/-- The first token of the text adds the message. -/
theorem textToken_openMessage (commandId : String) (s : ResponsesStream) (text : String) :
    s.textToken commandId text
      = (((s.openMessage commandId).1.textToken commandId text).1,
        (s.openMessage commandId).2
          ++ ((s.openMessage commandId).1.textToken commandId text).2) := by
  rw [textToken_eq (s.openMessage commandId).1,
    openMessage_started (messageStarted_openMessage s)]
  rfl

/-- Whether the message is added by the first token of the text or at the end. -/
theorem loop_fromText (commandId : String) (s : ResponsesStream) (stream : List StreamChunk) :
    ((s.loop commandId (fromText stream)).1.openMessage commandId).1
        = ((s.openMessage commandId).1.loop commandId (fromText stream)).1
      ∧ (s.loop commandId (fromText stream)).2
          ++ ((s.loop commandId (fromText stream)).1.openMessage commandId).2
        = (s.openMessage commandId).2
          ++ ((s.openMessage commandId).1.loop commandId (fromText stream)).2 := by
  have herrors : ∀ c ∈ fromText stream, ∀ message, c ≠ .error message := fun c hc =>
    ne_error_of_mem_received (List.dropWhile_subset _ hc)
  have hhead : ∀ c ∈ (fromText stream).head?, c.isText = true := by
    intro c hc
    have hnot := List.head?_dropWhile_not (fun c : StreamChunk => decide ¬ c.isText)
      (received stream)
    rw [show List.dropWhile _ (received stream) = fromText stream from rfl, hc] at hnot
    simpa using hnot
  cases hq : fromText stream with
  | nil => simp [loop]
  | cons chunk chunks =>
      rw [hq] at herrors hhead
      have htext := hhead chunk rfl
      cases chunk with
      | token text isThinking finishReason usage =>
          obtain rfl : isThinking = false := by simpa [StreamChunk.isText] using htext
          have hfirst := textToken_openMessage commandId
            { s with lastUsage := usage.or s.lastUsage } text
          rw [openMessage_lastUsage] at hfirst
          simp only [loop, Bool.false_eq_true, if_false, hfirst, lastUsage_openMessage]
          have hm : { (s.openMessage commandId).1 with
              lastUsage := usage.or s.lastUsage }.messageStarted = true :=
            messageStarted_openMessage s
          have hsaid := (leaves_textToken commandId hm text finishReason usage).1
          have hloop := (leaves_loop commandId
            (fun c hc => herrors c (List.mem_cons_of_mem _ hc))
            (.inl (hsaid.messageStarted.trans hm))).1
          rw [openMessage_started (hloop.messageStarted.trans (hsaid.messageStarted.trans hm))]
          exact ⟨rfl, by simp⟩
      | _ => cases htext

section Stages

variable (commandId model : String) (stream : List StreamChunk)

/-- The first two events. -/
def begun : ResponsesStream × List ResponsesStreamEvent :=
  let response : ResponsesResponse :=
    { id := responseId commandId, status := .inProgress, model, output := [], outputText := "" }
  ({} : ResponsesStream).emit [.created response, .inProgress response]

/-- The chunks before the text. -/
def thought : ResponsesStream × List ResponsesStreamEvent :=
  (begun commandId model).1.loop commandId (beforeText stream)

/-- The message is added. -/
def opened : ResponsesStream × List ResponsesStreamEvent :=
  (thought commandId model stream).1.openMessage commandId

/-- The text, and the chunks after it. -/
def said : ResponsesStream × List ResponsesStreamEvent :=
  (opened commandId model stream).1.loop commandId (fromText stream)

/-- The message is done, and the response is complete. -/
def ended : List ResponsesStreamEvent :=
  ((said commandId model stream).1.closeMessage commandId).2
    ++ (((said commandId model stream).1.closeMessage commandId).1.complete commandId model).2

/-- **The stream stage by stage.** -/
theorem generate_eq : generateResponsesStream commandId model stream =
    (begun commandId model).2 ++ (thought commandId model stream).2
      ++ (opened commandId model stream).2 ++ (said commandId model stream).2
      ++ ended commandId model stream := by
  have hloop : (begun commandId model).1.loop commandId stream =
      (((thought commandId model stream).1.loop commandId (fromText stream)).1,
        (thought commandId model stream).2
          ++ ((thought commandId model stream).1.loop commandId (fromText stream)).2) := by
    have hsplit : beforeText stream ++ fromText stream = received stream :=
      List.takeWhile_append_dropWhile
    rw [← loop_received, ← hsplit, loop_append]
    · rfl
    · exact fun c hc => ne_error_of_mem_received (List.takeWhile_subset _ hc)
  obtain ⟨hstate, hevents⟩ := loop_fromText commandId
    (thought commandId model stream).1 stream
  have hopen : generateResponsesStream commandId model stream =
      (begun commandId model).2 ++ ((begun commandId model).1.loop commandId stream).2
        ++ (((begun commandId model).1.loop commandId stream).1.openMessage commandId).2
        ++ ((((begun commandId model).1.loop commandId stream).1.openMessage
          commandId).1.closeMessage commandId).2
        ++ (((((begun commandId model).1.loop commandId stream).1.openMessage
          commandId).1.closeMessage commandId).1.complete commandId model).2 := by
    simp only [generateResponsesStream, begun, openMessage, List.append_assoc]
  rw [hopen, hloop]
  dsimp only
  rw [hstate]
  have hmiddle := congrArg ((thought commandId model stream).2 ++ ·) hevents
  simp only [← List.append_assoc] at hmiddle
  simp only [ended, said, opened, ← List.append_assoc]
  rw [List.append_assoc (begun commandId model).2, List.append_assoc (begun commandId model).2,
    hmiddle]
  simp only [List.append_assoc]

theorem numbers_openMessage (s : ResponsesStream) :
    Numbers s.seq (s.openMessage commandId).2 (s.openMessage commandId).1.seq :=
  (numbers_closeReasoning s).append (numbers_startMessage (s.closeReasoning commandId).1)

theorem numbers_ended : ∃ next, Numbers (said commandId model stream).1.seq
    (ended commandId model stream) next := by
  have hclosed : Numbers (said commandId model stream).1.seq
      ((said commandId model stream).1.closeMessage commandId).2
      ((said commandId model stream).1.closeMessage commandId).1.seq :=
    numbers_numberEvents _ _
  exact ⟨_, hclosed.append (numbers_numberEvents
    ((said commandId model stream).1.closeMessage commandId).1.seq _)⟩

/-- **Each event takes the next number.** -/
theorem numbered_generate :
    (generateResponsesStream commandId model stream).map (·.sequenceNumber)
      = List.range' 1 (generateResponsesStream commandId model stream).length := by
  obtain ⟨next, hended⟩ := numbers_ended commandId model stream
  have hbegun : Numbers 1 (begun commandId model).2 (begun commandId model).1.seq :=
    numbers_numberEvents 1 _
  rw [generate_eq]
  exact ((((hbegun.append (numbers_loop _ _)).append (numbers_openMessage commandId _)).append
    (numbers_loop _ _)).append hended).numbered

/-- The response comes last. -/
theorem getLast?_generate : ∃ number,
    (generateResponsesStream commandId model stream).getLast? = some ⟨number, .completed
      { id := responseId commandId
        status := .completed
        model
        output := (said commandId model stream).1.output commandId
        outputText := (said commandId model stream).1.accumulatedText
        usage := (said commandId model stream).1.lastUsage.map buildResponseUsage }⟩ := by
  refine ⟨((said commandId model stream).1.closeMessage commandId).1.seq, ?_⟩
  rw [generate_eq]
  unfold ended
  rw [← List.append_assoc]
  rw [List.getLast?_append]
  rfl

/-- The message is done, and the response says what was done. -/
theorem InMessage.ended {commandId : String} (h : InMessage commandId s events)
    (model : String) :
    ∃ slots : List Slot, slots.map (·.item) = (s.output commandId).map some
      ∧ ReadsAs (events ++ ((s.closeMessage commandId).2
        ++ ((s.closeMessage commandId).1.complete commandId model).2)) (slotAt slots) := by
  obtain ⟨calls, hcalls, hreads⟩ := h.reads
  have hslot : slotAt (s.reasoningSlots commandId ++ s.messageSlot commandId :: calls)
      (s.reasoningSlots commandId).length = some (s.messageSlot commandId) := by
    rw [slotAt_natCast]
    simp
  have hclosed := hreads.close s.seq hslot rfl (s.messageItem commandId) rfl
    ([.textDone (itemId commandId) (s.reasoningSlots commandId).length 0
        s.accumulatedText,
      .contentPartDone (itemId commandId) (s.reasoningSlots commandId).length 0
        s.accumulatedText]) (by
      intro b hb
      simp only [List.mem_cons, List.not_mem_nil, or_false] at hb
      rcases hb with rfl | rfl <;> exact ⟨rfl, rfl, rfl⟩)
  rw [← slotAt_set _ calls (s.messageSlot commandId)] at hclosed
  refine ⟨s.reasoningSlots commandId ++ { s.messageSlot commandId with
      item := some (s.messageItem commandId)
      named := fun _ hx => Option.some.inj hx ▸ rfl } :: calls, ?_, ?_⟩
  · have hreasoning : (s.reasoningSlots commandId).map (·.item)
        = if s.reasoningStarted then [some (s.reasoningItem commandId)] else [] := by
      unfold reasoningSlots
      rw [h.started]
      split <;> rfl
    rw [List.map_append, List.map_cons, hreasoning, hcalls, output]
    split <;> simp
  · have hlast := hclosed.other (s.seq + 3) [.completed
      { id := responseId commandId
        status := .completed
        model
        output := s.output commandId
        outputText := s.accumulatedText
        usage := s.lastUsage.map buildResponseUsage }] (by
        simp [ResponsesEventBody.mark?, ResponsesEventBody.delta?, ResponsesEventBody.total?])
    rw [List.append_assoc] at hlast
    simp only [closeMessage, complete, emit, h.message]
    exact hlast

/-- What was read, when all items are done. -/
theorem consistent_of_reads {slots : List Slot} {output : List ResponseItem}
    (hslots : slots.map (·.item) = output.map some) (hreads : ReadsAs events (slotAt slots)) :
    (∀ i, under (·.mark?) i events = [] ∨ ∃ item item' : ResponseItem,
      under (·.mark?) i events = [.inl item, .inr item'] ∧ item'.id = item.id)
    ∧ (∀ (i : Nat) item, output[i]? = some item ↔ .inr item ∈ under (·.mark?) i events)
    ∧ ∀ i, ∀ text ∈ under (·.total?) i events,
      text = String.join (under (·.delta?) i events) := by
  have hget : ∀ n : Nat, (slots[n]?).map (·.item) = (output[n]?).map some := by
    intro n
    rw [← List.getElem?_map, ← List.getElem?_map, hslots]
  have hdone : ∀ i slot, slotAt slots i = some slot → ∃ item, slot.item = some item := by
    intro i slot hslot
    by_cases hi : i < 0
    · rw [slotAt_of_neg _ hi] at hslot
      cases hslot
    · obtain ⟨n, rfl⟩ := Int.eq_ofNat_of_zero_le (by omega : 0 ≤ i)
      have hn := hget n
      rw [slotAt_natCast] at hslot
      rw [hslot] at hn
      obtain ⟨item, -, hitem⟩ := Option.map_eq_some_iff.mp hn.symm
      exact ⟨item, hitem.symm⟩
  refine ⟨fun i => ?_, fun n item => ?_, fun i text htext => ?_⟩
  · have hread := hreads i
    cases hslot : slotAt slots i with
    | none =>
        rw [hslot] at hread
        exact .inl hread.1
    | some slot =>
        rw [hslot] at hread
        obtain ⟨⟨item, hid, hmarks⟩, -⟩ := hread
        obtain ⟨item', hitem⟩ := hdone i slot hslot
        rw [hitem] at hmarks
        exact .inr ⟨item, item', hmarks, (slot.named item' hitem).trans hid.symm⟩
  · have hread := hreads n
    have hn := hget n
    rw [slotAt_natCast] at hread
    cases hslot : slots[n]? with
    | none =>
        rw [hslot] at hread hn
        rw [Option.map_eq_none_iff.mp hn.symm, hread.1]
        simp
    | some slot =>
        rw [hslot] at hread hn
        obtain ⟨item', hout, hitem⟩ := Option.map_eq_some_iff.mp hn.symm
        obtain ⟨⟨added, -, hmarks⟩, -⟩ := hread
        rw [hout, hmarks, show slot.item = some item' from hitem.symm]
        simp [eq_comm]
  · have hread := hreads i
    cases hslot : slotAt slots i with
    | none =>
        rw [hslot] at hread
        rw [hread.2.2] at htext
        cases htext
    | some slot =>
        rw [hslot] at hread
        exact (hread.2.2 text htext).2.trans hread.2.1.symm

theorem isText_of_mem_beforeText {stream : List StreamChunk}
    (hc : c ∈ beforeText stream) : c.isText = false := by
  simpa using List.mem_takeWhile_imp hc

theorem leaves_thought : Leaves (begun commandId model).1 (beforeText stream)
      (thought commandId model stream).1
    ∧ OnlyCalls (thought commandId model stream).2 :=
  leaves_loop commandId (fun _ hc => ne_error_of_mem_received (List.takeWhile_subset _ hc))
    (.inr fun _ hc => isText_of_mem_beforeText hc)

theorem opens_opened : Opens commandId (thought commandId model stream).1
    (opened commandId model stream) :=
  opens_openMessage (leaves_thought commandId model stream).1.messageStarted

theorem leaves_said : Leaves (opened commandId model stream).1 (fromText stream)
      (said commandId model stream).1
    ∧ OnlyCalls (said commandId model stream).2 :=
  leaves_loop commandId (fun _ hc => ne_error_of_mem_received (List.dropWhile_subset _ hc))
    (.inl (messageStarted_openMessage _))

variable {commandId model stream}

/-- In a stream in place, all is as a client relies on. -/
theorem consistent_of_inPlace (h : InPlace stream) :
    ConsistentResponse (generateResponsesStream commandId model stream) := by
  have hbegun : BeforeMessage commandId (begun commandId model).1 (begun commandId model).2 := by
    refine ⟨rfl, rfl, rfl, fun _ => rfl, nofun, rfl, ?_⟩
    have hnil : ReadsAs [] (slotAt []) := by
      intro i
      have hnone : slotAt [] i = none := by simp [slotAt]
      rw [hnone]
      exact ⟨rfl, rfl, rfl⟩
    refine hnil.other 1 [.created _, .inProgress _] fun b hb => ?_
    simp only [List.mem_cons, List.not_mem_nil, or_false] at hb
    rcases hb with rfl | rfl <;> exact ⟨rfl, rfl, rfl⟩
  have hopened := (hbegun.loop fun c hc =>
    ⟨isText_of_mem_beforeText hc, h.tools c hc⟩).openMessage
  have hthinking : ∀ c ∈ fromText stream, c.isThinking →
      c.text = "" ∧ (opened commandId model stream).1.reasoningStarted = true := by
    intro c hc ht
    obtain ⟨htext, b, hb, hthinks⟩ := h.thinking c hc ht
    have hstarted := (leaves_thought commandId model stream).1.reasoningStarted
    rw [List.any_eq_true.mpr ⟨b, hb, hthinks⟩, Bool.or_true] at hstarted
    exact ⟨htext, (opens_opened commandId model stream).reasoningStarted.trans hstarted⟩
  have hsaid := hopened.loop hthinking
  obtain ⟨slots, hslots, hreads⟩ := hsaid.ended model
  obtain ⟨honce, hout, htotals⟩ := consistent_of_reads hslots hreads
  obtain ⟨number, hlast⟩ := getLast?_generate commandId model stream
  have heq := generate_eq commandId model stream
  rw [ended] at heq
  refine ⟨numbered_generate commandId model stream, ?_, ⟨number, _, hlast, ?_⟩, ?_⟩
  · rw [heq]
    exact honce
  · rw [heq]
    exact hout
  · rw [heq]
    exact htotals

/-- Where the reasoning and the message are done. -/
theorem done_generate {i : Int} {item : ResponseItem}
    (hmem : .inr item ∈ under (·.mark?) i (generateResponsesStream commandId model stream)) :
    (∃ id callId name arguments status, item = .functionCall id callId name arguments status)
      ∨ ((thought commandId model stream).1.reasoningStarted = true
        ∧ item = (thought commandId model stream).1.reasoningItem commandId)
      ∨ (i = (said commandId model stream).1.messageOutputIndex
        ∧ item = (said commandId model stream).1.messageItem commandId) := by
  rw [generate_eq] at hmem
  simp only [under_append, List.mem_append] at hmem
  rcases hmem with (((hmem | hmem) | hmem) | hmem) | hmem
  · simp only [begun, emit, under_numberEvents] at hmem
    simp [ResponsesEventBody.mark?] at hmem
  · exact .inl ((leaves_thought commandId model stream).2 i item hmem)
  · exact .inr (.inl ((opens_opened commandId model stream).done i item hmem))
  · exact .inl ((leaves_said commandId model stream).2 i item hmem)
  · refine .inr (.inr ?_)
    simp only [ended, closeMessage, complete, emit, under_append, under_numberEvents] at hmem
    simp [ResponsesEventBody.mark?] at hmem
    exact ⟨hmem.1.symm, hmem.2.symm⟩

theorem join_eq_empty {l : List String} (h : String.join l = "") : ∀ x ∈ l, x = "" := by
  induction l with
  | nil => nofun
  | cons y l ih =>
      rw [String.join_cons, String.append_eq_empty_iff] at h
      intro x hx
      rcases List.mem_cons.mp hx with rfl | hx
      · exact h.1
      · exact ih h.2 x hx

/-- The message is added under the first index that no reasoning and no tool call has. -/
theorem messageOutputIndex_said : (said commandId model stream).1.messageOutputIndex
    = (thought commandId model stream).1.functionCallItems.length
      + if (thought commandId model stream).1.reasoningStarted then 1 else 0 := by
  have hspare : (thought commandId model stream).1.spare = 0 :=
    (leaves_thought commandId model stream).1.spare
  rw [(leaves_said commandId model stream).1.messageOutputIndex,
    (opens_opened commandId model stream).message]
  unfold spare at hspare
  omega

/-- Before the text, no call is left when no tool was called. -/
theorem callsTools_of_functionCallItems (commandId model : String)
    (h : (thought commandId model stream).1.functionCallItems.length = 0) :
    ∀ c ∈ beforeText stream, c.callsTools = false := by
  intro c hc
  by_contra hcall
  have hcalled := (leaves_thought commandId model stream).1.called
    ⟨c, hc, by simpa using hcall⟩
  omega

/-- After the text has begun, nothing is thought that the reasoning does not have already. -/
theorem text_of_accumulatedThinking
    (h : (said commandId model stream).1.accumulatedThinking
      = (thought commandId model stream).1.accumulatedThinking) :
    ∀ c ∈ fromText stream, c.isThinking → c.text = "" := by
  have hsaid := (leaves_said commandId model stream).1.thinking
  rw [h, (opens_opened commandId model stream).thinking] at hsaid
  have hempty := join_eq_empty (String.append_eq_left_iff.mp hsaid.symm)
  intro c hc ht
  exact hempty _ (List.mem_map_of_mem (List.mem_filter.mpr ⟨hc, ht⟩))

/-- Where all is as a client relies on, the stream was in place. -/
theorem inPlace_of_consistent
    (h : ConsistentResponse (generateResponsesStream commandId model stream)) :
    InPlace stream := by
  obtain ⟨number, response, hlast, hout⟩ := h.output
  obtain ⟨number', hlast'⟩ := getLast?_generate commandId model stream
  rw [hlast] at hlast'
  cases hlast'
  have hindex : (said commandId model stream).1.messageOutputIndex = _ := messageOutputIndex_said
  have hthought := (leaves_thought commandId model stream).1.reasoningStarted
  have hopened := (opens_opened commandId model stream).reasoningStarted
  have hsaid := (leaves_said commandId model stream).1.reasoningStarted
  rw [hopened] at hsaid
  cases hr : (said commandId model stream).1.reasoningStarted with
  | false =>
      -- Nothing was thought: the message is the first item of the response.
      rw [hr] at hsaid
      obtain ⟨hfirst, hno⟩ := Bool.or_eq_false_iff.mp hsaid.symm
      have hmessage : ((said commandId model stream).1.output commandId)[0]?
          = some ((said commandId model stream).1.messageItem commandId) := by
        simp [output, hr]
      rcases done_generate ((hout 0 _).mp hmessage) with
        ⟨_, _, _, _, _, heq⟩ | ⟨-, heq⟩ | ⟨hzero, -⟩
      · cases heq
      · cases heq
      · rw [hindex, hfirst] at hzero
        refine ⟨callsTools_of_functionCallItems commandId model (by simpa using hzero.symm),
          fun c hc ht => ?_⟩
        have hany := List.any_eq_false.mp hno c hc
        contradiction
  | true =>
      -- The reasoning is the first item of the response, so it was done before the message.
      have hreasoning : ((said commandId model stream).1.output commandId)[0]?
          = some ((said commandId model stream).1.reasoningItem commandId) := by
        simp [output, hr]
      have hmessage : ((said commandId model stream).1.output commandId)[1]?
          = some ((said commandId model stream).1.messageItem commandId) := by
        simp [output, hr]
      obtain ⟨hfirst, hsame⟩ : (thought commandId model stream).1.reasoningStarted = true
          ∧ (said commandId model stream).1.accumulatedThinking
            = (thought commandId model stream).1.accumulatedThinking := by
        rcases done_generate ((hout 0 _).mp hreasoning) with
          ⟨_, _, _, _, _, heq⟩ | ⟨hfirst, heq⟩ | ⟨-, heq⟩
        · cases heq
        · simp only [reasoningItem, ResponseItem.reasoning.injEq, List.cons.injEq] at heq
          exact ⟨hfirst, heq.2.1.1⟩
        · cases heq
      have hone : (1 : Int) = (said commandId model stream).1.messageOutputIndex := by
        rcases done_generate ((hout 1 _).mp hmessage) with
          ⟨_, _, _, _, _, heq⟩ | ⟨-, heq⟩ | ⟨hone, -⟩
        · cases heq
        · cases heq
        · exact hone
      rw [hindex, hfirst, if_pos rfl] at hone
      have hany : (beforeText stream).any (·.isThinking) = true := by
        rw [hfirst] at hthought
        exact hthought.symm
      exact ⟨callsTools_of_functionCallItems commandId model (by omega), fun c hc ht =>
        ⟨text_of_accumulatedThinking hsame c hc ht, List.any_eq_true.mp hany⟩⟩

/--
**Output items are filed where the response has them exactly when tools are called after the text
begins and thoughts come before it.**
-/
theorem consistent_iff (commandId model : String) (stream : List StreamChunk) :
    ConsistentResponse (generateResponsesStream commandId model stream) ↔ InPlace stream :=
  ⟨inPlace_of_consistent, consistent_of_inPlace⟩

/-- A tool is called and nothing is said: the call is filed under 0, where the response has the
message. -/
theorem not_forall_consistent : ¬ ∀ commandId model stream,
    ConsistentResponse (generateResponsesStream commandId model stream) := by
  intro h
  let stream : List StreamChunk := [.toolCall [⟨"1", "f", "\x7b\x7d"⟩] none]
  obtain ⟨number, response, hlast, hout⟩ := (h "c" "m" stream).output
  have hmarks : under (·.mark?) (0 : Nat) (generateResponsesStream "c" "m" stream)
      = [.inl (.functionCall "fc_1" "call_1" "f" "" .inProgress),
        .inr (.functionCall "fc_1" "call_1" "f" "\x7b\x7d" .completed)] := by decide
  have hcall : response.output[0]?
      = some (.functionCall "fc_1" "call_1" "f" "\x7b\x7d" .completed) :=
    (hout 0 _).mpr (hmarks ▸ List.mem_cons_of_mem _ List.mem_cons_self)
  have hfirst : response.output.head? = some (.message "item_c" [""] .completed) := by
    have hbody := congrArg (·.map fun e => e.body) hlast
    have hdone : some (ResponsesEventBody.completed response) = _ := hbody.symm
    cases hdone
    rfl
  rw [← List.head?_eq_getElem?, hfirst] at hcall
  cases hcall

end Stages

end ResponsesStream

end Exo
