import Exo.Api.ChunkStreams

/-!
# What a stream of text yields

The chunks that were logged for a command reach its stream in their order, up to the last one or
to the point at which the stream is stopped, provided that none of them was applied before the
stream began: there was no channel to put it into then.
-/

namespace Exo

open Lib (Dict Machine takeThrough takeThrough_append takeThrough_eq_self
  takeThrough_eq_nil exists_takeThrough takeThrough_snoc_congr takeThrough_eq_take
  take_prefix_takeThrough)

/-- The chunk of text that the entry has for a command. -/
def LogEntry.chunkFor (commandId : CommandId) : LogEntry → Option StreamChunk
  | .chunk c (.text x) => if c = commandId then some x else none
  | _ => none

/-- The chunks of text that a log has for a command. -/
def chunksOf (commandId : CommandId) (log : List LogEntry) : List StreamChunk :=
  log.filterMap (·.chunkFor commandId)

/-! ## One channel -/

namespace ChunkQueue

variable {q : ChunkQueue} {applied n : Nat} {chunk : StreamChunk}

/-- A channel that is read in order, and to the end unless its client goes away. -/
structure Ok (applied : Nat) (q : ChunkQueue) : Prop where
  running : q.stoppedAt = none → q.closed = false ∧ (q.ended = false → q.held)
  stopped : ∀ n, q.stoppedAt = some n → n ≤ applied ∧ (q.closed ∨ q.ended)
  within : q.read ≤ q.sent.length
  /-- A stream that was not stopped ended with a last chunk. -/
  final : q.ended → q.stoppedAt = none → ∃ x ∈ q.sent, x.finishes
  /-- A stream goes on after what is not a last chunk. -/
  unread : q.ended = false → ∀ x ∈ q.yielded, x.finishes = false
  inOrder : q.yielded <+: takeThrough StreamChunk.finishes q.sent
  complete : q.ended → q.cancelled = false →
    q.yielded = takeThrough StreamChunk.finishes q.sent

theorem ok_new (applied : Nat) : ({} : ChunkQueue).Ok applied where
  running := fun _ => ⟨rfl, fun _ => rfl⟩
  stopped := fun _ h => by cases h
  within := Nat.le_refl 0
  final := fun h => by cases h
  unread := fun _ _ h => by cases h
  inOrder := List.nil_prefix
  complete := fun h => by cases h

theorem Ok.mono (h : q.Ok applied) (hle : applied ≤ n) : q.Ok n :=
  ⟨h.running, fun m hm => ⟨Nat.le_trans (h.stopped m hm).1 hle, (h.stopped m hm).2⟩, h.within,
    h.final, h.unread, h.inOrder, h.complete⟩

/-- While a stream runs, a chunk is added to what was sent. -/
theorem send_running (h : q.Ok applied) (hs : q.stoppedAt = none) (he : q.ended = false) :
    q.send chunk = { q with sent := q.sent ++ [chunk] } := by
  obtain ⟨hclosed, hheld⟩ := h.running hs
  simp [send, hclosed, hheld he, he]

/-- After it, nothing is. -/
theorem send_over (h : q.Ok applied) (hs : q.stoppedAt ≠ none ∨ q.ended) (chunk : StreamChunk) :
    q.send chunk = q ∨ q.send chunk = { q with held := false } := by
  have hover : q.closed ∨ q.ended := by
    rcases hs with hs | hs
    · obtain ⟨n, hn⟩ := Option.ne_none_iff_exists'.mp hs
      exact (h.stopped n hn).2
    · exact .inr hs
  by_cases hheld : q.held
  · exact .inr (by simp [send, hheld, hover])
  · exact .inl (by simp [send, hheld])

/-- Of a channel that is over, only what was sent and read matters. -/
theorem Ok.release (h : q.Ok applied) (hs : q.stoppedAt ≠ none ∨ q.ended) :
    { q with held := false }.Ok applied where
  running := fun hnone => by
    refine ⟨(h.running hnone).1, fun he => ?_⟩
    rcases hs with hs | hs
    · exact absurd hnone hs
    · rw [show q.ended = false from he] at hs
      cases hs
  stopped := h.stopped
  within := h.within
  final := h.final
  unread := h.unread
  inOrder := h.inOrder
  complete := h.complete

/-- What was read of a channel that has more in it. -/
theorem yielded_snoc (h : q.read ≤ q.sent.length) :
    { q with sent := q.sent ++ [chunk] }.yielded = q.yielded := by
  rw [yielded, yielded, List.take_append_of_le_length h]

theorem Ok.send (h : q.Ok applied) : (q.send chunk).Ok applied := by
  by_cases hover : q.stoppedAt ≠ none ∨ q.ended
  · rcases send_over h hover chunk with hsend | hsend
    · rw [hsend]
      exact h
    · rw [hsend]
      exact h.release hover
  · rw [not_or, ne_eq, not_not, Bool.not_eq_true] at hover
    obtain ⟨hs, he⟩ := hover
    rw [send_running h hs he]
    have hyielded : { q with sent := q.sent ++ [chunk] }.yielded = q.yielded :=
      yielded_snoc h.within
    have hwithin : q.read ≤ (q.sent ++ [chunk]).length := by
      have := h.within
      rw [List.length_append]
      omega
    refine ⟨h.running, h.stopped, hwithin, fun hended => ?_, fun hended => ?_, ?_,
      fun hended => ?_⟩
    · rw [show q.ended = true from hended] at he
      cases he
    · rw [hyielded]
      exact h.unread hended
    · refine take_prefix_takeThrough fun x hx => ?_
      rw [List.take_append_of_le_length h.within] at hx
      exact h.unread he x hx
    · rw [show q.ended = true from hended] at he
      cases he

/-- A stop is recorded once. -/
theorem stop_stoppedAt (q : ChunkQueue) (applied : Nat) :
    (q.stop applied).stoppedAt = some (q.stoppedAt.getD applied) := by
  unfold stop
  cases q.stoppedAt <;> rfl

theorem Ok.stopped_le (h : q.Ok applied) : q.stoppedAt.getD applied ≤ applied := by
  cases hs : q.stoppedAt with
  | none => exact Nat.le_refl applied
  | some n => exact (h.stopped n hs).1

/-- The sender is closed. -/
theorem Ok.close (h : q.Ok applied) (held : Bool) :
    { q.close applied with held := held }.Ok applied := by
  have hstop : (q.close applied).stoppedAt = some (q.stoppedAt.getD applied) :=
    q.stop_stoppedAt applied
  refine ⟨fun hs => ?_, fun n hn => ?_, h.within, fun _ hs => ?_, h.unread, h.inOrder, h.complete⟩
  · cases hstop.symm.trans hs
  · rw [← Option.some.inj (hstop.symm.trans hn)]
    exact ⟨h.stopped_le, .inl rfl⟩
  · cases hstop.symm.trans hs

theorem Ok.popClose (h : q.Ok applied) : (q.popClose applied).Ok applied := by
  unfold ChunkQueue.popClose
  split
  · exact h.close false
  · exact h

/-- The client goes away. -/
theorem Ok.leave (h : q.Ok applied) : (q.leave applied).Ok applied := by
  have hstop : (q.leave applied).stoppedAt = some (q.stoppedAt.getD applied) :=
    q.stop_stoppedAt applied
  refine ⟨fun hs => ?_, fun n hn => ?_, h.within, fun _ hs => ?_, fun he => (by cases he),
    h.inOrder, fun _ hc => (by cases hc)⟩
  · cases hstop.symm.trans hs
  · rw [← Option.some.inj (hstop.symm.trans hn)]
    exact ⟨h.stopped_le, .inr rfl⟩
  · cases hstop.symm.trans hs

/-- The end of a channel that was closed. -/
theorem Ok.exhausted (h : q.Ok applied) (he : q.ended = false) (hc : q.closed)
    (hread : q.sent.length ≤ q.read) : q.finish.Ok applied where
  running := fun hs => by
    rw [(h.running hs).1] at hc
    cases hc
  stopped := fun n hn => ⟨(h.stopped n hn).1, .inr rfl⟩
  within := h.within
  final := fun _ hs => by
    rw [(h.running hs).1] at hc
    cases hc
  unread := fun he => by cases he
  inOrder := h.inOrder
  complete := fun _ _ => by
    have hall : q.sent.take q.read = q.sent := List.take_of_length_le hread
    have hnone : ∀ x ∈ q.sent, x.finishes = false := by
      rw [← hall]
      exact h.unread he
    exact hall.trans (takeThrough_eq_self hnone).symm

/-- The next chunk, which may be the last one. -/
theorem Ok.advance (h : q.Ok applied) (he : q.ended = false)
    (hchunk : q.sent[q.read]? = some chunk) : (q.advance chunk).Ok applied := by
  have hlt : q.read < q.sent.length := (List.getElem?_eq_some_iff.mp hchunk).1
  have hnext : q.sent.take (q.read + 1) = q.yielded ++ [chunk] :=
    Lib.take_succ_of_getElem? hchunk
  unfold ChunkQueue.advance
  by_cases hf : chunk.finishes
  · rw [if_pos hf]
    have hall : q.sent.take (q.read + 1) = takeThrough StreamChunk.finishes q.sent :=
      (takeThrough_eq_take hchunk hf (h.unread he)).symm
    refine ⟨fun hs => ⟨(h.running hs).1, fun hf => by cases hf⟩, fun n hn => ?_, hlt, ?_, ?_, ?_,
      ?_⟩
    · exact ⟨(h.stopped n hn).1, .inr rfl⟩
    · exact fun _ _ => ⟨chunk, List.mem_of_getElem? hchunk, hf⟩
    · exact fun hf => by cases hf
    · exact hall ▸ List.prefix_rfl
    · exact fun _ _ => hall
  · rw [if_neg hf]
    have hunread : ∀ x ∈ q.sent.take (q.read + 1), x.finishes = false := by
      intro x hx
      rw [hnext, List.mem_append, List.mem_singleton] at hx
      rcases hx with hx | rfl
      · exact h.unread he x hx
      · simpa using hf
    refine ⟨h.running, h.stopped, hlt, fun hended => ?_, fun _ => hunread,
      take_prefix_takeThrough hunread, fun hended => ?_⟩
    · rw [show q.ended = true from hended] at he
      cases he
    · rw [show q.ended = true from hended] at he
      cases he

/-- What was sent is what was logged while the stream was there. -/
def Delivered (log : List LogEntry) (applied : Nat) (commandId : CommandId) (q : ChunkQueue) :
    Prop :=
  takeThrough StreamChunk.finishes q.sent
    = takeThrough StreamChunk.finishes
      (chunksOf commandId (log.take (q.stoppedAt.getD applied)))

variable {log : List LogEntry} {commandId : CommandId} {e : LogEntry}

theorem Delivered.congr {q' : ChunkQueue} (h : q.Delivered log applied commandId)
    (hsent : q'.sent = q.sent)
    (hstop : q'.stoppedAt.getD applied = q.stoppedAt.getD applied) :
    q'.Delivered log applied commandId := by
  rw [Delivered, hsent, hstop]
  exact h

theorem Delivered.popClose (h : q.Delivered log applied commandId) :
    (q.popClose applied).Delivered log applied commandId := by
  unfold ChunkQueue.popClose
  split
  · have hstop : { q.close applied with held := false }.stoppedAt
        = some (q.stoppedAt.getD applied) := q.stop_stoppedAt applied
    exact h.congr rfl (by rw [hstop]; rfl)
  · exact h

/-- The next entry of the log adds its chunk. -/
theorem chunksOf_take_succ (he : log[applied]? = some e) :
    chunksOf commandId (log.take (applied + 1))
      = chunksOf commandId (log.take applied) ++ (e.chunkFor commandId).toList := by
  rw [Lib.take_succ_of_getElem? he, chunksOf, List.filterMap_append, List.filterMap_cons]
  cases e.chunkFor commandId <;> rfl

/-- An entry without a chunk for the command. -/
theorem Delivered.skip (h : q.Delivered log applied commandId) (he : log[applied]? = some e)
    (hnone : e.chunkFor commandId = none) : q.Delivered log (applied + 1) commandId := by
  unfold Delivered at h ⊢
  cases hs : q.stoppedAt with
  | some n =>
      rw [hs] at h
      exact h
  | none =>
      rw [hs] at h
      rw [Option.getD_none, chunksOf_take_succ he, hnone, Option.toList_none, List.append_nil]
      exact h

/-- An entry with a chunk for the command. -/
theorem Delivered.send (h : q.Delivered log applied commandId) (hok : q.Ok applied)
    (he : log[applied]? = some e) (hchunk : e.chunkFor commandId = some chunk) :
    (q.send chunk).Delivered log (applied + 1) commandId := by
  have hover : (q.stoppedAt ≠ none ∨ q.ended) → q.Delivered log (applied + 1) commandId →
      (q.send chunk).Delivered log (applied + 1) commandId := by
    intro hover hq
    rcases send_over hok hover chunk with hsend | hsend
    · rw [hsend]
      exact hq
    · rw [hsend]
      exact hq.congr rfl rfl
  cases hs : q.stoppedAt with
  | some n =>
      refine hover (.inl (by rw [hs]; exact Option.some_ne_none n)) ?_
      unfold Delivered at h ⊢
      rw [hs] at h ⊢
      exact h
  | none =>
      have hlog : chunksOf commandId (log.take (applied + 1))
          = chunksOf commandId (log.take applied) ++ [chunk] := by
        rw [chunksOf_take_succ he, hchunk]
        rfl
      unfold Delivered at h
      rw [hs, Option.getD_none] at h
      by_cases hended : q.ended
      · -- the last chunk came before
        refine hover (.inr hended) ?_
        have hfinal : ∃ x ∈ chunksOf commandId (log.take applied), x.finishes := by
          rw [← exists_takeThrough, ← h, exists_takeThrough]
          exact hok.final hended hs
        rw [Delivered, hs, Option.getD_none, hlog, takeThrough_append hfinal]
        exact h
      · rw [send_running hok hs (by simpa using hended), Delivered, hs, Option.getD_none, hlog]
        exact takeThrough_snoc_congr h chunk

/--
A stream yields the chunks of its command in the order of the log, up to the last one or to the
point at which it was stopped, and none of those is missing.
-/
structure Faithful (log : List LogEntry) (applied : Nat) (commandId : CommandId) (q : ChunkQueue) :
    Prop where
  delivered : q.Delivered log applied commandId
  inOrder : q.yielded <+: takeThrough StreamChunk.finishes
    (chunksOf commandId (log.take (q.stoppedAt.getD applied)))
  complete : q.ended → q.cancelled = false → q.yielded = takeThrough StreamChunk.finishes
    (chunksOf commandId (log.take (q.stoppedAt.getD applied)))
  /-- A stream that ended and was not stopped. -/
  whole : q.ended → q.cancelled = false → q.stoppedAt = none →
    q.yielded = takeThrough StreamChunk.finishes (chunksOf commandId log)

theorem Delivered.faithful (h : q.Delivered log applied commandId) (hok : q.Ok applied) :
    q.Faithful log applied commandId where
  delivered := h
  inOrder := h ▸ hok.inOrder
  complete := fun he hc => (hok.complete he hc).trans h
  whole := fun he hc hs => by
    have hlog : takeThrough StreamChunk.finishes q.sent
        = takeThrough StreamChunk.finishes (chunksOf commandId (log.take applied)) := by
      rw [h, hs]
      rfl
    -- the last chunk is among those that were applied
    have hfinal : ∃ x ∈ chunksOf commandId (log.take applied), x.finishes := by
      rw [← exists_takeThrough, ← hlog, exists_takeThrough]
      exact hok.final he hs
    have hsplit : chunksOf commandId log
        = chunksOf commandId (log.take applied) ++ chunksOf commandId (log.drop applied) := by
      rw [chunksOf, chunksOf, chunksOf, ← List.filterMap_append, List.take_append_drop]
    rw [hok.complete he hc, hlog, hsplit, takeThrough_append hfinal]

end ChunkQueue

/-! ## An API -/

namespace Streams

variable {lib : GraphLibrary} {s s' : Streams} {c : CommandId}

/-- What holds of an API and its log, whatever is delivered. -/
structure Base (s : Streams) : Prop where
  texts : ∀ c q, s.api.textQueues.get? c = some q →
    s.drawn.get? c = some .text ∧ q.Ok s.api.applied
  images : ∀ c, (s.api.imageQueues.get? c).isSome → s.drawn.get? c = some .image
  waiting : ∀ c kind, (c, kind) ∈ s.api.unstreamed → s.drawn.get? c = some kind
  /-- Chunks are of the kind of their command. -/
  chunks : ∀ c chunk, .chunk c chunk ∈ s.log →
    ∃ source kind, s.drawn.get? c = some kind ∧ ChunkSource.sends source kind chunk
  nodes : ∀ e, .node e ∈ s.log → e.Addressed
  addressed : s.api.nodes.AllAddressed
  applied : s.api.applied ≤ s.log.length
  indexed : s.api.state.lastEventAppliedIdx = (s.api.applied : Int) - 1

theorem base_init : Base {} where
  texts := fun _ _ h => by cases h
  images := fun _ h => by cases h
  waiting := fun _ _ h => by cases h
  chunks := fun _ _ h => by cases h
  nodes := fun _ h => by cases h
  addressed := fun _ h => by cases h
  applied := Nat.le_refl 0
  indexed := rfl

/-- No text is sent for images. -/
theorem sends_text {source : ChunkSource} {kind : GenerationKind} {chunk : ImageChunk}
    (h : source.sends kind (.image chunk)) : kind = .image := by
  cases source <;> cases kind <;> first | rfl | cases h

/-- A command with a channel of images is one for images. -/
theorem Base.drawn_imageHeld (h : Base s) (hheld : s.api.imageHeld c) :
    s.drawn.get? c = some .image := by
  refine h.images c ?_
  unfold ChunkApi.imageHeld at hheld
  cases hq : s.api.imageQueues.get? c with
  | none => simp [hq] at hheld
  | some q => rfl

variable {f : ChunkQueue → ChunkQueue}

theorem get?_onText {a : ChunkApi} {c c' : CommandId}
    {q' : ChunkQueue} (h : (a.onText c f).textQueues.get? c' = some q') :
    ∃ q, a.textQueues.get? c' = some q ∧ q' = if c' = c then f q else q := by
  rw [ChunkApi.onText, Dict.get?_mapValues] at h
  obtain ⟨q, hq, rfl⟩ := Option.map_eq_some_iff.mp h
  exact ⟨q, hq, rfl⟩

theorem isSome_onImage {a : ChunkApi} {f : ImageQueue → ImageQueue} {c c' : CommandId} :
    ((a.onImage c f).imageQueues.get? c').isSome = (a.imageQueues.get? c').isSome := by
  rw [ChunkApi.onImage, Dict.get?_mapValues, Option.isSome_map]

/-- What `apply` leaves alone. -/
structure Applies (a a' : ChunkApi) : Prop where
  applied : a'.applied = a.applied + 1
  indexed : a'.state.lastEventAppliedIdx = a.applied
  unstreamed : a'.unstreamed = a.unstreamed
  nodes : a'.nodes.AllAddressed
  failed : a'.failed = a.failed
  textQueues : a'.textQueues = a.textQueues
  imageQueues : a'.imageQueues = a.imageQueues

variable {e : LogEntry}

/-- **`apply` does not raise.** -/
theorem applies_applyState (lib : GraphLibrary) (h : Base s)
    (he : s.log[s.api.applied]? = some e) :
    ∃ a', { s.api with applied := s.api.applied + 1 }.applyState lib s.api.applied e = some a'
      ∧ Applies s.api a' := by
  obtain ⟨a', ha', hsame⟩ : ∃ a',
      { s.api with applied := s.api.applied + 1 }.eventApply lib e = some a'
        ∧ Applies s.api { a' with
          state := { a'.state with lastEventAppliedIdx := s.api.applied } } := by
    cases e with
    | plain body | chunk c chunk => exact ⟨_, rfl, rfl, rfl, rfl, h.addressed, rfl, rfl, rfl⟩
    | node e =>
        obtain ⟨nodes, hnodes, haddr⟩ : ∃ nodes, s.api.nodes.apply lib e = some nodes
            ∧ nodes.AllAddressed :=
          NodeState.apply_addressed h.addressed (h.nodes e (List.mem_of_getElem? he))
        exact ⟨_, congrArg (Option.map _) hnodes, rfl, rfl, rfl, haddr, rfl, rfl, rfl⟩
  refine ⟨_, ?_, hsame⟩
  rw [ChunkApi.applyState, if_pos h.indexed, ha']
  rfl

/-- What applying the next event makes of the channels. -/
structure Consumes (e : LogEntry) (a a' : ChunkApi) : Prop where
  applied : a'.applied = a.applied + 1
  indexed : a'.state.lastEventAppliedIdx = a.applied
  unstreamed : a'.unstreamed = a.unstreamed
  nodes : a'.nodes.AllAddressed
  texts : ∀ c q', a'.textQueues.get? c = some q' → ∃ q, a.textQueues.get? c = some q
    ∧ ((∃ chunk, e.chunkFor c = some chunk ∧ q' = q.send chunk)
      ∨ e.chunkFor c = none ∧ (q' = q ∨ q' = q.popClose (a.applied + 1)))
  images : ∀ c, (a'.imageQueues.get? c).isSome → (a.imageQueues.get? c).isSome

section Consumes

variable {a a' : ChunkApi} (h : Applies a a')
include h

/-- The event is for no channel. -/
theorem Applies.consumes (hnone : ∀ c, e.chunkFor c = none) : Consumes e a a' where
  applied := h.applied
  indexed := h.indexed
  unstreamed := h.unstreamed
  nodes := h.nodes
  texts := fun c q' hq => ⟨q', h.textQueues ▸ hq, .inr ⟨hnone c, .inl rfl⟩⟩
  images := fun _ hq => h.imageQueues ▸ hq

/-- An image. -/
theorem Applies.consumes_image {c : CommandId} {x : ImageChunk} :
    Consumes (.chunk c (.image x)) a (a'.route c (.image x)) := by
  have himages : ∀ c', ((a'.onImage c (·.send x)).imageQueues.get? c').isSome →
      (a.imageQueues.get? c').isSome := fun c' hq => by
    rw [isSome_onImage, h.imageQueues] at hq
    exact hq
  have hnone := h.consumes (e := .chunk c (.image x)) fun _ => rfl
  unfold ChunkApi.route
  dsimp only
  split
  · exact ⟨h.applied, h.indexed, h.unstreamed, h.nodes, hnone.texts, himages⟩
  · exact ⟨h.applied, h.indexed, h.unstreamed, h.nodes, hnone.texts, himages⟩

/-- A text, for which there is at most a channel of texts or one of images. -/
theorem Applies.consumes_text {c : CommandId} {x : StreamChunk}
    (htyped : a.imageHeld c → a.textQueues.get? c = none) :
    Consumes (.chunk c (.text x)) a (a'.route c (.text x)) := by
  have himages : ∀ c', (a'.imageQueues.get? c').isSome → (a.imageQueues.get? c').isSome :=
    fun c' hq => h.imageQueues ▸ hq
  have hheld : a'.imageHeld c = a.imageHeld c := by
    rw [ChunkApi.imageHeld, ChunkApi.imageHeld, h.imageQueues]
  unfold ChunkApi.route
  dsimp only
  rw [hheld]
  split
  · -- the channel of images asserts, and there is none of text
    rename_i himage
    refine ⟨h.applied, h.indexed, h.unstreamed, h.nodes, fun c' q' hq => ?_, himages⟩
    have hq : a.textQueues.get? c' = some q' := h.textQueues ▸ hq
    refine ⟨q', hq, .inr ⟨if_neg fun heq => ?_, .inl rfl⟩⟩
    subst heq
    rw [hq] at htyped
    cases htyped himage
  · refine ⟨h.applied, h.indexed, h.unstreamed, h.nodes, fun c' q' hq => ?_, himages⟩
    obtain ⟨q, hget, rfl⟩ := get?_onText hq
    rw [h.textQueues] at hget
    refine ⟨q, hget, ?_⟩
    by_cases heq : c' = c
    · subst heq
      exact .inl ⟨x, if_pos rfl, if_pos rfl⟩
    · exact .inr ⟨if_neg fun h => heq h.symm, .inl (if_neg heq)⟩

/-- The channels of an instance are closed. -/
theorem Applies.consumes_instanceDeleted {instanceId : InstanceId} :
    Consumes (.plain (.instanceDeleted instanceId)) a (a'.closeStreamsForInstance instanceId) := by
  refine ⟨h.applied, h.indexed, h.unstreamed, h.nodes, fun c q' hq => ?_, fun c hq => ?_⟩
  · have hq' : (a'.textQueues.get? c).map _ = some q' := (Dict.get?_mapValues ..).symm.trans hq
    obtain ⟨q, hget, rfl⟩ := Option.map_eq_some_iff.mp hq'
    rw [h.textQueues] at hget
    refine ⟨q, hget, .inr ⟨rfl, ?_⟩⟩
    rw [h.applied]
    split
    · exact .inr rfl
    · exact .inl rfl
  · have hq' : ((a'.imageQueues.get? c).map _).isSome :=
      (congrArg Option.isSome (Dict.get?_mapValues ..)).symm.trans hq
    rw [Option.isSome_map, h.imageQueues] at hq'
    exact hq'

end Consumes

theorem consumes_applyEvent (h : Base s) (he : s.log[s.api.applied]? = some e) :
    Consumes e s.api (s.api.applyEvent lib s.api.applied e) := by
  obtain ⟨a', ha', hsame⟩ := applies_applyState lib h he
  unfold ChunkApi.applyEvent
  rw [ha']
  cases e with
  | plain body =>
      cases body with
      | instanceDeleted instanceId => exact hsame.consumes_instanceDeleted
      | _ => exact hsame.consumes fun _ => rfl
  | node e => exact hsame.consumes fun _ => rfl
  | chunk c chunk =>
      cases chunk with
      | image x => exact hsame.consumes_image
      | text x =>
          refine hsame.consumes_text fun hheld => ?_
          have himage : s.drawn.get? c = some .image := h.drawn_imageHeld hheld
          cases hq : s.api.textQueues.get? c with
          | none => rfl
          | some q =>
              rw [(h.texts c q hq).1] at himage
              cases himage

/-- A step that leaves the log and what was applied alone. -/
structure Moves (s s' : Streams) : Prop where
  log : s'.log = s.log
  applied : s'.api.applied = s.api.applied
  state : s'.api.state = s.api.state
  nodes : s'.api.nodes = s.api.nodes
  drawn : ∀ c kind, s.drawn.get? c = some kind → s'.drawn.get? c = some kind

/-- What is left of the invariant after a step of the streams. -/
theorem Base.moved (h : Base s) (hm : s.Moves s')
    (htexts : ∀ c q', s'.api.textQueues.get? c = some q' →
      s'.drawn.get? c = some .text ∧ q'.Ok s'.api.applied)
    (himages : ∀ c, (s'.api.imageQueues.get? c).isSome → s'.drawn.get? c = some .image)
    (hwaiting : ∀ c kind, (c, kind) ∈ s'.api.unstreamed → s'.drawn.get? c = some kind) :
    Base s' where
  texts := htexts
  images := himages
  waiting := hwaiting
  chunks := fun c chunk hmem => by
    rw [hm.log] at hmem
    obtain ⟨source, kind, hdrawn, hsends⟩ := h.chunks c chunk hmem
    exact ⟨source, kind, hm.drawn c kind hdrawn, hsends⟩
  nodes := fun e hmem => by
    rw [hm.log] at hmem
    exact h.nodes e hmem
  addressed := by
    rw [hm.nodes]
    exact h.addressed
  applied := by
    rw [hm.applied, hm.log]
    exact h.applied
  indexed := by
    rw [hm.applied, hm.state]
    exact h.indexed

/-- A channel of text changes, and nothing else. -/
theorem Base.onText (h : Base s)
    (hf : ∀ q, s.api.textQueues.get? c = some q → q.Ok s.api.applied → (f q).Ok s.api.applied) :
    Base (s.setApi (s.api.onText c f)) := by
  refine h.moved ⟨rfl, rfl, rfl, rfl, fun _ _ hd => hd⟩ (fun c' q' hq => ?_) h.images h.waiting
  obtain ⟨q, hget, rfl⟩ := get?_onText hq
  obtain ⟨hdrawn, hok⟩ := h.texts c' q hget
  refine ⟨hdrawn, ?_⟩
  split
  · rename_i heq
    subst heq
    exact hf q hget hok
  · exact hok

theorem Base.onImage (h : Base s) {f : ImageQueue → ImageQueue} :
    Base (s.setApi (s.api.onImage c f)) := by
  refine h.moved ⟨rfl, rfl, rfl, rfl, fun _ _ hd => hd⟩ h.texts (fun c' hq => h.images c' ?_)
    h.waiting
  exact ((isSome_onImage).symm).trans hq

/-- An id is drawn that was not drawn before. -/
theorem Base.drawing (h : Base s) {kind : GenerationKind} (hnew : c ∉ s.drawn.keys)
    (hlog : s'.log = s.log) (hdrawn : s'.drawn = s.drawn.set c kind)
    (hapi : s'.api = s.api ∨
      s'.api = { s.api with unstreamed := s.api.unstreamed ++ [(c, kind)] }) : Base s' := by
  have hkept : ∀ c' kind', s.drawn.get? c' = some kind' → s'.drawn.get? c' = some kind' := by
    intro c' kind' hget
    rw [hdrawn, Dict.get?_set_ne _ _ fun heq => ?_]
    · exact hget
    · subst heq
      exact hnew (Dict.mem_keys.2 (by rw [hget]; rfl))
  have hwaiting : ∀ c' kind', (c', kind') ∈ s.api.unstreamed → s'.drawn.get? c' = some kind' :=
    fun c' kind' hmem => hkept c' kind' (h.waiting c' kind' hmem)
  have htexts : ∀ c' q, s.api.textQueues.get? c' = some q →
      s'.drawn.get? c' = some .text ∧ q.Ok s.api.applied := fun c' q hq =>
    ⟨hkept c' _ (h.texts c' q hq).1, (h.texts c' q hq).2⟩
  have himages : ∀ c', (s.api.imageQueues.get? c').isSome → s'.drawn.get? c' = some .image :=
    fun c' hq => hkept c' _ (h.images c' hq)
  rcases hapi with hapi | hapi
  · refine h.moved ⟨hlog, by rw [hapi], by rw [hapi], by rw [hapi], hkept⟩ ?_ ?_ ?_ <;> rw [hapi]
    · exact htexts
    · exact himages
    · exact hwaiting
  · refine h.moved ⟨hlog, by rw [hapi], by rw [hapi], by rw [hapi], hkept⟩ ?_ ?_ ?_ <;> rw [hapi]
    · exact htexts
    · exact himages
    · intro c' kind' hmem
      rcases List.mem_append.mp hmem with hmem | hmem
      · exact hwaiting c' kind' hmem
      · obtain ⟨rfl, rfl⟩ := Prod.mk.inj (List.mem_singleton.mp hmem)
        rw [hdrawn]
        exact Dict.get?_set_self _ _ _

/-- An entry is logged. -/
theorem Base.logging (h : Base s) (hnode : ∀ e', e = .node e' → e'.Addressed)
    (hchunk : ∀ c chunk, e = .chunk c chunk →
      ∃ source kind, s.drawn.get? c = some kind ∧ ChunkSource.sends source kind chunk) :
    Base { s with log := s.log ++ [e] } where
  texts := h.texts
  images := h.images
  waiting := h.waiting
  chunks := fun c chunk hmem => by
    rcases List.mem_append.mp hmem with hmem | hmem
    · exact h.chunks c chunk hmem
    · exact hchunk c chunk (List.mem_singleton.mp hmem).symm
  nodes := fun e' hmem => by
    rcases List.mem_append.mp hmem with hmem | hmem
    · exact h.nodes e' hmem
    · exact hnode e' (List.mem_singleton.mp hmem).symm
  addressed := h.addressed
  applied := by
    show s.api.applied ≤ (s.log ++ [e]).length
    have := h.applied
    rw [List.length_append]
    omega
  indexed := h.indexed

/-- An entry is applied. -/
theorem Base.applying (h : Base s) (he : s.log[s.api.applied]? = some e) :
    Base (s.setApi (s.api.applyEvent lib s.api.applied e)) := by
  have hc : Consumes e s.api (s.api.applyEvent lib s.api.applied e) := consumes_applyEvent h he
  have hlt : s.api.applied < s.log.length := (List.getElem?_eq_some_iff.mp he).1
  refine ⟨fun c q' hq => ?_, fun c hq => h.images c (hc.images c hq), fun c kind hmem => ?_,
    h.chunks, h.nodes, hc.nodes, ?_, ?_⟩
  · obtain ⟨q, hget, hq'⟩ := hc.texts c q' hq
    obtain ⟨hdrawn, hok⟩ := h.texts c q hget
    refine ⟨hdrawn, ?_⟩
    have hok : q.Ok (s.setApi (s.api.applyEvent lib s.api.applied e)).api.applied :=
      hok.mono (by rw [setApi, hc.applied]; exact Nat.le_succ _)
    rcases hq' with ⟨chunk, -, rfl⟩ | ⟨-, rfl | rfl⟩
    · exact hok.send
    · exact hok
    · rw [setApi, hc.applied] at hok ⊢
      exact hok.popClose
  · exact h.waiting c kind (hc.unstreamed ▸ hmem)
  · rw [setApi, hc.applied]
    exact hlt
  · rw [setApi, hc.applied, hc.indexed]
    omega

/-- A stream of text begins. -/
theorem Base.beganText (h : Base s) (hmem : (c, .text) ∈ s.api.unstreamed) :
    Base (s.setApi { s.api with
      unstreamed := s.api.unstreamed.erase (c, .text)
      textQueues := s.api.textQueues.set c {} }) := by
  refine h.moved ⟨rfl, rfl, rfl, rfl, fun _ _ hd => hd⟩ (fun c' q' hq => ?_) h.images
    fun c' kind' hin => h.waiting c' kind' (List.mem_of_mem_erase hin)
  by_cases heq : c' = c
  · subst heq
    obtain rfl := Option.some.inj ((Dict.get?_set_self _ _ _).symm.trans hq)
    exact ⟨h.waiting c' .text hmem, ChunkQueue.ok_new _⟩
  · exact h.texts c' q' ((Dict.get?_set_ne _ _ heq).symm.trans hq)

/-- A stream of images begins. -/
theorem Base.beganImage (h : Base s) (hmem : (c, .image) ∈ s.api.unstreamed) :
    Base (s.setApi { s.api with
      unstreamed := s.api.unstreamed.erase (c, .image)
      imageQueues := s.api.imageQueues.set c {} }) := by
  refine h.moved ⟨rfl, rfl, rfl, rfl, fun _ _ hd => hd⟩ h.texts (fun c' hq => ?_)
    fun c' kind' hin => h.waiting c' kind' (List.mem_of_mem_erase hin)
  by_cases heq : c' = c
  · subst heq
    exact h.waiting c' .image hmem
  · exact h.images c' ((congrArg Option.isSome (Dict.get?_set_ne _ _ heq)).symm.trans hq)

/-- What a step does. -/
inductive Took (lib : GraphLibrary) (s : Streams) : Action → Streams → Prop where
  | drew {a : Action} {s' : Streams} {c : CommandId} {kind : GenerationKind}
      (hnew : c ∉ s.drawn.keys) (hlog : s'.log = s.log) (hdrawn : s'.drawn = s.drawn.set c kind)
      (hapi : s'.api = s.api ∨
        s'.api = { s.api with unstreamed := s.api.unstreamed ++ [(c, kind)] }) : Took lib s a s'
  | beganText {c : CommandId} (hmem : (c, .text) ∈ s.api.unstreamed) :
      Took lib s (.stream c .text) (s.setApi { s.api with
        unstreamed := s.api.unstreamed.erase (c, .text)
        textQueues := s.api.textQueues.set c {} })
  | beganImage {c : CommandId} (hmem : (c, .image) ∈ s.api.unstreamed) :
      Took lib s (.stream c .image) (s.setApi { s.api with
        unstreamed := s.api.unstreamed.erase (c, .image)
        imageQueues := s.api.imageQueues.set c {} })
  | onText {a : Action} {c : CommandId} {f : ChunkQueue → ChunkQueue}
      (hok : ∀ q, s.api.textQueues.get? c = some q → q.Ok s.api.applied → (f q).Ok s.api.applied)
      (hsent : ∀ q, (f q).sent = q.sent)
      (hstop : ∀ q, (f q).stoppedAt.getD s.api.applied = q.stoppedAt.getD s.api.applied) :
      Took lib s a (s.setApi (s.api.onText c f))
  | onImage {a : Action} {c : CommandId} {f : ImageQueue → ImageQueue} :
      Took lib s a (s.setApi (s.api.onImage c f))
  | logged {a : Action} {e : LogEntry} (hnode : ∀ e', e = .node e' → e'.Addressed)
      (hchunk : ∀ c chunk, e = .chunk c chunk →
        ∃ source kind, s.drawn.get? c = some kind ∧ ChunkSource.sends source kind chunk) :
      Took lib s a { s with log := s.log ++ [e] }
  | applied {e : LogEntry} (he : s.log[s.api.applied]? = some e) (halive : s.api.failed = false) :
      Took lib s .apply (s.setApi (s.api.applyEvent lib s.api.applied e))

theorem step_streamText (hs : s.step lib (.stream c .text) = some s') :
    (c, .text) ∈ s.api.unstreamed ∧ s' = s.setApi { s.api with
      unstreamed := s.api.unstreamed.erase (c, .text)
      textQueues := s.api.textQueues.set c {} } := by
  dsimp only [step] at hs
  split at hs
  · rename_i hmem
    exact ⟨hmem, (Option.some.inj hs).symm⟩
  · cases hs

theorem took_of_step {a : Action} (hs : s.step lib a = some s') : Took lib s a s' := by
  cases a with
  | sendCommand c kind =>
      dsimp only [step] at hs
      split at hs
      · cases hs
      · rename_i hnew
        obtain rfl := Option.some.inj hs
        exact .drew hnew rfl rfl (.inr rfl)
  | otherCommand c kind =>
      dsimp only [step] at hs
      split at hs
      · cases hs
      · rename_i hnew
        obtain rfl := Option.some.inj hs
        exact .drew hnew rfl rfl (.inl rfl)
  | stream c kind =>
      cases kind with
      | text =>
          obtain ⟨hmem, rfl⟩ := step_streamText hs
          exact .beganText hmem
      | image =>
          dsimp only [step] at hs
          split at hs
          · rename_i hmem
            obtain rfl := Option.some.inj hs
            exact .beganImage hmem
          · cases hs
  | read c =>
      obtain ⟨q, hq, hs⟩ := Option.bind_eq_some_iff.mp hs
      obtain ⟨chunk, hchunk, hs⟩ := Option.bind_eq_some_iff.mp hs
      split at hs
      · cases hs
      · rename_i hrunning
        obtain rfl := Option.some.inj hs
        refine .onText (fun q' hq' hok => ?_) (fun q' => ?_) fun q' => ?_
        · obtain rfl := Option.some.inj (hq.symm.trans hq')
          exact hok.advance (by simpa using hrunning) hchunk
        · unfold ChunkQueue.advance
          dsimp only
          split <;> rfl
        · unfold ChunkQueue.advance
          dsimp only
          split <;> rfl
  | exhausted c =>
      obtain ⟨q, hq, hs⟩ := Option.bind_eq_some_iff.mp hs
      split at hs
      · cases hs
      · rename_i hend
        obtain rfl := Option.some.inj hs
        rw [not_or, not_or] at hend
        obtain ⟨hrunning, hclosed, hread⟩ := hend
        refine .onText (fun q' hq' hok => ?_) (fun _ => rfl) fun _ => rfl
        obtain rfl := Option.some.inj (hq.symm.trans hq')
        exact hok.exhausted (by simpa using hrunning) (by simpa using hclosed) (by omega)
  | clientGone c =>
      obtain ⟨q, hq, hs⟩ := Option.bind_eq_some_iff.mp hs
      split at hs
      · cases hs
      · obtain rfl := Option.some.inj hs
        refine .onText (fun _ _ hok => hok.leave) (fun _ => rfl) fun q' => ?_
        rw [show (q'.leave s.api.applied).stoppedAt = some (q'.stoppedAt.getD s.api.applied) from
          q'.stop_stoppedAt _]
        rfl
  | imagesOver c =>
      obtain ⟨q, hq, hs⟩ := Option.bind_eq_some_iff.mp hs
      split at hs
      · cases hs
      · obtain rfl := Option.some.inj hs
        exact .onImage
  | cancelCommand c =>
      dsimp only [step] at hs
      split at hs
      · obtain rfl := Option.some.inj hs
        refine .onText (fun q _ hok => hok.close q.held) (fun _ => rfl) fun q' => ?_
        rw [show (q'.close s.api.applied).stoppedAt = some (q'.stoppedAt.getD s.api.applied) from
          q'.stop_stoppedAt _]
        rfl
      · split at hs
        · obtain rfl := Option.some.inj hs
          exact .onImage
        · cases hs
  | log body =>
      dsimp only [step] at hs
      split at hs
      · cases hs
      · cases hs
      · cases hs
      · obtain rfl := Option.some.inj hs
        exact .logged (fun _ h => by cases h) fun _ _ h => by cases h
  | logNode e =>
      dsimp only [step] at hs
      split at hs
      · rename_i haddr
        obtain rfl := Option.some.inj hs
        refine .logged (fun e' h => ?_) fun _ _ h => by cases h
        cases h
        exact haddr
      · cases hs
  | logChunk source c chunk =>
      obtain ⟨kind, hdrawn, hs⟩ := Option.bind_eq_some_iff.mp hs
      split at hs
      · rename_i hsends
        obtain rfl := Option.some.inj hs
        refine .logged (fun _ h => by cases h) fun _ _ h => ?_
        cases h
        exact ⟨source, kind, hdrawn, hsends⟩
      · cases hs
  | apply =>
      obtain ⟨e, he, hs⟩ := Option.bind_eq_some_iff.mp hs
      split at hs
      · cases hs
      · rename_i halive
        obtain rfl := Option.some.inj hs
        exact .applied he (by simpa using halive)

theorem base_step {a : Action} (h : Base s) (hs : s.step lib a = some s') : Base s' := by
  cases took_of_step hs with
  | drew hnew hlog hdrawn hapi => exact h.drawing hnew hlog hdrawn hapi
  | beganText hmem => exact h.beganText hmem
  | beganImage hmem => exact h.beganImage hmem
  | onText hok => exact h.onText hok
  | onImage => exact h.onImage
  | logged hnode hchunk => exact h.logging hnode hchunk
  | applied he => exact h.applying he

/-- Every channel of text has what was logged for it. -/
def AllDelivered (s : Streams) : Prop :=
  ∀ c q, s.api.textQueues.get? c = some q → q.Delivered s.log s.api.applied c

/-- What was applied is a matter of the first entries of the log. -/
theorem delivered_logging {q : ChunkQueue} {applied : Nat} {log : List LogEntry}
    (hok : q.Ok applied) (hle : applied ≤ log.length) :
    q.Delivered (log ++ [e]) applied c ↔ q.Delivered log applied c := by
  have hstop := hok.stopped_le
  unfold ChunkQueue.Delivered
  rw [List.take_append_of_le_length (by omega)]

/-- Where no stream begins, the channels have what was logged if they had it. -/
theorem allDelivered_step {a : Action} (h : Base s) (hs : s.step lib a = some s')
    (ha : ∀ c, a ≠ .stream c .text) (hall : s.AllDelivered) : s'.AllDelivered := by
  cases took_of_step hs with
  | drew hnew hlog hdrawn hapi =>
      intro c q hq
      rw [hlog]
      rcases hapi with hapi | hapi
      · rw [hapi] at hq ⊢
        exact hall c q hq
      · rw [hapi] at hq ⊢
        exact hall c q hq
  | @beganText c => exact absurd rfl (ha c)
  | beganImage => exact hall
  | onText hok hsent hstop =>
      intro c q' hq
      obtain ⟨q, hget, rfl⟩ := get?_onText hq
      split
      · exact (hall c q hget).congr (hsent q) (hstop q)
      · exact hall c q hget
  | onImage => exact hall
  | logged =>
      intro c q hq
      exact (delivered_logging (h.texts c q hq).2 h.applied).mpr (hall c q hq)
  | @applied e he =>
      have hc : Consumes e s.api (s.api.applyEvent lib s.api.applied e) := consumes_applyEvent h he
      intro c q' hq
      obtain ⟨q, hget, hq'⟩ := hc.texts c q' hq
      have hdelivered := hall c q hget
      rw [setApi, hc.applied]
      rcases hq' with ⟨chunk, hchunk, rfl⟩ | ⟨hnone, rfl | rfl⟩
      · exact hdelivered.send (h.texts c q hget).2 he hchunk
      · exact hdelivered.skip he hnone
      · exact (hdelivered.skip he hnone).popClose

/-- No chunk of a command has been applied when its stream of text begins. -/
def StartsInTime (s : Streams) : Action → Prop
  | .stream c .text => chunksOf c (s.log.take s.api.applied) = []
  | _ => True

instance (s : Streams) (a : Action) : Decidable (s.StartsInTime a) := by
  unfold StartsInTime
  split <;> infer_instance

/-- A new channel is empty. -/
theorem allDelivered_stream {c : CommandId} (hs : s.step lib (.stream c .text) = some s')
    (hall : s.AllDelivered) :
    s'.AllDelivered ↔ chunksOf c (s.log.take s.api.applied) = [] := by
  obtain ⟨-, rfl⟩ := step_streamText hs
  constructor
  · intro hall'
    have hnew : ({} : ChunkQueue).Delivered s.log s.api.applied c :=
      hall' c {} (Dict.get?_set_self _ _ _)
    exact takeThrough_eq_nil.1 hnew.symm
  · intro hnone c' q hq
    by_cases heq : c' = c
    · subst heq
      obtain rfl := Option.some.inj ((Dict.get?_set_self _ _ _).symm.trans hq)
      exact (takeThrough_eq_nil.2 hnone).symm
    · exact hall c' q ((Dict.get?_set_ne _ _ heq).symm.trans hq)

theorem allDelivered_step_iff {a : Action} (h : Base s) (hall : s.AllDelivered)
    (hs : s.step lib a = some s') : s'.AllDelivered ↔ s.StartsInTime a := by
  by_cases ha : ∃ c, a = .stream c .text
  · obtain ⟨c, rfl⟩ := ha
    exact allDelivered_stream hs hall
  · have ha : ∀ c, a ≠ .stream c .text := fun c heq => ha ⟨c, heq⟩
    refine iff_of_true (allDelivered_step h hs ha hall) ?_
    unfold StartsInTime
    split
    · exact absurd rfl (ha _)
    · trivial

/-- Every stream of text yields what was logged for it. -/
def Faithful (s : Streams) : Prop :=
  ∀ c q, s.api.textQueues.get? c = some q → q.Faithful s.log s.api.applied c

/--
**The streams of text yield what was logged for them exactly as long as each begins before a chunk
of its command is applied.**
-/
theorem faithful_throughout_iff (lib : GraphLibrary) {as : List Action} {s : Streams}
    (h : (machine lib).run {} as = some s) :
    (∀ k t, (machine lib).run {} (as.take k) = some t → t.Faithful)
      ↔ ∀ k a t, as[k]? = some a → (machine lib).run {} (as.take k) = some t →
        t.StartsInTime a := by
  rw [← Machine.throughout_iff_of_invariant (B := Base) (P := AllDelivered)
    (fun _ _ _ hi hs => base_step hi hs) (fun _ _ _ hi hall hs => allDelivered_step_iff hi hall hs)
    base_init (fun _ _ hq => by cases hq) h]
  constructor
  · exact fun hall k t ht c q hq => (hall k t ht c q hq).delivered
  · intro hall k t ht c q hq
    have hbase : Base t :=
      Machine.invariant_of_run (P := Base) (fun _ _ _ hi hs => base_step hi hs) base_init ht
    exact (hall k t ht c q hq).faithful (hbase.texts c q hq).2

/-- A token, and one that is the last. -/
def aToken (text : String) : GeneratedChunk := .text (.token text false none none)

def lastToken (text : String) : GeneratedChunk := .text (.token text false (some .stop) none)

/-- Two streams, of which the second is cancelled. -/
def streaming : List Action :=
  [.sendCommand 1 .text, .stream 1 .text, .sendCommand 2 .text,
    .logChunk .textEngine 1 (aToken "a"), .apply, .read 1, .stream 2 .text,
    .logChunk .textEngine 2 (aToken "b"), .logChunk .textEngine 1 (lastToken "c"), .apply, .apply,
    .read 1, .cancelCommand 2, .logChunk .textEngine 2 (aToken "d"), .apply, .read 2, .exhausted 2]

theorem faithful_throughout_streaming : ∃ s, (machine .search).run {} streaming = some s
    ∧ ∀ k t, (machine .search).run {} (streaming.take k) = some t → t.Faithful := by
  have hrun : ((machine .search).runWhen StartsInTime {} streaming).isSome := by decide +kernel
  obtain ⟨s, hs⟩ := Option.isSome_iff_exists.mp hrun
  obtain ⟨h, hall⟩ := Machine.runWhen_eq_some.mp hs
  exact ⟨s, h, (faithful_throughout_iff .search h).mpr hall⟩

/-- A chunk is applied after the command was sent and before its stream begins. -/
def streamingLate : List Action :=
  [.sendCommand 1 .text, .logChunk .textEngine 1 (lastToken "a"), .apply, .stream 1 .text]

theorem not_faithful_late : ¬ ∀ (lib : GraphLibrary) (s : Streams),
    (machine lib).Reachable s → s.Faithful := by
  intro h
  have hrun : ((machine .search).run {} streamingLate).map (fun s =>
      (s.api.textQueues.get? 1, chunksOf 1 (s.log.take s.api.applied)))
      = some (some {}, [.token "a" false (some .stop) none]) := by
    decide +kernel
  obtain ⟨s, hs, hstate⟩ := Option.map_eq_some_iff.mp hrun
  obtain ⟨hqueue, hlogged⟩ := Prod.mk.inj hstate
  have hdelivered := (h _ s (Machine.reachable_of_run hs) 1 {} hqueue).delivered
  have hnone := takeThrough_eq_nil.mp hdelivered.symm
  cases hlogged.symm.trans hnone

end Streams

end Exo
