import Exo.Routing.EventRouter

/-!
# Consumers receive the log in order

What a router hands to a consumer is the numbered log, from the start and without
a gap. The buffer releases the log in order, the loop over the drained events
hands each to every consumer in turn, and a consumer that applies them finds each
index one above the last.

`RouterInv log r` says all of this about one router and one log. It survives
everything the router does, and the log growing.
-/

namespace Exo

open Lib

/-- The log as the consumers see it. -/
def indexed (log : List Event) : List IndexedEvent := (enumerate log).map fun p => ⟨p.1, p.2⟩

/-- The drained events as the consumers see them. -/
def toIndexed (l : List (Nat × Event)) : List IndexedEvent := l.map fun p => ⟨p.1, p.2⟩

theorem indexed_mono {log log' : List Event} (h : log <+: log') : indexed log <+: indexed log' :=
  (enumerate_mono h).map _

theorem indexed_getElem? {log : List Event} {i : Nat} {e : IndexedEvent}
    (h : (indexed log)[i]? = some e) : e.idx = i ∧ log[i]? = some e.event := by
  rw [indexed, List.getElem?_map, getElem?_enumerate, Option.map_map] at h
  obtain ⟨a, ha, rfl⟩ := Option.map_eq_some_iff.mp h
  exact ⟨rfl, ha⟩

/-- The state after a prefix of the log: the fold of its events, and its last index. -/
def replayed (events : List Event) : State :=
  { foldEvents events with lastEventAppliedIdx := (events.length : Int) - 1 }

/-- **The next event of the log is accepted, and extends the fold.** -/
theorem apply_replayed (events : List Event) (e : Event) :
    apply (replayed events) ⟨events.length, e⟩ = some (replayed (events ++ [e])) := by
  unfold apply
  rw [if_pos (by rfl)]
  simp only [replayed, foldEvents_append, eventApply_setIdx, List.length_append,
    List.length_singleton]
  congr 2
  omega

/-! ## One consumer -/

/--
Where a consumer stands, when the buffer has released `released` events of the
log and `remaining` is what the loop still has to hand to it.
-/
structure ConsumerInv (log : List Event) (released : Nat) (remaining : List (Nat × Event))
    (c : Consumer) : Prop where
  /-- A consumer that is still attached misses only what remains. -/
  attached : c.attached = true → c.handed ++ toIndexed remaining = indexed (log.take released)
  /-- In any case it has been handed a prefix. -/
  prefixed : c.handed <+: indexed (log.take released)
  /-- Its state is the fold of what it applied. -/
  state : c.state = replayed (c.applied.map IndexedEvent.event)
  /-- No assertion failed. -/
  quiet : c.raised = false

section Consumer

variable {log : List Event} {released : Nat} {remaining : List (Nat × Event)} {c : Consumer}

theorem consumerInv_init (log : List Event) : ConsumerInv log 0 [] {} where
  attached := fun _ => rfl
  prefixed := List.prefix_rfl
  state := rfl
  quiet := rfl

theorem ConsumerInv.prefix_log (h : ConsumerInv log released remaining c) :
    c.handed <+: indexed log :=
  h.prefixed.trans (indexed_mono (List.take_prefix released log))

/-- What has been applied is the start of the log. -/
theorem ConsumerInv.applied_eq (h : ConsumerInv log released remaining c) :
    c.applied.map IndexedEvent.event = log.take c.applied.length := by
  have hp : c.applied <+: indexed log := (List.prefix_append _ _).trans h.prefix_log
  have hp' := hp.map IndexedEvent.event
  rw [indexed, List.map_map] at hp'
  have hs : List.map (IndexedEvent.event ∘ fun p : Nat × Event => ⟨p.1, p.2⟩) (enumerate log)
      = log := map_snd_enumerate log
  rw [hs] at hp'
  have := List.prefix_iff_eq_take.mp hp'
  rwa [List.length_map] at this

/-- **Applying the next event never fails, and keeps the state a fold of the log.** -/
theorem ConsumerInv.consume (h : ConsumerInv log released remaining c) {c' : Consumer}
    (hc : c.consume = some c') : ConsumerInv log released remaining c' := by
  unfold Consumer.consume at hc
  split at hc
  · cases hc
  · split at hc
    · cases hc
    · rename_i e rest hin
      -- the event at the front of the channel is number `applied.length` of the log
      have hhand : c.handed = c.applied ++ e :: rest := by rw [Consumer.handed, hin]
      have hget : (indexed log)[c.applied.length]? = some e := by
        apply getElem?_extended h.prefix_log
        rw [hhand, List.getElem?_append_right (Nat.le_refl _)]
        simp
      obtain ⟨hidx, -⟩ := indexed_getElem? hget
      have happ : apply c.state e
          = some (replayed (c.applied.map IndexedEvent.event ++ [e.event])) := by
        have := apply_replayed (c.applied.map IndexedEvent.event) e.event
        rw [List.length_map, ← hidx] at this
        rw [h.state]; exact this
      rw [happ] at hc
      obtain rfl := Option.some.inj hc
      have hsame : ∀ s, Consumer.handed
          { c with inbox := rest, applied := c.applied ++ [e], state := s } = c.handed := by
        simp [Consumer.handed, hin]
      refine ⟨?_, ?_, ?_, h.quiet⟩
      · intro ha; rw [hsame]; exact h.attached ha
      · rw [hsame]; exact h.prefixed
      · simp

/-- Handing a consumer the head of what remains for it. -/
theorem ConsumerInv.send {idx : Nat} {event : Event} {rest : List (Nat × Event)}
    (h : ConsumerInv log released ((idx, event) :: rest) c) :
    ConsumerInv log released rest (c.send ⟨idx, event⟩) := by
  unfold Consumer.send
  split
  · rename_i hd
    exact ⟨fun ha => absurd ha (by simp [hd]), h.prefixed, h.state, h.quiet⟩
  · rename_i hd
    split
    · exact ⟨fun ha => absurd ha (by simp), h.prefixed, h.state, h.quiet⟩
    · have ha := h.attached (by simpa using hd)
      have hh : Consumer.handed { c with inbox := c.inbox ++ [⟨idx, event⟩] }
          = c.handed ++ [⟨idx, event⟩] := by simp [Consumer.handed]
      have hall : (c.handed ++ [⟨idx, event⟩]) ++ toIndexed rest = indexed (log.take released) := by
        rw [← ha]; simp [toIndexed]
      refine ⟨?_, ?_, h.state, h.quiet⟩
      · intro _; rw [hh]; exact hall
      · rw [hh]; exact ⟨_, hall⟩

/-- The buffer releases more of the log, all of which remains to be handed out. -/
theorem ConsumerInv.release (h : ConsumerInv log released [] c) {released' : Nat}
    {drained : List (Nat × Event)}
    (hd : enumerate (log.take released) ++ drained = enumerate (log.take released')) :
    ConsumerInv log released' drained c := by
  have hd' : indexed (log.take released) ++ toIndexed drained = indexed (log.take released') := by
    rw [indexed, indexed, ← hd, List.map_append]; rfl
  refine ⟨?_, h.prefixed.trans ⟨_, hd'⟩, h.state, h.quiet⟩
  intro ha
  have := h.attached ha
  simp only [toIndexed, List.map_nil, List.append_nil] at this
  rw [this, hd']

theorem ConsumerInv.extend (h : ConsumerInv log released remaining c) {log' : List Event}
    (hp : log <+: log') (hr : released ≤ log.length) :
    ConsumerInv log' released remaining c := by
  have ht : log'.take released = log.take released := by
    obtain ⟨t, rfl⟩ := hp
    rw [List.take_append_of_le_length hr]
  exact ⟨ht ▸ h.attached, ht ▸ h.prefixed, h.state, h.quiet⟩

end Consumer

/-! ## One router -/

/-- What the loop still has to hand to the consumer at place `i`. -/
def EventRouter.remaining (r : EventRouter) (i : Nat) : List (Nat × Event) :=
  if i < r.position then r.drained.tail else r.drained

variable {log : List Event}

/-- Where a router stands in a log. -/
structure RouterInv (log : List Event) (r : EventRouter) : Prop where
  /-- The buffer's assertion held. -/
  quiet : r.raised = false
  /-- The buffer holds events of the log at their indices. -/
  tracks : r.buf.Tracks log
  /-- Every consumer is where the loop left it. -/
  consumers : ∀ i c, r.internalOutbound[i]? = some c →
    ConsumerInv log r.buf.nextIdxToRelease (r.remaining i) c

variable {r : EventRouter}

theorem RouterInv.extend (h : RouterInv log r) {log' : List Event}
    (hp : log <+: log') : RouterInv log' r where
  quiet := h.quiet
  tracks := h.tracks.extend hp
  consumers := fun i c hc => (h.consumers i c hc).extend hp h.tracks.released

/-- A change that keeps the buffer, the loop and the consumers keeps the invariant. -/
theorem RouterInv.congr {r r' : EventRouter} (h : RouterInv log r) (hq : r'.raised = r.raised)
    (hb : r'.buf = r.buf) (hi : r'.internalOutbound = r.internalOutbound)
    (hd : r'.drained = r.drained) (hp : r'.position = r.position) : RouterInv log r' where
  quiet := hq ▸ h.quiet
  tracks := hb ▸ h.tracks
  consumers := by
    intro i c hc
    rw [hi] at hc
    have := h.consumers i c hc
    rwa [EventRouter.remaining, ← hd, ← hp, ← hb] at this

/-- **A true event is taken in, and what it releases remains for every consumer.** -/
theorem RouterInv.receive (h : RouterInv log r) {g : GlobalForwarderEvent}
    (hg : log[g.originIdx]? = some g.event) (hidle : r.drained = []) :
    RouterInv log (r.receive g) := by
  unfold EventRouter.receive
  split
  · exact h
  · split
    · exact h
    · obtain ⟨buf, hbuf, htr, hnext⟩ := h.tracks.ingest hg
      obtain ⟨htr', hdr⟩ := htr.drainIndexed
      rw [hnext] at hdr
      -- nothing was left to hand out before, so the released events are all that remains
      have hcons : ∀ (i : Nat) (c : Consumer), r.internalOutbound[i]? = some c →
          ConsumerInv log buf.drainIndexed.2.nextIdxToRelease buf.drainIndexed.1 c := by
        intro i c hc
        have hci := h.consumers i c hc
        have hrem : r.remaining i = [] := by
          unfold EventRouter.remaining
          split <;> simp [hidle]
        rw [hrem] at hci
        exact hci.release hdr
      rw [hbuf]
      dsimp only
      by_cases hnil : buf.drainIndexed.1 = []
      · rw [if_pos hnil]
        have hbase : RouterInv log { r with
            buf := buf.drainIndexed.2
            outForDelivery := r.outForDelivery.erase g.event.eventId } := by
          refine ⟨h.quiet, htr', ?_⟩
          intro i c hc
          have := hcons i c hc
          have hrem : EventRouter.remaining { r with
              buf := buf.drainIndexed.2
              outForDelivery := r.outForDelivery.erase g.event.eventId } i = [] := by
            unfold EventRouter.remaining
            split <;> simp [hidle]
          rwa [hrem, ← hnil]
        split
        · exact hbase.congr rfl rfl rfl rfl rfl
        · exact hbase
      · rw [if_neg hnil]
        refine ⟨h.quiet, htr', ?_⟩
        intro i c hc
        have := hcons i c hc
        simpa [EventRouter.remaining, EventRouter.cancelNack] using this

/-- **Handing one event to one consumer.** -/
theorem RouterInv.handOut {r r' : EventRouter} (h : RouterInv log r) (hr : r.handOut = some r') :
    RouterInv log r' := by
  unfold EventRouter.handOut at hr
  split at hr
  · cases hr
  · rename_i idx event rest hd
    split at hr
    · rename_i c hc
      obtain rfl := Option.some.inj hr
      refine ⟨h.quiet, h.tracks, ?_⟩
      intro i c' hc'
      rw [List.getElem?_set] at hc'
      by_cases hi : r.position = i
      · -- the consumer whose turn it is
        subst hi
        have hlt : r.position < r.internalOutbound.length := (List.getElem?_eq_some_iff.mp hc).1
        rw [if_pos rfl, if_pos hlt] at hc'
        obtain rfl := Option.some.inj hc'
        have hci := h.consumers _ c hc
        rw [EventRouter.remaining, if_neg (Nat.lt_irrefl _), hd] at hci
        have := hci.send
        simpa [EventRouter.remaining, hd] using this
      · rw [if_neg hi] at hc'
        have hci := h.consumers i c' hc'
        have hiff : i < r.position + 1 ↔ i < r.position := by omega
        simpa [EventRouter.remaining, hiff] using hci
    · -- every consumer has had its turn
      rename_i hnone
      obtain rfl := Option.some.inj hr
      refine ⟨h.quiet, h.tracks, ?_⟩
      intro i c' hc'
      have hlt : i < r.internalOutbound.length := (List.getElem?_eq_some_iff.mp hc').1
      have hle : r.internalOutbound.length ≤ r.position := List.getElem?_eq_none_iff.mp hnone
      have hci := h.consumers i c' hc'
      rw [EventRouter.remaining, if_pos (by omega), hd] at hci
      simpa [EventRouter.remaining] using hci

/-- A consumer changes by itself. -/
theorem RouterInv.setConsumer (h : RouterInv log r) {i : Nat} {c c' : Consumer}
    (hc : r.internalOutbound[i]? = some c)
    (hc' : ∀ released remaining, ConsumerInv log released remaining c →
      ConsumerInv log released remaining c') :
    RouterInv log { r with internalOutbound := r.internalOutbound.set i c' } := by
  refine ⟨h.quiet, h.tracks, ?_⟩
  intro j d hd
  rw [List.getElem?_set] at hd
  by_cases hij : i = j
  · subst hij
    rw [if_pos rfl, if_pos (List.getElem?_eq_some_iff.mp hc).1] at hd
    obtain rfl := Option.some.inj hd
    exact hc' _ _ (h.consumers i c hc)
  · rw [if_neg hij] at hd
    exact h.consumers j d hd

end Exo
