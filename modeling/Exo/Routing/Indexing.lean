import Exo.Routing.Delivery
import Exo.Routing.Master

/-!
# The master logs every source in order

The buffer of a source releases what the source emitted, in order. Everything
released is logged except collected traces, so the part of the log that comes
from one source is a prefix of what it emitted. Which source an event comes from
can be read off its id, because no two events draw the same one.
-/

namespace Exo

open Lib

/-- The events the master gives an index to. -/
def isLogged (e : Event) : Bool := !e.isTracesCollected

/-- The event carries an id drawn by a source that emitted `em`. -/
def fromSource (em : List Event) (e : Event) : Bool :=
  decide (e.eventId ∈ em.map Event.eventId)

@[simp] theorem fromSource_stamp (em : List Event) (now : Time) (e : Event) :
    fromSource em (e.stamp now) = fromSource em e := by
  simp [fromSource]

variable {e : Event}

theorem fromSource_of_mem {em : List Event} (h : e ∈ em) : fromSource em e = true := by
  simpa [fromSource] using ⟨e, h, rfl⟩

/-- No two places of any two sources hold events with the same id. -/
def Distinct (em : SystemId → List Event) : Prop :=
  ∀ (s s' : SystemId) (i j : Nat) (e e' : Event),
    (em s)[i]? = some e → (em s')[j]? = some e' → e.eventId = e'.eventId → s = s' ∧ i = j

/-- Where the master stands, when the sources have emitted `em`. -/
structure MasterInv (em : SystemId → List Event) (m : Master) : Prop where
  /-- No assertion failed. -/
  quiet : m.raised = false
  /-- The buffers hold what the sources emitted. -/
  tracks : m.multiBuffer.Tracks em
  /-- The master's own state is the fold of the log. -/
  state : m.state = replayed m.eventLog
  /-- The log, and what is about to be logged, hold what each source released, in order. -/
  order : ∀ s, ((m.eventLog ++ m.draining.filter isLogged).filter (fromSource (em s))).map
      Event.unstamped
    = (((em s).take (m.multiBuffer.next s)).filter isLogged).map Event.unstamped
  /-- Everything logged comes from some source. -/
  origins : ∀ e ∈ m.eventLog ++ m.draining, ∃ s, fromSource (em s) e = true

variable {em : SystemId → List Event} {m : Master}

theorem masterInv_init (em : SystemId → List Event) (nodeId : NodeId) (sessionId : SessionId) :
    MasterInv em { nodeId := nodeId, sessionId := sessionId } where
  quiet := rfl
  tracks := MultiSourceBuffer.tracks_empty em
  state := rfl
  order := fun s => by simp [MultiSourceBuffer.next]
  origins := fun e he => by simp at he

/-- A source's part of the log is a prefix of what it emitted. -/
theorem MasterInv.logged_start (h : MasterInv em m) (s : SystemId) :
    (m.eventLog.filter (fromSource (em s))).map Event.unstamped
      <+: ((em s).filter isLogged).map Event.unstamped := by
  have ho := h.order s
  rw [List.filter_append, List.map_append] at ho
  have ht : ((em s).take (m.multiBuffer.next s)).filter isLogged <+: (em s).filter isLogged :=
    (List.take_prefix _ _).filter _
  exact (ho ▸ List.prefix_append _ _).trans (ht.map _)

variable {s : SystemId}

variable {i : Nat}

/-- **What is logged was released, and is no trace.** -/
theorem MasterInv.of_logged (h : MasterInv em m) (hd : Distinct em)
    {e x : Event} (he : (em s)[i]? = some e) (hx : x ∈ m.eventLog)
    (hid : x.eventId = e.eventId) : i < m.multiBuffer.next s ∧ isLogged e := by
  have hfrom : fromSource (em s) x := by
    simpa [fromSource, hid] using ⟨e, List.mem_of_getElem? he, rfl⟩
  have hmem : x.unstamped ∈ (((em s).take (m.multiBuffer.next s)).filter isLogged).map
      Event.unstamped := by
    rw [← h.order s]
    exact List.mem_map_of_mem (List.mem_filter.mpr ⟨List.mem_append_left _ hx, hfrom⟩)
  obtain ⟨e', he', hun⟩ := List.mem_map.mp hmem
  obtain ⟨htake, hlogged⟩ := List.mem_filter.mp he'
  obtain ⟨j, hj⟩ := List.mem_iff_getElem?.mp htake
  rw [List.getElem?_take] at hj
  split at hj
  · rename_i hlt
    -- the released event has the same id, so it is the same event
    have hsame : e'.eventId = e.eventId := by
      have := congrArg Event.eventId hun
      simpa only [Event.unstamped, Event.stamp_eventId, hid] using this
    obtain ⟨-, rfl⟩ := hd s s j i e' e hj he hsame
    rw [hj] at he
    exact ⟨hlt, Option.some.inj he ▸ hlogged⟩
  · cases hj

/-- What was released is logged or about to be, traces left out. -/
theorem MasterInv.logged_of_released (h : MasterInv em m)
    (he : (em s)[i]? = some e) (hi : i < m.multiBuffer.next s) (hl : isLogged e) :
    ∃ x ∈ m.eventLog ++ m.draining, x.eventId = e.eventId := by
  have htake : e ∈ (em s).take (m.multiBuffer.next s) := by
    refine List.mem_iff_getElem?.mpr ⟨i, ?_⟩
    rw [List.getElem?_take, if_pos hi]
    exact he
  have hmem : e.unstamped ∈ ((m.eventLog ++ m.draining.filter isLogged).filter
      (fromSource (em s))).map Event.unstamped := by
    rw [h.order s]
    exact List.mem_map_of_mem (List.mem_filter.mpr ⟨htake, hl⟩)
  obtain ⟨x, hx, hun⟩ := List.mem_map.mp hmem
  have hx := List.mem_of_mem_filter hx
  refine ⟨x, ?_, ?_⟩
  · rcases List.mem_append.mp hx with hx | hx
    · exact List.mem_append_left _ hx
    · exact List.mem_append_right _ (List.mem_of_mem_filter hx)
  · have := congrArg Event.eventId hun
    simpa only [Event.unstamped, Event.stamp_eventId] using this

/-- An event of one source is from no other. -/
theorem Distinct.not_fromSource (hd : Distinct em) {s s' : SystemId} (hne : s' ≠ s)
    (he : e ∈ em s') : fromSource (em s) e = false := by
  simp only [fromSource, decide_eq_false_iff_not, List.mem_map, not_exists, not_and]
  intro e' he' hid
  obtain ⟨i, hi⟩ := List.mem_iff_getElem?.mp he
  obtain ⟨j, hj⟩ := List.mem_iff_getElem?.mp he'
  exact hne (hd s' s i j e e' hi hj hid.symm).1

/-- What is drained of one source continues what was released of it. -/
theorem Distinct.drained {buf : MultiSourceBuffer SystemId Event} (hd : Distinct em)
    (htr : buf.Tracks em) (s : SystemId) :
    (em s).take (buf.next s) ++ buf.drain.1.filter (fromSource (em s))
      = (em s).take (buf.drain.2.next s) :=
  htr.drain_filter (fun _ ht => fromSource_of_mem ht) fun _ hne _ ht => hd.not_fromSource hne ht

variable {f : LocalForwarderEvent}

/-- **Receiving a true event: what it releases continues its source.** -/
theorem MasterInv.receive (h : MasterInv em m) (hd : Distinct em)
    (hf : (em f.origin)[f.originIdx]? = some f.event) (hidle : m.draining = []) :
    MasterInv em (m.receive f) := by
  unfold Master.receive
  split
  · exact h
  · obtain ⟨buf, hbuf, htr, hnext⟩ := h.tracks.ingest hf
    rw [hbuf]
    have hpart : ∀ s, (em s).take (m.multiBuffer.next s) ++ buf.drain.1.filter (fromSource (em s))
        = (em s).take (buf.drain.2.next s) := by
      intro s
      rw [← hnext s]
      exact hd.drained htr s
    refine ⟨h.quiet, htr.drain, h.state, ?_, ?_⟩
    · intro s
      have hold := h.order s
      rw [hidle, List.filter_nil, List.append_nil] at hold
      show ((m.eventLog ++ buf.drain.1.filter isLogged).filter (fromSource (em s))).map _ = _
      rw [← hpart s, List.filter_append, List.map_append, hold, List.filter_append,
        List.map_append, List.filter_comm]
    · intro e he
      rcases List.mem_append.mp he with he | he
      · exact h.origins e (List.mem_append_left _ he)
      · -- a drained event sits in the buffer of some source, which tracks what it emitted
        obtain ⟨p, hp, hep⟩ := List.mem_flatMap.mp he
        have htrp := htr p.1
        rw [Dict.mem_entries.1 hp] at htrp
        have hmem : e ∈ (em p.1).take p.2.drain.2.nextIdxToRelease :=
          htrp.drain.2 ▸ List.mem_append_right _ hep
        exact ⟨p.1, fromSource_of_mem (List.mem_of_mem_take hmem)⟩

variable {out : Option GlobalForwarderEvent}

variable {m' : Master}

/-- **Indexing the next drained event**, with what is broadcast for it. -/
theorem MasterInv.index (h : MasterInv em m) {now : Time}
    (hi : m.index now = some (m', out)) :
    MasterInv em m' ∧ m.eventLog <+: m'.eventLog
      ∧ ∀ g, out = some g → m'.eventLog[g.originIdx]? = some g.event := by
  unfold Master.index at hi
  split at hi
  · cases hi
  · rename_i event rest hdr
    have horder := h.order
    have horig := h.origins
    rw [hdr] at horder horig
    split at hi
    · -- collected traces are dropped, and were not counted in the first place
      rename_i htr
      obtain ⟨rfl, rfl⟩ := Prod.mk.inj (Option.some.inj hi)
      refine ⟨⟨h.quiet, h.tracks, h.state, ?_, ?_⟩, List.prefix_rfl, by simp⟩
      · intro s
        have := horder s
        rwa [List.filter_cons_of_neg (by simp [isLogged, htr])] at this
      · intro e he
        rcases List.mem_append.mp he with he | he
        · exact horig e (List.mem_append_left _ he)
        · exact horig e (List.mem_append_right _ (List.mem_cons_of_mem _ he))
    · rename_i htr
      have happ : apply m.state ⟨m.eventLog.length, event.stamp now⟩
          = some (replayed (m.eventLog ++ [event.stamp now])) := by
        rw [h.state]; exact apply_replayed _ _
      dsimp only at hi
      rw [happ] at hi
      obtain ⟨rfl, rfl⟩ := Prod.mk.inj (Option.some.inj hi)
      refine ⟨⟨h.quiet, h.tracks, rfl, ?_, ?_⟩, List.prefix_append _ _, ?_⟩
      · intro s
        rw [← horder s, List.filter_cons_of_pos (by simp [isLogged, htr])]
        simp only [List.append_assoc, List.singleton_append, List.filter_append, List.filter_cons,
          fromSource_stamp, List.map_append]
        split <;> simp
      · intro e he
        simp only [List.append_assoc, List.singleton_append, List.mem_append,
          List.mem_cons] at he
        rcases he with he | rfl | he
        · exact horig e (List.mem_append_left _ he)
        · obtain ⟨s, hs⟩ := horig event (by simp)
          exact ⟨s, by rw [fromSource_stamp]; exact hs⟩
        · exact horig e (by simp [he])
      · intro g hg
        obtain rfl := Option.some.inj hg
        simp [Master.global]

/-- **What a round of the loop over the drained events does.** -/
theorem MasterInv.index_cases (h : MasterInv em m) {now : Time}
    (hi : m.index now = some (m', out)) :
    ∃ e rest, m.draining = e :: rest ∧ m'.draining = rest ∧ m'.multiBuffer = m.multiBuffer
      ∧ (isLogged e = false ∧ m'.eventLog = m.eventLog ∧ out = none
        ∨ isLogged e ∧ m'.eventLog = m.eventLog ++ [e.stamp now]
          ∧ out = some (m.global m.eventLog.length (e.stamp now))) := by
  unfold Master.index at hi
  split at hi
  · cases hi
  · rename_i e rest hd
    split at hi
    · rename_i htrace
      obtain ⟨rfl, rfl⟩ := Prod.mk.inj (Option.some.inj hi)
      exact ⟨e, rest, hd, rfl, rfl, .inl ⟨by simp [isLogged, htrace], rfl, rfl⟩⟩
    · rename_i htrace
      have happ : apply m.state ⟨m.eventLog.length, e.stamp now⟩
          = some (replayed (m.eventLog ++ [e.stamp now])) := by
        rw [h.state]
        exact apply_replayed _ _
      dsimp only at hi
      rw [happ] at hi
      obtain ⟨rfl, rfl⟩ := Prod.mk.inj (Option.some.inj hi)
      exact ⟨e, rest, hd, rfl, rfl, .inr ⟨by simp [isLogged, htrace], rfl, rfl⟩⟩

/-- The loop over the drained events goes on to its end. -/
theorem MasterInv.index_next (h : MasterInv em m) {rest : List Event}
    (hd : m.draining = e :: rest) (now : Time) :
    ∃ m' out, m.index now = some (m', out) ∧ m'.draining = rest := by
  have hsome : ∃ p, m.index now = some p := by
    unfold Master.index
    rw [hd]
    dsimp only
    split
    · exact ⟨_, rfl⟩
    · split
      · exact ⟨_, rfl⟩
      · exact ⟨_, rfl⟩
  obtain ⟨⟨m', out⟩, hi⟩ := hsome
  obtain ⟨e', rest', hd', hrest, -⟩ := h.index_cases hi
  rw [hd] at hd'
  obtain ⟨-, rfl⟩ := List.cons.inj hd'
  exact ⟨m', out, hi, hrest⟩

/-- Receiving takes no source back. -/
theorem MasterInv.next_le_receive (h : MasterInv em m)
    (hf : (em f.origin)[f.originIdx]? = some f.event) (s : SystemId) :
    m.multiBuffer.next s ≤ (m.receive f).multiBuffer.next s := by
  unfold Master.receive
  split
  · exact Nat.le_refl _
  · obtain ⟨buf, hbuf, -, hnext⟩ := h.tracks.ingest hf
    rw [hbuf, ← hnext s]
    simp only [MultiSourceBuffer.next, MultiSourceBuffer.drain_store]
    exact OrderedBuffer.le_drain _

/-- **The next event of a source is released when it is received.** -/
theorem MasterInv.next_lt_receive (h : MasterInv em m)
    (hf : (em f.origin)[f.originIdx]? = some f.event) (hs : f.session = m.sessionId)
    (hnext : f.originIdx = m.multiBuffer.next f.origin) :
    f.originIdx < (m.receive f).multiBuffer.next f.origin := by
  obtain ⟨b, hb, -, hsame⟩ := (h.tracks f.origin).ingest hf
  have hbuf : m.multiBuffer.ingest f.originIdx f.event f.origin
      = some { stores := m.multiBuffer.stores.set f.origin b } := by
    simp [MultiSourceBuffer.ingest, hb]
  have hidx : b.nextIdxToRelease = f.originIdx := by
    rw [hsame, hnext]
    rfl
  have hhas : b.Has b.nextIdxToRelease := (OrderedBuffer.has_ingest hb _).mpr (.inr hidx)
  rw [Master.receive, if_neg (not_not.mpr hs), hbuf]
  simp only [MultiSourceBuffer.next, MultiSourceBuffer.drain_store, Dict.get?_set_self,
    Option.getD_some]
  have hlt := OrderedBuffer.lt_drain hhas
  omega

/-- **What a received event releases is drained.** -/
theorem MasterInv.drained_of_released (h : MasterInv em m) (hd : Distinct em)
    (hf : (em f.origin)[f.originIdx]? = some f.event)
    (he : (em s)[i]? = some e)
    (hi : i < (m.receive f).multiBuffer.next s) :
    i < m.multiBuffer.next s ∨ e ∈ (m.receive f).draining := by
  by_cases hs : f.session ≠ m.sessionId
  · rw [Master.receive, if_pos hs] at hi
    exact .inl hi
  · obtain ⟨buf, hbuf, htr, hnext⟩ := h.tracks.ingest hf
    rw [Master.receive, if_neg hs, hbuf] at hi ⊢
    have hpart := hd.drained htr s
    rw [hnext s] at hpart
    by_cases hlt : i < m.multiBuffer.next s
    · exact .inl hlt
    · refine .inr (List.mem_of_mem_filter (p := fromSource (em s)) ?_)
      have hget : ((em s).take (buf.drain.2.next s))[i]? = some e := by
        rw [List.getElem?_take, if_pos hi]
        exact he
      rw [← hpart, List.getElem?_append_right (by rw [List.length_take]; omega)] at hget
      exact List.mem_of_getElem? hget

/-! ## What is about to be logged -/

theorem Distinct.nodup_ids (hd : Distinct em) (s : SystemId) :
    ((em s).map Event.eventId).Nodup := by
  rw [List.nodup_iff_getElem?_ne_getElem?]
  intro i j hij hj heq
  rw [List.length_map] at hj
  have hi : i < (em s).length := Nat.lt_trans hij hj
  simp only [List.getElem?_map, List.getElem?_eq_getElem hi, List.getElem?_eq_getElem hj,
    Option.map_some, Option.some.injEq] at heq
  have := (hd s s i j _ _ (List.getElem?_eq_getElem hi) (List.getElem?_eq_getElem hj) heq).2
  omega

/-- What the loop has yet to come to is, for each source, the last of what it released. -/
def DrainInv (em : SystemId → List Event) (m : Master) : Prop :=
  ∀ s, ∃ k, m.draining.filter (fromSource (em s)) = ((em s).take (m.multiBuffer.next s)).drop k

theorem DrainInv.receive (h : DrainInv em m) (hm : MasterInv em m) (hd : Distinct em)
    (hf : (em f.origin)[f.originIdx]? = some f.event) :
    DrainInv em (m.receive f) := by
  unfold Master.receive
  split
  · exact h
  · obtain ⟨buf, hbuf, htr, hnext⟩ := hm.tracks.ingest hf
    rw [hbuf]
    intro s
    have hpart := hd.drained htr s
    refine ⟨((em s).take (buf.next s)).length, ?_⟩
    show buf.drain.1.filter (fromSource (em s)) = ((em s).take (buf.drain.2.next s)).drop _
    rw [← hpart, List.drop_left]

theorem DrainInv.index (h : DrainInv em m) (hm : MasterInv em m) {now : Time}
    (hi : m.index now = some (m', out)) : DrainInv em m' := by
  obtain ⟨e, rest, hdr, hdr', hbuf, -⟩ := hm.index_cases hi
  intro s
  obtain ⟨k, hk⟩ := h s
  rw [hdr, List.filter_cons] at hk
  rw [hdr', hbuf]
  split at hk
  · exact ⟨k + 1, by rw [← List.tail_drop, ← hk, List.tail_cons]⟩
  · exact ⟨k, hk⟩

theorem DrainInv.emit (h : DrainInv em m) (hm : MasterInv em m)
    (hfresh : ∀ s' e', e' ∈ em s' → e'.eventId ≠ e.eventId) :
    DrainInv (Function.update em s (em s ++ [e])) m := by
  intro s'
  obtain ⟨k, hk⟩ := h s'
  by_cases hs : s' = s
  · subst hs
    have htake : (em s' ++ [e]).take (m.multiBuffer.next s')
        = (em s').take (m.multiBuffer.next s') :=
      List.take_append_of_le_length (hm.tracks s').released
    refine ⟨k, ?_⟩
    rw [Function.update_self, htake, ← hk]
    refine List.filter_congr fun x hx => ?_
    -- the new id is not one of those that are drained
    obtain ⟨t, ht⟩ := hm.origins x (List.mem_append_right _ hx)
    obtain ⟨y, hy, hyx⟩ := List.mem_map.mp (of_decide_eq_true ht)
    have hne : x.eventId ≠ e.eventId := hyx ▸ hfresh t y hy
    simp [fromSource, hne]
  · exact ⟨k, by rw [Function.update_of_ne hs]; exact hk⟩

/-- **The event the loop comes to next was released, and comes once.** -/
theorem DrainInv.head (h : DrainInv em m) (hm : MasterInv em m) (hd : Distinct em)
    {rest : List Event} (hdr : m.draining = e :: rest) :
    (∃ s i, (em s)[i]? = some e ∧ i < m.multiBuffer.next s)
      ∧ ∀ x ∈ rest, x.eventId ≠ e.eventId := by
  obtain ⟨s, hs⟩ := hm.origins e (by rw [hdr]; simp)
  obtain ⟨k, hk⟩ := h s
  rw [hdr, List.filter_cons_of_pos hs] at hk
  have hsub : (e :: rest.filter (fromSource (em s))).Sublist (em s) :=
    hk ▸ (List.drop_sublist _ _).trans (List.take_sublist _ _)
  constructor
  · have hmem : e ∈ (em s).take (m.multiBuffer.next s) :=
      List.mem_of_mem_drop (hk ▸ List.mem_cons_self)
    obtain ⟨i, hi⟩ := List.mem_iff_getElem?.mp hmem
    rw [List.getElem?_take] at hi
    split at hi
    · rename_i hlt
      exact ⟨s, i, hi, hlt⟩
    · cases hi
  · intro x hx hid
    have hnodup := (hd.nodup_ids s).sublist (hsub.map Event.eventId)
    rw [List.map_cons, List.nodup_cons] at hnodup
    refine hnodup.1 (List.mem_map.mpr ⟨x, List.mem_filter.mpr ⟨hx, ?_⟩, hid⟩)
    rw [fromSource, hid]
    exact hs

/-- A source emitting one more event, with an id never drawn before. -/
theorem MasterInv.emit (h : MasterInv em m)
    (hfresh : ∀ s' e', e' ∈ em s' → e'.eventId ≠ e.eventId) :
    MasterInv (Function.update em s (em s ++ [e])) m := by
  have hpre : ∀ s', em s' <+: Function.update em s (em s ++ [e]) s' := by
    intro s'
    by_cases hs : s' = s
    · subst hs; simp
    · exact Function.update_of_ne hs (em s ++ [e]) em ▸ List.prefix_rfl
  have htake : ∀ s', (Function.update em s (em s ++ [e]) s').take (m.multiBuffer.next s')
      = (em s').take (m.multiBuffer.next s') := by
    intro s'
    obtain ⟨t, ht⟩ := hpre s'
    rw [← ht]
    exact List.take_append_of_le_length (h.tracks s').released
  -- the new id is not in the log, so no logged event changes its source
  have hsame : ∀ s', ∀ x ∈ m.eventLog ++ m.draining.filter isLogged,
      fromSource (Function.update em s (em s ++ [e]) s') x = fromSource (em s') x := by
    intro s' x hx
    have hx' : x ∈ m.eventLog ++ m.draining := by
      rcases List.mem_append.mp hx with hx | hx
      · exact List.mem_append_left _ hx
      · exact List.mem_append_right _ (List.mem_of_mem_filter hx)
    obtain ⟨t, ht⟩ := h.origins x hx'
    obtain ⟨y, hy, hyx⟩ := List.mem_map.mp (of_decide_eq_true ht)
    have hne : x.eventId ≠ e.eventId := hyx ▸ hfresh t y hy
    by_cases hs : s' = s
    · subst hs
      simp [fromSource, hne]
    · rw [Function.update_of_ne hs]
  refine ⟨h.quiet, h.tracks.extend hpre, h.state, ?_, ?_⟩
  · intro s'
    rw [htake, ← h.order s', List.filter_congr (hsame s')]
  · intro x hx
    obtain ⟨t, ht⟩ := h.origins x hx
    refine ⟨t, ?_⟩
    obtain ⟨y, hy, hyx⟩ := List.mem_map.mp (of_decide_eq_true ht)
    simpa [fromSource] using ⟨y, (hpre t).subset hy, hyx⟩

/-- **A replayed range carries the log's own events at their own indices.** -/
theorem Master.replay_true {sinceIdx : Nat} {g : GlobalForwarderEvent}
    (hg : g ∈ m.replay sinceIdx) : m.eventLog[g.originIdx]? = some g.event := by
  obtain ⟨⟨e, i⟩, hp, rfl⟩ := List.mem_map.mp hg
  obtain ⟨hle, hget⟩ := List.mk_mem_zipIdx_iff_le_and_getElem?_sub.mp hp
  rw [readRange, List.getElem?_drop, List.getElem?_take] at hget
  split at hget
  · rwa [show sinceIdx + (i - sinceIdx) = i by omega] at hget
  · cases hget

end Exo
