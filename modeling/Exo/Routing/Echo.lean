import Exo.Routing.Steps

/-!
# What waits for its echo

An event is kept by the router that sent it until the master's echo of it comes back. The table
of a router is written to in two places, and an echo is the only thing that takes from it; so an
event that a source has sent is on its way into the table, or in it, or logged.
-/

namespace Exo

open Lib

/-- Everything that the router keeps, in the table or in its snapshot, is as it should be. -/
structure EventRouter.Keeps (P : EventId → LocalForwarderEvent → Prop) (r : EventRouter) : Prop where
  waiting : ∀ id t f, r.outForDelivery.get? id = some (t, f) → P id f
  snapshot : ∀ e ∈ r.retrying, P e.1 e.2.2

namespace EventRouter

variable {P : EventId → LocalForwarderEvent → Prop} {r r' : EventRouter}

theorem Keeps.congr (h : r.Keeps P) (hs : r.SameTables r') : r'.Keeps P where
  waiting := by
    rw [hs.outForDelivery]
    exact h.waiting
  snapshot := by
    rw [hs.retrying]
    exact h.snapshot

theorem Keeps.set (h : r.Keeps P) {id : EventId} {f : LocalForwarderEvent} (hf : P id f)
    (now : Time) : Keeps P { r with outForDelivery := r.outForDelivery.set id (now, f) } where
  waiting := by
    intro id' t f' hget
    rw [Dict.get?_set] at hget
    split at hget
    · rename_i hid
      obtain ⟨-, rfl⟩ := Prod.mk.inj (Option.some.inj hget)
      rw [hid]
      exact hf
    · exact h.waiting id' t f' hget
  snapshot := h.snapshot

variable {out : Option LocalForwarderEvent}

/-- What `_simple_retry` does with the next entry of its snapshot. -/
theorem retryNext_cases {now : Time}
    (h : r.retryNext now = some (r', out)) : ∃ id time f rest, r.retrying = (id, time, f) :: rest
      ∧ (now > time + retryAfter ∧ out = some f
          ∧ r' = { r with retrying := rest, outForDelivery := r.outForDelivery.set id (now, f) }
        ∨ ¬ now > time + retryAfter ∧ out = none ∧ r' = { r with retrying := rest }) := by
  unfold retryNext at h
  split at h
  · cases h
  · rename_i id time f rest hret
    split at h
    · rename_i hlate
      obtain ⟨rfl, rfl⟩ := Prod.mk.inj (Option.some.inj h)
      exact ⟨id, time, f, rest, hret, .inl ⟨hlate, rfl, rfl⟩⟩
    · rename_i hearly
      obtain ⟨rfl, rfl⟩ := Prod.mk.inj (Option.some.inj h)
      exact ⟨id, time, f, rest, hret, .inr ⟨hearly, rfl, rfl⟩⟩

theorem Keeps.retryNext (h : r.Keeps P) {now : Time}
    (hr : r.retryNext now = some (r', out)) : r'.Keeps P := by
  obtain ⟨id, time, f, rest, hret, hcase⟩ := retryNext_cases hr
  have hf : P id f := h.snapshot (id, time, f) (by rw [hret]; exact List.mem_cons_self)
  have hrest : ∀ e ∈ rest, P e.1 e.2.2 :=
    fun e he => h.snapshot e (by rw [hret]; exact List.mem_cons_of_mem _ he)
  rcases hcase with ⟨-, -, rfl⟩ | ⟨-, -, rfl⟩
  · exact ⟨(h.set hf now).waiting, hrest⟩
  · exact ⟨h.waiting, hrest⟩

/-- What receiving an event does to the buffer and the table. -/
theorem receive_cases (r : EventRouter) (g : GlobalForwarderEvent) :
    (r.receive g).sessionId = r.sessionId ∧ (r.receive g).retrying = r.retrying
      ∧ ((r.receive g).buf = r.buf ∧ (r.receive g).outForDelivery = r.outForDelivery
        ∨ ∃ buf, r.buf.ingest g.originIdx g.event = some buf
          ∧ (r.receive g).buf = buf.drainIndexed.2
          ∧ (r.receive g).outForDelivery = r.outForDelivery.erase g.event.eventId) := by
  unfold receive
  split
  · exact ⟨rfl, rfl, .inl ⟨rfl, rfl⟩⟩
  · split
    · exact ⟨rfl, rfl, .inl ⟨rfl, rfl⟩⟩
    · split
      · exact ⟨rfl, rfl, .inl ⟨rfl, rfl⟩⟩
      · rename_i buf hbuf
        dsimp only
        split
        · split
          · exact ⟨rfl, rfl, .inr ⟨buf, hbuf, rfl, rfl⟩⟩
          · exact ⟨rfl, rfl, .inr ⟨buf, hbuf, rfl, rfl⟩⟩
        · exact ⟨rfl, rfl, .inr ⟨buf, hbuf, rfl, rfl⟩⟩

theorem Keeps.receive (h : r.Keeps P) (g : GlobalForwarderEvent) : (r.receive g).Keeps P := by
  obtain ⟨-, hret, hcase⟩ := receive_cases r g
  refine ⟨fun id t f hget => ?_, by rw [hret]; exact h.snapshot⟩
  rcases hcase with ⟨-, hout⟩ | ⟨buf, -, -, hout⟩
  · rw [hout] at hget
    exact h.waiting id t f hget
  · rw [hout, Dict.get?_erase] at hget
    split at hget
    · cases hget
    · exact h.waiting id t f hget

theorem Keeps.snapshotted (h : r.Keeps P) :
    Keeps P { r with retrying := r.outForDelivery.entries.map fun e => (e.1, e.2.1, e.2.2) } where
  waiting := h.waiting
  snapshot := by
    intro e he
    obtain ⟨p, hp, rfl⟩ := List.mem_map.mp he
    exact h.waiting p.1 p.2.1 p.2.2 (Dict.mem_entries.1 hp)

end EventRouter

namespace World

variable {w w' : World} {a : Action} {P : EventId → LocalForwarderEvent → Prop}

variable {n : Nat}

theorem keeps_setRouter (h : ∀ n, (w.routers n).Keeps P) {r : EventRouter}
    (hr : r.Keeps P) (n' : Nat) : ((w.setRouter n r).routers n').Keeps P := by
  rw [routers_setRouter]
  split
  · exact hr
  · exact h n'

/-- **What is recorded is as it should be, then all that is kept is.** -/
theorem keeps_step (hm : Moves w a w') (h : ∀ n, (w.routers n).Keeps P)
    (hrec : ∀ n s g f, a = .ingestRecord s → w.ingests s = some (n, g) → g.unrecorded = some f →
      P f.event.eventId f) (n : Nat) : (w'.routers n).Keeps P := by
  cases hm with
  | quiet hr _ _ => exact (h n).congr (hr n)
  | opened n' s _ he => exact he ▸ h n
  | emitted n' s g e _ _ he => exact he ▸ h n
  | sent n' s g e f _ _ _ _ he => exact he ▸ h n
  | recorded n' s g f ha hg hun he =>
      rw [he]
      exact keeps_setRouter h ((h n').set (hrec n' s g f ha hg hun) w.now) n
  | snapshotted n' he =>
      rw [he]
      exact keeps_setRouter h (h n').snapshotted n
  | retried n' r out _ hr hrouters _ _ =>
      rw [hrouters]
      exact keeps_setRouter h ((h n').retryNext hr) n
  | received n' g _ _ _ he =>
      rw [he]
      exact keeps_setRouter (w := { w with net := w.net.erase (.globalEvent g) }) h
        ((h n').receive g) n
  | taken f _ _ he => exact he ▸ h n
  | indexed m out _ _ he => exact he ▸ h n

/-! ## What only grows -/

theorem emitted_step (hm : Moves w a w') (s : SystemId) : w.emitted s <+: w'.emitted s := by
  have hset : ∀ n s' g g', w.ingests s' = some (n, g) → g.emitted <+: g'.emitted →
      w.emitted s <+: (w.setIngest s' n g').emitted s := by
    intro n s' g g' hg hpre
    rw [emitted_setIngest]
    by_cases hs : s = s'
    · subst hs
      rw [Function.update_self]
      simpa [World.emitted, hg] using hpre
    · simp only [Function.update_of_ne hs, List.prefix_rfl]
  have hsame : w'.ingests = w.ingests → w.emitted s <+: w'.emitted s := by
    intro hi
    simp only [World.emitted, hi]
    exact List.prefix_rfl
  cases hm with
  | quiet _ hi _ => exact hsame hi
  | opened n s' hnone he =>
      rw [he, emitted_setIngest]
      by_cases hs : s = s'
      · subst hs
        simp [World.emitted, hnone]
      · simp only [Function.update_of_ne hs, List.prefix_rfl]
  | emitted n s' g e hg _ he => exact he ▸ hset n s' g _ hg (List.prefix_append _ _)
  | sent n s' g e f hg _ _ _ he
  | recorded n s' g f _ hg _ he => exact he ▸ hset n s' g _ hg List.prefix_rfl
  | snapshotted n he => exact hsame (he ▸ rfl)
  | retried n r out _ _ _ hi _ => exact hsame hi
  | received n g _ _ _ he => exact hsame (he ▸ rfl)
  | taken f _ _ he => exact hsame (he ▸ rfl)
  | indexed m out _ _ he => exact hsame (he ▸ rfl)

theorem log_step (hp : PipeInv w) (hm : Moves w a w') :
    w.master.eventLog <+: w'.master.eventLog := by
  cases hm with
  | quiet _ _ hm => exact hm ▸ List.prefix_rfl
  | opened n s _ he => exact he ▸ List.prefix_rfl
  | emitted n s g e _ _ he => exact he ▸ List.prefix_rfl
  | sent n s g e f _ _ _ _ he => exact he ▸ List.prefix_rfl
  | recorded n s g f _ _ _ he => exact he ▸ List.prefix_rfl
  | snapshotted n he => exact he ▸ List.prefix_rfl
  | retried n r out _ _ _ _ hm => exact hm ▸ List.prefix_rfl
  | received n g _ _ _ he => exact he ▸ List.prefix_rfl
  | taken f _ _ he =>
      rw [he]
      exact Master.receive_eventLog w.master f ▸ List.prefix_rfl
  | indexed m out _ hi he =>
      rw [he]
      exact (hp.master.index hi).2.1

/-- The event with this id is in the log. -/
def logs (w : World) (id : EventId) : Prop := ∃ x ∈ w.master.eventLog, x.eventId = id

variable {id : EventId}

theorem logs_step (hp : PipeInv w) (hm : Moves w a w') (h : w.logs id) :
    w'.logs id := by
  obtain ⟨x, hx, hid⟩ := h
  exact ⟨x, (log_step hp hm).subset hx, hid⟩

/-! ## What came back -/

/-- The node has received the echo of the event with this id. -/
def receivedBack (w : World) (n : Nat) (id : EventId) : Bool :=
  (enumerate w.master.eventLog).any fun p => (w.routers n).buf.Has p.1 ∧ p.2.eventId = id

theorem receivedBack_iff : w.receivedBack n id ↔
    ∃ i x, w.master.eventLog[i]? = some x ∧ (w.routers n).buf.Has i ∧ x.eventId = id := by
  simp only [receivedBack, List.any_eq_true, decide_eq_true_eq, Prod.exists, mem_enumerate]

theorem buf_setRouter {r : EventRouter} (h : r.buf = (w.routers n).buf) (n' : Nat) :
    ((w.setRouter n r).routers n').buf = (w.routers n').buf := by
  rw [routers_setRouter]
  split
  · rename_i hn
    rw [hn]
    exact h
  · rfl

/-- **A node receives one echo at a time, and keeps its event no longer.** -/
theorem receivedBack_step (hp : PipeInv w) (hm : Moves w a w')
    (h : w'.receivedBack n id) :
    w.receivedBack n id ∨ (w'.routers n).outForDelivery.get? id = none := by
  obtain ⟨i, x, hx, hhas, hid⟩ := receivedBack_iff.1 h
  -- an index that the buffer had before is one of the log before
  have hold : (w.routers n).buf.Has i → w.receivedBack n id := by
    intro hi
    have hy := List.getElem?_eq_getElem ((hp.routers n).tracks.has hi)
    have hyx := getElem?_extended (log_step hp hm) hy
    rw [hx] at hyx
    exact receivedBack_iff.2 ⟨i, _, hy, hi, by rw [← Option.some.inj hyx]; exact hid⟩
  have hsame : (w'.routers n).buf = (w.routers n).buf → w.receivedBack n id := fun hb =>
    hold (hb ▸ hhas)
  cases hm with
  | quiet hr _ _ => exact .inl (hsame (hr n).buf)
  | opened n' s _ he => exact .inl (hsame (he ▸ rfl))
  | emitted n' s g e _ _ he => exact .inl (hsame (he ▸ rfl))
  | sent n' s g e f _ _ _ _ he => exact .inl (hsame (he ▸ rfl))
  | recorded n' s g f _ _ _ he =>
      refine .inl (hsame ?_)
      rw [he]
      exact buf_setRouter (w := w.setIngest s n' { g with unrecorded := none }) (by rfl) n
  | snapshotted n' he =>
      refine .inl (hsame ?_)
      rw [he]
      exact buf_setRouter (by rfl) n
  | retried n' r out _ hr hrouters _ _ =>
      refine .inl (hsame ?_)
      rw [hrouters]
      obtain ⟨_, _, _, _, -, ⟨-, -, rfl⟩ | ⟨-, -, rfl⟩⟩ := EventRouter.retryNext_cases hr
      · exact buf_setRouter (by rfl) n
      · exact buf_setRouter (by rfl) n
  | received n' g _ hg _ he =>
      subst he
      rw [routers_setRouter] at hhas ⊢
      split at hhas
      · rename_i hn
        subst hn
        rw [if_pos rfl]
        obtain ⟨-, -, ⟨hbuf, -⟩ | ⟨buf, hbuf, hdrained, hout⟩⟩ :=
          EventRouter.receive_cases (w.routers n) g
        · exact .inl (hold (hbuf ▸ hhas))
        · rw [hdrained, OrderedBuffer.has_drainIndexed, OrderedBuffer.has_ingest hbuf] at hhas
          rcases hhas with hhas | rfl
          · exact .inl (hold hhas)
          · -- the event that came back is the one of the log, and its entry goes
            have hlog : w.master.eventLog[g.originIdx]? = some g.event := hp.net _ hg
            have hxg : some x = some g.event := hx.symm.trans hlog
            refine .inr ?_
            rw [hout, ← hid, Option.some.inj hxg, Dict.get?_erase_self]
      · exact .inl (hold hhas)
  | taken f _ _ he => exact .inl (hsame (he ▸ rfl))
  | indexed m out _ _ he => exact .inl (hsame (he ▸ rfl))

/-- What came back came back for good. -/
theorem receivedBack_mono (hp : PipeInv w) (hm : Moves w a w')
    (h : w.receivedBack n id) : w'.receivedBack n id := by
  obtain ⟨i, x, hx, hhas, hid⟩ := receivedBack_iff.1 h
  have hx' := getElem?_extended (log_step hp hm) hx
  have hgo : (w'.routers n).buf.Has i → w'.receivedBack n id :=
    fun hi => receivedBack_iff.2 ⟨i, x, hx', hi, hid⟩
  have hsame : (w'.routers n).buf = (w.routers n).buf → w'.receivedBack n id :=
    fun hb => hgo (hb ▸ hhas)
  cases hm with
  | quiet hr _ _ => exact hsame (hr n).buf
  | opened n' s _ he => exact hsame (he ▸ rfl)
  | emitted n' s g e _ _ he => exact hsame (he ▸ rfl)
  | sent n' s g e f _ _ _ _ he => exact hsame (he ▸ rfl)
  | recorded n' s g f _ _ _ he =>
      refine hsame ?_
      rw [he]
      exact buf_setRouter (w := w.setIngest s n' { g with unrecorded := none }) (by rfl) n
  | snapshotted n' he =>
      refine hsame ?_
      rw [he]
      exact buf_setRouter (by rfl) n
  | retried n' r out _ hr hrouters _ _ =>
      refine hsame ?_
      rw [hrouters]
      obtain ⟨_, _, _, _, -, ⟨-, -, rfl⟩ | ⟨-, -, rfl⟩⟩ := EventRouter.retryNext_cases hr
      · exact buf_setRouter (by rfl) n
      · exact buf_setRouter (by rfl) n
  | received n' g _ _ _ he =>
      refine hgo ?_
      rw [he, routers_setRouter]
      split
      · rename_i hn
        subst hn
        obtain ⟨-, -, ⟨hbuf, -⟩ | ⟨buf, hbuf, hdrained, -⟩⟩ :=
          EventRouter.receive_cases (w.routers n) g
        · exact hbuf ▸ hhas
        · rw [hdrained, OrderedBuffer.has_drainIndexed, OrderedBuffer.has_ingest hbuf]
          exact .inl hhas
      · exact hhas
  | taken f _ _ he => exact hsame (he ▸ rfl)
  | indexed m out _ _ he => exact hsame (he ▸ rfl)

/-! ## What was sent -/

/-- The router of the node keeps the event with this id. -/
def waits (w : World) (n : Nat) (id : EventId) : Prop :=
  ((w.routers n).outForDelivery.get? id).isSome

/-- Only an echo takes an entry away. -/
theorem waits_step (hp : PipeInv w) (hm : Moves w a w')
    (h : w.waits n id) : w'.waits n id ∨ w'.logs id := by
  have hset : ∀ (n' : Nat) (r : EventRouter),
      (∀ id, ((w.routers n').outForDelivery.get? id).isSome → (r.outForDelivery.get? id).isSome) →
      (((w.setRouter n' r).routers n).outForDelivery.get? id).isSome := by
    intro n' r hkeeps
    rw [routers_setRouter]
    split
    · rename_i hn
      exact hkeeps id (hn ▸ h)
    · exact h
  have hadd : ∀ (d : Dict EventId (Time × LocalForwarderEvent)) (k : EventId)
      (v : Time × LocalForwarderEvent) (id : EventId), (d.get? id).isSome →
      ((d.set k v).get? id).isSome := by
    intro d k v id hd
    rw [Dict.get?_set]
    split
    · rfl
    · exact hd
  unfold waits
  cases hm with
  | quiet hr _ _ => exact .inl ((hr n).outForDelivery ▸ h)
  | opened n' s _ he => exact .inl (he ▸ h)
  | emitted n' s g e _ _ he => exact .inl (he ▸ h)
  | sent n' s g e f _ _ _ _ he => exact .inl (he ▸ h)
  | recorded n' s g f _ _ _ he =>
      subst he
      exact .inl (hset n' _ (hadd _ _ _))
  | snapshotted n' he =>
      subst he
      exact .inl (hset n' _ fun _ h => h)
  | retried n' r out _ hr hrouters _ _ =>
      rw [hrouters]
      obtain ⟨_, _, _, _, -, ⟨-, -, rfl⟩ | ⟨-, -, rfl⟩⟩ := EventRouter.retryNext_cases hr
      · exact .inl (hset n' _ (hadd _ _ _))
      · exact .inl (hset n' _ fun _ h => h)
  | received n' g _ hg _ he =>
      subst he
      obtain ⟨-, -, ⟨-, hout⟩ | ⟨buf, -, -, hout⟩⟩ := EventRouter.receive_cases (w.routers n') g
      · exact .inl (hset n' _ fun _ h => hout ▸ h)
      · by_cases hid : id = g.event.eventId
        · exact .inr ⟨g.event, List.mem_of_getElem? (hp.net _ hg), hid.symm⟩
        · refine .inl ?_
          show (((w.setRouter n' _).routers n).outForDelivery.get? id).isSome
          rw [routers_setRouter]
          split
          · rename_i hn
            rw [hout, Dict.get?_erase_ne _ hid, ← hn]
            exact h
          · exact h
  | taken f _ _ he => exact .inl (he ▸ h)
  | indexed m out _ _ he => exact .inl (he ▸ h)

/-- **Where an entry comes from.** -/
theorem waits_origin (hm : Moves w a w') (h : w'.waits n id) :
    w.waits n id
      ∨ (∃ s g f, a = .ingestRecord s ∧ w.ingests s = some (n, g) ∧ g.unrecorded = some f
        ∧ f.event.eventId = id)
      ∨ ∃ t f rest, a = .retryNext n ∧ (w.routers n).retrying = (id, t, f) :: rest
        ∧ w.now > t + EventRouter.retryAfter := by
  have hset : ∀ (n' : Nat) (r : EventRouter),
      (((w.setRouter n' r).routers n).outForDelivery.get? id).isSome →
      ((w.routers n).outForDelivery.get? id).isSome
        ∨ n = n' ∧ (r.outForDelivery.get? id).isSome := by
    intro n' r hr
    rw [routers_setRouter] at hr
    split at hr
    · rename_i hn
      exact .inr ⟨hn, hr⟩
    · exact .inl hr
  unfold waits at h ⊢
  cases hm with
  | quiet hr _ _ => exact .inl ((hr n).outForDelivery ▸ h)
  | opened n' s _ he =>
      subst he
      exact .inl h
  | emitted n' s g e _ _ he =>
      subst he
      exact .inl h
  | sent n' s g e f _ _ _ _ he =>
      subst he
      exact .inl h
  | recorded n' s g f ha hg hun he =>
      subst he
      rcases hset n' _ h with hold | ⟨rfl, hnew⟩
      · exact .inl hold
      · rw [Dict.get?_set] at hnew
        split at hnew
        · rename_i hid
          exact .inr (.inl ⟨s, g, f, ha, hg, hun, hid.symm⟩)
        · exact .inl hnew
  | snapshotted n' he =>
      subst he
      rcases hset n' _ h with hold | ⟨rfl, hnew⟩
      · exact .inl hold
      · exact .inl hnew
  | retried n' r out ha hr hrouters _ _ =>
      rw [hrouters] at h
      obtain ⟨id', t, f, rest, hret, ⟨hlate, -, rfl⟩ | ⟨-, -, rfl⟩⟩ :=
        EventRouter.retryNext_cases hr
      · rcases hset n' _ h with hold | ⟨rfl, hnew⟩
        · exact .inl hold
        · rw [Dict.get?_set] at hnew
          split at hnew
          · rename_i hid
            exact .inr (.inr ⟨t, f, rest, ha, hid ▸ hret, hlate⟩)
          · exact .inl hnew
      · rcases hset n' _ h with hold | ⟨rfl, hnew⟩
        · exact .inl hold
        · exact .inl hnew
  | received n' g _ _ _ he =>
      subst he
      rcases hset n' _ h with hold | ⟨rfl, hnew⟩
      · exact .inl hold
      · obtain ⟨-, -, ⟨-, hout⟩ | ⟨buf, -, -, hout⟩⟩ := EventRouter.receive_cases (w.routers n) g
        · exact .inl (hout ▸ hnew)
        · rw [hout, Dict.get?_erase] at hnew
          split at hnew
          · cases hnew
          · exact .inl hnew
  | taken f _ _ he =>
      subst he
      exact .inl h
  | indexed m out _ _ he =>
      subst he
      exact .inl h

/-- What became of the events a source has sent. -/
structure IngestHolds (w : World) (n : Nat) (g : Ingest) : Prop where
  bounded : g.idx ≤ g.emitted.length
  kept : ∀ i e, i < g.idx → g.emitted[i]? = some e →
    (∃ f, g.unrecorded = some f ∧ f.event = e) ∨ w.waits n e.eventId ∨ w.logs e.eventId

theorem ingestHolds_step (hp : PipeInv w) (hm : Moves w a w')
    (h : ∀ s n g, w.ingests s = some (n, g) → IngestHolds w n g) (s : SystemId) (n : Nat)
    (g : Ingest) (hg : w'.ingests s = some (n, g)) : IngestHolds w' n g := by
  have hgo : ∀ {id}, w.waits n id ∨ w.logs id → w'.waits n id ∨ w'.logs id := by
    rintro id (hw | hl)
    · exact waits_step hp hm hw
    · exact .inr (logs_step hp hm hl)
  have hsame : w.ingests s = some (n, g) → IngestHolds w' n g := fun hold =>
    ⟨(h s n g hold).bounded, fun i e hi he => ((h s n g hold).kept i e hi he).imp_right hgo⟩
  cases hm with
  | quiet _ hi _ => exact hsame (hi ▸ hg)
  | opened n' s' hnone he =>
      subst he
      rw [ingests_setIngest] at hg
      split at hg
      · obtain ⟨rfl, rfl⟩ := Prod.mk.inj (Option.some.inj hg)
        exact ⟨Nat.le_refl _, fun i e hi => absurd hi (Nat.not_lt_zero i)⟩
      · exact hsame hg
  | emitted n' s' g' e' hg' _ he =>
      subst he
      have hg : (w.setIngest s' n' { g' with emitted := g'.emitted ++ [e'] }).ingests s
          = some (n, g) := hg
      rw [ingests_setIngest] at hg
      split at hg
      · obtain ⟨rfl, rfl⟩ := Prod.mk.inj (Option.some.inj hg)
        obtain ⟨hb, hk⟩ := h s' n' g' hg'
        refine ⟨by simp; omega, fun i e hi he => ?_⟩
        have hi : i < g'.idx := hi
        rcases getElem?_snoc_cases he with he | ⟨rfl, -⟩
        · exact (hk i e hi he).imp_right hgo
        · omega
      · exact hsame hg
  | sent n' s' g' e' f hg' hun hnext hf he =>
      subst he
      have hg : (w.setIngest s' n' { g' with idx := g'.idx + 1, unrecorded := some f }).ingests s
          = some (n, g) := hg
      rw [ingests_setIngest] at hg
      split at hg
      · obtain ⟨rfl, rfl⟩ := Prod.mk.inj (Option.some.inj hg)
        obtain ⟨-, hk⟩ := h s' n' g' hg'
        refine ⟨(List.getElem?_eq_some_iff.mp hnext).1, fun i e hi he => ?_⟩
        have hi : i < g'.idx + 1 := hi
        by_cases hlast : i = g'.idx
        · subst hlast
          refine .inl ⟨f, rfl, ?_⟩
          rw [hf]
          exact Option.some.inj (hnext.symm.trans he)
        · rcases hk i e (by omega) he with ⟨f', hf', -⟩ | hk
          · rw [hun] at hf'
            cases hf'
          · exact .inr (hgo hk)
      · exact hsame hg
  | recorded n' s' g' f _ hg' hun he =>
      subst he
      have hg : (w.setIngest s' n' { g' with unrecorded := none }).ingests s = some (n, g) := hg
      rw [ingests_setIngest] at hg
      split at hg
      · obtain ⟨rfl, rfl⟩ := Prod.mk.inj (Option.some.inj hg)
        obtain ⟨hb, hk⟩ := h s' n' g' hg'
        refine ⟨hb, fun i e hi he => ?_⟩
        rcases hk i e hi he with ⟨f', hf', rfl⟩ | hk
        · -- the entry is written now
          obtain rfl := Option.some.inj (hun.symm.trans hf')
          refine .inr (.inl ?_)
          rw [waits, routers_setRouter, if_pos rfl]
          show (((w.routers n').outForDelivery.set f.event.eventId (w.now, f)).get?
            f.event.eventId).isSome
          rw [Dict.get?_set_self]
          rfl
        · exact .inr (hgo hk)
      · exact hsame hg
  | snapshotted n' he =>
      subst he
      exact hsame hg
  | retried n' r out _ _ _ hi _ => exact hsame (hi ▸ hg)
  | received n' g' _ _ _ he =>
      subst he
      exact hsame hg
  | taken f _ _ he =>
      subst he
      exact hsame hg
  | indexed m out _ _ he =>
      subst he
      exact hsame hg

/-! ## The session -/

/-- The entry is under the id of its event, and is of the session. -/
def Addressed (cfg : Config) (id : EventId) (f : LocalForwarderEvent) : Prop :=
  f.event.eventId = id ∧ f.session = cfg.sessionId

/-- What holds of the books of a pipeline. -/
structure BooksInv (cfg : Config) (w : World) : Prop where
  pipe : PipeInv w
  master : w.master.sessionId = cfg.sessionId
  nodeId : w.master.nodeId = cfg.sessionId.masterNodeId
  routers : ∀ n, (w.routers n).sessionId = cfg.sessionId
  unrecorded : ∀ s n g f, w.ingests s = some (n, g) → g.unrecorded = some f →
    f.session = cfg.sessionId
  kept : ∀ n, (w.routers n).Keeps (Addressed cfg)
  ingests : ∀ s n g, w.ingests s = some (n, g) → IngestHolds w n g
  draining : DrainInv w.emitted w.master

theorem drainInv_step (hp : PipeInv w) (hm : Moves w a w') (h : DrainInv w.emitted w.master) :
    DrainInv w'.emitted w'.master := by
  have hset : ∀ s n g, g.emitted = w.emitted s → (w.setIngest s n g).emitted = w.emitted := by
    intro s n g hg
    rw [emitted_setIngest, hg, Function.update_eq_self]
  have hsame : w'.emitted = w.emitted → w'.master = w.master → DrainInv w'.emitted w'.master := by
    intro he hm
    rw [he, hm]
    exact h
  have hown : ∀ s n g, w.ingests s = some (n, g) → g.emitted = w.emitted s := by
    intro s n g hg
    simp [World.emitted, hg]
  cases hm with
  | quiet _ hi hm
  | retried n r out _ _ _ hi hm => exact hsame (by funext s; simp only [World.emitted, hi]) hm
  | opened n s hnone he =>
      subst he
      exact hsame (hset s n {} (by simp [World.emitted, hnone])) rfl
  | emitted n s g e hg hfresh he =>
      subst he
      have hem : (w.setIngest s n { g with emitted := g.emitted ++ [e] }).emitted
          = Function.update w.emitted s (w.emitted s ++ [e]) := by
        rw [emitted_setIngest, hown s n g hg]
      have hnew : ∀ s' e', e' ∈ w.emitted s' → e'.eventId ≠ e.eventId :=
        fun s' e' he' hid => hfresh (hid ▸ hp.drawn s' e' he')
      show DrainInv (w.setIngest s n _).emitted w.master
      rw [hem]
      exact h.emit hp.master hnew
  | sent n s g e f hg _ _ _ he | recorded n s g f _ hg _ he =>
      subst he
      exact hsame (hset s n _ (hown s n g hg)) rfl
  | snapshotted n he | received n g _ _ _ he =>
      subst he
      exact hsame rfl rfl
  | taken f hf _ he =>
      subst he
      exact h.receive hp.master hp.distinct (hp.net _ hf)
  | indexed m out _ hi he =>
      subst he
      exact h.index hp.master hi

theorem sessionId_step (hm : Moves w a w') (n : Nat) :
    (w'.routers n).sessionId = (w.routers n).sessionId := by
  have hset : ∀ (n' : Nat) (r : EventRouter), r.sessionId = (w.routers n').sessionId →
      ((w.setRouter n' r).routers n).sessionId = (w.routers n).sessionId := by
    intro n' r hr
    rw [routers_setRouter]
    split
    · rename_i hn
      rw [hn]
      exact hr
    · rfl
  cases hm with
  | quiet hr _ _ => exact (hr n).sessionId
  | opened n' s _ he => exact he ▸ rfl
  | emitted n' s g e _ _ he => exact he ▸ rfl
  | sent n' s g e f _ _ _ _ he => exact he ▸ rfl
  | recorded n' s g f _ _ _ he => exact he ▸ hset n' _ rfl
  | snapshotted n' he => exact he ▸ hset n' _ rfl
  | retried n' r out _ hr hrouters _ _ =>
      rw [hrouters]
      obtain ⟨_, _, _, _, -, ⟨-, -, rfl⟩ | ⟨-, -, rfl⟩⟩ := EventRouter.retryNext_cases hr
      · exact hset n' _ rfl
      · exact hset n' _ rfl
  | received n' g _ _ _ he =>
      exact he ▸ hset n' _ (EventRouter.receive_cases (w.routers n') g).1
  | taken f _ _ he => exact he ▸ rfl
  | indexed m out _ _ he => exact he ▸ rfl

theorem master_ids_step (hm : Moves w a w') :
    w'.master.sessionId = w.master.sessionId ∧ w'.master.nodeId = w.master.nodeId := by
  cases hm with
  | quiet _ _ hm => exact hm ▸ ⟨rfl, rfl⟩
  | opened n s _ he => exact he ▸ ⟨rfl, rfl⟩
  | emitted n s g e _ _ he => exact he ▸ ⟨rfl, rfl⟩
  | sent n s g e f _ _ _ _ he => exact he ▸ ⟨rfl, rfl⟩
  | recorded n s g f _ _ _ he => exact he ▸ ⟨rfl, rfl⟩
  | snapshotted n he => exact he ▸ ⟨rfl, rfl⟩
  | retried n r out _ _ _ _ hm => exact hm ▸ ⟨rfl, rfl⟩
  | received n g _ _ _ he => exact he ▸ ⟨rfl, rfl⟩
  | taken f _ _ he =>
      subst he
      exact Master.receive_ids w.master f
  | indexed m out _ hi he =>
      subst he
      exact Master.index_ids hi

/-- What waits to be recorded was sent under the session id of its router. -/
theorem unrecorded_step (hm : Moves w a w') {sessionId : SessionId}
    (hr : ∀ n, (w.routers n).sessionId = sessionId)
    (h : ∀ s n g f, w.ingests s = some (n, g) → g.unrecorded = some f → f.session = sessionId)
    (s : SystemId) (n : Nat) (g : Ingest) (f : LocalForwarderEvent)
    (hg : w'.ingests s = some (n, g)) (hf : g.unrecorded = some f) : f.session = sessionId := by
  have hset : ∀ s' n' g', (∀ f, g'.unrecorded = some f → f.session = sessionId) →
      (w.setIngest s' n' g').ingests s = some (n, g) → f.session = sessionId := by
    intro s' n' g' hg' hget
    rw [ingests_setIngest] at hget
    split at hget
    · obtain ⟨-, rfl⟩ := Prod.mk.inj (Option.some.inj hget)
      exact hg' f hf
    · exact h s n g f hget hf
  cases hm with
  | quiet _ hi _ => exact h s n g f (hi ▸ hg) hf
  | opened n' s' _ he =>
      subst he
      exact hset s' n' {} (fun _ hf => by cases hf) hg
  | emitted n' s' g' e hg' _ he =>
      subst he
      exact hset s' n' { g' with emitted := g'.emitted ++ [e] }
        (fun f' hf' => h s' n' g' f' hg' hf') hg
  | sent n' s' g' e f' _ _ _ hf' he =>
      subst he
      refine hset s' n' _ (fun f'' hf'' => ?_) hg
      rw [← Option.some.inj hf'', hf']
      exact hr n'
  | recorded n' s' g' f' _ _ _ he =>
      subst he
      exact hset s' n' _ (fun _ hf => by cases hf) hg
  | snapshotted n' he | received n' g' _ _ _ he | taken f' _ _ he | indexed m out _ _ he =>
      subst he
      exact h s n g f hg hf
  | retried n' r out _ _ _ hi _ => exact h s n g f (hi ▸ hg) hf

variable {cfg : Config}

theorem booksInv_init (cfg : Config) : BooksInv cfg (init cfg) where
  pipe := pipeInv_init cfg
  master := rfl
  nodeId := rfl
  routers := fun _ => rfl
  unrecorded := fun s n g f hg => by cases hg
  kept := fun n => ⟨fun id t f hget => (by cases hget), fun e he => (by cases he)⟩
  ingests := fun s n g hg => by cases hg
  draining := fun s => ⟨0, by simp [init, MultiSourceBuffer.next]⟩

theorem booksInv_step (h : BooksInv cfg w) (hs : step w a = some w') : BooksInv cfg w' := by
  have hm := step_moves hs
  exact {
    pipe := pipeInv_step h.pipe hs
    master := (master_ids_step hm).1.trans h.master
    nodeId := (master_ids_step hm).2.trans h.nodeId
    routers := fun n => (sessionId_step hm n).trans (h.routers n)
    unrecorded := unrecorded_step hm h.routers h.unrecorded
    kept := keeps_step hm h.kept fun n s g f _ hg hf => ⟨rfl, h.unrecorded s n g f hg hf⟩
    ingests := ingestHolds_step h.pipe hm h.ingests
    draining := drainInv_step h.pipe hm h.draining }

theorem booksInv_reachable (h : (machine cfg).Reachable w) : BooksInv cfg w :=
  h.invariant (P := BooksInv cfg) (booksInv_init cfg) fun _ _ _ hi hs => booksInv_step hi hs

end World

end Exo
