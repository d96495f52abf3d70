import Exo.Routing.Indexing
import Exo.Routing.Pipeline

/-!
# Agreement of the event pipeline

Whatever the network does, every consumer of every node is handed a prefix of the
master's log, and the log holds the events of every source in order. The chain is
short: what a source sends is what it emitted at that index, whether it is sent
for the first time or again; so the master only ever buffers true events; so what
it broadcasts or replays is its log; so every router only ever buffers the log.
-/

namespace Exo

open Lib

/-- A local event carries what its origin emitted at its index. -/
def Faithful (em : SystemId → List Event) (f : LocalForwarderEvent) : Prop :=
  (em f.origin)[f.originIdx]? = some f.event

/-- A message in flight carries what its sender has at that index. -/
def Message.Holds (em : SystemId → List Event) (log : List Event) : Message → Prop
  | .localEvent f => Faithful em f
  | .globalEvent g => log[g.originIdx]? = some g.event
  | .requestEventLog _ => True

/-- What a router keeps to send again is faithful. -/
structure RouterHolds (em : SystemId → List Event) (r : EventRouter) : Prop where
  /-- What waits for the master's echo. -/
  waiting : ∀ id t f, r.outForDelivery.get? id = some (t, f) → Faithful em f
  /-- The snapshot the retry loop is walking over. -/
  snapshot : ∀ e ∈ r.retrying, Faithful em e.2.2

namespace World

/-- What ties the parts of the pipeline together. -/
structure PipeInv (w : World) : Prop where
  /-- Messages in flight are true. -/
  net : ∀ m ∈ w.net, m.Holds w.emitted w.master.eventLog
  /-- What routers keep is faithful. -/
  held : ∀ n, RouterHolds w.emitted (w.routers n)
  /-- What was sent and not yet recorded is faithful. -/
  unrecorded : ∀ s n g f, w.ingests s = some (n, g) → g.unrecorded = some f →
    Faithful w.emitted f
  /-- Every router is at a place in the log. -/
  routers : ∀ n, RouterInv w.master.eventLog (w.routers n)
  /-- The master is at a place in what the sources emitted. -/
  master : MasterInv w.emitted w.master
  /-- No two emitted events share an id. -/
  distinct : Distinct w.emitted
  /-- Every id in use was drawn. -/
  drawn : ∀ s, ∀ e ∈ w.emitted s, e.eventId ∈ w.drawn

end World

section Extend

variable {em em' : SystemId → List Event} {log log' : List Event}

theorem Faithful.extend {f : LocalForwarderEvent} (h : Faithful em f)
    (hp : ∀ s, em s <+: em' s) : Faithful em' f :=
  getElem?_extended (hp f.origin) h

theorem Message.Holds.extend {m : Message} (h : m.Holds em log) (he : ∀ s, em s <+: em' s)
    (hl : log <+: log') : m.Holds em' log' := by
  cases m with
  | localEvent f => exact Faithful.extend h he
  | globalEvent g => exact getElem?_extended hl h
  | requestEventLog i => trivial

theorem RouterHolds.extend {r : EventRouter} (h : RouterHolds em r)
    (hp : ∀ s, em s <+: em' s) : RouterHolds em' r where
  waiting := fun id t f hf => (h.waiting id t f hf).extend hp
  snapshot := fun e he => (h.snapshot e he).extend hp

end Extend

section RouterHolds

variable {em : SystemId → List Event} {r r' : EventRouter}

/-- A change that keeps both tables keeps the invariant. -/
theorem RouterHolds.congr (h : RouterHolds em r) (ho : r'.outForDelivery = r.outForDelivery)
    (hr : r'.retrying = r.retrying) : RouterHolds em r' where
  waiting := ho ▸ h.waiting
  snapshot := hr ▸ h.snapshot

theorem RouterHolds.record (h : RouterHolds em r) {f : LocalForwarderEvent} (hf : Faithful em f)
    (id : EventId) (now : Time) :
    RouterHolds em { r with outForDelivery := r.outForDelivery.set id (now, f) } where
  waiting := by
    intro id' t f' hf'
    rw [Dict.get?_set] at hf'
    split at hf'
    · cases hf'; exact hf
    · exact h.waiting id' t f' hf'
  snapshot := h.snapshot

theorem RouterHolds.erase (h : RouterHolds em r) (id : EventId) :
    RouterHolds em { r with outForDelivery := r.outForDelivery.erase id } where
  waiting := by
    intro id' t f hf
    rw [Dict.get?_erase] at hf
    split at hf
    · cases hf
    · exact h.waiting id' t f hf
  snapshot := h.snapshot

/-- Receiving an event at most forgets one that was waiting for it. -/
theorem RouterHolds.receive (h : RouterHolds em r) (g : GlobalForwarderEvent) :
    RouterHolds em (r.receive g) := by
  unfold EventRouter.receive
  split
  · exact h
  · split
    · exact h
    · split
      · exact h.congr rfl rfl
      · rename_i buf _
        have he := h.erase g.event.eventId
        dsimp only
        split
        · split
          · exact he.congr rfl rfl
          · exact he.congr rfl rfl
        · exact he.congr rfl rfl

theorem RouterHolds.handOut (h : RouterHolds em r) (hr : r.handOut = some r') :
    RouterHolds em r' := by
  unfold EventRouter.handOut at hr
  split at hr
  · cases hr
  · split at hr
    all_goals
      obtain rfl := Option.some.inj hr
      exact h.congr rfl rfl

variable {out : Option LocalForwarderEvent}

/-- The retry loop resends what it kept, and keeps it. -/
theorem RouterHolds.retryNext (h : RouterHolds em r) {now : Time}
    (hr : r.retryNext now = some (r', out)) :
    RouterHolds em r' ∧ ∀ f, out = some f → Faithful em f := by
  unfold EventRouter.retryNext at hr
  split at hr
  · cases hr
  · rename_i eId time f rest hret
    have hf : Faithful em f := h.snapshot (eId, time, f) (by simp [hret])
    have hrest : ∀ e ∈ rest, Faithful em e.2.2 := fun e he => h.snapshot e (by simp [hret, he])
    split at hr
    · obtain ⟨rfl, rfl⟩ := Prod.mk.inj (Option.some.inj hr)
      refine ⟨⟨(h.record hf eId now).waiting, hrest⟩, ?_⟩
      rintro f' ⟨⟩
      exact hf
    · obtain ⟨rfl, rfl⟩ := Prod.mk.inj (Option.some.inj hr)
      exact ⟨⟨h.waiting, hrest⟩, by simp⟩

/-- The retry loop never touches the buffer or the consumers. -/
theorem RouterInv.retryNext {log : List Event} (h : RouterInv log r) {now : Time}
    (hr : r.retryNext now = some (r', out)) :
    RouterInv log r' := by
  unfold EventRouter.retryNext at hr
  split at hr
  · cases hr
  · split at hr
    all_goals
      obtain ⟨rfl, -⟩ := Prod.mk.inj (Option.some.inj hr)
      exact h.congr rfl rfl rfl rfl rfl

end RouterHolds

namespace World

variable {w w' : World}

/-! ## What the small changes keep -/

theorem PipeInv.setNet (h : PipeInv w) {net : Multiset Message}
    (hn : ∀ m ∈ net, m.Holds w.emitted w.master.eventLog) : PipeInv { w with net := net } :=
  ⟨hn, h.held, h.unrecorded, h.routers, h.master, h.distinct, h.drawn⟩

theorem PipeInv.send (h : PipeInv w) {m : Message} (hm : m.Holds w.emitted w.master.eventLog) :
    PipeInv (w.send m) := by
  refine h.setNet ?_
  intro m' hm'
  rcases Multiset.mem_cons.mp hm' with rfl | hm'
  · exact hm
  · exact h.net m' hm'

theorem PipeInv.erase (h : PipeInv w) (m : Message) :
    PipeInv { w with net := w.net.erase m } :=
  h.setNet fun m' hm' => h.net m' (Multiset.mem_of_mem_erase hm')

variable {n : Nat}

theorem PipeInv.setRouter (h : PipeInv w) {r : EventRouter}
    (hr : RouterInv w.master.eventLog r) (hh : RouterHolds w.emitted r) :
    PipeInv (w.setRouter n r) := by
  refine ⟨h.net, ?_, h.unrecorded, ?_, h.master, h.distinct, h.drawn⟩
  · intro n'
    rw [emitted_setRouter, routers_setRouter]
    split
    · exact hh
    · exact h.held n'
  · intro n'
    rw [routers_setRouter]
    split
    · exact hr
    · exact h.routers n'

variable {s : SystemId}

/-- An `_ingest` coroutine moves on without its source emitting anything. -/
theorem PipeInv.setIngest (h : PipeInv w) {g : Ingest}
    (he : g.emitted = w.emitted s) (hu : ∀ f, g.unrecorded = some f → Faithful w.emitted f) :
    PipeInv (w.setIngest s n g) := by
  have hem : (w.setIngest s n g).emitted = w.emitted := by
    rw [emitted_setIngest, he, Function.update_eq_self]
  refine ⟨?_, ?_, ?_, h.routers, ?_, ?_, ?_⟩
  · rw [hem]; exact h.net
  · rw [hem]; exact h.held
  · rw [hem]
    intro s' n' g' f hg hf
    rw [ingests_setIngest] at hg
    split at hg
    · cases hg
      exact hu f hf
    · exact h.unrecorded s' n' g' f hg hf
  · rw [hem]; exact h.master
  · rw [hem]; exact h.distinct
  · rw [hem]; exact h.drawn

/-- The master moves on, its log growing at most. -/
theorem PipeInv.setMaster (h : PipeInv w) {m : Master} (hm : MasterInv w.emitted m)
    (hl : w.master.eventLog <+: m.eventLog) : PipeInv { w with master := m } where
  net := fun m' hm' => (h.net m' hm').extend (fun _ => List.prefix_rfl) hl
  held := h.held
  unrecorded := h.unrecorded
  routers := fun n => (h.routers n).extend hl
  master := hm
  distinct := h.distinct
  drawn := h.drawn

/-- An appended event with a new id keeps the ids apart. -/
theorem Distinct.snoc {em : SystemId → List Event} (h : Distinct em) {e : Event}
    (hfresh : ∀ s' e', e' ∈ em s' → e'.eventId ≠ e.eventId) :
    Distinct (Function.update em s (em s ++ [e])) := by
  have key : ∀ s' i x, (Function.update em s (em s ++ [e]) s')[i]? = some x →
      (em s')[i]? = some x ∨ (s' = s ∧ i = (em s).length ∧ x = e) := by
    intro s' i x hx
    by_cases hs : s' = s
    · subst hs
      rw [Function.update_self] at hx
      rcases getElem?_snoc_cases hx with hx | ⟨hi, he⟩
      · exact .inl hx
      · exact .inr ⟨rfl, hi, he⟩
    · rw [Function.update_of_ne hs] at hx; exact .inl hx
  intro s₁ s₂ i j e₁ e₂ h₁ h₂ hid
  rcases key s₁ i e₁ h₁ with h₁ | ⟨hs₁, hi, he₁⟩ <;>
    rcases key s₂ j e₂ h₂ with h₂ | ⟨hs₂, hj, he₂⟩
  · exact h s₁ s₂ i j e₁ e₂ h₁ h₂ hid
  · exact absurd (he₂ ▸ hid) (hfresh s₁ e₁ (List.mem_of_getElem? h₁))
  · exact absurd (he₁ ▸ hid.symm) (hfresh s₂ e₂ (List.mem_of_getElem? h₂))
  · exact ⟨hs₁.trans hs₂.symm, hi.trans hj.symm⟩

/-- **A source emits an event with a new id.** -/
theorem PipeInv.emit (h : PipeInv w) {g : Ingest} {e : Event}
    (hg : w.ingests s = some (n, g)) (hfresh : e.eventId ∉ w.drawn) :
    PipeInv { w.setIngest s n { g with emitted := g.emitted ++ [e] } with
      drawn := e.eventId :: w.drawn } := by
  have hs : w.emitted s = g.emitted := by simp [World.emitted, hg]
  have hem : World.emitted { w.setIngest s n { g with emitted := g.emitted ++ [e] } with
      drawn := e.eventId :: w.drawn } = Function.update w.emitted s (w.emitted s ++ [e]) := by
    rw [hs]
    exact emitted_setIngest w n s _
  have hnew : ∀ s' e', e' ∈ w.emitted s' → e'.eventId ≠ e.eventId := by
    intro s' e' he' hid
    exact hfresh (hid ▸ h.drawn s' e' he')
  have hpre : ∀ s', w.emitted s' <+: Function.update w.emitted s (w.emitted s ++ [e]) s' := by
    intro s'
    by_cases hss : s' = s
    · subst hss; simp
    · exact Function.update_of_ne hss (w.emitted s ++ [e]) w.emitted ▸ List.prefix_rfl
  refine ⟨?_, ?_, ?_, h.routers, ?_, ?_, ?_⟩
  · rw [hem]
    exact fun m hm => (h.net m hm).extend hpre List.prefix_rfl
  · rw [hem]
    exact fun n' => (h.held n').extend hpre
  · rw [hem]
    intro s' n' g' f hg' hf
    refine Faithful.extend ?_ hpre
    have hg' : (w.setIngest s n { g with emitted := g.emitted ++ [e] }).ingests s'
        = some (n', g') := hg'
    rw [ingests_setIngest] at hg'
    split at hg'
    · cases hg'
      exact h.unrecorded s n g f hg hf
    · exact h.unrecorded s' n' g' f hg' hf
  · rw [hem]
    exact h.master.emit hnew
  · rw [hem]
    exact Distinct.snoc h.distinct hnew
  · rw [hem]
    intro s' e' he'
    by_cases hss : s' = s
    · subst hss
      rw [Function.update_self] at he'
      rcases List.mem_append.mp he' with he' | he'
      · exact List.mem_cons_of_mem _ (h.drawn s' e' he')
      · rw [List.mem_singleton.mp he']; exact List.mem_cons_self
    · rw [Function.update_of_ne hss] at he'
      exact List.mem_cons_of_mem _ (h.drawn s' e' he')

/-! ## Every reachable world -/

variable {cfg : Config}

theorem pipeInv_init (cfg : Config) : PipeInv (init cfg) where
  net := fun m hm => by simp [init] at hm
  held := fun n => ⟨fun id t f hf => by simp [init] at hf, fun e he => by simp [init] at he⟩
  unrecorded := fun s n g f hg => by simp [init] at hg
  routers := by
    intro n
    refine ⟨rfl, OrderedBuffer.tracks_empty _, ?_⟩
    intro i c hc
    obtain rfl := (List.mem_replicate.mp (List.mem_of_getElem? hc)).2
    exact consumerInv_init _
  master := masterInv_init _ _ _
  distinct := fun s s' i j e e' he => by simp [World.emitted, init] at he
  drawn := fun s e he => by simp [World.emitted, init] at he

/-- A consumer of some router takes a step of its own. -/
theorem PipeInv.onConsumer (h : PipeInv w) {n i : Nat} {f : Consumer → Option Consumer}
    (hf : ∀ c c', f c = some c' → ∀ released remaining,
      ConsumerInv w.master.eventLog released remaining c →
      ConsumerInv w.master.eventLog released remaining c')
    (hw : w.onConsumer n i f = some w') : PipeInv w' := by
  unfold World.onConsumer at hw
  split at hw
  · cases hw
  · rename_i c hc
    obtain ⟨c', hc', rfl⟩ := Option.map_eq_some_iff.mp hw
    exact h.setRouter ((h.routers n).setConsumer hc (hf c c' hc')) ((h.held n).congr rfl rfl)

theorem PipeInv.ingestSend (h : PipeInv w) (hw : w.ingestSend s = some w') :
    PipeInv w' := by
  unfold World.ingestSend at hw
  split at hw
  · cases hw
  · rename_i n g hg
    split at hw
    · rename_i e hun he
      obtain rfl := Option.some.inj hw
      have hs : w.emitted s = g.emitted := by simp [World.emitted, hg]
      have hf : Faithful w.emitted
          { originIdx := g.idx, origin := s, session := (w.routers n).sessionId, event := e } := by
        unfold Faithful; rw [hs]; exact he
      have h' : PipeInv (w.setIngest s n { g with
          idx := g.idx + 1
          unrecorded := some
            { originIdx := g.idx, origin := s, session := (w.routers n).sessionId, event := e } }) :=
        h.setIngest hs.symm (by rintro f ⟨⟩; exact hf)
      refine h'.send ?_
      -- the coroutine moving on does not change what its source emitted
      show (World.emitted _ s)[g.idx]? = some e
      simpa [World.emitted, World.setIngest] using he
    · cases hw

theorem PipeInv.ingestRecord (h : PipeInv w) (hw : w.ingestRecord s = some w') :
    PipeInv w' := by
  unfold World.ingestRecord at hw
  split at hw
  · cases hw
  · rename_i n g hg
    split at hw
    · cases hw
    · rename_i f hun
      obtain rfl := Option.some.inj hw
      have hs : w.emitted s = g.emitted := by simp [World.emitted, hg]
      have h' : PipeInv (w.setRouter n { w.routers n with
          outForDelivery := (w.routers n).outForDelivery.set f.event.eventId (w.now, f) }) :=
        h.setRouter ((h.routers n).congr rfl rfl rfl rfl rfl)
          ((h.held n).record (h.unrecorded s n g f hg hun) _ _)
      exact h'.setIngest (g := { g with unrecorded := none }) hs.symm (by rintro f' ⟨⟩)

/-- **Every step keeps the pipeline together.** -/
theorem pipeInv_step (h : PipeInv w) {a : Action} (hs : step w a = some w') : PipeInv w' := by
  cases a <;> simp only [step] at hs
  case tick d =>
    obtain rfl := Option.some.inj hs
    exact ⟨h.net, h.held, h.unrecorded, h.routers, h.master, h.distinct, h.drawn⟩
  case lose m =>
    split at hs
    · obtain rfl := Option.some.inj hs; exact h.erase m
    · cases hs
  case duplicate m =>
    split at hs
    · rename_i hm; obtain rfl := Option.some.inj hs; exact h.send (h.net m hm)
    · cases hs
  case sender n s =>
    split at hs
    · cases hs
    · rename_i hnone
      obtain rfl := Option.some.inj hs
      exact h.setIngest (by simp [World.emitted, hnone]) (by rintro f ⟨⟩)
  case emit s e =>
    split at hs
    · cases hs
    · rename_i n g hg
      split at hs
      · cases hs
      · rename_i hfresh
        obtain rfl := Option.some.inj hs
        exact h.emit hg hfresh
  case ingestSend s => exact h.ingestSend hs
  case ingestRecord s => exact h.ingestRecord hs
  case retryStart n =>
    split at hs
    · obtain rfl := Option.some.inj hs
      refine h.setRouter ((h.routers n).congr rfl rfl rfl rfl rfl) ⟨(h.held n).waiting, ?_⟩
      intro e he
      obtain ⟨p, hp, rfl⟩ := List.mem_map.mp he
      exact (h.held n).waiting p.1 p.2.1 p.2.2 (Dict.mem_entries.1 hp)
    · cases hs
  case retryNext n =>
    split at hs
    · cases hs
    · rename_i r hr
      obtain rfl := Option.some.inj hs
      exact h.setRouter ((h.routers n).retryNext hr) ((h.held n).retryNext hr).1
    · rename_i r f hr
      obtain rfl := Option.some.inj hs
      obtain ⟨hheld, hf⟩ := (h.held n).retryNext hr
      exact (h.setRouter ((h.routers n).retryNext hr) hheld).send (hf f rfl)
  case receiveGlobal n g =>
    split at hs
    · rename_i hg
      obtain rfl := Option.some.inj hs
      exact (h.erase _).setRouter ((h.routers n).receive (h.net _ hg.1) hg.2.2)
        ((h.held n).receive g)
    · cases hs
  case handOut n =>
    obtain ⟨r, hr, rfl⟩ := Option.map_eq_some_iff.mp hs
    exact h.setRouter ((h.routers n).handOut hr) ((h.held n).handOut hr)
  case nackEnter n k =>
    split at hs
    · obtain rfl := Option.some.inj hs
      exact h.setRouter ((h.routers n).congr rfl rfl rfl rfl rfl) ((h.held n).congr rfl rfl)
    · cases hs
  case nackFire n k =>
    split at hs
    · obtain rfl := Option.some.inj hs
      have h' : PipeInv (w.setRouter n ((w.routers n).nackExit k.id)) :=
        h.setRouter ((h.routers n).congr rfl rfl rfl rfl rfl) ((h.held n).congr rfl rfl)
      exact h'.send trivial
    · cases hs
  case nackCancelled n k =>
    split at hs
    · obtain rfl := Option.some.inj hs
      exact h.setRouter ((h.routers n).congr rfl rfl rfl rfl rfl) ((h.held n).congr rfl rfl)
    · cases hs
  case close n i =>
    refine h.onConsumer ?_ hs
    rintro c c' ⟨⟩ released remaining hc
    exact ⟨hc.attached, hc.prefixed, hc.state, hc.quiet⟩
  case consume n i =>
    exact h.onConsumer (fun c c' hcc released remaining hc => hc.consume hcc) hs
  case masterReceive f =>
    split at hs
    · rename_i hf
      obtain rfl := Option.some.inj hs
      have hr := h.master.receive h.distinct (h.net _ hf.1) hf.2.2
      refine (h.erase (.localEvent f)).setMaster hr ?_
      exact Master.receive_eventLog w.master f ▸ List.prefix_rfl
    · cases hs
  case masterIndex =>
    split at hs
    · cases hs
    · split at hs
      · cases hs
      · rename_i m hm
        obtain rfl := Option.some.inj hs
        obtain ⟨hinv, hlog, -⟩ := h.master.index hm
        exact h.setMaster hinv hlog
      · rename_i m g hm
        obtain rfl := Option.some.inj hs
        obtain ⟨hinv, hlog, hg⟩ := h.master.index hm
        exact (h.setMaster hinv hlog).send (hg g rfl)
  case masterReplay sinceIdx =>
    split at hs
    · obtain rfl := Option.some.inj hs
      refine h.setNet ?_
      intro m hm
      rcases Multiset.mem_add.mp hm with hm | hm
      · exact h.net m (Multiset.mem_of_mem_erase hm)
      · obtain ⟨g, hg, rfl⟩ := List.mem_map.mp (Multiset.mem_coe.mp hm)
        exact Master.replay_true hg
    · cases hs

theorem pipeInv_reachable (h : (machine cfg).Reachable w) : PipeInv w :=
  h.invariant (P := PipeInv) (pipeInv_init cfg) fun _ _ _ hw hs => pipeInv_step hw hs

/-! ## Agreement -/

/-- The master logs no event twice. -/
theorem PipeInv.log_nodup (h : PipeInv w) : (w.master.eventLog.map Event.eventId).Nodup := by
  -- each source's part of the log repeats no id, because the source does not
  have hpart : ∀ s, ((w.master.eventLog.filter (fromSource (w.emitted s))).map
      Event.eventId).Nodup := by
    intro s
    have hsub : ((w.master.eventLog.filter (fromSource (w.emitted s))).map Event.eventId).Sublist
        ((w.emitted s).map Event.eventId) := by
      have hp := (h.master.logged_start s).map Event.eventId
      simp only [List.map_map, Function.comp_def, Event.unstamped, Event.stamp_eventId] at hp
      exact hp.sublist.trans (List.filter_sublist.map _)
    exact (h.distinct.nodup_ids s).sublist hsub
  rw [List.Nodup, List.pairwise_map, List.pairwise_iff_forall_sublist]
  intro a b hab hid
  -- two logged events with one id come from the same source
  obtain ⟨s, hs⟩ := h.master.origins a (List.mem_append_left _ (hab.subset (by simp)))
  have hb : fromSource (w.emitted s) b = true := by rwa [fromSource, ← hid]
  have hf := (hab.filter (fromSource (w.emitted s))).map Event.eventId
  rw [List.filter_cons_of_pos hs, List.filter_cons_of_pos hb] at hf
  have := (hpart s).sublist hf
  simp [hid] at this

/-- What the pipeline promises of a world. -/
structure Agreement (w : World) : Prop where
  /-- Every consumer of every router is handed a prefix of the numbered log. -/
  handed : ∀ n (i : Nat) c, (w.routers n).internalOutbound[i]? = some c →
    c.handed <+: indexed w.master.eventLog
  /-- A source's part of the log is a prefix of what it emitted, traces left out. -/
  ordered : ∀ s, (w.master.eventLog.filter (fromSource (w.emitted s))).map Event.unstamped
    <+: ((w.emitted s).filter isLogged).map Event.unstamped
  /-- Every logged event was emitted by some source. -/
  origins : ∀ e ∈ w.master.eventLog, ∃ s, fromSource (w.emitted s) e = true
  /-- No event is logged twice. -/
  once : (w.master.eventLog.map Event.eventId).Nodup
  /-- No assertion fails on the master. -/
  masterQuiet : w.master.raised = false
  /-- No assertion fails in a router's buffer. -/
  routerQuiet : ∀ n, (w.routers n).raised = false
  /-- No assertion fails in a consumer. -/
  consumerQuiet : ∀ n (i : Nat) c, (w.routers n).internalOutbound[i]? = some c → c.raised = false
  /-- The master's state is the fold of its log. -/
  masterState : w.master.state = replayed w.master.eventLog
  /-- A consumer's state is the fold of the part of the log it has applied. -/
  consumerState : ∀ n (i : Nat) c, (w.routers n).internalOutbound[i]? = some c →
    c.state = replayed (w.master.eventLog.take c.applied.length)

/-- **The pipeline agrees with itself in every reachable world.** -/
theorem pipeline_agreement {cfg : Config} {w : World} (h : (machine cfg).Reachable w) :
    Agreement w := by
  have hw := pipeInv_reachable h
  exact
    { handed := fun n i c hc => ((hw.routers n).consumers i c hc).prefix_log
      ordered := hw.master.logged_start
      origins := fun e he => hw.master.origins e (List.mem_append_left _ he)
      once := hw.log_nodup
      masterQuiet := hw.master.quiet
      routerQuiet := fun n => (hw.routers n).quiet
      consumerQuiet := fun n i c hc => ((hw.routers n).consumers i c hc).quiet
      masterState := hw.master.state
      consumerState := fun n i c hc => by
        have hci := (hw.routers n).consumers i c hc
        rw [hci.state, hci.applied_eq] }

/-- One event travels from node 2 to the master and back, and is sent twice on the way. -/
def roundTrip : List Action :=
  let e : Event := ⟨9, .taskDeleted 5⟩
  let f : LocalForwarderEvent := ⟨0, 7, ⟨1, 3⟩, e⟩
  [.sender 2 7, .emit 7 e, .ingestSend 7, .ingestRecord 7, .duplicate (.localEvent f),
    .masterReceive f, .masterIndex, .masterReceive f, .receiveGlobal 2 ⟨0, 1, ⟨1, 3⟩, e⟩,
    .handOut 2, .consume 2 0]

theorem pipeline_agreement_roundTrip :
    ∃ w, (machine ⟨⟨1, 3⟩, fun _ => 1⟩).run (init ⟨⟨1, 3⟩, fun _ => 1⟩) roundTrip = some w
      ∧ w.master.eventLog = [⟨9, .taskDeleted 5⟩]
      ∧ (w.routers 2).internalOutbound.map (fun c => c.applied.length) = [1]
      ∧ Agreement w := by
  have hrun : ((machine ⟨⟨1, 3⟩, fun _ => 1⟩).run (init ⟨⟨1, 3⟩, fun _ => 1⟩) roundTrip).map
      (fun w => (w.master.eventLog, (w.routers 2).internalOutbound.map fun c => c.applied.length))
      = some ([⟨9, .taskDeleted 5⟩], [1]) := rfl
  obtain ⟨w, hw, hsees⟩ := Option.map_eq_some_iff.mp hrun
  obtain ⟨hlog, happlied⟩ := Prod.mk.inj hsees
  exact ⟨w, hw, hlog, happlied, pipeline_agreement (Machine.reachable_of_run hw)⟩

end World

end Exo
