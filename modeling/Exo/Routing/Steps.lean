import Exo.Routing.Agreement

/-!
# What a step of the pipeline does

A step is about one router, one `_ingest` or the master. `World.Moves` says which part of them
moves; what it leaves out, such as the negative acknowledgements and the hand-out to the
consumers, plays no part in what is kept for another delivery.
-/

namespace Exo

open Lib

/-- Two routers with the same buffer and the same tables. -/
structure EventRouter.SameTables (r r' : EventRouter) : Prop where
  buf : r'.buf = r.buf
  outForDelivery : r'.outForDelivery = r.outForDelivery
  retrying : r'.retrying = r.retrying
  sessionId : r'.sessionId = r.sessionId

theorem EventRouter.SameTables.refl (r : EventRouter) : r.SameTables r := ⟨rfl, rfl, rfl, rfl⟩

namespace World

/-- Every step of the pipeline, by what it does to what is kept. -/
inductive Moves (w : World) (a : Action) (w' : World) : Prop where
  /-- Nothing that is kept moves. -/
  | quiet (hr : ∀ n, (w.routers n).SameTables (w'.routers n)) (hi : w'.ingests = w.ingests)
      (hm : w'.master = w.master)
  | opened (n : Nat) (s : SystemId) (hnone : w.ingests s = none) (he : w' = w.setIngest s n {})
  | emitted (n : Nat) (s : SystemId) (g : Ingest) (e : Event) (hg : w.ingests s = some (n, g))
      (hfresh : e.eventId ∉ w.drawn)
      (he : w' = { w.setIngest s n { g with emitted := g.emitted ++ [e] } with
        drawn := e.eventId :: w.drawn })
  | sent (n : Nat) (s : SystemId) (g : Ingest) (e : Event) (f : LocalForwarderEvent)
      (hg : w.ingests s = some (n, g)) (hun : g.unrecorded = none) (hnext : g.emitted[g.idx]? = some e)
      (hf : f = ⟨g.idx, s, (w.routers n).sessionId, e⟩)
      (he : w' = (w.setIngest s n { g with idx := g.idx + 1, unrecorded := some f }).send
        (.localEvent f))
  | recorded (n : Nat) (s : SystemId) (g : Ingest) (f : LocalForwarderEvent)
      (ha : a = .ingestRecord s) (hg : w.ingests s = some (n, g)) (hun : g.unrecorded = some f)
      (he : w' = (w.setIngest s n { g with unrecorded := none }).setRouter n
        { w.routers n with
          outForDelivery := (w.routers n).outForDelivery.set f.event.eventId (w.now, f) })
  | snapshotted (n : Nat)
      (he : w' = w.setRouter n { w.routers n with
        retrying := (w.routers n).outForDelivery.entries.map fun e => (e.1, e.2.1, e.2.2) })
  | retried (n : Nat) (r : EventRouter) (out : Option LocalForwarderEvent)
      (ha : a = .retryNext n) (hr : (w.routers n).retryNext w.now = some (r, out))
      (hrouters : w'.routers = (w.setRouter n r).routers) (hi : w'.ingests = w.ingests)
      (hm : w'.master = w.master)
  | received (n : Nat) (g : GlobalForwarderEvent) (ha : a = .receiveGlobal n g)
      (hg : .globalEvent g ∈ w.net) (hidle : (w.routers n).drained = [])
      (he : w' = { w with net := w.net.erase (.globalEvent g) }.setRouter n
        ((w.routers n).receive g))
  | taken (f : LocalForwarderEvent) (hf : .localEvent f ∈ w.net) (hidle : w.master.draining = [])
      (he : w' = { w with net := w.net.erase (.localEvent f), master := w.master.receive f })
  | indexed (m : Master) (out : Option GlobalForwarderEvent) (ha : a = .masterIndex)
      (hm : w.master.index w.now = some (m, out))
      (he : w' = { w with
        master := m
        net := (out.elim 0 fun g => {.globalEvent g}) + w.net })

theorem sameTables_setRouter {w : World} {n : Nat} {r : EventRouter}
    (h : (w.routers n).SameTables r) (n' : Nat) :
    (w.routers n').SameTables ((w.setRouter n r).routers n') := by
  rw [routers_setRouter]
  split
  · rename_i hn
    rw [hn]
    exact h
  · exact .refl _

theorem step_moves {w w' : World} {a : Action} (h : step w a = some w') : Moves w a w' := by
  have hsame : ∀ n, (w.routers n).SameTables (w.routers n) := fun n => .refl _
  cases a with
  | tick d =>
      obtain rfl := Option.some.inj h
      exact .quiet hsame rfl rfl
  | lose m | duplicate m | masterReplay sinceIdx =>
      simp only [step] at h
      split at h
      · obtain rfl := Option.some.inj h
        exact .quiet hsame rfl rfl
      · cases h
  | sender n s =>
      simp only [step] at h
      split at h
      · cases h
      · rename_i hnone
        exact .opened n s hnone (Option.some.inj h).symm
  | emit s e =>
      simp only [step] at h
      split at h
      · cases h
      · rename_i n g hg
        split at h
        · cases h
        · rename_i hfresh
          exact .emitted n s g e hg hfresh (Option.some.inj h).symm
  | ingestSend s =>
      simp only [step, ingestSend] at h
      split at h
      · cases h
      · rename_i n g hg
        split at h
        · rename_i e hun hnext
          exact .sent n s g e _ hg hun hnext rfl (Option.some.inj h).symm
        · cases h
  | ingestRecord s =>
      simp only [step, ingestRecord] at h
      split at h
      · cases h
      · rename_i n g hg
        split at h
        · cases h
        · rename_i f hun
          exact .recorded n s g f rfl hg hun (Option.some.inj h).symm
  | retryStart n =>
      simp only [step] at h
      split at h
      · exact .snapshotted n (Option.some.inj h).symm
      · cases h
  | retryNext n =>
      simp only [step] at h
      split at h
      · cases h
      · rename_i r hr
        obtain rfl := Option.some.inj h
        exact .retried n r none rfl hr rfl rfl rfl
      · rename_i r f hr
        obtain rfl := Option.some.inj h
        exact .retried n r (some f) rfl hr rfl rfl rfl
  | receiveGlobal n g =>
      simp only [step] at h
      split at h
      · rename_i hg
        exact .received n g rfl hg.1 hg.2.2 (Option.some.inj h).symm
      · cases h
  | handOut n =>
      obtain ⟨r, hr, rfl⟩ := Option.map_eq_some_iff.mp h
      refine .quiet (sameTables_setRouter ?_) rfl rfl
      unfold EventRouter.handOut at hr
      split at hr
      · cases hr
      · split at hr
        · obtain rfl := Option.some.inj hr
          exact ⟨rfl, rfl, rfl, rfl⟩
        · obtain rfl := Option.some.inj hr
          exact ⟨rfl, rfl, rfl, rfl⟩
  | nackEnter n k | nackFire n k | nackCancelled n k =>
      simp only [step] at h
      split at h
      · obtain rfl := Option.some.inj h
        exact .quiet (sameTables_setRouter ⟨rfl, rfl, rfl, rfl⟩) rfl rfl
      · cases h
  | close n i | consume n i =>
      simp only [step, onConsumer] at h
      split at h
      · cases h
      · obtain ⟨c', -, rfl⟩ := Option.map_eq_some_iff.mp h
        exact .quiet (sameTables_setRouter ⟨rfl, rfl, rfl, rfl⟩) rfl rfl
  | masterReceive f =>
      simp only [step] at h
      split at h
      · rename_i hf
        exact .taken f hf.1 hf.2.2 (Option.some.inj h).symm
      · cases h
  | masterIndex =>
      simp only [step] at h
      split at h
      · cases h
      · split at h
        · cases h
        · rename_i m hm
          obtain rfl := Option.some.inj h
          exact .indexed m none rfl hm (by simp)
        · rename_i m g hm
          obtain rfl := Option.some.inj h
          exact .indexed m (some g) rfl hm (by simp [World.send])

end World

end Exo
