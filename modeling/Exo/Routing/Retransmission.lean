import Exo.Routing.Progress

/-!
# Nothing is sent again forever

A router sends an event again until its echo comes, so an entry must go away some time: the
master has to log what it released, and the echo must find the entry in the table.

Three things get in the way. The master keeps a trace to itself, so no echo of it comes. The
entry is written after the event was sent, and the echo can be faster. And the retry loop walks
over a snapshot, and writes an entry back that an echo has removed since. `World.retires` is
what keeps clear of them, and a run whose entries can all go away does so at each step.
-/

namespace Exo

open Lib

namespace World

/-- An event is sent again for a reason, and not forever, after a run. -/
structure Retirable (cfg : Config) (as : List Action) (w : World) : Prop where
  /-- What the master has released is logged, or the loop over it is yet to come to it. -/
  logged : ∀ s i e, (w.emitted s)[i]? = some e → i < w.master.multiBuffer.next s →
    ∃ x ∈ w.master.eventLog ++ w.master.draining, x.eventId = e.eventId
  /-- What is logged was broadcast. -/
  broadcast : ∀ i x, w.master.eventLog[i]? = some x → ∃ as' w', as' <+: as
    ∧ (machine cfg).run (init cfg) as' = some w'
    ∧ .globalEvent ⟨i, cfg.sessionId.masterNodeId, cfg.sessionId, x⟩ ∈ w'.net
  /-- A node waits for no echo that it has received. -/
  awaited : ∀ n id, w.waits n id → w.receivedBack n id = false
  /-- It waits for no event that the master can never log. -/
  indexable : ∀ n id, w.waits n id → (machine cfg).CanReach w fun w' => w'.logs id

/--
The steps that leave no entry behind: no trace is recorded, and none consumed by the master;
no entry is written for an event whose echo has come.
-/
def retires (w : World) : Action → Bool
  | .ingestRecord s =>
      (w.ingests s).all fun p => p.2.unrecorded.all fun f =>
        isLogged f.event && !w.receivedBack p.1 f.event.eventId
  | .retryNext n =>
      (w.routers n).retrying.head?.all fun e =>
        !(decide (w.now > e.2.1 + EventRouter.retryAfter) && w.receivedBack n e.1)
  | .masterIndex => w.master.draining.head?.all isLogged
  | _ => true

variable {cfg : Config} {w w' : World} {a : Action} {as : List Action}

/-- An event that is logged is broadcast at once. -/
theorem log_cases (h : BooksInv cfg w) (hm : Moves w a w') :
    w'.master.eventLog = w.master.eventLog
      ∨ ∃ x, w'.master.eventLog = w.master.eventLog ++ [x] ∧ .globalEvent
        ⟨w.master.eventLog.length, cfg.sessionId.masterNodeId, cfg.sessionId, x⟩ ∈ w'.net := by
  cases hm with
  | quiet _ _ hm => exact .inl (hm ▸ rfl)
  | opened n s _ he => exact .inl (he ▸ rfl)
  | emitted n s g e _ _ he => exact .inl (he ▸ rfl)
  | sent n s g e f _ _ _ _ he => exact .inl (he ▸ rfl)
  | recorded n s g f _ _ _ he => exact .inl (he ▸ rfl)
  | snapshotted n he => exact .inl (he ▸ rfl)
  | retried n r out _ _ _ _ hm => exact .inl (hm ▸ rfl)
  | received n g _ _ _ he => exact .inl (he ▸ rfl)
  | taken f _ _ he =>
      subst he
      exact .inl (Master.receive_eventLog w.master f)
  | indexed m out _ hi he =>
      subst he
      obtain ⟨e, rest, -, -, -, ⟨-, hlog, -⟩ | ⟨-, hlog, rfl⟩⟩ := h.pipe.master.index_cases hi
      · exact .inl hlog
      · refine .inr ⟨e.stamp w.now, hlog, ?_⟩
        have hglobal : w.master.global w.master.eventLog.length (e.stamp w.now)
            = ⟨w.master.eventLog.length, cfg.sessionId.masterNodeId, cfg.sessionId,
              e.stamp w.now⟩ := by
          rw [Master.global, h.nodeId, h.master]
        rw [← hglobal]
        exact Multiset.mem_add.mpr (.inl (Multiset.mem_singleton_self _))

/-- Everything that was logged was broadcast when it was. -/
theorem broadcast_of_run (hr : (machine cfg).run (init cfg) as = some w) {i : Nat} {x : Event}
    (hx : w.master.eventLog[i]? = some x) : ∃ as' w', as' <+: as
      ∧ (machine cfg).run (init cfg) as' = some w'
      ∧ .globalEvent ⟨i, cfg.sessionId.masterNodeId, cfg.sessionId, x⟩ ∈ w'.net := by
  induction as using List.reverseRecOn generalizing w with
  | nil =>
      obtain rfl := Option.some.inj hr
      cases hx
  | append_singleton as a ih =>
      obtain ⟨v, hv, hs⟩ := Machine.run_snoc.1 hr
      have hbooks := booksInv_reachable (Machine.reachable_of_run hv)
      have hbefore : v.master.eventLog[i]? = some x → ∃ as' w', as' <+: as ++ [a]
          ∧ (machine cfg).run (init cfg) as' = some w'
          ∧ .globalEvent ⟨i, cfg.sessionId.masterNodeId, cfg.sessionId, x⟩ ∈ w'.net := by
        intro hold
        obtain ⟨as', w', hpre, hrun, hmem⟩ := ih hv hold
        exact ⟨as', w', hpre.trans (List.prefix_append _ _), hrun, hmem⟩
      rcases log_cases hbooks (step_moves hs) with hlog | ⟨y, hlog, hmem⟩
      · exact hbefore (hlog ▸ hx)
      · rw [hlog] at hx
        rcases getElem?_snoc_cases hx with hold | ⟨rfl, rfl⟩
        · exact hbefore hold
        · exact ⟨as ++ [a], w, List.prefix_rfl, hr, hmem⟩

/-! ## Runs that keep clear -/

/-- What the steps that leave no entry behind keep. -/
structure RetireInv (cfg : Config) (w : World) : Prop where
  books : BooksInv cfg w
  kept : ∀ n, (w.routers n).Keeps fun _ f => isLogged f.event
  awaited : ∀ n id, w.waits n id → w.receivedBack n id = false
  logged : ∀ s i e, (w.emitted s)[i]? = some e → i < w.master.multiBuffer.next s →
    ∃ x ∈ w.master.eventLog ++ w.master.draining, x.eventId = e.eventId

theorem logged_step (h : RetireInv cfg w) (hm : Moves w a w') (hok : w.retires a) (s : SystemId)
    (i : Nat) (e : Event) (he : (w'.emitted s)[i]? = some e)
    (hi : i < w'.master.multiBuffer.next s) :
    ∃ x ∈ w'.master.eventLog ++ w'.master.draining, x.eventId = e.eventId := by
  have hp := h.books.pipe
  -- what was released before was emitted before
  have hold : i < w.master.multiBuffer.next s →
      ∃ x ∈ w.master.eventLog ++ w.master.draining, x.eventId = e.eventId := by
    intro hlt
    have hlen := Nat.lt_of_lt_of_le hlt (hp.master.tracks s).released
    have hget := List.getElem?_eq_getElem hlen
    have hsame := getElem?_extended (emitted_step hm s) hget
    rw [he] at hsame
    rw [← Option.some.inj hsame] at hget
    exact h.logged s i e hget hlt
  have hsame : w'.master = w.master →
      ∃ x ∈ w'.master.eventLog ++ w'.master.draining, x.eventId = e.eventId := by
    intro hmaster
    rw [hmaster] at hi ⊢
    exact hold hi
  cases hm with
  | quiet _ _ hm => exact hsame hm
  | opened n s' _ he' => exact hsame (he' ▸ rfl)
  | emitted n s' g e' _ _ he' => exact hsame (he' ▸ rfl)
  | sent n s' g e' f _ _ _ _ he' => exact hsame (he' ▸ rfl)
  | recorded n s' g f _ _ _ he' => exact hsame (he' ▸ rfl)
  | snapshotted n he' => exact hsame (he' ▸ rfl)
  | retried n r out _ _ _ _ hm => exact hsame hm
  | received n g _ _ _ he' => exact hsame (he' ▸ rfl)
  | taken f hf hidle he' =>
      subst he'
      rcases hp.master.drained_of_released hp.distinct (hp.net _ hf) he hi with hlt | hmem
      · obtain ⟨x, hx, hid⟩ := hold hlt
        rw [hidle, List.append_nil] at hx
        refine ⟨x, List.mem_append_left _ ?_, hid⟩
        rw [Master.receive_eventLog]
        exact hx
      · exact ⟨e, List.mem_append_right _ hmem, rfl⟩
  | indexed m out ha hindex he' =>
      subst he'
      obtain ⟨e', rest, hdr, hdr', hbuf, hcase⟩ := hp.master.index_cases hindex
      obtain ⟨x, hx, hid⟩ := hold (hbuf ▸ hi)
      rw [ha] at hok
      simp only [retires, hdr, List.head?_cons, Option.all_some] at hok
      rcases hcase with ⟨htrace, -⟩ | ⟨-, hlog, -⟩
      · rw [hok] at htrace
        cases htrace
      · show ∃ x ∈ m.eventLog ++ m.draining, x.eventId = e.eventId
        rw [hlog, hdr']
        rw [hdr] at hx
        rcases List.mem_append.mp hx with hx | hx
        · exact ⟨x, by simp [hx], hid⟩
        · rcases List.mem_cons.mp hx with rfl | hx
          · exact ⟨x.stamp w.now, by simp, by simpa using hid⟩
          · exact ⟨x, by simp [hx], hid⟩

theorem awaited_step (h : RetireInv cfg w) (hm : Moves w a w') (hok : w.retires a) (n : Nat)
    (id : EventId) (hw : w'.waits n id) : w'.receivedBack n id = false := by
  cases hback : w'.receivedBack n id with
  | false => rfl
  | true =>
      rcases receivedBack_step h.books.pipe hm hback with hback | hnone
      · rcases waits_origin hm hw with hold | ⟨s, g, f, rfl, hg, hun, rfl⟩
          | ⟨t, f, rest, rfl, hret, hlate⟩
        · rw [h.awaited n id hold] at hback
          cases hback
        · simp [retires, hg, hun, hback] at hok
        · simp only [retires, hret, List.head?_cons, Option.all_some, hback, hlate] at hok
          cases hok
      · rw [waits, hnone] at hw
        cases hw

theorem retireInv_init (cfg : Config) : RetireInv cfg (init cfg) where
  books := booksInv_init cfg
  kept := fun n => ⟨fun id t f hget => (by cases hget), fun e he => (by cases he)⟩
  awaited := fun n id hw => (by cases hw)
  logged := fun s i e he => (by cases he)

theorem retireInv_step (h : RetireInv cfg w) (hok : w.retires a) (hs : step w a = some w') :
    RetireInv cfg w' := by
  have hm := step_moves hs
  refine ⟨booksInv_step h.books hs, keeps_step hm h.kept ?_, awaited_step h hm hok,
    logged_step h hm hok⟩
  rintro n s g f rfl hg hun
  simp only [retires, hg, hun, Option.all_some, Bool.and_eq_true] at hok
  exact hok.1

theorem RetireInv.retirable (h : RetireInv cfg w)
    (hr : (machine cfg).run (init cfg) as = some w) : Retirable cfg as w where
  logged := h.logged
  broadcast := fun i x hx => broadcast_of_run hr hx
  awaited := h.awaited
  indexable := by
    intro n id hw
    obtain ⟨⟨t, f⟩, hget⟩ := Option.isSome_iff_exists.mp hw
    have hid := ((h.books.kept n).waiting id t f hget).1
    have hfaithful := (h.books.pipe.held n).waiting id t f hget
    rw [← hid]
    exact canReach_logs h.books hfaithful ((h.kept n).waiting id t f hget)

/-! ## Runs that do not -/

/-- **A step that leaves an entry behind leaves a world with one.** -/
theorem not_retirable (h : BooksInv cfg w) (hs : step w a = some w') (hbad : w.retires a = false)
    : ¬ Retirable cfg as w' := by
  intro hret
  have hm := step_moves hs
  have hbooks := booksInv_step h hs
  cases a with
  | ingestRecord s =>
      -- the entry is written, and its event is a trace or came back already
      obtain ⟨n, g, f, hg, hun, hbad⟩ : ∃ n g f, w.ingests s = some (n, g) ∧ g.unrecorded = some f
          ∧ (isLogged f.event && !w.receivedBack n f.event.eventId) = false := by
        cases hg : w.ingests s with
        | none => simp [retires, hg] at hbad
        | some p =>
            cases hun : p.2.unrecorded with
            | none => simp [retires, hg, hun] at hbad
            | some f => exact ⟨p.1, p.2, f, rfl, hun, by simpa [retires, hg, hun] using hbad⟩
      obtain rfl : w' = (w.setIngest s n { g with unrecorded := none }).setRouter n
          { w.routers n with
            outForDelivery := (w.routers n).outForDelivery.set f.event.eventId (w.now, f) } := by
        simp only [step, ingestRecord, hg, hun, Option.some.injEq] at hs
        exact hs.symm
      have hwaits : World.waits ((w.setIngest s n { g with unrecorded := none }).setRouter n
          { w.routers n with
            outForDelivery := (w.routers n).outForDelivery.set f.event.eventId (w.now, f) })
          n f.event.eventId := by
        rw [waits, routers_setRouter, if_pos rfl]
        show (((w.routers n).outForDelivery.set f.event.eventId (w.now, f)).get?
          f.event.eventId).isSome
        rw [Dict.get?_set_self]
        rfl
      cases hl : isLogged f.event with
      | false =>
          obtain ⟨bs, u, hrun, hlogs⟩ := hret.indexable n f.event.eventId hwaits
          obtain ⟨hu, hgrows⟩ := grows_run hbooks hrun
          have hem := getElem?_extended ((emitted_step hm f.origin).trans (hgrows.emitted f.origin))
            (h.pipe.unrecorded s n g f hg hun)
          exact not_logs_of_trace hu hem hl hlogs
      | true =>
          rw [hl, Bool.true_and, Bool.not_eq_false'] at hbad
          have hawaits := hret.awaited n f.event.eventId hwaits
          rw [receivedBack_mono h.pipe hm hbad] at hawaits
          cases hawaits
  | retryNext n =>
      -- the entry is written back after it was removed
      obtain ⟨id, t, f, rest, hretry, hlate, hback⟩ : ∃ id t f rest,
          (w.routers n).retrying = (id, t, f) :: rest ∧ w.now > t + EventRouter.retryAfter
          ∧ w.receivedBack n id := by
        cases hretry : (w.routers n).retrying with
        | nil => simp [retires, hretry] at hbad
        | cons e rest =>
            obtain ⟨id, t, f⟩ := e
            simp only [retires, hretry, List.head?_cons, Option.all_some, Bool.not_eq_false',
              Bool.and_eq_true, decide_eq_true_eq] at hbad
            exact ⟨id, t, f, rest, rfl, hbad.1, hbad.2⟩
      rw [step_retryNext_late hretry hlate] at hs
      obtain rfl := Option.some.inj hs
      have hwaits : World.waits ((w.setRouter n { w.routers n with
          retrying := rest
          outForDelivery := (w.routers n).outForDelivery.set id (w.now, f) }).send (.localEvent f))
          n id := by
        show (((w.setRouter n _).routers n).outForDelivery.get? id).isSome
        rw [routers_setRouter, if_pos rfl]
        show (((w.routers n).outForDelivery.set id (w.now, f)).get? id).isSome
        rw [Dict.get?_set_self]
        rfl
      have hawaits := hret.awaited n id hwaits
      rw [receivedBack_mono h.pipe hm hback] at hawaits
      cases hawaits
  | masterIndex =>
      obtain ⟨e, rest, hdr, htrace⟩ : ∃ e rest, w.master.draining = e :: rest
          ∧ isLogged e = false := by
        cases hdr : w.master.draining with
        | nil => simp [retires, hdr] at hbad
        | cons e rest => exact ⟨e, rest, rfl, by simpa [retires, hdr] using hbad⟩
      obtain ⟨m, out, hi, hrest⟩ := h.pipe.master.index_next hdr w.now
      obtain ⟨e', rest', hdr', -, hbuf, hcase⟩ := h.pipe.master.index_cases hi
      obtain ⟨rfl, rfl⟩ := List.cons.inj (hdr.symm.trans hdr')
      have hlog : m.eventLog = w.master.eventLog := by
        rcases hcase with ⟨-, hlog, -⟩ | ⟨hl, -⟩
        · exact hlog
        · rw [htrace] at hl
          cases hl
      have hm' : w'.master = m := by
        simp only [step, h.pipe.master.quiet, hi] at hs
        cases out with
        | none => exact (Option.some.inj hs) ▸ rfl
        | some g => exact (Option.some.inj hs) ▸ rfl
      -- the trace was released, and is neither logged nor about to be
      obtain ⟨⟨s, i, he, hlt⟩, hrest'⟩ := h.draining.head h.pipe.master h.pipe.distinct hdr
      obtain ⟨x, hx, hid⟩ := hret.logged s i e (getElem?_extended (emitted_step hm s) he)
        (by rw [hm', hbuf]; exact hlt)
      rw [hm', hlog, hrest] at hx
      rcases List.mem_append.mp hx with hx | hx
      · exact not_logs_of_trace h he htrace ⟨x, hx, hid⟩
      · exact hrest' x hx hid
  | _ => cases hbad

/--
**Nothing is sent again forever along a run, at any of its steps, if and only if the run records
and consumes no trace, and writes no entry for an event whose echo has come.**
-/
theorem nothing_stuck (cfg : Config) {as : List Action} {w : World}
    (hr : (machine cfg).run (init cfg) as = some w) :
    (∀ as' w', as' <+: as → (machine cfg).run (init cfg) as' = some w' → Retirable cfg as' w')
      ↔ (machine cfg).runWhen (fun w a => w.retires a) (init cfg) as = some w := by
  rw [Machine.runWhen_eq_some]
  constructor
  · intro hall
    refine ⟨hr, fun k a t hk ht => ?_⟩
    cases hok : t.retires a with
    | true => rfl
    | false =>
        -- the step is taken, and what it leaves is not retirable
        have hbooks := booksInv_reachable (Machine.reachable_of_run ht)
        obtain ⟨t', hs, hrun⟩ : ∃ t', step t a = some t'
            ∧ (machine cfg).run (init cfg) (as.take (k + 1)) = some t' := by
          have htake : as.take (k + 1) = as.take k ++ [a] := take_succ_of_getElem? hk
          have hsplit := hr
          rw [← List.take_append_drop (k + 1) as, Machine.run_append] at hsplit
          obtain ⟨t', ht', -⟩ := Option.bind_eq_some_iff.mp hsplit
          refine ⟨t', ?_, ht'⟩
          obtain ⟨u, hu, hs⟩ := Machine.run_snoc.mp (htake ▸ ht')
          rw [ht] at hu
          exact Option.some.inj hu ▸ hs
        exact absurd (hall _ t' (List.take_prefix _ _) hrun) (not_retirable hbooks hs hok)
  · rintro ⟨-, hall⟩ as' w' hpre hrun
    have hpart : (machine cfg).runWhen (fun w a => w.retires a) (init cfg) as' = some w' := by
      refine Machine.runWhen_eq_some.mpr ⟨hrun, fun k a t hk ht => ?_⟩
      have hlt := (List.getElem?_eq_some_iff.mp hk).1
      refine hall k a t (getElem?_extended hpre hk) ?_
      rw [← ht]
      congr 1
      obtain ⟨rest, rfl⟩ := hpre
      exact List.take_append_of_le_length (by omega)
    have hinv := (Machine.reachableWhen_of_run hpart).invariant (P := RetireInv cfg)
      (retireInv_init cfg) fun _ _ _ hi hok hs => retireInv_step hi hok hs
    exact hinv.retirable hrun

/-- The event that travels to the master and back leaves nothing behind. -/
theorem nothing_stuck_roundTrip :
    ∃ w, (machine ⟨⟨1, 3⟩, fun _ => 1⟩).run (init ⟨⟨1, 3⟩, fun _ => 1⟩) roundTrip = some w
      ∧ Retirable ⟨⟨1, 3⟩, fun _ => 1⟩ roundTrip w := by
  have hrun : ((machine ⟨⟨1, 3⟩, fun _ => 1⟩).runWhen (fun w a => w.retires a)
      (init ⟨⟨1, 3⟩, fun _ => 1⟩) roundTrip).isSome := rfl
  obtain ⟨w, hw⟩ := Option.isSome_iff_exists.mp hrun
  have hr := (Machine.runWhen_eq_some.mp hw).1
  exact ⟨w, hr, (nothing_stuck _ hr).mpr hw _ w List.prefix_rfl hr⟩

/-- A trace is sent, recorded and received by the master, which consumes it. -/
def consumedTrace : List Action :=
  let e : Event := ⟨9, .tracesCollected 5 0⟩
  let f : LocalForwarderEvent := ⟨0, 7, ⟨1, 3⟩, e⟩
  [.sender 2 7, .emit 7 e, .ingestSend 7, .ingestRecord 7, .masterReceive f, .masterIndex]

/-- **A trace is sent again forever.** -/
theorem trace_stuck :
    ¬ ∀ (cfg : Config) (as : List Action) (w : World),
      (machine cfg).run (init cfg) as = some w → Retirable cfg as w := by
  intro h
  have hrun : ((machine ⟨⟨1, 3⟩, fun _ => 1⟩).run (init ⟨⟨1, 3⟩, fun _ => 1⟩) consumedTrace).map
      (fun w => (w.master.eventLog ++ w.master.draining, w.emitted 7,
        w.master.multiBuffer.next 7))
      = some ([], [⟨9, .tracesCollected 5 0⟩], 1) := rfl
  obtain ⟨w, hw, hsees⟩ := Option.map_eq_some_iff.mp hrun
  obtain ⟨hlog, hsees⟩ := Prod.mk.inj hsees
  obtain ⟨hem, hnext⟩ := Prod.mk.inj hsees
  obtain ⟨x, hx, -⟩ := (h _ _ w hw).logged 7 0 ⟨9, .tracesCollected 5 0⟩ (by rw [hem]; rfl)
    (by rw [hnext]; decide)
  rw [hlog] at hx
  cases hx

end World

end Exo
