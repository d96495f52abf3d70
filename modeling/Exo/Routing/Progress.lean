import Exo.Routing.Echo

/-!
# What the master can still log

A message that is lost is sent again as long as its entry is in the table, and a source has an
entry for everything it sent until the echo comes. So from every reachable world the pipeline
can go on until an event that some source emitted is in the log, whatever was lost before;
traces are the one exception.
-/

namespace Exo

open Lib

namespace World

variable {cfg : Config} {w w' : World} {a : Action}

theorem next_step (hp : PipeInv w) (hm : Moves w a w') (s : SystemId) :
    w.master.multiBuffer.next s ≤ w'.master.multiBuffer.next s := by
  cases hm with
  | quiet _ _ hm => exact hm ▸ Nat.le_refl _
  | opened n s' _ he => exact he ▸ Nat.le_refl _
  | emitted n s' g e _ _ he => exact he ▸ Nat.le_refl _
  | sent n s' g e f _ _ _ _ he => exact he ▸ Nat.le_refl _
  | recorded n s' g f _ _ _ he => exact he ▸ Nat.le_refl _
  | snapshotted n he => exact he ▸ Nat.le_refl _
  | retried n r out _ _ _ _ hm => exact hm ▸ Nat.le_refl _
  | received n g _ _ _ he => exact he ▸ Nat.le_refl _
  | taken f hf _ he =>
      subst he
      exact hp.master.next_le_receive (hp.net _ hf) s
  | indexed m out _ hi he =>
      subst he
      obtain ⟨_, _, -, -, hbuf, -⟩ := hp.master.index_cases hi
      show _ ≤ m.multiBuffer.next s
      rw [hbuf]

/-- What a run leaves behind it. -/
structure Grows (w w' : World) : Prop where
  emitted : ∀ s, w.emitted s <+: w'.emitted s
  next : ∀ s, w.master.multiBuffer.next s ≤ w'.master.multiBuffer.next s

variable {as : List Action}

theorem grows_run (h : BooksInv cfg w) (hr : (machine cfg).run w as = some w') :
    BooksInv cfg w' ∧ Grows w w' := by
  induction as generalizing w with
  | nil =>
      obtain rfl := Option.some.inj hr
      exact ⟨h, fun _ => List.prefix_rfl, fun _ => Nat.le_refl _⟩
  | cons a as ih =>
      obtain ⟨v, hs, hr⟩ := Option.bind_eq_some_iff.mp hr
      have hm := step_moves hs
      obtain ⟨hbooks, hgrows⟩ := ih (booksInv_step h hs) hr
      exact ⟨hbooks, fun s => (emitted_step hm s).trans (hgrows.emitted s),
        fun s => (next_step h.pipe hm s).trans (hgrows.next s)⟩

variable {Q : World → Prop}

theorem canReach_grows (h : BooksInv cfg w) (hq : (machine cfg).CanReach w Q) :
    (machine cfg).CanReach w fun w' => Q w' ∧ BooksInv cfg w' ∧ Grows w w' := by
  obtain ⟨as, w', hr, hw'⟩ := hq
  exact ⟨as, w', hr, hw', grows_run h hr⟩

theorem canReach_step (hs : step w a = some w')
    (h : (machine cfg).CanReach w' Q) : (machine cfg).CanReach w Q :=
  Machine.CanReach.step (m := machine cfg) (a := a) hs h

/-! ## The master -/

/-- The loop of the master can come to its end, and no message is lost then. -/
theorem canReach_drained (h : BooksInv cfg w) : (machine cfg).CanReach w fun w' =>
    w'.master.draining = [] ∧ ∀ m ∈ w.net, m ∈ w'.net := by
  generalize hd : w.master.draining = draining
  induction draining generalizing w with
  | nil => exact .now ⟨hd, fun _ h => h⟩
  | cons e rest ih =>
      obtain ⟨m, out, hi, hrest⟩ := h.pipe.master.index_next hd w.now
      have hs : step w .masterIndex = some { w with
          master := m
          net := (out.elim 0 fun g => {.globalEvent g}) + w.net } := by
        simp only [step, h.pipe.master.quiet, hi]
        cases out with
        | none => simp
        | some g => simp [World.send]
      refine canReach_step hs ((ih (booksInv_step h hs) hrest).trans fun w' hw' => .now ⟨hw'.1, ?_⟩)
      intro x hx
      exact hw'.2 x (Multiset.mem_add.mpr (.inr hx))

/-- A message with the next event of its source can be received. -/
theorem canReach_taken (h : BooksInv cfg w) {f : LocalForwarderEvent}
    (hf : .localEvent f ∈ w.net) (hsession : f.session = cfg.sessionId)
    (hnext : w.master.multiBuffer.next f.origin = f.originIdx) :
    (machine cfg).CanReach w fun w' => f.originIdx < w'.master.multiBuffer.next f.origin := by
  refine (canReach_grows h (canReach_drained h)).trans ?_
  intro v ⟨⟨hidle, hnet⟩, hbooks, hgrows⟩
  by_cases hlt : f.originIdx < v.master.multiBuffer.next f.origin
  · exact .now hlt
  · have hle := hgrows.next f.origin
    have hs : step v (.masterReceive f) = some { v with
        net := v.net.erase (.localEvent f)
        master := v.master.receive f } :=
      if_pos ⟨hnet _ hf, hbooks.pipe.master.quiet, hidle⟩
    refine canReach_step hs (.now ?_)
    refine hbooks.pipe.master.next_lt_receive ?_ (hsession.trans hbooks.master.symm) (by omega)
    exact hbooks.pipe.net _ (hnet _ hf)

/-! ## The retry loop -/

section Retry

variable {n : Nat} {id : EventId} {t : Time} {f : LocalForwarderEvent}
  {rest : List (EventId × Time × LocalForwarderEvent)}

theorem step_retryNext_late (hret : (w.routers n).retrying = (id, t, f) :: rest)
    (hlate : w.now > t + EventRouter.retryAfter) :
    step w (.retryNext n) = some ((w.setRouter n { w.routers n with
      retrying := rest
      outForDelivery := (w.routers n).outForDelivery.set id (w.now, f) }).send (.localEvent f)) := by
  have hr : (w.routers n).retryNext w.now = some ({ w.routers n with
      retrying := rest
      outForDelivery := (w.routers n).outForDelivery.set id (w.now, f) }, some f) := by
    rw [EventRouter.retryNext, hret]
    exact if_pos hlate
  simp only [step, hr]

theorem step_retryNext_early (hret : (w.routers n).retrying = (id, t, f) :: rest)
    (hearly : ¬ w.now > t + EventRouter.retryAfter) :
    step w (.retryNext n) = some (w.setRouter n { w.routers n with retrying := rest }) := by
  have hr : (w.routers n).retryNext w.now = some ({ w.routers n with retrying := rest }, none) := by
    rw [EventRouter.retryNext, hret]
    exact if_neg hearly
  simp only [step, hr]

/-- The loop takes the next entry of its snapshot, whatever it does with it. -/
theorem step_retryNext (hret : (w.routers n).retrying = (id, t, f) :: rest) :
    ∃ w', step w (.retryNext n) = some w' ∧ (w'.routers n).retrying = rest ∧ w'.now = w.now := by
  by_cases hlate : w.now > t + EventRouter.retryAfter
  · refine ⟨_, step_retryNext_late hret hlate, ?_, rfl⟩
    show ((w.setRouter n _).routers n).retrying = rest
    rw [routers_setRouter, if_pos rfl]
  · refine ⟨_, step_retryNext_early hret hlate, ?_, rfl⟩
    rw [routers_setRouter, if_pos rfl]

/-- A late entry of the snapshot can be sent again. -/
theorem canReach_retried (cfg : Config) (n : Nat) {w : World}
    {snapshot : List (EventId × Time × LocalForwarderEvent)}
    (hret : (w.routers n).retrying = snapshot) (hmem : (id, t, f) ∈ snapshot)
    (hlate : w.now > t + EventRouter.retryAfter) :
    (machine cfg).CanReach w fun w' => .localEvent f ∈ w'.net := by
  induction snapshot generalizing w with
  | nil => cases hmem
  | cons p rest ih =>
      rcases List.mem_cons.mp hmem with rfl | hrest
      · exact canReach_step (step_retryNext_late hret hlate) (.now (Multiset.mem_cons_self _ _))
      · obtain ⟨w', hs, hleft, hnow⟩ := step_retryNext hret
        exact canReach_step hs (ih hleft hrest (hnow ▸ hlate))

/-- The snapshot of the retry loop can be walked to its end. -/
theorem canReach_walked (cfg : Config) (w : World) (n : Nat) :
    (machine cfg).CanReach w fun w' => (w'.routers n).retrying = [] := by
  generalize hret : (w.routers n).retrying = snapshot
  induction snapshot generalizing w with
  | nil => exact .now hret
  | cons p rest ih =>
      obtain ⟨w', hs, hrest, -⟩ := step_retryNext hret
      exact canReach_step hs (ih w' hrest)

end Retry

/-- What waits in a table goes on waiting until it is logged. -/
theorem waits_run (h : BooksInv cfg w) {n : Nat} {id : EventId}
    (hw : w.waits n id ∨ w.logs id) (hr : (machine cfg).run w as = some w') :
    w'.waits n id ∨ w'.logs id := by
  induction as generalizing w with
  | nil => exact Option.some.inj hr ▸ hw
  | cons a as ih =>
      obtain ⟨v, hs, hr⟩ := Option.bind_eq_some_iff.mp hr
      have hm := step_moves hs
      refine ih (booksInv_step h hs) ?_ hr
      rcases hw with hw | hl
      · exact waits_step h.pipe hm hw
      · exact .inr (logs_step h.pipe hm hl)

/-- **What waits for its echo can be sent again.** -/
theorem canReach_sentAgain (h : BooksInv cfg w) {n : Nat} {id : EventId} (hw : w.waits n id) :
    (machine cfg).CanReach w fun w' =>
      w'.logs id ∨ ∃ f, .localEvent f ∈ w'.net ∧ Addressed cfg id f := by
  obtain ⟨as, v, hr, hwalked⟩ := canReach_walked cfg w n
  have hbooks := (grows_run h hr).1
  refine Machine.CanReach.trans (Q := (· = v)) ⟨as, v, hr, rfl⟩ ?_
  rintro u rfl
  rcases waits_run h (.inl hw) hr with hwaits | hlogs
  · obtain ⟨⟨t, f⟩, hget⟩ := Option.isSome_iff_exists.mp hwaits
    -- the clock moves until the entry is late, and a new snapshot is taken
    refine canReach_step (a := .tick (t + EventRouter.retryAfter + 1)) rfl ?_
    refine canReach_step (a := .retryStart n) (if_pos hwalked) ?_
    have hmem : (id, t, f) ∈ (u.routers n).outForDelivery.entries.map
        fun e : EventId × Time × LocalForwarderEvent => (e.1, e.2.1, e.2.2) :=
      List.mem_map.mpr ⟨(id, t, f), Dict.mem_entries.2 hget, rfl⟩
    refine Machine.CanReach.trans (canReach_retried cfg n ?_ hmem ?_) fun x hx =>
      .now (.inr ⟨f, hx, (hbooks.kept n).waiting id t f hget⟩)
    · rw [routers_setRouter, if_pos rfl]
    · exact Nat.lt_of_lt_of_le (Nat.lt_succ_self _) (Nat.le_add_left _ _)
  · exact .now (.inl hlogs)

/-! ## The sources -/

variable {s : SystemId}

/-- What was sent can be recorded. -/
theorem canReach_recorded {n : Nat} {g : Ingest} (hg : w.ingests s = some (n, g)) :
    (machine cfg).CanReach w fun w' => w'.ingests s = some (n, { g with unrecorded := none }) := by
  cases hun : g.unrecorded with
  | none =>
      refine .now ?_
      rw [hg, ← hun]
  | some f =>
      have hs : step w (.ingestRecord s) = some ((w.setIngest s n { g with unrecorded := none }).setRouter
          n { w.routers n with
            outForDelivery := (w.routers n).outForDelivery.set f.event.eventId (w.now, f) }) := by
        simp only [step, ingestRecord, hg, hun]
      refine canReach_step hs (.now ?_)
      show (w.setIngest s n _).ingests s = _
      rw [ingests_setIngest, if_pos rfl]

variable {e : Event}

variable {i : Nat}

/-- **What a source emitted can be sent, and waits then.** -/
theorem canReach_waits (h : BooksInv cfg w)
    (he : (w.emitted s)[i]? = some e) :
    (machine cfg).CanReach w fun w' => (∃ n, w'.waits n e.eventId) ∨ w'.logs e.eventId := by
  obtain ⟨n, g, hg, hemit⟩ : ∃ n g, w.ingests s = some (n, g) ∧ g.emitted[i]? = some e := by
    cases hg : w.ingests s with
    | none =>
        rw [World.emitted, hg] at he
        cases he
    | some p =>
        obtain ⟨n, g⟩ := p
        rw [World.emitted, hg] at he
        exact ⟨n, g, rfl, he⟩
  generalize hmany : i + 1 - g.idx = many
  induction many generalizing w g with
  | zero =>
      refine (canReach_grows h (canReach_recorded hg)).trans ?_
      rintro v ⟨hg', hbooks, -⟩
      rcases (hbooks.ingests s n _ hg').kept i e (by omega : i < g.idx) hemit with ⟨f, hf, -⟩ | hk
      · cases hf
      · exact .now (hk.imp_left fun hw => ⟨n, hw⟩)
  | succ many ih =>
      refine (canReach_grows h (canReach_recorded hg)).trans ?_
      rintro v ⟨hg', hbooks, hgrows⟩
      have hlt : g.idx < g.emitted.length := by
        have := (List.getElem?_eq_some_iff.mp hemit).1
        omega
      obtain ⟨e', hnext⟩ : ∃ e', g.emitted[g.idx]? = some e' :=
        ⟨_, List.getElem?_eq_getElem hlt⟩
      let f : LocalForwarderEvent :=
        { originIdx := g.idx, origin := s, session := (v.routers n).sessionId, event := e' }
      have hs : step v (.ingestSend s) = some ((v.setIngest s n { g with
          idx := g.idx + 1
          unrecorded := some f }).send (.localEvent f)) := by
        simp only [step, ingestSend, hg', hnext, f]
      have hm := step_moves hs
      refine canReach_step hs (ih (booksInv_step hbooks hs) ?_
        { g with idx := g.idx + 1, unrecorded := some f } ?_ hemit ?_)
      · exact getElem?_extended ((hgrows.emitted s).trans (emitted_step hm s)) he
      · show (v.setIngest s n _).ingests s = _
        rw [ingests_setIngest, if_pos rfl]
      · show i + 1 - (g.idx + 1) = many
        omega

/-! ## Together -/

/-- The next event of a source can be released. -/
theorem canReach_next (h : BooksInv cfg w)
    (he : (w.emitted s)[w.master.multiBuffer.next s]? = some e) :
    (machine cfg).CanReach w fun w' =>
      w.master.multiBuffer.next s < w'.master.multiBuffer.next s := by
  have hlogged : ∀ v, BooksInv cfg v → Grows w v → v.logs e.eventId →
      w.master.multiBuffer.next s < v.master.multiBuffer.next s := by
    intro v hbooks hgrows hlogs
    obtain ⟨x, hx, hid⟩ := hlogs
    exact (hbooks.pipe.master.of_logged hbooks.pipe.distinct
      (getElem?_extended (hgrows.emitted s) he) hx hid).1
  refine (canReach_grows h (canReach_waits h he)).trans ?_
  intro v ⟨hv, hbooks, hgrows⟩
  rcases hv with ⟨n, hwaits⟩ | hlogs
  · refine (canReach_grows hbooks (canReach_sentAgain hbooks hwaits)).trans ?_
    intro u ⟨hu, hbooks', hgrows'⟩
    have hto : Grows w u := ⟨fun s => (hgrows.emitted s).trans (hgrows'.emitted s),
      fun s => (hgrows.next s).trans (hgrows'.next s)⟩
    rcases hu with hlogs | ⟨f, hf, hid, hsession⟩
    · exact .now (hlogged u hbooks' hto hlogs)
    · -- the message carries the event that its source emitted at its index
      have hfaithful : Faithful u.emitted f := hbooks'.pipe.net _ hf
      obtain ⟨rfl, hidx⟩ := hbooks'.pipe.distinct f.origin s f.originIdx _ f.event e hfaithful
        (getElem?_extended (hto.emitted s) he) hid
      by_cases hlt : f.originIdx < u.master.multiBuffer.next f.origin
      · exact .now (hidx ▸ hlt)
      · have hle := hto.next f.origin
        have hreach := canReach_taken hbooks' hf hsession (by omega)
        exact hreach.trans fun x hx => .now (hidx ▸ hx)
  · exact .now (hlogged v hbooks hgrows hlogs)

/-- Everything a source emitted can be released. -/
theorem canReach_released (h : BooksInv cfg w)
    (he : (w.emitted s)[i]? = some e) :
    (machine cfg).CanReach w fun w' => i < w'.master.multiBuffer.next s := by
  generalize hmany : i + 1 - w.master.multiBuffer.next s = many
  induction many using Nat.strongRecOn generalizing w with
  | _ many ih =>
      by_cases hlt : i < w.master.multiBuffer.next s
      · exact .now hlt
      · obtain ⟨e', he'⟩ : ∃ e', (w.emitted s)[w.master.multiBuffer.next s]? = some e' := by
          have := (List.getElem?_eq_some_iff.mp he).1
          exact ⟨_, List.getElem?_eq_getElem (by omega)⟩
        refine (canReach_grows h (canReach_next h he')).trans ?_
        intro v ⟨hnext, hbooks, hgrows⟩
        exact ih _ (by omega) hbooks (getElem?_extended (hgrows.emitted s) he) rfl

/-- **Everything a source emitted can be logged, traces left out.** -/
theorem canReach_logs (h : BooksInv cfg w)
    (he : (w.emitted s)[i]? = some e) (hl : isLogged e) :
    (machine cfg).CanReach w fun w' => w'.logs e.eventId := by
  refine (canReach_grows h (canReach_released h he)).trans ?_
  intro v ⟨hv, hbooks, hgrows⟩
  refine (canReach_grows hbooks (canReach_drained hbooks)).trans ?_
  intro u ⟨⟨hidle, _⟩, hbooks', hgrows'⟩
  have hstill := getElem?_extended ((hgrows.emitted s).trans (hgrows'.emitted s)) he
  obtain ⟨x, hx, hid⟩ := hbooks'.pipe.master.logged_of_released hstill
    (Nat.lt_of_lt_of_le hv (hgrows'.next s)) hl
  rw [hidle, List.append_nil] at hx
  exact .now ⟨x, hx, hid⟩

/-- A trace is never logged. -/
theorem not_logs_of_trace (h : BooksInv cfg w)
    (he : (w.emitted s)[i]? = some e) (hl : isLogged e = false) : ¬ w.logs e.eventId := by
  intro ⟨x, hx, hid⟩
  have := (h.pipe.master.of_logged h.pipe.distinct he hx hid).2
  rw [hl] at this
  cases this

end World

end Exo
