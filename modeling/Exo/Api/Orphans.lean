import Exo.Api.Answering

/-!
# No stream waits for nothing

An API that applies the log brings every answer to its client. With that, each step of a run
that loses no request keeps the commands standing, and none of them is orphaned.

An instance can go between the check of a request and the command of it: the master then finds
no instance, notes that in its own log file, and the client waits for good.
-/

namespace Exo

open Lib (Dict Machine)

namespace Gateway

section Steps

variable {g g' : Gateway} {c : CommandId} {t : TaskId}

/-! ## The API -/

variable {q : TextQueue}

variable {chunk : TextChunk}

/-- Nothing is sent into a channel that was closed, and what was sent stays. -/
theorem resolved_send (h : q.resolved) :
    (q.send chunk).resolved := by
  simp only [TextQueue.resolved, Bool.or_eq_true] at h
  unfold TextQueue.send
  split
  · simpa [TextQueue.resolved] using h
  · split
    · simpa [TextQueue.resolved] using h
    · rcases h with (h | h) | h
      · simp [TextQueue.resolved, h]
      · simp [TextQueue.resolved, h]
      · simp [TextQueue.resolved, h]

theorem held_send (h : q.held ∨ q.closed ∨ q.ended) :
    (q.send chunk).held ∨ (q.send chunk).closed ∨ (q.send chunk).ended := by
  unfold TextQueue.send
  split
  · exact h
  · split
    · exact .inr ‹_›
    · exact h

/-- The last chunk reaches the client, unless its channel is closed. -/
theorem resolved_of_finishes (hc : chunk.finishes)
    (h : q.held ∨ q.closed ∨ q.ended) : (q.send chunk).resolved := by
  unfold TextQueue.send
  split
  · rename_i hheld
    rcases h with h | h | h
    · rw [hheld] at h
      cases h
    · simp [TextQueue.resolved, h]
    · simp [TextQueue.resolved, h]
  · split
    · rename_i hgone
      rcases hgone with h | h
      · simp [TextQueue.resolved, h]
      · simp [TextQueue.resolved, h]
    · simp [TextQueue.resolved, hc]

theorem resolved_popClose (h : q.held ∨ q.closed ∨ q.ended) :
    q.popClose.resolved := by
  unfold TextQueue.popClose
  split
  · simp [TextQueue.resolved]
  · rename_i hheld
    rcases h with h | h | h
    · exact absurd h hheld
    · simp [TextQueue.resolved, h]
    · simp [TextQueue.resolved, h]

theorem held_popClose (h : q.held ∨ q.closed ∨ q.ended) :
    q.popClose.held ∨ q.popClose.closed ∨ q.popClose.ended := by
  unfold TextQueue.popClose
  split
  · exact .inr (.inl rfl)
  · exact h

theorem popClose_resolved (h : q.resolved) : q.popClose.resolved := by
  unfold TextQueue.popClose
  split
  · simp [TextQueue.resolved]
  · exact h

/-- What applying an event does to the channels. -/
theorem queuesMove_applyEvent (a : TextApi) (e : LoggedEvent) :
    QueuesMove { a with state := e.body.apply a.state, applied := a.applied + 1 }
      (a.applyEvent e) := by
  unfold TextApi.applyEvent
  split
  · exact queuesMove_onQueue _ _ (fun _ => resolved_send) fun _ => held_send
  · refine queuesMove_mapValues _ (fun c q hq => ?_) fun c q hq => ?_
    · dsimp only
      split
      · exact popClose_resolved hq
      · exact hq
    · dsimp only
      split
      · exact held_popClose hq
      · exact hq
  · exact QueuesMove.refl _

variable {e : LoggedEvent}

/-- **An event that answers a command reaches the client**, whose stream has begun. -/
theorem resolved_applyEvent {a : TextApi}
    (hheld : ∀ c q, a.queues.get? c = some q → q.held ∨ q.closed ∨ q.ended)
    (ha : e.answers a.state c) (hq : (a.applyEvent e).queues.get? c = some q) :
    q.resolved := by
  cases e with
  | chunk c' chunk =>
      obtain ⟨rfl, hfin⟩ := of_decide_eq_true ha
      simp only [TextApi.applyEvent, TextApi.onQueue, Dict.get?_mapValues, Option.map_eq_some_iff] at hq
      obtain ⟨q₀, hq₀, rfl⟩ := hq
      rw [if_pos trivial]
      exact resolved_of_finishes hfin (hheld _ q₀ hq₀)
  | plain body =>
      cases body with
      | instanceDeleted i =>
          simp only [TextApi.applyEvent, TextApi.closeStreamsForInstance, Dict.get?_mapValues,
            Option.map_eq_some_iff] at hq
          obtain ⟨q₀, hq₀, rfl⟩ := hq
          have hs : ((LoggedEvent.plain (.instanceDeleted i)).body.apply a.state).serves c i := ha
          rw [if_pos hs]
          exact resolved_popClose (hheld _ q₀ hq₀)
      | _ => cases ha

/-- **The API applies the next event of the log.** -/
theorem inv_apply (h : Inv g) (he : g.log[g.api.applied]? = some e)
    (hg : g' = g.setApi (g.api.applyEvent e)) : Inv g' := by
  have hm := queuesMove_applyEvent g.api e
  have hanswers : ∀ c q, (g.api.applyEvent e).queues.get? c = some q →
      e.answers (stateOf (g.log.take g.api.applied)) c → q.resolved :=
    fun c q hq ha => resolved_applyEvent h.held (h.apiState ▸ ha) hq
  have hres : ∀ c, g.Resolved c → g'.Resolved c := by
    intro c hc
    have hc : Resolved (g.setApi { g.api with
      state := e.body.apply g.api.state, applied := g.api.applied + 1 }) c := hc
    exact QueuesMove.resolved hm (by rw [hg]; rfl) hc
  have howns : ∀ c, g'.api.owns c → g.api.owns c := by
    intro c hc
    rw [hg, show (g.setApi (g.api.applyEvent e)).api = g.api.applyEvent e from rfl,
      hm.owns c] at hc
    exact hc
  have hsome : ∀ c, (g'.api.queues.get? c).isSome → (g.api.queues.get? c).isSome := by
    intro c hc
    rw [hg, show (g.setApi (g.api.applyEvent e)).api = g.api.applyEvent e from rfl,
      hm.isSome c] at hc
    exact hc
  have hresolved : ∀ c, (g'.api.queues.get? c).isSome →
      e.answers (stateOf (g.log.take g.api.applied)) c → g'.Resolved c := by
    intro c hc ha
    obtain ⟨q, hq⟩ := Option.isSome_iff_exists.mp hc
    exact ⟨q, hq, hanswers c q (by rw [hg] at hq; exact hq) ha⟩
  have happlied : g'.api.applied = g.api.applied + 1 := by rw [hg]; exact hm.applied
  have hstand : ∀ c, g'.api.owns c → g'.Standing c := by
    intro c hc
    cases h.standing c (howns c hc) with
    | waiting model hashes hmem => exact .waiting model hashes (hg ▸ hmem)
    | resolved hr => exact .resolved (hres c hr)
    | undecided body hb hd => exact .undecided body (hg ▸ hb) (hg ▸ hd)
    | runs hr => exact .runs (hg ▸ hr)
    | answered k e' he' ha hk =>
        by_cases hnow : (g'.api.queues.get? c).isSome ∧ k = g.api.applied
        · -- this is the answer
          obtain ⟨hc', rfl⟩ := hnow
          rw [he] at he'
          obtain rfl := Option.some.inj he'
          exact .resolved (hresolved c hc' ha)
        · refine .answered k e' (hg ▸ he') (hg ▸ ha) fun hc' => ?_
          have hle := hk (hsome c hc')
          rw [happlied]
          have : k ≠ g.api.applied := fun heq => hnow ⟨hc', heq⟩
          omega
  have hlt := (List.getElem?_eq_some_iff.mp he).1
  subst hg
  exact {
    state := h.state
    apiState := by
      show (g.api.applyEvent e).state = stateOf (g.log.take (g.api.applyEvent e).applied)
      rw [hm.state, hm.applied, List.take_add_one, he, Option.toList_some, stateOf_append,
        ← h.apiState]
    applied := by rw [happlied]; exact hlt
    unstreamed := by
      show (g.api.applyEvent e).unstreamed.Nodup
        ∧ ∀ c ∈ (g.api.applyEvent e).unstreamed, (g.api.applyEvent e).queues.get? c = none
      rw [hm.unstreamed]
      refine ⟨h.unstreamed.1, fun c hc => ?_⟩
      have hnone := h.unstreamed.2 c hc
      have hsome := hm.isSome c
      rw [hnone] at hsome
      exact Option.not_isSome_iff_eq_none.mp (by rw [hsome]; simp)
    held := by
      intro c q hq
      obtain ⟨q₀, hq₀, -, hh⟩ := hm.queues c q hq
      exact hh (h.held c q₀ hq₀)
    drawn := fun c hc => h.drawn c (howns c hc)
    requests := h.requests
    followUps := fun c hc =>
      ⟨(h.followUps c hc).1, fun ho => hres c ((h.followUps c hc).2 (howns c ho))⟩
    issuedDrawn := h.issuedDrawn
    mapping := h.mapping
    tasks := h.tasks
    created := h.created
    createdOnce := h.createdOnce
    ends := allEndWell_mono h.ends (fun _ _ ho => ho) (fun c hc _ => howns c hc) h.issuedDrawn hres
    answered := by
      intro c hc ha
      obtain ⟨k, e', hk, he', ha⟩ := answeredBefore_iff.1 ha
      rw [happlied] at hk
      by_cases hnow : k = g.api.applied
      · subst hnow
        have he' : g.log[g.api.applied]? = some e' := he'
        rw [he] at he'
        obtain rfl := Option.some.inj he'
        exact hresolved c hc ha
      · exact hres c (h.answered c (hsome c hc)
          (answeredBefore_iff.2 ⟨k, e', by omega, he', ha⟩))
    standing := hstand }

/-! ## The runs -/

/-- A stream that is over has its answer, and what is sent then is about it. -/
theorem inv_endStream (h : Inv g) (hq : g.api.queues.get? c = some q)
    {sent : List Command} (hsent : ∀ x ∈ sent, x = .taskCancelled c ∨ x = .taskFinished c) :
    Inv (g.endStream c sent) := by
  have hm : QueuesMove g.api (g.api.onQueue c TextQueue.finish) :=
    queuesMove_onQueue _ _ (fun q _ => by simp [TextQueue.finish, TextQueue.resolved])
      fun q _ => .inr (.inr rfl)
  refine inv_queuesMove sent h hm rfl fun x hx => ⟨c, hsent x hx, q.finish, ?_, ?_⟩
  · show (g.api.onQueue c TextQueue.finish).queues.get? c = some q.finish
    simp [TextApi.onQueue, Dict.get?_mapValues, hq]
  · simp [TextQueue.finish, TextQueue.resolved]

/-- **A step that loses no request keeps every command standing.** -/
theorem inv_step {a : Action} (h : Inv g) (hok : g.keepsAnswering a)
    (hs : g.step a = some g') : Inv g' := by
  cases a with
  | accept model =>
      rw [step] at hs
      split at hs
      · obtain rfl := Option.some.inj hs
        have hm : QueuesMove g.api { g.api with accepted := g.api.accepted ++ [model] } :=
          ⟨rfl, rfl, rfl, fun _ => rfl, fun _ q hq => ⟨q, hq, id, id⟩⟩
        exact inv_queuesMove [] h hm (by rw [List.append_nil]; rfl) fun _ hx => by cases hx
      · cases hs
  | sendCommand i commandId imageHashes =>
      rw [step, Option.bind_eq_bind, Option.bind_eq_some_iff] at hs
      obtain ⟨model, _, hs⟩ := hs
      split at hs
      · cases hs
      · rename_i hfresh
        exact inv_sendCommand h hfresh (Option.some.inj hs).symm
  | stream commandId =>
      rw [step] at hs
      split at hs
      · rename_i hc
        refine inv_stream h hc ?_ (Option.some.inj hs).symm
        simpa [keepsAnswering] using hok
      · cases hs
  | read commandId =>
      simp only [step, Option.bind_eq_bind, Option.bind_eq_some_iff] at hs
      obtain ⟨q, hq, chunk, _, hs⟩ := hs
      have hm := queuesMove_onQueue g.api commandId (f := fun q => { q with read := q.read + 1 })
        (fun _ hr => hr) fun _ hh => hh
      have h₁ : Inv (g.setApi (g.api.onQueue commandId fun q => { q with read := q.read + 1 })) :=
        inv_queuesMove [] h hm (by rw [List.append_nil]; rfl) fun _ hx => by cases hx
      split at hs
      · cases hs
      · split at hs
        · obtain rfl := Option.some.inj hs
          refine inv_endStream h₁ (q := { q with read := q.read + 1 }) ?_ ?_
          · simp [setApi, TextApi.onQueue, Dict.get?_mapValues, hq]
          · intro x hx
            exact .inr (List.mem_singleton.mp hx)
        · exact Option.some.inj hs ▸ h₁
  | exhausted commandId =>
      simp only [step, Option.bind_eq_bind, Option.bind_eq_some_iff] at hs
      obtain ⟨q, hq, hs⟩ := hs
      split at hs
      · cases hs
      · obtain rfl := Option.some.inj hs
        exact inv_endStream h hq fun x hx => .inr (List.mem_singleton.mp hx)
  | clientGone commandId =>
      simp only [step, Option.bind_eq_bind, Option.bind_eq_some_iff] at hs
      obtain ⟨q, hq, hs⟩ := hs
      split at hs
      · cases hs
      · obtain rfl := Option.some.inj hs
        exact inv_endStream h hq fun x hx => by simpa using hx
  | cancelCommand commandId =>
      simp only [step, Option.bind_eq_bind, Option.bind_eq_some_iff] at hs
      obtain ⟨q, hq, hs⟩ := hs
      split at hs
      · obtain rfl := Option.some.inj hs
        have hm := queuesMove_onQueue g.api commandId (f := fun q => { q with closed := true })
          (fun _ _ => by simp [TextQueue.resolved]) fun _ _ => .inr (.inl rfl)
        refine inv_queuesMove [.taskCancelled commandId] h hm rfl fun x hx =>
          ⟨commandId, .inl (List.mem_singleton.mp hx), { q with closed := true }, ?_, ?_⟩
        · show (g.api.onQueue commandId _).queues.get? commandId = _
          simp [TextApi.onQueue, Dict.get?_mapValues, hq]
        · simp [TextQueue.resolved]
      · cases hs
  | submit command => exact inv_submitted h hs
  | execute i taskId =>
      rw [step] at hs
      split at hs
      · cases hs
      · rename_i hfresh
        exact inv_execute h (Option.not_isSome_iff_eq_none.mp hfresh) hok hs
  | log =>
      rw [step] at hs
      split at hs
      · cases hs
      · rename_i body post hout
        exact inv_log h hout hok (Option.some.inj hs).symm
  | logOther e =>
      rw [step] at hs
      split at hs
      · rename_i he
        rw [← Option.some.inj hs]
        exact inv_logOther h he hok rfl
      · cases hs
  | apply =>
      rw [step] at hs
      obtain ⟨e, he, hs⟩ := Option.map_eq_some_iff.mp hs
      exact inv_apply h he hs.symm

/--
**No request is orphaned**, in the runs where the master has an instance for every request of
the API, where that is still there when the task is logged, where no stream begins after its end,
and where nobody else ends a task that was not answered.
-/
theorem no_orphans (h : machine.ReachableWhen (fun g a => g.keepsAnswering a) g) :
    g.NoOrphans :=
  Inv.noOrphans (h.invariant inv_init fun _ _ _ hi hok hs => inv_step hi hok hs)

end Steps

/-- An instance on one node. -/
def loneInstance : Instance where
  instanceId := 100
  shardAssignments :=
    { modelId := 7
      runnerToShard := Dict.empty.set 11
        { modelId := 7, deviceRank := 0, worldSize := 1, startLayer := 0, endLayer := 4 }
      nodeToRunner := Dict.empty.set 1 11
      runnersExist := by decide }

/-- The instance is there, and a request for a text of its model passes the check. -/
def acceptedRequest : List Action :=
  [.submit (.createInstance loneInstance), .execute 0 1, .log, .apply, .accept 7]

/-- The text is asked for, and the instance is deleted while a worker answers. -/
def deletedLater : List Action :=
  acceptedRequest ++ [.sendCommand 0 500 [], .stream 500, .execute 0 2, .log, .apply,
    .submit (.deleteInstance 100), .execute 0 3, .log, .log, .apply, .apply]

theorem no_orphans_deletedLater :
    ∃ g, machine.ReachableWhen (fun g a => g.keepsAnswering a) g ∧ g.NoOrphans
      ∧ g.api.applied = g.log.length ∧ (g.api.queues.get? 500).any (·.closed) := by
  have hrun : ((machine.runWhen (fun g a => g.keepsAnswering a) {} deletedLater).any fun g =>
      decide (g.api.applied = g.log.length) && (g.api.queues.get? 500).any (·.closed)) := by
    decide +kernel
  rw [Option.any_eq_true] at hrun
  obtain ⟨g, hg, h⟩ := hrun
  rw [Bool.and_eq_true, decide_eq_true_eq] at h
  have hr : machine.ReachableWhen (fun g a => g.keepsAnswering a) g :=
    Machine.ReachableWhen.init.run hg
  exact ⟨g, hr, no_orphans hr, h⟩

/-- The instance is deleted between the check and the command. -/
def deletedBefore : List Action :=
  acceptedRequest ++ [.submit (.deleteInstance 100), .execute 0 2, .log, .sendCommand 0 500 [],
    .stream 500, .execute 0 3, .apply]

/-- **A request can be orphaned:** its instance goes, and nobody closes the stream. -/
theorem request_orphaned : ¬ ∀ g, machine.Reachable g → g.NoOrphans := by
  intro h
  have hrun : ((machine.run {} deletedBefore).any fun g =>
      decide (g.api.applied = g.log.length) && g.commands.isEmpty && g.outbox.isEmpty
        && g.api.state.tasks.entries.isEmpty
        && (g.api.queues.get? 500).any fun q => !q.resolved) := by
    decide +kernel
  rw [Option.any_eq_true] at hrun
  obtain ⟨g, hg, hend⟩ := hrun
  simp only [Bool.and_eq_true, decide_eq_true_eq, List.isEmpty_iff] at hend
  obtain ⟨⟨⟨⟨happlied, hcommands⟩, houtbox⟩, htasks⟩, hq⟩ := hend
  rw [Option.any_eq_true] at hq
  obtain ⟨q, hq, hwaits⟩ := hq
  have hdone : ¬ g.Undecided 500 := by
    intro hu
    rcases hu with ⟨x, hx, _⟩ | ⟨x, hx, _⟩
    · rw [hcommands] at hx
      cases hx
    · rw [houtbox] at hx
      cases hx
  rcases h g (Machine.reachable_of_run hg) 500 q hq hdone happlied with hr | hr
  · obtain ⟨t, task, ht, _⟩ := hr
    rw [Dict.get?, htasks] at ht
    cases ht
  · rw [hr] at hwaits
    cases hwaits

end Gateway

end Exo
