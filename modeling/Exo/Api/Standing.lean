import Exo.Api.TextStreams

/-!
# How the commands of an API stand

A client waits until the last chunk comes or its channel is closed. That happens as long as the
command has a task on an instance: a worker answers, or the deletion of the instance closes the
stream. It does not when the master has no instance for the command any more, when the instance
goes before the task is logged, when the answer is over before the stream begins, or when a
worker ends the task without a last chunk.

`Gateway.Standing` says how a command stands, between the moment it is sent and the moment its
client has its answer, and `Gateway.Inv` what is kept along the runs that keep clear of the four.
-/

namespace Exo

open Lib (Dict Machine)

/-- The state after a log. -/
def stateOf (log : List LoggedEvent) : State := replay (log.map LoggedEvent.body)

@[simp] theorem stateOf_append (log : List LoggedEvent) (e : LoggedEvent) :
    stateOf (log ++ [e]) = e.body.apply (stateOf log) := by
  simp [stateOf]

/-- The event ends what the client of the command waits for. -/
def LoggedEvent.answers (e : LoggedEvent) (s : State) (commandId : CommandId) : Bool :=
  match e with
  | .chunk c answer => c = commandId ∧ answer.finishes
  | .plain (.instanceDeleted instanceId) => s.serves commandId instanceId
  | .plain _ => false

/-- One of the first `n` events answers the command. -/
def answeredBefore (log : List LoggedEvent) (n : Nat) (commandId : CommandId) : Bool :=
  (List.range n).any fun k => (log[k]?).any (·.answers (stateOf (log.take k)) commandId)

/-- The task the event takes out of the unfinished ones, if it is there. -/
def EventBody.finishes? : EventBody → Option TaskId
  | .taskCreated taskId task => if task.taskStatus.inFlight then none else some taskId
  | .taskStatusUpdated taskId status => if status.inFlight then none else some taskId
  | _ => none

/-- A task of the command is pending or running, on an instance that is there. -/
def State.Runs (s : State) (commandId : CommandId) : Prop :=
  ∃ t task, s.tasks.get? t = some task ∧ task.kind.commandId? = some commandId
    ∧ task.taskStatus.inFlight ∧ (s.instances.get? task.instanceId).isSome

theorem State.serves_iff {s : State} {c : CommandId} {i : InstanceId} : s.serves c i ↔
    ∃ t task, s.tasks.get? t = some task ∧ task.instanceId = i
      ∧ task.kind.commandId? = some c := by
  simp only [serves, List.any_eq_true, decide_eq_true_eq, Dict.mem_values]
  constructor
  · rintro ⟨task, ⟨t, ht⟩, hi, hc⟩
    exact ⟨t, task, ht, hi, hc⟩
  · rintro ⟨t, task, ht, hi, hc⟩
    exact ⟨task, ⟨t, ht⟩, hi, hc⟩

/-- A task that is not deleted is still there after an event. -/
theorem isSome_tasks_apply {s : State} {body : EventBody} {t : TaskId}
    (h : (s.tasks.get? t).isSome) (hb : body ≠ .taskDeleted t) :
    ((body.apply s).tasks.get? t).isSome := by
  have hstatus : ∀ s : State, (s.status? t).isSome = (s.tasks.get? t).isSome := fun s => by
    simp [State.status?]
  rw [← hstatus] at h ⊢
  rw [status_apply]
  split
  · split
    · rfl
    · exact h
  · split
    · rename_i ht
      exact absurd (by rw [ht]) hb
    · exact h
  · split
    · simpa using h
    · exact h
  · exact h

namespace Gateway

/-- What is on its way starts the answer to the command, or ends it with its instance. -/
def decides (g : Gateway) (commandId : CommandId) : EventBody → Bool
  | .taskCreated _ task => task.kind.commandId? = some commandId
  | .instanceDeleted instanceId => g.processor.state.serves commandId instanceId
  | _ => false

/-- The master has yet to execute the command, or to log what it made of it or of its instance. -/
def Undecided (g : Gateway) (commandId : CommandId) : Prop :=
  (∃ command ∈ g.commands, command.requestId? = some commandId)
    ∨ ∃ body ∈ g.outbox, g.decides commandId body

/--
**No request is orphaned:** when the master is done with a command that is streamed, and the
API has applied the log, a task answers the command, or its client has been answered.
-/
def NoOrphans (g : Gateway) : Prop :=
  ∀ c q, g.api.queues.get? c = some q → ¬ g.Undecided c → g.api.applied = g.log.length →
    g.api.state.Runs c ∨ q.resolved

/--
The steps that lose no request of the API. The master finds an instance to execute it on, and
that is still there when the task is logged; the stream begins before its end is applied; and
nobody but the master ends a task whose command was not answered.
-/
def keepsAnswering (g : Gateway) : Action → Bool
  | .execute i _ =>
      match g.commands[i]? with
      | some (.textGeneration commandId model _) =>
          !g.api.owns commandId
            || decide ((g.processor.servingInstances model).filter
              (fun i => !g.processor.prefillOnly i) ≠ [])
      | _ => true
  | .log =>
      match g.outbox.head? with
      | some (.taskCreated _ task) =>
          task.kind.commandId?.all (fun c => !g.api.owns c)
            || (g.processor.state.instances.get? task.instanceId).isSome
      | _ => true
  | .stream commandId => !answeredBefore g.log g.api.applied commandId
  | .logOther e =>
      (e.body.finishes?.bind g.processor.state.tasks.get?).all fun task =>
        !task.taskStatus.inFlight || task.kind.commandId?.all fun c =>
          !g.api.owns c || answeredBefore g.log g.log.length c
  | _ => true

/-- The client of the command has been answered. -/
def Resolved (g : Gateway) (c : CommandId) : Prop :=
  ∃ q, g.api.queues.get? c = some q ∧ q.resolved

/-- How a command of the API stands. -/
inductive Standing (g : Gateway) (c : CommandId) : Prop where
  /-- It is on its way to the master. -/
  | waiting (model : ModelId) (hashes : List Base64ImageHash)
      (h : .textGeneration c model hashes ∈ g.commands)
  | resolved (h : g.Resolved c)
  /-- What answers it is logged, and the API has yet to apply that. -/
  | answered (k : Nat) (e : LoggedEvent) (he : g.log[k]? = some e)
      (h : e.answers (stateOf (g.log.take k)) c)
      (hk : (g.api.queues.get? c).isSome → g.api.applied ≤ k)
  | undecided (body : EventBody) (hb : body ∈ g.outbox) (h : g.decides c body)
  | runs (h : g.processor.state.Runs c)

/-- What the end of a task by the master needs, with what it logs after it. -/
def EndsWell (g : Gateway) (body : EventBody) (post : List EventBody) : Prop :=
  match body with
  | .taskStatusUpdated t _ => ∃ origin, g.issued.get? t = some origin ∧
      ∀ c, origin.1 = some c → g.api.owns c → g.Resolved c ∨ .instanceDeleted origin.2 ∈ post
  | .taskDeleted t => ∃ origin, g.issued.get? t = some origin ∧
      ∀ c, origin.1 = some c → g.api.owns c → g.Resolved c
  | _ => True

/-- Everything in a list of events ends well. -/
def AllEndWell (g : Gateway) : List EventBody → Prop
  | [] => True
  | body :: post => g.EndsWell body post ∧ g.AllEndWell post

/-- What is kept along the runs that lose no request. -/
structure Inv (g : Gateway) : Prop where
  state : g.processor.state = stateOf g.log
  apiState : g.api.state = stateOf (g.log.take g.api.applied)
  applied : g.api.applied ≤ g.log.length
  /-- A stream begins once. -/
  unstreamed : g.api.unstreamed.Nodup ∧ ∀ c ∈ g.api.unstreamed, g.api.queues.get? c = none
  /-- A channel that is given up was closed, or its stream is over. -/
  held : ∀ c q, g.api.queues.get? c = some q → q.held ∨ q.closed ∨ q.ended
  drawn : ∀ c, g.api.owns c → c ∈ g.drawn
  requests : ∀ command ∈ g.commands, ∀ c, command.requestId? = some c → c ∈ g.drawn
  /-- A request is cancelled or finished after its client has been answered. -/
  followUps : ∀ c, .taskCancelled c ∈ g.commands ∨ .taskFinished c ∈ g.commands →
    c ∈ g.drawn ∧ (g.api.owns c → g.Resolved c)
  issuedDrawn : ∀ t c i, g.issued.get? t = some (some c, i) → c ∈ g.drawn
  mapping : ∀ c t, g.processor.commandTaskMapping.get? c = some t →
    ∃ i, g.issued.get? t = some (some c, i)
  tasks : ∀ t task, (stateOf g.log).tasks.get? t = some task →
    task.taskId = t ∧ g.issued.get? t = some (task.kind.commandId?, task.instanceId)
  /-- A task the master creates was never created before. -/
  created : ∀ t task, .taskCreated t task ∈ g.outbox →
    task.taskId = t ∧ g.issued.get? t = some (task.kind.commandId?, task.instanceId)
      ∧ task.taskStatus = .pending ∧ (stateOf g.log).tasks.get? t = none
  createdOnce : (g.outbox.filterMap fun body => (created? body).map Prod.fst).Nodup
  ends : g.AllEndWell g.outbox
  /-- The client of a stream has the answer that was applied. -/
  answered : ∀ c, (g.api.queues.get? c).isSome → answeredBefore g.log g.api.applied c →
    g.Resolved c
  standing : ∀ c, g.api.owns c → g.Standing c

theorem answeredBefore_iff {log : List LoggedEvent} {n : Nat} {c : CommandId} :
    answeredBefore log n c ↔ ∃ k e, k < n ∧ log[k]? = some e
      ∧ e.answers (stateOf (log.take k)) c := by
  simp only [answeredBefore, List.any_eq_true, List.mem_range]
  constructor
  · rintro ⟨k, hk, h⟩
    rw [Option.any_eq_true] at h
    obtain ⟨e, he, h⟩ := h
    exact ⟨k, e, hk, he, h⟩
  · rintro ⟨k, e, hk, he, h⟩
    exact ⟨k, hk, by rw [he]; exact h⟩

/-- **A command that stands well is not orphaned.** -/
theorem Inv.noOrphans {g : Gateway} (h : Inv g) : g.NoOrphans := by
  intro c q hq hdone happlied
  have howns : g.api.owns c := by simp [TextApi.owns, hq]
  cases h.standing c howns with
  | waiting model hashes hmem => exact absurd (.inl ⟨_, hmem, rfl⟩) hdone
  | resolved hres =>
      obtain ⟨q', hq', hres⟩ := hres
      rw [hq] at hq'
      exact .inr (Option.some.inj hq' ▸ hres)
  | answered k e he _ hk =>
      have := hk (by rw [hq]; rfl)
      have := (List.getElem?_eq_some_iff.mp he).1
      omega
  | undecided body hb hd => exact absurd (.inr ⟨body, hb, hd⟩) hdone
  | runs hr =>
      refine .inl ?_
      rw [h.apiState, happlied, List.take_length, ← h.state]
      exact hr

section Steps

variable {g g' : Gateway} {c : CommandId} {t : TaskId}

theorem inv_init : Inv {} where
  state := rfl
  apiState := rfl
  applied := Nat.le_refl _
  unstreamed := ⟨List.nodup_nil, fun _ hc => by cases hc⟩
  held := fun _ _ hq => by cases hq
  drawn := fun _ hc => by cases hc
  requests := fun _ hm => by cases hm
  followUps := fun _ hm => by rcases hm with hm | hm <;> cases hm
  issuedDrawn := fun _ _ _ ht => by cases ht
  mapping := fun _ _ hm => by cases hm
  tasks := fun _ _ ht => by cases ht
  created := fun _ _ hm => by cases hm
  createdOnce := List.nodup_nil
  ends := trivial
  answered := fun _ hc => by cases hc
  standing := fun _ hc => by cases hc

/-! ## The channels -/

/-- The channels of an API move on, and what was answered stays answered. -/
structure QueuesMove (a a' : TextApi) : Prop where
  state : a'.state = a.state
  applied : a'.applied = a.applied
  unstreamed : a'.unstreamed = a.unstreamed
  isSome : ∀ c, (a'.queues.get? c).isSome = (a.queues.get? c).isSome
  queues : ∀ c q', a'.queues.get? c = some q' → ∃ q, a.queues.get? c = some q
    ∧ (q.resolved → q'.resolved)
    ∧ (q.held ∨ q.closed ∨ q.ended → q'.held ∨ q'.closed ∨ q'.ended)

theorem queuesMove_mapValues (a : TextApi) {f : CommandId → TextQueue → TextQueue}
    (hr : ∀ c q, q.resolved → (f c q).resolved)
    (hh : ∀ c q, q.held ∨ q.closed ∨ q.ended → (f c q).held ∨ (f c q).closed ∨ (f c q).ended) :
    QueuesMove a { a with queues := a.queues.mapValues f } where
  state := rfl
  applied := rfl
  unstreamed := rfl
  isSome := fun c => by simp [Dict.get?_mapValues]
  queues := by
    intro c q' hq'
    rw [Dict.get?_mapValues, Option.map_eq_some_iff] at hq'
    obtain ⟨q, hq, rfl⟩ := hq'
    exact ⟨q, hq, hr c q, hh c q⟩

theorem queuesMove_onQueue (a : TextApi) (c : CommandId) {f : TextQueue → TextQueue}
    (hr : ∀ q, q.resolved → (f q).resolved)
    (hh : ∀ q, q.held ∨ q.closed ∨ q.ended → (f q).held ∨ (f q).closed ∨ (f q).ended) :
    QueuesMove a (a.onQueue c f) := by
  refine queuesMove_mapValues a (fun c' q hq => ?_) fun c' q hq => ?_
  · split
    · exact hr q hq
    · exact hq
  · split
    · exact hh q hq
    · exact hq

theorem QueuesMove.refl (a : TextApi) : QueuesMove a a where
  state := rfl
  applied := rfl
  unstreamed := rfl
  isSome := fun _ => rfl
  queues := fun _ q hq => ⟨q, hq, id, id⟩

theorem QueuesMove.owns {a a' : TextApi} (h : QueuesMove a a') (c : CommandId) :
    a'.owns c = a.owns c := by
  unfold TextApi.owns
  rw [h.unstreamed, h.isSome]

theorem QueuesMove.resolved {a' : TextApi} (h : QueuesMove g.api a') (hg : g'.api = a')
    (hc : g.Resolved c) : g'.Resolved c := by
  obtain ⟨q, hq, hres⟩ := hc
  have hsome := h.isSome c
  rw [hq] at hsome
  obtain ⟨q', hq'⟩ := Option.isSome_iff_exists.mp hsome
  obtain ⟨q₀, hq₀, hmono, -⟩ := h.queues c q' hq'
  rw [hq] at hq₀
  obtain rfl := Option.some.inj hq₀
  exact ⟨q', by rw [hg]; exact hq', hmono hres⟩

theorem endsWell_mono {body : EventBody} {post post' : List EventBody}
    (h : g.EndsWell body post)
    (hiss : ∀ t origin, g.issued.get? t = some origin → g'.issued.get? t = some origin)
    (howns : ∀ c, g'.api.owns c → c ∈ g.drawn → g.api.owns c)
    (hdrawn : ∀ t c i, g.issued.get? t = some (some c, i) → c ∈ g.drawn)
    (hres : ∀ c, g.Resolved c → g'.Resolved c) (hpost : ∀ b ∈ post, b ∈ post') :
    g'.EndsWell body post' := by
  have hold : ∀ t origin, g.issued.get? t = some origin →
      ∀ c, origin.1 = some c → g'.api.owns c → g.api.owns c := by
    intro t origin ho c hc hown
    obtain ⟨_, i⟩ := origin
    obtain rfl := hc
    exact howns c hown (hdrawn t c i ho)
  cases body with
  | taskStatusUpdated t status =>
      obtain ⟨origin, ho, h⟩ := h
      exact ⟨origin, hiss t origin ho, fun c hc hown =>
        (h c hc (hold t origin ho c hc hown)).imp (hres c) (hpost _)⟩
  | taskDeleted t =>
      obtain ⟨origin, ho, h⟩ := h
      exact ⟨origin, hiss t origin ho, fun c hc hown =>
        hres c (h c hc (hold t origin ho c hc hown))⟩
  | _ => trivial

theorem allEndWell_mono {l : List EventBody} (h : g.AllEndWell l)
    (hiss : ∀ t origin, g.issued.get? t = some origin → g'.issued.get? t = some origin)
    (howns : ∀ c, g'.api.owns c → c ∈ g.drawn → g.api.owns c)
    (hdrawn : ∀ t c i, g.issued.get? t = some (some c, i) → c ∈ g.drawn)
    (hres : ∀ c, g.Resolved c → g'.Resolved c) : g'.AllEndWell l := by
  induction l with
  | nil => trivial
  | cons body post ih =>
      exact ⟨endsWell_mono h.1 hiss howns hdrawn hres fun _ hb => hb, ih h.2⟩

theorem allEndWell_append {l l' : List EventBody} (h : g.AllEndWell l) (h' : g.AllEndWell l') :
    g.AllEndWell (l ++ l') := by
  induction l with
  | nil => exact h'
  | cons body post ih =>
      refine ⟨?_, ih h.2⟩
      have hb := h.1
      cases body with
      | taskStatusUpdated t status =>
          obtain ⟨origin, ho, hb⟩ := hb
          exact ⟨origin, ho, fun c hc hown => (hb c hc hown).imp_right (List.mem_append_left _)⟩
      | taskDeleted t => exact hb
      | _ => trivial

/-- A command stands as it did when only channels moved and commands were sent. -/
theorem Standing.of_queuesMove (h : g.Standing c) (hm : QueuesMove g.api g'.api)
    (hcommands : ∀ x ∈ g.commands, x ∈ g'.commands) (hproc : g'.processor = g.processor)
    (hout : g'.outbox = g.outbox) (hlog : g'.log = g.log) : g'.Standing c := by
  cases h with
  | waiting model hashes hmem => exact .waiting model hashes (hcommands _ hmem)
  | resolved hres => exact .resolved (hm.resolved rfl hres)
  | answered k e he ha hk =>
      refine .answered k e (hlog ▸ he) (hlog ▸ ha) ?_
      rw [hm.isSome, hm.applied]
      exact hk
  | undecided body hb hd =>
      refine .undecided body (hout ▸ hb) ?_
      have hsame : g'.decides c body = g.decides c body := by
        unfold decides
        rw [hproc]
      rw [hsame]
      exact hd
  | runs hr => exact .runs (hproc ▸ hr)

/-- **A stream moves on, or is over**, and what is sent then is about a client with an answer. -/
theorem inv_queuesMove {a' : TextApi} (sent : List Command) (h : Inv g) (hm : QueuesMove g.api a')
    (hg : g' = { g with api := a', commands := g.commands ++ sent })
    (hsent : ∀ x ∈ sent, ∃ c, (x = .taskCancelled c ∨ x = .taskFinished c) ∧ g'.Resolved c) :
    Inv g' := by
  subst hg
  have hres : ∀ c, g.Resolved c →
      Resolved { g with api := a', commands := g.commands ++ sent } c :=
    fun c hc => hm.resolved rfl hc
  have howns : ∀ c, a'.owns c → g.api.owns c := fun c hc => hm.owns c ▸ hc
  have hdrawn : ∀ c, Resolved { g with api := a', commands := g.commands ++ sent } c →
      c ∈ g.drawn := by
    intro c ⟨q, hq, _⟩
    exact h.drawn c (howns c (by simp [TextApi.owns, show a'.queues.get? c = some q from hq]))
  exact {
    state := h.state
    apiState := by
      show a'.state = stateOf (g.log.take a'.applied)
      rw [hm.state, hm.applied]
      exact h.apiState
    applied := hm.applied ▸ h.applied
    unstreamed := by
      show a'.unstreamed.Nodup ∧ _
      rw [hm.unstreamed]
      refine ⟨h.unstreamed.1, fun c hc => ?_⟩
      have hnone := h.unstreamed.2 c hc
      have hsome := hm.isSome c
      rw [hnone] at hsome
      exact Option.not_isSome_iff_eq_none.mp (by rw [hsome]; simp)
    held := by
      intro c q hq
      obtain ⟨q₀, hq₀, -, hh⟩ := hm.queues c q hq
      exact hh (h.held c q₀ hq₀)
    drawn := fun c hc => h.drawn c (howns c hc)
    requests := by
      intro x hx c hc
      rcases List.mem_append.mp hx with hx | hx
      · exact h.requests x hx c hc
      · obtain ⟨c', rfl | rfl, -⟩ := hsent x hx
        · cases hc
        · cases hc
    followUps := by
      intro c hc
      have hcase : (.taskCancelled c ∈ g.commands ∨ .taskFinished c ∈ g.commands)
          ∨ Resolved { g with api := a', commands := g.commands ++ sent } c := by
        rcases hc with hc | hc
        · rcases List.mem_append.mp hc with hc | hc
          · exact .inl (.inl hc)
          · obtain ⟨c', hx | hx, hr⟩ := hsent _ hc
            · obtain rfl := Command.taskCancelled.inj hx
              exact .inr hr
            · cases hx
        · rcases List.mem_append.mp hc with hc | hc
          · exact .inl (.inr hc)
          · obtain ⟨c', hx | hx, hr⟩ := hsent _ hc
            · cases hx
            · obtain rfl := Command.taskFinished.inj hx
              exact .inr hr
      rcases hcase with hc | hr
      · obtain ⟨hd, hr⟩ := h.followUps c hc
        exact ⟨hd, fun ho => hres c (hr (howns c ho))⟩
      · exact ⟨hdrawn c hr, fun _ => hr⟩
    issuedDrawn := h.issuedDrawn
    mapping := h.mapping
    tasks := h.tasks
    created := h.created
    createdOnce := h.createdOnce
    ends := allEndWell_mono h.ends (fun _ _ ho => ho) (fun c hc _ => howns c hc) h.issuedDrawn hres
    answered := by
      intro c hc ha
      have ha : answeredBefore g.log a'.applied c := ha
      rw [hm.applied] at ha
      exact hres c (h.answered c (hm.isSome c ▸ hc) ha)
    standing := fun c hc => (h.standing c (howns c hc)).of_queuesMove hm
      (fun x hx => List.mem_append_left _ hx) rfl rfl rfl }

/-! ## The requests -/

/-- The API sends the command of a request. -/
theorem inv_sendCommand (h : Inv g) {model : ModelId} {hashes : List Base64ImageHash}
    {accepted : List ModelId} (hfresh : c ∉ g.drawn)
    (hg : g' = { g with
      api := { g.api with accepted := accepted, unstreamed := g.api.unstreamed ++ [c] }
      commands := g.commands ++ [.textGeneration c model hashes]
      drawn := c :: g.drawn }) : Inv g' := by
  have hnew : g.api.owns c = false := by
    cases ho : g.api.owns c with
    | false => rfl
    | true => exact absurd (h.drawn c ho) hfresh
  have howns : ∀ c', g'.api.owns c' → g.api.owns c' ∨ c' = c := by
    intro c' hc'
    subst hg
    simp only [TextApi.owns, List.mem_append, List.mem_singleton, decide_eq_true_eq] at hc' ⊢
    rcases hc' with (hc' | hc') | hc'
    · exact .inl (.inl hc')
    · exact .inr hc'
    · exact .inl (.inr hc')
  have hold : ∀ c', g'.api.owns c' → c' ∈ g.drawn → g.api.owns c' := by
    intro c' hc' hd
    rcases howns c' hc' with ho | rfl
    · exact ho
    · exact absurd hd hfresh
  simp only [TextApi.owns, decide_eq_false_iff_not, not_or, Option.not_isSome_iff_eq_none] at hnew
  subst hg
  exact {
    state := h.state
    apiState := h.apiState
    applied := h.applied
    unstreamed := by
      refine ⟨List.nodup_append.mpr ⟨h.unstreamed.1, List.nodup_singleton c, ?_⟩, ?_⟩
      · intro a ha b hb
        rw [List.mem_singleton.mp hb]
        intro heq
        exact hnew.1 (heq ▸ ha)
      · intro c' hc'
        rcases List.mem_append.mp hc' with hc' | hc'
        · exact h.unstreamed.2 c' hc'
        · exact List.mem_singleton.mp hc' ▸ hnew.2
    held := h.held
    drawn := by
      intro c' hc'
      rcases howns c' hc' with ho | rfl
      · exact List.mem_cons_of_mem _ (h.drawn c' ho)
      · exact List.mem_cons_self
    requests := by
      intro x hx c' hc'
      rcases List.mem_append.mp hx with hx | hx
      · exact List.mem_cons_of_mem _ (h.requests x hx c' hc')
      · rw [List.mem_singleton.mp hx] at hc'
        exact Option.some.inj hc' ▸ List.mem_cons_self
    followUps := by
      intro c' hc'
      obtain ⟨hd, hr⟩ := h.followUps c' (by simpa using hc')
      exact ⟨List.mem_cons_of_mem _ hd, fun ho => hr (hold c' ho hd)⟩
    issuedDrawn := fun t c' i hi => List.mem_cons_of_mem _ (h.issuedDrawn t c' i hi)
    mapping := h.mapping
    tasks := h.tasks
    created := h.created
    createdOnce := h.createdOnce
    ends := allEndWell_mono h.ends (fun _ _ ho => ho) hold h.issuedDrawn fun _ hr => hr
    answered := h.answered
    standing := by
      intro c' hc'
      rcases howns c' hc' with ho | rfl
      · cases h.standing c' ho with
        | waiting model' hashes' hmem =>
            exact .waiting model' hashes' (List.mem_append_left _ hmem)
        | resolved hr => exact .resolved hr
        | answered k e he ha hk => exact .answered k e he ha hk
        | undecided body hb hd => exact .undecided body hb hd
        | runs hr => exact .runs hr
      · exact .waiting model hashes (by simp) }

/-- **A stream begins**, before what ends it was applied. -/
theorem inv_stream (h : Inv g) (hc : c ∈ g.api.unstreamed)
    (hok : answeredBefore g.log g.api.applied c = false)
    (hg : g' = { g with api := { g.api with
      unstreamed := g.api.unstreamed.erase c
      queues := g.api.queues.set c {} } }) : Inv g' := by
  have hnone := h.unstreamed.2 c hc
  have howns : ∀ c', g'.api.owns c' → g.api.owns c' := by
    intro c' hc'
    subst hg
    simp only [TextApi.owns, decide_eq_true_eq, Dict.get?_set] at hc' ⊢
    rcases hc' with hc' | hc'
    · exact .inl (List.mem_of_mem_erase hc')
    · split at hc'
      · rename_i heq
        exact .inl (heq ▸ hc)
      · exact .inr hc'
  have hqueue : ∀ c', c' ≠ c → g'.api.queues.get? c' = g.api.queues.get? c' := by
    intro c' hne
    subst hg
    exact Dict.get?_set_ne _ _ hne
  have hres : ∀ c', g.Resolved c' → g'.Resolved c' := by
    intro c' ⟨q, hq, hr⟩
    have hne : c' ≠ c := by
      rintro rfl
      rw [hnone] at hq
      cases hq
    exact ⟨q, (hqueue c' hne).trans hq, hr⟩
  have hstand : ∀ c', g'.api.owns c' → g'.Standing c' := by
    intro c' hc'
    have hsame : ∀ body, g'.decides c' body = g.decides c' body := fun body => by subst hg; rfl
    cases h.standing c' (howns c' hc') with
    | waiting model hashes hmem => exact .waiting model hashes (hg ▸ hmem)
    | resolved hr => exact .resolved (hres c' hr)
    | undecided body hb hd => exact .undecided body (hg ▸ hb) (hsame body ▸ hd)
    | runs hr => exact .runs (hg ▸ hr)
    | answered k e he ha hk =>
        refine .answered k e (hg ▸ he) (hg ▸ ha) fun hsome => ?_
        have hgoal : g.api.applied ≤ k := by
          by_cases heq : c' = c
          · -- nothing that answers the command was applied yet
            subst heq
            by_contra hlt
            rw [answeredBefore_iff.2 ⟨k, e, by omega, he, ha⟩] at hok
            cases hok
          · exact hk (hqueue c' heq ▸ hsome)
        subst hg
        exact hgoal
  subst hg
  exact {
    state := h.state
    apiState := h.apiState
    applied := h.applied
    unstreamed := by
      refine ⟨h.unstreamed.1.erase c, fun c' hc' => ?_⟩
      have hmem := (List.Nodup.mem_erase_iff h.unstreamed.1).mp hc'
      exact (hqueue c' hmem.1).trans (h.unstreamed.2 c' hmem.2)
    held := by
      intro c' q hq
      rw [Dict.get?_set] at hq
      split at hq
      · exact .inl (Option.some.inj hq ▸ rfl)
      · exact h.held c' q hq
    drawn := fun c' hc' => h.drawn c' (howns c' hc')
    requests := h.requests
    followUps := fun c' hc' =>
      ⟨(h.followUps c' hc').1, fun ho => hres c' ((h.followUps c' hc').2 (howns c' ho))⟩
    issuedDrawn := h.issuedDrawn
    mapping := h.mapping
    tasks := h.tasks
    created := h.created
    createdOnce := h.createdOnce
    ends := allEndWell_mono h.ends (fun _ _ ho => ho) (fun c' hc' _ => howns c' hc') h.issuedDrawn hres
    answered := by
      intro c' hsome ha
      by_cases heq : c' = c
      · subst heq
        rw [hok] at ha
        cases ha
      · exact hres c' (h.answered c' (hqueue c' heq ▸ hsome) ha)
    standing := hstand }

variable {command : Command}

/-- Commands of others come in, and more ids are in use. -/
theorem inv_submit (drawn : List CommandId) (h : Inv g)
    (hdrawn : ∀ c ∈ g.drawn, c ∈ drawn)
    (hrequest : ∀ c, command.requestId? = some c → c ∈ drawn)
    (hfollow : ∀ c, command = .taskCancelled c ∨ command = .taskFinished c →
      c ∈ drawn ∧ g.api.owns c = false)
    (hg : g' = { g with commands := g.commands ++ [command], drawn := drawn }) : Inv g' := by
  subst hg
  exact {
    state := h.state
    apiState := h.apiState
    applied := h.applied
    unstreamed := h.unstreamed
    held := h.held
    drawn := fun c hc => hdrawn c (h.drawn c hc)
    requests := by
      intro x hx c hc
      rcases List.mem_append.mp hx with hx | hx
      · exact hdrawn c (h.requests x hx c hc)
      · exact hrequest c (List.mem_singleton.mp hx ▸ hc)
    followUps := by
      intro c hc
      have hcase : (.taskCancelled c ∈ g.commands ∨ .taskFinished c ∈ g.commands)
          ∨ (command = .taskCancelled c ∨ command = .taskFinished c) := by
        rcases hc with hc | hc
        · exact (List.mem_append.mp hc).imp .inl fun hc => .inl (List.mem_singleton.mp hc).symm
        · exact (List.mem_append.mp hc).imp .inr fun hc => .inr (List.mem_singleton.mp hc).symm
      rcases hcase with hc | hc
      · exact ⟨hdrawn c (h.followUps c hc).1, (h.followUps c hc).2⟩
      · obtain ⟨hd, hno⟩ := hfollow c hc
        refine ⟨hd, fun ho => ?_⟩
        have ho : g.api.owns c = true := ho
        rw [hno] at ho
        cases ho
    issuedDrawn := fun t c i hi => hdrawn c (h.issuedDrawn t c i hi)
    mapping := h.mapping
    tasks := h.tasks
    created := h.created
    createdOnce := h.createdOnce
    ends := allEndWell_mono h.ends (fun _ _ ho => ho) (fun _ hc _ => hc) h.issuedDrawn fun _ hr => hr
    answered := h.answered
    standing := by
      intro c hc
      cases h.standing c hc with
      | waiting model hashes hmem => exact .waiting model hashes (List.mem_append_left _ hmem)
      | resolved hr => exact .resolved hr
      | answered k e he ha hk => exact .answered k e he ha hk
      | undecided body hb hd => exact .undecided body hb hd
      | runs hr => exact .runs hr }

/-- Others send commands that are about no request of the API. -/
theorem inv_submitted (h : Inv g) (hs : g.submitted command = some g') :
    Inv g' := by
  have hnew : ∀ c, (command.requestId? = some c
        ∨ command = .taskCancelled c ∨ command = .taskFinished c) →
      (∀ c', command = .taskCancelled c' ∨ command = .taskFinished c' → g.api.owns c' = false) →
      g' = { g with commands := g.commands ++ [command], drawn := c :: g.drawn } → Inv g' := by
    intro c hc hno hg
    refine inv_submit (c :: g.drawn) h (fun c' hc' => List.mem_cons_of_mem _ hc') ?_ ?_ hg
    · intro c' hc'
      rcases hc with hc | rfl | rfl
      · rw [hc] at hc'
        exact Option.some.inj hc' ▸ List.mem_cons_self
      · cases hc'
      · cases hc'
    · intro c' hc'
      refine ⟨?_, hno c' hc'⟩
      rcases hc with hc | rfl | rfl
      · rcases hc' with rfl | rfl <;> cases hc
      · rcases hc' with hc' | hc'
        · exact Command.taskCancelled.inj hc' ▸ List.mem_cons_self
        · cases hc'
      · rcases hc' with hc' | hc'
        · cases hc'
        · exact Command.taskFinished.inj hc' ▸ List.mem_cons_self
  cases command with
  | textGeneration c model hashes | imageGeneration c model | imageEdits c model total =>
      simp only [submitted] at hs
      split at hs
      · cases hs
      · exact hnew c (.inl rfl) (fun _ hc' => by rcases hc' with hc' | hc' <;> cases hc')
          (Option.some.inj hs).symm
  | taskCancelled c =>
      simp only [submitted] at hs
      split at hs
      · cases hs
      · rename_i hno
        refine hnew c (.inr (.inl rfl)) (fun c' hc' => ?_) (Option.some.inj hs).symm
        rcases hc' with hc' | hc'
        · exact Command.taskCancelled.inj hc' ▸ Bool.eq_false_iff.mpr hno
        · cases hc'
  | taskFinished c =>
      simp only [submitted] at hs
      split at hs
      · cases hs
      · rename_i hno
        refine hnew c (.inr (.inr rfl)) (fun c' hc' => ?_) (Option.some.inj hs).symm
        rcases hc' with hc' | hc'
        · cases hc'
        · exact Command.taskFinished.inj hc' ▸ Bool.eq_false_iff.mpr hno
  | _ =>
      refine inv_submit g.drawn h (fun _ hc => hc) (fun _ hc => by cases hc) ?_
        (Option.some.inj hs).symm
      intro c hc
      rcases hc with hc | hc <;> cases hc

end Steps

end Gateway

end Exo
