import Exo.Api.Standing

/-!
# The commands and the log keep every command standing

The master executes a command on what its state is then, and logs what it made of it later. In
between, a task can end, or its instance go.
-/

namespace Exo

open Lib (Dict)

namespace Gateway

section Steps

variable {g g' : Gateway} {c : CommandId} {t : TaskId}

/-! ## The commands -/

variable {command : Command} {events : List EventBody}

variable {i : Nat} {issued : Dict TaskId (Option CommandId × InstanceId)}

variable {p : CommandProcessor}

/--
The master executes a command: `events` go into its outbox, and the ids of new tasks are
issued.
-/
theorem inv_executed (h : Inv g) (hi : g.commands[i]? = some command)
    (hg : g' = { g with
      commands := g.commands.eraseIdx i
      processor := p
      outbox := g.outbox ++ events
      issued := issued })
    (hp : p.state = g.processor.state)
    (hiss : ∀ t origin, g.issued.get? t = some origin → issued.get? t = some origin)
    (hdrawn : ∀ t c i, issued.get? t = some (some c, i) → c ∈ g.drawn)
    (hmap : ∀ c t, p.commandTaskMapping.get? c = some t → ∃ i, issued.get? t = some (some c, i))
    (hcreated : ∀ t task, .taskCreated t task ∈ events →
      task.taskId = t ∧ issued.get? t = some (task.kind.commandId?, task.instanceId)
        ∧ task.taskStatus = .pending ∧ (stateOf g.log).tasks.get? t = none)
    (honce : ((g.outbox ++ events).filterMap fun body => (created? body).map Prod.fst).Nodup)
    (hends : g'.AllEndWell events)
    (hstand : ∀ c model hashes, command = .textGeneration c model hashes → g.api.owns c →
      ∃ body ∈ events, g.decides c body) : Inv g' := by
  have hmem : ∀ x ∈ g'.commands, x ∈ g.commands := by
    intro x hx
    subst hg
    exact List.mem_of_mem_eraseIdx hx
  have hdecides : ∀ c body, g'.decides c body = g.decides c body := by
    intro c body
    subst hg
    unfold decides
    simp only [hp]
  have hstand' : ∀ c, g.api.owns c → g'.Standing c := by
    intro c hc
    cases h.standing c hc with
    | resolved hr => exact .resolved (hg ▸ hr)
    | answered k e he ha hk =>
        subst hg
        exact .answered k e he ha hk
    | runs hr =>
        subst hg
        exact .runs (hp ▸ hr)
    | undecided body hb hd =>
        refine .undecided body ?_ (hdecides c body ▸ hd)
        subst hg
        exact List.mem_append_left _ hb
    | waiting model hashes hmem =>
        obtain ⟨j, hj⟩ := List.mem_iff_getElem?.mp hmem
        by_cases hij : j = i
        · -- it is the command that was executed
          rw [hij, hi] at hj
          obtain ⟨body, hb, hd⟩ := hstand c model hashes (Option.some.inj hj) hc
          refine .undecided body ?_ (hdecides c body ▸ hd)
          subst hg
          exact List.mem_append_right _ hb
        · refine .waiting model hashes ?_
          subst hg
          exact List.mem_eraseIdx_iff_getElem?.mpr ⟨j, hij, hj⟩
  have hold : g'.AllEndWell g.outbox := by
    subst hg
    exact allEndWell_mono h.ends hiss (fun _ hc _ => hc) h.issuedDrawn fun _ hr => hr
  have hall := allEndWell_append hold hends
  subst hg
  exact {
    state := hp.trans h.state
    apiState := h.apiState
    applied := h.applied
    unstreamed := h.unstreamed
    held := h.held
    drawn := h.drawn
    requests := fun x hx c hc => h.requests x (hmem x hx) c hc
    followUps := fun c hc => h.followUps c (hc.imp (hmem _) (hmem _))
    issuedDrawn := hdrawn
    mapping := hmap
    tasks := fun t task ht => ⟨(h.tasks t task ht).1, hiss t _ (h.tasks t task ht).2⟩
    created := by
      intro t task hm
      rcases List.mem_append.mp hm with hm | hm
      · obtain ⟨hid, ho, hrest⟩ := h.created t task hm
        exact ⟨hid, hiss t _ ho, hrest⟩
      · exact hcreated t task hm
    createdOnce := honce
    ends := hall
    answered := h.answered
    standing := hstand' }

/-- Events that create nothing leave what was created once. -/
theorem createdOnce_quiet (h : Inv g)
    (hquiet : ∀ body ∈ events, created? body = none) :
    ((g.outbox ++ events).filterMap fun body => (created? body).map Prod.fst).Nodup := by
  have hnil : (events.filterMap fun body => (created? body).map Prod.fst) = [] := by
    rw [List.filterMap_eq_nil_iff]
    intro body hb
    rw [hquiet body hb]
    rfl
  rw [List.filterMap_append, hnil, List.append_nil]
  exact h.createdOnce

theorem executeCommand_eq
    (hi : g.commands[i]? = some command)
    (hex : g.processor.execute t command = (p, events)) :
    g.executeCommand i t = some ({ g with
      commands := g.commands.eraseIdx i
      processor := p
      outbox := g.outbox ++ events }.issue events) := by
  rw [executeCommand, hi, Option.map_some, hex]

theorem issue_of_quiet
    (hquiet : ∀ body ∈ events, created? body = none) : g.issue events = g := by
  rw [issue, List.findSome?_eq_none_iff.mpr hquiet]

/-- A command that creates no task. -/
theorem inv_quiet (h : Inv g) (hi : g.commands[i]? = some command)
    (hex : g.processor.execute t command = (p, events)) (hg : g.executeCommand i t = some g')
    (hp : p.state = g.processor.state)
    (hmap : ∀ c t, p.commandTaskMapping.get? c = some t →
      g.processor.commandTaskMapping.get? c = some t)
    (hquiet : ∀ body ∈ events, created? body = none)
    (hends : g.AllEndWell events)
    (hstand : ∀ c model hashes, command = .textGeneration c model hashes → ¬ g.api.owns c) :
    Inv g' := by
  rw [executeCommand_eq hi hex, issue_of_quiet hquiet] at hg
  obtain rfl := Option.some.inj hg
  refine inv_executed h hi rfl hp (fun _ _ ho => ho) h.issuedDrawn
    (fun c t ht => h.mapping c t (hmap c t ht)) ?_ (createdOnce_quiet h hquiet) ?_ ?_
  · intro t task hm
    cases hquiet _ hm
  · exact allEndWell_mono hends (fun _ _ ho => ho) (fun _ hc _ => hc) h.issuedDrawn
      fun _ hr => hr
  · intro c model hashes hcommand hown
    exact absurd hown (hstand c model hashes hcommand)

/-- A command that creates a task. -/
theorem inv_created (h : Inv g) (hi : g.commands[i]? = some command)
    (hfresh : g.issued.get? t = none) (inst : InstanceId) {kind : TaskKind}
    (hkind : kind.commandId? = some c) (hc : command.requestId? = some c)
    (hg : g' = { g with
      commands := g.commands.eraseIdx i
      processor := { g.processor with
        commandTaskMapping := g.processor.commandTaskMapping.set c t }
      outbox := g.outbox ++ [.taskCreated t
        { taskId := t, taskStatus := .pending, instanceId := inst, kind := kind }]
      issued := g.issued.set t (some c, inst) }) : Inv g' := by
  have hiss : ∀ t' origin, g.issued.get? t' = some origin →
      (g.issued.set t (some c, inst)).get? t' = some origin := by
    intro t' origin ho
    rw [Dict.get?_set_ne _ _ (fun heq => by rw [heq, hfresh] at ho; cases ho)]
    exact ho
  have hcdrawn : c ∈ g.drawn := h.requests command (List.mem_of_getElem? hi) c hc
  refine inv_executed h hi hg rfl hiss ?_ ?_ ?_ ?_ ?_ ?_
  · intro t' c' i' ho
    rw [Dict.get?_set] at ho
    split at ho
    · have heq := (Prod.ext_iff.mp (Option.some.inj ho)).1
      exact Option.some.inj heq ▸ hcdrawn
    · exact h.issuedDrawn t' c' i' ho
  · intro c' t' ht'
    rw [Dict.get?_set] at ht'
    split at ht'
    · rename_i heq
      exact ⟨inst, by rw [← Option.some.inj ht', heq, Dict.get?_set_self]⟩
    · obtain ⟨i', ho⟩ := h.mapping c' t' ht'
      exact ⟨i', hiss t' _ ho⟩
  · intro t' task hm
    obtain ⟨rfl, rfl⟩ := EventBody.taskCreated.inj (List.mem_singleton.mp hm)
    refine ⟨rfl, by rw [Dict.get?_set_self, hkind], rfl, ?_⟩
    -- a task of the state has an id that was issued
    cases ht : (stateOf g.log).tasks.get? t' with
    | none => rfl
    | some task =>
        rw [(h.tasks t' task ht).2] at hfresh
        cases hfresh
  · rw [List.filterMap_append, List.nodup_append]
    refine ⟨h.createdOnce, List.nodup_singleton t, ?_⟩
    intro t₁ h₁ t₂ h₂ heq
    obtain ⟨body, hb, hbt⟩ := List.mem_filterMap.mp h₁
    obtain rfl := List.mem_singleton.mp h₂
    obtain ⟨⟨t', origin⟩, hbody, rfl⟩ := Option.map_eq_some_iff.mp hbt
    cases body with
    | taskCreated t'' task =>
        obtain rfl : t'' = t₂ := (Prod.ext_iff.mp (Option.some.inj hbody)).1.trans heq
        rw [(h.created _ task hb).2.1] at hfresh
        cases hfresh
    | _ => cases hbody
  · exact ⟨trivial, trivial⟩
  · intro c' model hashes hcommand _
    rw [hcommand] at hc
    obtain rfl := Option.some.inj hc
    exact ⟨_, List.mem_singleton.mpr rfl, decide_eq_true hkind⟩

/-- The deletion of an instance cancels its tasks first. -/
theorem allEndWell_deletionEvents (h : Inv g) (i : InstanceId) :
    g.AllEndWell (g.processor.deletionEvents i) := by
  unfold CommandProcessor.deletionEvents
  have hall : ∀ task ∈ g.processor.state.tasks.values.filter fun task =>
      task.instanceId = i ∧ task.taskStatus.inFlight,
      g.issued.get? task.taskId = some (task.kind.commandId?, i) := by
    intro task ht
    obtain ⟨ht, hi⟩ := List.mem_filter.mp ht
    obtain ⟨t, ht⟩ := Dict.mem_values.1 ht
    rw [h.state] at ht
    obtain ⟨hid, ho⟩ := h.tasks t task ht
    rw [hid, ho, (of_decide_eq_true hi).1]
  generalize g.processor.state.tasks.values.filter _ = tasks at hall
  induction tasks with
  | nil => exact ⟨trivial, trivial⟩
  | cons task tasks ih =>
      refine ⟨⟨_, hall task List.mem_cons_self, fun _ _ _ => .inr ?_⟩,
        ih fun task' ht' => hall task' (List.mem_cons_of_mem _ ht')⟩
      exact List.mem_append_right _ (List.mem_singleton.mpr rfl)

/-- The master creates a task, if it found an instance for it. -/
theorem inv_createTask (h : Inv g)
    (hi : g.commands[i]? = some command) (hfresh : g.issued.get? t = none)
    {target : Option InstanceId} {kind : TaskKind}
    (hex : g.processor.execute t command = g.processor.createTask c t target kind)
    (hkind : kind.commandId? = some c) (hc : command.requestId? = some c)
    (hfound : ∀ model hashes, command = .textGeneration c model hashes → g.api.owns c →
      target.isSome)
    (hg : g.executeCommand i t = some g') : Inv g' := by
  cases target with
  | some inst =>
      rw [executeCommand_eq hi hex] at hg
      refine inv_created h hi hfresh inst hkind hc ?_
      rw [← Option.some.inj hg]
      simp only [issue, List.findSome?_cons, created?, hkind]
  | none =>
      refine inv_quiet h hi hex hg rfl (fun _ _ ht => ht) (fun _ hb => by cases hb) trivial ?_
      intro c' model hashes hcommand hown
      rw [hcommand] at hc
      obtain rfl := Option.some.inj hc
      cases hfound model hashes hcommand hown

/-- A request of the API that the master executes finds an instance. -/
theorem leastLoaded_isSome {model : ModelId} {hashes : List Base64ImageHash}
    (hi : g.commands[i]? = some (.textGeneration c model hashes))
    (hok : g.keepsAnswering (.execute i t)) (hown : g.api.owns c) :
    (g.processor.leastLoaded ((g.processor.servingInstances model).filter
      fun i => !g.processor.prefillOnly i)).isSome := by
  rw [keepsAnswering, hi] at hok
  simp only [hown, Bool.not_true, Bool.false_or, decide_eq_true_eq] at hok
  rw [Option.isSome_iff_ne_none, ne_eq, CommandProcessor.leastLoaded, List.argmin_eq_none]
  exact hok

/-- **The master executes a command** and finds an instance for the requests of the API. -/
theorem inv_execute (h : Inv g) (hfresh : g.issued.get? t = none)
    (hok : g.keepsAnswering (.execute i t)) (hg : g.executeCommand i t = some g') : Inv g' := by
  have hi : ∃ command, g.commands[i]? = some command := by
    rw [executeCommand] at hg
    obtain ⟨command, hi, -⟩ := Option.map_eq_some_iff.mp hg
    exact ⟨command, hi⟩
  obtain ⟨command, hi⟩ := hi
  have hmem := List.mem_of_getElem? hi
  cases command with
  | textGeneration c model hashes =>
      refine inv_createTask h hi hfresh rfl rfl rfl ?_ hg
      intro model' hashes' heq hown
      exact leastLoaded_isSome hi hok hown
  | imageGeneration c model | imageEdits c model total =>
      exact inv_createTask h hi hfresh rfl rfl rfl (fun _ _ heq _ => by cases heq) hg
  | createInstance inst =>
      refine inv_quiet h hi rfl hg rfl (fun _ _ ht => ht) ?_ ?_ (fun _ _ _ heq => by cases heq)
      · split <;> simp [created?]
      · split
        · trivial
        · exact ⟨trivial, trivial⟩
  | deleteInstance i =>
      refine inv_quiet h hi rfl hg rfl (fun _ _ ht => ht) ?_ ?_ (fun _ _ _ heq => by cases heq)
      · split
        · intro body hb
          rcases List.mem_append.mp hb with hb | hb
          · obtain ⟨task, -, rfl⟩ := List.mem_map.mp hb
            rfl
          · rw [List.mem_singleton.mp hb]
            rfl
        · exact fun _ hb => by cases hb
      · split
        · exact allEndWell_deletionEvents h i
        · trivial
  | taskCancelled c =>
      have hf := h.followUps c (.inl hmem)
      cases ht : g.processor.commandTaskMapping.get? c with
      | none =>
          have hex : g.processor.execute t (.taskCancelled c) = (g.processor, []) := by
            simp only [CommandProcessor.execute, ht]
          exact inv_quiet h hi hex hg rfl (fun _ _ ht => ht) (fun _ hb => by cases hb) trivial
            (fun _ _ _ heq => by cases heq)
      | some t' =>
          obtain ⟨i', ho⟩ := h.mapping c t' ht
          have hex : g.processor.execute t (.taskCancelled c)
              = (g.processor, [.taskStatusUpdated t' .cancelled]) := by
            simp only [CommandProcessor.execute, ht]
          refine inv_quiet h hi hex hg rfl (fun _ _ ht => ht) (by simp [created?])
            ⟨⟨_, ho, ?_⟩, trivial⟩ (fun _ _ _ heq => by cases heq)
          intro c' hc' hown
          obtain rfl := Option.some.inj hc'
          exact .inl (hf.2 hown)
  | taskFinished c =>
      have hf := h.followUps c (.inr hmem)
      cases ht : g.processor.commandTaskMapping.get? c with
      | none =>
          have hex : g.processor.execute t (.taskFinished c) = (g.processor, []) := by
            simp only [CommandProcessor.execute, ht]
          exact inv_quiet h hi hex hg rfl (fun _ _ ht => ht) (fun _ hb => by cases hb) trivial
            (fun _ _ _ heq => by cases heq)
      | some t' =>
          obtain ⟨i', ho⟩ := h.mapping c t' ht
          have hex : g.processor.execute t (.taskFinished c)
              = ({ g.processor with
                  commandTaskMapping := g.processor.commandTaskMapping.erase c },
                [.taskDeleted t']) := by
            simp only [CommandProcessor.execute, ht]
          refine inv_quiet h hi hex hg rfl ?_ (by simp [created?])
            ⟨⟨_, ho, ?_⟩, trivial⟩ (fun _ _ _ heq => by cases heq)
          · intro c' t'' ht''
            rw [Dict.get?_erase] at ht''
            split at ht''
            · cases ht''
            · exact ht''
          · intro c' hc' hown
            obtain rfl := Option.some.inj hc'
            exact hf.2 hown
  | _ =>
      exact inv_quiet h hi rfl hg rfl (fun _ _ ht => ht) (by simp [created?]) ⟨trivial, trivial⟩
        (fun _ _ _ heq => by cases heq)

/-! ## The log -/

variable {body : EventBody}

/-- What an event does to a task that is pending or running on an instance. -/
theorem running_apply {s : State} {task : Task}
    (ht : s.tasks.get? t = some task) (hflight : task.taskStatus.inFlight)
    (hinst : (s.instances.get? task.instanceId).isSome)
    (hsame : ∀ task', body = .taskCreated t task' →
      task'.kind.commandId? = task.kind.commandId? ∧ task'.instanceId = task.instanceId) :
    (∃ task', (body.apply s).tasks.get? t = some task'
        ∧ task'.kind.commandId? = task.kind.commandId? ∧ task'.taskStatus.inFlight
        ∧ ((body.apply s).instances.get? task'.instanceId).isSome)
      ∨ body = .instanceDeleted task.instanceId ∨ body = .taskDeleted t
      ∨ body.finishes? = some t := by
  by_cases hdeleted : body = .taskDeleted t
  · exact .inr (.inr (.inl hdeleted))
  by_cases hgone : body = .instanceDeleted task.instanceId
  · exact .inr (.inl hgone)
  by_cases hfinishes : body.finishes? = some t
  · exact .inr (.inr (.inr hfinishes))
  -- the task and the instance stay, and the status is not set to a last one
  obtain ⟨task', ht'⟩ := Option.isSome_iff_exists.mp
    (isSome_tasks_apply (by rw [ht]; rfl) hdeleted)
  have hkept : task'.kind.commandId? = task.kind.commandId?
      ∧ task'.instanceId = task.instanceId := by
    rcases apply_tasks_cases ht' with ⟨t', hbody, rfl⟩ | ⟨old, hold, -, hi, hk⟩
    · exact hsame task' hbody
    · rw [ht] at hold
      obtain rfl := Option.some.inj hold
      exact ⟨by rw [hk], hi⟩
  refine .inl ⟨task', ht', hkept.1, ?_, ?_⟩
  · have hstatus := status_apply body s t
    rw [show (body.apply s).status? t = some task'.taskStatus by simp [State.status?, ht'],
      show s.status? t = some task.taskStatus by simp [State.status?, ht]] at hstatus
    have hlast : ∀ status : TaskStatus,
        (if status.inFlight then none else some t) ≠ some t → status.inFlight := by
      intro status hne
      by_contra hno
      rw [if_neg hno] at hne
      exact hne rfl
    split at hstatus
    · split at hstatus
      · rename_i heq
        rw [Option.some.inj hstatus]
        exact hlast _ (by rw [heq] at hfinishes ⊢; exact hfinishes)
      · exact Option.some.inj hstatus ▸ hflight
    · split at hstatus
      · cases hstatus
      · exact Option.some.inj hstatus ▸ hflight
    · split at hstatus
      · rename_i heq
        rw [show task'.taskStatus = _ from Option.some.inj hstatus]
        exact hlast _ (by rw [heq] at hfinishes ⊢; exact hfinishes)
      · exact Option.some.inj hstatus ▸ hflight
    · exact Option.some.inj hstatus ▸ hflight
  · rw [hkept.2]
    exact isSome_instances_apply hinst hgone

/-- The instance of a task is the same after an event, unless the task is deleted. -/
theorem serves_apply {s : State} {i : InstanceId} (h : s.serves c i)
    (hsame : ∀ t task task', s.tasks.get? t = some task → body = .taskCreated t task' →
      task'.kind.commandId? = task.kind.commandId? ∧ task'.instanceId = task.instanceId) :
    (body.apply s).serves c i ∨ ∃ t task, body = .taskDeleted t ∧ s.tasks.get? t = some task
      ∧ task.kind.commandId? = some c := by
  obtain ⟨t, task, ht, hi, hc⟩ := State.serves_iff.1 h
  by_cases hdeleted : body = .taskDeleted t
  · exact .inr ⟨t, task, hdeleted, ht, hc⟩
  obtain ⟨task', ht'⟩ := Option.isSome_iff_exists.mp
    (isSome_tasks_apply (by rw [ht]; rfl) hdeleted)
  refine .inl (State.serves_iff.2 ⟨t, task', ht', ?_⟩)
  rcases apply_tasks_cases ht' with ⟨t', hbody, rfl⟩ | ⟨old, hold, -, hi', hk⟩
  · obtain ⟨hk, hi'⟩ := hsame t' task task' ht hbody
    exact ⟨hi'.trans hi, hk.trans hc⟩
  · rw [ht] at hold
    obtain rfl := Option.some.inj hold
    exact ⟨hi'.trans hi, by rw [hk, hc]⟩

variable {e : LoggedEvent}

theorem getElem?_log_append {log : List LoggedEvent} {k : Nat}
    (e' : LoggedEvent) (he : log[k]? = some e) : (log ++ [e'])[k]? = some e
      ∧ (log ++ [e']).take k = log.take k := by
  have hk := (List.getElem?_eq_some_iff.mp he).1
  exact ⟨(List.getElem?_append_left hk).trans he, List.take_append_of_le_length (by omega)⟩

/-- The task an event creates is the one its id was issued for. -/
def Issued (g : Gateway) (body : EventBody) : Prop :=
  ∀ t task, body = .taskCreated t task →
    task.taskId = t ∧ g.issued.get? t = some (task.kind.commandId?, task.instanceId)

/-- A task that is announced again is the same. -/
theorem Inv.same (h : Inv g) (hi : g.Issued body) {task task' : Task}
    (ht : g.processor.state.tasks.get? t = some task) (hb : body = .taskCreated t task') :
    task'.kind.commandId? = task.kind.commandId? ∧ task'.instanceId = task.instanceId := by
  rw [h.state] at ht
  have ho := (hi t task' hb).2
  rw [(h.tasks t task ht).2] at ho
  have heq := Option.some.inj ho
  exact ⟨(Prod.ext_iff.mp heq).1.symm, (Prod.ext_iff.mp heq).2.symm⟩

variable {post : List EventBody}

/-- What answers a command when the end of its instance is logged. -/
theorem standing_deleted (h : Inv g) {i : InstanceId}
    (he : e.body = .instanceDeleted i) (hs : g.processor.state.serves c i)
    (hg : g' = { g with outbox := post }.append e) : g'.Standing c := by
  have hplain : e = .plain (.instanceDeleted i) := by
    cases e with
    | plain body => exact congrArg _ he
    | chunk c chunk => cases he
  subst hg
  refine .answered g.log.length e List.getElem?_concat_length ?_ fun _ => h.applied
  rw [hplain, show ((({ g with outbox := post } : Gateway).append
    (.plain (.instanceDeleted i))).log.take g.log.length) = g.log from List.take_left]
  exact h.state ▸ hs

/--
How a command stands after an event is logged. What is left is where the event ends the wait
in the outbox, and where it ends a task of the command.
-/
theorem standing_appended (h : Inv g)
    (hg : g' = { g with outbox := post }.append e) (hc : g.api.owns c) (hi : g.Issued e.body)
    (hdec : ∀ body ∈ g.outbox, g.decides c body → body ∈ post ∨ g'.Standing c)
    (hfin : ∀ t task, e.body.finishes? = some t → g.processor.state.tasks.get? t = some task →
      task.taskStatus.inFlight → task.kind.commandId? = some c → g'.Standing c)
    (hdel : ∀ t task, e.body = .taskDeleted t → g.processor.state.tasks.get? t = some task →
      task.kind.commandId? = some c → g'.Standing c) : g'.Standing c := by
  have hstate : g'.processor.state = e.body.apply g.processor.state := by rw [hg]; rfl
  cases h.standing c hc with
  | waiting model hashes hmem => exact .waiting model hashes (hg ▸ hmem)
  | resolved hr => exact .resolved (hg ▸ hr)
  | answered k e' he' ha hk =>
      obtain ⟨he, htake⟩ := getElem?_log_append e he'
      subst hg
      exact .answered k e' he (by rw [← htake] at ha; exact ha) hk
  | undecided body hb hd =>
      rcases hdec body hb hd with hpost | hs
      · have hin : body ∈ g'.outbox := hg ▸ hpost
        cases body with
        | taskCreated t task => exact .undecided _ hin hd
        | instanceDeleted i =>
            rcases serves_apply hd fun t task task' ht hb => h.same hi ht hb with hs | hs
            · exact .undecided _ hin (by rw [decides, hstate]; exact hs)
            · obtain ⟨t, task, hb, ht, hk⟩ := hs
              exact hdel t task hb ht hk
        | _ => cases hd
      · exact hs
  | runs hr =>
      obtain ⟨t, task, ht, hk, hflight, hinst⟩ := hr
      rcases running_apply ht hflight hinst fun task' hb => h.same hi ht hb with hs | hb | hb | hb
      · obtain ⟨task', ht', hk', hflight', hinst'⟩ := hs
        exact .runs ⟨t, task', by rw [hstate]; exact ht', hk'.trans hk, hflight',
          by rw [hstate]; exact hinst'⟩
      · exact standing_deleted h hb (State.serves_iff.2 ⟨t, task, ht, rfl, hk⟩) hg
      · exact hdel t task hb ht hk
      · exact hfin t task hb ht hflight hk

/-- The master logs an event: the first of its outbox, or one of another source. -/
theorem inv_appended (h : Inv g)
    (hg : g' = { g with outbox := post }.append e) (hi : g.Issued e.body)
    (hpost : ∀ body ∈ post, body ∈ g.outbox) (hends : g.AllEndWell post)
    (honce : (post.filterMap fun body => (created? body).map Prod.fst).Nodup)
    (hnew : ∀ t task task', e.body = .taskCreated t task → .taskCreated t task' ∉ post)
    (hstand : ∀ c, g.api.owns c → g'.Standing c) : Inv g' := by
  have hwell : g'.AllEndWell post := by
    subst hg
    exact allEndWell_mono hends (fun _ _ ho => ho) (fun _ hc _ => hc) h.issuedDrawn fun _ hr => hr
  have hlog : ∀ n ≤ g.log.length, (g.log ++ [e]).take n = g.log.take n :=
    fun n hn => List.take_append_of_le_length hn
  subst hg
  exact {
    state := by
      show e.body.apply g.processor.state = stateOf (g.log ++ [e])
      rw [stateOf_append, h.state]
    apiState := by
      show g.api.state = stateOf ((g.log ++ [e]).take g.api.applied)
      rw [hlog _ h.applied]
      exact h.apiState
    applied := by
      show g.api.applied ≤ (g.log ++ [e]).length
      have := h.applied
      rw [List.length_append]
      omega
    unstreamed := h.unstreamed
    held := h.held
    drawn := h.drawn
    requests := h.requests
    followUps := h.followUps
    issuedDrawn := h.issuedDrawn
    mapping := h.mapping
    tasks := by
      intro t task ht
      have ht : (stateOf (g.log ++ [e])).tasks.get? t = some task := ht
      rw [stateOf_append] at ht
      rcases apply_tasks_cases ht with ⟨t', hb, rfl⟩ | ⟨old, hold, hid, hi', hk⟩
      · exact hi t' task hb
      · rw [hid, hk, hi']
        exact h.tasks t old hold
    created := by
      intro t task hm
      obtain ⟨hid, ho, hpending, hnone⟩ := h.created t task (hpost _ hm)
      refine ⟨hid, ho, hpending, ?_⟩
      show (stateOf (g.log ++ [e])).tasks.get? t = none
      rw [stateOf_append]
      -- the event neither creates the task nor finds it there
      cases ht : (e.body.apply (stateOf g.log)).tasks.get? t with
      | none => rfl
      | some task' =>
          rcases apply_tasks_cases ht with ⟨t', hb, rfl⟩ | ⟨old, hold, -⟩
          · exact absurd hm (hnew t' task' task hb)
          · rw [hnone] at hold
            cases hold
    createdOnce := honce
    ends := hwell
    answered := by
      intro c hc ha
      obtain ⟨k, e', hk, he', ha⟩ := answeredBefore_iff.1 ha
      have hk : k < g.api.applied := hk
      have hle := h.applied
      refine h.answered c hc (answeredBefore_iff.2 ⟨k, e', hk, ?_, ?_⟩)
      · have hget : (g.log ++ [e])[k]? = g.log[k]? := List.getElem?_append_left (by omega)
        exact hget ▸ he'
      · rw [← hlog k (by omega)]
        exact ha
    standing := hstand }

/-- What was answered is applied, and the client has it, or the API has yet to apply it. -/
theorem standing_of_answered (h : Inv g)
    (ha : answeredBefore g.log g.log.length c) (hg : g' = { g with outbox := post }.append e) :
    g'.Standing c := by
  obtain ⟨k, e', _, he', ha⟩ := answeredBefore_iff.1 ha
  by_cases hlate : (g.api.queues.get? c).isSome ∧ k < g.api.applied
  · refine .resolved (hg ▸ ?_)
    exact h.answered c hlate.1 (answeredBefore_iff.2 ⟨k, e', hlate.2, he', ha⟩)
  · obtain ⟨he, htake⟩ := getElem?_log_append e he'
    subst hg
    refine .answered k e' he (by rw [← htake] at ha; exact ha) fun hsome => ?_
    by_contra hlt
    exact hlate ⟨hsome, Nat.lt_of_not_le hlt⟩

/-- **The master logs what it sent to itself.** -/
theorem inv_log (h : Inv g)
    (hout : g.outbox = body :: post) (hok : g.keepsAnswering .log)
    (hg : g' = { g with outbox := post }.append (.plain body)) : Inv g' := by
  have hhead : body ∈ g.outbox := by rw [hout]; exact List.mem_cons_self
  have htail : ∀ b ∈ post, b ∈ g.outbox := fun b hb => by
    rw [hout]
    exact List.mem_cons_of_mem _ hb
  have hends := h.ends
  rw [hout] at hends
  have honce := h.createdOnce
  rw [hout] at honce
  have hi : g.Issued body := by
    intro t task hb
    obtain ⟨hid, ho, -⟩ := h.created t task (hb ▸ hhead)
    exact ⟨hid, ho⟩
  have hstate : g'.processor.state = body.apply g.processor.state := by rw [hg]; rfl
  refine inv_appended h hg hi htail hends.2 ?_ ?_ ?_
  · rw [List.filterMap_cons] at honce
    split at honce
    · exact honce
    · exact (List.nodup_cons.mp honce).2
  · intro t task task' hb hm
    obtain rfl : body = .taskCreated t task := hb
    rw [List.filterMap_cons] at honce
    exact (List.nodup_cons.mp honce).1 (List.mem_filterMap.mpr ⟨_, hm, rfl⟩)
  · intro c hc
    refine standing_appended h hg hc hi ?_ ?_ ?_
    · intro body' hb' hd
      rw [hout] at hb'
      rcases List.mem_cons.mp hb' with rfl | hb'
      · refine .inr ?_
        cases body' with
        | taskCreated t task =>
            -- the task begins, on an instance that is there
            obtain ⟨_, _, hpending, _⟩ := h.created t task hhead
            have hk : task.kind.commandId? = some c := of_decide_eq_true hd
            rw [keepsAnswering, hout] at hok
            simp only [List.head?_cons, hk, Option.all_some, hc, Bool.not_true,
              Bool.false_or] at hok
            refine .runs ⟨t, task, ?_, hk, by rw [hpending]; rfl, ?_⟩
            · rw [hstate]
              exact Dict.get?_set_self _ _ _
            · rw [hstate]
              exact hok
        | instanceDeleted i => exact standing_deleted h rfl hd hg
        | _ => cases hd
      · exact .inl hb'
    · intro t task hb ht _ hk
      cases body with
      | taskCreated t' task' =>
          obtain ⟨_, _, hpending, _⟩ := h.created t' task' hhead
          rw [LoggedEvent.body, EventBody.finishes?, hpending] at hb
          cases hb
      | taskStatusUpdated t' status =>
          have heq : t' = t := by
            simp only [LoggedEvent.body, EventBody.finishes?] at hb
            split at hb
            · cases hb
            · exact Option.some.inj hb
          subst heq
          obtain ⟨origin, ho, hend⟩ := hends.1
          have ht' := h.state ▸ ht
          rw [(h.tasks t' task ht').2] at ho
          obtain rfl := Option.some.inj ho
          rcases hend c hk hc with hr | hm
          · exact .resolved (hg ▸ hr)
          · -- the master is about to log the end of the instance, which closes the stream
            refine .undecided (.instanceDeleted task.instanceId) (hg ▸ hm) ?_
            have hserves : g.processor.state.serves c task.instanceId :=
              State.serves_iff.2 ⟨t', task, ht, rfl, hk⟩
            rcases serves_apply hserves fun t task task' ht hb => h.same hi ht hb with hs | hs
            · rw [decides, hstate]
              exact hs
            · obtain ⟨_, _, hb, _⟩ := hs
              cases hb
      | _ => cases hb
    · intro t task hb ht hk
      obtain rfl : body = .taskDeleted t := hb
      obtain ⟨origin, ho, hend⟩ := hends.1
      have ht' := h.state ▸ ht
      rw [(h.tasks t task ht').2] at ho
      obtain rfl := Option.some.inj ho
      exact .resolved (hg ▸ hend c hk hc)

/-- More ids are in use. -/
theorem inv_issued (h : Inv g) {drawn : List CommandId}
    (hsub : ∀ c ∈ g.drawn, c ∈ drawn)
    (hiss : ∀ t origin, g.issued.get? t = some origin → issued.get? t = some origin)
    (hdrawn : ∀ t c i, issued.get? t = some (some c, i) → c ∈ drawn)
    (hg : g' = { g with drawn := drawn, issued := issued }) : Inv g' := by
  subst hg
  exact {
    state := h.state
    apiState := h.apiState
    applied := h.applied
    unstreamed := h.unstreamed
    held := h.held
    drawn := fun c hc => hsub c (h.drawn c hc)
    requests := fun x hx c hc => hsub c (h.requests x hx c hc)
    followUps := fun c hc => ⟨hsub c (h.followUps c hc).1, (h.followUps c hc).2⟩
    issuedDrawn := hdrawn
    mapping := by
      intro c t ht
      obtain ⟨i, ho⟩ := h.mapping c t ht
      exact ⟨i, hiss t _ ho⟩
    tasks := fun t task ht => ⟨(h.tasks t task ht).1, hiss t _ (h.tasks t task ht).2⟩
    created := by
      intro t task hm
      obtain ⟨hid, ho, hrest⟩ := h.created t task hm
      exact ⟨hid, hiss t _ ho, hrest⟩
    createdOnce := h.createdOnce
    ends := allEndWell_mono h.ends hiss (fun _ hc _ => hc) h.issuedDrawn fun _ hr => hr
    answered := h.answered
    standing := by
      intro c hc
      cases h.standing c hc with
      | waiting model hashes hmem => exact .waiting model hashes hmem
      | resolved hr => exact .resolved hr
      | answered k e he ha hk => exact .answered k e he ha hk
      | undecided body hb hd => exact .undecided body hb hd
      | runs hr => exact .runs hr }

/-- An event of another source is recorded: what it creates was created before, or is new. -/
theorem inv_issue (h : Inv g) (he : g.sentByOthers e)
    (hg : g' = { g with drawn := ((created? e.body).bind (·.2.1)).toList ++ g.drawn }.issue
      [e.body]) : Inv g' ∧ g'.Issued e.body := by
  have hcases : created? e.body = none ∨ ∃ t task, e = .plain (.taskCreated t task) := by
    cases e with
    | chunk c chunk => exact .inl rfl
    | plain body =>
        cases body with
        | taskCreated t task => exact .inr ⟨t, task, rfl⟩
        | _ => exact .inl rfl
  rcases hcases with hquiet | ⟨t, task, rfl⟩
  · rw [hquiet, issue_of_quiet (by simpa using hquiet)] at hg
    subst hg
    refine ⟨h, fun t task hb => ?_⟩
    rw [hb] at hquiet
    cases hquiet
  · simp only [sentByOthers, Bool.and_eq_true, decide_eq_true_eq] at he
    obtain ⟨⟨hid, hagree⟩, -⟩ := he
    have hissue : g' = { g with
        drawn := task.kind.commandId?.toList ++ g.drawn
        issued := g.issued.set t (task.kind.commandId?, task.instanceId) } := hg
    refine ⟨inv_issued h (fun c hc => List.mem_append_right _ hc) ?_ ?_ hissue, ?_⟩
    · intro t' origin ho
      rw [Dict.get?_set]
      split
      · rename_i heq
        rw [← heq, ho, Option.all_some] at hagree
        rw [of_decide_eq_true hagree]
      · exact ho
    · intro t' c i ho
      rw [Dict.get?_set] at ho
      split at ho
      · have heq := (Prod.ext_iff.mp (Option.some.inj ho)).1
        exact List.mem_append_left _ (by rw [show task.kind.commandId? = some c from heq]; simp)
      · exact List.mem_append_right _ (h.issuedDrawn t' c i ho)
    · intro t' task' hb
      obtain ⟨rfl, rfl⟩ := EventBody.taskCreated.inj hb
      rw [hissue]
      exact ⟨hid, Dict.get?_set_self _ _ _⟩

/-- **The master logs an event of another source**, which ends no task that is still needed. -/
theorem inv_logOther (h : Inv g) (he : g.sentByOthers e)
    (hok : g.keepsAnswering (.logOther e)) {g₁ : Gateway}
    (hg₁ : g₁ = { g with drawn := ((created? e.body).bind (·.2.1)).toList ++ g.drawn }.issue
      [e.body]) : Inv (g₁.append e) := by
  obtain ⟨h₁, hi⟩ := inv_issue h he hg₁
  have hsame : g₁.api = g.api ∧ g₁.log = g.log ∧ g₁.processor = g.processor
      ∧ g₁.outbox = g.outbox := by
    rw [hg₁, issue]
    split <;> exact ⟨rfl, rfl, rfl, rfl⟩
  obtain ⟨hapi, hlog, hproc, hout⟩ := hsame
  have hg : g₁.append e = { g₁ with outbox := g₁.outbox }.append e := rfl
  refine inv_appended h₁ hg hi (fun _ hb => hb) h₁.ends h₁.createdOnce ?_ ?_
  · intro t task task' hb hm
    have hplain : e = .plain (.taskCreated t task) := by
      cases e with
      | plain body => exact congrArg _ hb
      | chunk c chunk => cases hb
    rw [hplain] at he
    simp only [sentByOthers, Bool.and_eq_true, List.all_eq_true] at he
    have hne := he.2 _ (hout ▸ hm)
    simp [created?] at hne
  · intro c hc
    refine standing_appended h₁ hg hc hi (fun _ hb _ => .inl hb) ?_ ?_
    · intro t task hb ht hflight hk
      rw [hproc] at ht
      rw [hapi] at hc
      simp only [keepsAnswering, hb, Option.bind_some, ht, Option.all_some, hflight, hk, hc,
        Bool.not_true, Bool.false_or] at hok
      exact standing_of_answered h₁ (hlog ▸ hok) hg
    · intro t task hb
      cases e with
      | plain body =>
          obtain rfl : body = .taskDeleted t := hb
          cases he
      | chunk c chunk => cases hb

end Steps

end Gateway

end Exo
