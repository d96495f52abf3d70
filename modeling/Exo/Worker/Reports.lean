import Exo.Worker.Main

/-!
# What runners and supervisors report

The status of a task goes back to running only by the report of a runner that picked it up.
`Supervisor.Evolves` says all that a step of a supervisor can change of its books, and where
such a report comes from; the rest of the development reads steps of supervisors through it.
-/

namespace Exo

open Lib (Dict)

/-- The event makes a task pending or running. -/
def EventBody.revives (taskId : TaskId) : EventBody → Bool
  | .taskCreated taskId' task => taskId' = taskId ∧ task.taskStatus.inFlight
  | .taskStatusUpdated taskId' status => taskId' = taskId ∧ status.inFlight
  | _ => false

/-- A report of a runner, other than that it runs a task. -/
def EventBody.quiet : EventBody → Bool
  | .runnerStatusUpdated .. | .taskAcknowledged _ | .chunkGenerated _ => true
  | .taskStatusUpdated _ status => !status.inFlight
  | _ => false

/-- A report of a runner. -/
def EventBody.isReport (body : EventBody) : Bool :=
  match body with
  | .taskStatusUpdated _ .running => true
  | _ => body.quiet

variable {body : EventBody}

theorem EventBody.not_revives_of_quiet (h : body.quiet) (t : TaskId) :
    body.revives t = false := by
  cases body <;> simp_all [quiet, revives]

theorem EventBody.isReport_of_quiet (h : body.quiet) : body.isReport := by
  unfold isReport
  split
  · rfl
  · exact h

namespace RunnerMessage

def quiet : RunnerMessage → Bool
  | .event body => body.quiet
  | .terminationError _ => true

def isReport : RunnerMessage → Bool
  | .event body => body.isReport
  | .terminationError _ => true

def revives (taskId : TaskId) : RunnerMessage → Bool
  | .event body => body.revives taskId
  | .terminationError _ => false

variable {m : RunnerMessage}

theorem not_revives_of_quiet (h : m.quiet) (t : TaskId) :
    m.revives t = false := by
  cases m with
  | event body => exact EventBody.not_revives_of_quiet h t
  | terminationError error => rfl

theorem isReport_of_quiet (h : m.quiet) : m.isReport := by
  cases m with
  | event body => exact EventBody.isReport_of_quiet h
  | terminationError error => rfl

end RunnerMessage

/-! ## Runners -/

namespace Runner

/-- A step of a runner that reports nothing as running. -/
structure Quiet (r : Runner) (p : Runner × List RunnerMessage) : Prop where
  seen : ∀ t ∈ r.seen, t ∈ p.1.seen
  messages : ∀ m ∈ p.2, m.quiet

variable {r : Runner} {task : Task}

theorem quiet_raise (r : Runner) (error : String) : Quiet r (r.raise error) :=
  ⟨fun _ ht => ht, by simp [raise, RunnerMessage.quiet]⟩

theorem quiet_boot (r : Runner) : Quiet r r.boot :=
  ⟨fun _ ht => ht, by simp [boot, statusEvent, RunnerMessage.quiet, EventBody.quiet]⟩

theorem quiet_shutdown (r : Runner) (task : Task) : Quiet r (r.shutdown task) :=
  ⟨fun _ ht => ht, by
    simp [shutdown, statusEvent, ackEvent, RunnerMessage.quiet, EventBody.quiet]⟩

theorem quiet_complete (r : Runner) (task : Task) (status : RunnerStatus) (phase : RunnerPhase) :
    Quiet r (r.complete task status phase) :=
  ⟨fun _ ht => ht, by
    simp [complete, statusEvent, taskStatusEvent, RunnerMessage.quiet, EventBody.quiet,
      TaskStatus.inFlight]⟩

theorem quiet_loop (r : Runner) : Quiet r r.loop := by
  unfold loop
  split
  · exact ⟨fun _ ht => ht, by simp [statusEvent, RunnerMessage.quiet, EventBody.quiet]⟩
  · exact ⟨fun _ ht => ht, by simp⟩

theorem quiet_handleTask (r : Runner) (task : Task) : Quiet r (r.handleTask task) := by
  unfold handleTask
  split
  -- a pair of a status and an acknowledgement, or an exception
  all_goals try split
  all_goals first
    | exact quiet_raise r _
    | exact quiet_shutdown r task
    | exact ⟨fun _ ht => ht, by
        simp [statusEvent, ackEvent, RunnerMessage.quiet, EventBody.quiet]⟩

variable {p : Runner × List RunnerMessage}

theorem quiet_unblock {port : Option Nat}
    (h : r.unblock port = some p) : Quiet r p := by
  unfold unblock at h
  split at h
  · rw [← Option.some.inj h]; exact quiet_complete r _ _ _
  · rw [← Option.some.inj h]
    exact ⟨(quiet_complete { r with isEngine := true } _ _ _).seen,
      (quiet_complete { r with isEngine := true } _ _ _).messages⟩
  · rw [← Option.some.inj h]
    have hseen : (r.startPrefillServer port).seen = r.seen := by
      unfold startPrefillServer
      split <;> rfl
    have := quiet_complete (r.startPrefillServer port)
    exact ⟨fun t ht => (this _ _ _).seen t (hseen ▸ ht), (this _ _ _).messages⟩
  · rw [← Option.some.inj h]; exact quiet_complete r _ _ _
  · cases h

theorem quiet_loadProgress {k n : Nat}
    (h : r.loadProgress k n = some p) : Quiet r p := by
  unfold loadProgress at h
  split at h
  · rw [← Option.some.inj h]
    exact ⟨fun _ ht => ht, by simp [statusEvent, RunnerMessage.quiet, EventBody.quiet]⟩
  · cases h

theorem quiet_responseEvents (r : Runner) (results : List (TaskId × GenerationResponse)) :
    ∀ m ∈ (r.responseEvents results).1, m.quiet := by
  fun_induction responseEvents r results with
  | case1 => simp
  | case2 taskId results ih => exact ih
  | case3 taskId results sent ok heq ih =>
      rw [heq] at ih
      intro m hm
      rcases List.mem_cons.mp hm with rfl | hm
      · simp [taskStatusEvent, RunnerMessage.quiet, EventBody.quiet, TaskStatus.inFlight]
      · exact ih m hm
  | case4 => simp
  | case5 taskId results task htask sent ok heq ih =>
      rw [heq] at ih
      intro m hm
      rcases List.mem_append.mp hm with hm | hm
      · obtain ⟨c, -, rfl⟩ := List.mem_map.mp hm
        simp [RunnerMessage.quiet, EventBody.quiet]
      · exact ih m hm

theorem quiet_engineStep {results : List (TaskId × GenerationResponse)}
    (h : r.engineStep results = some p) : Quiet r p := by
  unfold engineStep at h
  have hsent := r.quiet_responseEvents results
  split at h
  · dsimp only at h
    split at h
    · rw [← Option.some.inj h]
      exact ⟨fun _ ht => ht, hsent⟩
    · rw [← Option.some.inj h]
      refine ⟨fun _ ht => ht, ?_⟩
      intro m hm
      rcases List.mem_append.mp hm with hm | hm
      · exact hsent m hm
      · exact (quiet_raise r _).messages m hm
  · cases h

/-- What a poll finds is never reported as running. -/
theorem quiet_pollTask (r : Runner) (task : Task) : Quiet r (r.pollTask task) := by
  unfold pollTask
  split
  · exact quiet_loop r
  · dsimp only
    have hsub : ∀ t ∈ r.seen, t ∈ task.taskId :: r.seen := fun t ht => List.mem_cons_of_mem _ ht
    have hloop := quiet_loop (submitGeneration { r with seen := task.taskId :: r.seen } task)
    split
    iterate 3
      refine ⟨fun t ht => hloop.seen t (hsub t ht), ?_⟩
      intro m hm
      rcases List.mem_cons.mp hm with rfl | hm
      · simp [ackEvent, RunnerMessage.quiet, EventBody.quiet]
      · exact hloop.messages m hm
    · exact ⟨hsub, (quiet_shutdown { r with seen := task.taskId :: r.seen } task).messages⟩
    · exact ⟨hsub, (quiet_raise { r with seen := task.taskId :: r.seen } _).messages⟩

/-- What a runner takes off its queue has been seen; it is reported as running only if it was new. -/
structure Takes (r : Runner) (task : Task) (p : Runner × List RunnerMessage) : Prop where
  seen : ∀ t ∈ r.seen, t ∈ p.1.seen
  taken : task.taskId ∈ p.1.seen
  messages : ∀ m ∈ p.2, m.isReport
  revives : ∀ m ∈ p.2, ∀ t, m.revives t → t = task.taskId ∧ t ∉ r.seen

theorem takes_handleFirstTask (r : Runner) (task : Task) :
    Takes r task (r.handleFirstTask task) := by
  unfold handleFirstTask
  split
  · rename_i hseen
    exact ⟨fun _ ht => ht, hseen, by simp, by simp⟩
  · rename_i hnew
    have hq := quiet_handleTask { r with seen := task.taskId :: r.seen } task
    refine ⟨fun t ht => hq.seen t (List.mem_cons_of_mem _ ht), hq.seen _ List.mem_cons_self,
      ?_, ?_⟩
    · intro m hm
      rcases List.mem_cons.mp hm with rfl | hm
      · rfl
      · exact RunnerMessage.isReport_of_quiet (hq.messages m hm)
    · intro m hm t ht
      rcases List.mem_cons.mp hm with rfl | hm
      · simp only [taskStatusEvent, RunnerMessage.revives, EventBody.revives,
          decide_eq_true_eq] at ht
        exact ⟨ht.1.symm, ht.1 ▸ hnew⟩
      · rw [RunnerMessage.not_revives_of_quiet (hq.messages m hm)] at ht
        cases ht

theorem taken_pollTask (r : Runner) (task : Task) : task.taskId ∈ (r.pollTask task).1.seen := by
  unfold pollTask
  split
  · rename_i hseen
    exact (quiet_loop r).seen _ hseen
  · dsimp only
    split
    iterate 3
      exact (quiet_loop _).seen _ List.mem_cons_self
    · exact List.mem_cons_self
    · exact List.mem_cons_self

theorem takes_take (h : r.take task = some p) :
    Takes r task p := by
  unfold take at h
  split at h
  · rw [← Option.some.inj h]; exact takes_handleFirstTask r task
  · rw [← Option.some.inj h]
    have hq := quiet_pollTask r task
    refine ⟨hq.seen, taken_pollTask r task,
      fun m hm => RunnerMessage.isReport_of_quiet (hq.messages m hm), ?_⟩
    intro m hm t ht
    rw [RunnerMessage.not_revives_of_quiet (hq.messages m hm)] at ht
    cases ht
  · cases h

end Runner

/-! ## Supervisors -/

namespace Supervisor

/-- A report that the task is running can still come from this runner. -/
def unsettled (s : Supervisor) (taskId : TaskId) : Bool :=
  s.forwarding && (s.messages.any (·.revives taskId)
    || (!s.exited && !s.runner.seen.contains taskId && s.tasks.any (·.taskId = taskId)))

variable {s : Supervisor}

theorem unsettled_iff {t : TaskId} :
    s.unsettled t ↔ s.forwarding = true ∧ ((∃ m ∈ s.messages, m.revives t)
      ∨ (s.exited = false ∧ t ∉ s.runner.seen ∧ ∃ task ∈ s.tasks, task.taskId = t)) := by
  simp [unsettled, and_assoc]

/-- What a step of a supervisor, or of its process, leaves of its books and sends. -/
structure Evolves (s s' : Supervisor) (events : List EventBody) : Prop where
  boundInstance : s'.boundInstance = s.boundInstance
  inProgress : ∀ t task, s'.inProgress.get? t = some task → s.inProgress.get? t = some task
  /-- A task only leaves the tasks in progress when it is completed. -/
  kept : ∀ t, s.inProgress.get? t ≠ none → s'.inProgress.get? t ≠ none ∨ t ∈ s'.completed
  completed : ∀ t ∈ s.completed, t ∈ s'.completed
  cancelled : s'.cancelled = s.cancelled
  closed : s.closed = true → s'.closed = true
  witnessed : s'.witnessed = s.witnessed
  /-- Its channel brings reports of the runner only. -/
  reports : (∀ m ∈ s.messages, m.isReport) → ∀ m ∈ s'.messages, m.isReport
  sent : (∀ m ∈ s.messages, m.isReport) → ∀ e ∈ events, e.isReport
  unsettled : ∀ t, s'.unsettled t → s.unsettled t
  revives : ∀ e ∈ events, ∀ t, e.revives t → s.unsettled t

theorem exited_iff : s.exited = true ↔ ∃ c, s.runner.phase = .exited c := by
  unfold exited
  split <;> simp_all

section Sent

variable {s : Supervisor} {p : Runner × List RunnerMessage}

/-- Only a report of the process itself can make more unsettled than there was. -/
theorem unsettled_sent {t : TaskId} (hrun : s.exited = false)
    (hseen : ∀ t ∈ s.runner.seen, t ∈ p.1.seen) (hq : ∀ m ∈ p.2, m.revives t = false)
    (h : (s.sent p).unsettled t) : s.unsettled t := by
  rw [unsettled_iff] at h ⊢
  obtain ⟨hf, h⟩ := h
  refine ⟨hf, ?_⟩
  rcases h with ⟨m, hm, hr⟩ | ⟨-, hs, htask⟩
  · rcases List.mem_append.mp hm with hm | hm
    · exact .inl ⟨m, hm, hr⟩
    · rw [hq m hm] at hr; cases hr
  · exact .inr ⟨hrun, fun hmem => hs (hseen t hmem), htask⟩

/-- A step of the process that reports nothing as running. -/
theorem evolves_quiet (hrun : s.exited = false) (h : Runner.Quiet s.runner p) :
    Evolves s (s.sent p) [] where
  boundInstance := rfl
  inProgress := fun _ _ ht => ht
  kept := fun _ ht => .inl ht
  completed := fun _ ht => ht
  cancelled := rfl
  closed := fun hc => by simp [sent, hc]
  witnessed := rfl
  reports := fun hm m hmem => by
    rcases List.mem_append.mp hmem with hmem | hmem
    · exact hm m hmem
    · exact RunnerMessage.isReport_of_quiet (h.messages m hmem)
  sent := by simp
  unsettled := fun t =>
    unsettled_sent hrun h.seen fun m hm => RunnerMessage.not_revives_of_quiet (h.messages m hm) t
  revives := by simp

/-- The process takes a task: a report about it takes the place of its being unread. -/
theorem evolves_takes {task : Task} {tasks : List Task} (hrun : s.exited = false)
    (hs : s.tasks = task :: tasks) (h : Runner.Takes s.runner task p) :
    Evolves s ({ s with tasks := tasks }.sent p) [] where
  boundInstance := rfl
  inProgress := fun _ _ ht => ht
  kept := fun _ ht => .inl ht
  completed := fun _ ht => ht
  cancelled := rfl
  closed := fun hc => by simp [sent, hc]
  witnessed := rfl
  reports := fun hm m hmem => by
    rcases List.mem_append.mp hmem with hmem | hmem
    · exact hm m hmem
    · exact h.messages m hmem
  sent := by simp
  unsettled := by
    intro t ht
    rw [unsettled_iff] at ht ⊢
    obtain ⟨hf, ht⟩ := ht
    refine ⟨hf, ?_⟩
    rcases ht with ⟨m, hm, hr⟩ | ⟨-, hseen, task', hmem, rfl⟩
    · rcases List.mem_append.mp hm with hm | hm
      · exact .inl ⟨m, hm, hr⟩
      · obtain ⟨rfl, hnew⟩ := h.revives m hm t hr
        exact .inr ⟨hrun, hnew, task, by rw [hs]; exact List.mem_cons_self, rfl⟩
    · exact .inr ⟨hrun, fun hmem => hseen (h.seen _ hmem), task',
        by rw [hs]; exact List.mem_cons_of_mem _ hmem, rfl⟩
  revives := by simp

end Sent

variable {s s' : Supervisor} {events : List EventBody}

/-- Nothing but the supervisor's own view of its runner changes. -/
theorem evolves_frame
    (hb : s'.boundInstance = s.boundInstance) (hi : s'.inProgress = s.inProgress)
    (hc : s'.completed = s.completed) (hcan : s'.cancelled = s.cancelled)
    (hcl : s.closed = true → s'.closed = true) (hw : s'.witnessed = s.witnessed)
    (hm : ∀ m ∈ s'.messages, m ∈ s.messages) (he : ∀ e ∈ events, e.quiet)
    (hu : ∀ t, s'.unsettled t → s.unsettled t) : Evolves s s' events where
  boundInstance := hb
  inProgress := fun _ _ ht => hi ▸ ht
  kept := fun _ ht => .inl (hi ▸ ht)
  completed := fun _ ht => hc ▸ ht
  cancelled := hcan
  closed := hcl
  witnessed := hw
  reports := fun h m hmem => h m (hm m hmem)
  sent := fun _ e hmem => EventBody.isReport_of_quiet (he e hmem)
  unsettled := hu
  revives := fun e hmem t ht => by
    rw [EventBody.not_revives_of_quiet (he e hmem)] at ht
    cases ht

theorem quiet_checkRunner (s : Supervisor) (exitcode : Int) (cause : String) :
    ∀ e ∈ (s.checkRunner exitcode cause).2, e.quiet := by
  unfold checkRunner
  dsimp only
  split
  · simp
  · intro e he
    rcases List.mem_append.mp he with he | he
    · obtain ⟨task, -, he⟩ := List.mem_filterMap.mp he
      obtain ⟨c, -, rfl⟩ := Option.map_eq_some_iff.mp he
      rfl
    · rw [List.mem_singleton.mp he]; rfl

theorem evolves_checkRunner (s : Supervisor) (exitcode : Int) (cause : String) :
    Evolves s (s.checkRunner exitcode cause).1 (s.checkRunner exitcode cause).2 := by
  have hq := quiet_checkRunner s exitcode cause
  revert hq
  unfold checkRunner
  dsimp only
  split
  · intro hq
    refine evolves_frame rfl rfl rfl rfl id rfl (fun _ hm => hm) hq ?_
    intro t ht
    rw [unsettled_iff] at ht ⊢
    refine ⟨ht.1, ht.2.imp_right ?_⟩
    intro h
    simp [exited] at h
  · intro hq
    exact evolves_frame rfl rfl rfl rfl (fun _ => rfl) rfl (fun _ hm => hm) hq
      fun t ht => by simp [unsettled, stop, releasePending] at ht

theorem Evolves.endForwarding
    (h : Evolves s s' events) : Evolves s s'.endForwarding events :=
  { h with unsettled := fun t ht => by simp [Supervisor.unsettled, Supervisor.endForwarding] at ht }

/-- The next event of the process is forwarded. -/
theorem evolves_forward {messages : List RunnerMessage}
    (hf : s.forwarding = true) (hs : s.messages = .event body :: messages)
    (h : forwardEvent { s with messages := messages } body = some (s', events)) :
    Evolves s s' events := by
  have hmem : ∀ m ∈ messages, m ∈ s.messages := fun m hm => by
    rw [hs]; exact List.mem_cons_of_mem _ hm
  have hunsettled : ∀ t, Supervisor.unsettled { s with messages := messages } t → s.unsettled t := by
    intro t ht
    rw [unsettled_iff] at ht ⊢
    exact ⟨ht.1, ht.2.imp_left fun ⟨m, hm, hr⟩ => ⟨m, hmem m hm, hr⟩⟩
  have hrevives : ∀ t, body.revives t → s.unsettled t := fun t ht =>
    unsettled_iff.2 ⟨hf, .inl ⟨.event body, by rw [hs]; exact List.mem_cons_self, ht⟩⟩
  have hreport : (∀ m ∈ s.messages, m.isReport) → body.isReport := fun hm =>
    hm (.event body) (by rw [hs]; exact List.mem_cons_self)
  unfold forwardEvent at h
  split at h
  · obtain ⟨rfl, rfl⟩ := Prod.mk.inj (Option.some.inj h)
    exact evolves_frame rfl rfl rfl rfl id rfl hmem (by simp [EventBody.quiet]) hunsettled
  · split at h
    · obtain ⟨rfl, rfl⟩ := Prod.mk.inj (Option.some.inj h)
      exact evolves_frame rfl rfl rfl rfl id rfl hmem (by simp) hunsettled
    · cases h
  · rename_i taskId
    split at h
    · obtain ⟨rfl, rfl⟩ := Prod.mk.inj (Option.some.inj h)
      -- the completed task leaves the tasks in progress
      exact {
        boundInstance := rfl
        inProgress := fun t task ht => by
          rw [Dict.get?_erase] at ht
          split at ht
          · cases ht
          · exact ht
        kept := fun t ht => by
          by_cases htask : t = taskId
          · exact .inr (htask ▸ List.mem_cons_self)
          · exact .inl (by rw [Dict.get?_erase_ne _ htask]; exact ht)
        completed := fun t ht => List.mem_cons_of_mem _ ht
        cancelled := rfl
        closed := id
        witnessed := rfl
        reports := fun hm m hmem' => hm m (hmem m hmem')
        sent := fun _ e he => by rw [List.mem_singleton.mp he]; rfl
        unsettled := hunsettled
        revives := fun e he t ht => by
          rw [List.mem_singleton.mp he] at ht
          simp [EventBody.revives, TaskStatus.inFlight] at ht }
    · cases h
  · obtain ⟨rfl, rfl⟩ := Prod.mk.inj (Option.some.inj h)
    exact {
      boundInstance := rfl
      inProgress := fun _ _ ht => ht
      kept := fun _ ht => .inl ht
      completed := fun _ ht => ht
      cancelled := rfl
      closed := id
      witnessed := rfl
      reports := fun hm m hmem' => hm m (hmem m hmem')
      sent := fun hm e he => by rw [List.mem_singleton.mp he]; exact hreport hm
      unsettled := hunsettled
      revives := fun e he t ht => hrevives t (by rw [List.mem_singleton.mp he] at ht; exact ht) }

/-- A runner that has ended is in none of the phases in which something happens. -/
theorem not_exited (h : ∀ c, s.runner.phase ≠ .exited c) : s.exited = false := by
  cases he : s.exited with
  | false => rfl
  | true =>
      obtain ⟨c, hc⟩ := exited_iff.1 he
      exact absurd hc (h c)

/-- **A step of a supervisor.** -/
theorem step_evolves {a : Action}
    (h : s.step a = some (some (s', events))) : Evolves s s' events := by
  cases a with
  | boot =>
      simp only [step] at h
      split at h
      · rename_i hp
        obtain ⟨rfl, rfl⟩ := Prod.mk.inj (Option.some.inj (Option.some.inj h))
        exact evolves_quiet (not_exited (by simp [hp])) (Runner.quiet_boot _)
      · cases h
  | take =>
      simp only [step] at h
      split at h
      · rename_i task tasks hs
        obtain ⟨p, hp, he⟩ := Option.map_eq_some_iff.mp h
        obtain ⟨rfl, rfl⟩ := Prod.mk.inj (Option.some.inj he)
        refine evolves_takes (not_exited ?_) hs (Runner.takes_take hp)
        intro c hc
        simp [Runner.take, hc] at hp
      · cases h
  | takeClosed =>
      simp only [step] at h
      split at h
      · obtain ⟨r, hr, he⟩ := Option.map_eq_some_iff.mp h
        obtain ⟨rfl, rfl⟩ := Prod.mk.inj (Option.some.inj he)
        unfold Runner.takeClosed at hr
        refine evolves_quiet (not_exited ?_) ⟨?_, by simp⟩
        · intro c hc
          simp [hc] at hr
        · intro t ht
          split at hr
          · rw [← Option.some.inj hr]; exact ht
          · rw [← Option.some.inj hr]; exact ht
          · cases hr
      · cases h
  | pollEmpty =>
      simp only [step] at h
      split at h
      · rename_i hp
        obtain ⟨rfl, rfl⟩ := Prod.mk.inj (Option.some.inj (Option.some.inj h))
        exact evolves_quiet (not_exited (by simp [hp])) (Runner.quiet_loop _)
      · cases h
  | unblock port =>
      obtain ⟨p, hp, he⟩ := Option.map_eq_some_iff.mp h
      obtain ⟨rfl, rfl⟩ := Prod.mk.inj (Option.some.inj he)
      refine evolves_quiet (not_exited ?_) (Runner.quiet_unblock hp)
      intro c hc
      simp [Runner.unblock, hc] at hp
  | loadProgress k n =>
      obtain ⟨p, hp, he⟩ := Option.map_eq_some_iff.mp h
      obtain ⟨rfl, rfl⟩ := Prod.mk.inj (Option.some.inj he)
      refine evolves_quiet (not_exited ?_) (Runner.quiet_loadProgress hp)
      intro c hc
      simp [Runner.loadProgress, hc] at hp
  | engineStep reads results =>
      obtain ⟨p, hp, he⟩ := Option.map_eq_some_iff.mp h
      obtain ⟨rfl, rfl⟩ := Prod.mk.inj (Option.some.inj he)
      have hrun : s.exited = false := by
        refine not_exited ?_
        intro c hc
        simp [Runner.engineStep, hc] at hp
      exact { evolves_quiet hrun (Runner.quiet_engineStep hp) with }
  | die exitcode =>
      obtain ⟨rfl, rfl⟩ := Prod.mk.inj (Option.some.inj (Option.some.inj h))
      refine evolves_frame rfl rfl rfl rfl id rfl (fun _ hm => hm) (by simp) ?_
      intro t ht
      rw [unsettled_iff] at ht ⊢
      refine ⟨ht.1, ht.2.imp_right ?_⟩
      intro h
      simp [exited] at h
  | forward =>
      simp only [step] at h
      split at h
      · rename_i hf
        split at h
        · rename_i body messages hs
          exact evolves_forward hf hs (Option.some.inj h)
        · cases h
      · cases h
  | forwardError exitcode cause =>
      simp only [step] at h
      split at h
      · split at h
        · rename_i messages hs
          obtain ⟨rfl, rfl⟩ := Prod.mk.inj (Option.some.inj (Option.some.inj h))
          have he : Evolves { s with messages := messages } _ _ :=
            (evolves_checkRunner { s with messages := messages } exitcode cause).endForwarding
          exact { he with
            reports := fun hm => he.reports fun m hmem =>
              hm m (by rw [hs]; exact List.mem_cons_of_mem _ hmem)
            sent := fun hm => he.sent fun m hmem =>
              hm m (by rw [hs]; exact List.mem_cons_of_mem _ hmem)
            unsettled := fun t ht => by
              simp [Supervisor.unsettled, Supervisor.endForwarding] at ht
            revives := fun e hmem t ht => by
              rw [EventBody.not_revives_of_quiet (quiet_checkRunner _ _ _ e hmem)] at ht
              cases ht }
        · cases h
      · cases h
  | forwardClosed exitcode cause =>
      simp only [step] at h
      split at h
      · obtain ⟨rfl, rfl⟩ := Prod.mk.inj (Option.some.inj (Option.some.inj h))
        exact (evolves_checkRunner s _ _).endForwarding
      · cases h
  | forwardEnd =>
      simp only [step] at h
      split at h
      · obtain ⟨rfl, rfl⟩ := Prod.mk.inj (Option.some.inj (Option.some.inj h))
        exact (evolves_frame rfl rfl rfl rfl id rfl (fun _ hm => hm) (by simp)
          (fun _ ht => ht)).endForwarding
      · cases h
  | watch cause =>
      simp only [step] at h
      split at h
      · split at h
        · cases h
        · obtain ⟨rfl, rfl⟩ := Prod.mk.inj (Option.some.inj (Option.some.inj h))
          exact evolves_checkRunner _ _ _
      · cases h

end Supervisor

end Exo
