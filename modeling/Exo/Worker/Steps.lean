import Exo.Worker.Reports

/-!
# What a step of a worker does

`Worker.Origin` says where each supervisor of the next state comes from, and
`Worker.step_outbox`, `step_sent` and `step_planner` say what is new in the rest of the
worker. Invariants about workers are read off these.
-/

namespace Exo

open Lib (Dict)

/-! ## What is planned -/

namespace PlanInput

variable {p : PlanInput} {task : Task}

/-- A task that is new and does not generate. -/
def IsNew (p : PlanInput) (task : Task) : Prop :=
  ∃ instanceId kind, task = p.newTask instanceId kind ∧ kind.commandId? = none

theorem firstAnswer_some {α β : Type} {f : α → Except PlanError (Option β)} {l : List α} {b : β}
    (h : firstAnswer f l = .ok (some b)) : ∃ a ∈ l, f a = .ok (some b) := by
  induction l with
  | nil => cases h
  | cons a l ih =>
      simp only [firstAnswer] at h
      split at h
      · obtain ⟨a', ha', hf⟩ := ih h
        exact ⟨a', List.mem_cons_of_mem _ ha', hf⟩
      · exact ⟨a, List.mem_cons_self, h⟩

theorem cancelTasks_isNew (h : p.cancelTasks = some task) : p.IsNew task := by
  obtain ⟨t, -, ht⟩ := List.exists_of_findSome?_eq_some h
  split at ht
  · obtain ⟨⟨r, runner⟩, -, hr⟩ := List.exists_of_findSome?_eq_some ht
    dsimp only at hr
    split at hr
    · exact ⟨_, _, (Option.some.inj hr).symm, rfl⟩
    · cases hr
  · cases ht

theorem killRunner_isNew (h : p.killRunner = some task) : p.IsNew task := by
  obtain ⟨runner, -, hr⟩ := List.exists_of_findSome?_eq_some h
  dsimp only at hr
  split at hr
  · exact ⟨_, _, (Option.some.inj hr).symm, rfl⟩
  · cases hr

/-- What the backoff lets through is what was asked for. -/
theorem shouldProceed_some {b : KeyedBackoff} {now : Time} {key : Nat} {asked : Task}
    (h : ((b.shouldProceed now key).map fun proceed => if proceed then some asked else none)
      = .ok (some task)) : asked = task := by
  cases hb : b.shouldProceed now key with
  | error e =>
      rw [hb] at h
      cases h
  | ok proceed =>
      rw [hb] at h
      cases proceed with
      | false => cases h
      | true => exact Option.some.inj (Except.ok.inj h)

theorem createRunner_isNew (h : p.createRunner = .ok (some task)) : p.IsNew task := by
  obtain ⟨inst, -, hi⟩ := firstAnswer_some h
  split at hi
  · cases hi
  · dsimp only at hi
    split at hi
    · cases hi
    · exact ⟨_, _, (shouldProceed_some hi).symm, rfl⟩

theorem modelNeedsDownload_isNew (h : p.modelNeedsDownload = .ok (some task)) : p.IsNew task := by
  obtain ⟨runner, -, hr⟩ := firstAnswer_some h
  dsimp only at hr
  split at hr
  · exact ⟨_, _, (shouldProceed_some hr).symm, rfl⟩
  · cases hr

theorem initDistributedBackend_isNew (h : p.initDistributedBackend = .ok (some task)) :
    p.IsNew task := by
  obtain ⟨runner, -, hr⟩ := firstAnswer_some h
  dsimp only at hr
  split at hr
  · cases hr
  · split at hr
    · cases hr
    · split at hr
      · cases hr
      · split at hr
        · exact ⟨_, _, (Option.some.inj (Except.ok.inj hr)).symm, rfl⟩
        · cases hr

theorem loadModel_isNew (h : p.loadModel = some task) : p.IsNew task := by
  obtain ⟨runner, -, hr⟩ := List.exists_of_findSome?_eq_some h
  dsimp only at hr
  split at hr
  · cases hr
  · split at hr
    · exact ⟨_, _, (Option.some.inj hr).symm, rfl⟩
    · split at hr
      · exact ⟨_, _, (Option.some.inj hr).symm, rfl⟩
      · cases hr

theorem readyToWarmup_isNew (h : p.readyToWarmup = .ok (some task)) : p.IsNew task := by
  obtain ⟨runner, -, hr⟩ := firstAnswer_some h
  dsimp only at hr
  split at hr
  · cases hr
  · split at hr
    · exact ⟨_, _, (Option.some.inj (Except.ok.inj hr)).symm, rfl⟩
    · cases hr

/-- A task of the state that is planned generates, and is pending or running there. -/
theorem pendingTasks_cases (h : p.pendingTasks = .ok (some task)) :
    task ∈ p.tasks.values ∧ task.isGeneration ∧ task.taskStatus.inFlight := by
  obtain ⟨t, ht, hr⟩ := firstAnswer_some h
  split at hr
  · cases hr
  · rename_i hnot
    simp only [not_or, Decidable.not_not] at hnot
    obtain ⟨runner, -, hrun⟩ := firstAnswer_some hr
    split at hrun
    · cases hrun
    · cases hserve : allServe p.allRunners runner.boundInstance.inst.runnerIds with
      | error e => rw [hserve] at hrun; cases hrun
      | ok ready =>
          rw [hserve] at hrun
          cases ready with
          | false => cases hrun
          | true =>
              have : t = task := Option.some.inj (Except.ok.inj hrun)
              exact this ▸ ⟨ht, hnot.1, hnot.2.1⟩

/-- **What `plan` returns.** -/
theorem plan_cases (h : p.plan = .ok (some task)) :
    p.IsNew task ∨ (task ∈ p.tasks.values ∧ task.isGeneration ∧ task.taskStatus.inFlight) := by
  obtain ⟨answer, hmem, ha⟩ := firstAnswer_some h
  simp only [List.mem_cons, List.not_mem_nil, or_false] at hmem
  rcases hmem with rfl | rfl | rfl | rfl | rfl | rfl | rfl | rfl
  · exact .inl (cancelTasks_isNew (Except.ok.inj ha))
  · exact .inl (killRunner_isNew (Except.ok.inj ha))
  · exact .inl (createRunner_isNew ha)
  · exact .inl (modelNeedsDownload_isNew ha)
  · exact .inl (initDistributedBackend_isNew ha)
  · exact .inl (loadModel_isNew (Except.ok.inj ha))
  · exact .inl (readyToWarmup_isNew ha)
  · exact .inr (pendingTasks_cases ha)

end PlanInput

/-! ## What an act does to a supervisor -/

namespace Supervisor

/-- A supervisor before and after it was given a task. -/
structure Starts (s : Supervisor) (task : Task) (s' : Supervisor) : Prop where
  boundInstance : s'.boundInstance = s.boundInstance
  inProgress : ∀ t x, s'.inProgress.get? t = some x →
    s.inProgress.get? t = some x
      ∨ (t = task.taskId ∧ x = task ∧ t ∉ s.completed ∧ s.closed = false)
  kept : ∀ t, s.inProgress.get? t ≠ none → s'.inProgress.get? t ≠ none ∨ s'.closed = true
  completed : s'.completed = s.completed
  cancelled : s'.cancelled = s.cancelled
  closed : s'.closed = s.closed
  witnessed : s'.witnessed = s.witnessed
  messages : s'.messages = s.messages
  unsettled : ∀ t, s'.unsettled t → s.unsettled t ∨ t = task.taskId

theorem starts_startTask (s : Supervisor) (task : Task) : Starts s task (s.startTask task).1 := by
  have hrefl : Starts s task s :=
    ⟨rfl, fun _ _ h => .inl h, fun _ h => .inl h, rfl, rfl, rfl, rfl, rfl, fun _ h => .inl h⟩
  unfold startTask
  split
  · exact hrefl
  · split
    · exact hrefl
    · rename_i hc
      dsimp only
      split
      · rename_i hcl
        -- the channel is closed: the task is dropped again
        exact { hrefl with
          inProgress := fun t x h => by
            rw [Dict.get?_erase] at h
            split at h
            · cases h
            · exact .inl h
          kept := fun _ _ => .inr hcl }
      · rename_i hcl
        exact { hrefl with
          inProgress := fun t x h => by
            rw [Dict.get?_set] at h
            split at h
            · rename_i ht
              exact .inr ⟨ht, (Option.some.inj h).symm, ht ▸ hc, by simpa using hcl⟩
            · exact .inl h
          kept := fun t h => by
            refine .inl ?_
            rw [Dict.get?_set]
            split
            · simp
            · exact h
          unsettled := fun t h => by
            rw [unsettled_iff] at h
            obtain ⟨hf, h⟩ := h
            rcases h with hm | ⟨he, hs, x, hx, hxt⟩
            · exact .inl (unsettled_iff.2 ⟨hf, .inl hm⟩)
            · rcases List.mem_append.mp hx with hx | hx
              · exact .inl (unsettled_iff.2 ⟨hf, .inr ⟨he, hs, x, hx, hxt⟩⟩)
              · rw [List.mem_singleton.mp hx] at hxt
                exact .inr hxt.symm }

theorem evolves_refl (s : Supervisor) : Evolves s s [] :=
  evolves_frame rfl rfl rfl rfl id rfl (fun _ h => h) (by simp) fun _ h => h

theorem evolves_stop (s : Supervisor) : Evolves s s.stop [] :=
  evolves_frame rfl rfl rfl rfl (fun _ => rfl) rfl (fun _ h => h) (by simp) fun t h => by
    simp [unsettled, stop, releasePending] at h

end Supervisor

/-- Acting on the task can make it be reported as running. -/
def TaskKind.reportsRunning : TaskKind → Bool
  | .createRunner _ | .cancelTask .. => false
  | _ => true

/-! ## Where things come from -/

namespace Worker

/-- The supervisor an announced task is handed to. -/
def target? (w : Worker) (task : Task) : Option Supervisor :=
  match task.kind with
  | .shutdown runnerId => w.runners.get? runnerId
  | _ => do
      let inst ← w.state.instances.get? task.instanceId
      let runnerId ← inst.shardAssignments.nodeToRunner.get? w.nodeId
      w.runners.get? runnerId

/-- The planner is about to act on this task. -/
def announces (w : Worker) (task : Task) : Prop := w.planner = .announced task

/-- The same task, perhaps with the inputs a worker put into it. -/
structure SameTask (task' task : Task) : Prop where
  taskId : task'.taskId = task.taskId
  instanceId : task'.instanceId = task.instanceId
  isGeneration : task'.isGeneration = task.isGeneration

theorem SameTask.refl (task : Task) : SameTask task task := ⟨rfl, rfl, rfl⟩

/-- Where a supervisor among the runners comes from. -/
inductive RunnerOrigin (w : Worker) (a : Action) (r : RunnerId) (s' : Supervisor) : Prop where
  | same (h : w.runners.get? r = some s')
  | evolved (s : Supervisor) (events : List EventBody) (h : w.runners.get? r = some s)
      (he : s.Evolves s' events)
  | created (bound : BoundInstance) (h : s' = .create bound)
  | started (s : Supervisor) (task task' : Task) (h : w.runners.get? r = some s)
      (ha : ∃ now found, a = .act now found) (hp : w.announces task)
      (hk : task.kind.reportsRunning) (ht : w.target? task = some s)
      (hsame : SameTask task' task) (hs : s.Starts task' s')
  | cancelled (s : Supervisor) (t : TaskId) (h : w.runners.get? r = some s)
      (hs : s' = s.cancelTask t)

/-- Where a supervisor that was shut down comes from. -/
inductive RetiredOrigin (w : Worker) (a : Action) (s' : Supervisor) : Prop where
  | same (h : s' ∈ w.retired)
  | evolved (s : Supervisor) (events : List EventBody) (h : s ∈ w.retired)
      (he : s.Evolves s' events)
  | shutDown (s s₁ : Supervisor) (task : Task) (r : RunnerId) (h : w.runners.get? r = some s)
      (ha : ∃ now found, a = .act now found) (hp : w.announces task)
      (hk : task.kind = .shutdown r) (hs : s.Starts task s₁) (he : s₁.Evolves s' [])

/-- Where a new event in the outbox comes from. -/
inductive EventOrigin (w : Worker) (a : Action) (e : EventBody) : Prop where
  | planned (now : Time) (taskId : TaskId) (task : Task) (ha : a = .plan now taskId)
      (hp : (w.planInput now taskId).plan = .ok (some task)) (he : e = .taskCreated task.taskId task)
  | acted (task : Task) (status : TaskStatus) (hp : w.announces task)
      (he : e = .taskStatusUpdated task.taskId status)
      (hr : status.inFlight → task.kind.reportsRunning)
  | downloaded (dp : DownloadProgress) (he : e = .nodeDownloadProgress dp)
  | timedOut (t : TaskId) (he : e = .taskStatusUpdated t .timedOut)
  | reported (s s' : Supervisor) (events : List EventBody) (h : s ∈ w.supervisors)
      (hc : w.crashed = false) (he : s.Evolves s' events) (hm : e ∈ events)

/-- What a step of a worker changes. -/
structure Moves (w : Worker) (a : Action) (w' : Worker) : Prop where
  nodeId : w'.nodeId = w.nodeId
  state : w'.state = w.state
  applied : w'.applied = w.applied
  crashed : w.crashed = false
  runners : ∀ r s', w'.runners.get? r = some s' → RunnerOrigin w a r s'
  retired : ∀ s' ∈ w'.retired, RetiredOrigin w a s'
  outbox : ∃ events, w'.outbox = w.outbox ++ events ∧ ∀ e ∈ events, EventOrigin w a e
  sent : ∀ p ∈ w'.sent, p ∈ w.sent
    ∨ ∃ task, (∃ now found, a = .act now found) ∧ w.announces task ∧ SameTask p.1 task
  sentBefore : ∀ p ∈ w.sent, p ∈ w'.sent
  planner : ∀ task, w'.announces task → w.announces task
    ∨ ∃ now taskId, a = .plan now taskId ∧ (w.planInput now taskId).plan = .ok (some task)
      ∧ w'.outbox = w.outbox ++ [.taskCreated task.taskId task]

/-- Two workers that differ in what they planned, in backoffs and in buffered inputs only. -/
structure SameBooks (w w' : Worker) : Prop where
  nodeId : w'.nodeId = w.nodeId
  state : w'.state = w.state
  applied : w'.applied = w.applied
  runners : w'.runners = w.runners
  retired : w'.retired = w.retired
  outbox : w'.outbox = w.outbox
  sent : w'.sent = w.sent

section Moves

variable {w w' : Worker} {a : Action} {task : Task}

theorem SameBooks.refl (w : Worker) : SameBooks w w := ⟨rfl, rfl, rfl, rfl, rfl, rfl, rfl⟩

/-- A step that plans nothing new and keeps the books. -/
theorem SameBooks.moves (h : SameBooks w w') (hc : w.crashed = false)
    (hp : ∀ task, w'.announces task → w.announces task) : Moves w a w' where
  nodeId := h.nodeId
  state := h.state
  applied := h.applied
  crashed := hc
  runners := fun _ _ hs => .same (h.runners ▸ hs)
  retired := fun _ hs => .same (h.retired ▸ hs)
  outbox := ⟨[], by simp [h.outbox], by simp⟩
  sent := fun _ hs => .inl (h.sent ▸ hs)
  sentBefore := fun _ hs => h.sent ▸ hs
  planner := fun _ ht => .inl (hp _ ht)

variable {now : Time} {found : Bool}

variable {r : RunnerId}

/-- The task is given to a runner. -/
theorem moves_startOn {w₀ : Worker} {task' : Task}
    (hb : SameBooks w w₀) (hc : w.crashed = false) (hp₀ : w₀.planner = w.planner)
    (hp : w.announces task) (hk : task.kind.reportsRunning)
    (ht : w.target? task = w.runners.get? r) (hsame : SameTask task' task) : Moves w (.act now found) (w₀.startOn r task') := by
  unfold startOn
  split
  · refine SameBooks.moves { hb with } hc ?_
    intro t h
    simpa [announces, crash, hp₀] using h
  · rename_i s hr
    have hs : w.runners.get? r = some s := hb.runners ▸ hr
    have hrunners : ∀ q s', (w₀.setRunner r (s.startTask task').1).runners.get? q = some s' →
        RunnerOrigin w (.act now found) q s' := by
      intro q s' h
      simp only [setRunner, Dict.get?_set] at h
      split at h
      · rename_i hq
        subst hq
        rw [← Option.some.inj h]
        exact .started s task task' hs ⟨now, found, rfl⟩ hp hk (ht.trans hs) hsame
          (s.starts_startTask task')
      · exact .same (hb.runners ▸ h)
    dsimp only
    split
    · exact {
        nodeId := hb.nodeId
        state := hb.state
        applied := hb.applied
        crashed := hc
        runners := hrunners
        retired := fun _ h => .same (hb.retired ▸ h)
        outbox := ⟨[], by simp [setRunner, hb.outbox], by simp⟩
        sent := fun p h => by
          rcases List.mem_append.mp h with h | h
          · exact .inl (hb.sent ▸ h)
          · rw [List.mem_singleton.mp h]
            exact .inr ⟨task, ⟨now, found, rfl⟩, hp, hsame⟩
        sentBefore := fun p h => List.mem_append_left _ (hb.sent ▸ h)
        planner := fun _ h => by cases h }
    · exact {
        nodeId := hb.nodeId
        state := hb.state
        applied := hb.applied
        crashed := hc
        runners := hrunners
        retired := fun _ h => .same (hb.retired ▸ h)
        outbox := ⟨[], by simp [setRunner, hb.outbox], by simp⟩
        sent := fun p h => .inl (hb.sent ▸ h)
        sentBefore := fun p h => hb.sent ▸ h
        planner := fun _ h => by cases h }

theorem moves_startRunnerTask {w₀ : Worker} {task' : Task}
    (hb : SameBooks w w₀) (hc : w.crashed = false) (hp₀ : w₀.planner = w.planner)
    (hp : w.announces task) (hrep : task.kind.reportsRunning) (hk : ∀ r, task.kind ≠ .shutdown r)
    (hsame : SameTask task' task) : Moves w (.act now found) (w₀.startRunnerTask task') := by
  have ht : w.target? task = (w.state.instances.get? task.instanceId).bind fun inst =>
      (inst.shardAssignments.nodeToRunner.get? w.nodeId).bind w.runners.get? := by
    unfold target?
    split
    · rename_i r hr
      exact absurd hr (hk r)
    · rfl
  unfold startRunnerTask
  split
  · refine SameBooks.moves { hb with } hc ?_
    intro t h
    cases h
  · rename_i inst hi
    rw [hb.state, hsame.instanceId] at hi
    split
    · refine SameBooks.moves { hb with } hc ?_
      intro t h
      simpa [announces, crash, hp₀] using h
    · rename_i r hr
      rw [hb.nodeId] at hr
      exact moves_startOn hb hc hp₀ hp hrep (by simp [ht, hi, hr]) hsame

theorem moves_planTick {taskId : TaskId} (hc : w.crashed = false)
    (h : w.planTick now taskId = some w') : Moves w (.plan now taskId) w' := by
  unfold planTick at h
  split at h
  · split at h
    · rw [← Option.some.inj h]
      exact SameBooks.moves ⟨rfl, rfl, rfl, rfl, rfl, rfl, rfl⟩ hc fun _ h => h
    · rw [← Option.some.inj h]
      exact (SameBooks.refl w).moves hc fun _ h => h
    · rename_i task hplan
      split at h
      · rw [← Option.some.inj h]
        exact SameBooks.moves ⟨rfl, rfl, rfl, rfl, rfl, rfl, rfl⟩ hc fun _ h => h
      · rw [← Option.some.inj h]
        exact {
          nodeId := rfl
          state := rfl
          applied := rfl
          crashed := hc
          runners := fun _ _ h => .same h
          retired := fun _ h => .same h
          outbox := ⟨_, rfl, fun e he =>
            .planned now taskId task rfl hplan (List.mem_singleton.mp he)⟩
          sent := fun _ h => .inl h
          sentBefore := fun _ h => h
          planner := fun t ht => .inr ⟨now, taskId, rfl, by
            have : task = t := Planner.announced.inj ht
            subst this
            exact ⟨hplan, rfl⟩⟩ }
  · cases h

theorem moves_actCreateRunner {bound : BoundInstance}
    (hc : w.crashed = false) (hp : w.announces task) :
    Moves w (.act now found) (w.actCreateRunner now task bound) where
  nodeId := rfl
  state := rfl
  applied := rfl
  crashed := hc
  runners := by
    intro r s' h
    simp only [actCreateRunner, setRunner, emit, Dict.get?_set] at h
    split at h
    · exact .created bound (Option.some.inj h).symm
    · exact .same h
  retired := fun _ h => .same h
  outbox := ⟨_, rfl, fun e he =>
    .acted task .complete hp (List.mem_singleton.mp he) (by simp [TaskStatus.inFlight])⟩
  sent := fun _ h => .inl h
  sentBefore := fun _ h => h
  planner := fun _ h => by cases h

theorem moves_actDownloadModel {shard : ShardMetadata}
    (hc : w.crashed = false) (hp : w.announces task) (hk : task.kind = .downloadModel shard) :
    Moves w (.act now found) (w.actDownloadModel now found task shard) where
  nodeId := rfl
  state := rfl
  applied := rfl
  crashed := hc
  runners := fun _ _ h => .same h
  retired := fun _ h => .same h
  outbox := by
    refine ⟨_, rfl, ?_⟩
    intro e he
    split at he
    · rcases List.mem_cons.mp he with rfl | he
      · exact .downloaded _ rfl
      · exact .acted task .complete hp (List.mem_singleton.mp he) (by simp [TaskStatus.inFlight])
    · exact .acted task .running hp (List.mem_singleton.mp he) (by simp [hk, TaskKind.reportsRunning])
  sent := fun _ h => .inl h
  sentBefore := fun _ h => h
  planner := fun _ h => by cases h

theorem moves_actCancelTask {t : TaskId}
    (hc : w.crashed = false) (hp : w.announces task) :
    Moves w (.act now found) (w.actCancelTask task t r) := by
  unfold actCancelTask
  split
  · exact SameBooks.moves ⟨rfl, rfl, rfl, rfl, rfl, rfl, rfl⟩ hc fun _ h => h
  · rename_i s hs
    exact {
      nodeId := rfl
      state := rfl
      applied := rfl
      crashed := hc
      runners := by
        intro q s' h
        simp only [setRunner, emit, Dict.get?_set] at h
        split at h
        · rename_i hq
          subst hq
          exact .cancelled s t hs (Option.some.inj h).symm
        · exact .same h
      retired := fun _ h => .same h
      outbox := ⟨_, rfl, fun e he =>
        .acted task .complete hp (List.mem_singleton.mp he) (by simp [TaskStatus.inFlight])⟩
      sent := fun _ h => .inl h
      sentBefore := fun _ h => h
      planner := fun _ h => by cases h }

theorem moves_actShutdown
    (hc : w.crashed = false) (hp : w.announces task) (hk : task.kind = .shutdown r) :
    Moves w (.act now found) (w.actShutdown task r) := by
  unfold actShutdown
  split
  · exact SameBooks.moves ⟨rfl, rfl, rfl, rfl, rfl, rfl, rfl⟩ hc fun _ h => h
  · rename_i s hs
    have hstarts := s.starts_startTask task
    have hrunners : ∀ q s', (w.runners.erase r).get? q = some s' →
        RunnerOrigin w (.act now found) q s' := by
      intro q s' h
      rw [Dict.get?_erase] at h
      split at h
      · cases h
      · exact .same h
    dsimp only
    split
    · exact {
        nodeId := rfl
        state := rfl
        applied := rfl
        crashed := hc
        runners := hrunners
        retired := fun s' h => by
          rcases List.mem_cons.mp h with rfl | h
          · exact .shutDown s _ task r hs ⟨now, found, rfl⟩ hp hk hstarts
              (Supervisor.evolves_refl _)
          · exact .same h
        outbox := ⟨[], by simp, by simp⟩
        sent := fun p h => by
          rcases List.mem_append.mp h with h | h
          · exact .inl h
          · rw [List.mem_singleton.mp h]
            exact .inr ⟨task, ⟨now, found, rfl⟩, hp, SameTask.refl task⟩
        sentBefore := fun p h => List.mem_append_left _ h
        planner := fun _ h => by cases h }
    · exact {
        nodeId := rfl
        state := rfl
        applied := rfl
        crashed := hc
        runners := hrunners
        retired := fun s' h => by
          rcases List.mem_cons.mp h with rfl | h
          · exact .shutDown s _ task r hs ⟨now, found, rfl⟩ hp hk hstarts
              (Supervisor.evolves_stop _)
          · exact .same h
        outbox := ⟨[], by simp, by simp⟩
        sent := fun _ h => .inl h
        sentBefore := fun _ h => h
        planner := fun _ h => by cases h }

theorem moves_act (hc : w.crashed = false)
    (h : w.act now found = some w') : Moves w (.act now found) w' := by
  have hcrash : Moves w (.act now found) w.crash :=
    SameBooks.moves ⟨rfl, rfl, rfl, rfl, rfl, rfl, rfl⟩ hc fun _ h => h
  unfold act at h
  split at h
  · rename_i task hp
    split at h
    · rw [← Option.some.inj h]; exact moves_actCreateRunner hc hp
    · rename_i shard hk
      rw [← Option.some.inj h]; exact moves_actDownloadModel hc hp hk
    · rename_i r hk
      rw [← Option.some.inj h]; exact moves_actShutdown hc hp hk
    · rw [← Option.some.inj h]; exact moves_actCancelTask hc hp
    · rename_i commandId total data hk
      have hrep : task.kind.reportsRunning := by simp [hk, TaskKind.reportsRunning]
      have hshutdown : ∀ r, task.kind ≠ .shutdown r := by simp [hk]
      split at h <;> rw [← Option.some.inj h]
      · unfold actImageEdits
        split
        · exact hcrash
        · refine moves_startRunnerTask ⟨rfl, rfl, rfl, rfl, rfl, rfl, rfl⟩ hc rfl hp hrep hshutdown
            ⟨rfl, rfl, ?_⟩
          simp [Task.isGeneration, hk, TaskKind.commandId?]
      · exact moves_startRunnerTask (.refl w) hc rfl hp hrep hshutdown (.refl task)
    · rename_i commandId hashes images hk
      have hrep : task.kind.reportsRunning := by simp [hk, TaskKind.reportsRunning]
      have hshutdown : ∀ r, task.kind ≠ .shutdown r := by simp [hk]
      split at h <;> rw [← Option.some.inj h]
      · unfold actTextGeneration
        split
        · exact hcrash
        · refine moves_startRunnerTask ⟨rfl, rfl, rfl, rfl, rfl, rfl, rfl⟩ hc rfl hp hrep hshutdown
            ⟨rfl, rfl, ?_⟩
          simp [Task.isGeneration, hk, TaskKind.commandId?]
      · exact moves_startRunnerTask (.refl w) hc rfl hp hrep hshutdown (.refl task)
    · rename_i hk
      rw [← Option.some.inj h]
      refine moves_startRunnerTask ?_ hc ?_ hp (by simp [hk, TaskKind.reportsRunning])
        (by simp [hk]) (SameTask.refl task)
      · split <;> exact ⟨rfl, rfl, rfl, rfl, rfl, rfl, rfl⟩
      · split <;> rfl
    · rename_i hcreate _ hk hcancel _ _ _
      rw [← Option.some.inj h]
      refine moves_startRunnerTask (SameBooks.refl w) hc rfl hp ?_ hk (SameTask.refl task)
      unfold TaskKind.reportsRunning
      split
      · rename_i bound hbound
        exact absurd hbound (hcreate bound)
      · rename_i t r ht
        exact absurd ht (hcancel t r)
      · rfl
  · cases h

variable {events : List EventBody}

theorem moves_stop {s : Supervisor} {retired : List Supervisor}
    (hc : w.crashed = false) (hs : w.retired = s :: retired)
    (he : ∀ e ∈ events, EventOrigin w a e) :
    Moves w a { w.emit events with planner := .sleeping, retired := s.stop :: retired } where
  nodeId := rfl
  state := rfl
  applied := rfl
  crashed := hc
  runners := fun _ _ h => .same h
  retired := fun s' h => by
    rcases List.mem_cons.mp h with rfl | h
    · exact .evolved s [] (by simp [hs]) (Supervisor.evolves_stop s)
    · exact .same (by rw [hs]; exact List.mem_cons_of_mem _ h)
  outbox := ⟨events, rfl, he⟩
  sent := fun _ h => .inl h
  sentBefore := fun _ h => h
  planner := fun _ h => by cases h

theorem moves_acknowledged (hc : w.crashed = false) (h : w.acknowledged = some w') :
    Moves w a w' := by
  unfold acknowledged at h
  split at h
  · split at h
    · split at h
      · rw [← Option.some.inj h]
        refine SameBooks.moves ⟨rfl, rfl, rfl, rfl, rfl, rfl, rfl⟩ hc ?_
        intro t h
        cases h
      · cases h
    · cases h
  · rename_i s retired hp hs
    split at h
    · rw [← Option.some.inj h]
      have hnone : ∀ e ∈ ([] : List EventBody), EventOrigin w a e := fun _ he => by cases he
      simpa [emit] using moves_stop hc hs hnone
    · cases h
  · cases h

theorem moves_timedOut (hc : w.crashed = false) (h : w.timedOut = some w') : Moves w a w' := by
  unfold timedOut at h
  split at h
  · rename_i t s retired hp hs
    rw [← Option.some.inj h]
    exact moves_stop hc hs fun e he => .timedOut t (List.mem_singleton.mp he)
  · cases h

variable {s s' : Supervisor} {b : Supervisor.Action}

theorem moves_runner
    (hc : w.crashed = false) (hs : w.runners.get? r = some s)
    (h : s.step b = some (some (s', events))) :
    Moves w a ((w.setRunner r s').emit events) where
  nodeId := rfl
  state := rfl
  applied := rfl
  crashed := hc
  runners := by
    intro q s'' hq
    simp only [setRunner, emit, Dict.get?_set] at hq
    split at hq
    · rename_i hqr
      subst hqr
      rw [← Option.some.inj hq]
      exact .evolved s events hs (Supervisor.step_evolves h)
    · exact .same hq
  retired := fun _ h => .same h
  outbox := ⟨events, rfl, fun e he => .reported s s' events
    (List.mem_append_left _ (Dict.mem_values.2 ⟨r, hs⟩)) hc (Supervisor.step_evolves h) he⟩
  sent := fun _ h => .inl h
  sentBefore := fun _ h => h
  planner := fun _ h => .inl h

theorem moves_retired {i : Nat}
    (hc : w.crashed = false) (hs : w.retired[i]? = some s)
    (h : s.step b = some (some (s', events))) :
    Moves w a ({ w with retired := w.retired.set i s' }.emit events) where
  nodeId := rfl
  state := rfl
  applied := rfl
  crashed := hc
  runners := fun _ _ h => .same h
  retired := fun s'' hm => by
    rcases List.mem_or_eq_of_mem_set hm with hm | rfl
    · exact .same hm
    · exact .evolved s events (List.mem_of_getElem? hs) (Supervisor.step_evolves h)
  outbox := ⟨events, rfl, fun e he => .reported s s' events
    (List.mem_append_right _ (List.mem_of_getElem? hs)) hc (Supervisor.step_evolves h) he⟩
  sent := fun _ h => .inl h
  sentBefore := fun _ h => h
  planner := fun _ h => .inl h

/-- **What a step of a worker does.** -/
theorem step_moves (h : w.step a = some w') : Moves w a w' := by
  unfold step at h
  split at h
  · cases h
  · rename_i hcr
    have hc : w.crashed = false := by simpa using hcr
    have hcrash : Moves w a w.crash :=
      SameBooks.moves ⟨rfl, rfl, rfl, rfl, rfl, rfl, rfl⟩ hc fun _ h => h
    cases a with
    | plan now taskId => exact moves_planTick hc h
    | act now found => exact moves_act hc h
    | acknowledged => exact moves_acknowledged hc h
    | timedOut => exact moves_timedOut hc h
    | runner r b =>
        obtain ⟨s, hs, h⟩ := Option.bind_eq_some_iff.mp h
        obtain ⟨o, ho, h⟩ := Option.bind_eq_some_iff.mp h
        cases o with
        | none => rw [← Option.some.inj h]; exact hcrash
        | some p => rw [← Option.some.inj h]; exact moves_runner hc hs ho
    | retired i b =>
        obtain ⟨s, hs, h⟩ := Option.bind_eq_some_iff.mp h
        obtain ⟨o, ho, h⟩ := Option.bind_eq_some_iff.mp h
        cases o with
        | none => rw [← Option.some.inj h]; exact hcrash
        | some p => rw [← Option.some.inj h]; exact moves_retired hc hs ho

end Moves

end Worker

end Exo
