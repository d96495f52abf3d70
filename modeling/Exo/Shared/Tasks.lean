import Mathlib.Data.List.Induction
import Exo.Shared.Apply

/-!
# The tasks in the replicated state

Which tasks the state has, and with which status, is decided by four kinds of events. This
module reads the status of one task off the log.
-/

namespace Exo

open Lib (Dict)

/-- The state after the bodies of the events of a log. -/
def replay (log : List EventBody) : State := log.foldl (fun s body => body.apply s) {}

@[simp] theorem replay_nil : replay [] = {} := rfl

@[simp] theorem replay_append (log : List EventBody) (body : EventBody) :
    replay (log ++ [body]) = body.apply (replay log) := by
  simp [replay]

/-- The ids of the events do not matter to the state. -/
theorem foldEvents_eq_replay (events : List Event) :
    foldEvents events = replay (events.map Event.body) := by
  induction events using List.reverseRecOn with
  | nil => rfl
  | append_singleton events e ih => simp [ih, eventApply]

/-- The status of a task. -/
def State.status? (s : State) (t : TaskId) : Option TaskStatus :=
  (s.tasks.get? t).map (·.taskStatus)

theorem State.status?_eq_none {s : State} {t : TaskId} :
    s.status? t = none ↔ s.tasks.get? t = none := by
  simp [status?]

/-- The event is about this task and sets its status. -/
def EventBody.sets? (t : TaskId) : EventBody → Option TaskStatus
  | .taskCreated t' task => if t' = t then some task.taskStatus else none
  | .taskStatusUpdated t' status => if t' = t then some status else none
  | _ => none

theorem Task.withStatus_taskStatus (task : Task) (status : TaskStatus) :
    (task.withStatus status).taskStatus = status := by
  unfold Task.withStatus
  split <;> rfl

/-- A task keeps what it is when its status changes. -/
theorem Task.withStatus_eq (task : Task) (status : TaskStatus) :
    (task.withStatus status).taskId = task.taskId
      ∧ (task.withStatus status).instanceId = task.instanceId
      ∧ (task.withStatus status).kind = task.kind := by
  unfold Task.withStatus
  split <;> exact ⟨rfl, rfl, rfl⟩

variable {s : State} {t : TaskId}

variable {body : EventBody}

/-- Where a task of the state after an event comes from. -/
theorem apply_tasks_cases {task : Task}
    (h : (body.apply s).tasks.get? t = some task) :
    (∃ t', body = .taskCreated t' task ∧ t' = t)
      ∨ ∃ old, s.tasks.get? t = some old ∧ task.taskId = old.taskId
          ∧ task.instanceId = old.instanceId ∧ task.kind = old.kind := by
  cases body with
  | taskCreated t' task' =>
      simp only [EventBody.apply, applyTaskCreated, Dict.get?_set] at h
      split at h
      · rename_i ht
        exact .inl ⟨t', by rw [Option.some.inj h], ht.symm⟩
      · exact .inr ⟨task, h, rfl, rfl, rfl⟩
  | taskStatusUpdated t' status =>
      simp only [EventBody.apply, applyTaskStatusUpdated] at h
      split at h
      · exact .inr ⟨task, h, rfl, rfl, rfl⟩
      · rename_i old hold
        simp only [Dict.get?_set] at h
        split at h
        · rename_i ht
          subst ht
          rw [← Option.some.inj h]
          exact .inr ⟨old, hold, old.withStatus_eq status⟩
        · exact .inr ⟨task, h, rfl, rfl, rfl⟩
  | taskFailed t' errorType errorMessage =>
      simp only [EventBody.apply, applyTaskFailed] at h
      split at h
      · exact .inr ⟨task, h, rfl, rfl, rfl⟩
      · rename_i old hold
        simp only [Dict.get?_set] at h
        split at h
        · rename_i ht
          subst ht
          rw [← Option.some.inj h]
          exact .inr ⟨old, hold, rfl, rfl, rfl⟩
        · exact .inr ⟨task, h, rfl, rfl, rfl⟩
  | taskDeleted t' =>
      simp only [EventBody.apply, applyTaskDeleted, Dict.get?_erase] at h
      split at h
      · cases h
      · exact .inr ⟨task, h, rfl, rfl, rfl⟩
  | runnerStatusUpdated r status =>
      have : (applyRunnerStatusUpdated r status s).tasks = s.tasks := by
        unfold applyRunnerStatusUpdated
        split <;> rfl
      simp only [EventBody.apply, this] at h
      exact .inr ⟨task, h, rfl, rfl, rfl⟩
  | _ => exact .inr ⟨task, h, rfl, rfl, rfl⟩

/-- The status of a task after an event: the one it sets, or none, or the one before. -/
theorem status_apply (body : EventBody) (s : State) (t : TaskId) :
    (body.apply s).status? t =
      match body with
      | .taskCreated t' task => if t = t' then some task.taskStatus else s.status? t
      | .taskDeleted t' => if t = t' then none else s.status? t
      | .taskStatusUpdated t' status =>
          if t = t' then (s.status? t).map fun _ => status else s.status? t
      | _ => s.status? t := by
  cases body with
  | taskCreated t' task =>
      simp only [EventBody.apply, applyTaskCreated, State.status?, Dict.get?_set]
      split <;> rfl
  | taskStatusUpdated t' status =>
      simp only [EventBody.apply, applyTaskStatusUpdated, State.status?]
      split
      · rename_i hnone
        split
        · rename_i ht
          subst ht
          simp [hnone]
        · rfl
      · rename_i old hold
        simp only [Dict.get?_set]
        split
        · rename_i ht
          subst ht
          simp [hold, Task.withStatus_taskStatus]
        · rfl
  | taskFailed t' errorType errorMessage =>
      simp only [EventBody.apply, applyTaskFailed, State.status?]
      split
      · rfl
      · rename_i old hold
        simp only [Dict.get?_set]
        split
        · rename_i ht
          subst ht
          simp [hold]
        · rfl
  | taskDeleted t' =>
      simp only [EventBody.apply, applyTaskDeleted, State.status?, Dict.get?_erase]
      split <;> rfl
  | runnerStatusUpdated r status =>
      have : (applyRunnerStatusUpdated r status s).tasks = s.tasks := by
        unfold applyRunnerStatusUpdated
        split <;> rfl
      simp only [EventBody.apply, State.status?, this]
  | _ => rfl

variable {status : TaskStatus}

/-- Only an event that sets the status of a task gives it a new one. -/
theorem status_apply_some
    (h : (body.apply s).status? t = some status) :
    s.status? t = some status ∨ body.sets? t = some status := by
  rw [status_apply] at h
  unfold EventBody.sets?
  split at h
  all_goals try exact .inl h
  all_goals
    split at h
    · rename_i ht
      subst ht
      simp_all
    · exact .inl h

variable {log : List EventBody}

/-- A task of the state was created by an event of the log. -/
theorem created_of_mem_replay (h : (replay log).tasks.get? t ≠ none) :
    ∃ task, .taskCreated t task ∈ log := by
  induction log using List.reverseRecOn with
  | nil => exact absurd rfl h
  | append_singleton log body ih =>
      obtain ⟨task, htask⟩ := Option.ne_none_iff_exists'.mp h
      rw [replay_append] at htask
      rcases apply_tasks_cases htask with ⟨t', hb, rfl⟩ | ⟨old, hold, -⟩
      · exact ⟨task, by rw [hb]; simp⟩
      · obtain ⟨task', hmem⟩ := ih (by rw [hold]; simp)
        exact ⟨task', List.mem_append_left _ hmem⟩

/-- A task that was created and never deleted is there. -/
theorem mem_replay_of_created {task : Task}
    (h : .taskCreated t task ∈ log) (hd : .taskDeleted t ∉ log) :
    (replay log).tasks.get? t ≠ none := by
  rw [ne_eq, ← State.status?_eq_none]
  induction log using List.reverseRecOn with
  | nil => cases h
  | append_singleton log body ih =>
      have hd' : .taskDeleted t ∉ log := fun hm => hd (List.mem_append_left _ hm)
      rw [replay_append, status_apply]
      rcases List.mem_append.mp h with hm | hm
      · have hbefore := ih hm hd'
        split
        · split
          · simp
          · exact hbefore
        · split
          · rename_i ht
            subst ht
            exact absurd (List.mem_append_right _ (List.mem_singleton.mpr rfl)) hd
          · exact hbefore
        · split
          · rename_i ht
            subst ht
            simpa using hbefore
          · exact hbefore
        · exact hbefore
      · rw [← List.mem_singleton.mp hm]
        simp

/-- A cancelled task was cancelled by an event of the log. -/
theorem ended_of_status
    (h : (replay log).status? t = some status) : ∃ body ∈ log, body.sets? t = some status := by
  induction log using List.reverseRecOn with
  | nil => cases h
  | append_singleton log body ih =>
      rw [replay_append] at h
      rcases status_apply_some h with h | h
      · obtain ⟨b, hm, hb⟩ := ih h
        exact ⟨b, List.mem_append_left _ hm, hb⟩
      · exact ⟨body, by simp, h⟩

/-! ## The instances of a state -/

/-- Every instance is filed under its own id. -/
def State.Filed (s : State) : Prop :=
  ∀ i inst, s.instances.get? i = some inst → inst.instanceId = i

/-- Which instances an event adds or takes away. -/
theorem instances_apply (body : EventBody) (s : State) (i : InstanceId) :
    (body.apply s).instances.get? i =
      match body with
      | .instanceCreated inst => if i = inst.instanceId then some inst else s.instances.get? i
      | .instanceDeleted i' => if i = i' then none else s.instances.get? i
      | _ => s.instances.get? i := by
  cases body with
  | instanceCreated inst => exact Dict.get?_set _ _ _ _
  | instanceDeleted i' => exact Dict.get?_erase _ _ _
  | taskStatusUpdated t status =>
      simp only [EventBody.apply, applyTaskStatusUpdated]
      split <;> rfl
  | taskFailed t errorType errorMessage =>
      simp only [EventBody.apply, applyTaskFailed]
      split <;> rfl
  | runnerStatusUpdated r status =>
      simp only [EventBody.apply, applyRunnerStatusUpdated]
      split <;> rfl
  | _ => rfl

theorem State.Filed.apply {s : State} (h : s.Filed) (body : EventBody) : (body.apply s).Filed := by
  intro i inst hi
  rw [instances_apply] at hi
  split at hi
  · split at hi
    · rename_i hid
      rw [← Option.some.inj hi, hid]
    · exact h i inst hi
  · split at hi
    · cases hi
    · exact h i inst hi
  · exact h i inst hi

/-- Only its deletion takes an instance away. -/
theorem isSome_instances_apply {s : State} {i : InstanceId}
    (h : (s.instances.get? i).isSome) (hb : body ≠ .instanceDeleted i) :
    ((body.apply s).instances.get? i).isSome := by
  rw [instances_apply]
  split
  · split
    · rfl
    · exact h
  · split
    · rename_i hi
      exact absurd (by rw [hi]) hb
    · exact h
  · exact h

end Exo
