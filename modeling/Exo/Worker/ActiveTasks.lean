import Exo.Worker.Reports

/-!
# The active tasks of a runner

A task becomes active where the runner submits it to its engine, and stops being active with
the response that ends it.
-/

namespace Exo

open Lib (Dict)

/-- Whether the runner is where it calls `submit_generation` for a task that is new to it. -/
def Runner.accepts (r : Runner) (task : Task) : Bool :=
  task.isGeneration && match r.phase, r.currentStatus with
    | .waiting, .ready _ => r.isEngine
    | .polling, _ => true
    | _, _ => false

/-- Whether the runner calls `submit_generation` for a task it takes. -/
def Runner.submits (r : Runner) (task : Task) : Bool :=
  !r.seen.contains task.taskId && r.accepts task

namespace Runner

variable {r : Runner} {task : Task}

theorem activeTasks_loop (r : Runner) : r.loop.1.activeTasks = r.activeTasks := by
  unfold loop
  split <;> rfl

theorem seen_loop (r : Runner) : r.loop.1.seen = r.seen := by
  unfold loop
  split <;> rfl

theorem activeTasks_handleTask (r : Runner) (task : Task) (hphase : r.phase = .waiting) :
    (r.handleTask task).1.activeTasks
      = if r.accepts task then r.activeTasks.set task.taskId task else r.activeTasks := by
  unfold handleTask accepts Task.isGeneration
  rw [hphase]
  split
  all_goals try split
  all_goals simp_all [raise, shutdown, submitGeneration, TaskKind.commandId?]

theorem activeTasks_pollTask (r : Runner) (task : Task) (hphase : r.phase = .polling) :
    (r.pollTask task).1.activeTasks
      = if r.submits task then r.activeTasks.set task.taskId task else r.activeTasks := by
  unfold pollTask submits accepts Task.isGeneration
  rw [hphase]
  split
  · rename_i hseen
    rw [activeTasks_loop]
    simp [hseen]
  · rename_i hnew
    split
    all_goals simp_all [activeTasks_loop, raise, shutdown, submitGeneration,
      TaskKind.commandId?]

variable {p : Runner × List RunnerMessage}

/-- Taking a task makes it active or leaves the active tasks alone. -/
theorem activeTasks_take (h : r.take task = some p) :
    p.1.activeTasks
      = if r.submits task then r.activeTasks.set task.taskId task else r.activeTasks := by
  unfold take at h
  split at h
  · rename_i hphase
    rw [← Option.some.inj h]
    unfold handleFirstTask
    split
    · rename_i hseen
      simp [submits, hseen]
    · rename_i hnew
      have haccepts : r.submits task = r.accepts task := by simp [submits, hnew]
      rw [haccepts]
      exact activeTasks_handleTask { r with seen := task.taskId :: r.seen } task hphase
  · rename_i hphase
    rw [← Option.some.inj h]
    exact activeTasks_pollTask r task hphase
  · cases h

/-- A runner that submits a task goes on to the engine. -/
theorem not_mem_seen_of_submits (h : r.submits task = true) : task.taskId ∉ r.seen := by
  simp only [submits, Bool.and_eq_true, Bool.not_eq_true', List.contains_eq_mem,
    decide_eq_false_iff_not] at h
  exact h.1

theorem phase_of_take (h : r.take task = some p) :
    r.phase = .waiting ∨ r.phase = .polling := by
  unfold take at h
  split at h
  · rename_i hphase; exact .inl hphase
  · rename_i hphase; exact .inr hphase
  · cases h

theorem mem_finishedTasks {results : List (TaskId × GenerationResponse)} {t : TaskId} :
    t ∈ finishedTasks results ↔ ∃ p ∈ results, p.1 = t ∧ p.2 ≠ .chunk := by
  simp only [finishedTasks, List.mem_filterMap, Option.ite_none_left_eq_some, Option.some.injEq]
  exact exists_congr fun p => and_congr_right fun _ => and_comm

/-- No lookup fails when every chunk is of an active task. -/
theorem responseEvents_ok (r : Runner) (results : List (TaskId × GenerationResponse))
    (h : ∀ p ∈ results, p.2 = .chunk → p.1 ∈ r.activeTasks.keys) :
    (r.responseEvents results).2 = true := by
  fun_induction responseEvents r results with
  | case1 => rfl
  | case2 taskId results ih => exact ih fun p hp => h p (List.mem_cons_of_mem _ hp)
  | case3 taskId results sent ok heq ih =>
      rw [heq] at ih
      exact ih fun p hp => h p (List.mem_cons_of_mem _ hp)
  | case4 taskId results hnone =>
      have := Dict.mem_keys.1 (h _ List.mem_cons_self rfl)
      rw [hnone] at this
      cases this
  | case5 taskId results task htask sent ok heq ih =>
      rw [heq] at ih
      exact ih fun p hp => h p (List.mem_cons_of_mem _ hp)

end Runner

end Exo
