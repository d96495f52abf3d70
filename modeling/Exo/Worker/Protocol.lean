import Exo.Lib.Machine
import Exo.Shared.Tasks
import Exo.Worker.Speech
import Exo.Worker.Steps

/-!
# The planner, the supervisor and the runner

What a worker plans follows the status its supervisor has of a runner, which the runner may have
left already. A runner is given a task only when it has acknowledged all others. So all it did
since it had that status it did by itself, and it is still ready for the task.
-/

namespace Exo

open Lib (Dict Machine)

/-! ## Supervisors -/

namespace Supervisor

variable {s s' : Supervisor} {task : Task} {p : Runner × List RunnerMessage}

/-- The tasks the runner was given, up to their acknowledgement. -/
def outstanding (s : Supervisor) : List TaskId := s.tasks.map (·.taskId) ++ acks s.messages

structure InStep (s : Supervisor) : Prop where
  speaks : s.forwarding = true → Speaks s.status s.messages s.runner.currentStatus
  coherent : s.exited = false → s.runner.Coherent s.closed
  /-- What is on its way to the runner is for the status it has. -/
  accepts : s.exited = false → ∀ task ∈ s.tasks, s.runner.currentStatus.accepts task.kind
    ∧ (s.closed → ∃ runnerId, task.kind = .shutdown runnerId)
  alone : s.exited = false → s.outstanding.length ≤ 1

/-- What the process and its supervisor leave to the worker. -/
structure Advances (s s' : Supervisor) : Prop where
  boundInstance : s'.boundInstance = s.boundInstance
  alive : s'.exited = false →
    s.exited = false ∧ s'.forwarding = s.forwarding ∧ s'.closed = s.closed
  tasks : ∀ task ∈ s'.tasks, task ∈ s.tasks
  outstanding : s'.exited = false →
    s'.outstanding = [] ∨ (s'.outstanding = s.outstanding ∧ s'.pending = s.pending)
  /-- The status stays good for what it was good for. -/
  status : s'.exited = false → s.outstanding = [] →
    ∀ kind, s.status.accepts kind → s'.status.accepts kind

variable {tasks : List Task}

/-- A task on its way is the only one. -/
theorem InStep.tasks_eq (h : s.InStep) (hrun : s.exited = false)
    (hs : s.tasks = task :: tasks) : tasks = [] ∧ acks s.messages = [] := by
  have halone := h.alone hrun
  rw [outstanding, hs] at halone
  simp only [List.map_cons, List.cons_append, List.length_cons, List.length_append,
    List.length_map] at halone
  exact ⟨List.length_eq_zero_iff.mp (by omega), List.length_eq_zero_iff.mp (by omega)⟩

theorem exited_sent (hrun : (s.sent p).exited = false) : (s.sent p).closed = s.closed := by
  simp only [exited, sent] at hrun ⊢
  simp [hrun]

/-- The runner does something by itself. -/
theorem InStep.works (h : s.InStep) (hrun : s.exited = false)
    (hw : Runner.Works s.closed s.runner p) :
    (s.sent p).InStep ∧ Advances s (s.sent p) := by
  have hout : (s.sent p).outstanding = s.outstanding := by
    simp only [outstanding, sent, acks_append, hw.quiet, List.append_nil]
  constructor
  · exact {
      speaks := fun hf => (h.speaks hf).append hw.speaks
      coherent := fun hrun' => by
        rw [exited_sent hrun']
        exact hw.coherent
      accepts := fun hrun' task hmem => by
        rw [exited_sent hrun']
        obtain ⟨ha, hclosed⟩ := h.accepts hrun task hmem
        exact ⟨hw.speaks.accepts hw.quiet ha, hclosed⟩
      alone := fun _ => hout ▸ h.alone hrun }
  · exact {
      boundInstance := rfl
      alive := fun hrun' => ⟨hrun, rfl, exited_sent hrun'⟩
      tasks := fun _ hmem => hmem
      outstanding := fun _ => .inr ⟨hout, rfl⟩
      status := fun _ _ _ ha => ha }

/-- The runner takes the task on its way. -/
theorem InStep.takes (h : s.InStep) (hrun : s.exited = false)
    (hs : s.tasks = task :: tasks) (ht : Runner.Accepts s.closed s.runner task p) :
    ({ s with tasks := tasks }.sent p).InStep ∧ Advances s ({ s with tasks := tasks }.sent p) := by
  obtain ⟨rfl, hacks⟩ := h.tasks_eq hrun hs
  have hout : ({ s with tasks := [] }.sent p).outstanding = acks p.2 := by
    simp only [outstanding, sent, acks_append, hacks, List.map_nil, List.nil_append]
  have hbefore : s.outstanding = [task.taskId] := by
    rw [outstanding, hs, hacks]
    rfl
  constructor
  · exact {
      speaks := fun hf => (h.speaks hf).append ht.speaks
      coherent := fun hrun' => by
        rw [exited_sent hrun']
        exact ht.coherent
      accepts := fun _ task hmem => by cases hmem
      alone := fun _ => by
        rw [hout]
        rcases ht.acked with hacked | hacked
        · simp [hacked]
        · simp [hacked] }
  · exact {
      boundInstance := rfl
      alive := fun hrun' => ⟨hrun, rfl, exited_sent hrun'⟩
      tasks := fun _ hmem => by cases hmem
      outstanding := fun _ => by
        rw [hout, hbefore]
        exact ht.acked.imp_right fun hacked => ⟨hacked, rfl⟩
      status := fun _ _ _ ha => ha }

/-- Of a process that has ended, only what it sent matters. -/
theorem inStep_of_exited (hb : s'.boundInstance = s.boundInstance) (hexited : s'.exited = true)
    (htasks : s'.tasks = s.tasks)
    (hspeaks : s'.forwarding = true → Speaks s'.status s'.messages s'.runner.currentStatus) :
    s'.InStep ∧ Advances s s' := by
  have hno : ¬ s'.exited = false := by simp [hexited]
  constructor
  · exact ⟨hspeaks, fun hrun => absurd hrun hno, fun hrun => absurd hrun hno,
      fun hrun => absurd hrun hno⟩
  · exact ⟨hb, fun hrun => absurd hrun hno, fun _ hmem => htasks ▸ hmem,
      fun hrun => absurd hrun hno, fun hrun => absurd hrun hno⟩

theorem InStep.checkRunner (h : s.InStep) (exitcode : Int) (cause : String) :
    (s.checkRunner exitcode cause).1.InStep ∧ Advances s (s.checkRunner exitcode cause).1 := by
  unfold Supervisor.checkRunner
  dsimp only
  split
  · exact inStep_of_exited rfl rfl rfl h.speaks
  · exact inStep_of_exited rfl rfl rfl fun hf => by cases hf

variable {messages : List RunnerMessage}

/-- A message that is neither a status nor an acknowledgement nor a completion. -/
theorem InStep.skips (h : s.InStep) {m : RunnerMessage}
    (hs : s.messages = m :: messages) (hm : m.plain) (hack : m.ack? = none) :
    InStep { s with messages := messages } ∧ Advances s { s with messages := messages } := by
  have hout : outstanding { s with messages := messages } = s.outstanding := by
    simp only [outstanding, hs, acks, List.filterMap_cons, hack]
  constructor
  · refine ⟨fun hf => ?_, h.coherent, h.accepts, fun hrun => hout ▸ h.alone hrun⟩
    have hspeaks := h.speaks hf
    rw [hs] at hspeaks
    cases hspeaks with
    | status => cases hm
    | complete => cases hm
    | plain _ hl => exact hl
  · exact ⟨rfl, fun hrun => ⟨hrun, rfl, rfl⟩, fun _ hmem => hmem, fun _ => .inr ⟨hout, rfl⟩,
      fun _ _ _ ha => ha⟩

/-- The status of the supervisor is one the runner had. -/
theorem InStep.hears (h : s.InStep) (hf : s.forwarding = true) {r : RunnerId}
    {status : RunnerStatus}
    (hs : s.messages = .event (.runnerStatusUpdated r status) :: messages) :
    InStep { s with messages := messages, status := status }
      ∧ Advances s { s with messages := messages, status := status } := by
  have hout : outstanding { s with messages := messages, status := status } = s.outstanding := by
    rw [outstanding, outstanding, hs]
    rfl
  have hspeaks := h.speaks hf
  rw [hs] at hspeaks
  cases hspeaks with
  | plain hm => cases hm
  | status _ hd hl =>
      constructor
      · exact ⟨fun _ => hl, h.coherent, h.accepts, fun hrun => hout ▸ h.alone hrun⟩
      · refine ⟨rfl, fun hrun => ⟨hrun, rfl, rfl⟩, fun _ hmem => hmem, fun _ => .inr ⟨hout, rfl⟩,
          fun _ hnone kind ha => ?_⟩
        rcases hd with hd | ⟨taskId, rest, rfl⟩
        · exact hd.accepts ha
        · -- a status that comes with a task comes with its acknowledgement
          rw [outstanding, hs] at hnone
          cases (List.append_eq_nil_iff.mp hnone).2

/-- The acknowledgement was the only one on its way. -/
theorem InStep.acknowledges (h : s.InStep) {taskId : TaskId}
    (hs : s.messages = .event (.taskAcknowledged taskId) :: messages) :
    InStep { s with messages := messages, pending := s.pending.erase taskId }
      ∧ Advances s { s with messages := messages, pending := s.pending.erase taskId } := by
  have hnone : s.exited = false → s.tasks = [] ∧ acks messages = [] := by
    intro hrun
    have halone := h.alone hrun
    rw [outstanding, hs] at halone
    simp only [acks_acknowledged, List.length_append, List.length_map, List.length_cons] at halone
    exact ⟨List.length_eq_zero_iff.mp (by omega), List.length_eq_zero_iff.mp (by omega)⟩
  have hout : s.exited = false →
      outstanding { s with messages := messages, pending := s.pending.erase taskId } = [] := by
    intro hrun
    obtain ⟨htasks, hacks⟩ := hnone hrun
    simp only [outstanding, htasks, hacks, List.map_nil, List.append_nil]
  constructor
  · refine ⟨fun hf => ?_, h.coherent, h.accepts, fun hrun => ?_⟩
    · have hspeaks := h.speaks hf
      rw [hs] at hspeaks
      cases hspeaks with
      | plain _ hl => exact hl
    · rw [hout hrun]
      exact Nat.zero_le 1
  · exact ⟨rfl, fun hrun => ⟨hrun, rfl, rfl⟩, fun _ hmem => hmem, fun hrun => .inl (hout hrun),
      fun _ _ _ ha => ha⟩

/-- A task was completed in a status for that. -/
theorem InStep.mayComplete (h : s.InStep) (hf : s.forwarding = true) {taskId : TaskId}
    (hs : s.messages = .event (.taskStatusUpdated taskId .complete) :: messages) :
    Supervisor.mayComplete s.status ∧ Speaks s.status messages s.runner.currentStatus := by
  have hspeaks := h.speaks hf
  rw [hs] at hspeaks
  cases hspeaks with
  | complete _ hm hl => exact ⟨hm, hl⟩
  | plain hm => cases hm

theorem InStep.forwards (h : s.InStep) (hf : s.forwarding = true) {body : EventBody}
    {events : List EventBody}
    (hs : s.messages = .event body :: messages)
    (hstep : forwardEvent { s with messages := messages } body = some (s', events)) :
    s'.InStep ∧ Advances s s' := by
  unfold forwardEvent at hstep
  split at hstep
  · obtain ⟨rfl, -⟩ := Prod.mk.inj (Option.some.inj hstep)
    exact h.hears hf hs
  · split at hstep
    · obtain ⟨rfl, -⟩ := Prod.mk.inj (Option.some.inj hstep)
      exact h.acknowledges hs
    · cases hstep
  · split at hstep
    · obtain ⟨rfl, -⟩ := Prod.mk.inj (Option.some.inj hstep)
      have hout : outstanding { s with messages := messages } = s.outstanding := by
        rw [outstanding, outstanding, hs]
        rfl
      constructor
      · exact ⟨fun _ => (h.mayComplete hf hs).2, h.coherent, h.accepts,
          fun hrun => hout ▸ h.alone hrun⟩
      · exact ⟨rfl, fun hrun => ⟨hrun, rfl, rfl⟩, fun _ hmem => hmem, fun _ => .inr ⟨hout, rfl⟩,
          fun _ _ _ ha => ha⟩
    · cases hstep
  · rename_i hnostatus hnoack hnocomplete
    obtain ⟨rfl, -⟩ := Prod.mk.inj (Option.some.inj hstep)
    refine h.skips hs ?_ ?_
    · unfold RunnerMessage.plain
      split
      · rename_i heq
        cases heq
        exact absurd rfl (hnostatus _ _)
      · rename_i heq
        cases heq
        exact absurd rfl (hnocomplete _)
      · rfl
    · unfold RunnerMessage.ack?
      split
      · rename_i heq
        cases heq
        exact absurd rfl (hnoack _)
      · rfl

/-- **A step of a supervisor.** -/
theorem InStep.step {a : Action} {events : List EventBody} (h : s.InStep)
    (hstep : s.step a = some (some (s', events))) : s'.InStep ∧ Advances s s' := by
  cases a with
  | boot =>
      simp only [Supervisor.step] at hstep
      split at hstep
      · rename_i hp
        obtain ⟨rfl, -⟩ := Prod.mk.inj (Option.some.inj (Option.some.inj hstep))
        have hrun : s.exited = false := not_exited (by simp [hp])
        exact h.works hrun (Runner.works_boot (h.coherent hrun) hp)
      · cases hstep
  | take =>
      simp only [Supervisor.step] at hstep
      split at hstep
      · rename_i task tasks hs
        obtain ⟨p, hp, he⟩ := Option.map_eq_some_iff.mp hstep
        obtain ⟨rfl, -⟩ := Prod.mk.inj (Option.some.inj he)
        have hrun : s.exited = false := not_exited fun c hc => by simp [Runner.take, hc] at hp
        obtain ⟨ha, hclosed⟩ := h.accepts hrun task (by rw [hs]; exact List.mem_cons_self)
        exact h.takes hrun hs (Runner.accepts_take (h.coherent hrun) ha hclosed hp)
      · cases hstep
  | takeClosed =>
      simp only [Supervisor.step] at hstep
      split at hstep
      · rename_i hclosed
        obtain ⟨r, hr, he⟩ := Option.map_eq_some_iff.mp hstep
        obtain ⟨rfl, -⟩ := Prod.mk.inj (Option.some.inj he)
        have hrun : s.exited = false := not_exited fun c hc => by simp [Runner.takeClosed, hc] at hr
        exact h.works hrun (Runner.works_takeClosed (h.coherent hrun) hclosed hr)
      · cases hstep
  | pollEmpty =>
      simp only [Supervisor.step] at hstep
      split at hstep
      · rename_i hp
        obtain ⟨rfl, -⟩ := Prod.mk.inj (Option.some.inj (Option.some.inj hstep))
        have hrun : s.exited = false := not_exited (by simp [hp])
        have hcoherent := h.coherent hrun
        refine h.works hrun (Runner.works_loop hcoherent ?_)
        exact RunnerPhase.fits_polling.1 (hp ▸ hcoherent.fits)
      · cases hstep
  | unblock port =>
      obtain ⟨p, hp, he⟩ := Option.map_eq_some_iff.mp hstep
      obtain ⟨rfl, -⟩ := Prod.mk.inj (Option.some.inj he)
      have hrun : s.exited = false := not_exited fun c hc => by simp [Runner.unblock, hc] at hp
      exact h.works hrun (Runner.works_unblock (h.coherent hrun) hp)
  | loadProgress k n =>
      obtain ⟨p, hp, he⟩ := Option.map_eq_some_iff.mp hstep
      obtain ⟨rfl, -⟩ := Prod.mk.inj (Option.some.inj he)
      have hrun : s.exited = false := not_exited fun c hc => by
        simp [Runner.loadProgress, hc] at hp
      exact h.works hrun (Runner.works_loadProgress (h.coherent hrun) hp)
  | engineStep reads results =>
      obtain ⟨p, hp, he⟩ := Option.map_eq_some_iff.mp hstep
      obtain ⟨rfl, -⟩ := Prod.mk.inj (Option.some.inj he)
      have hrun : s.exited = false := not_exited fun c hc => by simp [Runner.engineStep, hc] at hp
      have h' : InStep { s with cancels := s.cancels.drop reads } :=
        ⟨h.speaks, h.coherent, h.accepts, h.alone⟩
      obtain ⟨hin, hadv⟩ := h'.works hrun (Runner.works_engineStep (h.coherent hrun) hp)
      exact ⟨hin, hadv.boundInstance, hadv.alive, hadv.tasks, hadv.outstanding, hadv.status⟩
  | die exitcode =>
      obtain ⟨rfl, -⟩ := Prod.mk.inj (Option.some.inj (Option.some.inj hstep))
      exact inStep_of_exited rfl rfl rfl h.speaks
  | forward =>
      simp only [Supervisor.step] at hstep
      split at hstep
      · rename_i hf
        split at hstep
        · rename_i body messages hs
          exact h.forwards hf hs (Option.some.inj hstep)
        · cases hstep
      · cases hstep
  | forwardError exitcode cause =>
      simp only [Supervisor.step] at hstep
      split at hstep
      · split at hstep
        · rename_i messages hs
          obtain ⟨rfl, -⟩ := Prod.mk.inj (Option.some.inj (Option.some.inj hstep))
          refine inStep_of_exited ?_ ?_ ?_ fun hf => by cases hf
          all_goals
            unfold Supervisor.checkRunner
            dsimp only
            split <;> rfl
        · cases hstep
      · cases hstep
  | forwardClosed exitcode cause =>
      simp only [Supervisor.step] at hstep
      split at hstep
      · obtain ⟨rfl, -⟩ := Prod.mk.inj (Option.some.inj (Option.some.inj hstep))
        refine inStep_of_exited ?_ ?_ ?_ fun hf => by cases hf
        all_goals
          unfold Supervisor.checkRunner
          dsimp only
          split <;> rfl
      · cases hstep
  | forwardEnd =>
      simp only [Supervisor.step] at hstep
      split at hstep
      · rename_i hend
        obtain ⟨rfl, -⟩ := Prod.mk.inj (Option.some.inj (Option.some.inj hstep))
        exact inStep_of_exited rfl hend.2.2.1 rfl fun hf => by cases hf
      · cases hstep
  | watch cause =>
      simp only [Supervisor.step] at hstep
      split at hstep
      · split at hstep
        · cases hstep
        · obtain ⟨rfl, -⟩ := Prod.mk.inj (Option.some.inj (Option.some.inj hstep))
          exact h.checkRunner _ _
      · cases hstep

theorem inStep_create (bound : BoundInstance) : (create bound).InStep where
  speaks := fun _ => .nil _
  coherent := fun _ => ⟨trivial, fun _ hb => Option.some.inj hb⟩
  accepts := fun _ _ hmem => by cases hmem
  alone := fun _ => Nat.zero_le 1

/-- A runner that can be given a task: it acknowledged all it was given. -/
structure Free (s : Supervisor) : Prop where
  forwarding : s.forwarding = true
  opened : s.closed = false
  outstanding : s.outstanding = []

/-- What `start_task` leaves. -/
structure Given (s : Supervisor) (task : Task) (p : Supervisor × Bool) : Prop where
  boundInstance : p.1.boundInstance = s.boundInstance
  runner : p.1.runner = s.runner
  messages : p.1.messages = s.messages
  forwarding : p.1.forwarding = s.forwarding
  closed : p.1.closed = s.closed
  status : p.1.status = s.status
  tasks : ∀ x ∈ p.1.tasks, x ∈ s.tasks ∨ x = task
  waits : p.2 = true → s.outstanding = [] →
    p.1.outstanding = [task.taskId] ∧ p.1.pending.get? task.taskId = some false
  skips : p.2 = false → p.1.outstanding = s.outstanding

theorem Given.exited {p : Supervisor × Bool} (h : Given s task p) : p.1.exited = s.exited := by
  rw [Supervisor.exited, h.runner]
  rfl

theorem given_startTask (s : Supervisor) (task : Task) : Given s task (s.startTask task) := by
  have hkept : Given s task (s, false) :=
    ⟨rfl, rfl, rfl, rfl, rfl, rfl, fun _ hmem => .inl hmem, nofun, fun _ => rfl⟩
  unfold startTask
  split
  · exact hkept
  · split
    · exact hkept
    · dsimp only
      split
      · exact { hkept with waits := fun hw => by cases hw }
      · exact { hkept with
          tasks := fun x hmem => (List.mem_append.mp hmem).imp_right List.mem_singleton.mp
          waits := fun _ hnone => by
            obtain ⟨htasks, hacks⟩ := List.append_eq_nil_iff.mp hnone
            refine ⟨?_, Dict.get?_set_self ..⟩
            simp only [outstanding, List.map_append, htasks, hacks, List.nil_append,
              List.append_nil, List.map_cons, List.map_nil]
          skips := fun hw => by cases hw }

/-- A free runner is given a task its supervisor thinks it is ready for. -/
theorem InStep.startTask (h : s.InStep) (hfree : s.exited = false → s.Free)
    (ha : s.exited = false → s.status.accepts task.kind) : (s.startTask task).1.InStep := by
  have hgiven := given_startTask s task
  exact {
    speaks := fun hf => by
      rw [hgiven.status, hgiven.runner, hgiven.messages]
      exact h.speaks (hgiven.forwarding ▸ hf)
    coherent := fun hrun => by
      rw [hgiven.closed, hgiven.runner]
      exact h.coherent (hgiven.exited ▸ hrun)
    accepts := fun hrun x hmem => by
      rw [hgiven.exited] at hrun
      have hs := hfree hrun
      obtain ⟨htasks, hacks⟩ := List.append_eq_nil_iff.mp hs.outstanding
      rw [List.map_eq_nil_iff] at htasks
      rcases hgiven.tasks x hmem with hx | rfl
      · rw [htasks] at hx
        cases hx
      · rw [hgiven.closed, hs.opened, hgiven.runner]
        exact ⟨(h.speaks hs.forwarding).accepts hacks (ha hrun), fun hc => by cases hc⟩
    alone := fun hrun => by
      rw [hgiven.exited] at hrun
      have hs := hfree hrun
      cases hw : (s.startTask task).2 with
      | true => simp [(hgiven.waits hw hs.outstanding).1]
      | false => simp [hgiven.skips hw, hs.outstanding] }

/-- A runner that is stopped is only left with a shutdown, if anything. -/
theorem InStep.stop (h : s.InStep) (hshutdown : s.exited = false →
    ∀ task ∈ s.tasks, ∃ runnerId, task.kind = .shutdown runnerId) : s.stop.InStep where
  speaks := fun hf => by cases hf
  coherent := fun hrun => (h.coherent hrun).close
  accepts := fun hrun task hmem => ⟨(h.accepts hrun task hmem).1, fun _ => hshutdown hrun task hmem⟩
  alone := h.alone

end Supervisor

/-! ## What is planned -/

namespace PlanInput

variable {p : PlanInput} {task : Task}

/-- A task is planned for a runner whose supervisor thinks it is ready for it. -/
def Suits (p : PlanInput) (task : Task) : Prop :=
  match task.kind with
  | .createRunner bound => bound.inst ∈ p.instances.values
      ∧ bound.inst.shardAssignments.nodeToRunner.get? p.nodeId = some bound.boundRunnerId
  | .downloadModel _ | .cancelTask .. | .shutdown _ => True
  | kind => ∃ runner ∈ p.runners.values,
      runner.instanceId = task.instanceId ∧ runner.status.accepts kind

theorem cancelTasks_suits (h : p.cancelTasks = some task) : p.Suits task := by
  obtain ⟨t, -, ht⟩ := List.exists_of_findSome?_eq_some h
  split at ht
  · obtain ⟨⟨r, runner⟩, -, hr⟩ := List.exists_of_findSome?_eq_some ht
    dsimp only at hr
    split at hr
    · obtain rfl := Option.some.inj hr
      trivial
    · cases hr
  · cases ht

theorem killRunner_suits (h : p.killRunner = some task) : p.Suits task := by
  obtain ⟨runner, -, hr⟩ := List.exists_of_findSome?_eq_some h
  dsimp only at hr
  split at hr
  · obtain rfl := Option.some.inj hr
    trivial
  · cases hr

theorem createRunner_suits (h : p.createRunner = .ok (some task)) : p.Suits task := by
  obtain ⟨inst, hinst, hi⟩ := firstAnswer_some h
  split at hi
  · cases hi
  · rename_i runnerId hrunner
    dsimp only at hi
    split at hi
    · cases hi
    · obtain rfl := shouldProceed_some hi
      exact ⟨hinst, hrunner⟩

theorem modelNeedsDownload_suits (h : p.modelNeedsDownload = .ok (some task)) :
    p.Suits task := by
  obtain ⟨runner, -, hr⟩ := firstAnswer_some h
  dsimp only at hr
  split at hr
  · obtain rfl := shouldProceed_some hr
    trivial
  · cases hr

theorem initDistributedBackend_suits (h : p.initDistributedBackend = .ok (some task)) :
    p.Suits task := by
  obtain ⟨runner, hmem, hr⟩ := firstAnswer_some h
  dsimp only at hr
  split at hr
  · cases hr
  · split at hr
    · cases hr
    · rename_i hidle
      split at hr
      · cases hr
      · split at hr
        · obtain rfl := Option.some.inj (Except.ok.inj hr)
          refine ⟨runner, hmem, rfl, ?_⟩
          rw [(not_not.mp hidle).1]
          rfl
        · cases hr

theorem loadModel_suits (h : p.loadModel = some task) : p.Suits task := by
  obtain ⟨runner, hmem, hr⟩ := List.exists_of_findSome?_eq_some h
  dsimp only at hr
  split at hr
  · cases hr
  · split at hr
    · rename_i hidle
      obtain rfl := Option.some.inj hr
      refine ⟨runner, hmem, rfl, ?_⟩
      rw [hidle.2]
      rfl
    · split at hr
      · rename_i hconnected
        obtain rfl := Option.some.inj hr
        refine ⟨runner, hmem, rfl, ?_⟩
        rw [hconnected.1]
        rfl
      · cases hr

theorem readyToWarmup_suits (h : p.readyToWarmup = .ok (some task)) : p.Suits task := by
  obtain ⟨runner, hmem, hr⟩ := firstAnswer_some h
  dsimp only at hr
  split at hr
  · cases hr
  · split at hr
    · rename_i hloaded
      obtain rfl := Option.some.inj (Except.ok.inj hr)
      refine ⟨runner, hmem, rfl, ?_⟩
      rw [hloaded.1]
      rfl
    · cases hr

/-- A runner that serves is ready for whatever generates. -/
theorem accepts_of_serves {status : RunnerStatus} {kind : TaskKind} (h : status.serves)
    (hgenerates : kind.commandId?.isSome) : status.accepts kind := by
  cases status <;> try cases h
  all_goals cases kind <;> first | rfl | cases hgenerates

theorem pendingTasks_suits (h : p.pendingTasks = .ok (some task)) : p.Suits task := by
  obtain ⟨t, -, hr⟩ := firstAnswer_some h
  split at hr
  · cases hr
  · rename_i hnot
    simp only [not_or, Decidable.not_not] at hnot
    obtain ⟨runner, hmem, hrun⟩ := firstAnswer_some hr
    split at hrun
    · cases hrun
    · rename_i hserves
      simp only [not_or, Decidable.not_not] at hserves
      obtain ⟨hinst, -, -, hserves⟩ := hserves
      cases hserve : allServe p.allRunners runner.boundInstance.inst.runnerIds with
      | error e =>
          rw [hserve] at hrun
          cases hrun
      | ok ready =>
          rw [hserve] at hrun
          cases ready with
          | false => cases hrun
          | true =>
              obtain rfl : t = task := Option.some.inj (Except.ok.inj hrun)
              have hsuits : ∃ runner ∈ p.runners.values,
                  runner.instanceId = t.instanceId ∧ runner.status.accepts t.kind :=
                ⟨runner, hmem, hinst.symm, accepts_of_serves hserves hnot.1⟩
              have hgenerates : t.kind.commandId?.isSome := hnot.1
              unfold Suits
              cases hk : t.kind <;> rw [hk] at hgenerates hsuits <;> try cases hgenerates
              all_goals exact hsuits

/-- **A planned task suits the runner it is for.** -/
theorem plan_suits (h : p.plan = .ok (some task)) : p.Suits task := by
  obtain ⟨answer, hmem, ha⟩ := firstAnswer_some h
  simp only [List.mem_cons, List.not_mem_nil, or_false] at hmem
  rcases hmem with rfl | rfl | rfl | rfl | rfl | rfl | rfl | rfl
  · exact cancelTasks_suits (Except.ok.inj ha)
  · exact killRunner_suits (Except.ok.inj ha)
  · exact createRunner_suits ha
  · exact modelNeedsDownload_suits ha
  · exact initDistributedBackend_suits ha
  · exact loadModel_suits (Except.ok.inj ha)
  · exact readyToWarmup_suits ha
  · exact pendingTasks_suits ha

end PlanInput

/-! ## Workers -/

/-- The task is handed to the runner of its instance. -/
def TaskKind.starts : TaskKind → Bool
  | .createRunner _ | .downloadModel _ | .cancelTask .. | .shutdown _ => false
  | _ => true

namespace Worker

variable {created : Dict InstanceId Instance} {w w' : Worker} {task : Task} {r : RunnerId}
  {s s' : Supervisor}

/-- The runner is the one its instance has on the node. -/
structure Binds (created : Dict InstanceId Instance) (nodeId : NodeId) (r : RunnerId)
    (bound : BoundInstance) : Prop where
  inst : created.get? bound.inst.instanceId = some bound.inst
  runnerId : bound.inst.shardAssignments.nodeToRunner.get? nodeId = some r

/-- The task is one for the runner. -/
def For (task : Task) (s : Supervisor) : Prop :=
  s.instanceId = task.instanceId ∧ (s.exited = false → s.status.accepts task.kind)

/-- What the planner announced is still right. -/
structure Suits (created : Dict InstanceId Instance) (w : Worker) (task : Task) : Prop where
  creates : ∀ bound, task.kind = .createRunner bound →
    Binds created w.nodeId bound.boundRunnerId bound
  starts : task.kind.starts → ∃ r s, w.runners.get? r = some s ∧ For task s

structure InStep (created : Dict InstanceId Instance) (w : Worker) : Prop where
  instances : ∀ i inst, w.state.instances.get? i = some inst → created.get? i = some inst
  keys : ∀ i inst, created.get? i = some inst → inst.instanceId = i
  binds : ∀ r s, w.runners.get? r = some s → Binds created w.nodeId r s.boundInstance
  runners : ∀ r s, w.runners.get? r = some s → s.InStep
  opened : ∀ r s, w.runners.get? r = some s → s.exited = false →
    s.forwarding = true ∧ s.closed = false
  retired : ∀ s ∈ w.retired, s.InStep
  /-- Nothing but the task it was shut down with is on its way to a runner. -/
  shutDown : ∀ s ∈ w.retired, s.exited = false →
    ∀ task ∈ s.tasks, ∃ runnerId, task.kind = .shutdown runnerId
  /-- The planner waits for the runner that has a task to acknowledge. -/
  waits : ∀ r s, w.runners.get? r = some s → s.exited = false → s.outstanding = []
    ∨ ∃ taskId, w.planner = .starting r taskId ∧ s.outstanding = [taskId]
      ∧ s.pending.get? taskId = some false
  planned : ∀ task, w.planner = .announced task → w.Suits created task

/-- While the planner waits for no runner, all are free. -/
theorem InStep.free (h : w.InStep created) (hp : ∀ taskId, w.planner ≠ .starting r taskId)
    (hr : w.runners.get? r = some s) (hrun : s.exited = false) : s.Free where
  forwarding := (h.opened r s hr hrun).1
  opened := (h.opened r s hr hrun).2
  outstanding := by
    rcases h.waits r s hr hrun with hnone | ⟨taskId, hstart, -⟩
    · exact hnone
    · exact absurd hstart (hp taskId)

/-- The planner goes on while all runners are free. -/
theorem InStep.replan (h : w.InStep created) (hn : w'.nodeId = w.nodeId)
    (hs : w'.state = w.state) (hr : w'.runners = w.runners) (hret : w'.retired = w.retired)
    (hfree : ∀ r s, w.runners.get? r = some s → s.exited = false → s.Free)
    (hp : ∀ task, w'.planner = .announced task → w.Suits created task) : w'.InStep created where
  instances := hs ▸ h.instances
  keys := h.keys
  binds := by
    rw [hn, hr]
    exact h.binds
  runners := hr ▸ h.runners
  opened := hr ▸ h.opened
  retired := hret ▸ h.retired
  shutDown := hret ▸ h.shutDown
  waits := fun q s hq hrun => .inl (hfree q s (hr ▸ hq) hrun).outstanding
  planned := fun task ht => by
    obtain ⟨hcreates, hstarts⟩ := hp task ht
    refine ⟨?_, ?_⟩
    · rw [hn]
      exact hcreates
    · rw [hr]
      exact hstarts

/-- One runner changes. -/
theorem InStep.setRunner (h : w.InStep created) (hbinds : Binds created w.nodeId r s'.boundInstance)
    (hin : s'.InStep) (hopened : s'.exited = false → s'.forwarding = true ∧ s'.closed = false)
    (hwaits : s'.exited = false → s'.outstanding = []
      ∨ ∃ taskId, w.planner = .starting r taskId ∧ s'.outstanding = [taskId]
        ∧ s'.pending.get? taskId = some false)
    (hplanned : ∀ task, w.planner = .announced task → task.kind.starts →
      ∀ s, w.runners.get? r = some s → For task s → For task s') :
    (w.setRunner r s').InStep created := by
  have hcases : ∀ q x, (w.setRunner r s').runners.get? q = some x →
      (q = r ∧ x = s') ∨ w.runners.get? q = some x := by
    intro q x hq
    rw [Worker.setRunner, Dict.get?_set] at hq
    split at hq
    · rename_i heq
      exact .inl ⟨heq, (Option.some.inj hq).symm⟩
    · exact .inr hq
  exact {
    instances := h.instances
    keys := h.keys
    binds := fun q x hq => by
      rcases hcases q x hq with ⟨rfl, rfl⟩ | hq
      · exact hbinds
      · exact h.binds q x hq
    runners := fun q x hq => by
      rcases hcases q x hq with ⟨rfl, rfl⟩ | hq
      · exact hin
      · exact h.runners q x hq
    opened := fun q x hq => by
      rcases hcases q x hq with ⟨rfl, rfl⟩ | hq
      · exact hopened
      · exact h.opened q x hq
    retired := h.retired
    shutDown := h.shutDown
    waits := fun q x hq => by
      rcases hcases q x hq with ⟨rfl, rfl⟩ | hq
      · exact hwaits
      · exact h.waits q x hq
    planned := fun task ht => by
      obtain ⟨hcreates, hstarts⟩ := h.planned task ht
      refine ⟨hcreates, fun hk => ?_⟩
      obtain ⟨q, x, hq, hfor⟩ := hstarts hk
      by_cases heq : q = r
      · subst heq
        exact ⟨q, s', Dict.get?_set_self .., hplanned task ht hk x hq hfor⟩
      · exact ⟨q, x, by rw [Worker.setRunner, Dict.get?_set_ne _ _ heq, hq], hfor⟩ }

/-- One runner, or its supervisor, does something. -/
theorem InStep.runner (h : w.InStep created) {a : Supervisor.Action} {events : List EventBody}
    (hr : w.runners.get? r = some s) (hstep : s.step a = some (some (s', events))) :
    (w.setRunner r s').InStep created := by
  obtain ⟨hin, hadv⟩ := (h.runners r s hr).step hstep
  refine h.setRunner ?_ hin ?_ ?_ ?_
  · rw [hadv.boundInstance]
    exact h.binds r s hr
  · intro hrun
    obtain ⟨hbefore, hf, hc⟩ := hadv.alive hrun
    rw [hf, hc]
    exact h.opened r s hr hbefore
  · intro hrun
    rcases hadv.outstanding hrun with hnone | ⟨hout, hpending⟩
    · exact .inl hnone
    · rw [hout, hpending]
      exact h.waits r s hr (hadv.alive hrun).1
  · rintro task ht - x hx ⟨hinst, ha⟩
    obtain rfl := Option.some.inj (hr.symm.trans hx)
    refine ⟨?_, fun hrun => ?_⟩
    · rw [← hinst, Supervisor.instanceId, Supervisor.instanceId, hadv.boundInstance]
    · have hbefore := (hadv.alive hrun).1
      have hfree : s.Free := h.free (fun _ hstart => by rw [ht] at hstart; cases hstart) hr hbefore
      exact hadv.status hrun hfree.outstanding _ (ha hbefore)

/-- A supervisor that was shut down changes. -/
theorem InStep.setRetired (h : w.InStep created) {l : List Supervisor}
    (hret : ∀ s ∈ l, s ∈ w.retired ∨ (s.InStep ∧ (s.exited = false →
      ∀ task ∈ s.tasks, ∃ runnerId, task.kind = .shutdown runnerId))) :
    InStep created { w with retired := l } where
  instances := h.instances
  keys := h.keys
  binds := h.binds
  runners := h.runners
  opened := h.opened
  retired := fun s hs => (hret s hs).elim (h.retired s) (·.1)
  shutDown := fun s hs => (hret s hs).elim (h.shutDown s) (·.2)
  waits := h.waits
  planned := fun task ht => ⟨(h.planned task ht).creates, (h.planned task ht).starts⟩

/-- Nothing changes that the invariant is about. -/
theorem InStep.keep (h : w.InStep created) (hn : w'.nodeId = w.nodeId) (hs : w'.state = w.state)
    (hr : w'.runners = w.runners) (hret : w'.retired = w.retired)
    (hp : w'.planner = w.planner) : w'.InStep created := by
  refine ⟨hs ▸ h.instances, h.keys, ?_, hr ▸ h.runners, hr ▸ h.opened, hret ▸ h.retired,
    hret ▸ h.shutDown, ?_, fun task ht => ?_⟩
  · rw [hn, hr]
    exact h.binds
  · rw [hr, hp]
    exact h.waits
  · obtain ⟨hcreates, hstarts⟩ := h.planned task (hp ▸ ht)
    exact ⟨hn ▸ hcreates, hr ▸ hstarts⟩

variable {taskId : TaskId} {now : Time}

/-- What suits the input of `plan` suits the worker. -/
theorem InStep.suits (h : w.InStep created)
    (hsuits : (w.planInput now taskId).Suits task) : w.Suits created task := by
  unfold PlanInput.Suits at hsuits
  refine ⟨fun bound hk => ?_, fun hk => ?_⟩
  · rw [hk] at hsuits
    obtain ⟨hinst, hrunner⟩ := hsuits
    obtain ⟨i, hi⟩ := Dict.mem_values.1 hinst
    have hcreated := h.instances i _ hi
    refine ⟨?_, hrunner⟩
    rw [h.keys i _ hcreated]
    exact hcreated
  · have hrunner : ∃ runner ∈ w.runners.values,
        runner.instanceId = task.instanceId ∧ runner.status.accepts task.kind := by
      unfold TaskKind.starts at hk
      cases hkind : task.kind <;> rw [hkind] at hk hsuits <;> first | exact hsuits | cases hk
    obtain ⟨s, hmem, hinst, ha⟩ := hrunner
    obtain ⟨r, hr⟩ := Dict.mem_values.1 hmem
    exact ⟨r, s, hr, hinst, fun _ => ha⟩

/-- The runner that was shut down is stopped. -/
theorem InStep.stopped {retired : List Supervisor} (h : w.InStep created)
    (hp : w.planner = .stopping taskId) (hret : w.retired = s :: retired) :
    InStep created { w with planner := .sleeping, retired := s.stop :: retired } := by
  have hmem : s ∈ w.retired := by
    rw [hret]
    exact List.mem_cons_self
  have hsleeps : InStep created { w with planner := .sleeping } :=
    h.replan rfl rfl rfl rfl
      (fun r s hr hrun => h.free (fun _ hstart => by rw [hp] at hstart; cases hstart) hr hrun)
      fun task ht => by cases ht
  refine hsleeps.setRetired fun x hx => ?_
  rcases List.mem_cons.mp hx with rfl | hx
  · exact .inr ⟨(h.retired s hmem).stop (h.shutDown s hmem), h.shutDown s hmem⟩
  · refine .inl ?_
    rw [show ({ w with planner := .sleeping } : Worker).retired = w.retired from rfl, hret]
    exact List.mem_cons_of_mem _ hx

section Acts

variable (h : w.InStep created)
  (hfree : ∀ r s, w.runners.get? r = some s → s.exited = false → s.Free)
include h hfree

theorem InStep.sleep (hn : w'.nodeId = w.nodeId) (hs : w'.state = w.state)
    (hr : w'.runners = w.runners) (hret : w'.retired = w.retired)
    (hp : w'.planner = .sleeping) : w'.InStep created :=
  h.replan hn hs hr hret hfree fun task ht => by
    rw [hp] at ht
    cases ht

/-- A task is given to a runner that is ready for it. -/
theorem InStep.startOn (ha : ∀ s, w.runners.get? r = some s → s.exited = false →
    s.status.accepts task.kind) : (w.startOn r task).InStep created := by
  unfold Worker.startOn
  split
  · exact h.keep rfl rfl rfl rfl rfl
  · rename_i s hr
    have hgiven := s.given_startTask task
    have hin := (h.runners r s hr).startTask (hfree r s hr) (ha s hr)
    have hbinds : Binds created w.nodeId r (s.startTask task).1.boundInstance := by
      rw [hgiven.boundInstance]
      exact h.binds r s hr
    have hopened : (s.startTask task).1.exited = false →
        (s.startTask task).1.forwarding = true ∧ (s.startTask task).1.closed = false := by
      rw [hgiven.exited, hgiven.forwarding, hgiven.closed]
      exact h.opened r s hr
    dsimp only
    split
    · rename_i hw
      have hstarts : InStep created { w with planner := .starting r task.taskId } :=
        h.replan rfl rfl rfl rfl hfree fun task ht => by cases ht
      have hset := hstarts.setRunner hbinds hin hopened (fun hrun => ?_) fun task ht => by cases ht
      · exact hset.keep rfl rfl rfl rfl rfl
      · rw [hgiven.exited] at hrun
        exact .inr ⟨task.taskId, rfl, hgiven.waits hw (hfree r s hr hrun).outstanding⟩
    · rename_i hw
      have hsleeps : InStep created { w with planner := .sleeping } :=
        h.sleep hfree rfl rfl rfl rfl rfl
      have hset := hsleeps.setRunner hbinds hin hopened (fun hrun => ?_) fun task ht => by cases ht
      · exact hset.keep rfl rfl rfl rfl rfl
      · rw [hgiven.exited] at hrun
        rw [hgiven.skips (by simpa using hw)]
        exact .inl (hfree r s hr hrun).outstanding

/-- `_start_runner_task` finds the runner the task was planned for. -/
theorem InStep.startRunnerTask (hfor : ∃ r s, w.runners.get? r = some s ∧ For task s) :
    (w.startRunnerTask task).InStep created := by
  unfold Worker.startRunnerTask
  split
  · exact h.sleep hfree rfl rfl rfl rfl rfl
  · rename_i inst hinst
    split
    · exact h.keep rfl rfl rfl rfl rfl
    · rename_i r hr
      obtain ⟨q, x, hq, hinstanceId, ha⟩ := hfor
      have hbinds := h.binds q x hq
      have hsame : inst = x.boundInstance.inst := by
        have hi := h.instances _ _ hinst
        rw [← hinstanceId, Supervisor.instanceId, hbinds.inst] at hi
        exact (Option.some.inj hi).symm
      rw [hsame, hbinds.runnerId] at hr
      obtain rfl := Option.some.inj hr
      refine h.startOn hfree fun s hs hrun => ?_
      obtain rfl := Option.some.inj (hq.symm.trans hs)
      exact ha hrun

theorem InStep.actCreateRunner {bound : BoundInstance}
    (hbinds : Binds created w.nodeId bound.boundRunnerId bound) :
    (w.actCreateRunner now task bound).InStep created := by
  have hsleeps : InStep created { w with planner := .sleeping } :=
    h.sleep hfree rfl rfl rfl rfl rfl
  have hset : (Worker.setRunner { w with planner := .sleeping } bound.boundRunnerId
      (.create bound)).InStep created :=
    hsleeps.setRunner hbinds (Supervisor.inStep_create bound) (fun _ => ⟨rfl, rfl⟩)
      (fun _ => .inl rfl) fun task ht => by cases ht
  exact hset.keep rfl rfl rfl rfl rfl

theorem InStep.actCancelTask {cancelled : TaskId} :
    (w.actCancelTask task cancelled r).InStep created := by
  unfold Worker.actCancelTask
  split
  · exact h.keep rfl rfl rfl rfl rfl
  · rename_i s hr
    have hsleeps : InStep created { w with planner := .sleeping } :=
      h.sleep hfree rfl rfl rfl rfl rfl
    have hin := h.runners r s hr
    have hset : (Worker.setRunner { w with planner := .sleeping } r
        (s.cancelTask cancelled)).InStep created :=
      hsleeps.setRunner (h.binds r s hr) ⟨hin.speaks, hin.coherent, hin.accepts, hin.alone⟩
        (h.opened r s hr) (fun hrun => .inl (hfree r s hr hrun).outstanding)
        fun task ht => by cases ht
    exact hset.keep rfl rfl rfl rfl rfl

theorem InStep.actShutdown {runnerId : RunnerId} (hk : task.kind = .shutdown runnerId) :
    (w.actShutdown task r).InStep created := by
  unfold Worker.actShutdown
  split
  · exact h.keep rfl rfl rfl rfl rfl
  · rename_i s hr
    have hgiven := s.given_startTask task
    have hshutdown : (s.startTask task).1.exited = false →
        ∀ x ∈ (s.startTask task).1.tasks, ∃ runnerId, x.kind = .shutdown runnerId := by
      intro hrun x hx
      rw [hgiven.exited] at hrun
      rcases hgiven.tasks x hx with hx | rfl
      · rw [List.map_eq_nil_iff.mp
          (List.append_eq_nil_iff.mp (hfree r s hr hrun).outstanding).1] at hx
        cases hx
      · exact ⟨runnerId, hk⟩
    have hin : (s.startTask task).1.InStep := by
      refine (h.runners r s hr).startTask (hfree r s hr) fun _ => ?_
      rw [hk]
      cases s.status <;> rfl
    have herased : ∀ planner, (∀ task, planner ≠ .announced task) →
        InStep created { w with runners := w.runners.erase r, planner := planner } := by
      intro planner hp
      have hkept : ∀ q x, (w.runners.erase r).get? q = some x → w.runners.get? q = some x := by
        intro q x hq
        rw [Dict.get?_erase] at hq
        split at hq
        · cases hq
        · exact hq
      exact {
        instances := h.instances
        keys := h.keys
        binds := fun q x hq => h.binds q x (hkept q x hq)
        runners := fun q x hq => h.runners q x (hkept q x hq)
        opened := fun q x hq => h.opened q x (hkept q x hq)
        retired := h.retired
        shutDown := h.shutDown
        waits := fun q x hq hrun => .inl (hfree q x (hkept q x hq) hrun).outstanding
        planned := fun task ht => absurd ht (hp task) }
    dsimp only
    split
    · have hret := (herased (.stopping task.taskId) fun _ => by simp).setRetired
        (l := (s.startTask task).1 :: w.retired) fun x hx => ?_
      · exact hret.keep rfl rfl rfl rfl rfl
      · rcases List.mem_cons.mp hx with rfl | hx
        · exact .inr ⟨hin, hshutdown⟩
        · exact .inl hx
    · have hret := (herased .sleeping fun _ => by simp).setRetired
        (l := (s.startTask task).1.stop :: w.retired) fun x hx => ?_
      · exact hret.keep rfl rfl rfl rfl rfl
      · rcases List.mem_cons.mp hx with rfl | hx
        · exact .inr ⟨hin.stop hshutdown, hshutdown⟩
        · exact .inl hx

/-- The inputs of a task make no difference to the runner. -/
theorem InStep.startWithInputs {task' : Task} (hinst : task'.instanceId = task.instanceId)
    (hkind : ∀ status : RunnerStatus, status.accepts task'.kind = status.accepts task.kind)
    (hfor : ∃ r s, w.runners.get? r = some s ∧ For task s) (commandId : CommandId) :
    ((w.dropChunks commandId).startRunnerTask task').InStep created := by
  have hdrops : (w.dropChunks commandId).InStep created := h.keep rfl rfl rfl rfl rfl
  obtain ⟨r, s, hr, hinstanceId, ha⟩ := hfor
  refine hdrops.startRunnerTask hfree ⟨r, s, hr, hinstanceId.trans hinst.symm, fun hrun => ?_⟩
  rw [hkind]
  exact ha hrun

variable {commandId : CommandId}

theorem InStep.actImageEdits {chunks : Nat} {imageData : String}
    (hk : task.kind = .imageEdits commandId chunks imageData)
    (hfor : ∃ r s, w.runners.get? r = some s ∧ For task s) :
    (w.actImageEdits task commandId chunks).InStep created := by
  unfold Worker.actImageEdits
  split
  · exact h.keep rfl rfl rfl rfl rfl
  · refine h.startWithInputs hfree ?_ (fun status => ?_) hfor commandId
    · rfl
    · rw [hk]
      cases status <;> rfl

theorem InStep.actTextGeneration {imageHashes : List Base64ImageHash}
    {images : List Base64Image} (hk : task.kind = .textGeneration commandId imageHashes images)
    (hfor : ∃ r s, w.runners.get? r = some s ∧ For task s) :
    (w.actTextGeneration task commandId imageHashes).InStep created := by
  unfold Worker.actTextGeneration
  split
  · exact h.keep rfl rfl rfl rfl rfl
  · refine h.startWithInputs hfree ?_ (fun status => ?_) hfor commandId
    · rfl
    · rw [hk]
      cases status <;> rfl

end Acts

/-- A task is planned. -/
theorem InStep.planTick (h : w.InStep created)
    (hstep : w.planTick now taskId = some w') : w'.InStep created := by
  unfold Worker.planTick at hstep
  split at hstep
  · rename_i hp
    split at hstep
    · obtain rfl := Option.some.inj hstep
      exact h.keep rfl rfl rfl rfl rfl
    · obtain rfl := Option.some.inj hstep
      exact h
    · rename_i task hplan
      have hsuits := PlanInput.plan_suits hplan
      split at hstep
      · obtain rfl := Option.some.inj hstep
        exact h.keep rfl rfl rfl rfl rfl
      · obtain rfl := Option.some.inj hstep
        refine h.replan rfl rfl rfl rfl
          (fun r s hr hrun => h.free (fun _ hstart => by rw [hp] at hstart; cases hstart) hr hrun)
          fun task' ht => ?_
        obtain rfl : task = task' := by cases ht; rfl
        exact h.suits hsuits
  · cases hstep

/-- The rest of `plan_step`. -/
theorem InStep.act {found : Bool} (h : w.InStep created)
    (hstep : w.act now found = some w') : w'.InStep created := by
  unfold Worker.act at hstep
  split at hstep
  · rename_i task hp
    have hfree : ∀ r s, w.runners.get? r = some s → s.exited = false → s.Free :=
      fun r s hr hrun => h.free (fun _ hstart => by rw [hp] at hstart; cases hstart) hr hrun
    obtain ⟨hcreates, hstarts⟩ := h.planned task hp
    split at hstep
    · rename_i bound hk
      obtain rfl := Option.some.inj hstep
      exact h.actCreateRunner hfree (hcreates bound hk)
    · obtain rfl := Option.some.inj hstep
      exact h.sleep hfree rfl rfl rfl rfl rfl
    · rename_i runnerId hk
      obtain rfl := Option.some.inj hstep
      exact h.actShutdown hfree hk
    · obtain rfl := Option.some.inj hstep
      exact h.actCancelTask hfree
    · rename_i commandId chunks imageData hk
      have hfor := hstarts (by rw [hk]; rfl)
      split at hstep
      · obtain rfl := Option.some.inj hstep
        exact h.actImageEdits hfree hk hfor
      · obtain rfl := Option.some.inj hstep
        exact h.startRunnerTask hfree hfor
    · rename_i commandId imageHashes images hk
      have hfor := hstarts (by rw [hk]; rfl)
      split at hstep
      · obtain rfl := Option.some.inj hstep
        exact h.actTextGeneration hfree hk hfor
      · obtain rfl := Option.some.inj hstep
        exact h.startRunnerTask hfree hfor
    · rename_i hk
      have hfor := hstarts (by rw [hk]; rfl)
      obtain rfl := Option.some.inj hstep
      split
      · exact InStep.startRunnerTask (h.keep rfl rfl rfl rfl rfl) hfree hfor
      · exact h.startRunnerTask hfree hfor
    · rename_i hcreate hdownload hshutdown hcancel _ _ _
      obtain rfl := Option.some.inj hstep
      refine h.startRunnerTask hfree (hstarts ?_)
      unfold TaskKind.starts
      split
      · exact absurd ‹_› (hcreate _)
      · exact absurd ‹_› (hdownload _)
      · exact absurd ‹_› (hcancel _ _)
      · exact absurd ‹_› (hshutdown _)
      · rfl
  · cases hstep

/-- The rest of `start_task`. -/
theorem InStep.acknowledged (h : w.InStep created) (hstep : w.acknowledged = some w') :
    w'.InStep created := by
  unfold Worker.acknowledged at hstep
  split at hstep
  · rename_i r taskId hp
    split at hstep
    · rename_i s hr
      split at hstep
      · rename_i hack
        obtain rfl := Option.some.inj hstep
        refine h.sleep (fun q x hq hrun => ?_) rfl rfl rfl rfl rfl
        obtain ⟨hforwards, hopen⟩ := h.opened q x hq hrun
        refine ⟨hforwards, hopen, ?_⟩
        rcases h.waits q x hq hrun with hnone | ⟨taskId', hstart, -, hpending⟩
        · exact hnone
        · -- the runner it waits for has acknowledged the task
          rw [hp] at hstart
          cases hstart
          obtain rfl := Option.some.inj (hr.symm.trans hq)
          rw [Supervisor.isAcknowledged, hpending] at hack
          cases hack
      · cases hstep
    · cases hstep
  · rename_i taskId s retired hp hret
    split at hstep
    · obtain rfl := Option.some.inj hstep
      exact h.stopped hp hret
    · cases hstep
  · cases hstep

/-- A worker does something. -/
theorem InStep.step {a : Action} (h : w.InStep created) (hstep : w.step a = some w') :
    w'.InStep created := by
  unfold Worker.step at hstep
  split at hstep
  · cases hstep
  · cases a with
    | plan now taskId => exact h.planTick hstep
    | act now found => exact h.act hstep
    | acknowledged => exact h.acknowledged hstep
    | timedOut =>
        unfold Worker.timedOut at hstep
        dsimp only at hstep
        split at hstep
        · rename_i taskId s retired hp hret
          obtain rfl := Option.some.inj hstep
          exact (h.stopped hp hret).keep rfl rfl rfl rfl rfl
        · cases hstep
    | runner r a =>
        obtain ⟨s, hr, hstep⟩ := Option.bind_eq_some_iff.mp hstep
        obtain ⟨res, hs, hstep⟩ := Option.bind_eq_some_iff.mp hstep
        cases res with
        | none =>
            obtain rfl := Option.some.inj hstep
            exact h.keep rfl rfl rfl rfl rfl
        | some p =>
            obtain rfl := Option.some.inj hstep
            exact (h.runner hr hs).keep rfl rfl rfl rfl rfl
    | retired i a =>
        obtain ⟨s, hi, hstep⟩ := Option.bind_eq_some_iff.mp hstep
        obtain ⟨res, hs, hstep⟩ := Option.bind_eq_some_iff.mp hstep
        have hmem : s ∈ w.retired := List.mem_of_getElem? hi
        cases res with
        | none =>
            obtain rfl := Option.some.inj hstep
            exact h.keep rfl rfl rfl rfl rfl
        | some p =>
            obtain rfl := Option.some.inj hstep
            obtain ⟨hin, hadv⟩ := (h.retired s hmem).step hs
            refine (h.setRetired (l := w.retired.set i p.1) fun x hx => ?_).keep
              rfl rfl rfl rfl rfl
            rcases List.mem_or_eq_of_mem_set hx with hx | rfl
            · exact .inl hx
            · exact .inr ⟨hin, fun hrun task htask =>
                h.shutDown s hmem (hadv.alive hrun).1 task (hadv.tasks task htask)⟩

end Worker

/-- What the runner takes next is in its state machine: no error leaves `main`. -/
def Supervisor.TakesInside (s : Supervisor) : Prop :=
  ∀ task ∈ s.tasks.head?, ∀ p ∈ s.runner.take task, ∀ error, .terminationError error ∉ p.2

/-- The assertion of `_forward_events` about a task that was just completed. -/
def Supervisor.AssertionHolds (s : Supervisor) : Prop :=
  s.forwarding = true → ∀ taskId,
    s.messages.head? = some (.event (.taskStatusUpdated taskId .complete)) →
      Supervisor.mayComplete s.status

theorem Supervisor.InStep.safe {s : Supervisor} (h : s.InStep) :
    s.TakesInside ∧ s.AssertionHolds := by
  constructor
  · intro task htask p hp
    have hrun : s.exited = false := not_exited fun c hc => by simp [Runner.take, hc] at hp
    obtain ⟨ha, hclosed⟩ := h.accepts hrun task (List.mem_of_mem_head? htask)
    exact (Runner.accepts_take (h.coherent hrun) ha hclosed hp).inside
  · intro hf taskId hhead
    obtain ⟨messages, hs⟩ := List.head?_eq_some_iff.mp hhead
    exact (h.mayComplete hf hs).1

/-! ## Whatever is logged -/

/-- A worker, and the instances that were created, by the ids that were drawn for them. -/
structure HostedWorker where
  worker : Worker
  created : Dict InstanceId Instance := .empty

namespace HostedWorker

inductive Action where
  | worker (a : Worker.Action)
  /-- The worker applies the next event of the log, which can be any. -/
  | log (body : EventBody)

/-- An id was not drawn for another instance before. -/
def draws (w : HostedWorker) : EventBody → Bool
  | .instanceCreated inst => (w.created.get? inst.instanceId).all (· = inst)
  | _ => true

/-- What the log creates. -/
def withCreated (w : HostedWorker) : EventBody → Dict InstanceId Instance
  | .instanceCreated inst => w.created.set inst.instanceId inst
  | _ => w.created

def step (sha256 : Base64Image → Base64ImageHash) (w : HostedWorker) :
    Action → Option HostedWorker
  | .worker a => (w.worker.step a).map fun worker => { w with worker }
  | .log body =>
      if w.worker.crashed ∨ ¬ w.draws body then none
      else some { worker := w.worker.applyEvent sha256 body, created := w.withCreated body }

def machine (sha256 : Base64Image → Base64ImageHash) (nodeId : NodeId) :
    Machine HostedWorker Action :=
  ⟨{ worker := { nodeId } }, step sha256⟩

variable {sha256 : Base64Image → Base64ImageHash} {w w' : HostedWorker}

theorem inStep_init (nodeId : NodeId) : Worker.InStep .empty ({ nodeId } : Worker) where
  instances := fun _ _ h => by cases h
  keys := fun _ _ h => by cases h
  binds := fun _ _ h => by cases h
  runners := fun _ _ h => by cases h
  opened := fun _ _ h => by cases h
  retired := fun _ h => by cases h
  shutDown := fun _ h => by cases h
  waits := fun _ _ h => by cases h
  planned := fun _ h => by cases h

variable {body : EventBody}

variable {i : InstanceId} {inst : Instance}

/-- What was created stays created. -/
theorem get?_withCreated (hd : w.draws body)
    (h : w.created.get? i = some inst) :
    (w.withCreated body).get? i = some inst := by
  cases body with
  | instanceCreated inst' =>
      rw [withCreated, Dict.get?_set]
      split
      · rename_i heq
        subst heq
        rw [draws, h] at hd
        exact congrArg some (of_decide_eq_true hd).symm
      · exact h
  | _ => exact h

/-- The instances of the state were created. -/
theorem instances_log (hd : w.draws body)
    (h : w.worker.InStep w.created)
    (hi : ((body.apply w.worker.state).instances.get? i) = some inst) :
    (w.withCreated body).get? i = some inst := by
  rw [instances_apply] at hi
  split at hi
  · rename_i inst'
    rw [withCreated, Dict.get?_set]
    split at hi
    · rename_i heq
      rw [if_pos heq, hi]
    · rename_i hne
      rw [if_neg hne]
      exact h.instances i inst hi
  · split at hi
    · cases hi
    · exact get?_withCreated hd (h.instances i inst hi)
  · exact get?_withCreated hd (h.instances i inst hi)

theorem keys_withCreated (h : w.worker.InStep w.created)
    (hi : (w.withCreated body).get? i = some inst) : inst.instanceId = i := by
  cases body with
  | instanceCreated inst' =>
      rw [withCreated, Dict.get?_set] at hi
      split at hi
      · rename_i heq
        rw [← Option.some.inj hi, heq]
      · exact h.keys i inst hi
  | _ => exact h.keys i inst hi

/-- Applying an event changes the state, and no runner. -/
theorem inStep_log (hd : w.draws body) (h : w.worker.InStep w.created) :
    (w.worker.applyEvent sha256 body).InStep (w.withCreated body) := by
  have hbinds : ∀ r bound, Worker.Binds w.created w.worker.nodeId r bound →
      Worker.Binds (w.withCreated body) w.worker.nodeId r bound :=
    fun r bound hb => ⟨get?_withCreated hd hb.inst, hb.runnerId⟩
  have happlied : Worker.InStep (w.withCreated body)
      { w.worker with state := body.apply w.worker.state } := {
    instances := fun i inst hi => instances_log hd h hi
    keys := fun i inst hi => keys_withCreated h hi
    binds := fun r s hr => hbinds r _ (h.binds r s hr)
    runners := h.runners
    opened := h.opened
    retired := h.retired
    shutDown := h.shutDown
    waits := h.waits
    planned := fun task ht => ⟨fun bound hk => hbinds _ _ ((h.planned task ht).creates bound hk),
      (h.planned task ht).starts⟩ }
  unfold Worker.applyEvent
  dsimp only
  split
  · exact happlied.keep rfl rfl rfl rfl rfl
  · exact happlied.keep rfl rfl rfl rfl rfl
  · exact happlied.keep rfl rfl rfl rfl rfl

theorem inStep_step {a : Action} (h : w.worker.InStep w.created)
    (hstep : w.step sha256 a = some w') : w'.worker.InStep w'.created := by
  cases a with
  | worker a =>
      obtain ⟨worker, hw, rfl⟩ := Option.map_eq_some_iff.mp hstep
      exact h.step hw
  | log body =>
      rw [step] at hstep
      split at hstep
      · cases hstep
      · rename_i hnot
        obtain rfl := Option.some.inj hstep
        exact inStep_log (by simpa using (not_or.mp hnot).2) h

/--
**The planner, the supervisors and the runners of a worker keep to the state machine of a runner**,
whatever is logged and in whatever order they go on.
-/
theorem protocol_safe (sha256 : Base64Image → Base64ImageHash) (nodeId : NodeId)
    {w : HostedWorker} (h : (machine sha256 nodeId).Reachable w) :
    ∀ s ∈ w.worker.supervisors, s.TakesInside ∧ s.AssertionHolds := by
  have hin := h.invariant (P := fun w => w.worker.InStep w.created) (inStep_init nodeId)
    fun _ _ _ hi hs => inStep_step hi hs
  intro s hs
  rcases List.mem_append.mp hs with hs | hs
  · obtain ⟨r, hr⟩ := Dict.mem_values.mp hs
    exact (hin.runners r s hr).safe
  · exact (hin.retired s hs).safe

/-- An instance on one node. -/
def oneNode : Instance where
  instanceId := 100
  shardAssignments :=
    { modelId := 7
      runnerToShard := Dict.empty.set 11
        { modelId := 7, deviceRank := 0, worldSize := 1, startLayer := 0, endLayer := 4 }
      nodeToRunner := Dict.empty.set 1 11
      runnersExist := soleRunner_exists }

def supervise (a : Supervisor.Action) : Action := .worker (.runner 11 a)

/-- The planner gives its runner a task, and waits for it. -/
def giveTask (taskId : TaskId) : List Action :=
  [.worker (.plan 20000 taskId), .worker (.act 20000 false), supervise .take, supervise .forward,
    supervise .forward, supervise .forward, .worker .acknowledged]

/-- A runner loads and warms up; the completion of its warmup is on its way. -/
def warmingUp : List Action :=
  [.log (.instanceCreated oneNode), .worker (.plan 20000 1), .worker (.act 20000 false),
    supervise .boot, supervise .forward,
    .log (.nodeDownloadProgress { nodeId := 1, modelId := 7, state := .completed })]
  ++ giveTask 2 ++ [supervise (.unblock none), supervise .forward, supervise .forward]
  ++ giveTask 3 ++ [supervise (.unblock none)]

theorem protocol_safe_warmingUp : ∃ w, (machine (fun _ => 0) 1).run { worker := { nodeId := 1 } }
      warmingUp = some w
    ∧ (∃ s ∈ w.worker.supervisors, s.status = .warmingUp
      ∧ s.messages.head? = some (.event (.taskStatusUpdated 3 .complete)))
    ∧ ∀ s ∈ w.worker.supervisors, s.TakesInside ∧ s.AssertionHolds := by
  have hrun : ((machine (fun _ => 0) 1).run { worker := { nodeId := 1 } } warmingUp).map
      (fun w => w.worker.supervisors.any fun s => s.status = .warmingUp
        ∧ s.messages.head? = some (.event (.taskStatusUpdated 3 .complete))) = some true := by
    decide +kernel
  obtain ⟨w, hw, hany⟩ := Option.map_eq_some_iff.mp hrun
  obtain ⟨s, hs, hsays⟩ := List.any_eq_true.mp hany
  exact ⟨w, hw, ⟨s, hs, of_decide_eq_true hsays⟩,
    protocol_safe (fun _ => 0) 1 (Machine.reachable_of_run hw)⟩

end HostedWorker

end Exo
