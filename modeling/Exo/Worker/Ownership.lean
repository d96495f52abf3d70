import Exo.Worker.Main

/-!
# Whose status a supervisor reports

A runner only ever reports its own status, and so does its supervisor. A supervisor that was
stopped and no longer forwards reports nothing.

`Worker.Handles` are the runners whose status a worker can still report. A step of the worker
reports the status of a runner it goes on to handle, and lets go of one only where the
supervisor of that runner is given up: `Worker.step_tracks`.
-/

namespace Exo

open Lib (Dict)

/-- If the event is about the status of a runner, it is about this one. -/
def EventBody.about (runnerId : RunnerId) : EventBody → Bool
  | .runnerStatusUpdated runnerId' _ => runnerId' = runnerId
  | _ => true

def RunnerMessage.about (runnerId : RunnerId) : RunnerMessage → Bool
  | .event body => body.about runnerId
  | .terminationError _ => true

/-! ## Runners -/

namespace Runner

/-- A step of a runner that reports no other runner's status. -/
structure Reports (r : Runner) (p : Runner × List RunnerMessage) : Prop where
  boundInstance : p.1.boundInstance = r.boundInstance
  messages : ∀ m ∈ p.2, m.about r.boundInstance.boundRunnerId

variable {r : Runner} {task : Task} {p : Runner × List RunnerMessage}

@[simp] theorem about_statusEvent (r : Runner) (status : RunnerStatus) :
    (r.statusEvent status).about r.boundInstance.boundRunnerId := by
  simp [statusEvent, RunnerMessage.about, EventBody.about]

@[simp] theorem about_taskStatusEvent (taskId : TaskId) (status : TaskStatus)
    (runnerId : RunnerId) : (taskStatusEvent taskId status).about runnerId := rfl

@[simp] theorem about_ackEvent (taskId : TaskId) (runnerId : RunnerId) :
    (ackEvent taskId).about runnerId := rfl

/-- What is said after a message that reports no other runner's status. -/
theorem Reports.cons {m : RunnerMessage} (h : Reports r p)
    (hm : m.about r.boundInstance.boundRunnerId) : Reports r (p.1, m :: p.2) where
  boundInstance := h.boundInstance
  messages := List.forall_mem_cons.mpr ⟨hm, h.messages⟩

/-- A runner is known by its instance. -/
theorem Reports.of_eq {r' : Runner} (h : Reports r' p) (hr : r'.boundInstance = r.boundInstance) :
    Reports r p where
  boundInstance := h.boundInstance.trans hr
  messages := hr ▸ h.messages

theorem reports_raise (r : Runner) (error : String) : Reports r (r.raise error) :=
  ⟨rfl, by simp [raise, RunnerMessage.about]⟩

theorem reports_boot (r : Runner) : Reports r r.boot := ⟨rfl, by simp [boot]⟩

theorem reports_shutdown (r : Runner) (task : Task) : Reports r (r.shutdown task) :=
  ⟨rfl, by simp [shutdown]⟩

theorem reports_complete (r : Runner) (task : Task) (status : RunnerStatus)
    (phase : RunnerPhase) : Reports r (r.complete task status phase) :=
  ⟨rfl, by simp [complete]⟩

theorem reports_loop (r : Runner) : Reports r r.loop := by
  unfold loop
  split
  · exact ⟨rfl, by simp⟩
  · exact ⟨rfl, by simp⟩

theorem reports_handleTask (r : Runner) (task : Task) : Reports r (r.handleTask task) := by
  unfold handleTask
  split
  -- a pair of a status and an acknowledgement, or an exception
  all_goals try split
  all_goals first
    | exact reports_raise r _
    | exact reports_shutdown r task
    | exact ⟨rfl, by simp⟩

theorem reports_handleFirstTask (r : Runner) (task : Task) :
    Reports r (r.handleFirstTask task) := by
  unfold handleFirstTask
  split
  · exact ⟨rfl, by simp⟩
  · have h : Reports r ({ r with seen := task.taskId :: r.seen }.handleTask task) :=
      (reports_handleTask { r with seen := task.taskId :: r.seen } task).of_eq rfl
    exact h.cons (about_taskStatusEvent _ _ _)

theorem reports_pollTask (r : Runner) (task : Task) : Reports r (r.pollTask task) := by
  unfold pollTask
  split
  · exact reports_loop r
  · dsimp only
    have hloop : Reports r (submitGeneration { r with seen := task.taskId :: r.seen } task).loop :=
      (reports_loop _).of_eq rfl
    split
    iterate 3 exact hloop.cons (about_ackEvent _ _)
    · exact (reports_shutdown { r with seen := task.taskId :: r.seen } task).of_eq rfl
    · exact (reports_raise { r with seen := task.taskId :: r.seen } _).of_eq rfl

theorem reports_take (h : r.take task = some p) : Reports r p := by
  unfold take at h
  split at h
  · rw [← Option.some.inj h]
    exact reports_handleFirstTask r task
  · rw [← Option.some.inj h]
    exact reports_pollTask r task
  · cases h

theorem reports_takeClosed {r' : Runner} (h : r.takeClosed = some r') : Reports r (r', []) := by
  unfold takeClosed at h
  split at h
  · rw [← Option.some.inj h]
    exact ⟨rfl, by simp⟩
  · rw [← Option.some.inj h]
    exact ⟨rfl, by simp⟩
  · cases h

theorem reports_unblock {port : Option Nat} (h : r.unblock port = some p) : Reports r p := by
  unfold unblock at h
  split at h
  · rw [← Option.some.inj h]
    exact reports_complete r _ _ _
  · rw [← Option.some.inj h]
    exact (reports_complete { r with isEngine := true } _ _ _).of_eq rfl
  · rw [← Option.some.inj h]
    have hsame : (r.startPrefillServer port).boundInstance = r.boundInstance := by
      unfold startPrefillServer
      split <;> rfl
    exact (reports_complete (r.startPrefillServer port) _ _ _).of_eq hsame
  · rw [← Option.some.inj h]
    exact reports_complete r _ _ _
  · cases h

theorem reports_loadProgress {k n : Nat} (h : r.loadProgress k n = some p) : Reports r p := by
  unfold loadProgress at h
  split at h
  · rw [← Option.some.inj h]
    exact ⟨rfl, by simp⟩
  · cases h

theorem about_responseEvents (r : Runner) (results : List (TaskId × GenerationResponse))
    (runnerId : RunnerId) : ∀ m ∈ (r.responseEvents results).1, m.about runnerId := by
  fun_induction responseEvents r results with
  | case1 => simp
  | case2 taskId results ih => exact ih
  | case3 taskId results sent ok heq ih =>
      rw [heq] at ih
      exact List.forall_mem_cons.mpr ⟨rfl, ih⟩
  | case4 => simp
  | case5 taskId results task htask sent ok heq ih =>
      rw [heq] at ih
      refine List.forall_mem_append.mpr ⟨fun m hm => ?_, ih⟩
      obtain ⟨c, -, rfl⟩ := List.mem_map.mp hm
      rfl

theorem reports_engineStep {results : List (TaskId × GenerationResponse)}
    (h : r.engineStep results = some p) : Reports r p := by
  unfold engineStep at h
  have hsent := r.about_responseEvents results r.boundInstance.boundRunnerId
  split at h
  · dsimp only at h
    split at h
    · rw [← Option.some.inj h]
      exact ⟨rfl, hsent⟩
    · rw [← Option.some.inj h]
      exact ⟨rfl, List.forall_mem_append.mpr ⟨hsent, (reports_raise r _).messages⟩⟩
  · cases h

end Runner

/-! ## Supervisors -/

namespace Supervisor

variable {s s' : Supervisor} {events : List EventBody}

/-- It supervises the runner it was created for. -/
structure Own (s : Supervisor) : Prop where
  runner : s.runner.boundInstance = s.boundInstance
  messages : ∀ m ∈ s.messages, m.about s.boundInstance.boundRunnerId

/-- It was stopped and forwards nothing. -/
def silent (s : Supervisor) : Bool := s.stopped && !s.forwarding

/-- What a step of a supervisor reports. -/
structure Reports (s s' : Supervisor) (events : List EventBody) : Prop where
  boundInstance : s'.boundInstance = s.boundInstance
  own : s.Own → s'.Own
  reported : s.Own → ∀ e ∈ events, e.about s.boundInstance.boundRunnerId
  silent : s.silent → s'.silent ∧ events = []

theorem own_create (bound : BoundInstance) : (create bound).Own := ⟨rfl, by simp [create]⟩

/-- The process does a step of its own. -/
theorem reports_sent {p : Runner × List RunnerMessage} (h : s.runner.Reports p) :
    Reports s (s.sent p) [] where
  boundInstance := rfl
  own := fun ho => by
    refine ⟨h.boundInstance.trans ho.runner, List.forall_mem_append.mpr ⟨ho.messages, ?_⟩⟩
    have hm := h.messages
    rw [ho.runner] at hm
    exact hm
  reported := by simp
  silent := fun hs => ⟨hs, rfl⟩

/-- Only what the supervisor knows of its runner changes, and it is not silent. -/
theorem reports_frame (hf : s.silent = false) (hb : s'.boundInstance = s.boundInstance)
    (hr : s'.runner.boundInstance = s.runner.boundInstance)
    (hm : ∀ m ∈ s'.messages, m ∈ s.messages)
    (he : s.Own → ∀ e ∈ events, e.about s.boundInstance.boundRunnerId) :
    Reports s s' events where
  boundInstance := hb
  own := fun ho => ⟨hr.trans ((ho.runner).trans hb.symm), fun m hmem =>
    hb ▸ ho.messages m (hm m hmem)⟩
  reported := he
  silent := fun hs => by
    rw [hf] at hs
    cases hs

theorem not_silent_of_forwarding (h : s.forwarding = true) : s.silent = false := by
  simp [silent, h]

theorem about_checkRunner (s : Supervisor) (exitcode : Int) (cause : String) :
    ∀ e ∈ (s.checkRunner exitcode cause).2, e.about s.boundInstance.boundRunnerId := by
  unfold checkRunner
  dsimp only
  split
  · simp
  · refine List.forall_mem_append.mpr ⟨fun e he => ?_, by simp [EventBody.about]⟩
    obtain ⟨task, -, he⟩ := List.mem_filterMap.mp he
    obtain ⟨c, -, rfl⟩ := Option.map_eq_some_iff.mp he
    rfl

/-- What `_check_runner` leaves of the books. -/
theorem checkRunner_books (s : Supervisor) (exitcode : Int) (cause : String) :
    (s.checkRunner exitcode cause).1.boundInstance = s.boundInstance
      ∧ (s.checkRunner exitcode cause).1.runner.boundInstance = s.runner.boundInstance
      ∧ (s.checkRunner exitcode cause).1.messages = s.messages := by
  unfold checkRunner
  dsimp only
  split <;> exact ⟨rfl, rfl, rfl⟩

theorem reports_forwardEvent {body : EventBody} {messages : List RunnerMessage}
    (hf : s.forwarding = true) (hs : s.messages = .event body :: messages)
    (h : forwardEvent { s with messages := messages } body = some (s', events)) :
    Reports s s' events := by
  have hmem : ∀ m ∈ messages, m ∈ s.messages := fun m hm => by
    rw [hs]
    exact List.mem_cons_of_mem _ hm
  have hbody : s.Own → body.about s.boundInstance.boundRunnerId := fun ho =>
    ho.messages (.event body) (by rw [hs]; exact List.mem_cons_self)
  have hone : s.Own → ∀ e ∈ [body], e.about s.boundInstance.boundRunnerId := fun ho e he => by
    rw [List.mem_singleton.mp he]
    exact hbody ho
  have hquiet := not_silent_of_forwarding hf
  unfold forwardEvent at h
  split at h
  · obtain ⟨rfl, rfl⟩ := Prod.mk.inj (Option.some.inj h)
    exact reports_frame hquiet rfl rfl hmem hone
  · split at h
    · obtain ⟨rfl, rfl⟩ := Prod.mk.inj (Option.some.inj h)
      exact reports_frame hquiet rfl rfl hmem (by simp)
    · cases h
  · split at h
    · obtain ⟨rfl, rfl⟩ := Prod.mk.inj (Option.some.inj h)
      exact reports_frame hquiet rfl rfl hmem hone
    · cases h
  · obtain ⟨rfl, rfl⟩ := Prod.mk.inj (Option.some.inj h)
    exact reports_frame hquiet rfl rfl hmem hone

/-- **A supervisor reports its own runner, and nothing once it is silent.** -/
theorem step_reports {a : Action} (h : s.step a = some (some (s', events))) :
    Reports s s' events := by
  cases a with
  | boot =>
      simp only [step] at h
      split at h
      · obtain ⟨rfl, rfl⟩ := Prod.mk.inj (Option.some.inj (Option.some.inj h))
        exact reports_sent (Runner.reports_boot _)
      · cases h
  | take =>
      simp only [step] at h
      split at h
      · rename_i task tasks hs
        obtain ⟨p, hp, he⟩ := Option.map_eq_some_iff.mp h
        obtain ⟨rfl, rfl⟩ := Prod.mk.inj (Option.some.inj he)
        have := reports_sent (s := { s with tasks := tasks }) (Runner.reports_take hp)
        exact ⟨rfl, fun ho => this.own ⟨ho.runner, ho.messages⟩, by simp,
          this.silent⟩
      · cases h
  | takeClosed =>
      simp only [step] at h
      split at h
      · obtain ⟨r, hr, he⟩ := Option.map_eq_some_iff.mp h
        obtain ⟨rfl, rfl⟩ := Prod.mk.inj (Option.some.inj he)
        exact reports_sent (Runner.reports_takeClosed hr)
      · cases h
  | pollEmpty =>
      simp only [step] at h
      split at h
      · obtain ⟨rfl, rfl⟩ := Prod.mk.inj (Option.some.inj (Option.some.inj h))
        exact reports_sent (Runner.reports_loop _)
      · cases h
  | unblock port =>
      obtain ⟨p, hp, he⟩ := Option.map_eq_some_iff.mp h
      obtain ⟨rfl, rfl⟩ := Prod.mk.inj (Option.some.inj he)
      exact reports_sent (Runner.reports_unblock hp)
  | loadProgress k n =>
      obtain ⟨p, hp, he⟩ := Option.map_eq_some_iff.mp h
      obtain ⟨rfl, rfl⟩ := Prod.mk.inj (Option.some.inj he)
      exact reports_sent (Runner.reports_loadProgress hp)
  | engineStep reads results =>
      obtain ⟨p, hp, he⟩ := Option.map_eq_some_iff.mp h
      obtain ⟨rfl, rfl⟩ := Prod.mk.inj (Option.some.inj he)
      have := reports_sent (s := { s with cancels := s.cancels.drop reads })
        (Runner.reports_engineStep hp)
      exact ⟨rfl, fun ho => this.own ⟨ho.runner, ho.messages⟩, by simp,
        this.silent⟩
  | die exitcode =>
      obtain ⟨rfl, rfl⟩ := Prod.mk.inj (Option.some.inj (Option.some.inj h))
      exact ⟨rfl, fun ho => ⟨ho.runner, ho.messages⟩, by simp,
        fun hs => ⟨hs, rfl⟩⟩
  | forward =>
      simp only [step] at h
      split at h
      · rename_i hf
        split at h
        · rename_i body messages hs
          exact reports_forwardEvent hf hs (Option.some.inj h)
        · cases h
      · cases h
  | forwardError exitcode cause =>
      simp only [step] at h
      split at h
      · rename_i hf
        split at h
        · rename_i error messages hs
          obtain ⟨rfl, rfl⟩ := Prod.mk.inj (Option.some.inj (Option.some.inj h))
          obtain ⟨hb, hr, hm⟩ := checkRunner_books { s with messages := messages } exitcode cause
          have hrest : ∀ m ∈ (Supervisor.checkRunner { s with messages := messages } exitcode
              cause).1.messages, m ∈ s.messages := fun m hmem => by
            rw [hm] at hmem
            rw [hs]
            exact List.mem_cons_of_mem _ hmem
          exact reports_frame (not_silent_of_forwarding hf) hb hr hrest
            fun _ => about_checkRunner _ _ _
        · cases h
      · cases h
  | forwardClosed exitcode cause =>
      simp only [step] at h
      split at h
      · rename_i hf
        obtain ⟨rfl, rfl⟩ := Prod.mk.inj (Option.some.inj (Option.some.inj h))
        obtain ⟨hb, hr, hm⟩ := checkRunner_books s exitcode cause
        exact reports_frame (not_silent_of_forwarding hf.1) hb hr (fun m hmem => hm ▸ hmem)
          fun _ => about_checkRunner _ _ _
      · cases h
  | forwardEnd =>
      simp only [step] at h
      split at h
      · rename_i hf
        obtain ⟨rfl, rfl⟩ := Prod.mk.inj (Option.some.inj (Option.some.inj h))
        exact reports_frame (not_silent_of_forwarding hf.1) rfl rfl (fun _ hm => hm)
          (by simp)
      · cases h
  | watch cause =>
      simp only [step] at h
      split at h
      · rename_i exitcode hp
        split at h
        · cases h
        · rename_i hrun
          obtain ⟨rfl, rfl⟩ := Prod.mk.inj (Option.some.inj (Option.some.inj h))
          obtain ⟨hb, hr, hm⟩ := checkRunner_books s exitcode cause
          exact reports_frame (by simp [silent, hrun]) hb hr (fun m hmem => hm ▸ hmem)
            fun _ => about_checkRunner _ _ _
      · cases h

theorem own_startTask {task : Task} (h : s.Own) : (s.startTask task).1.Own := by
  unfold startTask
  split
  · exact h
  · split
    · exact h
    · dsimp only
      split <;> exact ⟨h.runner, h.messages⟩

theorem boundInstance_startTask (s : Supervisor) (task : Task) :
    (s.startTask task).1.boundInstance = s.boundInstance := by
  unfold startTask
  split
  · rfl
  · split
    · rfl
    · dsimp only
      split <;> rfl

theorem Own.stop (h : s.Own) : s.stop.Own := ⟨h.runner, h.messages⟩

end Supervisor

/-! ## Workers -/

namespace Worker

variable {w w' : Worker} {a : Action} {task : Task} {r : RunnerId}

/-- The runner that is being shut down. -/
def stopping? (w : Worker) : Option RunnerId :=
  match w.planner, w.retired with
  | .stopping _, runner :: _ => some runner.boundInstance.boundRunnerId
  | _, _ => none

/-- The worker can still report the status of the runner. -/
def handles (w : Worker) (runnerId : RunnerId) : Bool :=
  (w.runners.get? runnerId).isSome || w.stopping? = some runnerId

/-- The runner whose supervisor a step shuts down for good. -/
def givesUp? (w : Worker) : Action → Option RunnerId
  | .act .. =>
      match w.planner with
      | .announced task =>
          match task.kind with
          | .shutdown runnerId =>
              match w.runners.get? runnerId with
              | some runner => if (runner.startTask task).2 then none else some runnerId
              | none => none
          | _ => none
      | _ => none
  | .acknowledged | .timedOut => w.stopping?
  | _ => none

/-- Every supervisor is filed under its own runner, and only the one that is being shut down
goes on after it was taken off the runners. -/
structure Keyed (w : Worker) : Prop where
  runners : ∀ r s, w.runners.get? r = some s → s.boundInstance.boundRunnerId = r ∧ s.Own
  retired : ∀ s ∈ w.retired, s.Own
  silent : ∀ i s, w.retired[i]? = some s → s.silent ∨ (i = 0 ∧ ∃ t, w.planner = .stopping t)

/-- What a step of a worker does to the runners it can report about. -/
structure Tracks (w : Worker) (a : Action) (w' : Worker) : Prop where
  keyed : w'.Keyed
  outbox : ∃ events, w'.outbox = w.outbox ++ events
    ∧ ∀ r status, .runnerStatusUpdated r status ∈ events → w'.handles r
  handles : ∀ r, w.handles r → w'.handles r ∨ w.givesUp? a = some r

theorem keyed_init (nodeId : NodeId) : ({ nodeId := nodeId } : Worker).Keyed where
  runners := fun _ _ h => by cases h
  retired := by simp
  silent := by simp

theorem handles_iff : w.handles r ↔ (∃ s, w.runners.get? r = some s)
    ∨ ∃ t s rest, w.planner = .stopping t ∧ w.retired = s :: rest
      ∧ s.boundInstance.boundRunnerId = r := by
  rw [handles, Bool.or_eq_true, Option.isSome_iff_exists, decide_eq_true_eq]
  refine or_congr_right ⟨fun h => ?_, ?_⟩
  · unfold stopping? at h
    split at h
    · rename_i t s rest hp hs
      exact ⟨t, s, rest, hp, hs, Option.some.inj h⟩
    · cases h
  · intro ⟨t, s, rest, hp, hs, hr⟩
    simp only [stopping?, hp, hs, hr]

/-- Nothing but the planner, the outbox and the books of the runners changes, and no runner
is being shut down. -/
theorem Keyed.tracks (h : w.Keyed) (hp : ∀ t, w.planner ≠ .stopping t)
    (hret : w'.retired = w.retired)
    (hrun : ∀ q s, w'.runners.get? q = some s → s.boundInstance.boundRunnerId = q ∧ s.Own)
    (hkeep : ∀ q s, w.runners.get? q = some s → ∃ s', w'.runners.get? q = some s')
    (hout : ∃ events, w'.outbox = w.outbox ++ events
      ∧ ∀ q status, .runnerStatusUpdated q status ∉ events) : Tracks w a w' where
  keyed := {
    runners := hrun
    retired := hret ▸ h.retired
    silent := fun i s hs => by
      rw [hret] at hs
      rcases h.silent i s hs with hsil | ⟨-, t, ht⟩
      · exact .inl hsil
      · exact absurd ht (hp t) }
  outbox := by
    obtain ⟨events, he, hno⟩ := hout
    exact ⟨events, he, fun q status hmem => absurd hmem (hno q status)⟩
  handles := fun q hq => by
    rcases handles_iff.1 hq with ⟨s, hs⟩ | ⟨t, -, -, ht, -⟩
    · exact .inl (handles_iff.2 (.inl (hkeep q s hs)))
    · exact absurd ht (hp t)

/-- The runners stay as they are. -/
theorem Keyed.tracks_same (h : w.Keyed) (hp : ∀ t, w.planner ≠ .stopping t)
    (hret : w'.retired = w.retired) (hrun : w'.runners = w.runners)
    (hout : w'.outbox = w.outbox) : Tracks w a w' :=
  h.tracks hp hret (hrun ▸ h.runners) (fun _ s hs => ⟨s, hrun ▸ hs⟩) ⟨[], by simp [hout], by simp⟩

/-- One of the runners gets another supervisor of the same runner. -/
theorem Keyed.tracks_setRunner (h : w.Keyed) (hp : ∀ t, w.planner ≠ .stopping t)
    {s : Supervisor} (hs : s.boundInstance.boundRunnerId = r) (ho : s.Own)
    (hret : w'.retired = w.retired) (hrun : w'.runners = w.runners.set r s)
    (hout : ∃ events, w'.outbox = w.outbox ++ events
      ∧ ∀ q status, .runnerStatusUpdated q status ∉ events) : Tracks w a w' := by
  refine h.tracks hp hret (fun q s' hq => ?_) (fun q s' hq => ?_) hout
  · rw [hrun, Dict.get?_set] at hq
    split at hq
    · rename_i hqr
      rw [← Option.some.inj hq]
      exact ⟨hs.trans hqr.symm, ho⟩
    · exact h.runners q s' hq
  · rw [hrun, Dict.get?_set]
    split
    · exact ⟨s, rfl⟩
    · exact ⟨s', hq⟩

/-- A task is given to a runner; `w₀` is the worker with the inputs of the task taken out. -/
theorem Keyed.tracks_startOn {w₀ : Worker} (h : w.Keyed) (hp : ∀ t, w.planner ≠ .stopping t)
    (hb : w₀.runners = w.runners ∧ w₀.retired = w.retired ∧ w₀.outbox = w.outbox) :
    Tracks w a (w₀.startOn r task) := by
  obtain ⟨hrun, hret, hout⟩ := hb
  unfold startOn
  split
  · exact h.tracks_same hp hret hrun hout
  · rename_i s hs
    rw [hrun] at hs
    obtain ⟨hr, ho⟩ := h.runners r s hs
    have hr' := (s.boundInstance_startTask task).symm ▸ hr
    have hset : (w₀.setRunner r (s.startTask task).1).runners
        = w.runners.set r (s.startTask task).1 := by rw [setRunner, hrun]
    dsimp only
    split <;> exact h.tracks_setRunner hp hr' (Supervisor.own_startTask ho) hret hset
      ⟨[], by simp [setRunner, hout], by simp⟩

theorem Keyed.tracks_startRunnerTask {w₀ : Worker} (h : w.Keyed)
    (hp : ∀ t, w.planner ≠ .stopping t)
    (hb : w₀.runners = w.runners ∧ w₀.retired = w.retired ∧ w₀.outbox = w.outbox) :
    Tracks w a (w₀.startRunnerTask task) := by
  unfold startRunnerTask
  split
  · exact h.tracks_same hp hb.2.1 hb.1 hb.2.2
  · split
    · exact h.tracks_same hp hb.2.1 hb.1 hb.2.2
    · exact h.tracks_startOn hp hb

theorem Keyed.tracks_planTick {now : Time} {taskId : TaskId} (h : w.Keyed)
    (hstep : w.planTick now taskId = some w') : Tracks w a w' := by
  unfold planTick at hstep
  split at hstep
  · rename_i hsleep
    have hp : ∀ t, w.planner ≠ .stopping t := fun t ht => by rw [ht] at hsleep; cases hsleep
    split at hstep
    · rw [← Option.some.inj hstep]
      exact h.tracks_same hp rfl rfl rfl
    · rw [← Option.some.inj hstep]
      exact h.tracks_same hp rfl rfl rfl
    · split at hstep
      · rw [← Option.some.inj hstep]
        exact h.tracks_same hp rfl rfl rfl
      · rw [← Option.some.inj hstep]
        exact h.tracks hp rfl h.runners (fun _ s hs => ⟨s, hs⟩) ⟨_, rfl, by simp⟩
  · cases hstep

/-- A runner is shut down: either its supervisor waits for it, or it is given up. -/
theorem Keyed.tracks_actShutdown {now : Time} {found : Bool} (h : w.Keyed)
    (hp : w.planner = .announced task) (hk : task.kind = .shutdown r) :
    Tracks w (.act now found) (w.actShutdown task r) := by
  have hns : ∀ t, w.planner ≠ .stopping t := fun t ht => by rw [hp] at ht; cases ht
  unfold actShutdown
  split
  · exact h.tracks_same hns rfl rfl rfl
  · rename_i s hs
    obtain ⟨hr, ho⟩ := h.runners r s hs
    have hr' := (s.boundInstance_startTask task).symm ▸ hr
    have hrun : ∀ q s', (w.runners.erase r).get? q = some s' →
        s'.boundInstance.boundRunnerId = q ∧ s'.Own := fun q s' hq => by
      rw [Dict.get?_erase] at hq
      split at hq
      · cases hq
      · exact h.runners q s' hq
    have hold : ∀ i (x : Supervisor), w.retired[i]? = some x → x.silent := fun i x hx => by
      rcases h.silent i x hx with hsil | ⟨-, t, ht⟩
      · exact hsil
      · exact absurd ht (hns t)
    -- the other runners stay where they were
    have hother : ∀ q, w.handles q → q = r ∨ ∃ s', (w.runners.erase r).get? q = some s' := by
      intro q hq
      rcases handles_iff.1 hq with ⟨s', hs'⟩ | ⟨t, -, -, ht, -⟩
      · by_cases hqr : q = r
        · exact .inl hqr
        · exact .inr ⟨s', by rw [Dict.get?_erase_ne _ hqr]; exact hs'⟩
      · exact absurd ht (hns t)
    dsimp only
    split
    · exact {
        keyed := {
          runners := hrun
          retired := List.forall_mem_cons.mpr ⟨Supervisor.own_startTask ho, h.retired⟩
          silent := fun i x hx => by
            cases i with
            | zero => exact .inr ⟨rfl, _, rfl⟩
            | succ i => exact .inl (hold i x hx) }
        outbox := ⟨[], by simp, by simp⟩
        handles := fun q hq => by
          refine .inl (handles_iff.2 ?_)
          rcases hother q hq with rfl | hs'
          · exact .inr ⟨_, _, _, rfl, rfl, hr'⟩
          · exact .inl hs' }
    · rename_i hwaits
      exact {
        keyed := {
          runners := hrun
          retired := List.forall_mem_cons.mpr ⟨(Supervisor.own_startTask ho).stop, h.retired⟩
          silent := fun i x hx => by
            cases i with
            | zero => exact .inl (Option.some.inj hx ▸ rfl)
            | succ i => exact .inl (hold i x hx) }
        outbox := ⟨[], by simp, by simp⟩
        handles := fun q hq => by
          rcases hother q hq with rfl | hs'
          · exact .inr (by simp [givesUp?, hp, hk, hs, hwaits])
          · exact .inl (handles_iff.2 (.inl hs')) }

theorem Keyed.tracks_act {now : Time} {found : Bool} (h : w.Keyed)
    (hstep : w.act now found = some w') : Tracks w (.act now found) w' := by
  unfold act at hstep
  split at hstep
  · rename_i task hp
    have hns : ∀ t, w.planner ≠ .stopping t := fun t ht => by rw [hp] at ht; cases ht
    split at hstep
    · rename_i bound hk
      rw [← Option.some.inj hstep]
      exact h.tracks_setRunner hns (s := .create bound) rfl (Supervisor.own_create bound) rfl rfl
        ⟨_, rfl, by simp⟩
    · rw [← Option.some.inj hstep]
      refine h.tracks hns rfl h.runners (fun _ s hs => ⟨s, hs⟩) ⟨_, rfl, ?_⟩
      split <;> simp
    · rename_i q hk
      rw [← Option.some.inj hstep]
      exact h.tracks_actShutdown hp hk
    · rw [← Option.some.inj hstep]
      unfold actCancelTask
      split
      · exact h.tracks_same hns rfl rfl rfl
      · rename_i s hs
        obtain ⟨hr, ho⟩ := h.runners _ s hs
        exact h.tracks_setRunner hns (s := s.cancelTask _) hr ⟨ho.runner, ho.messages⟩ rfl rfl
          ⟨_, rfl, by simp⟩
    · split at hstep
      · rw [← Option.some.inj hstep]
        unfold actImageEdits
        split
        · exact h.tracks_same hns rfl rfl rfl
        · exact h.tracks_startRunnerTask hns ⟨rfl, rfl, rfl⟩
      · rw [← Option.some.inj hstep]
        exact h.tracks_startRunnerTask hns ⟨rfl, rfl, rfl⟩
    · split at hstep
      · rw [← Option.some.inj hstep]
        unfold actTextGeneration
        split
        · exact h.tracks_same hns rfl rfl rfl
        · exact h.tracks_startRunnerTask hns ⟨rfl, rfl, rfl⟩
      · rw [← Option.some.inj hstep]
        exact h.tracks_startRunnerTask hns ⟨rfl, rfl, rfl⟩
    · rw [← Option.some.inj hstep]
      refine h.tracks_startRunnerTask hns ?_
      split <;> exact ⟨rfl, rfl, rfl⟩
    · rw [← Option.some.inj hstep]
      exact h.tracks_startRunnerTask hns ⟨rfl, rfl, rfl⟩
  · cases hstep

variable {events : List EventBody}

/-- The runner that is being shut down is given up. -/
theorem Keyed.tracks_stop {s : Supervisor} {rest : List Supervisor}
    (h : w.Keyed) (hs : w.retired = s :: rest) (hup : w.givesUp? a = w.stopping?)
    (hno : ∀ q status, .runnerStatusUpdated q status ∉ events) :
    Tracks w a { w.emit events with planner := .sleeping, retired := s.stop :: rest } where
  keyed := {
    runners := h.runners
    retired := by
      have hall := h.retired
      rw [hs] at hall
      obtain ⟨ho, hrest⟩ := List.forall_mem_cons.mp hall
      exact List.forall_mem_cons.mpr ⟨ho.stop, hrest⟩
    silent := fun i x hx => by
      cases i with
      | zero => exact .inl (Option.some.inj hx ▸ rfl)
      | succ i =>
          rcases h.silent (i + 1) x (by rw [hs]; exact hx) with hsil | ⟨hi, -⟩
          · exact .inl hsil
          · cases hi }
  outbox := ⟨events, rfl, fun q status hmem => absurd hmem (hno q status)⟩
  handles := fun q hq => by
    rcases handles_iff.1 hq with ⟨s', hs'⟩ | ⟨t', s', rest', ht', hs', hq'⟩
    · exact .inl (handles_iff.2 (.inl ⟨s', hs'⟩))
    · refine .inr (hup.trans ?_)
      simp only [stopping?, ht', hs', hq']

/-- A supervisor of the runners does a step. -/
theorem Keyed.tracks_runner {s s' : Supervisor} (h : w.Keyed)
    (hs : w.runners.get? r = some s) (he : s.Reports s' events) :
    Tracks w a ((w.setRunner r s').emit events) := by
  obtain ⟨hr, ho⟩ := h.runners r s hs
  have hget : ∀ q, ((w.setRunner r s').emit events).runners.get? q
      = if q = r then some s' else w.runners.get? q := fun q => Dict.get?_set _ _ _ _
  exact {
    keyed := {
      runners := fun q x hq => by
        rw [hget] at hq
        split at hq
        · rename_i hqr
          rw [← Option.some.inj hq, hqr, he.boundInstance]
          exact ⟨hr, he.own ho⟩
        · exact h.runners q x hq
      retired := h.retired
      silent := h.silent }
    outbox := by
      refine ⟨events, rfl, fun q status hmem => handles_iff.2 (.inl ?_)⟩
      have habout := he.reported ho _ hmem
      rw [hr, EventBody.about, decide_eq_true_eq] at habout
      exact ⟨s', by rw [hget, if_pos habout]⟩
    handles := fun q hq => by
      refine .inl (handles_iff.2 ?_)
      rcases handles_iff.1 hq with ⟨x, hx⟩ | hstop
      · refine .inl ?_
        rw [hget]
        split
        · exact ⟨s', rfl⟩
        · exact ⟨x, hx⟩
      · exact .inr hstop }

/-- A supervisor that was shut down does a step; only the one that is waited for reports. -/
theorem Keyed.tracks_retired {i : Nat} {s s' : Supervisor}
    (h : w.Keyed) (hs : w.retired[i]? = some s) (he : s.Reports s' events) :
    Tracks w a ({ w with retired := w.retired.set i s' }.emit events) := by
  have ho := h.retired s (List.mem_of_getElem? hs)
  -- the supervisor at the head is of the same runner as before
  have hhead : ∀ t x rest, w.planner = .stopping t → w.retired = x :: rest →
      ∃ x' rest', w.retired.set i s' = x' :: rest'
        ∧ x'.boundInstance.boundRunnerId = x.boundInstance.boundRunnerId := by
    intro t x rest hp hx
    cases i with
    | zero =>
        rw [hx] at hs
        obtain rfl := Option.some.inj hs
        exact ⟨s', rest, by rw [hx]; rfl, by rw [he.boundInstance]⟩
    | succ i => exact ⟨x, rest.set i s', by rw [hx]; rfl, rfl⟩
  exact {
    keyed := {
      runners := h.runners
      retired := fun x hx => by
        rcases List.mem_or_eq_of_mem_set hx with hx | rfl
        · exact h.retired x hx
        · exact he.own ho
      silent := fun j x hx => by
        have hx : (w.retired.set i s')[j]? = some x := hx
        rw [List.getElem?_set] at hx
        split at hx
        · rename_i hij
          split at hx
          · obtain rfl := Option.some.inj hx
            rcases h.silent i s hs with hsil | hfirst
            · exact .inl (he.silent hsil).1
            · exact .inr (hij ▸ hfirst)
          · cases hx
        · exact h.silent j x hx }
    outbox := by
      refine ⟨events, rfl, fun q status hmem => handles_iff.2 (.inr ?_)⟩
      rcases h.silent i s hs with hsil | ⟨rfl, t, ht⟩
      · rw [(he.silent hsil).2] at hmem
        cases hmem
      · have habout := he.reported ho _ hmem
        rw [EventBody.about, decide_eq_true_eq] at habout
        obtain ⟨x, rest, hx⟩ := List.exists_cons_of_ne_nil
          (List.ne_nil_of_mem (List.mem_of_getElem? hs))
        obtain ⟨x', rest', hset, hid⟩ := hhead t x rest ht hx
        rw [hx] at hs
        obtain rfl := Option.some.inj hs
        exact ⟨t, x', rest', ht, hset, hid.trans habout.symm⟩
    handles := fun q hq => by
      refine .inl (handles_iff.2 ?_)
      rcases handles_iff.1 hq with hrun | ⟨t, x, rest, ht, hx, hq⟩
      · exact .inl hrun
      · obtain ⟨x', rest', hset, hid⟩ := hhead t x rest ht hx
        exact .inr ⟨t, x', rest', ht, hset, hid.trans hq⟩ }

/-- **A worker reports the runners it handles, and lets go of those it gives up.** -/
theorem Keyed.step_tracks (h : w.Keyed) (hstep : w.step a = some w') : Tracks w a w' := by
  unfold step at hstep
  split at hstep
  · cases hstep
  · have hcrash : Tracks w a w.crash :=
      ⟨⟨h.runners, h.retired, h.silent⟩, ⟨[], by simp [crash], by simp⟩, fun _ hq => .inl hq⟩
    cases a with
    | plan now taskId => exact h.tracks_planTick hstep
    | act now found => exact h.tracks_act hstep
    | acknowledged =>
        simp only [acknowledged] at hstep
        split at hstep
        · rename_i q t hp
          have hns : ∀ t, w.planner ≠ .stopping t := fun t ht => by rw [hp] at ht; cases ht
          split at hstep
          · split at hstep
            · rw [← Option.some.inj hstep]
              exact h.tracks_same hns rfl rfl rfl
            · cases hstep
          · cases hstep
        · rename_i t s rest hp hs
          split at hstep
          · rw [← Option.some.inj hstep]
            have hnone : ∀ q status, EventBody.runnerStatusUpdated q status ∉ [] := by simp
            simpa [emit] using h.tracks_stop hs (by rfl) hnone
          · cases hstep
        · cases hstep
    | timedOut =>
        simp only [timedOut] at hstep
        split at hstep
        · rename_i t s rest hp hs
          rw [← Option.some.inj hstep]
          exact h.tracks_stop hs rfl (by simp)
        · cases hstep
    | runner q b =>
        obtain ⟨s, hs, hstep⟩ := Option.bind_eq_some_iff.mp hstep
        obtain ⟨o, ho, hstep⟩ := Option.bind_eq_some_iff.mp hstep
        cases o with
        | none =>
            rw [← Option.some.inj hstep]
            exact hcrash
        | some p =>
            rw [← Option.some.inj hstep]
            exact h.tracks_runner hs (Supervisor.step_reports ho)
    | retired i b =>
        obtain ⟨s, hs, hstep⟩ := Option.bind_eq_some_iff.mp hstep
        obtain ⟨o, ho, hstep⟩ := Option.bind_eq_some_iff.mp hstep
        cases o with
        | none =>
            rw [← Option.some.inj hstep]
            exact hcrash
        | some p =>
            rw [← Option.some.inj hstep]
            exact h.tracks_retired hs (Supervisor.step_reports ho)

end Worker

end Exo
