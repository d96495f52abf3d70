import Exo.Worker.Supervisor

/-!
# What a runner says

A supervisor knows its runner by what comes out of a channel, so its status is one the runner
had. `Speaks` relates the two across the messages in between. A runner changes its status by
itself in a few ways, none of which ends its readiness for a task (`Drifts.accepts`). Any other
change is one it acknowledges a task with.
-/

namespace Exo

open Lib (Dict)

namespace RunnerStatus

/-- `handle_first_task`, or the poll, has a case for the task. -/
def accepts : RunnerStatus → TaskKind → Bool
  | .idle, .connectToGroup | .idle, .loadModel | .connected, .loadModel | .loaded, .startWarmup
  | .ready _, .textGeneration .. | .ready _, .imageGeneration _ | .ready _, .imageEdits ..
  | .running, .textGeneration .. | .running, .imageGeneration _ | .running, .imageEdits ..
  | _, .shutdown _ => true
  | _, _ => false

/-- The status changes without a task taken. -/
def Drifts : RunnerStatus → RunnerStatus → Prop
  | .idle, .idle | .connecting, .connected | .loading .., .loading .. | .loading .., .loaded
  | .warmingUp, .ready _ | .running, .ready _ | .shuttingDown, .shutdown => True
  | _, _ => False

theorem Drifts.accepts {s s' : RunnerStatus} {kind : TaskKind} (h : s.Drifts s')
    (ha : s.accepts kind) : s'.accepts kind := by
  cases s <;> cases s' <;> try cases h
  all_goals cases kind <;> first | rfl | cases ha

/-- Whether the generator is an `Engine`, while the runner works. -/
def engine? : RunnerStatus → Option Bool
  | .idle | .connecting | .connected | .loading .. => some false
  | .loaded | .warmingUp | .ready _ | .running => some true
  | _ => none

end RunnerStatus

namespace RunnerMessage

def ack? : RunnerMessage → Option TaskId
  | .event (.taskAcknowledged taskId) => some taskId
  | _ => none

/-- It neither brings a status nor completes a task. -/
def plain : RunnerMessage → Bool
  | .event (.runnerStatusUpdated ..) | .event (.taskStatusUpdated _ .complete) => false
  | _ => true

end RunnerMessage

/-- The acknowledgements on their way. -/
def acks (messages : List RunnerMessage) : List TaskId := messages.filterMap (·.ack?)

@[simp] theorem acks_append (l l' : List RunnerMessage) : acks (l ++ l') = acks l ++ acks l' :=
  List.filterMap_append

@[simp] theorem acks_acknowledged (taskId : TaskId) (l : List RunnerMessage) :
    acks (.event (.taskAcknowledged taskId) :: l) = taskId :: acks l := rfl

/-- A runner that had the first status has the second one after these messages. -/
inductive Speaks : RunnerStatus → List RunnerMessage → RunnerStatus → Prop where
  | nil (s : RunnerStatus) : Speaks s [] s
  | status {s s' last : RunnerStatus} {l : List RunnerMessage} (r : RunnerId)
      (h : s.Drifts s' ∨ ∃ taskId rest, l = Runner.ackEvent taskId :: rest)
      (hl : Speaks s' l last) : Speaks s (.event (.runnerStatusUpdated r s') :: l) last
  | complete {s last : RunnerStatus} {l : List RunnerMessage} (taskId : TaskId)
      (h : Supervisor.mayComplete s) (hl : Speaks s l last) :
      Speaks s (Runner.taskStatusEvent taskId .complete :: l) last
  | plain {s last : RunnerStatus} {l : List RunnerMessage} {m : RunnerMessage} (h : m.plain)
      (hl : Speaks s l last) : Speaks s (m :: l) last

namespace Speaks

variable {s s' s'' : RunnerStatus} {l l' : List RunnerMessage}

theorem append (h : Speaks s l s') (h' : Speaks s' l' s'') : Speaks s (l ++ l') s'' := by
  induction h with
  | nil => exact h'
  | status r hd hl ih =>
      refine .status r (hd.imp_right ?_) (ih h')
      rintro ⟨taskId, rest, rfl⟩
      exact ⟨taskId, rest ++ l', rfl⟩
  | complete taskId hm hl ih => exact .complete taskId hm (ih h')
  | plain hm hl ih => exact .plain hm (ih h')

/-- Without an acknowledgement on its way, the runner is as ready for a task as it was. -/
theorem accepts {kind : TaskKind} (h : Speaks s l s') (hno : acks l = [])
    (ha : s.accepts kind) : s'.accepts kind := by
  induction h with
  | nil => exact ha
  | status r hd hl ih =>
      rcases hd with hd | ⟨taskId, rest, rfl⟩
      · exact ih hno (hd.accepts ha)
      · cases hno
  | complete taskId hm hl ih => exact ih hno ha
  | @plain s last l m hm hl ih =>
      refine ih ?_ ha
      unfold acks at hno
      rw [List.filterMap_cons] at hno
      split at hno
      · exact hno
      · cases hno

end Speaks

/-! ## A runner by itself -/

/-- The statuses a runner is blocked with, where `closed` says that its queue is closed. -/
def RunnerPhase.Fits (closed : Bool) : RunnerPhase → RunnerStatus → Prop
  | .starting, .idle | .waiting, .idle | .waiting, .connected | .waiting, .loaded
  | .waiting, .ready _ | .connecting _, .connecting | .loading _, .loading ..
  | .warmingUp _, .warmingUp | .generating, .running | .polling, .running
  | .closing _, .shuttingDown | .exited _, _ => True
  -- the generation loop found the end of the queue
  | .waiting, .running => closed
  | _, _ => False

namespace RunnerPhase

variable {closed : Bool} {s : RunnerStatus} {task : Task}

@[simp] theorem fits_starting : starting.Fits closed s ↔ s = .idle := by
  cases s <;> first | exact iff_of_true trivial rfl | exact iff_of_false id nofun

@[simp] theorem fits_waiting : waiting.Fits closed s ↔
    s = .idle ∨ s = .connected ∨ s = .loaded ∨ (∃ port, s = .ready port)
      ∨ (s = .running ∧ closed) := by
  cases s <;> simp [Fits]

@[simp] theorem fits_connecting : (connecting task).Fits closed s ↔ s = .connecting := by
  cases s <;> first | exact iff_of_true trivial rfl | exact iff_of_false id nofun

@[simp] theorem fits_loading : (loading task).Fits closed s ↔ ∃ k n, s = .loading k n := by
  cases s <;> simp [Fits]

@[simp] theorem fits_warmingUp : (warmingUp task).Fits closed s ↔ s = .warmingUp := by
  cases s <;> first | exact iff_of_true trivial rfl | exact iff_of_false id nofun

@[simp] theorem fits_generating : generating.Fits closed s ↔ s = .running := by
  cases s <;> first | exact iff_of_true trivial rfl | exact iff_of_false id nofun

@[simp] theorem fits_polling : polling.Fits closed s ↔ s = .running := by
  cases s <;> first | exact iff_of_true trivial rfl | exact iff_of_false id nofun

@[simp] theorem fits_closing : (closing task).Fits closed s ↔ s = .shuttingDown := by
  cases s <;> first | exact iff_of_true trivial rfl | exact iff_of_false id nofun

end RunnerPhase

namespace Runner

variable {r : Runner} {closed : Bool} {p : Runner × List RunnerMessage}

structure Coherent (closed : Bool) (r : Runner) : Prop where
  fits : r.phase.Fits closed r.currentStatus
  engine : ∀ b, r.currentStatus.engine? = some b → r.isEngine = b

/-- The queue is closed. -/
theorem Coherent.close (h : r.Coherent closed) : r.Coherent true where
  fits := by
    have hfits := h.fits
    revert hfits
    cases r.phase <;> cases r.currentStatus <;> simp [RunnerPhase.Fits]
  engine := h.engine

/-- What the runner says in a step, and that it goes on coherently. -/
structure Says (closed : Bool) (r : Runner) (p : Runner × List RunnerMessage) : Prop where
  speaks : Speaks r.currentStatus p.2 p.1.currentStatus
  coherent : p.1.Coherent closed

/-- A step in which no task is taken. -/
structure Works (closed : Bool) (r : Runner) (p : Runner × List RunnerMessage) : Prop
    extends Says closed r p where
  quiet : acks p.2 = []

/-- A blocking call of the runner returns. -/
theorem works_complete {task : Task} {status : RunnerStatus} {phase : RunnerPhase}
    (hmay : Supervisor.mayComplete r.currentStatus) (hdrifts : r.currentStatus.Drifts status)
    (hfits : phase.Fits closed status) (hengine : ∀ b, status.engine? = some b → r.isEngine = b) :
    Works closed r (r.complete task status phase) where
  speaks := .complete _ hmay (.status _ (.inl hdrifts) (.nil _))
  coherent := ⟨hfits, hengine⟩
  quiet := rfl

variable (h : r.Coherent closed)
include h

theorem works_boot (hp : r.phase = .starting) : Works closed r r.boot := by
  have hidle : r.currentStatus = .idle := RunnerPhase.fits_starting.1 (hp ▸ h.fits)
  unfold boot
  refine ⟨⟨?_, ?_, h.engine⟩, rfl⟩
  · rw [hidle]
    exact .status _ (.inl trivial) (.nil _)
  · rw [hidle]
    trivial

theorem works_unblock {port : Option Nat} (hp : r.unblock port = some p) : Works closed r p := by
  have hfits := h.fits
  unfold unblock at hp
  split at hp
  · rename_i task hphase
    obtain rfl := Option.some.inj hp
    rw [hphase, RunnerPhase.fits_connecting] at hfits
    refine works_complete ?_ ?_ trivial fun b hb => h.engine b ?_
    · rw [hfits]; rfl
    · rw [hfits]; trivial
    · rw [hfits]; exact hb
  · rename_i task hphase
    obtain rfl := Option.some.inj hp
    rw [hphase, RunnerPhase.fits_loading] at hfits
    obtain ⟨k, n, hfits⟩ := hfits
    have hworks : Works closed { r with isEngine := true }
        ({ r with isEngine := true }.complete task .loaded .waiting) := by
      refine works_complete ?_ ?_ trivial fun b hb => Option.some.inj hb
      · rw [hfits]; rfl
      · rw [hfits]; trivial
    exact { hworks with }
  · rename_i task hphase
    obtain rfl := Option.some.inj hp
    rw [hphase, RunnerPhase.fits_warmingUp] at hfits
    have hsame : (r.startPrefillServer port).currentStatus = r.currentStatus
        ∧ (r.startPrefillServer port).isEngine = r.isEngine := by
      unfold startPrefillServer
      split <;> exact ⟨rfl, rfl⟩
    have hengine : r.isEngine = true := h.engine true (by rw [hfits]; rfl)
    have hworks : Works closed (r.startPrefillServer port)
        ((r.startPrefillServer port).complete task
          (.ready (r.startPrefillServer port).prefillServerPort) .waiting) := by
      refine works_complete ?_ ?_ trivial fun b hb => ?_
      · rw [hsame.1, hfits]; rfl
      · rw [hsame.1, hfits]; trivial
      · rw [hsame.2, hengine]
        exact Option.some.inj hb
    exact { hworks with speaks := hsame.1 ▸ hworks.speaks }
  · rename_i task hphase
    obtain rfl := Option.some.inj hp
    rw [hphase, RunnerPhase.fits_closing] at hfits
    refine works_complete ?_ ?_ trivial fun b hb => by cases hb
    · rw [hfits]; rfl
    · rw [hfits]; trivial
  · cases hp

theorem works_loadProgress {k n : Nat} (hp : r.loadProgress k n = some p) :
    Works closed r p := by
  have hfits := h.fits
  unfold loadProgress at hp
  split at hp
  · rename_i task hphase
    obtain rfl := Option.some.inj hp
    rw [hphase, RunnerPhase.fits_loading] at hfits
    obtain ⟨k', n', hfits⟩ := hfits
    refine ⟨⟨?_, ?_, fun b hb => h.engine b ?_⟩, rfl⟩
    · rw [hfits]
      exact .status _ (.inl trivial) (.nil _)
    · dsimp only
      rw [hphase]
      trivial
    · rw [hfits]
      exact hb
  · cases hp

omit h in
theorem speaks_responseEvents (results : List (TaskId × GenerationResponse)) :
    Speaks .running (r.responseEvents results).1 .running
      ∧ acks (r.responseEvents results).1 = [] := by
  induction results with
  | nil => exact ⟨.nil _, rfl⟩
  | cons result results ih =>
      obtain ⟨taskId, response⟩ := result
      cases response with
      | cancelled => exact ih
      | finished => exact ⟨.complete _ rfl ih.1, ih.2⟩
      | chunk =>
          unfold responseEvents
          split
          · exact ⟨.nil _, rfl⟩
          · dsimp only
            cases TaskKind.commandId? _ with
            | none => exact ih
            | some commandId => exact ⟨.plain rfl ih.1, ih.2⟩

theorem works_engineStep {results : List (TaskId × GenerationResponse)}
    (hp : r.engineStep results = some p) : Works closed r p := by
  have hfits := h.fits
  obtain ⟨hspeaks, hquiet⟩ := speaks_responseEvents (r := r) results
  unfold engineStep at hp
  split at hp
  · rename_i hphase
    rw [hphase, RunnerPhase.fits_generating] at hfits
    dsimp only at hp
    rw [← hfits] at hspeaks
    split at hp
    · obtain rfl := Option.some.inj hp
      refine ⟨⟨hspeaks, ?_, h.engine⟩, hquiet⟩
      dsimp only
      rw [hfits]
      trivial
    · obtain rfl := Option.some.inj hp
      refine ⟨⟨hspeaks.append (.plain rfl (.nil _)), trivial, h.engine⟩, ?_⟩
      rw [acks_append, hquiet]
      rfl
  · cases hp

theorem works_loop (hrunning : r.currentStatus = .running) : Works closed r r.loop := by
  have hengine : r.isEngine = true := h.engine true (by rw [hrunning]; rfl)
  unfold loop
  split
  · refine ⟨⟨?_, trivial, fun b hb => ?_⟩, rfl⟩
    · rw [hrunning]
      exact .status _ (.inl trivial) (.nil _)
    · dsimp only
      rw [hengine]
      exact Option.some.inj hb
  · refine ⟨⟨.nil _, ?_, h.engine⟩, rfl⟩
    dsimp only
    rw [hrunning]
    trivial

theorem works_takeClosed {r' : Runner} (hclosed : closed) (hp : r.takeClosed = some r') :
    Works closed r (r', []) := by
  have hfits := h.fits
  unfold takeClosed at hp
  split at hp
  · obtain rfl := Option.some.inj hp
    exact ⟨⟨.nil _, trivial, h.engine⟩, rfl⟩
  · rename_i hphase
    obtain rfl := Option.some.inj hp
    rw [hphase, RunnerPhase.fits_polling] at hfits
    refine ⟨⟨.nil _, ?_, h.engine⟩, rfl⟩
    dsimp only
    rw [hfits]
    exact hclosed
  · cases hp

/-! ## A task that is taken -/

/-- A step in which a task is taken that the runner has a case for. -/
structure Accepts (closed : Bool) (r : Runner) (task : Task)
    (p : Runner × List RunnerMessage) : Prop extends Says closed r p where
  acked : acks p.2 = [] ∨ acks p.2 = [task.taskId]
  inside : ∀ error, .terminationError error ∉ p.2

variable {task : Task}

omit h in
/-- The runner begins with a task. -/
theorem accepts_begin {q : Runner} (hq : q.Coherent closed) :
    Accepts closed r task (q, [r.statusEvent q.currentStatus, ackEvent task.taskId]) where
  speaks := .status _ (.inr ⟨_, _, rfl⟩) (.plain rfl (.nil _))
  coherent := hq
  acked := .inr rfl
  inside := fun error herror => by simp [statusEvent, ackEvent] at herror

omit h in
theorem accepts_shutdown : Accepts closed r task (r.shutdown task) :=
  accepts_begin (q := { r with currentStatus := .shuttingDown, phase := .closing task })
    ⟨trivial, fun b hb => by cases hb⟩

theorem accepts_handleTask (hphase : r.phase = .waiting) (ha : r.currentStatus.accepts task.kind)
    (hclosed : closed → ∃ runnerId, task.kind = .shutdown runnerId) :
    Accepts closed r task (r.handleTask task) := by
  have hfits := h.fits
  rw [hphase, RunnerPhase.fits_waiting] at hfits
  have hengine := h.engine
  unfold handleTask
  rcases hfits with hs | hs | hs | ⟨port, hs⟩ | ⟨hs, hc⟩
  · rw [hs] at ha hengine ⊢
    have hbuilder : r.isEngine = false := hengine false rfl
    cases hk : task.kind <;> rw [hk] at ha <;> try cases ha
    · dsimp only
      rw [if_neg (by simp [hbuilder])]
      exact accepts_begin
        (q := { r with currentStatus := .loading 0 _, phase := .loading task })
        ⟨trivial, fun b hb => hbuilder.trans (Option.some.inj hb)⟩
    · dsimp only
      rw [if_neg (by simp [hbuilder])]
      exact accepts_begin (q := { r with currentStatus := .connecting, phase := .connecting task })
        ⟨trivial, fun b hb => hbuilder.trans (Option.some.inj hb)⟩
    · exact accepts_shutdown
  · rw [hs] at ha hengine ⊢
    have hbuilder : r.isEngine = false := hengine false rfl
    cases hk : task.kind <;> rw [hk] at ha <;> try cases ha
    · dsimp only
      rw [if_neg (by simp [hbuilder])]
      exact accepts_begin
        (q := { r with currentStatus := .loading 0 _, phase := .loading task })
        ⟨trivial, fun b hb => hbuilder.trans (Option.some.inj hb)⟩
    · exact accepts_shutdown
  · rw [hs] at ha hengine ⊢
    have hbuilt : r.isEngine = true := hengine true rfl
    cases hk : task.kind <;> rw [hk] at ha <;> try cases ha
    · dsimp only
      rw [if_pos hbuilt]
      exact accepts_begin (q := { r with currentStatus := .warmingUp, phase := .warmingUp task })
        ⟨trivial, fun b hb => hbuilt.trans (Option.some.inj hb)⟩
    · exact accepts_shutdown
  · rw [hs] at ha hengine ⊢
    have hbuilt : r.isEngine = true := hengine true rfl
    have hgenerates : Accepts closed r task ({ r.submitGeneration task with
        currentStatus := .running, phase := .generating },
        [r.statusEvent .running, ackEvent task.taskId]) :=
      accepts_begin ⟨trivial, fun b hb => hbuilt.trans (Option.some.inj hb)⟩
    cases hk : task.kind <;> rw [hk] at ha <;> try cases ha
    · dsimp only
      rw [if_pos hbuilt]
      exact hgenerates
    · dsimp only
      rw [if_pos hbuilt]
      exact hgenerates
    · dsimp only
      rw [if_pos hbuilt]
      exact hgenerates
    · exact accepts_shutdown
  · obtain ⟨runnerId, hk⟩ := hclosed hc
    rw [hk]
    exact accepts_shutdown

omit h in
/-- A step in which nothing is taken after all. -/
theorem Works.accepts (hw : Works closed r p) (hno : ∀ error, .terminationError error ∉ p.2) :
    Accepts closed r task p :=
  { hw with
    acked := .inl hw.quiet
    inside := hno }

theorem accepts_handleFirstTask (hphase : r.phase = .waiting)
    (ha : r.currentStatus.accepts task.kind)
    (hclosed : closed → ∃ runnerId, task.kind = .shutdown runnerId) :
    Accepts closed r task (r.handleFirstTask task) := by
  unfold handleFirstTask
  split
  · exact Works.accepts ⟨⟨.nil _, h⟩, rfl⟩ fun error herror => by cases herror
  · have hseen : Coherent closed { r with seen := task.taskId :: r.seen } := ⟨h.fits, h.engine⟩
    have haccepts := accepts_handleTask hseen hphase ha hclosed
    exact {
      speaks := .plain rfl haccepts.speaks
      coherent := haccepts.coherent
      acked := haccepts.acked
      inside := fun error herror => by
        rcases List.mem_cons.mp herror with herror | herror
        · cases herror
        · exact haccepts.inside error herror }

omit h in
theorem terminationError_loop (error : String) : .terminationError error ∉ r.loop.2 := by
  unfold loop
  split
  · simp [statusEvent]
  · simp

theorem accepts_pollTask (hphase : r.phase = .polling) (ha : r.currentStatus.accepts task.kind) :
    Accepts closed r task (r.pollTask task) := by
  have hrunning : r.currentStatus = .running := RunnerPhase.fits_polling.1 (hphase ▸ h.fits)
  unfold pollTask
  split
  · exact (works_loop h hrunning).accepts terminationError_loop
  · -- what is submitted is acknowledged before the loop goes on
    have hsubmits : Accepts closed r task
        (({ r with seen := task.taskId :: r.seen }.submitGeneration task).loop.1,
          ackEvent task.taskId ::
            ({ r with seen := task.taskId :: r.seen }.submitGeneration task).loop.2) := by
      have hsub : Coherent closed
          ({ r with seen := task.taskId :: r.seen }.submitGeneration task) := ⟨h.fits, h.engine⟩
      have hworks := works_loop hsub hrunning
      exact {
        speaks := .plain rfl hworks.speaks
        coherent := hworks.coherent
        acked := .inr (congrArg (task.taskId :: ·) hworks.quiet)
        inside := fun error herror => by
          rcases List.mem_cons.mp herror with herror | herror
          · cases herror
          · exact terminationError_loop error herror }
    rw [hrunning] at ha
    dsimp only
    cases hk : task.kind <;> rw [hk] at ha <;> try cases ha
    · exact hsubmits
    · exact hsubmits
    · exact hsubmits
    · exact accepts_begin (q := { r with
          seen := task.taskId :: r.seen, currentStatus := .shuttingDown, phase := .closing task })
        ⟨trivial, fun b hb => by cases hb⟩

/-- **A task the runner has a case for is taken.** -/
theorem accepts_take (ha : r.currentStatus.accepts task.kind)
    (hclosed : closed → ∃ runnerId, task.kind = .shutdown runnerId)
    (hp : r.take task = some p) : Accepts closed r task p := by
  unfold take at hp
  split at hp
  · rename_i hphase
    obtain rfl := Option.some.inj hp
    exact accepts_handleFirstTask h hphase ha hclosed
  · rename_i hphase
    obtain rfl := Option.some.inj hp
    exact accepts_pollTask h hphase ha
  · cases hp

end Runner

end Exo
