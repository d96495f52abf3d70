import Exo.Cluster.Terminal

/-!
# Cancellations that the planner never sees

A cancellation is one event of the log, and a worker passes it on to its runners when its
planner next finds the task cancelled in the state. When the task is deleted from the state
before the planner looks, the runner is never told.

The history `witnessed` of a supervisor has the tasks it had in progress when a cancellation
of them was logged. `Cluster.cancelsFirst` is what keeps such a task in the state until the
cancellation was passed on.
-/

namespace Exo

open Lib (Dict Machine)

/-- The task whose status an event can change. -/
def EventBody.task? : EventBody → Option TaskId
  | .taskCreated t _ | .taskStatusUpdated t _ | .taskDeleted t => some t
  | _ => none

theorem status_apply_of_ne {body : EventBody} {t : TaskId} (h : body.task? ≠ some t) (s : State) :
    (body.apply s).status? t = s.status? t := by
  rw [status_apply]
  split
  · exact if_neg fun ht => h (congrArg some ht.symm)
  · exact if_neg fun ht => h (congrArg some ht.symm)
  · exact if_neg fun ht => h (congrArg some ht.symm)
  · rfl

variable {sup : Supervisor}

/-- What `_cancel_tasks` has nothing left to do for. -/
theorem PlanInput.cancelTasks_none {p : PlanInput} (h : p.cancelTasks = none) {t : TaskId}
    {task : Task} (ht : p.tasks.get? t = some task) (hc : task.taskStatus = .cancelled)
    {r : RunnerId} (hr : p.runners.get? r = some sup)
    (hi : sup.instanceId = task.instanceId) : task.taskId ∈ sup.cancelled := by
  have htask := List.findSome?_eq_none_iff.mp h task (Dict.mem_values.2 ⟨t, ht⟩)
  rw [if_pos hc] at htask
  have hrun := List.findSome?_eq_none_iff.mp htask (r, sup) (Dict.mem_entries.2 hr)
  by_cases hmem : task.taskId ∈ sup.cancelled
  · exact hmem
  · simp [hi, hmem] at hrun

namespace Supervisor

/-- The cancellation was passed on, or the task is not in progress any more. -/
def Safe (s : Supervisor) (t : TaskId) : Prop :=
  t ∈ s.cancelled ∨ t ∈ s.completed ∨ s.inProgress.get? t = none

instance (s : Supervisor) (t : TaskId) : Decidable (s.Safe t) :=
  inferInstanceAs (Decidable (_ ∨ _ ∨ _))

/-- What its books say about the tasks it has, or had, in progress. -/
structure Booked (issued : Dict TaskId InstanceId) (log : List EventBody) (s : Supervisor) :
    Prop where
  /-- It works on tasks of its own instance. -/
  owned : ∀ t, s.inProgress.get? t ≠ none → issued.get? t = some s.instanceId
  /-- It will not be given a witnessed task once more. -/
  held : ∀ t ∈ s.witnessed,
    s.inProgress.get? t ≠ none ∨ t ∈ s.completed ∨ s.closed = true
  /-- What it witnessed was logged. -/
  logged : ∀ t ∈ s.witnessed, .taskStatusUpdated t .cancelled ∈ log

variable {s s' : Supervisor} {issued issued' : Dict TaskId InstanceId} {log : List EventBody}
  {events : List EventBody} {task : Task} {t : TaskId}

theorem Booked.mono (h : Booked issued log s)
    (hle : ∀ t i, issued.get? t = some i → issued'.get? t = some i) : Booked issued' log s :=
  { h with owned := fun t ht => hle t _ (h.owned t ht) }

theorem instanceId_eq (h : s'.boundInstance = s.boundInstance) : s'.instanceId = s.instanceId := by
  unfold instanceId
  rw [h]

theorem Booked.evolves (h : Booked issued log s) (he : Evolves s s' events) :
    Booked issued log s' where
  owned := fun t ht => by
    obtain ⟨x, hx⟩ := Option.ne_none_iff_exists'.mp ht
    rw [instanceId_eq he.boundInstance]
    exact h.owned t (by rw [he.inProgress t x hx]; simp)
  held := fun t ht => by
    rw [he.witnessed] at ht
    rcases h.held t ht with hp | hc | hcl
    · rcases he.kept t hp with hp' | hc'
      · exact .inl hp'
      · exact .inr (.inl hc')
    · exact .inr (.inl (he.completed t hc))
    · exact .inr (.inr (he.closed hcl))
  logged := fun t ht => h.logged t (he.witnessed ▸ ht)

theorem Booked.starts (h : Booked issued log s) (hs : Starts s task s')
    (hi : issued.get? task.taskId = some s.instanceId) : Booked issued log s' where
  owned := fun t ht => by
    obtain ⟨x, hx⟩ := Option.ne_none_iff_exists'.mp ht
    rw [instanceId_eq hs.boundInstance]
    rcases hs.inProgress t x hx with hold | ⟨rfl, -⟩
    · exact h.owned t (by rw [hold]; simp)
    · exact hi
  held := fun t ht => by
    rw [hs.witnessed] at ht
    rcases h.held t ht with hp | hc | hcl
    · rcases hs.kept t hp with hp' | hcl
      · exact .inl hp'
      · exact .inr (.inr hcl)
    · exact .inr (.inl (hs.completed ▸ hc))
    · exact .inr (.inr (hs.closed ▸ hcl))
  logged := fun t ht => h.logged t (hs.witnessed ▸ ht)

theorem Safe.evolves (h : s.Safe t) (he : Evolves s s' events) : s'.Safe t := by
  rcases h with hc | hc | hn
  · exact .inl (he.cancelled ▸ hc)
  · exact .inr (.inl (he.completed t hc))
  · refine .inr (.inr ?_)
    cases hx : s'.inProgress.get? t with
    | none => rfl
    | some x => rw [he.inProgress t x hx] at hn; cases hn

/-- A witnessed task that left the tasks in progress is not put back there. -/
theorem Safe.starts (h : s.Safe t) (hb : Booked issued log s) (hw : t ∈ s.witnessed)
    (hs : Starts s task s') : s'.Safe t := by
  rcases h with hc | hc | hn
  · exact .inl (hs.cancelled ▸ hc)
  · exact .inr (.inl (hs.completed ▸ hc))
  · rcases hb.held t hw with hp | hc | hcl
    · exact absurd hn hp
    · exact .inr (.inl (hs.completed ▸ hc))
    · refine .inr (.inr ?_)
      cases hx : s'.inProgress.get? t with
      | none => rfl
      | some x =>
          rcases hs.inProgress t x hx with hold | ⟨-, -, -, hopen⟩
          · rw [hold] at hn; cases hn
          · rw [hopen] at hcl; cases hcl

theorem Safe.cancelTask (h : s.Safe t) (t' : TaskId) : (s.cancelTask t').Safe t := by
  rcases h with hc | hc | hn
  · exact .inl (List.mem_cons_of_mem _ hc)
  · exact .inr (.inl hc)
  · exact .inr (.inr hn)

end Supervisor

namespace Cluster

/-- The supervisor still has the cancelled task in progress, and the worker's state lost it. -/
def Lost (log : List EventBody) (w : Worker) (sup : Supervisor) (t : TaskId) : Prop :=
  ¬ sup.Safe t ∧ w.state.tasks.get? t = none ∧ .taskDeleted t ∈ log.take w.applied

/--
No cancellation is lost: a task that a supervisor had in progress when a cancellation of it
was logged stays in the worker's state until the supervisor has cancelled or completed it.
-/
def CancellationsKept (s : Cluster) : Prop :=
  ∀ n w, s.workers.get? n = some w → ∀ sup ∈ w.supervisors, ∀ t ∈ sup.witnessed,
    ¬ Lost s.log w sup t

/-- `_cancel_tasks` has nothing to do for this task. -/
def cancelDone (w : Worker) (t : TaskId) : Bool :=
  ({ w.planInput 0 0 with tasks := w.state.tasks.filter fun t' _ => t' = t }).cancelTasks.isNone

/-- The event takes a cancelled task out of that status. -/
def uncancels (w : Worker) (body : EventBody) (t : TaskId) : Bool :=
  w.state.status? t = some .cancelled ∧ (body.apply w.state).status? t ≠ some .cancelled

/--
The steps that pass a cancellation on before the task is gone: a cancellation is logged while
its task is in the state, was never deleted, and is in progress at no supervisor that was shut
down; a worker applies an event that ends the status of a cancelled task when its planner has
nothing to do for that task; and a task is handed to a supervisor of its own instance, and a
supervisor is shut down when it has no cancelled task in progress.
-/
def cancelsFirst (s : Cluster) : Action → Bool
  | .log source =>
      match (s.next? source).bind cancelled? with
      | some t => (s.processor.state.tasks.get? t).isSome && !s.log.contains (.taskDeleted t)
          && s.workers.values.all fun w => w.retired.all fun sup => decide (sup.Safe t)
      | none => true
  | .apply n =>
      (s.workers.get? n).all fun w => (s.log[w.applied]?).all fun body =>
        body.task?.all fun t => !uncancels w body t || cancelDone w t
  | .worker n (.act _ _) =>
      (s.workers.get? n).all fun w =>
        match w.planner with
        | .announced task => (w.target? task).all fun sup =>
            sup.instanceId = task.instanceId && match task.kind with
              | .shutdown _ => sup.inProgress.keys.all fun t =>
                  !s.log.contains (.taskStatusUpdated t .cancelled) || decide (sup.Safe t)
              | _ => true
        | _ => true
  | _ => true

/-- The worker will come to a cancellation of the task, or has it in its state. -/
def Due (log : List EventBody) (w : Worker) (t : TaskId) : Prop :=
  (∃ k, w.applied ≤ k ∧ log[k]? = some (.taskStatusUpdated t .cancelled)
      ∧ (∃ task, .taskCreated t task ∈ log.take k) ∧ .taskDeleted t ∉ log.take k)
    ∨ w.state.status? t = some .cancelled

/-- What holds of a worker along the runs that pass cancellations on first. -/
structure WorkerDue (issued : Dict TaskId InstanceId) (log : List EventBody) (w : Worker) :
    Prop where
  booked : ∀ sup ∈ w.supervisors, sup.Booked issued log
  /-- Its runners are told, or the planner will see that they have to be. -/
  due : ∀ r sup, w.runners.get? r = some sup → ∀ t ∈ sup.witnessed, sup.Safe t ∨ Due log w t
  /-- Those that were shut down were told. -/
  safe : ∀ sup ∈ w.retired, ∀ t ∈ sup.witnessed, sup.Safe t

structure CancelInv (s : Cluster) : Prop where
  sound : Sound s
  workers : ∀ n w, s.workers.get? n = some w → WorkerDue s.issued s.log w

theorem cancelInv_init (nodeIds : List NodeId) : CancelInv (init nodeIds) where
  sound := sound_init nodeIds
  workers := by
    intro n w h
    rw [init_workers h]
    exact ⟨by simp [Worker.supervisors], by simp, by simp⟩

section Steps

variable {s s' : Cluster} {w w' : Worker} {issued issued' : Dict TaskId InstanceId}
  {log : List EventBody} {body : EventBody} {t : TaskId}

theorem Due.same (h : Due log w t) (hs : w'.state = w.state) (ha : w'.applied = w.applied) :
    Due log w' t := by
  unfold Due
  rw [hs, ha]
  exact h

theorem Due.append (h : Due log w t) : Due (log ++ [body]) w t := by
  rcases h with ⟨k, hle, hk, ⟨task, hc⟩, hd⟩ | hstat
  · have hlt : k < log.length := (List.getElem?_eq_some_iff.mp hk).1
    refine .inl ⟨k, hle, by rw [List.getElem?_append_left hlt]; exact hk, ⟨task, ?_⟩, ?_⟩
    · rw [List.take_append_of_le_length (by omega)]
      exact hc
    · rw [List.take_append_of_le_length (by omega)]
      exact hd
  · exact .inr hstat

/-- A cancellation that is due is still due after one more event, or that event ended it. -/
theorem Due.applied_next (h : Due log w t) (sha256 : Base64Image → Base64ImageHash)
    (hw : WorkerSound issued log w) (hb : log[w.applied]? = some body) :
    Due log (w.applyEvent sha256 body) t ∨ uncancels w body t := by
  obtain ⟨h1, h2, -⟩ := applyEvent_books sha256 w body
  rcases h with ⟨k, hle, hk, ⟨task, hc⟩, hd⟩ | hstat
  · rcases Nat.eq_or_lt_of_le hle with rfl | hlt
    · -- the cancellation itself is applied
      rw [hb] at hk
      obtain rfl := Option.some.inj hk
      refine .inl (.inr ?_)
      rw [h1, status_apply]
      simp only [if_true]
      have hmem := mem_replay_of_created hc hd
      rw [← hw.state, ne_eq, ← State.status?_eq_none] at hmem
      obtain ⟨status, hs⟩ := Option.ne_none_iff_exists'.mp hmem
      rw [hs]
      rfl
    · exact .inl (.inl ⟨k, by omega, hk, ⟨task, hc⟩, hd⟩)
  · by_cases hafter : (body.apply w.state).status? t = some .cancelled
    · exact .inl (.inr (by rw [h1]; exact hafter))
    · exact .inr (by simp [uncancels, hstat, hafter])

theorem WorkerDue.mono (h : WorkerDue issued log w)
    (hle : ∀ t i, issued.get? t = some i → issued'.get? t = some i) : WorkerDue issued' log w :=
  { h with booked := fun sup hm => (h.booked sup hm).mono hle }

theorem WorkerDue.same (h : WorkerDue issued log w) (hs : SameWorker w w') :
    WorkerDue issued log w' where
  booked := by
    simp only [Worker.supervisors, hs.runners, hs.retired]
    exact h.booked
  due := fun r sup hr t ht =>
    (h.due r sup (hs.runners ▸ hr) t ht).imp_right fun hd => hd.same hs.state hs.applied
  safe := fun sup hm => h.safe sup (hs.retired ▸ hm)

/-! ## An event is logged -/

theorem witnessOf_books (body : EventBody) (sup : Supervisor) :
    (witnessOf body sup).boundInstance = sup.boundInstance
      ∧ (witnessOf body sup).inProgress = sup.inProgress
      ∧ (witnessOf body sup).completed = sup.completed
      ∧ (witnessOf body sup).cancelled = sup.cancelled
      ∧ (witnessOf body sup).closed = sup.closed := by
  unfold witnessOf
  split
  · unfold Supervisor.witness
    split <;> exact ⟨rfl, rfl, rfl, rfl, rfl⟩
  · exact ⟨rfl, rfl, rfl, rfl, rfl⟩

theorem safe_witnessOf : (witnessOf body sup).Safe t ↔ sup.Safe t := by
  obtain ⟨-, h2, h3, h4, -⟩ := witnessOf_books body sup
  unfold Supervisor.Safe
  rw [h2, h3, h4]

/-- A witnessed task was witnessed before, or the event that is logged cancels it. -/
theorem witnessed_cases (h : t ∈ (witnessOf body sup).witnessed) :
    t ∈ sup.witnessed
      ∨ (body = .taskStatusUpdated t .cancelled ∧ sup.inProgress.get? t ≠ none) := by
  unfold witnessOf at h
  split at h
  · rename_i t' hb
    unfold Supervisor.witness at h
    split at h
    · rename_i hin
      rcases List.mem_cons.mp h with rfl | h
      · refine .inr ⟨?_, fun hn => by rw [hn] at hin; cases hin⟩
        unfold cancelled? at hb
        split at hb
        · rw [Option.some.inj hb]
        · cases hb
      · exact .inl h
    · exact .inl h
  · exact .inl h

theorem booked_witnessOf (h : sup.Booked issued log) :
    (witnessOf body sup).Booked issued (log ++ [body]) := by
  obtain ⟨h1, h2, h3, -, h5⟩ := witnessOf_books body sup
  refine ⟨?_, ?_, ?_⟩
  · intro t ht
    rw [Supervisor.instanceId_eq h1]
    exact h.owned t (h2 ▸ ht)
  · intro t ht
    rw [h2, h3, h5]
    rcases witnessed_cases ht with hold | ⟨-, hin⟩
    · exact h.held t hold
    · exact .inl hin
  · intro t ht
    rcases witnessed_cases ht with hold | ⟨hb, -⟩
    · exact List.mem_append_left _ (h.logged t hold)
    · rw [hb]
      simp

/-- **An event is logged:** a cancellation is due at every runner that has the task in progress. -/
theorem WorkerDue.logged (h : WorkerDue issued log w) (hw : WorkerSound issued log w)
    (hl : LoggedTo body w w')
    (hcan : ∀ t, body = .taskStatusUpdated t .cancelled → (∃ task, .taskCreated t task ∈ log)
      ∧ .taskDeleted t ∉ log ∧ ∀ sup ∈ w.retired, sup.Safe t) :
    WorkerDue issued (log ++ [body]) w' where
  booked := fun sup' hm => by
    obtain ⟨sup, hsup, rfl⟩ := hl.supervisors hm
    exact booked_witnessOf (h.booked sup hsup)
  due := fun r sup' hr t ht => by
    obtain ⟨sup, hsup, rfl⟩ := hl.runners r sup' hr
    rw [safe_witnessOf]
    rcases witnessed_cases ht with hold | ⟨hb, -⟩
    · exact (h.due r sup hsup t hold).imp_right fun hd => hd.append.same hl.state hl.applied
    · obtain ⟨⟨task, hc⟩, hd, -⟩ := hcan t hb
      refine .inr (.inl ⟨log.length, ?_, ?_, ⟨task, ?_⟩, ?_⟩)
      · rw [hl.applied]
        exact hw.applied
      · simp [hb]
      · simpa using hc
      · simpa using hd
  safe := fun sup' hm t ht => by
    obtain ⟨sup, hsup, rfl⟩ := hl.retired sup' hm
    rw [safe_witnessOf]
    rcases witnessed_cases ht with hold | ⟨hb, -⟩
    · exact h.safe sup hsup t hold
    · exact (hcan t hb).2.2 sup hsup

/-! ## A worker applies an event -/

/-- When `_cancel_tasks` has nothing to do for a cancelled task, its runners were told. -/
theorem cancelled_of_cancelDone {r : RunnerId} {task : Task}
    (hd : cancelDone w t) (ht : w.state.tasks.get? t = some task)
    (hc : task.taskStatus = .cancelled) (hid : task.taskId = t)
    (hr : w.runners.get? r = some sup) (hi : sup.instanceId = task.instanceId) :
    t ∈ sup.cancelled := by
  have hnone := Option.isNone_iff_eq_none.mp hd
  have hget : (w.state.tasks.filter fun t' _ => t' = t).get? t = some task := by
    rw [Dict.get?_filter, ht]
    simp
  exact hid ▸ PlanInput.cancelTasks_none hnone hget hc hr hi

/-- **A worker applies an event:** a cancelled task leaves its status when its runners were told. -/
theorem WorkerDue.applied_next (h : WorkerDue issued log w)
    (sha256 : Base64Image → Base64ImageHash)
    (hw : WorkerSound issued log w) (hlog : ∀ e ∈ log, e.Issued issued)
    (hb : log[w.applied]? = some body) (hok : ∀ t, uncancels w body t → cancelDone w t) :
    WorkerDue issued log (w.applyEvent sha256 body) := by
  obtain ⟨-, -, h3, h4, -⟩ := applyEvent_books sha256 w body
  refine ⟨?_, ?_, ?_⟩
  · simp only [Worker.supervisors, h3, h4]
    exact h.booked
  · intro r sup hr t ht
    rw [h3] at hr
    have hbooked := h.booked sup (List.mem_append_left _ (Dict.mem_values.2 ⟨r, hr⟩))
    rcases h.due r sup hr t ht with hs | hd
    · exact .inl hs
    · rcases hd.applied_next sha256 hw hb with hd | hu
      · exact .inr hd
      · by_cases hin : sup.inProgress.get? t = none
        · exact .inl (.inr (.inr hin))
        · refine .inl (.inl ?_)
          have hu' := hu
          simp only [uncancels, decide_eq_true_eq] at hu'
          obtain ⟨task, htask, hstat⟩ := Option.map_eq_some_iff.mp hu'.1
          have hget := htask
          rw [hw.state] at hget
          obtain ⟨hid, hiss⟩ := issued_of_replay
            (fun e he => hlog e (List.mem_of_mem_take he)) hget
          rw [hbooked.owned t hin] at hiss
          exact cancelled_of_cancelDone (hok t hu) htask hstat hid hr (Option.some.inj hiss)
  · rw [h4]
    exact h.safe

/-! ## A worker takes a step -/

/-- **A worker takes a step:** it passes tasks to their own instance and shuts down who is done. -/
theorem WorkerDue.moves {b : Worker.Action} (h : WorkerDue issued log w)
    (hw : WorkerSound issued log w) (hm : w.Moves b w')
    (hown : ∀ task, (∃ now found, b = .act now found) → w.announces task →
      ∀ sup, w.target? task = some sup → sup.instanceId = task.instanceId
        ∧ ∀ r, task.kind = .shutdown r → ∀ t, .taskStatusUpdated t .cancelled ∈ log → sup.Safe t) :
    WorkerDue issued log w' := by
  have hrun : ∀ r sup, w.runners.get? r = some sup → sup.Booked issued log := fun r sup hr =>
    h.booked sup (List.mem_append_left _ (Dict.mem_values.2 ⟨r, hr⟩))
  have hdue : ∀ t, Due log w t → Due log w' t := fun t hd => hd.same hm.state hm.applied
  have hrunners : ∀ r sup', w'.runners.get? r = some sup' → sup'.Booked issued log
      ∧ ∀ t ∈ sup'.witnessed, sup'.Safe t ∨ Due log w' t := by
    intro r sup' hr
    cases hm.runners r sup' hr with
    | same hs => exact ⟨hrun r sup' hs, fun t ht => (h.due r sup' hs t ht).imp_right (hdue t)⟩
    | evolved sup events hs he =>
        refine ⟨(hrun r sup hs).evolves he, ?_⟩
        intro t ht
        exact (h.due r sup hs t (he.witnessed ▸ ht)).imp (fun hsafe => hsafe.evolves he) (hdue t)
    | created bound hs =>
        subst hs
        exact ⟨⟨by simp [Supervisor.create], by simp [Supervisor.create],
          by simp [Supervisor.create]⟩, by simp [Supervisor.create]⟩
    | started sup task task' hs hact hann _ ht hsame hst =>
        have hinst := (hown task hact hann sup ht).1
        have hiss : issued.get? task'.taskId = some sup.instanceId := by
          rw [hsame.taskId, hw.announced task hann, hinst]
        refine ⟨(hrun r sup hs).starts hst hiss, ?_⟩
        intro t hwit
        rw [hst.witnessed] at hwit
        exact (h.due r sup hs t hwit).imp
          (fun hsafe => hsafe.starts (hrun r sup hs) hwit hst) (hdue t)
    | cancelled sup t' hs he =>
        subst he
        have hb := hrun r sup hs
        refine ⟨⟨hb.owned, hb.held, hb.logged⟩, ?_⟩
        intro t ht
        exact (h.due r sup hs t ht).imp (fun hsafe => hsafe.cancelTask t') (hdue t)
  have hretired : ∀ sup' ∈ w'.retired, sup'.Booked issued log
      ∧ ∀ t ∈ sup'.witnessed, sup'.Safe t := by
    intro sup' hmem
    cases hm.retired sup' hmem with
    | same hs => exact ⟨h.booked sup' (List.mem_append_right _ hs), h.safe sup' hs⟩
    | evolved sup events hs he =>
        refine ⟨(h.booked sup (List.mem_append_right _ hs)).evolves he, ?_⟩
        intro t ht
        exact (h.safe sup hs t (he.witnessed ▸ ht)).evolves he
    | shutDown sup s₁ task r hs hact hann hk hst he =>
        have htarget : w.target? task = some sup := by
          simp only [Worker.target?, hk]
          exact hs
        obtain ⟨hinst, hsafe⟩ := hown task hact hann sup htarget
        have hiss : issued.get? task.taskId = some sup.instanceId := by
          rw [hw.announced task hann, hinst]
        have hb := hrun r sup hs
        refine ⟨(hb.starts hst hiss).evolves he, ?_⟩
        intro t ht
        rw [he.witnessed, hst.witnessed] at ht
        exact ((hsafe r hk t (hb.logged t ht)).starts hb ht hst).evolves he
  exact {
    booked := fun sup' hmem => by
      rcases List.mem_append.mp hmem with hmem | hmem
      · obtain ⟨r, hr⟩ := Dict.mem_values.1 hmem
        exact (hrunners r sup' hr).1
      · exact (hretired sup' hmem).1
    due := fun r sup' hr => (hrunners r sup' hr).2
    safe := fun sup' hmem => (hretired sup' hmem).2 }

/-! ## Runs -/

theorem cancelInv_step {sha256 : Base64Image → Base64ImageHash} {a : Action} (h : CancelInv s)
    (hok : s.cancelsFirst a) (hs : s.step sha256 a = some s') : CancelInv s' := by
  have hmono : ∀ t i, s.issued.get? t = some i → s'.issued.get? t = some i :=
    fun _ _ ht => issued_mono h.sound hs ht
  refine ⟨sound_step h.sound hs, ?_⟩
  cases step_cases hs with
  | quiet hlog _ hiss _ hw _ =>
      intro n w' hw'
      obtain ⟨w, hget, hsame⟩ := hw n w' hw'
      rw [hlog, hiss]
      exact (h.workers n w hget).same hsame
  | executed i taskId command _ hf he =>
      intro n w hw
      rw [he, issue_workers] at hw
      rw [he, issue_log, ← he]
      exact (h.workers n w hw).mono hmono
  | logged source body ha hn he =>
      have hlog : s'.log = s.log ++ [body] := by rw [he]; simp [append, takeNext_log]
      have hiss : s'.issued = s.issued := by rw [he]; simp [append, takeNext_issued]
      intro n w' hw'
      rw [he] at hw'
      obtain ⟨w, hget, hl⟩ := loggedTo hw'
      rw [hlog, hiss]
      refine (h.workers n w hget).logged (h.sound.workers n w hget) hl ?_
      intro t hb
      subst ha
      simp only [cancelsFirst, hn, Option.bind_some, hb, cancelled?, Bool.and_eq_true,
        List.all_eq_true, Dict.mem_values, decide_eq_true_eq] at hok
      obtain ⟨⟨hin, hdel⟩, hret⟩ := hok
      refine ⟨?_, by simpa using hdel, hret w ⟨n, hget⟩⟩
      rw [h.sound.processor] at hin
      exact created_of_mem_replay (Option.isSome_iff_ne_none.mp hin)
  | applied n w body ha hw hb _ he =>
      subst he
      intro m v hv
      rcases setWorker_cases hv with ⟨rfl, rfl⟩ | ⟨-, hv⟩
      · refine (h.workers m w hw).applied_next _ (h.sound.workers m w hw) h.sound.log hb ?_
        intro t hu
        subst ha
        have hb' : s.log[w.applied]? = some body := hb
        simp only [cancelsFirst, hw, hb', Option.all_some] at hok
        have htask : body.task? = some t := by
          by_contra hne
          simp only [uncancels, decide_eq_true_eq] at hu
          rw [status_apply_of_ne hne] at hu
          exact hu.2 hu.1
        rw [htask, Option.all_some, hu] at hok
        simpa using hok
      · exact h.workers m v hv
  | worked n b w w' ha hf hw hm he =>
      have hlog : s'.log = s.log := by rw [he, issue_log]; rfl
      intro m v hv
      rw [he, issue_workers] at hv
      rw [hlog]
      rcases setWorker_cases hv with ⟨rfl, rfl⟩ | ⟨-, hv⟩
      · refine ((h.workers m w hw).moves (h.sound.workers m w hw) hm ?_).mono hmono
        rintro task ⟨now, found, rfl⟩ hann sup htarget
        subst ha
        rw [Worker.announces] at hann
        simp only [cancelsFirst, hw, Option.all_some, hann, htarget, Bool.and_eq_true,
          decide_eq_true_eq] at hok
        refine ⟨hok.1, ?_⟩
        intro r hk t hcan
        have hkeys := hok.2
        simp only [hk, List.all_eq_true, Dict.mem_keys, Bool.or_eq_true, decide_eq_true_eq] at hkeys
        cases hin : sup.inProgress.get? t with
        | none => exact .inr (.inr hin)
        | some x =>
            rcases hkeys t (by rw [hin]; rfl) with hnot | hsafe
            · rw [List.contains_iff_mem.mpr hcan] at hnot
              cases hnot
            · exact hsafe
      · exact (h.workers m v hv).mono hmono

/-- A worker that keeps its cancellations due loses none. -/
theorem WorkerDue.not_lost (h : WorkerDue issued log w)
    (hm : sup ∈ w.supervisors) (ht : t ∈ sup.witnessed) : ¬ Lost log w sup t := by
  rintro ⟨hnot, hgone, hdel⟩
  rcases List.mem_append.mp hm with hm | hm
  · obtain ⟨r, hr⟩ := Dict.mem_values.1 hm
    rcases h.due r sup hr t ht with hsafe | ⟨k, hle, -, -, hd⟩ | hstat
    · exact hnot hsafe
    · exact hd ((List.take_sublist_take_left hle).subset hdel)
    · rw [State.status?, hgone] at hstat
      cases hstat
  · exact hnot (h.safe sup hm t ht)

/--
**No cancellation is lost**, along every run that passes each cancellation on before the task
is gone.
-/
theorem cancellations_kept (sha256 : Base64Image → Base64ImageHash) (nodeIds : List NodeId)
    {s : Cluster} (h : (machine sha256 nodeIds).ReachableWhen (fun s a => s.cancelsFirst a) s) :
    s.CancellationsKept := by
  have hinv := h.invariant (P := CancelInv) (cancelInv_init nodeIds)
    fun _ _ _ hi hok hs => cancelInv_step hi hok hs
  exact fun n w hw sup hm t ht => (hinv.workers n w hw).not_lost hm ht

end Steps

/-! ## A node of its own -/

/-- The runner works on the task, and everybody knows. -/
def soloWorking : List Action :=
  soloReady ++ soloRequest ++ soloStart 20000 1004 ++ soloSettle 3

/-- The client cancels the command, which ends its stream; the node applies both at once. -/
def cancelledAndFinished : List Action :=
  soloWorking ++ soloCancel ++ [.streamEnd 500, .execute 0 1006, .log .master, .apply 1, .apply 1]

/-- What a supervisor and the state around it say about a task. -/
def lostTask (log : List EventBody) (w : Worker) (sup : Supervisor) (t : TaskId) : Bool :=
  sup.witnessed.contains t && !decide (sup.Safe t) && (w.state.tasks.get? t).isNone
    && (log.take w.applied).contains (.taskDeleted t)

/-- **A cancellation can be lost.** -/
theorem cancellation_lost :
    ¬ ∀ (sha256 : Base64Image → Base64ImageHash) (nodeIds : List NodeId) (s : Cluster),
      (machine sha256 nodeIds).Reachable s → s.CancellationsKept := by
  intro h
  have hrun : (((machine (fun _ => 0) [1]).run (init [1]) cancelledAndFinished).map fun s =>
      (s.workers.get? 1).map fun w => w.runners.values.any fun sup =>
        lostTask s.log w sup 2000) = some (some true) := by
    decide +kernel
  obtain ⟨s, hs, hw⟩ := Option.map_eq_some_iff.mp hrun
  obtain ⟨w, hget, hany⟩ := Option.map_eq_some_iff.mp hw
  obtain ⟨sup, hsup, hlost⟩ := List.any_eq_true.mp hany
  simp only [lostTask, Bool.and_eq_true, List.contains_iff_mem, Bool.not_eq_true',
    decide_eq_false_iff_not, Option.isNone_iff_eq_none] at hlost
  obtain ⟨⟨⟨hwit, hnot⟩, hgone⟩, hdel⟩ := hlost
  exact h _ _ s (Machine.reachable_of_run hs) 1 w hget sup (List.mem_append_left _ hsup) 2000 hwit
    ⟨hnot, hgone, hdel⟩

/-- The node cancels the task at its runner before it applies the deletion. -/
def cancelledThenFinished : List Action :=
  soloWorking ++ soloCancel
  ++ [.apply 1, .worker 1 (.plan 20000 1007), .worker 1 (.act 20000 false),
    .streamEnd 500, .execute 0 1006, .log .master, .apply 1]

theorem cancellations_kept_cancelledThenFinished :
    ∃ s : Cluster, .taskDeleted 2000 ∈ s.log ∧ s.CancellationsKept := by
  have hrun : (((machine (fun _ => 0) [1]).runWhen (fun s a => s.cancelsFirst a) (init [1])
      cancelledThenFinished).map fun s => s.log.contains (.taskDeleted 2000)) = some true := by
    decide +kernel
  obtain ⟨s, hs, hdel⟩ := Option.map_eq_some_iff.mp hrun
  exact ⟨s, by simpa using hdel,
    cancellations_kept (fun _ => 0) [1] (Machine.reachableWhen_of_run hs)⟩

end Cluster

end Exo
