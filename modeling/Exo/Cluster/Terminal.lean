import Exo.Cluster.Ledger

/-!
# A task that is over stays over

The status of a task is written by the master, by every worker that announces the task again
and by every runner that picks it up, and only the log puts these in order. A cancelled task
comes back when a report that it runs is logged after the cancellation.

`Cluster.unsettled` is the set of tasks such a report is still on its way for, or can still be
made for. As long as a task is settled when its end is logged, and nobody plans it again, it
stays over: `terminal_sticky`.
-/

namespace Exo

open Lib (Dict Machine)

/-- The status of a task after the first `k` events. -/
def statusAt (log : List EventBody) (k : Nat) (t : TaskId) : Option TaskStatus :=
  (replay (log.take k)).status? t

/-- A task that was cancelled or complete is never pending or running after that. -/
def Sticky (log : List EventBody) : Prop :=
  ∀ t k k', k ≤ k' → (statusAt log k t).any (·.terminal) → (statusAt log k' t).all (!·.inFlight)

/-- The task was cancelled or complete at some point of the log. -/
def wasTerminal (log : List EventBody) (t : TaskId) : Bool :=
  (List.range (log.length + 1)).any fun k => (statusAt log k t).any (·.terminal)

/-- The task an event ends. -/
def EventBody.terminates? : EventBody → Option TaskId
  | .taskStatusUpdated t status => if status.terminal then some t else none
  | _ => none

variable {status : TaskStatus}

theorem TaskStatus.not_inFlight_of_terminal (h : status.terminal) :
    status.inFlight = false := by
  cases status <;> simp_all [terminal, inFlight]

variable {body : EventBody}

variable {t : TaskId}

/-- An event that sets an unfinished status revives the task. -/
theorem EventBody.revives_of_sets
    (h : body.sets? t = some status) (hf : status.inFlight) : body.revives t := by
  unfold sets? at h
  split at h
  · split at h
    · rename_i ht
      rw [← Option.some.inj h] at hf
      simp [revives, ht, hf]
    · cases h
  · split at h
    · rename_i ht
      rw [← Option.some.inj h] at hf
      simp [revives, ht, hf]
    · cases h
  · cases h

theorem EventBody.not_revives_of_isOther (h : body.isOther) (t : TaskId) :
    body.revives t = false := by
  cases body <;> simp_all [isOther, revives]

/-! ## Logs -/

section Logs

variable {log : List EventBody} {body : EventBody} {t : TaskId}

variable {k : Nat}

theorem statusAt_append_of_le (hk : k ≤ log.length) :
    statusAt (log ++ [body]) k t = statusAt log k t := by
  unfold statusAt
  rw [List.take_append_of_le_length hk]

theorem statusAt_append_of_lt (hk : log.length < k) :
    statusAt (log ++ [body]) k t = (body.apply (replay log)).status? t := by
  unfold statusAt
  rw [List.take_of_length_le (by simp; omega), replay_append]

theorem statusAt_of_le (hk : log.length ≤ k) :
    statusAt log k t = (replay log).status? t := by
  unfold statusAt
  rw [List.take_of_length_le hk]

theorem wasTerminal_iff : wasTerminal log t ↔ ∃ k, (statusAt log k t).any (·.terminal) := by
  simp only [wasTerminal, List.any_eq_true, List.mem_range]
  constructor
  · rintro ⟨k, -, h⟩
    exact ⟨k, h⟩
  · rintro ⟨k, h⟩
    by_cases hk : k < log.length + 1
    · exact ⟨k, hk, h⟩
    · rw [statusAt_of_le (by omega), ← statusAt_of_le (Nat.le_refl log.length)] at h
      exact ⟨log.length, by omega, h⟩

/-- A task that is over after one more event was over before, or the event ends it. -/
theorem wasTerminal_append (h : wasTerminal (log ++ [body]) t) :
    wasTerminal log t ∨ ∃ status, body.sets? t = some status ∧ status.terminal := by
  obtain ⟨k, hk⟩ := wasTerminal_iff.1 h
  by_cases hlt : log.length < k
  · rw [statusAt_append_of_lt hlt, Option.any_eq_true] at hk
    obtain ⟨status, hs, hterm⟩ := hk
    rcases status_apply_some hs with hbefore | hsets
    · refine .inl (wasTerminal_iff.2 ⟨log.length, ?_⟩)
      rw [statusAt_of_le (Nat.le_refl _), hbefore]
      exact hterm
    · exact .inr ⟨status, hsets, hterm⟩
  · rw [statusAt_append_of_le (by omega)] at hk
    exact .inl (wasTerminal_iff.2 ⟨k, hk⟩)

/-- One more event keeps the log sticky, if it revives nothing that was over. -/
theorem Sticky.append (h : Sticky log) (hb : ∀ t, wasTerminal log t → body.revives t = false) :
    Sticky (log ++ [body]) := by
  intro t k k' hle hk
  by_cases hlt : log.length < k'
  · rw [statusAt_append_of_lt hlt]
    rw [Option.all_eq_true]
    intro status hs
    by_cases hlt' : log.length < k
    · -- both are the last state
      rw [statusAt_append_of_lt hlt', hs] at hk
      simpa using TaskStatus.not_inFlight_of_terminal hk
    · rw [statusAt_append_of_le (by omega)] at hk
      rcases status_apply_some hs with hbefore | hsets
      · have := h t k log.length (by omega) hk
        rw [statusAt_of_le (Nat.le_refl _), hbefore] at this
        exact this
      · cases hf : status.inFlight with
        | false => rfl
        | true =>
            have := hb t (wasTerminal_iff.2 ⟨k, hk⟩)
            rw [EventBody.revives_of_sets hsets hf] at this
            cases this
  · rw [statusAt_append_of_le (by omega)] at hk ⊢
    exact h t k k' hle hk

end Logs

/-! ## What is on its way -/

/-- The planner is about to act on the task in a way that gets it reported as running. -/
def Planner.unsettled (p : Planner) (t : TaskId) : Bool :=
  match p with
  | .announced task => task.taskId = t ∧ task.kind.reportsRunning
  | _ => false

/-- An event that revives the task is in the worker's outbox, or can still get there. -/
def Worker.unsettled (w : Worker) (t : TaskId) : Bool :=
  w.outbox.any (·.revives t)
    || (!w.crashed && (w.planner.unsettled t || w.supervisors.any (·.unsettled t)))

theorem Worker.unsettled_iff {w : Worker} :
    w.unsettled t ↔ (∃ e ∈ w.outbox, e.revives t)
      ∨ (w.crashed = false
        ∧ (w.planner.unsettled t ∨ ∃ sup ∈ w.supervisors, sup.unsettled t)) := by
  simp [unsettled]

variable {w w' : Worker}

variable {b : Worker.Action}

/-- A supervisor of the next state is as settled as the one it comes from. -/
theorem Worker.Moves.supervisor_unsettled
    (h : w.Moves b w') {sup' : Supervisor} (hm : sup' ∈ w'.supervisors) (hu : sup'.unsettled t) :
    w.planner.unsettled t ∨ ∃ sup ∈ w.supervisors, sup.unsettled t := by
  have hrun : ∀ r sup, w.runners.get? r = some sup → sup.unsettled t →
      w.planner.unsettled t ∨ ∃ sup ∈ w.supervisors, sup.unsettled t :=
    fun r sup hs hsu => .inr ⟨sup, List.mem_append_left _ (Dict.mem_values.2 ⟨r, hs⟩), hsu⟩
  rcases List.mem_append.mp hm with hm | hm
  · obtain ⟨r, hget⟩ := Dict.mem_values.1 hm
    cases h.runners r sup' hget with
    | same hs => exact hrun r sup' hs hu
    | evolved sup events hs he => exact hrun r sup hs (he.unsettled t hu)
    | created bound hs =>
        subst hs
        simp [Supervisor.unsettled, Supervisor.create] at hu
    | started sup task task' hs _ hp hk _ hsame hst =>
        rcases hst.unsettled t hu with hu | rfl
        · exact hrun r sup hs hu
        · refine .inl ?_
          rw [show w.planner = _ from hp]
          simp [Planner.unsettled, hsame.taskId, hk]
    | cancelled sup t' hs he =>
        subst he
        exact hrun r sup hs hu
  · cases h.retired sup' hm with
    | same hs => exact .inr ⟨sup', List.mem_append_right _ hs, hu⟩
    | evolved sup events hs he =>
        exact .inr ⟨sup, List.mem_append_right _ hs, he.unsettled t hu⟩
    | shutDown sup s₁ task r hs _ hp hk hst he =>
        rcases hst.unsettled t (he.unsettled t hu) with hu | rfl
        · exact hrun r sup hs hu
        · refine .inl ?_
          rw [show w.planner = _ from hp]
          simp [Planner.unsettled, hk, TaskKind.reportsRunning]

/-- A step of a worker unsettles the task it plans, and no other. -/
theorem Worker.Moves.unsettled
    (h : w.Moves b w') (hu : w'.unsettled t) :
    w.unsettled t ∨ ∃ now id task, b = .plan now id
      ∧ (w.planInput now id).plan = .ok (some task) ∧ task.taskId = t := by
  have hcrash : (w.planner.unsettled t ∨ ∃ sup ∈ w.supervisors, sup.unsettled t) →
      w.unsettled t := fun hx => unsettled_iff.2 (.inr ⟨h.crashed, hx⟩)
  rcases unsettled_iff.1 hu with ⟨e, he, hr⟩ | ⟨-, hp | ⟨sup', hm, hsu⟩⟩
  · obtain ⟨events, hout, horigin⟩ := h.outbox
    rw [hout] at he
    rcases List.mem_append.mp he with he | he
    · exact .inl (unsettled_iff.2 (.inl ⟨e, he, hr⟩))
    · cases horigin e he with
      | planned now id task ha hplan heq =>
          subst heq
          simp only [EventBody.revives, decide_eq_true_eq] at hr
          exact .inr ⟨now, id, task, ha, hplan, hr.1⟩
      | acted task status hp heq hrep =>
          subst heq
          simp only [EventBody.revives, decide_eq_true_eq] at hr
          refine .inl (hcrash (.inl ?_))
          rw [show w.planner = _ from hp]
          simp [Planner.unsettled, hr.1, hrep hr.2]
      | downloaded dp heq => subst heq; cases hr
      | timedOut t' heq =>
          subst heq
          simp [EventBody.revives, TaskStatus.inFlight] at hr
      | reported sup sup' events' hsup _ hev hmem =>
          exact .inl (hcrash (.inr ⟨sup, hsup, hev.revives e hmem t hr⟩))
  · unfold Planner.unsettled at hp
    split at hp
    · rename_i task hpl
      rcases h.planner task hpl with hann | ⟨now, id, hb, hplan, -⟩
      · refine .inl (hcrash (.inl ?_))
        rw [show w.planner = _ from hann]
        exact hp
      · simp only [decide_eq_true_eq] at hp
        exact .inr ⟨now, id, task, hb, hplan, hp.1⟩
    · cases hp
  · exact .inl (hcrash (h.supervisor_unsettled hm hsu))

namespace Cluster

/-- An event that revives the task can still reach the log. -/
def unsettled (s : Cluster) (t : TaskId) : Bool :=
  s.outbox.any (·.revives t) || s.workers.values.any (·.unsettled t)

theorem unsettled_iff {s : Cluster} :
    s.unsettled t ↔ (∃ e ∈ s.outbox, e.revives t)
      ∨ ∃ n w, s.workers.get? n = some w ∧ w.unsettled t := by
  simp only [unsettled, Bool.or_eq_true, List.any_eq_true, Dict.mem_values]
  constructor
  · rintro (h | ⟨w, ⟨n, hw⟩, hu⟩)
    · exact .inl h
    · exact .inr ⟨n, w, hw, hu⟩
  · rintro (h | ⟨n, w, hw, hu⟩)
    · exact .inl h
    · exact .inr ⟨w, ⟨n, hw⟩, hu⟩

/--
The steps that end a task only when it is settled, and plan no task that was over before. What
a worker plans is what `plan` answers in the state it is in.
-/
def endsSettled (s : Cluster) : Action → Bool
  | .log source =>
      match (s.next? source).bind EventBody.terminates? with
      | some t => !s.unsettled t
      | none => true
  | .worker n (.plan now id) =>
      match (s.workers.get? n).map fun w => (w.planInput now id).plan with
      | some (Except.ok (some task)) => !wasTerminal s.log task.taskId
      | _ => true
  | _ => true

section Steps

variable {s s' : Cluster} {t : TaskId}

theorem unsettled_of_same (h : SameWorker w w') (hu : w'.unsettled t) :
    w.unsettled t := by
  simpa [Worker.unsettled, Worker.supervisors, h.outbox, h.crashed, h.planner, h.runners,
    h.retired] using hu

theorem witnessOf_unsettled (sup : Supervisor) :
    (witnessOf body sup).unsettled t = sup.unsettled t := by
  unfold witnessOf
  split
  · unfold Supervisor.witness
    split <;> rfl
  · rfl

theorem unsettled_of_logged (h : LoggedTo body w w')
    (hu : w'.unsettled t) : w.unsettled t := by
  rcases Worker.unsettled_iff.1 hu with ⟨e, he, hr⟩ | ⟨hc, hp | ⟨sup', hm, hsu⟩⟩
  · exact Worker.unsettled_iff.2 (.inl ⟨e, h.outbox e he, hr⟩)
  · exact Worker.unsettled_iff.2 (.inr ⟨h.crashed ▸ hc, .inl (h.planner ▸ hp)⟩)
  · obtain ⟨sup, hsup, rfl⟩ := h.supervisors hm
    rw [witnessOf_unsettled] at hsu
    exact Worker.unsettled_iff.2 (.inr ⟨h.crashed ▸ hc, .inr ⟨sup, hsup, hsu⟩⟩)

variable {sha256 : Base64Image → Base64ImageHash}

theorem unsettled_of_applied
    {w : Worker} (hu : (w.applyEvent sha256 body).unsettled t) : w.unsettled t := by
  obtain ⟨-, -, h3, h4, h5, h6, -, h8⟩ := applyEvent_books sha256 w body
  simpa [Worker.unsettled, Worker.supervisors, h3, h4, h5, h6, h8] using hu

/-- **A step unsettles the task it creates or plans, and no other.** -/
theorem unsettled_step {a : Action}
    (hs : s.step sha256 a = some s') (hu : s'.unsettled t) :
    s.unsettled t ∨ (s.Fresh t ∧ ∃ i, a = .execute i t) ∨ ∃ n w now id task, a = .worker n (.plan now id)
      ∧ s.workers.get? n = some w ∧ (w.planInput now id).plan = .ok (some task)
      ∧ task.taskId = t := by
  have hworker : ∀ n w, s.workers.get? n = some w → w.unsettled t → s.unsettled t :=
    fun n w hw h => unsettled_iff.2 (.inr ⟨n, w, hw, h⟩)
  cases step_cases hs with
  | quiet hlog hout hiss hproc hw _ =>
      rcases unsettled_iff.1 hu with h | ⟨n, w', hw', h⟩
      · exact .inl (unsettled_iff.2 (.inl (hout ▸ h)))
      · obtain ⟨w, hget, hsame⟩ := hw n w' hw'
        exact .inl (hworker n w hget (unsettled_of_same hsame h))
  | executed i taskId command ha hf he =>
      rw [he] at hu
      rcases unsettled_iff.1 hu with ⟨e, hmem, hr⟩ | ⟨n, w', hw', h⟩
      · rw [issue_outbox] at hmem
        rcases List.mem_append.mp hmem with hmem | hmem
        · exact .inl (unsettled_iff.2 (.inl ⟨e, hmem, hr⟩))
        · rcases (s.processor.execute_cases taskId command).2 with hnone | ⟨i', kind, hone⟩
          · rw [(hnone e hmem).2 t] at hr
            cases hr
          · rw [hone] at hmem
            rw [List.mem_singleton.mp hmem] at hr
            simp only [EventBody.revives, decide_eq_true_eq] at hr
            exact .inr (.inl ⟨hr.1 ▸ hf, i, hr.1 ▸ ha⟩)
      · rw [issue_workers] at hw'
        exact .inl (hworker n w' hw' h)
  | logged source body _ hn he =>
      rw [he] at hu
      rcases unsettled_iff.1 hu with ⟨e, hmem, hr⟩ | ⟨n, w', hw', h⟩
      · exact .inl (unsettled_iff.2 (.inl ⟨e, mem_takeNext_outbox hmem, hr⟩))
      · obtain ⟨w, hget, hl⟩ := loggedTo hw'
        exact .inl (hworker n w hget (unsettled_of_logged hl h))
  | applied n w body _ hw hb _ he =>
      rw [he] at hu
      rcases unsettled_iff.1 hu with h | ⟨m, w', hw', h⟩
      · exact .inl (unsettled_iff.2 (.inl h))
      · rcases setWorker_cases hw' with ⟨rfl, rfl⟩ | ⟨-, hw'⟩
        · exact .inl (hworker m w hw (unsettled_of_applied h))
        · exact .inl (hworker m w' hw' h)
  | worked n b w w' ha _ hw hm he =>
      rw [he] at hu
      rcases unsettled_iff.1 hu with h | ⟨m, v, hv, h⟩
      · rw [issue_outbox] at h
        exact .inl (unsettled_iff.2 (.inl h))
      · rw [issue_workers] at hv
        rcases setWorker_cases hv with ⟨rfl, rfl⟩ | ⟨-, hv⟩
        · rcases hm.unsettled h with h | ⟨now, id, task, rfl, hp, ht⟩
          · exact .inl (hworker m w hw h)
          · exact .inr (.inr ⟨m, w, now, id, task, ha, hw, hp, ht⟩)
        · exact .inl (hworker m v hv h)

/-- What is kept along the runs that end settled tasks only. -/
structure TerminalInv (s : Cluster) : Prop where
  sound : Sound s
  sticky : Sticky s.log
  /-- A task that is over is settled. -/
  settled : ∀ t, wasTerminal s.log t → s.unsettled t = false

theorem terminalInv_init (nodeIds : List NodeId) : TerminalInv (init nodeIds) where
  sound := sound_init nodeIds
  sticky := by
    intro t k k' _ h
    simp [statusAt, init, State.status?] at h
  settled := by
    intro t h
    obtain ⟨k, hk⟩ := wasTerminal_iff.1 h
    simp [statusAt, init, State.status?] at hk

/-- Nothing about an id that was not drawn was ever logged. -/
theorem fresh_not_wasTerminal (h : Sound s) (hf : s.Fresh t) : wasTerminal s.log t = false := by
  cases hw : wasTerminal s.log t with
  | false => rfl
  | true =>
      obtain ⟨k, hk⟩ := wasTerminal_iff.1 hw
      rw [Option.any_eq_true] at hk
      obtain ⟨status, hs, -⟩ := hk
      obtain ⟨task, htask, -⟩ := Option.map_eq_some_iff.mp hs
      have := issued_of_replay (fun e he => h.log e (List.mem_of_mem_take he)) htask
      rw [hf.1] at this
      cases this.2

theorem terminalInv_step {a : Action}
    (h : TerminalInv s) (hok : s.endsSettled a) (hs : s.step sha256 a = some s') :
    TerminalInv s' := by
  have hsound := sound_step h.sound hs
  -- whatever was over stays settled
  have hkept : ∀ t, wasTerminal s.log t → s'.unsettled t = false := by
    intro t ht
    cases hu : s'.unsettled t with
    | false => rfl
    | true =>
        rcases unsettled_step hs hu with hbefore | ⟨hf, -⟩ | ⟨n, w, now, id, task, rfl, hw, hp, rfl⟩
        · rw [h.settled t ht] at hbefore
          cases hbefore
        · rw [fresh_not_wasTerminal h.sound hf] at ht
          cases ht
        · simp only [endsSettled, hw, Option.map_some, hp, ht] at hok
          cases hok
  have hsame : s'.log = s.log → TerminalInv s' := fun hlog =>
    ⟨hsound, hlog ▸ h.sticky, fun t ht => hkept t (hlog ▸ ht)⟩
  cases step_cases hs with
  | quiet hlog _ _ _ _ _ => exact hsame hlog
  | executed i taskId command _ _ he => exact hsame (by rw [he, issue_log])
  | logged source body ha hn he =>
      have hlog : s'.log = s.log ++ [body] := by rw [he]; simp [append, takeNext_log]
      have hbody : body.Issued s'.issued := hsound.log body (by rw [hlog]; simp)
      have hrevives : ∀ t, body.revives t → s.unsettled t := by
        intro t ht
        rcases next_cases hn with hm | ⟨n, w, hw, hm⟩ | hother
        · exact unsettled_iff.2 (.inl ⟨body, hm, ht⟩)
        · exact unsettled_iff.2 (.inr ⟨n, w, hw, Worker.unsettled_iff.2 (.inl ⟨body, hm, ht⟩)⟩)
        · rw [EventBody.not_revives_of_isOther hother] at ht
          cases ht
      refine ⟨hsound, ?_, ?_⟩
      · rw [hlog]
        refine h.sticky.append ?_
        intro t ht
        cases hr : body.revives t with
        | false => rfl
        | true =>
            have := hrevives t hr
            rw [h.settled t ht] at this
            cases this
      · intro t ht
        rw [hlog] at ht
        rcases wasTerminal_append ht with hold | ⟨status, hsets, hterm⟩
        · exact hkept t hold
        · -- the event ends the task, so the task is settled
          have hset : s.unsettled t = false := by
            unfold EventBody.sets? at hsets
            split at hsets
            · rename_i t' task
              split at hsets
              · obtain ⟨-, hfl, -⟩ := hbody t' task rfl
                rw [← Option.some.inj hsets] at hterm
                rw [TaskStatus.not_inFlight_of_terminal hterm] at hfl
                cases hfl
              · cases hsets
            · split at hsets
              · rename_i ht'
                subst ht'
                rw [← Option.some.inj hsets] at hterm
                subst ha
                simpa [endsSettled, hn, EventBody.terminates?, hterm] using hok
              · cases hsets
            · cases hsets
          cases hu : s'.unsettled t with
          | false => rfl
          | true =>
              rcases unsettled_step hs hu with hb | ⟨-, i, ha'⟩ | ⟨n, w, now, id, task, ha', -⟩
              · rw [hset] at hb
                cases hb
              · rw [ha] at ha'
                cases ha'
              · rw [ha] at ha'
                cases ha'
  | applied n w body _ _ _ _ he => exact hsame (by rw [he]; rfl)
  | worked n b w w' _ _ _ _ he => exact hsame (by rw [he, issue_log]; rfl)

end Steps

/--
**A task that was cancelled or complete is never pending or running again**, along every run
that ends a task only when no report that it runs is on its way, and plans no task that was
over.
-/
theorem terminal_sticky (sha256 : Base64Image → Base64ImageHash) (nodeIds : List NodeId)
    {s : Cluster} (h : (machine sha256 nodeIds).ReachableWhen (fun s a => s.endsSettled a) s) :
    Sticky s.log :=
  (h.invariant (P := TerminalInv) (terminalInv_init nodeIds)
    fun _ _ _ hi hok hs => terminalInv_step hi hok hs).sticky

/-! ## A node of its own -/

/-- An instance on one node. -/
def soloInstance : Instance where
  instanceId := 100
  shardAssignments :=
    { modelId := 7
      runnerToShard := Dict.empty.set 11
        { modelId := 7, deviceRank := 0, worldSize := 1, startLayer := 0, endLayer := 4 }
      nodeToRunner := Dict.empty.set 1 11
      runnersExist := soleRunner_exists }

/-- A step of the supervisor on the node. -/
def solo (a : Supervisor.Action) : Action := .worker 1 (.runner 11 a)

/-- The node's events are logged, and it applies them. -/
def soloSettle (k : Nat) : List Action :=
  List.replicate k (.log (.worker 1)) ++ List.replicate k (.apply 1)

/-- The node plans a task for its runner and sends it; the runner takes it. -/
def soloStart (now : Time) (taskId : TaskId) : List Action :=
  [.worker 1 (.plan now taskId), .worker 1 (.act now false), solo .take, solo .forward,
    solo .forward, solo .forward, .worker 1 .acknowledged]

/-- The instance is created, and its runner is brought up until it is ready. -/
def soloReady : List Action :=
  [.submit (.createInstance soloInstance), .execute 0 1000, .log .master, .apply 1,
    .worker 1 (.plan 20000 1001), .worker 1 (.act 20000 false), solo .boot, solo .forward]
  ++ soloSettle 3
  ++ [.log (.other (.nodeDownloadProgress { nodeId := 1, modelId := 7, state := .completed })),
    .apply 1]
  ++ soloStart 20000 1002 ++ [solo (.unblock none), solo .forward, solo .forward] ++ soloSettle 5
  ++ soloStart 20000 1003 ++ [solo (.unblock none), solo .forward, solo .forward] ++ soloSettle 5

/-- A client asks for a text; the task is created, and the node applies that. -/
def soloRequest : List Action :=
  [.request (.textGeneration 500 7 []), .execute 0 2000, .log .master, .apply 1]

/-- The client cancels the command, and the master logs that. -/
def soloCancel : List Action := [.cancelCommand 500, .execute 0 1005, .log .master]

/-- The cancellation is logged before the runner picks the task up and reports it as running. -/
def lateReport : List Action :=
  soloReady ++ soloRequest
  ++ [.worker 1 (.plan 20000 1004), .worker 1 (.act 20000 false), .log (.worker 1)]
  ++ soloCancel ++ [solo .take, solo .forward, .log (.worker 1)]

/-- **A cancelled task can be running again.** -/
theorem terminal_not_sticky :
    ¬ ∀ (sha256 : Base64Image → Base64ImageHash) (nodeIds : List NodeId) (s : Cluster),
      (machine sha256 nodeIds).Reachable s → Sticky s.log := by
  intro h
  have hrun : (((machine (fun _ => 0) [1]).run (init [1]) lateReport).map fun s =>
      (statusAt s.log 18 2000, statusAt s.log 19 2000)) = some (some .cancelled, some .running) := by
    decide +kernel
  obtain ⟨s, hs, hstat⟩ := Option.map_eq_some_iff.mp hrun
  obtain ⟨h18, h19⟩ := Prod.mk.inj hstat
  have := h _ _ s (Machine.reachable_of_run hs) 2000 18 19 (by omega) (by rw [h18]; rfl)
  rw [h19] at this
  cases this

/-- The runner picks the task up, and the task is cancelled after that. -/
def timelyReport : List Action :=
  soloReady ++ soloRequest ++ soloStart 20000 1004 ++ List.replicate 3 (.log (.worker 1))
  ++ soloCancel

theorem terminal_sticky_timelyReport :
    ∃ s : Cluster, statusAt s.log 20 2000 = some .cancelled ∧ Sticky s.log := by
  have hrun : (((machine (fun _ => 0) [1]).runWhen (fun s a => s.endsSettled a) (init [1])
      timelyReport).map fun s => statusAt s.log 20 2000) = some (some .cancelled) := by
    decide +kernel
  obtain ⟨s, hs, hstat⟩ := Option.map_eq_some_iff.mp hrun
  exact ⟨s, hstat, terminal_sticky (fun _ => 0) [1] (Machine.reachableWhen_of_run hs)⟩

end Cluster

end Exo
