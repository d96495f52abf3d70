import Exo.Cluster.Terminal
import Exo.Worker.PlanSafety

/-!
# Planning on what was replicated

A worker looks at its own supervisors and at its copy of the state. Its supervisors are ahead
of the copy: what they report comes back through the master's log, after any number of other
events. So a runner can serve while its own statuses, or those of its peers, are not in the
copy, and a task that comes then ends the worker.

An instance is given up after five retries, so the backoff of an instance stays small.
-/

namespace Exo

open Lib (Dict Machine)

namespace Worker

/-- An instance that a runner is created for was not retried too often. -/
structure Retries (w : Worker) : Prop where
  bounded : ∀ i, w.instanceBackoff.numAttempts i ≤ maxInstanceRetries
  announced : ∀ task bound, w.planner = .announced task → task.kind = .createRunner bound →
    w.instanceBackoff.numAttempts task.instanceId < maxInstanceRetries

/-- No attempt is recorded and no task is announced. -/
structure Keeps (w w' : Worker) : Prop where
  instanceBackoff : w'.instanceBackoff = w.instanceBackoff
  planner : ∀ task, w'.planner = .announced task → w.planner = .announced task

variable {w w' : Worker}

theorem Retries.keeps (h : Retries w) (hk : Keeps w w') : Retries w' where
  bounded := by
    rw [hk.instanceBackoff]
    exact h.bounded
  announced := by
    intro task bound hp hkind
    rw [hk.instanceBackoff]
    exact h.announced task bound (hk.planner task hp) hkind

theorem keeps_crash : Keeps w w.crash := ⟨rfl, fun _ h => h⟩

theorem keeps_startOn (runnerId : RunnerId) (task : Task) : Keeps w (w.startOn runnerId task) := by
  unfold startOn
  split
  · exact keeps_crash
  · dsimp only
    split
    · exact ⟨rfl, fun _ h => (by cases h)⟩
    · exact ⟨rfl, fun _ h => (by cases h)⟩

theorem keeps_startRunnerTask (task : Task) : Keeps w (w.startRunnerTask task) := by
  unfold startRunnerTask
  split
  · exact ⟨rfl, fun _ h => (by cases h)⟩
  · split
    · exact keeps_crash
    · exact keeps_startOn _ task

theorem keeps_actShutdown (task : Task) (runnerId : RunnerId) :
    Keeps w (w.actShutdown task runnerId) := by
  unfold actShutdown
  split
  · exact keeps_crash
  · dsimp only
    split
    · exact ⟨rfl, fun _ h => (by cases h)⟩
    · exact ⟨rfl, fun _ h => (by cases h)⟩

theorem keeps_actCancelTask (task : Task) (cancelledTaskId : TaskId) (runnerId : RunnerId) :
    Keeps w (w.actCancelTask task cancelledTaskId runnerId) := by
  unfold actCancelTask
  split
  · exact keeps_crash
  · exact ⟨rfl, fun _ h => (by cases h)⟩

theorem keeps_dropChunks (commandId : CommandId) : Keeps w (w.dropChunks commandId) :=
  ⟨rfl, fun _ h => h⟩

/-- What is dropped or reset before a task is sent does not matter. -/
theorem keeps_startRunnerTask_of {v : Worker} (hv : Keeps w v) (task : Task) :
    Keeps w (v.startRunnerTask task) where
  instanceBackoff := (keeps_startRunnerTask task).instanceBackoff.trans hv.instanceBackoff
  planner := fun t h => hv.planner t ((keeps_startRunnerTask task).planner t h)

/-- **An act records an attempt for the instance it creates a runner for, and else keeps all.** -/
theorem act_retries {now : Time} {found : Bool} (h : w.act now found = some w') :
    Keeps w w' ∨ ∃ task bound, w.planner = .announced task ∧ task.kind = .createRunner bound
      ∧ w'.instanceBackoff = w.instanceBackoff.recordAttempt now task.instanceId
      ∧ w'.planner = .sleeping := by
  unfold act at h
  split at h
  · rename_i task hp
    split at h
    · rename_i bound hkind
      obtain rfl := Option.some.inj h
      exact .inr ⟨task, bound, hp, hkind, rfl, rfl⟩
    · obtain rfl := Option.some.inj h
      exact .inl ⟨rfl, fun _ h => (by cases h)⟩
    · obtain rfl := Option.some.inj h
      exact .inl (keeps_actShutdown task _)
    · obtain rfl := Option.some.inj h
      exact .inl (keeps_actCancelTask task _ _)
    · split at h
      · obtain rfl := Option.some.inj h
        unfold actImageEdits
        split
        · exact .inl keeps_crash
        · exact .inl (keeps_startRunnerTask_of (keeps_dropChunks _) _)
      · obtain rfl := Option.some.inj h
        exact .inl (keeps_startRunnerTask task)
    · split at h
      · obtain rfl := Option.some.inj h
        unfold actTextGeneration
        split
        · exact .inl keeps_crash
        · exact .inl (keeps_startRunnerTask_of (keeps_dropChunks _) _)
      · obtain rfl := Option.some.inj h
        exact .inl (keeps_startRunnerTask task)
    · obtain rfl := Option.some.inj h
      refine .inl (keeps_startRunnerTask_of ?_ task)
      split <;> exact ⟨rfl, fun _ h => h⟩
    · obtain rfl := Option.some.inj h
      exact .inl (keeps_startRunnerTask task)
  · cases h

theorem numAttempts_recordAttempt (b : KeyedBackoff) (now : Time) (key i : Nat) :
    (b.recordAttempt now key).numAttempts i
      = if i = key then b.numAttempts key + 1 else b.numAttempts i := by
  simp only [KeyedBackoff.numAttempts, KeyedBackoff.recordAttempt, Dict.get?_set]
  split <;> rfl

theorem numAttempts_reset_le (b : KeyedBackoff) (key i : Nat) :
    (b.reset key).numAttempts i ≤ b.numAttempts i := by
  simp only [KeyedBackoff.numAttempts, KeyedBackoff.reset, Dict.get?_erase]
  split <;> simp

theorem retries_step {a : Action} (h : Retries w) (hs : w.step a = some w') : Retries w' := by
  unfold step at hs
  split at hs
  · cases hs
  · cases a with
    | plan now id =>
        simp only [planTick] at hs
        split at hs
        · rename_i hsleeping
          split at hs
          · obtain rfl := Option.some.inj hs
            exact h.keeps keeps_crash
          · obtain rfl := Option.some.inj hs
            exact h
          · rename_i task _
            split at hs
            · obtain rfl := Option.some.inj hs
              exact h.keeps ⟨rfl, fun _ h => h⟩
            · rename_i hgive
              obtain rfl := Option.some.inj hs
              refine ⟨h.bounded, fun task' bound hp hkind => ?_⟩
              obtain rfl := Planner.announced.inj hp
              have hfew : w.gaveUp task
                  = decide (maxInstanceRetries ≤ w.instanceBackoff.numAttempts task.instanceId) := by
                unfold gaveUp
                rw [hkind]
                rfl
              rw [hfew, decide_eq_true_eq] at hgive
              exact Nat.lt_of_not_le hgive
        · cases hs
    | act now found =>
        rcases act_retries hs with hk | ⟨task, bound, hp, hkind, hback, hsleep⟩
        · exact h.keeps hk
        · have hfew := h.announced task bound hp hkind
          refine ⟨fun i => ?_, fun task' _ hp' _ => ?_⟩
          · rw [hback, numAttempts_recordAttempt]
            split
            · omega
            · exact h.bounded i
          · rw [hsleep] at hp'
            cases hp'
    | acknowledged =>
        simp only [acknowledged] at hs
        split at hs
        · split at hs
          · split at hs
            · obtain rfl := Option.some.inj hs
              exact h.keeps ⟨rfl, fun _ h => (by cases h)⟩
            · cases hs
          · cases hs
        · split at hs
          · obtain rfl := Option.some.inj hs
            exact h.keeps ⟨rfl, fun _ h => (by cases h)⟩
          · cases hs
        · cases hs
    | timedOut =>
        simp only [timedOut] at hs
        split at hs
        · obtain rfl := Option.some.inj hs
          exact h.keeps ⟨rfl, fun _ h => (by cases h)⟩
        · cases hs
    | runner r a | retired i a =>
        obtain ⟨runner, -, hs⟩ := Option.bind_eq_some_iff.mp hs
        obtain ⟨next, -, hs⟩ := Option.bind_eq_some_iff.mp hs
        cases next with
        | none =>
            obtain rfl := Option.some.inj hs
            exact h.keeps keeps_crash
        | some p =>
            obtain rfl := Option.some.inj hs
            exact h.keeps ⟨rfl, fun _ h => h⟩

theorem retries_applyEvent (sha256 : Base64Image → Base64ImageHash) (body : EventBody)
    (h : Retries w) : Retries (w.applyEvent sha256 body) := by
  unfold applyEvent
  dsimp only
  split
  · rename_i i
    refine ⟨fun j => (numAttempts_reset_le _ i j).trans (h.bounded j), fun task bound hp hk => ?_⟩
    exact lt_of_le_of_lt (numAttempts_reset_le _ i _) (h.announced task bound hp hk)
  · exact h.keeps ⟨rfl, fun _ h => h⟩
  · exact h.keeps ⟨rfl, fun _ h => h⟩

end Worker

namespace Cluster

variable {n : NodeId}

/-- Logging an event leaves the backoffs and the planner of every worker. -/
theorem keeps_of_logged {s : Cluster} {source : Source} {body : EventBody}
    {w' : Worker} (h : ((s.takeNext source).append body).workers.get? n = some w') :
    ∃ w, s.workers.get? n = some w ∧ Worker.Keeps w w' := by
  have htaken : ∀ v, (s.takeNext source).workers.get? n = some v →
      ∃ w, s.workers.get? n = some w ∧ Worker.Keeps w v := by
    intro v hv
    obtain ⟨w, hw, rfl | rfl⟩ := takeNext_workers hv
    · exact ⟨v, hw, rfl, fun _ h => h⟩
    · exact ⟨w, hw, rfl, fun _ h => h⟩
  simp only [append] at h
  split at h
  · rw [Dict.get?_mapValues, Option.map_eq_some_iff] at h
    obtain ⟨v, hv, rfl⟩ := h
    obtain ⟨w, hw, hkeeps⟩ := htaken v hv
    exact ⟨w, hw, hkeeps.instanceBackoff, hkeeps.planner⟩
  · exact htaken w' h

variable {sha256 : Base64Image → Base64ImageHash}

/-- What a step of the cluster does to a worker, as far as it plans. -/
theorem worker_cases {s s' : Cluster} {a : Action}
    {w' : Worker} (hs : s.step sha256 a = some s')
    (hw' : s'.workers.get? n = some w') :
    ∃ w, s.workers.get? n = some w
      ∧ (Worker.Keeps w w' ∨ (∃ b, w.step b = some w') ∨ ∃ body, w' = w.applyEvent sha256 body) := by
  have hsame : s.workers.get? n = some w' → ∃ w, s.workers.get? n = some w
      ∧ (Worker.Keeps w w' ∨ (∃ b, w.step b = some w') ∨ ∃ body, w' = w.applyEvent sha256 body) :=
    fun h => ⟨w', h, .inl ⟨rfl, fun _ h => h⟩⟩
  unfold step at hs
  split at hs
  · cases a with
    | request command | cancelCommand commandId | streamEnd commandId | streamCancelled commandId =>
        obtain ⟨c, -, rfl⟩ := Option.map_eq_some_iff.mp hs
        exact hsame hw'
    | submit command =>
        dsimp only at hs
        split at hs
        · cases hs
        · obtain rfl := Option.some.inj hs
          exact hsame hw'
    | deletion m =>
        obtain ⟨w, hw, hs⟩ := Option.bind_eq_some_iff.mp hs
        obtain ⟨i, -, hs⟩ := Option.bind_eq_some_iff.mp hs
        obtain rfl := Option.some.inj hs
        rcases setWorker_cases hw' with ⟨rfl, rfl⟩ | ⟨-, hw'⟩
        · exact ⟨w, hw, .inl ⟨rfl, fun _ h => h⟩⟩
        · exact hsame hw'
    | execute i taskId =>
        obtain ⟨command, -, rfl⟩ := Option.map_eq_some_iff.mp hs
        rw [issue_workers] at hw'
        exact hsame hw'
    | log source =>
        obtain ⟨body, -, rfl⟩ := Option.map_eq_some_iff.mp hs
        obtain ⟨w, hw, hkeeps⟩ := keeps_of_logged hw'
        exact ⟨w, hw, .inl hkeeps⟩
    | apply m =>
        obtain ⟨w, hw, hs⟩ := Option.bind_eq_some_iff.mp hs
        obtain ⟨body, -, hs⟩ := Option.bind_eq_some_iff.mp hs
        split at hs
        · cases hs
        · obtain rfl := Option.some.inj hs
          rcases setWorker_cases hw' with ⟨rfl, rfl⟩ | ⟨-, hw'⟩
          · exact ⟨w, hw, .inr (.inr ⟨body, rfl⟩)⟩
          · exact hsame hw'
    | worker m b =>
        obtain ⟨w, hw, hs⟩ := Option.bind_eq_some_iff.mp hs
        obtain ⟨v, hstep, hs⟩ := Option.bind_eq_some_iff.mp hs
        obtain rfl := Option.some.inj hs
        rw [issue_workers] at hw'
        rcases setWorker_cases hw' with ⟨rfl, rfl⟩ | ⟨-, hw'⟩
        · exact ⟨w, hw, .inr (.inl ⟨b, hstep⟩)⟩
        · exact hsame hw'
  · cases hs

/-- **No instance is retried more than five times.** -/
theorem retries_reachable {nodeIds : List NodeId}
    {s : Cluster} (h : (machine sha256 nodeIds).Reachable s) {w : Worker}
    (hw : s.workers.get? n = some w) : w.Retries := by
  refine h.invariant (P := fun s => ∀ n w, s.workers.get? n = some w → w.Retries) ?_ ?_ n w hw
  · intro n w hw
    rw [init_workers hw]
    exact ⟨fun i => by simp [KeyedBackoff.numAttempts], fun _ _ h => (by cases h)⟩
  · intro s a s' ih hs n w' hw'
    obtain ⟨w, hw, hkeeps | ⟨b, hstep⟩ | ⟨body, rfl⟩⟩ := worker_cases hs hw'
    · exact (ih n w hw).keeps hkeeps
    · exact Worker.retries_step (ih n w hw) hstep
    · exact Worker.retries_applyEvent sha256 body (ih n w hw)

/-- What a place of `plan` needs that it reaches, at a worker that gives instances up. -/
structure Plannable (p : PlanInput) : Prop where
  downloads : p.Silent 3 → ¬ p.DownloadOverflows
  groups : p.Silent 4 → ¬ p.ConnectAsserts
  warmups : p.Silent 6 → ¬ p.WarmupAsserts
  lookups : p.Silent 7 → ¬ p.LookupFails

theorem not_createOverflows {w : Worker} (h : w.Retries) (now : Time) (taskId : TaskId) :
    ¬ (w.planInput now taskId).CreateOverflows := by
  intro hover
  obtain ⟨i, inst, -, -, -, hmany⟩ := hover
  have hfew := h.bounded inst.instanceId
  have hmany : KeyedBackoff.maxExponent ≤ w.instanceBackoff.numAttempts inst.instanceId := hmany
  unfold KeyedBackoff.maxExponent Worker.maxInstanceRetries at *
  omega

/--
**A worker plans without an exception in the reachable states in which the download it wants
was not asked for too often, the ranks of the runners it connects and warms up are of their
worlds, and every runner before which a task stops has a status**, and in no others.
-/
theorem plan_returns (sha256 : Base64Image → Base64ImageHash) (nodeIds : List NodeId)
    {s : Cluster} (h : (machine sha256 nodeIds).Reachable s) {n : NodeId} {w : Worker}
    (hw : s.workers.get? n = some w) (now : Time) (taskId : TaskId) :
    (∃ answer, (w.planInput now taskId).plan = .ok answer)
      ↔ Plannable (w.planInput now taskId) := by
  have hcreate := not_createOverflows (retries_reachable h hw) now taskId
  rw [PlanInput.returns_iff]
  constructor
  · intro hr
    exact {
      downloads := fun hs ho => hr (.download hs ho)
      groups := fun hs ha => hr (.connect hs ha)
      warmups := fun hs ha => hr (.warmup hs ha)
      lookups := fun hs hl => hr (.lookup hs hl) }
  · intro hp hr
    cases hr with
    | create _ overflows => exact hcreate overflows
    | download silent overflows => exact hp.downloads silent overflows
    | connect silent asserts => exact hp.groups silent asserts
    | warmup silent asserts => exact hp.warmups silent asserts
    | lookup silent fails => exact hp.lookups silent fails

/-- A ready runner is planned a task for. -/
theorem plan_returns_soloRequest :
    ∃ s : Cluster, (machine (fun _ => 0) [1]).Reachable s ∧ ∃ w, s.workers.get? 1 = some w
      ∧ Plannable (w.planInput 20000 1004) := by
  have hrun : (((machine (fun _ => 0) [1]).run (init [1]) (soloReady ++ soloRequest)).bind fun s =>
      (s.workers.get? 1).map fun w =>
        (w.planInput 20000 1004).plan.toOption.map fun task => task.map (·.taskId))
      = some (some (some 2000)) := by
    decide +kernel
  obtain ⟨s, hs, hrun⟩ := Option.bind_eq_some_iff.mp hrun
  obtain ⟨w, hw, hplan⟩ := Option.map_eq_some_iff.mp hrun
  have hr := Machine.reachable_of_run hs
  refine ⟨s, hr, w, hw, (plan_returns (fun _ => 0) [1] hr hw 20000 1004).mp ?_⟩
  cases hanswer : (w.planInput 20000 1004).plan with
  | error e =>
      rw [hanswer] at hplan
      cases hplan
  | ok answer => exact ⟨answer, rfl⟩

/--
The runner is brought up while its reports are still on their way to the log, and the client
asks for a text then.
-/
def unheardRunner : List Action :=
  [.submit (.createInstance soloInstance), .execute 0 1000, .log .master, .apply 1,
    .worker 1 (.plan 20000 1001), .worker 1 (.act 20000 false), solo .boot, solo .forward,
    .log (.other (.nodeDownloadProgress { nodeId := 1, modelId := 7, state := .completed })),
    .apply 1]
  ++ soloStart 20000 1002 ++ [solo (.unblock none), solo .forward, solo .forward]
  ++ soloStart 20000 1003 ++ [solo (.unblock none), solo .forward, solo .forward] ++ soloRequest

/-- **The status of a runner can be missing where it is looked up.** -/
theorem plan_not_total :
    ¬ ∀ (sha256 : Base64Image → Base64ImageHash) (nodeIds : List NodeId) (s : Cluster),
      (machine sha256 nodeIds).Reachable s → ∀ n w, s.workers.get? n = some w →
        ∀ now taskId, ∃ answer, (w.planInput now taskId).plan = .ok answer := by
  intro h
  have hrun : (((machine (fun _ => 0) [1]).run (init [1]) unheardRunner).bind fun s =>
      (s.workers.get? 1).map fun w => (w.planInput 20000 1004).plan)
      = some (.error .keyError) := by
    decide +kernel
  obtain ⟨s, hs, hrun⟩ := Option.bind_eq_some_iff.mp hrun
  obtain ⟨w, hw, hplan⟩ := Option.map_eq_some_iff.mp hrun
  obtain ⟨answer, hanswer⟩ := h _ _ s (Machine.reachable_of_run hs) 1 w hw 20000 1004
  rw [hplan] at hanswer
  cases hanswer

end Cluster

end Exo
