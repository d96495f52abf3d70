import Exo.Cluster.Terminal

/-!
# Tasks whose instance is gone

An instance goes when its deletion is logged, and the planner of the master has it deleted
without a word about its tasks. A command that deletes it cancels the tasks of the state it
is executed in, and a task whose creation is on its way at that time is not one of them.

`Cluster.vacates` is what keeps every task that is pending or running at an instance: the
deletion of an instance is logged when its tasks are over and settled, and no worker plans a
task of an instance that is gone.
-/

namespace Exo

open Lib (Dict Machine)

/-- Every generation task that is pending or running has its instance. -/
def State.Housed (s : State) : Prop :=
  ∀ t task, s.tasks.get? t = some task → task.isGeneration → task.taskStatus.inFlight →
    (s.instances.get? task.instanceId).isSome

/-- The generation task of the instance that an event creates. -/
def EventBody.requestedOn? (instanceId : InstanceId) : EventBody → Option TaskId
  | .taskCreated t task =>
      if task.isGeneration ∧ task.instanceId = instanceId then some t else none
  | _ => none

variable {body : EventBody}

theorem EventBody.requestedOn?_eq_some {instanceId : InstanceId} {t : TaskId} :
    body.requestedOn? instanceId = some t ↔
      ∃ task, body = .taskCreated t task ∧ task.isGeneration ∧ task.instanceId = instanceId := by
  constructor
  · intro h
    unfold requestedOn? at h
    split at h
    · obtain ⟨⟨hg, hi⟩, h⟩ := Option.ite_none_right_eq_some.mp h
      exact ⟨_, by rw [Option.some.inj h], hg, hi⟩
    · cases h
  · rintro ⟨task, rfl, hg, hi⟩
    exact if_pos ⟨hg, hi⟩

variable {task : Task}

/-- A task of a replayed log was created with its instance and its kind. -/
theorem requestedOn_of_replay {log : List EventBody} {t : TaskId}
    (h : (replay log).tasks.get? t = some task) (hg : task.isGeneration) :
    ∃ e ∈ log, e.requestedOn? task.instanceId = some t := by
  induction log using List.reverseRecOn generalizing task with
  | nil => cases h
  | append_singleton log body ih =>
      rw [replay_append] at h
      rcases apply_tasks_cases h with ⟨t', hb, rfl⟩ | ⟨old, hold, -, hinst, hkind⟩
      · exact ⟨body, by simp, EventBody.requestedOn?_eq_some.mpr ⟨task, hb, hg, rfl⟩⟩
      · have hgold : old.isGeneration := by
          rw [Task.isGeneration, ← hkind]
          exact hg
        obtain ⟨e, he, hreq⟩ := ih hold hgold
        exact ⟨e, List.mem_append_left _ he, by rw [hinst]; exact hreq⟩

namespace CommandProcessor

variable {m : CommandProcessor}

theorem mem_servingInstances {model : ModelId} {i : InstanceId}
    (hfiled : m.state.Filed) (h : i ∈ m.servingInstances model) :
    (m.state.instances.get? i).isSome := by
  obtain ⟨inst, hinst, rfl⟩ := List.mem_map.mp h
  obtain ⟨k, hk⟩ := Dict.mem_values.1 (List.mem_of_mem_filter hinst)
  rw [hfiled k inst hk, hk]
  rfl

/-- A task is created for an instance that the master has. -/
theorem instance_of_createTask {commandId : CommandId} {taskId t : TaskId}
    {ids : List InstanceId} {kind : TaskKind}
    (h : .taskCreated t task ∈ (m.createTask commandId taskId (m.leastLoaded ids) kind).2) :
    task.instanceId ∈ ids := by
  cases hids : m.leastLoaded ids with
  | none =>
      rw [hids] at h
      cases h
  | some i =>
      rw [hids] at h
      obtain ⟨-, rfl⟩ := EventBody.taskCreated.inj (List.mem_singleton.mp h)
      exact List.argmin_mem hids

theorem instance_of_execute (hfiled : m.state.Filed) {taskId t : TaskId}
    {command : Command} (h : .taskCreated t task ∈ (m.execute taskId command).2) :
    (m.state.instances.get? task.instanceId).isSome := by
  cases command with
  | textGeneration commandId model imageHashes =>
      have := instance_of_createTask h
      exact mem_servingInstances hfiled (List.mem_of_mem_filter this)
  | imageGeneration commandId model | imageEdits commandId model total =>
      exact mem_servingInstances hfiled (instance_of_createTask h)
  | createInstance inst | taskCancelled commandId | taskFinished commandId =>
      simp only [execute] at h
      split at h <;> simp at h
  | deleteInstance i =>
      simp only [execute, deletionEvents] at h
      split at h <;> simp at h
  | sendInputChunk | setInstanceLink | deleteInstanceLink => simp [execute] at h

end CommandProcessor

namespace Cluster

/-- The generation tasks of an instance that were created, in the log or on their way to it. -/
def requestedOn (s : Cluster) (instanceId : InstanceId) : List TaskId :=
  (s.log ++ s.outbox).filterMap (·.requestedOn? instanceId)

theorem mem_requestedOn {s : Cluster} {i : InstanceId} {t : TaskId} :
    t ∈ s.requestedOn i ↔ ∃ e, (e ∈ s.log ∨ e ∈ s.outbox) ∧ e.requestedOn? i = some t := by
  simp only [requestedOn, List.mem_filterMap, List.mem_append]

/-- The task is pending or running, or can come to be. -/
def live (s : Cluster) (t : TaskId) : Bool :=
  (s.processor.state.status? t).any (·.inFlight) || s.unsettled t

/--
The steps that log the deletion of an instance only when its tasks are over and settled, and
plan no task of an instance that is gone.
-/
def vacates (s : Cluster) : Action → Bool
  | .log source =>
      match s.next? source with
      | some (.instanceDeleted i) => (s.requestedOn i).all fun t => !s.live t
      | _ => true
  | .worker n (.plan now id) =>
      match (s.workers.get? n).map fun w => (w.planInput now id).plan with
      | some (Except.ok (some task)) =>
          !task.isGeneration || (s.processor.state.instances.get? task.instanceId).isSome
      | _ => true
  | _ => true

/-- What is kept along the runs that vacate instances before they go. -/
structure HousingInv (s : Cluster) : Prop where
  sound : Sound s
  filed : s.processor.state.Filed
  /-- A worker only announces tasks that were created before. -/
  announced : ∀ n w, s.workers.get? n = some w → ∀ e ∈ w.outbox, ∀ i t,
    e.requestedOn? i = some t → t ∈ s.requestedOn i
  /-- A task that is live has its instance. -/
  housed : ∀ i, ∀ t ∈ s.requestedOn i, s.live t → (s.processor.state.instances.get? i).isSome

section Steps

variable {s s' : Cluster} {t : TaskId} {i : InstanceId}

theorem HousingInv.stateHoused (h : HousingInv s) : s.processor.state.Housed := by
  intro t task ht hg hf
  rw [h.sound.processor] at ht
  obtain ⟨e, he, hreq⟩ := requestedOn_of_replay ht hg
  refine h.housed _ t (mem_requestedOn.2 ⟨e, .inl he, hreq⟩) ?_
  rw [live, h.sound.processor, State.status?, ht, Option.map_some, Option.any_some, hf,
    Bool.true_or]

theorem issued_of_requestedOn (h : Sound s) (ht : t ∈ s.requestedOn i) :
    s.issued.get? t = some i := by
  obtain ⟨e, he, hreq⟩ := mem_requestedOn.1 ht
  obtain ⟨task, hb, -, rfl⟩ := EventBody.requestedOn?_eq_some.mp hreq
  rcases he with he | he
  · exact (h.log e he t task hb).2.2
  · exact (h.outbox e he t task hb).2.2

variable {sha256 : Base64Image → Base64ImageHash}

variable {a : Action}

/-- **A step brings a task that was created to life only where its instance is.** -/
theorem unsettled_of_step
    (h : Sound s) (hok : s.vacates a) (hs : s.step sha256 a = some s')
    (ht : t ∈ s.requestedOn i) (hu : s'.unsettled t) :
    s.unsettled t ∨ (s.processor.state.instances.get? i).isSome := by
  have hissued := issued_of_requestedOn h ht
  rcases unsettled_step hs hu with hbefore | ⟨hfresh, -⟩ | ⟨n, w, now, id, task, rfl, hw, hp, rfl⟩
  · exact .inl hbefore
  · rw [hfresh.1] at hissued
    cases hissued
  · -- what is planned again generates, and is for the instance it was created for
    rcases PlanInput.plan_cases hp with ⟨i', kind, rfl, -⟩ | ⟨hmem, hg, -⟩
    · have hdraws : s.Fresh id := by
        unfold step at hs
        split at hs
        · rename_i hf
          exact hf id rfl
        · cases hs
      have hnone : s.issued.get? id = none := hdraws.1
      rw [show (PlanInput.newTask _ i' kind).taskId = id from rfl] at hissued
      rw [hnone] at hissued
      cases hissued
    · simp only [vacates, hw, Option.map_some, hp, hg] at hok
      obtain ⟨k, hk⟩ := Dict.mem_values.1 hmem
      have hwsound := h.workers n w hw
      have hget : (replay (s.log.take w.applied)).tasks.get? k = some task := hwsound.state ▸ hk
      obtain ⟨hid, hiss⟩ :=
        issued_of_replay (fun e he => h.log e (List.mem_of_mem_take he)) hget
      rw [hid, hiss] at hissued
      rw [← Option.some.inj hissued]
      exact .inr (by simpa using hok)

/-- A task of the log or of the outbox stays requested. -/
theorem requestedOn_mono (hlog : ∀ e ∈ s.log, e ∈ s'.log)
    (hout : ∀ e ∈ s.outbox, e ∈ s'.log ∨ e ∈ s'.outbox) (h : t ∈ s.requestedOn i) :
    t ∈ s'.requestedOn i := by
  obtain ⟨e, he, hreq⟩ := mem_requestedOn.1 h
  rcases he with he | he
  · exact mem_requestedOn.2 ⟨e, .inl (hlog e he), hreq⟩
  · exact mem_requestedOn.2 ⟨e, hout e he, hreq⟩

theorem live_iff : s.live t ↔
    (s.processor.state.status? t).any (·.inFlight) ∨ s.unsettled t := by
  rw [live, Bool.or_eq_true]

/-- A step that leaves the state and the requests as they are keeps every live task housed. -/
theorem housed_of_same (h : HousingInv s)
    (hok : s.vacates a) (hs : s.step sha256 a = some s')
    (hproc : s'.processor.state = s.processor.state) (ht : t ∈ s.requestedOn i)
    (hl : s'.live t) : (s'.processor.state.instances.get? i).isSome := by
  rw [hproc]
  rcases live_iff.1 hl with hf | hu
  · rw [hproc] at hf
    exact h.housed i t ht (live_iff.2 (.inl hf))
  · rcases unsettled_of_step h.sound hok hs ht hu with hu | hinst
    · exact h.housed i t ht (live_iff.2 (.inr hu))
    · exact hinst

variable {source : Source}

/-- The master's outbox loses what is logged, and nothing else. -/
theorem mem_outbox_of_next {body e : EventBody}
    (hn : s.next? source = some body) (he : e ∈ s.outbox) :
    e = body ∨ e ∈ (s.takeNext source).outbox := by
  cases source with
  | master =>
      have hhead : s.outbox.head? = some body := hn
      cases hout : s.outbox with
      | nil => rw [hout] at he; cases he
      | cons b rest =>
          rw [hout] at he hhead
          obtain rfl := Option.some.inj hhead
          rcases List.mem_cons.mp he with rfl | he
          · exact .inl rfl
          · exact .inr (by simp [takeNext, hout, he])
  | worker n =>
      refine .inr ?_
      simp only [takeNext]
      split <;> exact he
  | other body' => exact .inr he

/-- What is logged and creates a generation task is about a task that was created. -/
theorem requestedOn_of_next (h : HousingInv s)
    (hn : s.next? source = some body) (hreq : body.requestedOn? i = some t) :
    t ∈ s.requestedOn i := by
  rcases next_cases hn with hm | ⟨n, w, hw, hm⟩ | hother
  · exact mem_requestedOn.2 ⟨body, .inr hm, hreq⟩
  · exact h.announced n w hw body hm i t hreq
  · obtain ⟨task, rfl, -⟩ := EventBody.requestedOn?_eq_some.mp hreq
    cases hother

theorem housing_logged
    (h : HousingInv s) (hok : s.vacates (.log source))
    (hs : s.step sha256 (.log source) = some s') (hn : s.next? source = some body)
    (he : s' = (s.takeNext source).append body) : HousingInv s' := by
  have hlog : s'.log = s.log ++ [body] := by rw [he]; simp [append, takeNext_log]
  have hout : s'.outbox = (s.takeNext source).outbox := by rw [he]; rfl
  have hproc : s'.processor.state = body.apply s.processor.state := by
    rw [he]
    simp only [append, takeNext_processor]
  have hreq : ∀ i t, t ∈ s.requestedOn i ↔ t ∈ s'.requestedOn i := by
    intro i t
    constructor
    · refine requestedOn_mono (fun e hmem => by simp [hlog, hmem]) fun e hmem => ?_
      rcases mem_outbox_of_next hn hmem with rfl | hmem
      · exact .inl (by simp [hlog])
      · exact .inr (hout ▸ hmem)
    · intro ht
      obtain ⟨e, hmem, hr⟩ := mem_requestedOn.1 ht
      rw [hlog, hout, List.mem_append, List.mem_singleton] at hmem
      rcases hmem with (hmem | rfl) | hmem
      · exact mem_requestedOn.2 ⟨e, .inl hmem, hr⟩
      · exact requestedOn_of_next h hn hr
      · exact mem_requestedOn.2 ⟨e, .inr (mem_takeNext_outbox hmem), hr⟩
  refine ⟨sound_step h.sound hs, by rw [hproc]; exact h.filed.apply body, ?_, ?_⟩
  · intro n w' hw' e hmem i t hr
    rw [he] at hw'
    obtain ⟨w, hw, hl⟩ := loggedTo hw'
    exact (hreq i t).mp (h.announced n w hw e (hl.outbox e hmem) i t hr)
  · intro i t ht hl
    have ht := (hreq i t).mpr ht
    -- a task that is live after the event was live before it
    have hbefore : s.live t := by
      rcases live_iff.1 hl with hf | hu
      · rw [Option.any_eq_true] at hf
        obtain ⟨status, hstatus, hfl⟩ := hf
        rw [hproc] at hstatus
        rcases status_apply_some hstatus with hold | hsets
        · exact live_iff.2 (.inl (by rw [hold]; exact hfl))
        · have hrevives := EventBody.revives_of_sets hsets hfl
          refine live_iff.2 (.inr (unsettled_iff.2 ?_))
          rcases next_cases hn with hm | ⟨n, w, hw, hm⟩ | hother
          · exact .inl ⟨body, hm, hrevives⟩
          · exact .inr ⟨n, w, hw, Worker.unsettled_iff.2 (.inl ⟨body, hm, hrevives⟩)⟩
          · rw [EventBody.not_revives_of_isOther hother] at hrevives
            cases hrevives
      · rcases unsettled_step hs hu with hu | ⟨-, j, ha⟩ | ⟨n, w, now, id, task, ha, -⟩
        · exact live_iff.2 (.inr hu)
        · cases ha
        · cases ha
    rw [hproc]
    refine isSome_instances_apply (h.housed i t ht hbefore) ?_
    rintro rfl
    simp only [vacates, hn, List.all_eq_true] at hok
    have := hok t ht
    rw [hbefore] at this
    cases this

theorem housing_step (h : HousingInv s)
    (hok : s.vacates a) (hs : s.step sha256 a = some s') : HousingInv s' := by
  have hsound := sound_step h.sound hs
  cases step_cases hs with
  | quiet hlog hout hiss hproc hw _ =>
      have hreq : ∀ i, s'.requestedOn i = s.requestedOn i := fun i => by
        rw [requestedOn, requestedOn, hlog, hout]
      refine ⟨hsound, by rw [hproc]; exact h.filed, ?_, ?_⟩
      · intro n w' hw' e hmem i t hr
        obtain ⟨w, hget, hsame⟩ := hw n w' hw'
        rw [hreq]
        exact h.announced n w hget e (hsame.outbox ▸ hmem) i t hr
      · intro i t ht hl
        exact housed_of_same h hok hs (by rw [hproc]) (hreq i ▸ ht) hl
  | executed j taskId command ha hf he =>
      have hstate : (s.processor.execute taskId command).1.state = s.processor.state :=
        (s.processor.execute_cases taskId command).1
      have hproc : s'.processor.state = s.processor.state := by
        rw [he, issue_processor]
        exact hstate
      have hlog : s'.log = s.log := by rw [he, issue_log]
      have hout : s'.outbox = s.outbox ++ (s.processor.execute taskId command).2 := by
        rw [he, issue_outbox]
      have hworkers : s'.workers = s.workers := by rw [he, issue_workers]
      have hmono : ∀ i t, t ∈ s.requestedOn i → t ∈ s'.requestedOn i := fun i t =>
        requestedOn_mono (fun e hmem => hlog ▸ hmem) fun e hmem =>
          .inr (hout ▸ List.mem_append_left _ hmem)
      refine ⟨hsound, by rw [hproc]; exact h.filed, ?_, ?_⟩
      · intro n w hw e hmem i t hr
        exact hmono i t (h.announced n w (hworkers ▸ hw) e hmem i t hr)
      · intro i t ht hl
        obtain ⟨e, hmem, hr⟩ := mem_requestedOn.1 ht
        rw [hlog, hout, List.mem_append] at hmem
        rcases hmem with hmem | hmem | hmem
        · exact housed_of_same h hok hs hproc (mem_requestedOn.2 ⟨e, .inl hmem, hr⟩) hl
        · exact housed_of_same h hok hs hproc (mem_requestedOn.2 ⟨e, .inr hmem, hr⟩) hl
        · -- the new task is for an instance that the master has
          obtain ⟨task, rfl, -, rfl⟩ := EventBody.requestedOn?_eq_some.mp hr
          rw [hproc]
          exact CommandProcessor.instance_of_execute h.filed hmem
  | logged source body ha hn he =>
      subst ha
      exact housing_logged h hok hs hn he
  | applied n w body _ hw _ _ he =>
      subst he
      refine ⟨hsound, h.filed, ?_, fun i t ht hl => housed_of_same h hok hs rfl ht hl⟩
      intro m v hv e hmem i t hr
      rcases setWorker_cases hv with ⟨rfl, rfl⟩ | ⟨-, hv⟩
      · obtain ⟨-, -, -, -, hout, -⟩ := applyEvent_books sha256 w body
        exact h.announced m w hw e (hout ▸ hmem) i t hr
      · exact h.announced m v hv e hmem i t hr
  | worked n b w w' ha hf hw hm he =>
      have hlog : s'.log = s.log := by rw [he, issue_log]; rfl
      have hout : s'.outbox = s.outbox := by rw [he, issue_outbox]; rfl
      have hproc : s'.processor = s.processor := by rw [he, issue_processor]; rfl
      have hreq : ∀ i, s'.requestedOn i = s.requestedOn i := fun i => by
        rw [requestedOn, requestedOn, hlog, hout]
      refine ⟨hsound, by rw [hproc]; exact h.filed, ?_, ?_⟩
      · intro m v hv e hmem i t hr
        rw [hreq]
        rw [he, issue_workers] at hv
        rcases setWorker_cases hv with ⟨rfl, rfl⟩ | ⟨-, hv⟩
        · obtain ⟨events, hevents, -⟩ := hm.outbox
          rw [hevents] at hmem
          rcases List.mem_append.mp hmem with hmem | hmem
          · exact h.announced m w hw e hmem i t hr
          · -- a generation task that is announced is one of the worker's copy of the state
            obtain ⟨task, rfl, hg, rfl⟩ := EventBody.requestedOn?_eq_some.mp hr
            have hnew : .taskCreated t task ∈ v.outbox.drop w.outbox.length := by
              rw [hevents, List.drop_left]
              exact hmem
            obtain ⟨rfl, now, id, -, hp⟩ := new_created (h.sound.workers m w hw) hm hnew
            rcases PlanInput.plan_cases hp with ⟨i', kind, rfl, hkind⟩ | ⟨hmem, -, -⟩
            · rw [Task.isGeneration, show (PlanInput.newTask _ i' kind).kind = kind from rfl,
                hkind] at hg
              cases hg
            · obtain ⟨k, hk⟩ := Dict.mem_values.1 hmem
              have hwsound := h.sound.workers m w hw
              have hget : (replay (s.log.take w.applied)).tasks.get? k = some task :=
                hwsound.state ▸ hk
              obtain ⟨hid, -⟩ := issued_of_replay
                (fun e he => h.sound.log e (List.mem_of_mem_take he)) hget
              obtain ⟨e, he, hreq⟩ := requestedOn_of_replay hget hg
              rw [hid]
              exact mem_requestedOn.2 ⟨e, .inl (List.mem_of_mem_take he), hreq⟩
        · exact h.announced m v hv e hmem i t hr
      · intro i t ht hl
        exact housed_of_same h hok hs (by rw [hproc]) (hreq i ▸ ht) hl

end Steps

/--
**Every generation task that is pending or running has its instance**, along every run that
logs the deletion of an instance only when its tasks are over, and plans no task of an instance
that is gone.
-/
theorem tasks_housed (sha256 : Base64Image → Base64ImageHash) (nodeIds : List NodeId)
    {s : Cluster} (h : (machine sha256 nodeIds).ReachableWhen (fun s a => s.vacates a) s) :
    s.processor.state.Housed := by
  refine (h.invariant (P := HousingInv) ⟨sound_init nodeIds, ?_, ?_, ?_⟩
    fun _ _ _ hi hok hs => housing_step hi hok hs).stateHoused
  · intro i inst hi
    cases hi
  · intro n w hw e hmem
    rw [init_workers hw] at hmem
    cases hmem
  · intro i t ht
    obtain ⟨e, he, -⟩ := mem_requestedOn.mp ht
    rcases he with he | he <;> cases he

/-- A client's task is pending when a command deletes its instance. -/
def vacated : List Action :=
  soloReady ++ soloRequest
  ++ [.submit (.deleteInstance 100), .execute 0 3000, .log .master, .log .master]

theorem tasks_housed_vacated :
    ∃ s : Cluster, s.processor.state.status? 2000 = some .cancelled
      ∧ s.processor.state.instances.get? 100 = none ∧ s.processor.state.Housed := by
  have hrun : (((machine (fun _ => 0) [1]).runWhen (fun s a => s.vacates a) (init [1])
      vacated).map fun s =>
        (s.processor.state.status? 2000, s.processor.state.instances.get? 100))
      = some (some .cancelled, none) := by
    decide +kernel
  obtain ⟨s, hs, hstat⟩ := Option.map_eq_some_iff.mp hrun
  obtain ⟨htask, hinst⟩ := Prod.mk.inj hstat
  exact ⟨s, htask, hinst, tasks_housed (fun _ => 0) [1] (Machine.reachableWhen_of_run hs)⟩

/-- A client's task is pending when its node times out, and the planner deletes the instance. -/
def evicted : List Action :=
  soloReady ++ soloRequest
  ++ [.log (.other (.nodeTimedOut 1)), .log (.other (.instanceDeleted 100))]

/-- **A task can be left without its instance.** -/
theorem tasks_not_housed :
    ¬ ∀ (sha256 : Base64Image → Base64ImageHash) (nodeIds : List NodeId) (s : Cluster),
      (machine sha256 nodeIds).Reachable s → s.processor.state.Housed := by
  intro h
  have hrun : (((machine (fun _ => 0) [1]).run (init [1]) evicted).map fun s =>
      ((s.processor.state.tasks.get? 2000).map fun task =>
        (task.isGeneration, task.taskStatus, task.instanceId),
        s.processor.state.instances.get? 100)) = some (some (true, .pending, 100), none) := by
    decide +kernel
  obtain ⟨s, hs, hstat⟩ := Option.map_eq_some_iff.mp hrun
  obtain ⟨htask, hinst⟩ := Prod.mk.inj hstat
  obtain ⟨task, ht, hfields⟩ := Option.map_eq_some_iff.mp htask
  obtain ⟨hg, hrest⟩ := Prod.mk.inj hfields
  obtain ⟨hstatus, hid⟩ := Prod.mk.inj hrest
  have := h _ _ s (Machine.reachable_of_run hs) 2000 task ht hg (by rw [hstatus]; rfl)
  rw [hid, hinst] at this
  cases this

end Cluster

end Exo
