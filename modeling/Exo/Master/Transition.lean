import Exo.Master.Commands
import Exo.Shared.Tasks

/-!
# From the current instances to the target ones

A command that places or deletes an instance is answered with a target: all the instances there
should be. `get_transition_events` turns it into the events that lead from the current instances
to it. It looks at the ids alone: what has an id on both sides stays as it is.
-/

namespace Exo

open Lib (Dict)

/-- `add_instance_to_placements`. -/
def addInstanceToPlacements (inst : Instance) (currentInstances : Dict InstanceId Instance) :
    Dict InstanceId Instance :=
  currentInstances.set inst.instanceId inst

/-- `delete_instance`; `none` is the error that there is no such instance. -/
def deleteInstance (instanceId : InstanceId) (currentInstances : Dict InstanceId Instance) :
    Option (Dict InstanceId Instance) :=
  if (currentInstances.get? instanceId).isSome then some (currentInstances.erase instanceId)
  else none

/-- The instances whose id is new. -/
def instancesToCreate (currentInstances targetInstances : Dict InstanceId Instance) :
    List Instance :=
  (targetInstances.filter fun instanceId _ => (currentInstances.get? instanceId).isNone).values

/-- The ids that are to go. -/
def instancesToDelete (currentInstances targetInstances : Dict InstanceId Instance) :
    List InstanceId :=
  currentInstances.keys.filter fun instanceId => (targetInstances.get? instanceId).isNone

/-- The events that delete an instance: its tasks in flight are cancelled first. -/
def deletionOf (tasks : Dict TaskId Task) (instanceId : InstanceId) : List EventBody :=
  ((tasks.values.filter fun task =>
      task.instanceId = instanceId ∧ task.taskStatus.inFlight).map
    fun task => .taskStatusUpdated task.taskId .cancelled) ++ [.instanceDeleted instanceId]

def getTransitionEvents (currentInstances targetInstances : Dict InstanceId Instance)
    (tasks : Dict TaskId Task) : List EventBody :=
  (instancesToCreate currentInstances targetInstances).map .instanceCreated
    ++ (instancesToDelete currentInstances targetInstances).flatMap (deletionOf tasks)

/-- The state after some events, one after the other. -/
def State.applyAll (s : State) (events : List EventBody) : State :=
  events.foldl (fun s body => body.apply s) s

@[simp] theorem State.applyAll_nil (s : State) : s.applyAll [] = s := rfl

theorem State.applyAll_append (s : State) (es fs : List EventBody) :
    s.applyAll (es ++ fs) = (s.applyAll es).applyAll fs :=
  List.foldl_append

theorem State.applyAll_cons (s : State) (body : EventBody) (es : List EventBody) :
    s.applyAll (body :: es) = (body.apply s).applyAll es := rfl

/-! ## What there is to create and to delete -/

section Ids

variable {currentInstances targetInstances : Dict InstanceId Instance}

theorem mem_instancesToCreate {inst : Instance} :
    inst ∈ instancesToCreate currentInstances targetInstances ↔
      ∃ i, targetInstances.get? i = some inst ∧ currentInstances.get? i = none := by
  simp only [instancesToCreate, Dict.mem_values, Dict.get?_filter, Option.filter_eq_some_iff,
    Option.isNone_iff_eq_none]

theorem mem_instancesToDelete {i : InstanceId} :
    i ∈ instancesToDelete currentInstances targetInstances ↔
      currentInstances.get? i ≠ none ∧ targetInstances.get? i = none := by
  simp only [instancesToDelete, List.mem_filter, Dict.mem_keys, Option.isNone_iff_eq_none,
    Option.isSome_iff_ne_none]

end Ids

/-! ## The events of the commands -/

section Commands

variable (m : CommandProcessor) (taskId : TaskId)

end Commands

/-! ## What the events do -/

/-- An event of a transition. -/
def EventBody.isTransition : EventBody → Bool
  | .instanceCreated _ | .instanceDeleted _ | .taskStatusUpdated _ .cancelled => true
  | _ => false

/-- The task a transition cancels. -/
def Cancels (events : List EventBody) (t : TaskId) : Prop :=
  .taskStatusUpdated t .cancelled ∈ events

/-- Cancelling a task twice cancels it once. -/
theorem Task.withStatus_withStatus (task : Task) :
    (task.withStatus .cancelled).withStatus .cancelled = task.withStatus .cancelled := by
  simp [Task.withStatus]

/-- A transition cancels the tasks it names, and leaves the others alone. -/
theorem tasks_applyAll {events : List EventBody} (h : ∀ e ∈ events, e.isTransition) (s : State)
    (t : TaskId) :
    (Cancels events t → (s.applyAll events).tasks.get? t
        = (s.tasks.get? t).map fun task => task.withStatus .cancelled)
      ∧ (¬ Cancels events t → (s.applyAll events).tasks.get? t = s.tasks.get? t) := by
  induction events generalizing s with
  | nil => exact ⟨fun hc => absurd hc List.not_mem_nil, fun _ => rfl⟩
  | cons e events ih =>
      have ih := ih (fun e' he' => h e' (List.mem_cons_of_mem _ he')) (e.apply s)
      have he := h e List.mem_cons_self
      rw [State.applyAll_cons]
      by_cases hhead : e = .taskStatusUpdated t .cancelled
      · -- the task is cancelled now, and perhaps again later
        subst hhead
        have hnow : ((EventBody.taskStatusUpdated t .cancelled).apply s).tasks.get? t
            = (s.tasks.get? t).map fun task => task.withStatus .cancelled := by
          simp only [EventBody.apply, applyTaskStatusUpdated]
          cases ht : s.tasks.get? t with
          | none => simpa using ht
          | some task => simp
        refine ⟨fun _ => ?_, fun hn => absurd List.mem_cons_self hn⟩
        by_cases hlater : Cancels events t
        · rw [ih.1 hlater, hnow, Option.map_map]
          refine congrArg (fun f => (s.tasks.get? t).map f) ?_
          funext task
          exact task.withStatus_withStatus
        · rw [ih.2 hlater, hnow]
      · have hnow : (e.apply s).tasks.get? t = s.tasks.get? t := by
          cases e with
          | taskStatusUpdated t' status =>
              have hstatus : status = .cancelled := by cases status <;> first | rfl | cases he
              subst hstatus
              have htt : t ≠ t' := by
                intro heq
                exact hhead (by rw [heq])
              simp only [EventBody.apply, applyTaskStatusUpdated]
              split
              · rfl
              · exact Dict.get?_set_ne _ _ htt
          | instanceCreated _ => rfl
          | instanceDeleted _ => rfl
          | _ => cases he
        have hiff : Cancels (e :: events) t ↔ Cancels events t := by
          constructor
          · intro hc
            rcases List.mem_cons.mp hc with heq | hc
            · exact absurd heq.symm hhead
            · exact hc
          · exact List.mem_cons_of_mem _
        rw [hiff, ← hnow]
        exact ih

/-- Cancelling tasks leaves the instances alone. -/
theorem instances_apply_taskStatusUpdated (s : State) (t : TaskId) (status : TaskStatus) :
    ((EventBody.taskStatusUpdated t status).apply s).instances = s.instances := by
  simp only [EventBody.apply, applyTaskStatusUpdated]
  split <;> rfl

/-- The deletion of some instances removes them from the state, and no others. -/
theorem instances_applyAll_delete (tasks : Dict TaskId Task) (ids : List InstanceId) (s : State) :
    (s.applyAll (ids.flatMap (deletionOf tasks))).instances = ids.foldl Dict.erase s.instances := by
  induction ids generalizing s with
  | nil => rfl
  | cons i ids ih =>
      have hcancel : ∀ (l : List Task) (s : State), (s.applyAll (l.map fun task =>
          EventBody.taskStatusUpdated task.taskId .cancelled)).instances = s.instances := by
        intro l
        induction l with
        | nil => exact fun s => rfl
        | cons task l ihl =>
            intro s
            rw [List.map_cons, State.applyAll_cons, ihl, instances_apply_taskStatusUpdated]
      rw [List.flatMap_cons, State.applyAll_append, ih, deletionOf, State.applyAll_append,
        State.applyAll_cons, State.applyAll_nil]
      simp only [EventBody.apply, applyInstanceDeleted, hcancel, List.foldl_cons]

/-- The creation of some instances files each under its own id. -/
theorem instances_applyAll_create (l : List Instance) (s : State) :
    (s.applyAll (l.map .instanceCreated)).instances
      = l.foldl (fun d inst => d.set inst.instanceId inst) s.instances := by
  induction l generalizing s with
  | nil => rfl
  | cons inst l ih => rw [List.map_cons, State.applyAll_cons, ih]; rfl

/-- A task in flight whose instance is not among the target ones. -/
def Doomed (targetInstances : Dict InstanceId Instance) (task : Task) : Prop :=
  task.taskStatus.inFlight ∧ targetInstances.get? task.instanceId = none

/-- The task ids that the cancellations name. -/
def Named (targetInstances : Dict InstanceId Instance) (tasks : Dict TaskId Task) (t : TaskId) :
    Prop :=
  ∃ task ∈ tasks.values, Doomed targetInstances task ∧ task.taskId = t

/-- Every task is for one of the instances. -/
def TasksRefer (currentInstances : Dict InstanceId Instance) (tasks : Dict TaskId Task) : Prop :=
  ∀ t task, tasks.get? t = some task → currentInstances.get? task.instanceId ≠ none

section Events

variable {currentInstances targetInstances : Dict InstanceId Instance} {tasks : Dict TaskId Task}

theorem isTransition_of_mem {e : EventBody}
    (h : e ∈ getTransitionEvents currentInstances targetInstances tasks) : e.isTransition := by
  rcases List.mem_append.mp h with h | h
  · obtain ⟨inst, -, rfl⟩ := List.mem_map.mp h
    rfl
  · obtain ⟨i, -, h⟩ := List.mem_flatMap.mp h
    rcases List.mem_append.mp h with h | h
    · obtain ⟨task, -, rfl⟩ := List.mem_map.mp h
      rfl
    · rw [List.mem_singleton.mp h]
      rfl

/-- The cancelled tasks are those in flight on an instance that goes. -/
theorem cancels_iff (hrefer : TasksRefer currentInstances tasks) {t : TaskId} :
    Cancels (getTransitionEvents currentInstances targetInstances tasks) t
      ↔ Named targetInstances tasks t := by
  constructor
  · intro h
    rcases List.mem_append.mp h with h | h
    · obtain ⟨inst, -, heq⟩ := List.mem_map.mp h
      cases heq
    · obtain ⟨i, hi, h⟩ := List.mem_flatMap.mp h
      rcases List.mem_append.mp h with h | h
      · obtain ⟨task, htask, heq⟩ := List.mem_map.mp h
        obtain ⟨hmem, hfor⟩ := List.mem_filter.mp htask
        obtain ⟨hinst, hflight⟩ := of_decide_eq_true hfor
        obtain ⟨-, htarget⟩ := mem_instancesToDelete.1 hi
        exact ⟨task, hmem, ⟨hflight, hinst ▸ htarget⟩, (EventBody.taskStatusUpdated.inj heq).1⟩
      · cases List.mem_singleton.mp h
  · intro h
    obtain ⟨task, hmem, ⟨hflight, htarget⟩, rfl⟩ := h
    obtain ⟨t, ht⟩ := Dict.mem_values.1 hmem
    have hdelete : task.instanceId ∈ instancesToDelete currentInstances targetInstances :=
      mem_instancesToDelete.2 ⟨hrefer t task ht, htarget⟩
    refine List.mem_append_right _ (List.mem_flatMap.mpr ⟨task.instanceId, hdelete, ?_⟩)
    refine List.mem_append_left _ (List.mem_map.mpr ⟨task, ?_, rfl⟩)
    exact List.mem_filter.mpr ⟨hmem, decide_eq_true ⟨rfl, hflight⟩⟩

/-- What is filed under an id afterwards. -/
theorem instances_applyAll (s : State) (hs : s.instances = currentInstances) (i : InstanceId) :
    (s.applyAll (getTransitionEvents currentInstances targetInstances tasks)).instances.get? i
      = if i ∈ instancesToDelete currentInstances targetInstances then none
        else (((instancesToCreate currentInstances targetInstances).filter
          fun inst => inst.instanceId = i).getLast?).or (currentInstances.get? i) := by
  rw [getTransitionEvents, State.applyAll_append, instances_applyAll_delete,
    instances_applyAll_create, Dict.get?_foldl_erase, Dict.get?_foldl_set, hs]

end Events

/-! ## When it is a diff -/

/-- The state is what a diff should have made of the current instances and the tasks. -/
structure IsDiff (targetInstances : Dict InstanceId Instance) (tasks : Dict TaskId Task)
    (s : State) : Prop where
  instances : ∀ i, s.instances.get? i = targetInstances.get? i
  /-- No task is in flight without an instance. -/
  noneDoomed : ∀ t task, s.tasks.get? t = some task → ¬ Doomed targetInstances task
  /-- Every other task is unchanged. -/
  others : ∀ t, (∀ task, tasks.get? t = some task → ¬ Doomed targetInstances task) →
    s.tasks.get? t = tasks.get? t

/-- When the ids alone tell what has changed. -/
structure ToldByIds (currentInstances targetInstances : Dict InstanceId Instance)
    (tasks : Dict TaskId Task) : Prop where
  /-- What has an id on both sides is the same on both. -/
  same : ∀ i a b, currentInstances.get? i = some a → targetInstances.get? i = some b → a = b
  /-- What is new is filed under its own id. -/
  filed : ∀ i inst, targetInstances.get? i = some inst → currentInstances.get? i = none →
    inst.instanceId = i
  /-- The task ids that are named reach every task that should be cancelled. -/
  reached : ∀ t task, tasks.get? t = some task → Doomed targetInstances task →
    Named targetInstances tasks t
  /-- And no other task that they would change. -/
  spared : ∀ t task, tasks.get? t = some task → ¬ Doomed targetInstances task →
    Named targetInstances tasks t → task.withStatus .cancelled = task

section Diff

variable {currentInstances targetInstances : Dict InstanceId Instance} {tasks : Dict TaskId Task}

/-- The instances come out right exactly when the ids tell what has changed. -/
theorem instances_eq_target_iff (targetInstances : Dict InstanceId Instance)
    (tasks : Dict TaskId Task) (s : State) (hs : s.instances = currentInstances) :
    (∀ i, (s.applyAll (getTransitionEvents currentInstances targetInstances tasks)).instances.get? i
        = targetInstances.get? i)
      ↔ (∀ i a b, currentInstances.get? i = some a → targetInstances.get? i = some b → a = b)
        ∧ ∀ i inst, targetInstances.get? i = some inst → currentInstances.get? i = none →
          inst.instanceId = i := by
  -- the last instance filed under an id is new, and has that id
  have hlast : ∀ {i inst}, ((instancesToCreate currentInstances targetInstances).filter
      fun inst => inst.instanceId = i).getLast? = some inst →
      inst.instanceId = i ∧ ∃ k, targetInstances.get? k = some inst
        ∧ currentInstances.get? k = none := by
    intro i inst h
    obtain ⟨hmem, hid⟩ := List.mem_filter.mp (List.mem_of_getLast? h)
    exact ⟨of_decide_eq_true hid, mem_instancesToCreate.1 hmem⟩
  constructor
  · intro h
    have hget : ∀ i inst, targetInstances.get? i = some inst →
        (((instancesToCreate currentInstances targetInstances).filter
          fun inst => inst.instanceId = i).getLast?).or (currentInstances.get? i) = some inst := by
      intro i inst hinst
      have hi := h i
      rwa [instances_applyAll s hs, hinst, if_neg] at hi
      intro hdel
      rw [(mem_instancesToDelete.1 hdel).2] at hinst
      cases hinst
    have hfiled : ∀ i inst, targetInstances.get? i = some inst → currentInstances.get? i = none →
        inst.instanceId = i := by
      intro i inst hinst hnew
      have hi := hget i inst hinst
      rw [hnew, Option.or_none] at hi
      exact (hlast hi).1
    refine ⟨?_, hfiled⟩
    intro i a b ha hb
    have hi := hget i b hb
    rcases Option.or_eq_some_iff.mp hi with hi | ⟨-, hi⟩
    · -- something new would be filed under an id that is not its own
      obtain ⟨hid, k, hk, hnew⟩ := hlast hi
      rw [← hid, hfiled k b hk hnew, hnew] at ha
      cases ha
    · exact Option.some.inj (ha.symm.trans hi)
  · intro h i
    obtain ⟨hsame, hfiled⟩ := h
    rw [instances_applyAll s hs]
    split
    · rename_i hdel
      exact (mem_instancesToDelete.1 hdel).2.symm
    · rename_i hdel
      cases hx : ((instancesToCreate currentInstances targetInstances).filter
          fun inst => inst.instanceId = i).getLast? with
      | some inst =>
          obtain ⟨hid, k, hk, hnew⟩ := hlast hx
          have hki : k = i := (hfiled k inst hk hnew).symm.trans hid
          rw [← hki, hk, Option.some_or]
      | none =>
          rw [Option.none_or]
          cases htarget : targetInstances.get? i with
          | none =>
              by_contra hcur
              exact hdel (mem_instancesToDelete.2 ⟨hcur, htarget⟩)
          | some b =>
              cases hcur : currentInstances.get? i with
              | some a => rw [hsame i a b hcur htarget]
              | none =>
                  have hmem : b ∈ (instancesToCreate currentInstances targetInstances).filter
                      fun inst => inst.instanceId = i :=
                    List.mem_filter.mpr ⟨mem_instancesToCreate.2 ⟨i, htarget, hcur⟩,
                      decide_eq_true (hfiled i b htarget hcur)⟩
                  rw [List.getLast?_eq_none_iff.mp hx] at hmem
                  cases hmem

/-- The tasks come out right exactly when the cancellations name the right ones. -/
theorem tasks_right_iff (targetInstances : Dict InstanceId Instance) (s : State)
    (hs : s.tasks = tasks)
    (hrefer : TasksRefer currentInstances tasks) :
    ((∀ t task, (s.applyAll
        (getTransitionEvents currentInstances targetInstances tasks)).tasks.get? t = some task →
          ¬ Doomed targetInstances task)
      ∧ ∀ t, (∀ task, tasks.get? t = some task → ¬ Doomed targetInstances task) →
        (s.applyAll (getTransitionEvents currentInstances targetInstances tasks)).tasks.get? t
          = tasks.get? t)
      ↔ (∀ t task, tasks.get? t = some task → Doomed targetInstances task →
          Named targetInstances tasks t)
        ∧ ∀ t task, tasks.get? t = some task → ¬ Doomed targetInstances task →
          Named targetInstances tasks t → task.withStatus .cancelled = task := by
  have heffect := fun t => tasks_applyAll (fun e he => isTransition_of_mem he :
    ∀ e ∈ getTransitionEvents currentInstances targetInstances tasks, e.isTransition) s t
  simp only [cancels_iff hrefer, hs] at heffect
  constructor
  · intro h
    obtain ⟨hnone, hothers⟩ := h
    constructor
    · intro t task ht hdoomed
      by_contra hnamed
      exact hnone t task (by rw [(heffect t).2 hnamed, ht]) hdoomed
    · intro t task ht hdoomed hnamed
      have hsame := hothers t fun task' ht' => by
        rw [ht] at ht'
        exact Option.some.inj ht' ▸ hdoomed
      rw [(heffect t).1 hnamed, ht] at hsame
      exact Option.some.inj hsame
  · intro h
    obtain ⟨hreached, hspared⟩ := h
    constructor
    · intro t task ht hdoomed
      by_cases hnamed : Named targetInstances tasks t
      · -- a cancelled task is not in flight
        rw [(heffect t).1 hnamed] at ht
        obtain ⟨old, -, rfl⟩ := Option.map_eq_some_iff.mp ht
        have hflight := hdoomed.1
        rw [Task.withStatus_taskStatus] at hflight
        cases hflight
      · rw [(heffect t).2 hnamed] at ht
        exact hnamed (hreached t task ht hdoomed)
    · intro t hdoomed
      by_cases hnamed : Named targetInstances tasks t
      · rw [(heffect t).1 hnamed]
        cases ht : tasks.get? t with
        | none => rfl
        | some task => rw [Option.map_some, hspared t task ht (hdoomed task ht) hnamed]
      · rw [(heffect t).2 hnamed]

/-- A task map that files every task under its own id needs no more. -/
theorem toldByIds_of_filed (hown : ∀ t task, tasks.get? t = some task → task.taskId = t)
    (hsame : ∀ i a b, currentInstances.get? i = some a → targetInstances.get? i = some b → a = b)
    (hfiled : ∀ i inst, targetInstances.get? i = some inst → currentInstances.get? i = none →
      inst.instanceId = i) : ToldByIds currentInstances targetInstances tasks where
  same := hsame
  filed := hfiled
  reached t task ht hdoomed := ⟨task, Dict.mem_values.2 ⟨t, ht⟩, hdoomed, hown t task ht⟩
  spared t task ht hdoomed hnamed := by
    obtain ⟨task', hmem, hdoomed', hid⟩ := hnamed
    obtain ⟨t', ht'⟩ := Dict.mem_values.1 hmem
    have htt : t' = t := (hown t' task' ht').symm.trans hid
    rw [htt, ht] at ht'
    exact absurd (Option.some.inj ht' ▸ hdoomed') hdoomed

end Diff

/-- An instance that is added changes nothing when its id is taken by another. -/
theorem toldByIds_addInstance_iff {currentInstances : Dict InstanceId Instance}
    {tasks : Dict TaskId Task} (hrefer : TasksRefer currentInstances tasks) (inst : Instance) :
    ToldByIds currentInstances (addInstanceToPlacements inst currentInstances) tasks
      ↔ ∀ other, currentInstances.get? inst.instanceId = some other → other = inst := by
  constructor
  · intro h other hother
    exact h.same inst.instanceId other inst hother (Dict.get?_set_self _ _ _)
  · intro h
    -- every task keeps its instance, so none is doomed
    have hdoomed : ∀ t task, tasks.get? t = some task →
        ¬ Doomed (addInstanceToPlacements inst currentInstances) task := by
      intro t task ht hd
      have hnone := hd.2
      rw [addInstanceToPlacements, Dict.get?_set] at hnone
      split at hnone
      · cases hnone
      · exact hrefer t task ht hnone
    refine ⟨?_, ?_, fun t task ht hd => absurd hd (hdoomed t task ht), ?_⟩
    · intro i a b ha hb
      rw [addInstanceToPlacements, Dict.get?_set] at hb
      split at hb
      · rename_i hi
        rw [← Option.some.inj hb]
        exact h a (hi ▸ ha)
      · exact Option.some.inj (ha.symm.trans hb)
    · intro i new hnew hi
      rw [addInstanceToPlacements, Dict.get?_set] at hnew
      split at hnew
      · rename_i hii
        rw [← Option.some.inj hnew, hii]
      · rw [hi] at hnew
        cases hnew
    · intro t task ht hd hnamed
      obtain ⟨task', hmem, hd', -⟩ := hnamed
      obtain ⟨t', ht'⟩ := Dict.mem_values.1 hmem
      exact absurd hd' (hdoomed t' task' ht')

/-- **The transition events are a diff exactly when the ids tell what has changed.** -/
theorem getTransitionEvents_isDiff_iff (s : State) (hrefer : TasksRefer s.instances s.tasks) :
    (∀ targetInstances, IsDiff targetInstances s.tasks
        (s.applyAll (getTransitionEvents s.instances targetInstances s.tasks))
          ↔ ToldByIds s.instances targetInstances s.tasks)
      ∧ ∀ inst, IsDiff (addInstanceToPlacements inst s.instances) s.tasks
          (s.applyAll (getTransitionEvents s.instances
            (addInstanceToPlacements inst s.instances) s.tasks))
          ↔ ∀ other, s.instances.get? inst.instanceId = some other → other = inst := by
  have hall : ∀ targetInstances, IsDiff targetInstances s.tasks
      (s.applyAll (getTransitionEvents s.instances targetInstances s.tasks))
        ↔ ToldByIds s.instances targetInstances s.tasks := by
    intro targetInstances
    have hinst := instances_eq_target_iff targetInstances s.tasks s rfl
    have htask := tasks_right_iff targetInstances s rfl hrefer
    constructor
    · intro h
      obtain ⟨hsame, hfiled⟩ := hinst.mp h.instances
      obtain ⟨hreached, hspared⟩ := htask.mp ⟨h.noneDoomed, h.others⟩
      exact ⟨hsame, hfiled, hreached, hspared⟩
    · intro h
      obtain ⟨hnone, hothers⟩ := htask.mpr ⟨h.reached, h.spared⟩
      exact ⟨hinst.mpr ⟨h.same, h.filed⟩, hnone, hothers⟩
  exact ⟨hall, fun inst => (hall _).trans (toldByIds_addInstance_iff hrefer inst)⟩

theorem noRunners_exist : ∀ r ∈ (Dict.empty : Dict NodeId RunnerId).values,
    ((Dict.empty : Dict RunnerId ShardMetadata).get? r).isSome := by simp

/-- An instance of a model, with no runners. -/
def bareInstance (instanceId : InstanceId) (modelId : ModelId) : Instance where
  instanceId := instanceId
  shardAssignments :=
    { modelId := modelId
      runnerToShard := .empty
      nodeToRunner := .empty
      runnersExist := noRunners_exist }

/-- Instance 1 serves model 7 and has a task in flight. -/
def oneInstance : State where
  instances := Dict.empty.set 1 (bareInstance 1 7)
  tasks := Dict.empty.set 5
    { taskId := 5, taskStatus := .running, instanceId := 1, kind := .imageGeneration 9 }

theorem oneInstance_tasksRefer : TasksRefer oneInstance.instances oneInstance.tasks := by
  intro t task ht
  simp only [oneInstance, Dict.get?_set, Dict.get?_empty] at ht
  split at ht
  · rw [← Option.some.inj ht]
    simp [oneInstance]
  · cases ht

/-- Instance 1 goes, its task is cancelled, and instance 2 comes. -/
theorem getTransitionEvents_isDiff_oneInstance :
    IsDiff (Dict.empty.set 2 (bareInstance 2 7)) oneInstance.tasks
      (oneInstance.applyAll (getTransitionEvents oneInstance.instances
        (Dict.empty.set 2 (bareInstance 2 7)) oneInstance.tasks)) := by
  refine ((getTransitionEvents_isDiff_iff oneInstance oneInstance_tasksRefer).1 _).mpr
    (toldByIds_of_filed ?_ ?_ ?_)
  · intro t task ht
    simp only [oneInstance, Dict.get?_set, Dict.get?_empty] at ht
    split at ht
    · rename_i h
      rw [← Option.some.inj ht, h]
    · cases ht
  · intro i a b ha hb
    simp only [oneInstance, Dict.get?_set, Dict.get?_empty] at ha hb
    split at ha
    · rename_i h
      simp [h] at hb
    · cases ha
  · intro i inst hinst _
    simp only [Dict.get?_set, Dict.get?_empty] at hinst
    split at hinst
    · rename_i h
      rw [← Option.some.inj hinst, h]
      rfl
    · cases hinst

/-- A creation under an id that is taken is without effect. -/
theorem getTransitionEvents_not_isDiff :
    TasksRefer oneInstance.instances oneInstance.tasks
      ∧ ¬ IsDiff (addInstanceToPlacements (bareInstance 1 8) oneInstance.instances)
          oneInstance.tasks
          (oneInstance.applyAll (getTransitionEvents oneInstance.instances
            (addInstanceToPlacements (bareInstance 1 8) oneInstance.instances)
            oneInstance.tasks)) := by
  refine ⟨oneInstance_tasksRefer, ?_⟩
  intro h
  have hone := h.instances 1
  revert hone
  decide

end Exo
