import Exo.Cluster.Terminal
import Exo.Worker.Ownership

/-!
# Runners whose instance is gone

The status of a runner leaves the state with the `RunnerShutdown` that its process sends last.
A worker gives the supervisor of a runner up as soon as the runner acknowledged its `Shutdown`,
or did not in time, or cannot be sent it, and nothing the process says after that is forwarded.

`Traced` adds the history of what the workers told about their runners. `Traced.partsWell` is
what lets no deleted instance leave a runner behind: a supervisor is given up after it forwarded
`RunnerShutdown`, or when it never forwarded a status.
-/

namespace Exo

open Lib (Dict Machine)

/-- The status of the runner that an event reports. -/
def EventBody.statusOf? (runnerId : RunnerId) : EventBody → Option RunnerStatus
  | .runnerStatusUpdated runnerId' status => if runnerId' = runnerId then some status else none
  | _ => none

/-- The last status of a runner among some events. -/
def lastStatus (events : List EventBody) (runnerId : RunnerId) : Option RunnerStatus :=
  (events.filterMap (·.statusOf? runnerId)).getLast?

/-- The runner has a status or a prefill server in the state. -/
def State.mentions (s : State) (runnerId : RunnerId) : Bool :=
  (s.runners.get? runnerId).isSome || (s.prefillServerPorts.get? runnerId).isSome

/-- Nothing was told about a runner, or that it shut down. -/
def settled (told : Option RunnerStatus) : Bool := told.all (· = .shutdown)

namespace Cluster

/-- The runners an instance was ever created with. -/
def runnersOf (s : Cluster) (instanceId : InstanceId) : List RunnerId :=
  s.log.flatMap fun
    | .instanceCreated inst => if inst.instanceId = instanceId then inst.runnerIds else []
    | _ => []

/-- The runner is one of an instance that was deleted. -/
def departed (s : Cluster) (runnerId : RunnerId) : Bool :=
  s.log.any fun
    | .instanceCreated inst =>
        runnerId ∈ inst.runnerIds
          ∧ (s.processor.state.instances.get? inst.instanceId).isNone
    | _ => false

/-- Every worker is done with the runner, and nothing it sent about it is on its way. -/
def DoneWith (s : Cluster) (runnerId : RunnerId) : Prop :=
  ∀ n w, s.workers.get? n = some w →
    w.handles runnerId = false ∧ ∀ e ∈ w.outbox, e.statusOf? runnerId = none

/-- The copies of the state that are up to date: that of the master, and those of the workers
that applied the whole log. -/
def replicas (s : Cluster) : List State :=
  s.processor.state
    :: ((s.workers.values.filter fun w => w.applied = s.log.length).map (·.state))

/-- **A deleted instance leaves no runner behind**, once every worker is done with it. -/
def Traceless (s : Cluster) : Prop :=
  ∀ inst, .instanceCreated inst ∈ s.log →
    s.processor.state.instances.get? inst.instanceId = none →
      ∀ r ∈ inst.runnerIds, s.DoneWith r → ∀ state ∈ s.replicas,
        state.runners.get? r = none ∧ state.prefillServerPorts.get? r = none

end Cluster

/-- A cluster with what its workers told about their runners. -/
structure Traced where
  cluster : Cluster
  /-- The last status a worker sent of a runner: a history, no step reads it. -/
  told : NodeId → RunnerId → Option RunnerStatus

namespace Traced

/-- What is on its way from a worker to the master. -/
def outboxOf (s : Cluster) (n : NodeId) : List EventBody :=
  ((s.workers.get? n).map (·.outbox)).getD []

/-- A worker sends some events. -/
def tell (t : Traced) (n : NodeId) (events : List EventBody) :
    NodeId → RunnerId → Option RunnerStatus :=
  fun m r => if m = n then (lastStatus events r).or (t.told m r) else t.told m r

/-- What was told once an action has led to this cluster. -/
def toldAfter (t : Traced) (s : Cluster) : Cluster.Action → NodeId → RunnerId → Option RunnerStatus
  | .worker n _ => t.tell n ((outboxOf s n).drop (outboxOf t.cluster n).length)
  | _ => t.told

/-- A step of the cluster, with what the worker that takes it tells. -/
def step (sha256 : Base64Image → Base64ImageHash) (t : Traced) (a : Cluster.Action) :
    Option Traced :=
  (t.cluster.step sha256 a).map fun s => { cluster := s, told := t.toldAfter s a }

def init (nodeIds : List NodeId) : Traced := ⟨Cluster.init nodeIds, fun _ _ => none⟩

def machine (sha256 : Base64Image → Base64ImageHash) (nodeIds : List NodeId) :
    Machine Traced Cluster.Action :=
  ⟨init nodeIds, step sha256⟩

/--
The steps that part with the runners of deleted instances well. A worker that gives up the
supervisor of such a runner told last that the runner shut down, or told nothing about it; and
when the deletion of an instance is logged, so did every worker that does not handle the runner
any more.
-/
def partsWell (t : Traced) : Cluster.Action → Bool
  | .worker n b =>
      match (t.cluster.workers.get? n).bind (·.givesUp? b) with
      | some r => !t.cluster.departed r || settled (t.told n r)
      | none => true
  | .log source =>
      match t.cluster.next? source with
      | some (.instanceDeleted i) =>
          (t.cluster.runnersOf i).all fun r =>
            t.cluster.workers.entries.all fun p => p.2.handles r || settled (t.told p.1 r)
      | _ => true
  | _ => true

end Traced

/-! ## Events and states -/

section Statuses

variable {body : EventBody} {s : State} {r : RunnerId} {events : List EventBody}

theorem lastStatus_append (events events' : List EventBody) (r : RunnerId) :
    lastStatus (events ++ events') r = (lastStatus events' r).or (lastStatus events r) := by
  rw [lastStatus, List.filterMap_append, List.getLast?_append, lastStatus, lastStatus]

theorem lastStatus_cons (body : EventBody) (events : List EventBody) (r : RunnerId) :
    lastStatus (body :: events) r = (lastStatus events r).or (body.statusOf? r) := by
  rw [← List.singleton_append, lastStatus_append]
  congr 1
  cases h : body.statusOf? r <;> simp [lastStatus, h]

theorem lastStatus_eq_none : lastStatus events r = none ↔ ∀ e ∈ events, e.statusOf? r = none := by
  rw [lastStatus, List.getLast?_eq_none_iff, List.filterMap_eq_nil_iff]

theorem EventBody.statusOf?_eq_some {status : RunnerStatus} :
    body.statusOf? r = some status ↔ body = .runnerStatusUpdated r status := by
  unfold statusOf?
  split
  · split
    · rename_i hr
      simp [hr]
    · rename_i hr
      simp [hr]
  · rename_i hno
    simpa using hno r status

/-- **What an event makes of the mention of a runner.** -/
theorem mentions_apply (body : EventBody) (s : State) (r : RunnerId) :
    (body.apply s).mentions r =
      match body.statusOf? r with
      | some status => decide (status ≠ .shutdown)
      | none => s.mentions r := by
  cases body with
  | runnerStatusUpdated r' status =>
      by_cases hr : r' = r
      · subst hr
        simp only [EventBody.statusOf?, if_pos, EventBody.apply, applyRunnerStatusUpdated,
          State.mentions]
        split <;> simp_all
      · have hne : r ≠ r' := fun h => hr h.symm
        simp only [EventBody.statusOf?, if_neg hr, EventBody.apply, applyRunnerStatusUpdated,
          State.mentions]
        split <;> simp [Dict.get?_set_ne _ _ hne, Dict.get?_erase_ne _ hne]
  | taskStatusUpdated taskId status =>
      simp only [EventBody.apply, applyTaskStatusUpdated]
      split <;> rfl
  | taskFailed taskId errorType errorMessage =>
      simp only [EventBody.apply, applyTaskFailed]
      split <;> rfl
  | _ => rfl

/-- A command reports the status of no runner. -/
theorem statusOf?_execute (m : CommandProcessor) (taskId : TaskId) (command : Command)
    (r : RunnerId) : ∀ e ∈ (m.execute taskId command).2, e.statusOf? r = none := by
  have hcreate : ∀ commandId instanceId kind,
      ∀ e ∈ (m.createTask commandId taskId instanceId kind).2, e.statusOf? r = none := by
    intro commandId instanceId kind e he
    unfold CommandProcessor.createTask at he
    split at he
    · cases he
    · rw [List.mem_singleton.mp he]
      rfl
  cases command with
  | textGeneration commandId model imageHashes => exact hcreate _ _ _
  | imageGeneration commandId model => exact hcreate _ _ _
  | imageEdits commandId model total => exact hcreate _ _ _
  | createInstance inst =>
      simp only [CommandProcessor.execute]
      split
      · simp
      · simp [EventBody.statusOf?]
  | deleteInstance instanceId =>
      simp only [CommandProcessor.execute]
      split
      · intro e he
        rcases List.mem_append.mp he with he | he
        · obtain ⟨task, -, rfl⟩ := List.mem_map.mp he
          rfl
        · rw [List.mem_singleton.mp he]
          rfl
      · simp
  | sendInputChunk chunk
  | setInstanceLink link
  | deleteInstanceLink linkId => simp [CommandProcessor.execute, EventBody.statusOf?]
  | taskCancelled commandId | taskFinished commandId =>
      simp only [CommandProcessor.execute]
      split <;> simp [EventBody.statusOf?]

end Statuses

/-! ## Workers -/

namespace Worker

variable {w w' : Worker} {r : RunnerId}

/-- What a worker can report only depends on its supervisors and on its planner. -/
theorem handles_congr (hr : w'.runners = w.runners) (ht : w'.retired = w.retired)
    (hp : w'.planner = w.planner) (r : RunnerId) : w'.handles r = w.handles r := by
  have hstop : w'.stopping? = w.stopping? := by
    unfold stopping?
    rw [ht, hp]
  rw [handles, handles, hr, hstop]

theorem Keyed.congr (h : w.Keyed) (hr : w'.runners = w.runners) (ht : w'.retired = w.retired)
    (hp : w'.planner = w.planner) : w'.Keyed where
  runners := hr ▸ h.runners
  retired := ht ▸ h.retired
  silent := by
    rw [ht, hp]
    exact h.silent

/-- A history is not what a supervisor reports. -/
theorem witness_books (s : Supervisor) (t : TaskId) :
    (s.witness t).boundInstance = s.boundInstance ∧ (s.witness t).runner = s.runner
      ∧ (s.witness t).messages = s.messages ∧ (s.witness t).silent = s.silent := by
  unfold Supervisor.witness
  split <;> exact ⟨rfl, rfl, rfl, rfl⟩

theorem own_witness {s : Supervisor} (h : s.Own) (t : TaskId) : (s.witness t).Own := by
  obtain ⟨hb, hr, hm, -⟩ := witness_books s t
  exact ⟨by rw [hb, hr]; exact h.runner, by rw [hb, hm]; exact h.messages⟩

theorem handles_witness (w : Worker) (t : TaskId) (r : RunnerId) :
    (w.witness t).handles r = w.handles r := by
  have hstop : (w.witness t).stopping? = w.stopping? := by
    unfold stopping? witness
    cases hs : w.retired with
    | nil => simp
    | cons s rest =>
        cases hp : w.planner <;> simp [(witness_books s t).1]
  rw [handles, handles, hstop, witness, Dict.get?_mapValues, Option.isSome_map]

theorem Keyed.witness (h : w.Keyed) (t : TaskId) : (w.witness t).Keyed where
  runners := fun q s' hq => by
    rw [Worker.witness, Dict.get?_mapValues, Option.map_eq_some_iff] at hq
    obtain ⟨s, hs, rfl⟩ := hq
    obtain ⟨hr, ho⟩ := h.runners q s hs
    exact ⟨by rw [(witness_books s t).1]; exact hr, own_witness ho t⟩
  retired := fun s' hs' => by
    obtain ⟨s, hs, rfl⟩ := List.mem_map.mp hs'
    exact own_witness (h.retired s hs) t
  silent := fun i s' hs' => by
    rw [Worker.witness, List.getElem?_map, Option.map_eq_some_iff] at hs'
    obtain ⟨s, hs, rfl⟩ := hs'
    rw [(witness_books s t).2.2.2]
    exact h.silent i s hs

end Worker

namespace Cluster

section Logging

variable {s s' : Cluster} {n : NodeId} {body : EventBody} {source : Source} {w w' : Worker}

/-- A worker once the source has handed its event over. -/
def handOver (source : Source) (n : NodeId) (w : Worker) : Worker :=
  if source = .worker n then { w with outbox := w.outbox.tail } else w

/-- A worker once the event was logged. -/
def noteLogged (body : EventBody) (w : Worker) : Worker :=
  match cancelled? body with
  | some taskId => w.witness taskId
  | none => w

theorem workers_takeNext (s : Cluster) (source : Source) (n : NodeId) :
    (s.takeNext source).workers.get? n = (s.workers.get? n).map (handOver source n) := by
  cases source with
  | worker m =>
      simp only [takeNext]
      by_cases hmn : n = m
      · subst hmn
        cases hw : s.workers.get? n with
        | none => simp [hw]
        | some w => simp [setWorker, handOver]
      · have hne : Source.worker m ≠ .worker n := fun h => hmn (Source.worker.inj h).symm
        have hid : handOver (.worker m) n = id := funext fun w => if_neg hne
        rw [hid, Option.map_id_fun, id]
        split
        · exact Dict.get?_set_ne _ _ hmn
        · rfl
  | master =>
      have hid : handOver .master n = id := funext fun w => if_neg (by simp)
      rw [hid, Option.map_id_fun]
      rfl
  | other body =>
      have hid : handOver (.other body) n = id := funext fun w => if_neg (by simp)
      rw [hid, Option.map_id_fun]
      rfl

/-- **The workers after an event was logged.** -/
theorem workers_logged (s : Cluster) (source : Source) (body : EventBody) (n : NodeId) :
    ((s.takeNext source).append body).workers.get? n
      = (s.workers.get? n).map fun w => noteLogged body (handOver source n w) := by
  rw [append]
  dsimp only
  split
  · rename_i t ht
    rw [Dict.get?_mapValues, workers_takeNext, Option.map_map]
    simp only [noteLogged, ht]
    rfl
  · rename_i ht
    rw [workers_takeNext]
    simp only [noteLogged, ht]

theorem handles_logged (body : EventBody) (source : Source) (n : NodeId) (w : Worker)
    (r : RunnerId) : (noteLogged body (handOver source n w)).handles r = w.handles r := by
  have hover : (handOver source n w).handles r = w.handles r := by
    unfold handOver
    split <;> rfl
  rw [← hover, noteLogged]
  split
  · exact Worker.handles_witness _ _ r
  · rfl

theorem keyed_logged (h : w.Keyed) (body : EventBody) (source : Source) (n : NodeId) :
    (noteLogged body (handOver source n w)).Keyed := by
  have hover : (handOver source n w).Keyed := by
    unfold handOver
    split
    · exact h.congr rfl rfl rfl
    · exact h
  rw [noteLogged]
  split
  · exact hover.witness _
  · exact hover

/-- What was logged has left the outbox of the worker it came from, and no other. -/
theorem outbox_logged (hn : s.next? source = some body) (hw : s.workers.get? n = some w) :
    (source ≠ .worker n ∧ (noteLogged body (handOver source n w)).outbox = w.outbox)
      ∨ (source = .worker n
        ∧ w.outbox = body :: (noteLogged body (handOver source n w)).outbox) := by
  have hnote : (noteLogged body (handOver source n w)).outbox = (handOver source n w).outbox := by
    unfold noteLogged
    split <;> rfl
  rw [hnote, handOver]
  split
  · rename_i hsource
    subst hsource
    rw [next?, hw, Option.bind_some] at hn
    exact .inr ⟨rfl, (List.cons_head?_tail hn).symm⟩
  · rename_i hsource
    exact .inl ⟨hsource, rfl⟩

/-- A status that is logged comes from a worker. -/
theorem worker_of_status {r : RunnerId} {status : RunnerStatus}
    (hout : ∀ e ∈ s.outbox, e.statusOf? r = none) (hn : s.next? source = some body)
    (hb : body.statusOf? r = some status) :
    ∃ n w, source = .worker n ∧ s.workers.get? n = some w := by
  unfold next? at hn
  split at hn
  · rw [hout body (List.mem_of_mem_head? hn)] at hb
    cases hb
  · rename_i n
    obtain ⟨w, hw, -⟩ := Option.bind_eq_some_iff.mp hn
    exact ⟨n, w, rfl, hw⟩
  · split at hn
    · rename_i hother
      rw [Option.some.inj hn, EventBody.statusOf?_eq_some.mp hb] at hother
      cases hother
    · cases hn

/-- A step of a worker, as the worker takes it. -/
theorem worker_of_step {sha256 : Base64Image → Base64ImageHash} {b : Worker.Action}
    (h : s.step sha256 (.worker n b) = some s') :
    ∃ w w', s.workers.get? n = some w ∧ w.step b = some w'
      ∧ s' = (s.setWorker n w').issue (w'.outbox.drop w.outbox.length) := by
  unfold step at h
  split at h
  · obtain ⟨w, hw, h⟩ := Option.bind_eq_some_iff.mp h
    obtain ⟨w', hstep, h⟩ := Option.bind_eq_some_iff.mp h
    exact ⟨w, w', hw, hstep, (Option.some.inj h).symm⟩
  · cases h

end Logging

end Cluster

/-! ## The invariant -/

namespace Traced

/-- What every run keeps that parts well with the runners of deleted instances. -/
structure Inv (t : Traced) : Prop where
  sound : Cluster.Sound t.cluster
  keyed : ∀ n w, t.cluster.workers.get? n = some w → w.Keyed
  /-- The master reports no runner. -/
  outbox : ∀ r, ∀ e ∈ t.cluster.outbox, e.statusOf? r = none
  /-- What is on its way last is what was told last. -/
  told : ∀ n w r status, t.cluster.workers.get? n = some w →
    lastStatus w.outbox r = some status → t.told n r = some status
  /-- A runner that is mentioned is not settled, or the end of it is on its way. -/
  mentioned : ∀ r, t.cluster.processor.state.mentions r → ∃ n w,
    t.cluster.workers.get? n = some w ∧ (settled (t.told n r) = false ∨ lastStatus w.outbox r ≠ none)
  /-- A worker that let go of a departed runner is settled with it. -/
  departed : ∀ r, t.cluster.departed r → ∀ n w, t.cluster.workers.get? n = some w →
    w.handles r ∨ settled (t.told n r)

variable {t : Traced} {s' : Cluster} {a : Cluster.Action}
  {sha256 : Base64Image → Base64ImageHash}

theorem departed_iff {s : Cluster} {r : RunnerId} : s.departed r ↔ ∃ inst,
    .instanceCreated inst ∈ s.log ∧ r ∈ inst.runnerIds
      ∧ s.processor.state.instances.get? inst.instanceId = none := by
  rw [Cluster.departed, List.any_eq_true]
  constructor
  · intro ⟨e, he, h⟩
    split at h
    · rename_i inst
      rw [decide_eq_true_eq, Option.isNone_iff_eq_none] at h
      exact ⟨inst, he, h⟩
    · cases h
  · intro ⟨inst, hmem, h⟩
    exact ⟨_, hmem, by simpa using h⟩

/-- **What is told at the end of such a run is what the claim is about.** -/
theorem Inv.traceless (h : Inv t) : t.cluster.Traceless := by
  intro inst hmem hgone r hr hdone state hstate
  have hdep : t.cluster.departed r := departed_iff.2 ⟨inst, hmem, hr, hgone⟩
  -- every copy that is up to date is the replay of the whole log
  have hsame : state = t.cluster.processor.state := by
    rcases List.mem_cons.mp hstate with rfl | hstate
    · rfl
    · obtain ⟨w, hw, rfl⟩ := List.mem_map.mp hstate
      obtain ⟨hw, hup⟩ := List.mem_filter.mp hw
      obtain ⟨n, hn⟩ := Dict.mem_values.1 hw
      rw [(h.sound.workers n w hn).state, of_decide_eq_true hup, List.take_length,
        h.sound.processor]
  have hno : t.cluster.processor.state.mentions r = false := by
    by_contra hmen
    obtain ⟨n, w, hw, hwhy⟩ := h.mentioned r (by simpa using hmen)
    obtain ⟨hhandles, hout⟩ := hdone n w hw
    rcases hwhy with hnot | hlast
    · rcases h.departed r hdep n w hw with hh | hs
      · rw [hhandles] at hh
        cases hh
      · rw [hnot] at hs
        cases hs
    · exact hlast (lastStatus_eq_none.2 hout)
  rw [State.mentions, Bool.or_eq_false_iff] at hno
  rw [hsame]
  exact ⟨Option.not_isSome_iff_eq_none.mp (by simp [hno.1]),
    Option.not_isSome_iff_eq_none.mp (by simp [hno.2])⟩

theorem inv_init (nodeIds : List NodeId) : Inv (init nodeIds) where
  sound := Cluster.sound_init nodeIds
  keyed := fun n w hw => by
    rw [Cluster.init_workers hw]
    exact Worker.keyed_init n
  outbox := by simp [init, Cluster.init]
  told := fun n w r status hw hlast => by
    rw [Cluster.init_workers hw] at hlast
    cases hlast
  mentioned := fun r hr => by cases hr
  departed := fun r hr => by cases hr

/-- A step after which the same is told, and the state and the log are the same. -/
theorem Inv.unmoved (h : Inv t) (hsound : Cluster.Sound s')
    (hlog : s'.log = t.cluster.log) (hstate : s'.processor.state = t.cluster.processor.state)
    (hout : ∀ r, ∀ e ∈ s'.outbox, e.statusOf? r = none)
    (hback : ∀ n w', s'.workers.get? n = some w' → ∃ w, t.cluster.workers.get? n = some w
      ∧ w'.runners = w.runners ∧ w'.retired = w.retired ∧ w'.planner = w.planner
      ∧ w'.outbox = w.outbox)
    (hforth : ∀ n w, t.cluster.workers.get? n = some w → ∃ w', s'.workers.get? n = some w') :
    Inv { t with cluster := s' } where
  sound := hsound
  keyed := fun n w' hw' => by
    obtain ⟨w, hw, hr, ht, hp, -⟩ := hback n w' hw'
    exact (h.keyed n w hw).congr hr ht hp
  outbox := hout
  told := fun n w' r status hw' hlast => by
    obtain ⟨w, hw, -, -, -, ho⟩ := hback n w' hw'
    exact h.told n w r status hw (ho ▸ hlast)
  mentioned := fun r hr => by
    obtain ⟨n, w, hw, hwhy⟩ := h.mentioned r (hstate ▸ hr)
    obtain ⟨w', hw'⟩ := hforth n w hw
    obtain ⟨v, hv, -, -, -, ho⟩ := hback n w' hw'
    rw [hw] at hv
    obtain rfl := Option.some.inj hv
    exact ⟨n, w', hw', by rw [ho]; exact hwhy⟩
  departed := fun r hr n w' hw' => by
    obtain ⟨w, hw, hrun, ht, hp, -⟩ := hback n w' hw'
    rw [Worker.handles_congr hrun ht hp]
    refine h.departed r ?_ n w hw
    rw [Cluster.departed, hlog, hstate] at hr
    exact hr

/-- An event is logged. -/
theorem Inv.logged {source : Source} {body : EventBody} (h : Inv t)
    (hsound : Cluster.Sound ((t.cluster.takeNext source).append body))
    (hok : t.partsWell (.log source)) (hn : t.cluster.next? source = some body) :
    Inv { t with cluster := (t.cluster.takeNext source).append body } where
  sound := hsound
  keyed := fun n w' hw' => by
    rw [Cluster.workers_logged, Option.map_eq_some_iff] at hw'
    obtain ⟨w, hw, rfl⟩ := hw'
    exact Cluster.keyed_logged (h.keyed n w hw) body source n
  outbox := fun r e he => h.outbox r e (Cluster.mem_takeNext_outbox he)
  told := fun n w' r status hw' hlast => by
    rw [Cluster.workers_logged, Option.map_eq_some_iff] at hw'
    obtain ⟨w, hw, rfl⟩ := hw'
    refine h.told n w r status hw ?_
    rcases Cluster.outbox_logged hn hw with ⟨-, ho⟩ | ⟨-, ho⟩
    · exact ho ▸ hlast
    · rw [ho, lastStatus_cons, hlast, Option.some_or]
  mentioned := fun r hr => by
    have hstate : ((t.cluster.takeNext source).append body).processor.state
        = body.apply t.cluster.processor.state := by
      simp only [Cluster.append, Cluster.takeNext_processor]
    dsimp only at hr
    rw [hstate, mentions_apply] at hr
    -- the worker that makes up for the mention, after the event was logged
    have hafter : ∀ n w, t.cluster.workers.get? n = some w →
        (settled (t.told n r) = false
          ∨ lastStatus (Cluster.noteLogged body (Cluster.handOver source n w)).outbox r ≠ none) →
        ∃ n w', ((t.cluster.takeNext source).append body).workers.get? n = some w'
          ∧ (settled (t.told n r) = false ∨ lastStatus w'.outbox r ≠ none) := fun n w hw hwhy =>
      ⟨n, _, by rw [Cluster.workers_logged, hw, Option.map_some], hwhy⟩
    cases hb : body.statusOf? r with
    | none =>
        rw [hb] at hr
        obtain ⟨n, w, hw, hwhy⟩ := h.mentioned r hr
        refine hafter n w hw (hwhy.imp_right fun hlast => ?_)
        rcases Cluster.outbox_logged hn hw with ⟨-, ho⟩ | ⟨-, ho⟩
        · rw [ho]
          exact hlast
        · rw [ho, lastStatus_cons, hb, Option.or_none] at hlast
          exact hlast
    | some status =>
        rw [hb] at hr
        obtain ⟨n, w, hsource, hw⟩ := Cluster.worker_of_status (h.outbox r) hn hb
        refine hafter n w hw ?_
        rcases Cluster.outbox_logged hn hw with ⟨hne, -⟩ | ⟨-, ho⟩
        · exact absurd hsource hne
        · -- what was logged is what was told last, or something later is on its way
          cases hrest : lastStatus (Cluster.noteLogged body
              (Cluster.handOver source n w)).outbox r with
          | some later => exact .inr (by simp)
          | none =>
              refine .inl ?_
              have hlast : lastStatus w.outbox r = some status := by
                rw [ho, lastStatus_cons, hrest, hb, Option.none_or]
              rw [h.told n w r status hw hlast, settled, Option.all_some]
              simpa using hr
  departed := fun r hr n w' hw' => by
    rw [Cluster.workers_logged, Option.map_eq_some_iff] at hw'
    obtain ⟨w, hw, rfl⟩ := hw'
    rw [Cluster.handles_logged]
    obtain ⟨inst, hmem, hrun, hgone⟩ := departed_iff.1 hr
    have hlog : ((t.cluster.takeNext source).append body).log = t.cluster.log ++ [body] := by
      simp only [Cluster.append, Cluster.takeNext_log]
    have hstate : ((t.cluster.takeNext source).append body).processor.state
        = body.apply t.cluster.processor.state := by
      simp only [Cluster.append, Cluster.takeNext_processor]
    dsimp only at hmem hgone
    rw [hstate] at hgone
    -- what is created now is there now
    have hbefore : .instanceCreated inst ∈ t.cluster.log := by
      rw [hlog, List.mem_append, List.mem_singleton] at hmem
      rcases hmem with hmem | rfl
      · exact hmem
      · simp [instances_apply] at hgone
    cases hthere : t.cluster.processor.state.instances.get? inst.instanceId with
    | none => exact h.departed r (departed_iff.2 ⟨inst, hbefore, hrun, hthere⟩) n w hw
    | some old =>
        -- the instance goes with this event
        have hdeleted : body = .instanceDeleted inst.instanceId := by
          by_contra hne
          have := isSome_instances_apply (by rw [hthere]; rfl) hne
          rw [hgone] at this
          cases this
        subst hdeleted
        rw [partsWell, hn] at hok
        dsimp only at hok
        rw [List.all_eq_true] at hok
        have hof : r ∈ t.cluster.runnersOf inst.instanceId :=
          List.mem_flatMap.mpr ⟨_, hbefore, by simpa using hrun⟩
        have hall := List.all_eq_true.mp (hok r hof) (n, w) (Dict.mem_entries.2 hw)
        simpa using hall

/-- A worker takes a step. -/
theorem Inv.worked {n : NodeId} {b : Worker.Action} (h : Inv t)
    (hok : t.partsWell (.worker n b)) (hs : t.cluster.step sha256 (.worker n b) = some s') :
    Inv { cluster := s'
          told := t.tell n ((outboxOf s' n).drop (outboxOf t.cluster n).length) } := by
  obtain ⟨w, w', hw, hstep, rfl⟩ := Cluster.worker_of_step hs
  have htracks := (h.keyed n w hw).step_tracks hstep
  obtain ⟨events, hout, hreport⟩ := htracks.outbox
  have hget : ∀ m, ((t.cluster.setWorker n w').issue
      (w'.outbox.drop w.outbox.length)).workers.get? m
        = if m = n then some w' else t.cluster.workers.get? m := fun m => by
    rw [Cluster.issue_workers]
    exact Dict.get?_set _ _ _ _
  have hnew : (outboxOf ((t.cluster.setWorker n w').issue (w'.outbox.drop w.outbox.length)) n).drop
      (outboxOf t.cluster n).length = events := by
    rw [outboxOf, outboxOf, hget, if_pos rfl, hw, Option.map_some, Option.map_some,
      Option.getD_some, Option.getD_some, hout, List.drop_left]
  rw [hnew]
  have htell : ∀ r, t.tell n events n r = (lastStatus events r).or (t.told n r) := fun r =>
    if_pos rfl
  have hother : ∀ m r, m ≠ n → t.tell n events m r = t.told m r := fun m r hm => if_neg hm
  exact {
    sound := Cluster.sound_step h.sound hs
    keyed := fun m v hv => by
      rw [hget] at hv
      split at hv
      · exact Option.some.inj hv ▸ htracks.keyed
      · exact h.keyed m v hv
    outbox := by
      rw [Cluster.issue_outbox]
      exact h.outbox
    told := fun m v r status hv hlast => by
      rw [hget] at hv
      split at hv
      · rename_i hm
        subst hm
        rw [← Option.some.inj hv, hout, lastStatus_append] at hlast
        dsimp only
        rw [htell]
        cases he : lastStatus events r with
        | some new =>
            rw [he] at hlast
            exact hlast
        | none =>
            rw [he, Option.none_or] at hlast
            exact h.told m w r status hw hlast
      · rename_i hm
        dsimp only
        rw [hother m r hm]
        exact h.told m v r status hv hlast
    mentioned := fun r hr => by
      dsimp only at hr ⊢
      rw [Cluster.issue_processor] at hr
      obtain ⟨m, v, hv, hwhy⟩ := h.mentioned r hr
      by_cases hm : m = n
      · subst hm
        rw [hw] at hv
        obtain rfl := Option.some.inj hv
        refine ⟨m, w', by rw [hget, if_pos rfl], ?_⟩
        rw [htell, hout, lastStatus_append]
        cases he : lastStatus events r with
        | some new => exact .inr (by simp)
        | none => exact hwhy
      · exact ⟨m, v, by rw [hget, if_neg hm]; exact hv, by rw [hother m r hm]; exact hwhy⟩
    departed := fun r hr m v hv => by
      have hdep : t.cluster.departed r := by
        rw [Cluster.departed, Cluster.issue_log, Cluster.issue_processor] at hr
        exact hr
      rw [hget] at hv
      dsimp only
      split at hv
      · rename_i hm
        subst hm
        obtain rfl := Option.some.inj hv
        rw [htell]
        cases he : lastStatus events r with
        | some new =>
            -- what reports the runner handles it
            have hne : lastStatus events r ≠ none := by rw [he]; simp
            rw [Ne, lastStatus_eq_none] at hne
            push Not at hne
            obtain ⟨e, hmem, hstatus⟩ := hne
            obtain ⟨status, hstatus⟩ := Option.ne_none_iff_exists'.mp hstatus
            rw [EventBody.statusOf?_eq_some] at hstatus
            exact .inl (hreport r status (hstatus ▸ hmem))
        | none =>
            rcases h.departed r hdep m w hw with hhandles | hsettled
            · rcases htracks.handles r hhandles with hkeep | hgives
              · exact .inl hkeep
              · refine .inr ?_
                simp only [partsWell, hw, Option.bind_some, hgives, hdep] at hok
                simpa using hok
            · exact .inr hsettled
      · rename_i hm
        rw [hother m r hm]
        exact h.departed r hdep m v hv }

/-- **A step that parts well keeps the invariant.** -/
theorem Inv.step {t' : Traced} (h : Inv t) (hok : t.partsWell a)
    (hs : t.step sha256 a = some t') : Inv t' := by
  obtain ⟨s', hstep, rfl⟩ := Option.map_eq_some_iff.mp hs
  by_cases hwork : ∃ n b, a = .worker n b
  · obtain ⟨n, b, rfl⟩ := hwork
    exact h.worked hok hstep
  · have hsound := Cluster.sound_step h.sound hstep
    have htold : t.toldAfter s' a = t.told := by
      cases a with
      | worker n b => exact absurd ⟨n, b, rfl⟩ hwork
      | _ => rfl
    rw [htold]
    cases Cluster.step_cases hstep with
    | quiet hlog hout _ hproc hw hw' =>
        refine h.unmoved hsound hlog (by rw [hproc]) (hout ▸ h.outbox) (fun n w' hget => ?_)
          fun n w hget => ?_
        · obtain ⟨w, hold, hsame⟩ := hw n w' hget
          exact ⟨w, hold, hsame.runners, hsame.retired, hsame.planner, hsame.outbox⟩
        · obtain ⟨w', hnew, -⟩ := hw' n w hget
          exact ⟨w', hnew⟩
    | executed i taskId command _ _ he =>
        subst he
        refine h.unmoved hsound (by rw [Cluster.issue_log]) ?_ (fun r e hmem => ?_)
          (fun n w' hget => ?_) fun n w hget => ⟨w, by rw [Cluster.issue_workers]; exact hget⟩
        · rw [Cluster.issue_processor]
          exact (t.cluster.processor.execute_cases taskId command).1
        · rw [Cluster.issue_outbox] at hmem
          rcases List.mem_append.mp hmem with hmem | hmem
          · exact h.outbox r e hmem
          · exact statusOf?_execute _ _ _ r e hmem
        · rw [Cluster.issue_workers] at hget
          exact ⟨w', hget, rfl, rfl, rfl, rfl⟩
    | logged source body ha hn he =>
        subst ha he
        exact h.logged hsound hok hn
    | applied n w body _ hw _ _ he =>
        subst he
        obtain ⟨-, -, hrun, hret, hout, hp, -, -⟩ := Cluster.applyEvent_books sha256 w body
        refine h.unmoved hsound rfl rfl h.outbox (fun m v hv => ?_) fun m v hv => ?_
        · rcases Cluster.setWorker_cases hv with ⟨rfl, rfl⟩ | ⟨-, hv⟩
          · exact ⟨w, hw, hrun, hret, hp, hout⟩
          · exact ⟨v, hv, rfl, rfl, rfl, rfl⟩
        · rw [Cluster.setWorker, Dict.get?_set]
          split
          · exact ⟨_, rfl⟩
          · exact ⟨v, hv⟩
    | worked n b w w' ha _ _ _ _ => exact absurd ⟨n, b, ha⟩ hwork

/--
**Deleted instances leave no runner behind**, along every run that gives up the supervisors of
their runners only after they forwarded `RunnerShutdown`, or nothing at all.
-/
theorem traceless_of_partsWell (sha256 : Base64Image → Base64ImageHash) (nodeIds : List NodeId)
    {t : Traced} (h : (machine sha256 nodeIds).ReachableWhen (fun t a => t.partsWell a) t) :
    t.cluster.Traceless :=
  (h.invariant (P := Inv) (inv_init nodeIds) fun _ _ _ hi hok hs => hi.step hok hs).traceless

end Traced

/-! ## A node that lets its runner go -/

namespace Cluster

theorem doneWith_iff {s : Cluster} {r : RunnerId} : s.DoneWith r ↔ s.workers.entries.all fun p =>
    !p.2.handles r && p.2.outbox.all fun e => e.statusOf? r = none := by
  simp only [DoneWith, List.all_eq_true, Prod.forall, Dict.mem_entries, Bool.and_eq_true,
    Bool.not_eq_true', decide_eq_true_eq]

/-- The runner is up when its instance is deleted; it acknowledges that it shuts down. -/
def soloDeparting : List Action :=
  [.submit (.createInstance soloInstance), .execute 0 1000, .log .master, .apply 1,
    .worker 1 (.plan 20000 1001), .worker 1 (.act 20000 false), solo .boot, solo .forward]
  ++ soloSettle 3
  ++ [.submit (.deleteInstance 100), .execute 0 1005, .log .master, .apply 1,
    .worker 1 (.plan 30000 1006), .worker 1 (.act 30000 false)]
  ++ [.take, .forward, .forward, .forward].map fun a => .worker 1 (.retired 0 a)

/-- The worker gives the runner up right after the acknowledgement. -/
def soloAbrupt : List Action := soloDeparting ++ [.worker 1 .acknowledged] ++ soloSettle 3

/-- The runner comes to its end before the worker sees the acknowledgement. -/
def soloOrderly : List Action :=
  soloDeparting ++ [.unblock none, .forward, .forward].map (fun a => .worker 1 (.retired 0 a))
  ++ [.worker 1 .acknowledged] ++ soloSettle 5

/-- **A deleted instance can leave a runner behind.** -/
theorem not_forall_traceless :
    ¬ ∀ (sha256 : Base64Image → Base64ImageHash) (nodeIds : List NodeId) (s : Cluster),
      (machine sha256 nodeIds).Reachable s → s.Traceless := by
  intro h
  have hrun : (((machine (fun _ => 0) [1]).run (init [1]) soloAbrupt).map fun s =>
      (s.log.head?, s.processor.state.instances.get? 100, s.processor.state.runners.get? 11,
        s.workers.entries.all fun p =>
          !p.2.handles 11 && p.2.outbox.all fun e => e.statusOf? 11 = none))
      = some (some (.instanceCreated soloInstance), none, some .shuttingDown, true) := by
    decide +kernel
  obtain ⟨s, hs, hfacts⟩ := Option.map_eq_some_iff.mp hrun
  obtain ⟨hlog, hfacts⟩ := Prod.mk.inj hfacts
  obtain ⟨hgone, hfacts⟩ := Prod.mk.inj hfacts
  obtain ⟨hleft, hdone⟩ := Prod.mk.inj hfacts
  have := h _ _ s (Machine.reachable_of_run hs) soloInstance (List.mem_of_mem_head? hlog) hgone 11
    (by decide) (doneWith_iff.mpr hdone) s.processor.state List.mem_cons_self
  rw [hleft] at this
  cases this.1

end Cluster

namespace Traced

theorem traceless_of_partsWell_orderly : ∃ t : Traced,
    t.cluster.log.head? = some (.instanceCreated Cluster.soloInstance)
      ∧ t.cluster.processor.state.instances.get? 100 = none ∧ t.cluster.Traceless := by
  have hrun : (((machine (fun _ => 0) [1]).runWhen (fun t a => t.partsWell a) (init [1])
      Cluster.soloOrderly).map fun t =>
        (t.cluster.log.head?, t.cluster.processor.state.instances.get? 100))
      = some (some (.instanceCreated Cluster.soloInstance), none) := by
    decide +kernel
  obtain ⟨t, ht, hfacts⟩ := Option.map_eq_some_iff.mp hrun
  obtain ⟨hlog, hgone⟩ := Prod.mk.inj hfacts
  exact ⟨t, hlog, hgone,
    traceless_of_partsWell (fun _ => 0) [1] (Machine.reachableWhen_of_run ht)⟩

/-- **The history is of every run**: a run of the cluster is one of the traced cluster. -/
theorem reachable_cluster_iff {sha256 : Base64Image → Base64ImageHash} {nodeIds : List NodeId}
    {s : Cluster} : (Cluster.machine sha256 nodeIds).Reachable s
      ↔ ∃ t, (machine sha256 nodeIds).Reachable t ∧ t.cluster = s := by
  constructor
  · intro h
    induction h with
    | init => exact ⟨init nodeIds, .init, rfl⟩
    | @tail s s' a _ hstep ih =>
        obtain ⟨t, ht, rfl⟩ := ih
        have hstep : t.cluster.step sha256 a = some s' := hstep
        refine ⟨{ cluster := s', told := t.toldAfter s' a }, ht.tail (a := a) ?_, rfl⟩
        show t.step sha256 a = _
        rw [step, hstep, Option.map_some]
  · intro ⟨t, h, ht⟩
    subst ht
    induction h with
    | init => exact .init
    | @tail t t' a _ hstep ih =>
        obtain ⟨s', hs, rfl⟩ := Option.map_eq_some_iff.mp hstep
        exact ih.tail (a := a) hs

end Traced

end Exo
