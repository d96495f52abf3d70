import Exo.Cluster.Ledger

/-!
# Tasks that only some ranks were sent

The ranks of an instance run their tasks together: a rank that was sent a task waits for the
others to be sent it. Every node sends the task to its own rank when its own planner comes
to it, so a cancellation that lands between two of these leaves one rank waiting.

`Cluster.dispatches` is what keeps that from happening: a task ends in the log while every rank
was sent it or none was, and is sent to no rank after that.
-/

namespace Exo

open Lib (Dict Machine)

/-- The task an event cancels or deletes. -/
def EventBody.ends? : EventBody → Option TaskId
  | .taskStatusUpdated t .cancelled | .taskDeleted t => some t
  | _ => none

/-- The task was cancelled or deleted in the log. -/
def isEnded (log : List EventBody) (t : TaskId) : Bool := log.any (·.ends? = some t)

/-- A runner of this worker was sent the task. -/
def Worker.hasSent (w : Worker) (t : TaskId) : Bool := w.sent.any (·.1.taskId = t)

/-- In the worker's copy of the state the task is cancelled, or it was deleted from it. -/
def Worker.sees (w : Worker) (log : List EventBody) (t : TaskId) : Prop :=
  w.state.status? t = some .cancelled
    ∨ (w.state.tasks.get? t = none ∧ .taskDeleted t ∈ log.take w.applied)

theorem isEnded_iff {log : List EventBody} {t : TaskId} :
    isEnded log t ↔ ∃ e ∈ log, e.ends? = some t := by
  simp [isEnded]

namespace Cluster

/-- All ranks of the task's instance were sent it, if one was. -/
def SentToAll (s : Cluster) (t : TaskId) : Prop :=
  ∀ n w, s.workers.get? n = some w → ∀ p ∈ w.sent, p.1.taskId = t → p.1.isGeneration →
    ∀ m ∈ p.2.shardAssignments.nodeToRunner.keys, ∀ v, s.workers.get? m = some v → v.hasSent t

/--
A generation task that one rank was sent is not over at another rank of the instance that was
not sent it.
-/
def AllOrNone (s : Cluster) : Prop :=
  ∀ n w, s.workers.get? n = some w → ∀ p ∈ w.sent, p.1.isGeneration →
    ∀ m ∈ p.2.shardAssignments.nodeToRunner.keys, ∀ v, s.workers.get? m = some v →
      ¬ v.hasSent p.1.taskId → ¬ v.sees s.log p.1.taskId

/-- The same as `SentToAll`, to be computed. -/
def sentToAll (s : Cluster) (t : TaskId) : Bool :=
  s.workers.values.all fun w => w.sent.all fun p =>
    p.1.taskId ≠ t || !p.1.isGeneration || p.2.shardAssignments.nodeToRunner.keys.all fun m =>
      (s.workers.get? m).all (·.hasSent t)

theorem sentToAll_iff {s : Cluster} {t : TaskId} : s.sentToAll t ↔ s.SentToAll t := by
  simp only [sentToAll, List.all_eq_true, Dict.mem_values, SentToAll, Bool.or_eq_true,
    decide_eq_true_eq, Bool.not_eq_true', Option.all_eq_true]
  constructor
  · intro h n w hw p hp ht hg m hm v hv
    rcases h w ⟨n, hw⟩ p hp with (hne | hng) | hall
    · exact absurd ht hne
    · rw [hng] at hg
      cases hg
    · exact hall m hm v hv
  · rintro h w ⟨n, hw⟩ p hp
    by_cases ht : p.1.taskId = t
    · cases hg : p.1.isGeneration with
      | false => exact .inl (.inr rfl)
      | true => exact .inr (h n w hw p hp ht hg)
    · exact .inl (.inl ht)

/--
The steps that log the end of a task only when every rank was sent it or none was, and that
send no task that ended before.
-/
def dispatches (s : Cluster) : Action → Bool
  | .log source =>
      match (s.next? source).bind EventBody.ends? with
      | some t => s.sentToAll t
      | none => true
  | .worker n (.act _ _) =>
      match (s.workers.get? n).map (·.planner) with
      | some (Planner.announced task) => !task.isGeneration || !isEnded s.log task.taskId
      | _ => true
  | _ => true

/-- What is kept along the runs that dispatch tasks as a whole. -/
structure DispatchInv (s : Cluster) : Prop where
  sound : Sound s
  /-- A task that ended was sent to all ranks or to none. -/
  whole : ∀ t, isEnded s.log t → s.SentToAll t

variable {s s' : Cluster} {t : TaskId}

theorem dispatchInv_init (nodeIds : List NodeId) : DispatchInv (init nodeIds) where
  sound := sound_init nodeIds
  whole := fun t h => by simp [isEnded, init] at h

/-- Only what workers sent matters, and that only grows. -/
theorem SentToAll.mono (h : s.SentToAll t)
    (hw : ∀ n w', s'.workers.get? n = some w' → ∃ w, s.workers.get? n = some w
      ∧ (∀ p ∈ w'.sent, p ∈ w.sent ∨ p.1.taskId ≠ t ∨ ¬ p.1.isGeneration)
      ∧ ∀ p ∈ w.sent, p ∈ w'.sent) : s'.SentToAll t := by
  intro n w' hw' p hp ht hg m hm v' hv'
  obtain ⟨w, hwget, hback, -⟩ := hw n w' hw'
  obtain ⟨v, hvget, -, hforth⟩ := hw m v' hv'
  rcases hback p hp with hp | hne | hng
  · have hsent := h n w hwget p hp ht hg m hm v hvget
    simp only [Worker.hasSent, List.any_eq_true] at hsent ⊢
    obtain ⟨q, hq, hqt⟩ := hsent
    exact ⟨q, hforth q hq, hqt⟩
  · exact absurd ht hne
  · exact absurd hg hng

theorem dispatchInv_step {sha256 : Base64Image → Base64ImageHash} {a : Action}
    (h : DispatchInv s) (hok : s.dispatches a) (hs : s.step sha256 a = some s') :
    DispatchInv s' := by
  refine ⟨sound_step h.sound hs, ?_⟩
  intro t hended
  -- nothing new is sent, in every step but those of a planner
  have hquiet : s.SentToAll t → (∀ n w', s'.workers.get? n = some w' →
      ∃ w, s.workers.get? n = some w ∧ w'.sent = w.sent) → s'.SentToAll t := by
    intro hall hw
    refine hall.mono ?_
    intro n w' hw'
    obtain ⟨w, hget, hsent⟩ := hw n w' hw'
    exact ⟨w, hget, fun p hp => .inl (hsent ▸ hp), fun p hp => hsent ▸ hp⟩
  cases step_cases hs with
  | quiet hlog _ _ _ hw _ =>
      refine hquiet (h.whole t (hlog ▸ hended)) ?_
      intro n w' hw'
      obtain ⟨w, hget, hsame⟩ := hw n w' hw'
      exact ⟨w, hget, hsame.sent⟩
  | executed i taskId command _ _ he =>
      rw [he, issue_log] at hended
      refine hquiet (h.whole t hended) ?_
      rw [he, issue_workers]
      exact fun n w' hw' => ⟨w', hw', rfl⟩
  | logged source body ha hn he =>
      have hlog : s'.log = s.log ++ [body] := by rw [he]; simp [append, takeNext_log]
      have hall : s.SentToAll t := by
        rw [hlog, isEnded_iff] at hended
        obtain ⟨e, hmem, hends⟩ := hended
        rcases List.mem_append.mp hmem with hmem | hmem
        · exact h.whole t (isEnded_iff.2 ⟨e, hmem, hends⟩)
        · -- the event that ends the task is the one that is logged now
          rw [List.mem_singleton.mp hmem] at hends
          subst ha
          simp only [dispatches, hn, Option.bind_some, hends] at hok
          exact sentToAll_iff.1 hok
      refine hquiet hall ?_
      rw [he]
      intro n w' hw'
      obtain ⟨w, hget, hl⟩ := loggedTo hw'
      exact ⟨w, hget, hl.sent⟩
  | applied n w body _ hw hb _ he =>
      subst he
      refine hquiet (h.whole t hended) ?_
      intro m w' hw'
      rcases setWorker_cases hw' with ⟨rfl, rfl⟩ | ⟨-, hw'⟩
      · obtain ⟨-, -, -, -, -, -, h7, -⟩ := applyEvent_books sha256 w body
        exact ⟨w, hw, h7⟩
      · exact ⟨w', hw', rfl⟩
  | worked n b w w' ha _ hw hm he =>
      rw [he, issue_log] at hended
      refine (h.whole t hended).mono ?_
      rw [he, issue_workers]
      intro m v' hv'
      rcases setWorker_cases hv' with ⟨rfl, rfl⟩ | ⟨-, hv'⟩
      · refine ⟨w, hw, ?_, hm.sentBefore⟩
        intro p hp
        rcases hm.sent p hp with hp | ⟨task, ⟨now, found, rfl⟩, hann, hsame⟩
        · exact .inl hp
        · -- a task that ended is not sent any more
          refine .inr ?_
          subst ha
          rw [Worker.announces] at hann
          simp only [dispatches, hw, Option.map_some, hann, Bool.or_eq_true, Bool.not_eq_true'] at hok
          rcases hok with hng | hnot
          · rw [hsame.isGeneration, hng]
            exact .inr (by simp)
          · refine .inl ?_
            intro hpt
            rw [← hsame.taskId, hpt] at hnot
            rw [show isEnded s.log t = true from hended] at hnot
            cases hnot
      · exact ⟨v', hv', fun p hp => .inl hp, fun p hp => hp⟩

/-- What a worker sees as ended has ended in the log. -/
theorem ended_of_sees {n : NodeId} {w : Worker} (h : Sound s) (hw : s.workers.get? n = some w)
    (hsees : w.sees s.log t) : isEnded s.log t := by
  rcases hsees with hstat | ⟨-, hmem⟩
  · rw [(h.workers n w hw).state] at hstat
    obtain ⟨e, he, hsets⟩ := ended_of_status hstat
    have hlog := List.mem_of_mem_take he
    refine isEnded_iff.2 ⟨e, hlog, ?_⟩
    unfold EventBody.sets? at hsets
    split at hsets
    · rename_i t' task
      split at hsets
      · obtain ⟨-, hfl, -⟩ := h.log _ hlog t' task rfl
        rw [Option.some.inj hsets] at hfl
        cases hfl
      · cases hsets
    · split at hsets
      · rename_i ht
        rw [Option.some.inj hsets, ht]
        rfl
      · cases hsets
    · cases hsets
  · exact isEnded_iff.2 ⟨_, List.mem_of_mem_take hmem, rfl⟩

/--
**A generation task is sent to all ranks of its instance or to none**, along every run in which
it is never cancelled or deleted in the log while some ranks were sent it and others were not,
and is sent to no rank after that.
-/
theorem all_or_none (sha256 : Base64Image → Base64ImageHash) (nodeIds : List NodeId)
    {s : Cluster} (h : (machine sha256 nodeIds).ReachableWhen (fun s a => s.dispatches a) s) :
    s.AllOrNone := by
  have hinv := h.invariant (P := DispatchInv) (dispatchInv_init nodeIds)
    fun _ _ _ hi hok hs => dispatchInv_step hi hok hs
  intro n w hw p hp hg m hm v hv hnot hsees
  exact hnot (hinv.whole _ (ended_of_sees hinv.sound hv hsees) n w hw p hp rfl hg m hm v hv)

/-! ## Two nodes -/

/-- An instance of two ranks, one on each node. -/
def duoInstance : Instance where
  instanceId := 100
  shardAssignments :=
    { modelId := 7
      runnerToShard :=
        (Dict.empty.set 11
          { modelId := 7, deviceRank := 0, worldSize := 2, startLayer := 0, endLayer := 4 }).set 12
          { modelId := 7, deviceRank := 1, worldSize := 2, startLayer := 4, endLayer := 8 }
      nodeToRunner := (Dict.empty.set 1 11).set 2 12
      runnersExist := by decide }

/-- A step of the supervisor on a node. -/
def duo (n : NodeId) (a : Supervisor.Action) : Action := .worker n (.runner (10 + n) a)

/-- Both nodes apply some events. -/
def duoApply (k : Nat) : List Action :=
  List.replicate k (.apply 1) ++ List.replicate k (.apply 2)

/-- A node plans something and does it. -/
def duoAct (n : NodeId) (taskId : TaskId) : List Action :=
  [.worker n (.plan 20000 taskId), .worker n (.act 20000 false)]

/-- A node plans a task for its runner and sends it; the runner takes it. -/
def duoStart (n : NodeId) (taskId : TaskId) : List Action :=
  duoAct n taskId
  ++ [duo n .take, duo n .forward, duo n .forward, duo n .forward, .worker n .acknowledged]
  ++ List.replicate 3 (.log (.worker n)) ++ duoApply 3

/-- What both runners are blocked in returns. -/
def duoUnblock : List Action :=
  [duo 1 (.unblock none), duo 2 (.unblock none), duo 1 .forward, duo 1 .forward, duo 2 .forward,
    duo 2 .forward]
  ++ List.replicate 2 (.log (.worker 1)) ++ List.replicate 2 (.log (.worker 2)) ++ duoApply 4

/-- A node creates its runner. -/
def duoCreate (n : NodeId) (taskId : TaskId) : List Action :=
  duoAct n taskId ++ [duo n .boot, duo n .forward] ++ List.replicate 3 (.log (.worker n))

/-- The instance is created, and both runners are brought up until they are ready. -/
def duoReady : List Action :=
  [.submit (.createInstance duoInstance), .execute 0 1000, .log .master] ++ duoApply 1
  ++ duoCreate 1 1001 ++ duoCreate 2 1002
  ++ [.log (.other (.nodeDownloadProgress { nodeId := 1, modelId := 7, state := .completed })),
    .log (.other (.nodeDownloadProgress { nodeId := 2, modelId := 7, state := .completed }))]
  ++ duoApply 8
  ++ duoStart 1 1003 ++ duoStart 2 1004 ++ duoUnblock
  ++ duoStart 1 1005 ++ duoStart 2 1006 ++ duoUnblock
  ++ duoStart 2 1007 ++ duoStart 1 1008 ++ duoUnblock

/-- A client asks for a text; the task is created, and both nodes apply that. -/
def duoRequest : List Action :=
  [.request (.textGeneration 500 7 []), .execute 0 2000, .log .master] ++ duoApply 1

/-- The client cancels the command, and both nodes apply that. -/
def duoCancel : List Action :=
  [.cancelCommand 500, .execute 0 1009, .log .master] ++ duoApply 1

/-- The first rank is sent the task, and then the task is cancelled. -/
def tornDispatch : List Action := duoReady ++ duoRequest ++ duoStart 1 1010 ++ duoCancel

/-- **A rank can be sent a task that another one will never be sent.** -/
theorem not_all_or_none :
    ¬ ∀ (sha256 : Base64Image → Base64ImageHash) (nodeIds : List NodeId) (s : Cluster),
      (machine sha256 nodeIds).Reachable s → s.AllOrNone := by
  intro h
  have hrun : (((machine (fun _ => 0) [1, 2]).run (init [1, 2]) tornDispatch).map fun s =>
      ((s.workers.get? 1).map fun w => w.sent.any fun p => p.1.taskId = 2000 ∧ p.1.isGeneration
          ∧ 2 ∈ p.2.shardAssignments.nodeToRunner.keys,
        (s.workers.get? 2).map fun w => (w.hasSent 2000, w.state.status? 2000)))
      = some (some true, some (false, some .cancelled)) := by
    decide +kernel
  obtain ⟨s, hs, hpair⟩ := Option.map_eq_some_iff.mp hrun
  obtain ⟨h1, h2⟩ := Prod.mk.inj hpair
  obtain ⟨w, hw, hany⟩ := Option.map_eq_some_iff.mp h1
  obtain ⟨v, hv, hve⟩ := Option.map_eq_some_iff.mp h2
  obtain ⟨hnot, hcan⟩ := Prod.mk.inj hve
  obtain ⟨p, hp, hpe⟩ := List.any_eq_true.mp hany
  obtain ⟨hid, hgen, hkey⟩ := of_decide_eq_true hpe
  refine h _ _ s (Machine.reachable_of_run hs) 1 w hw p hp hgen 2 hkey v hv ?_ (.inl (hid ▸ hcan))
  rw [hid, hnot]
  simp

/-- Both ranks are sent the task before it is cancelled. -/
def wholeDispatch : List Action :=
  duoReady ++ duoRequest ++ duoStart 1 1010 ++ duoStart 2 1011 ++ duoCancel

theorem all_or_none_wholeDispatch :
    ∃ s : Cluster, isEnded s.log 2000 ∧ s.AllOrNone := by
  have hrun : (((machine (fun _ => 0) [1, 2]).runWhen (fun s a => s.dispatches a) (init [1, 2])
      wholeDispatch).map fun s => isEnded s.log 2000) = some true := by
    decide +kernel
  obtain ⟨s, hs, hended⟩ := Option.map_eq_some_iff.mp hrun
  exact ⟨s, hended, all_or_none (fun _ => 0) [1, 2] (Machine.reachableWhen_of_run hs)⟩

end Cluster

end Exo
