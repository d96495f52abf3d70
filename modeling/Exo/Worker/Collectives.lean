import Mathlib.Data.List.Dedup
import Mathlib.Data.List.MinMax
import Mathlib.Order.Nat
import Mathlib.Data.List.Sort
import Exo.Lib.Process
import Exo.Shared.Types

/-!
# What the ranks of an instance agree on

Every rank hears of tasks and cancellations on its own. Before it acts on them it
asks the others, through collectives that all ranks take part in, and acts on what
every rank has heard of.
-/

namespace Exo

open Lib

/-- The hidden state a rank hands to the next one in one call of the model. -/
structure Hidden where
  call : Nat
  tokens : Nat
  deriving DecidableEq, Repr

/-- What a rank contributes to a collective. -/
inductive Contribution where
  | barrier
  | flag (b : Bool)
  | count (n : Nat)
  | taskIds (ids : List TaskId)
  | hidden (h : Hidden)
  deriving DecidableEq, Repr

/-- A rank of the group. -/
abbrev Rank := Proc Hidden Contribution

def Contribution.isTrue : Contribution → Bool
  | .flag b => b
  | _ => false

def Contribution.toCount : Contribution → Nat
  | .count n => n
  | _ => 0

def Contribution.toTaskIds : Contribution → List TaskId
  | .taskIds ids => ids
  | _ => []

/-- `mx_barrier`. -/
def mxBarrier : Rank Unit := .gather .barrier fun _ => pure ()

/-- `mx_any`: whether some rank says so. -/
def mxAny (b : Bool) : Rank Bool := .gather (.flag b) fun vs => pure (vs.any Contribution.isTrue)

/-- The tasks that every rank has, in the order of their ids, and the rest. -/
def splitAgreed (tasks : List TaskId) (allTaskIds : List (List TaskId)) :
    List TaskId × List TaskId :=
  let agreed := fun tid => allTaskIds.all fun tids => tids.contains tid
  ((tasks.filter agreed).dedup.mergeSort (· ≤ ·), tasks.filter fun tid => !agreed tid)

variable {tasks : List TaskId}

/-- A list without repetition is split into what is agreed on and the rest. -/
theorem perm_splitAgreed (p : TaskId → Bool) (hn : tasks.Nodup) :
    ((tasks.filter fun t => !p t) ++ (tasks.filter p).dedup.mergeSort (· ≤ ·)).Perm tasks := by
  have hagreed : ((tasks.filter p).dedup.mergeSort (· ≤ ·)).Perm (tasks.filter p) := by
    rw [List.dedup_eq_self.mpr (hn.filter p)]
    exact List.mergeSort_perm _ _
  exact (List.perm_append_comm.trans (hagreed.append_right _)).trans
    (List.filter_append_perm p tasks)

variable {allTaskIds : List (List TaskId)}

theorem mem_splitAgreed_fst {t : TaskId} :
    t ∈ (splitAgreed tasks allTaskIds).1 ↔ t ∈ tasks ∧ ∀ tids ∈ allTaskIds, t ∈ tids := by
  simp [splitAgreed]

theorem mem_splitAgreed_snd {t : TaskId} :
    t ∈ (splitAgreed tasks allTaskIds).2 ↔ t ∈ tasks ∧ ¬ ∀ tids ∈ allTaskIds, t ∈ tids := by
  simp [splitAgreed]

/-- All ranks get the same agreed tasks in the same order. -/
theorem splitAgreed_fst_congr {tasks tasks' : List TaskId}
    (h : tasks ∈ allTaskIds) (h' : tasks' ∈ allTaskIds) :
    (splitAgreed tasks allTaskIds).1 = (splitAgreed tasks' allTaskIds).1 := by
  have hnodup : ∀ ts, (splitAgreed ts allTaskIds).1.Nodup := fun ts =>
    (List.mergeSort_perm _ _).nodup_iff.mpr (List.nodup_dedup _)
  have hsorted : ∀ ts, (splitAgreed ts allTaskIds).1.Pairwise (· ≤ ·) := fun ts =>
    List.pairwise_mergeSort' (· ≤ ·) _
  have hperm : (splitAgreed tasks allTaskIds).1.Perm (splitAgreed tasks' allTaskIds).1 := by
    refine (List.perm_ext_iff_of_nodup (hnodup _) (hnodup _)).mpr fun t => ?_
    rw [mem_splitAgreed_fst, mem_splitAgreed_fst]
    exact ⟨fun ht => ⟨ht.2 _ h', ht.2⟩, fun ht => ⟨ht.2 _ h, ht.2⟩⟩
  exact hperm.eq_of_pairwise' (hsorted _) (hsorted _)

/-- `mx_all_gather_tasks`: nothing is gathered when no rank has a task. -/
def mxAllGatherTasks (tasks : List TaskId) : Rank (List TaskId × List TaskId) :=
  .gather (.count tasks.length) fun counts =>
    if (counts.map Contribution.toCount).foldr max 0 = 0 then pure ([], [])
    else .gather (.taskIds tasks) fun gathered =>
      pure (splitAgreed tasks (gathered.map Contribution.toTaskIds))

/-- The part of an engine that agrees with the other ranks. -/
structure Agreements where
  cancelledTasks : List TaskId := []
  maybeQueue : List TaskId := []
  maybeCancel : List TaskId := []
  allTasks : List TaskId := []
  queue : List TaskId := []
  /-- What `cancel_receiver.collect()` returns, one time after the other. -/
  cancelReceiver : List (List TaskId) := []
  deriving DecidableEq, Repr

namespace Agreements

/-- `should_cancel`. -/
def shouldCancel (a : Agreements) (taskId : TaskId) : Bool :=
  a.cancelledTasks.contains taskId || a.cancelledTasks.contains CANCEL_ALL_TASKS

/-- `agree_on_tasks`. -/
def agreeOnTasks (a : Agreements) : Rank Agreements := do
  let (agreed, different) ← mxAllGatherTasks a.maybeQueue
  pure { a with queue := a.queue ++ agreed, maybeQueue := different }

/-- The known tasks among the collected cancellations wait for the other ranks. -/
def collect (a : Agreements) : Agreements × Bool :=
  let collected := a.cancelReceiver.head?.getD []
  ({ a with
      cancelReceiver := a.cancelReceiver.tail
      maybeCancel := a.maybeCancel
        ++ collected.filter fun tid => tid ≠ CANCEL_ALL_TASKS && a.allTasks.contains tid },
    collected.contains CANCEL_ALL_TASKS)

/-- `agree_on_cancellations`. -/
def agreeOnCancellations (a : Agreements) : Rank Agreements := do
  let (a, hasCancelAll) := a.collect
  let cancelAll ← mxAny hasCancelAll
  let a := if cancelAll then
    { a with cancelledTasks := a.cancelledTasks.insert CANCEL_ALL_TASKS } else a
  let (agreed, different) ← mxAllGatherTasks a.maybeCancel
  pure { a with
    cancelledTasks := agreed.foldl (fun s t => s.insert t) a.cancelledTasks
    maybeCancel := different }

/-- `distributed_prompt_progress_callback`, and whether it raises `PrefillCancelled`. -/
def promptProgressCallback (a : Agreements) (taskId : TaskId) : Rank (Agreements × Bool) := do
  let a ← a.agreeOnCancellations
  if a.shouldCancel taskId then pure (a, true)
  else
    let a ← a.agreeOnTasks
    pure (a, false)

/-! ## What the others can change -/

/-- What a round of `agree_on_tasks` makes of the queues. -/
structure Requeues (a a' : Agreements) : Prop where
  cancelledTasks : a'.cancelledTasks = a.cancelledTasks
  maybeCancel : a'.maybeCancel = a.maybeCancel
  allTasks : a'.allTasks = a.allTasks
  cancelReceiver : a'.cancelReceiver = a.cancelReceiver
  /-- No task is lost and none comes twice. -/
  queued : a.maybeQueue.Nodup →
    (a'.maybeQueue ++ a'.queue).Perm (a.maybeQueue ++ a.queue)
  /-- Agreed tasks go to the end of the queue. -/
  appended : ∃ agreed, a'.queue = a.queue ++ agreed

/-- What a round of `agree_on_cancellations` makes of the cancellations. -/
structure Cancels (a a' : Agreements) : Prop where
  queue : a'.queue = a.queue
  maybeQueue : a'.maybeQueue = a.maybeQueue
  allTasks : a'.allTasks = a.allTasks
  /-- A cancellation is of everything or of a known task. -/
  cancelledTasks : ∀ t ∈ a'.cancelledTasks, t ∈ a.cancelledTasks ∨ t = CANCEL_ALL_TASKS
    ∨ t ∈ a.maybeCancel ∨ t ∈ a.allTasks
  maybeCancel : ∀ t ∈ a'.maybeCancel, t ∈ a.maybeCancel ∨ t ∈ a.allTasks
  kept : ∀ t ∈ a.cancelledTasks, t ∈ a'.cancelledTasks

theorem ensures_mxAny (b : Bool) {Q : Bool → Prop} (h : ∀ b', Q b') : (mxAny b).Ensures Q :=
  fun _ _ => h _

theorem ensures_mxAllGatherTasks (tasks : List TaskId) :
    (mxAllGatherTasks tasks).Ensures fun r => ∃ p : TaskId → Bool,
      r = ((tasks.filter p).dedup.mergeSort (· ≤ ·), tasks.filter fun t => !p t) := by
  intro counts hc
  by_cases h0 : (counts.map Contribution.toCount).foldr max 0 = 0
  · -- the own count is among the counts
    have hlen : tasks.length ≤ (counts.map Contribution.toCount).foldr max 0 :=
      List.le_max_of_le (List.mem_map_of_mem (f := Contribution.toCount) hc) le_rfl
    have hnil : tasks = [] := List.length_eq_zero_iff.mp (by omega)
    simp only [if_pos h0]
    exact ⟨fun _ => true, by simp [hnil]⟩
  · simp only [if_neg h0]
    exact fun gathered _ => ⟨_, rfl⟩

theorem ensures_agreeOnTasks (a : Agreements) : a.agreeOnTasks.Ensures a.Requeues := by
  refine Proc.Ensures.bind ((ensures_mxAllGatherTasks a.maybeQueue).mono ?_)
  rintro _ ⟨p, rfl⟩
  refine ⟨rfl, rfl, rfl, rfl, fun hn => ?_, _, rfl⟩
  show ((a.maybeQueue.filter fun t => !p t)
    ++ (a.queue ++ (a.maybeQueue.filter p).dedup.mergeSort (· ≤ ·))).Perm _
  refine (List.perm_append_comm.append_left _).trans ?_
  rw [← List.append_assoc]
  exact (perm_splitAgreed p hn).append_right _

theorem mem_foldl_insert (ids : List TaskId) (s : List TaskId) (t : TaskId) :
    t ∈ ids.foldl (fun s t => s.insert t) s ↔ t ∈ s ∨ t ∈ ids := by
  induction ids generalizing s with
  | nil => simp
  | cons x ids ih =>
      rw [List.foldl_cons, ih, List.mem_insert_iff, List.mem_cons]
      tauto

theorem ensures_agreeOnCancellations (a : Agreements) :
    a.agreeOnCancellations.Ensures a.Cancels := by
  -- what waits for the others was waiting before or is known
  have hmaybe : ∀ t ∈ a.collect.1.maybeCancel, t ∈ a.maybeCancel ∨ t ∈ a.allTasks := by
    intro t ht
    rcases List.mem_append.mp ht with h | h
    · exact .inl h
    · have := (List.mem_filter.mp h).2
      simp only [Bool.and_eq_true, List.contains_iff_mem] at this
      exact .inr this.2
  refine Proc.Ensures.bind (ensures_mxAny _ fun cancelAll => ?_)
  refine Proc.Ensures.bind ((ensures_mxAllGatherTasks _).mono ?_)
  rintro _ ⟨p, rfl⟩
  cases cancelAll with
  | false =>
      refine ⟨rfl, rfl, rfl, fun t ht => ?_, fun t ht => hmaybe t (List.mem_of_mem_filter ht),
        fun t ht => (mem_foldl_insert _ _ t).mpr (.inl ht)⟩
      rcases (mem_foldl_insert _ _ t).mp ht with h | h
      · exact .inl h
      · simp only [List.mem_mergeSort, List.mem_dedup] at h
        exact .inr (.inr (hmaybe t (List.mem_of_mem_filter h)))
  | true =>
      refine ⟨rfl, rfl, rfl, fun t ht => ?_, fun t ht => hmaybe t (List.mem_of_mem_filter ht),
        fun t ht => (mem_foldl_insert _ _ t).mpr (.inl (List.mem_insert_of_mem ht))⟩
      rcases (mem_foldl_insert _ _ t).mp ht with h | h
      · rcases List.mem_insert_iff.mp h with rfl | h
        · exact .inr (.inl rfl)
        · exact .inl h
      · simp only [List.mem_mergeSort, List.mem_dedup] at h
        exact .inr (.inr (hmaybe t (List.mem_of_mem_filter h)))

end Agreements

end Exo
