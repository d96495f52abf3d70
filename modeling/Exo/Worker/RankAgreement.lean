import Exo.Worker.GenerationProgress

/-!
# The rounds of all ranks

Between two rounds every rank takes tasks from its own runner, and cancellations come to its
own pipe. A round is one call of `agree_on_tasks` or `agree_on_cancellations` on all ranks
together. The queues depend on the rounds alone; what is cancelled also depends on when a
rank takes a task, because `submit` forgets that everything was cancelled.
-/

namespace Exo

open Lib (Machine Proc)

/-! ## The rows that are gathered -/

/-- The task ids of a rank, and rows of zeros up to the longest list. -/
def padded (maxTasks : Nat) (tasks : List TaskId) : List (Option TaskId) :=
  tasks.map some ++ List.replicate (maxTasks - tasks.length) none

/-- `.reshape(world_size, max_tasks, -1)`. -/
def reshape {α : Type} (worldSize maxTasks : Nat) (rows : List α) : List (List α) :=
  (List.range worldSize).map fun i => (rows.drop (i * maxTasks)).take maxTasks

/-- `all_task_ids`: each rank's rows are cut to its count. -/
def allTaskIds (tasks : List (List TaskId)) : List (List TaskId) :=
  let allCounts := tasks.map List.length
  let maxTasks := allCounts.foldr max 0
  let gathered := reshape tasks.length maxTasks (tasks.flatMap (padded maxTasks))
  (gathered.zip allCounts).map fun (rankTasks, count) => (rankTasks.take count).reduceOption

theorem reshape_flatten {α : Type} (maxTasks : Nat) (blocks : List (List α))
    (h : ∀ b ∈ blocks, b.length = maxTasks) :
    reshape blocks.length maxTasks blocks.flatten = blocks := by
  induction blocks with
  | nil => rfl
  | cons b blocks ih =>
      have hb : b.length = maxTasks := h b List.mem_cons_self
      have ih := ih fun b' hb' => h b' (List.mem_cons_of_mem _ hb')
      rw [reshape, List.length_cons, List.range_succ_eq_map, List.map_cons, List.map_map]
      have hhead : (((b :: blocks).flatten).drop (0 * maxTasks)).take maxTasks = b := by
        rw [Nat.zero_mul, List.drop_zero, List.flatten_cons, ← hb, List.take_left]
      have htail : (List.range blocks.length).map ((fun i =>
          (((b :: blocks).flatten).drop (i * maxTasks)).take maxTasks) ∘ Nat.succ) = blocks := by
        refine Eq.trans (List.map_congr_left fun i _ => ?_) ih
        -- the first block is dropped with the rows of the others before `i`
        have hdrop : ((b :: blocks).flatten).drop ((i + 1) * maxTasks)
            = blocks.flatten.drop (i * maxTasks) := by
          rw [List.flatten_cons, Nat.succ_mul, Nat.add_comm, ← hb, List.drop_length_add_append]
        show (((b :: blocks).flatten).drop ((i + 1) * maxTasks)).take maxTasks = _
        rw [hdrop]
      rw [hhead, htail]

variable {tasks : List TaskId}

theorem length_padded {maxTasks : Nat} (h : tasks.length ≤ maxTasks) :
    (padded maxTasks tasks).length = maxTasks := by
  rw [padded, List.length_append, List.length_map, List.length_replicate]
  omega

theorem take_padded (maxTasks : Nat) (tasks : List TaskId) :
    ((padded maxTasks tasks).take tasks.length).reduceOption = tasks := by
  have hrows : (padded maxTasks tasks).take tasks.length = tasks.map some :=
    List.take_left' (List.length_map some)
  rw [hrows]
  clear hrows
  induction tasks with
  | nil => rfl
  | cons t tasks ih => exact congrArg (t :: ·) ih

/-- **What comes out of the gathered rows is what every rank put in.** -/
theorem allTaskIds_eq (tasks : List (List TaskId)) : allTaskIds tasks = tasks := by
  have hmax : ∀ ts ∈ tasks, ts.length ≤ (tasks.map List.length).foldr max 0 := fun ts hts =>
    List.le_max_of_le (List.mem_map_of_mem (f := List.length) hts) le_rfl
  have hrows : reshape tasks.length ((tasks.map List.length).foldr max 0)
      (tasks.flatMap (padded ((tasks.map List.length).foldr max 0)))
      = tasks.map (padded ((tasks.map List.length).foldr max 0)) := by
    rw [List.flatMap_def]
    have := reshape_flatten ((tasks.map List.length).foldr max 0)
      (tasks.map (padded ((tasks.map List.length).foldr max 0))) fun b hb => by
        obtain ⟨ts, hts, rfl⟩ := List.mem_map.mp hb
        exact length_padded (hmax ts hts)
    rwa [List.length_map] at this
  simp only [allTaskIds, hrows, List.zip_map', List.map_map]
  refine (List.map_congr_left fun ts _ => ?_).trans (List.map_id tasks)
  exact take_padded _ ts

/-- What every rank gets from `mx_all_gather_tasks`. -/
def gatherTasks (allTasks : List (List TaskId)) (tasks : List TaskId) :
    List TaskId × List TaskId :=
  if (allTasks.map List.length).foldr max 0 = 0 then ([], [])
  else splitAgreed tasks (allTaskIds allTasks)

variable {allTasks : List (List TaskId)}

theorem gatherTasks_eq
    (h : tasks ∈ allTasks) : gatherTasks allTasks tasks = splitAgreed tasks allTasks := by
  rw [gatherTasks, allTaskIds_eq]
  split
  · rename_i h0
    have hlen : tasks.length ≤ (allTasks.map List.length).foldr max 0 :=
      List.le_max_of_le (List.mem_map_of_mem (f := List.length) h) le_rfl
    rw [List.length_eq_zero_iff.mp (by omega : tasks.length = 0)]
    simp [splitAgreed]
  · rfl

section Collectives

variable {ι α : Type} (members : List ι)

/-- All ranks call `mx_any` and go on with the same answer. -/
theorem together_mxAny (b : ι → Bool) (next : ι → Bool → Rank α) :
    Proc.together (members.map fun i => mxAny (b i) >>= next i)
      = Proc.together (members.map fun i => next i (members.any b)) := by
  have hany : (members.map fun i => Contribution.flag (b i)).any Contribution.isTrue
      = members.any b := by
    rw [List.any_map]
    rfl
  simp only [mxAny, Proc.gather_bind, Proc.together_gather, hany]
  rfl

/-- All ranks call `mx_all_gather_tasks`. -/
theorem together_mxAllGatherTasks (tasks : ι → List TaskId)
    (next : ι → List TaskId × List TaskId → Rank α) :
    Proc.together (members.map fun i => mxAllGatherTasks (tasks i) >>= next i)
      = Proc.together (members.map fun i =>
          next i (gatherTasks (members.map tasks) (tasks i))) := by
  have hcounts : ((members.map fun i => Contribution.count (tasks i).length).map
      Contribution.toCount) = (members.map tasks).map List.length := by
    simp only [List.map_map]
    rfl
  have hids : ((members.map fun i => Contribution.taskIds (tasks i)).map
      Contribution.toTaskIds) = members.map tasks := by
    simp only [List.map_map]
    rfl
  simp only [mxAllGatherTasks, Proc.gather_bind, Proc.together_gather, hcounts]
  -- the ranks see the same counts, so all of them gather or none does
  by_cases h0 : ((members.map tasks).map List.length).foldr max 0 = 0
  · simp only [if_pos h0, gatherTasks]
    rfl
  · simp only [if_neg h0, Proc.gather_bind, Proc.together_gather, hids, gatherTasks,
      allTaskIds_eq]
    rfl

end Collectives

/-! ## The ranks of an instance -/

/-- `submit`, of a text generation. -/
def Agreements.submit (a : Agreements) (taskId : TaskId) : Agreements :=
  { a with
    cancelledTasks := a.cancelledTasks.filter fun t => t ≠ CANCEL_ALL_TASKS
    allTasks := a.allTasks.insert taskId
    maybeQueue := a.maybeQueue ++ [taskId] }

structure Member extends Agreements where
  /-- What `self._queue.popleft()` returned, one time after the other. -/
  started : List TaskId := []
  deriving DecidableEq, Repr

/-- What happens on one rank between two rounds, or on all ranks together. -/
inductive RankAction where
  | submit (rank : Nat) (taskId : TaskId)
  | cancel (rank : Nat) (taskId : TaskId)
  | agreeOnTasks
  | agreeOnCancellations
  /-- Every rank takes the first task of its queue. -/
  | startNext
  /-- `on_generation_token` of a task finds it cancelled with everything else. -/
  | cancelActive (taskId : TaskId)
  /-- `_apply_cancellations` ends with `self._cancelled_tasks.clear()`. -/
  | applyCancellations
  deriving DecidableEq, Repr

namespace Member

/-- The runner has a task for the engine. It skips a task that it has seen. -/
def submit (m : Member) (taskId : TaskId) : Member :=
  if taskId ∈ m.allTasks then m else { m with toAgreements := m.toAgreements.submit taskId }

def agreeOnTasks (m : Member) : Rank Member := do
  let a ← m.toAgreements.agreeOnTasks
  pure { m with toAgreements := a }

def agreeOnCancellations (m : Member) : Rank Member := do
  let a ← m.toAgreements.agreeOnCancellations
  pure { m with toAgreements := a }

def startNext (m : Member) : Member :=
  match m.queue with
  | [] => m
  | task :: queue => { m with queue := queue, started := m.started ++ [task] }

def cancelActive (m : Member) (taskId : TaskId) : Member :=
  if m.shouldCancel taskId then
    { m with cancelledTasks := m.cancelledTasks.insert taskId }
  else m

/-- Everything that has entered the queue. -/
def entered (m : Member) : List TaskId := m.started ++ m.queue

end Member

namespace Ranks

def step (ranks : List Member) : RankAction → Option (List Member)
  | .submit rank taskId =>
      if rank < ranks.length then some (ranks.modify rank fun m => m.submit taskId) else none
  | .cancel rank taskId =>
      if rank < ranks.length then
        some (ranks.modify rank fun m =>
          { m with toAgreements := m.toAgreements.receive taskId })
      else none
  | .agreeOnTasks => Proc.together (ranks.map Member.agreeOnTasks)
  | .agreeOnCancellations => Proc.together (ranks.map Member.agreeOnCancellations)
  | .startNext => some (ranks.map Member.startNext)
  | .cancelActive taskId => some (ranks.map fun m => m.cancelActive taskId)
  | .applyCancellations => some (ranks.map fun m => { m with cancelledTasks := [] })

/-- An instance with `size` ranks. -/
def machine (size : Nat) : Machine (List Member) RankAction :=
  ⟨List.replicate size {}, step⟩

/-! ## What a round does -/

/-- What `agree_on_tasks` does to a rank, with what all ranks gather. -/
def enqueue (allTasks : List (List TaskId)) (m : Member) : Member :=
  { m with
    queue := m.queue ++ (splitAgreed m.maybeQueue allTasks).1
    maybeQueue := (splitAgreed m.maybeQueue allTasks).2 }

/-- What `agree_on_cancellations` does to a rank. -/
def cancelAgreed (cancelAll : Bool) (allTasks : List (List TaskId)) (m : Member) : Member :=
  let a := m.toAgreements.collect.1
  let (agreed, different) := splitAgreed a.maybeCancel allTasks
  let cancelled := if cancelAll then a.cancelledTasks.insert CANCEL_ALL_TASKS
    else a.cancelledTasks
  { m with toAgreements := { a with
      cancelledTasks := agreed.foldl (fun s t => s.insert t) cancelled
      maybeCancel := different } }

/-- A round of `agree_on_tasks` always comes to an end. -/
theorem step_agreeOnTasks (ranks : List Member) :
    step ranks .agreeOnTasks
      = some (ranks.map (enqueue (ranks.map fun m => m.maybeQueue))) := by
  have hproc : ∀ m : Member, m.agreeOnTasks = mxAllGatherTasks m.maybeQueue >>= fun r =>
      Proc.pure { m with queue := m.queue ++ r.1, maybeQueue := r.2 } := by
    intro m
    rw [Member.agreeOnTasks, Agreements.agreeOnTasks, Proc.bind_assoc]
    rfl
  rw [step, List.map_congr_left fun m _ => hproc m, together_mxAllGatherTasks, Proc.together_pure]
  refine congrArg some (List.map_congr_left fun m hm => ?_)
  rw [gatherTasks_eq (List.mem_map_of_mem (f := fun m : Member => m.maybeQueue) hm)]
  rfl

/-- So does a round of `agree_on_cancellations`. -/
theorem step_agreeOnCancellations (ranks : List Member) :
    step ranks .agreeOnCancellations
      = some (ranks.map (cancelAgreed (ranks.any fun m => m.toAgreements.collect.2)
          (ranks.map fun m => m.toAgreements.collect.1.maybeCancel))) := by
  let cancelAll (b : Bool) (a : Agreements) : Agreements :=
    if b then { a with cancelledTasks := a.cancelledTasks.insert CANCEL_ALL_TASKS } else a
  have hproc : ∀ m : Member, m.agreeOnCancellations = mxAny m.toAgreements.collect.2 >>= fun b =>
      mxAllGatherTasks m.toAgreements.collect.1.maybeCancel >>= fun r =>
        Proc.pure { m with toAgreements := { cancelAll b m.toAgreements.collect.1 with
          cancelledTasks := r.1.foldl (fun s t => s.insert t)
            (cancelAll b m.toAgreements.collect.1).cancelledTasks
          maybeCancel := r.2 } } := by
    intro m
    rw [Member.agreeOnCancellations, Agreements.agreeOnCancellations, Proc.bind_assoc]
    refine congrArg _ (funext fun b => ?_)
    cases b
    · rw [Proc.bind_assoc]
      rfl
    · rw [Proc.bind_assoc]
      rfl
  rw [step, List.map_congr_left fun m _ => hproc m, together_mxAny, together_mxAllGatherTasks,
    Proc.together_pure]
  refine congrArg some (List.map_congr_left fun m hm => ?_)
  rw [gatherTasks_eq (List.mem_map_of_mem
    (f := fun m : Member => m.toAgreements.collect.1.maybeCancel) hm)]
  cases ranks.any fun m => m.toAgreements.collect.2 <;> rfl

/-! ## The queues -/

/-- A rank that has started and queued the same tasks as the others. -/
structure Shares (started queue : List TaskId) (m : Member) : Prop where
  hasStarted : m.started = started
  hasQueued : m.queue = queue
  /-- No task is in two places, or twice in one. -/
  once : (m.maybeQueue ++ (started ++ queue)).Nodup
  /-- A task that was submitted waits for the other ranks or has entered the queue. -/
  known : ∀ t, t ∈ m.allTasks ↔ t ∈ m.maybeQueue ∨ t ∈ started ++ queue

/-- All ranks have started and queued the same tasks. -/
def InStep (ranks : List Member) : Prop :=
  ∃ started queue, ∀ m ∈ ranks, Shares started queue m

section Steps

variable {ranks ranks' : List Member} {started queue : List TaskId} {m : Member}

variable {f : Member → Member}

theorem mem_modify {rank : Nat} {m' : Member}
    (h : m' ∈ ranks.modify rank f) : ∃ m ∈ ranks, m' = m ∨ m' = f m := by
  obtain ⟨i, hi⟩ := List.mem_iff_getElem?.mp h
  rw [List.getElem?_modify] at hi
  obtain ⟨m, hm, hm'⟩ := Option.map_eq_some_iff.mp hi
  refine ⟨m, List.mem_of_getElem? hm, ?_⟩
  split at hm'
  · exact .inr hm'.symm
  · exact .inl hm'.symm

theorem Shares.submit (h : Shares started queue m) (taskId : TaskId) :
    Shares started queue (m.submit taskId) := by
  rw [Member.submit]
  split
  · exact h
  · rename_i hnew
    have hnot : taskId ∉ m.maybeQueue ∧ taskId ∉ started ++ queue := by
      rw [h.known] at hnew
      exact not_or.mp hnew
    refine ⟨h.hasStarted, h.hasQueued, ?_, fun t => ?_⟩
    · show ((m.maybeQueue ++ [taskId]) ++ (started ++ queue)).Nodup
      rw [List.append_assoc, List.singleton_append, List.nodup_middle, List.nodup_cons,
        List.mem_append]
      exact ⟨not_or.mpr hnot, h.once⟩
    · show t ∈ m.allTasks.insert taskId ↔ t ∈ m.maybeQueue ++ [taskId] ∨ t ∈ started ++ queue
      have hmaybe : t ∈ m.maybeQueue ++ [taskId] ↔ t ∈ m.maybeQueue ∨ t = taskId := by simp
      rw [List.mem_insert_iff, h.known, hmaybe]
      tauto

theorem Shares.startNext (h : Shares started queue m) :
    Shares (started ++ queue.take 1) (queue.drop 1) m.startNext := by
  rw [Member.startNext, h.hasQueued]
  cases queue with
  | nil => simpa using h
  | cons task queue =>
      refine ⟨by rw [h.hasStarted]; rfl, rfl, ?_, fun t => ?_⟩
      · have := h.once
        simpa using this
      · have := h.known t
        simpa using this

/-- After a round every rank has the same agreed tasks at the end of its queue. -/
theorem Shares.enqueue {agreed : List TaskId}
    (h : Shares started queue m) (hagreed : (splitAgreed m.maybeQueue allTasks).1 = agreed) :
    Shares started (queue ++ agreed) (enqueue allTasks m) := by
  have hmaybe : m.maybeQueue.Nodup := h.once.of_append_left
  have hperm : ((splitAgreed m.maybeQueue allTasks).2 ++ agreed).Perm m.maybeQueue := by
    rw [← hagreed]
    exact perm_splitAgreed _ hmaybe
  have hall : ((splitAgreed m.maybeQueue allTasks).2 ++ (started ++ (queue ++ agreed))).Perm
      (m.maybeQueue ++ (started ++ queue)) := by
    rw [← List.append_assoc started]
    refine (List.perm_append_comm.append_left _).trans ?_
    rw [← List.append_assoc]
    exact hperm.append_right _
  refine ⟨h.hasStarted, by rw [← hagreed, ← h.hasQueued]; rfl, hall.nodup_iff.mpr h.once, fun t => ?_⟩
  exact (h.known t).trans (List.mem_append.symm.trans (hall.mem_iff.symm.trans List.mem_append))

/-- Only `submit`, `agree_on_tasks` and `popleft` touch the queues. -/
theorem Shares.congr {m' : Member} (h : Shares started queue m) (hs : m'.started = m.started)
    (hq : m'.queue = m.queue) (hm : m'.maybeQueue = m.maybeQueue)
    (ha : m'.allTasks = m.allTasks) : Shares started queue m' where
  hasStarted := hs.trans h.hasStarted
  hasQueued := hq.trans h.hasQueued
  once := by rw [hm]; exact h.once
  known := by rw [hm, ha]; exact h.known

/-- A round of `agree_on_tasks` appends one list to all queues. -/
theorem exists_agreed (ranks : List Member) : ∃ agreed, ∀ m ∈ ranks,
    (splitAgreed m.maybeQueue (ranks.map fun m => m.maybeQueue)).1 = agreed := by
  cases ranks with
  | nil => exact ⟨[], fun m hm => by cases hm⟩
  | cons m₀ ranks =>
      have hmem : ∀ m ∈ m₀ :: ranks, m.maybeQueue ∈ (m₀ :: ranks).map fun m => m.maybeQueue :=
        fun m hm => List.mem_map_of_mem (f := fun m : Member => m.maybeQueue) hm
      exact ⟨_, fun m hm => splitAgreed_fst_congr (hmem m hm) (hmem m₀ List.mem_cons_self)⟩

theorem inStep_step {a : RankAction} (h : InStep ranks) (hs : step ranks a = some ranks') :
    InStep ranks' := by
  obtain ⟨started, queue, h⟩ := h
  cases a with
  | submit rank taskId =>
      obtain ⟨-, hs⟩ := Option.ite_none_right_eq_some.mp hs
      obtain rfl := Option.some.inj hs
      refine ⟨started, queue, fun m' hm' => ?_⟩
      obtain ⟨m, hm, rfl | rfl⟩ := mem_modify hm'
      · exact h m' hm
      · exact (h m hm).submit taskId
  | cancel rank taskId =>
      obtain ⟨-, hs⟩ := Option.ite_none_right_eq_some.mp hs
      obtain rfl := Option.some.inj hs
      refine ⟨started, queue, fun m' hm' => ?_⟩
      obtain ⟨m, hm, rfl | rfl⟩ := mem_modify hm'
      · exact h m' hm
      · exact (h m hm).congr rfl rfl rfl rfl
  | agreeOnTasks =>
      rw [step_agreeOnTasks] at hs
      obtain rfl := Option.some.inj hs
      obtain ⟨agreed, hagreed⟩ := exists_agreed ranks
      refine ⟨started, queue ++ agreed, fun m' hm' => ?_⟩
      obtain ⟨m, hm, rfl⟩ := List.mem_map.mp hm'
      exact (h m hm).enqueue (hagreed m hm)
  | agreeOnCancellations =>
      rw [step_agreeOnCancellations] at hs
      obtain rfl := Option.some.inj hs
      refine ⟨started, queue, fun m' hm' => ?_⟩
      obtain ⟨m, hm, rfl⟩ := List.mem_map.mp hm'
      exact (h m hm).congr rfl rfl rfl rfl
  | startNext =>
      obtain rfl := Option.some.inj hs
      refine ⟨started ++ queue.take 1, queue.drop 1, fun m' hm' => ?_⟩
      obtain ⟨m, hm, rfl⟩ := List.mem_map.mp hm'
      exact (h m hm).startNext
  | cancelActive taskId =>
      obtain rfl := Option.some.inj hs
      refine ⟨started, queue, fun m' hm' => ?_⟩
      obtain ⟨m, hm, rfl⟩ := List.mem_map.mp hm'
      simp only [Member.cancelActive]
      split
      · exact (h m hm).congr rfl rfl rfl rfl
      · exact h m hm
  | applyCancellations =>
      obtain rfl := Option.some.inj hs
      refine ⟨started, queue, fun m' hm' => ?_⟩
      obtain ⟨m, hm, rfl⟩ := List.mem_map.mp hm'
      exact (h m hm).congr rfl rfl rfl rfl

theorem inStep_of_reachable {size : Nat} (h : (machine size).Reachable ranks) : InStep ranks := by
  refine h.invariant (P := InStep) ⟨[], [], fun m hm => ?_⟩ fun s a s' hs hstep =>
    inStep_step hs hstep
  obtain rfl := List.eq_of_mem_replicate hm
  exact ⟨rfl, rfl, List.nodup_nil, by simp⟩

/-! ## The cancellations -/

/-- All ranks have cancelled the same tasks. -/
def SameCancelled (ranks : List Member) : Prop :=
  ∀ a ∈ ranks, ∀ b ∈ ranks, ∀ t, t ∈ a.cancelledTasks ↔ t ∈ b.cancelledTasks

/-- A rank takes a new task only when there is no cancellation of everything to forget. -/
def ForgetsNothing (ranks : List Member) : RankAction → Prop
  | .submit rank taskId => ∀ m ∈ ranks[rank]?,
      taskId ∈ m.allTasks ∨ CANCEL_ALL_TASKS ∉ m.cancelledTasks
  | _ => True

instance (ranks : List Member) : (a : RankAction) → Decidable (ForgetsNothing ranks a)
  | .submit rank taskId => inferInstanceAs (Decidable (∀ m ∈ ranks[rank]?,
      taskId ∈ m.allTasks ∨ CANCEL_ALL_TASKS ∉ m.cancelledTasks))
  | .cancel .. | .agreeOnTasks | .agreeOnCancellations | .startNext | .cancelActive _
  | .applyCancellations => inferInstanceAs (Decidable True)

theorem cancelledTasks_submit {taskId : TaskId}
    (h : taskId ∈ m.allTasks ∨ CANCEL_ALL_TASKS ∉ m.cancelledTasks) :
    (m.submit taskId).cancelledTasks = m.cancelledTasks := by
  rw [Member.submit]
  split
  · rfl
  · rename_i hnew
    refine List.filter_eq_self.mpr fun t ht => ?_
    have hall : t ≠ CANCEL_ALL_TASKS := fun hall => h.resolve_left hnew (hall ▸ ht)
    exact decide_eq_true hall

/-- What a rank has cancelled after a round. -/
theorem mem_cancelAgreed {cancelAll : Bool} {t : TaskId}
    (hm : m.toAgreements.collect.1.maybeCancel ∈ allTasks) :
    t ∈ (cancelAgreed cancelAll allTasks m).cancelledTasks ↔ t ∈ m.cancelledTasks
      ∨ (cancelAll = true ∧ t = CANCEL_ALL_TASKS) ∨ ∀ tids ∈ allTasks, t ∈ tids := by
  have hagreed : t ∈ (splitAgreed m.toAgreements.collect.1.maybeCancel allTasks).1
      ↔ ∀ tids ∈ allTasks, t ∈ tids := by
    rw [mem_splitAgreed_fst]
    exact ⟨fun h => h.2, fun h => ⟨h _ hm, h⟩⟩
  refine ((Agreements.mem_foldl_insert _ _ t).trans (or_congr_right hagreed)).trans ?_
  cases cancelAll with
  | false =>
      have hcancelled : m.toAgreements.collect.1.cancelledTasks = m.cancelledTasks := rfl
      simp [hcancelled]
  | true =>
      have hcancelled : m.toAgreements.collect.1.cancelledTasks = m.cancelledTasks := rfl
      simp only [if_true, List.mem_insert_iff, hcancelled, true_and]
      tauto

/-- A step that treats all ranks alike keeps them alike. -/
theorem SameCancelled.map (h : SameCancelled ranks)
    (hf : ∀ a ∈ ranks, ∀ b ∈ ranks, (∀ t, t ∈ a.cancelledTasks ↔ t ∈ b.cancelledTasks) →
      ∀ t, t ∈ (f a).cancelledTasks ↔ t ∈ (f b).cancelledTasks) :
    SameCancelled (ranks.map f) := by
  intro a' ha' b' hb' t
  obtain ⟨a, ha, rfl⟩ := List.mem_map.mp ha'
  obtain ⟨b, hb, rfl⟩ := List.mem_map.mp hb'
  exact hf a ha b hb (h a ha b hb) t

/-- So does a step of one rank that cancels nothing. -/
theorem SameCancelled.modify {rank : Nat} (h : SameCancelled ranks)
    (hf : ∀ m, ranks[rank]? = some m → (f m).cancelledTasks = m.cancelledTasks) :
    SameCancelled (ranks.modify rank f) := by
  have hback : ∀ m' ∈ ranks.modify rank f, ∃ m ∈ ranks, m'.cancelledTasks = m.cancelledTasks := by
    intro m' hm'
    obtain ⟨i, hi⟩ := List.mem_iff_getElem?.mp hm'
    rw [List.getElem?_modify] at hi
    obtain ⟨m, hm, hm'⟩ := Option.map_eq_some_iff.mp hi
    refine ⟨m, List.mem_of_getElem? hm, ?_⟩
    split at hm'
    · rename_i hrank
      rw [← hm']
      exact hf m (hrank ▸ hm)
    · rw [← hm']
  intro a' ha' b' hb' t
  obtain ⟨a, ha, hac⟩ := hback a' ha'
  obtain ⟨b, hb, hbc⟩ := hback b' hb'
  rw [hac, hbc]
  exact h a ha b hb t

theorem sameCancelled_step {a : RankAction} (h : SameCancelled ranks)
    (hok : ForgetsNothing ranks a) (hs : step ranks a = some ranks') : SameCancelled ranks' := by
  cases a with
  | submit rank taskId =>
      obtain ⟨-, hs⟩ := Option.ite_none_right_eq_some.mp hs
      obtain rfl := Option.some.inj hs
      exact h.modify fun m hm => cancelledTasks_submit (hok m hm)
  | cancel rank taskId =>
      obtain ⟨-, hs⟩ := Option.ite_none_right_eq_some.mp hs
      obtain rfl := Option.some.inj hs
      exact h.modify fun m _ => rfl
  | agreeOnTasks =>
      rw [step_agreeOnTasks] at hs
      obtain rfl := Option.some.inj hs
      exact h.map fun a _ b _ hab => hab
  | agreeOnCancellations =>
      rw [step_agreeOnCancellations] at hs
      obtain rfl := Option.some.inj hs
      refine h.map fun a ha b hb hab t => ?_
      rw [mem_cancelAgreed (List.mem_map_of_mem (f := fun m : Member =>
          m.toAgreements.collect.1.maybeCancel) ha),
        mem_cancelAgreed (List.mem_map_of_mem (f := fun m : Member =>
          m.toAgreements.collect.1.maybeCancel) hb), hab]
  | startNext =>
      obtain rfl := Option.some.inj hs
      have hkeeps : ∀ m : Member, m.startNext.cancelledTasks = m.cancelledTasks := by
        intro m
        rw [Member.startNext]
        split <;> rfl
      refine h.map fun a _ b _ hab t => ?_
      rw [hkeeps, hkeeps, hab]
  | cancelActive taskId =>
      obtain rfl := Option.some.inj hs
      have hcancels : ∀ m : Member, ∀ t, t ∈ (m.cancelActive taskId).cancelledTasks ↔
          t ∈ m.cancelledTasks ∨ t = taskId
            ∧ (taskId ∈ m.cancelledTasks ∨ CANCEL_ALL_TASKS ∈ m.cancelledTasks) := by
        intro m t
        rw [Member.cancelActive, Agreements.shouldCancel]
        split
        · rename_i hc
          simp only [Bool.or_eq_true, List.contains_iff_mem] at hc
          simp only [List.mem_insert_iff]
          tauto
        · rename_i hc
          simp only [Bool.or_eq_true, List.contains_iff_mem] at hc
          tauto
      refine h.map fun a _ b _ hab t => ?_
      rw [hcancels, hcancels, hab, hab, hab]
  | applyCancellations =>
      obtain rfl := Option.some.inj hs
      exact h.map fun a _ b _ _ t => Iff.rfl

theorem sameCancelled_of_reachableWhen {size : Nat}
    (h : (machine size).ReachableWhen ForgetsNothing ranks) : SameCancelled ranks := by
  refine h.invariant (P := SameCancelled) ?_ fun s a s' hs hok hstep =>
    sameCancelled_step hs hok hstep
  intro a ha b hb t
  rw [List.eq_of_mem_replicate ha, List.eq_of_mem_replicate hb]

end Steps

/-! ## The batch engine forgets nothing -/

end Ranks

namespace Generation

/-- Between two calls of `step` the engine has nothing cancelled. -/
structure Settled (g : Generation) : Prop where
  cancelledTasks : g.stage = .entering → g.engine.cancelledTasks = []
  phase : g.Running → g.stage ≠ .entering → g.runner.phase = .generating

variable {g g' : Generation}

variable {e : BatchGenerator}

/-- A call of `step` ends with `_apply_cancellations`. -/
theorem Settled.finish {output : List (TaskId × GenerationResponse)}
    (h : g.finish e output = some g') : Settled g' := by
  obtain ⟨⟨r, sent⟩, -, rfl⟩ := Option.map_eq_some_iff.mp h
  exact ⟨fun _ => (BatchGenerator.applyCancellations_spec e).cancelledTasks,
    fun _ hne => absurd rfl hne⟩

/-- Inside a call the runner waits for it. -/
theorem Settled.inside (hphase : g.runner.phase = .generating)
    {stage : EngineStage} (hne : stage ≠ .entering) :
    Settled { g with engine := e, stage := stage } :=
  ⟨fun hs => absurd hs hne, fun _ _ => hphase⟩

theorem Settled.take (h : Settled g) {task : Task} (hs : g.take task = some g') :
    Settled g' ∧ g'.engine.cancelledTasks = g.engine.cancelledTasks := by
  obtain ⟨⟨r, sent⟩, hr, rfl⟩ := Option.map_eq_some_iff.mp hs
  have hphase := Runner.phase_of_take hr
  have hrunning : g.Running := fun exitcode => by
    rcases hphase with hp | hp <;> rw [hp] <;> simp
  have hstage : g.stage = .entering := by
    by_contra hne
    have := h.phase hrunning hne
    rcases hphase with hp | hp <;> rw [hp] at this <;> cases this
  have hnone := h.cancelledTasks hstage
  have hsubmit : (g.engine.submit task.taskId).cancelledTasks = [] := by
    show g.engine.cancelledTasks.filter _ = []
    rw [hnone]
    rfl
  dsimp only
  split
  · split
    · exact ⟨⟨fun _ => hsubmit, fun _ hne => absurd hstage hne⟩, hsubmit.trans hnone.symm⟩
    · exact ⟨⟨fun _ => hnone, fun _ hne => absurd hstage hne⟩, rfl⟩
  · exact ⟨⟨fun _ => hnone, fun _ hne => absurd hstage hne⟩, rfl⟩

variable {maxConcurrentRequests : Nat}

theorem Settled.stepEngine (h : Settled g) (hphase : g.runner.phase = .generating)
    {a : EngineAction}
    (hs : g.stepEngine maxConcurrentRequests g.stage a = some g') : Settled g' := by
  unfold Generation.stepEngine at hs
  split at hs
  · split at hs
    · obtain ⟨e, -, rfl⟩ := Option.map_eq_some_iff.mp hs
      exact .inside hphase (by simp)
    · obtain rfl := Option.some.inj hs
      exact .inside hphase (by simp)
  · split at hs
    · cases hs
    · split at hs
      · obtain rfl := Option.some.inj hs
        exact .inside hphase (by simp)
      · cases hs
  · obtain ⟨e, -, rfl⟩ := Option.map_eq_some_iff.mp hs
    exact .inside hphase (by simp)
  · split at hs
    · obtain rfl := Option.some.inj hs
      exact .inside hphase (by simp)
    · obtain ⟨e, -, rfl⟩ := Option.map_eq_some_iff.mp hs
      exact .inside hphase (by simp)
  · obtain rfl := Option.some.inj hs
    exact .inside hphase (by simp)
  · split at hs
    · cases hs
    · obtain rfl := Option.some.inj hs
      exact .inside hphase (by simp)
  · split at hs
    · cases hs
    · exact .finish hs
  · obtain ⟨e, -, rfl⟩ := Option.map_eq_some_iff.mp hs
    exact .inside hphase (by simp)
  · exact .finish hs
  · -- the runner has exited
    obtain rfl := Option.some.inj hs
    exact ⟨fun hstage => h.cancelledTasks hstage, fun hrunning => absurd rfl (hrunning 1)⟩
  · cases hs

theorem settled_step (h : Settled g) {a : GenerationAction}
    (hs : g.step maxConcurrentRequests a = some g') : Settled g' := by
  cases a with
  | take task =>
      simp only [Generation.step] at hs
      split at hs
      · cases hs
      · exact (h.take hs).1
  | takeClosed =>
      obtain ⟨r, hr, rfl⟩ := Option.map_eq_some_iff.mp hs
      unfold Runner.takeClosed at hr
      refine ⟨h.cancelledTasks, fun hrunning hne => ?_⟩
      split at hr
      · obtain rfl := Option.some.inj hr
        exact absurd rfl (hrunning 0)
      · rename_i hphase
        have hgen := h.phase (fun exitcode => by rw [hphase]; simp) hne
        rw [hphase] at hgen
        cases hgen
      · cases hr
  | pollEmpty =>
      simp only [Generation.step] at hs
      split at hs
      · rename_i hphase
        obtain rfl := Option.some.inj hs
        refine ⟨h.cancelledTasks, fun _ hne => ?_⟩
        have hgen := h.phase (fun exitcode => by rw [hphase]; simp) hne
        rw [hphase] at hgen
        cases hgen
      · cases hs
  | cancel taskId =>
      obtain rfl := Option.some.inj hs
      exact ⟨h.cancelledTasks, h.phase⟩
  | engine a =>
      simp only [Generation.step] at hs
      split at hs
      · rename_i hphase
        exact h.stepEngine hphase hs
      · cases hs

/-- **When the runner takes a task, the batch engine forgets no cancellation.** -/
theorem cancelledTasks_take (cfg : GenerationConfig) {task : Task} (h : cfg.machine.Reachable g)
    (hs : g.take task = some g') : g'.engine.cancelledTasks = g.engine.cancelledTasks := by
  have hsettled : Settled g := h.invariant (P := Settled)
    ⟨fun _ => rfl, fun _ hne => absurd rfl hne⟩ fun _ _ _ hg hstep => settled_step hg hstep
  exact (hsettled.take hs).2

/-- A second request comes while the first one is worked on. -/
theorem cancelledTasks_take_second :
    ∃ g g', oneRequest.machine.run oneRequest.machine.init ([request 1] ++ startAndToken 0) = some g
      ∧ g.take ⟨2, .pending, 100, .textGeneration 2 [] [], none, none⟩ = some g'
      ∧ g'.engine.cancelledTasks = g.engine.cancelledTasks := by
  have hrun : ((oneRequest.machine.run oneRequest.machine.init
      ([request 1] ++ startAndToken 0)).bind fun g =>
        g.take ⟨2, .pending, 100, .textGeneration 2 [] [], none, none⟩).isSome = true := by
    decide +kernel
  obtain ⟨g', hg'⟩ := Option.isSome_iff_exists.mp hrun
  obtain ⟨g, hg, htake⟩ := Option.bind_eq_some_iff.mp hg'
  exact ⟨g, g', hg, htake, cancelledTasks_take oneRequest (Machine.reachable_of_run hg) htake⟩

end Generation

namespace Ranks

/-! ## Agreement -/

/-- What holds of the tasks of all ranks at any time. -/
structure TasksAccounted (ranks : List Member) : Prop where
  sameQueue : ∀ a ∈ ranks, ∀ b ∈ ranks, a.queue = b.queue
  sameEntered : ∀ a ∈ ranks, ∀ b ∈ ranks, a.entered = b.entered
  once : ∀ a ∈ ranks, a.entered.Nodup
  /-- Nothing that was submitted is lost. -/
  kept : ∀ a ∈ ranks, ∀ t ∈ a.allTasks, a.maybeQueue.count t + a.entered.count t = 1
  /-- A task that some rank does not have waits on the others. -/
  waits : ∀ a ∈ ranks, ∀ b ∈ ranks, ∀ t ∈ a.allTasks, t ∉ b.allTasks →
    a.maybeQueue.count t = 1 ∧ t ∉ a.entered

/-- Right after a round of `agree_on_tasks`: what all ranks have has entered all queues. -/
def AllEntered (ranks : List Member) : Prop :=
  ∀ t, (∀ a ∈ ranks, t ∈ a.allTasks) → ∀ a ∈ ranks, a.entered.count t = 1 ∧ t ∉ a.maybeQueue

theorem Shares.entered {started queue : List TaskId} {m : Member} (h : Shares started queue m) :
    m.entered = started ++ queue := by
  rw [Member.entered, h.hasStarted, h.hasQueued]

theorem InStep.tasksAccounted {ranks : List Member} (h : InStep ranks) : TasksAccounted ranks := by
  obtain ⟨started, queue, h⟩ := h
  refine ⟨fun a ha b hb => (h a ha).hasQueued.trans (h b hb).hasQueued.symm,
    fun a ha b hb => (h a ha).entered.trans (h b hb).entered.symm, fun a ha => ?_,
    fun a ha t ht => ?_, fun a ha b hb t ht hnot => ?_⟩
  · rw [(h a ha).entered]
    exact (h a ha).once.of_append_right
  · rw [(h a ha).entered, ← List.count_append]
    refine List.count_eq_one_of_mem (h a ha).once ?_
    exact List.mem_append.mpr (((h a ha).known t).mp ht)
  · have hent : t ∉ started ++ queue := fun hent => hnot (((h b hb).known t).mpr (.inr hent))
    rw [(h a ha).entered]
    refine ⟨List.count_eq_one_of_mem (h a ha).once.of_append_left ?_, hent⟩
    exact (((h a ha).known t).mp ht).resolve_right hent

/-- A round takes every task that all ranks have. -/
theorem InStep.allEntered {ranks : List Member} (h : InStep ranks) :
    AllEntered (ranks.map (enqueue (ranks.map fun m => m.maybeQueue))) := by
  have hround := inStep_step h (step_agreeOnTasks ranks)
  have haccounted := hround.tasksAccounted
  obtain ⟨started, queue, h⟩ := h
  intro t hall a' ha'
  -- before the round all ranks had the task, and all of them wait with it or none does
  have hbefore : ∀ b ∈ ranks, t ∈ b.allTasks := fun b hb =>
    hall (enqueue (ranks.map fun m => m.maybeQueue) b) (List.mem_map_of_mem hb)
  have hcount := haccounted.kept a' ha' t (hall a' ha')
  have hnot : t ∉ a'.maybeQueue := by
    obtain ⟨a, ha, rfl⟩ := List.mem_map.mp ha'
    intro hmaybe
    obtain ⟨hwaits, hmissing⟩ := mem_splitAgreed_snd.1 hmaybe
    refine hmissing fun tids htids => ?_
    obtain ⟨b, hb, rfl⟩ := List.mem_map.mp htids
    have hent : t ∉ started ++ queue :=
      fun hent => (List.nodup_append.mp (h a ha).once).2.2 t hwaits t hent rfl
    exact (((h b hb).known t).mp (hbefore b hb)).resolve_right hent
  rw [List.count_eq_zero_of_not_mem hnot, Nat.zero_add] at hcount
  exact ⟨hcount, hnot⟩

/-- **The ranks agree on the tasks, and on what is cancelled when no rank forgets anything.** -/
theorem ranks_agree (size : Nat) :
    (∀ ranks, (machine size).Reachable ranks → TasksAccounted ranks
        ∧ ∃ ranks', step ranks .agreeOnTasks = some ranks'
          ∧ TasksAccounted ranks' ∧ AllEntered ranks')
      ∧ ∀ ranks, (machine size).ReachableWhen ForgetsNothing ranks → SameCancelled ranks
        ∧ ∃ ranks', step ranks .agreeOnCancellations = some ranks' ∧ SameCancelled ranks' := by
  constructor
  · intro ranks h
    have hin := inStep_of_reachable h
    have hround := step_agreeOnTasks ranks
    exact ⟨hin.tasksAccounted, _, hround, (inStep_step hin hround).tasksAccounted,
      hin.allEntered⟩
  · intro ranks h
    have hsame := sameCancelled_of_reachableWhen h
    have hround := step_agreeOnCancellations ranks
    exact ⟨hsame, _, hround, sameCancelled_step (a := .agreeOnCancellations) hsame trivial hround⟩

/-- Both ranks work on task 5, and everything is cancelled. -/
def cancelledPair : List RankAction :=
  [.submit 0 5, .submit 1 5, .agreeOnTasks, .startNext, .cancel 0 CANCEL_ALL_TASKS,
    .cancel 1 CANCEL_ALL_TASKS, .agreeOnCancellations]

theorem ranks_agree_cancelledPair :
    ∃ ranks ranks', (machine 2).runWhen ForgetsNothing (machine 2).init cancelledPair = some ranks
      ∧ step ranks .agreeOnTasks = some ranks' ∧ TasksAccounted ranks' ∧ AllEntered ranks'
      ∧ SameCancelled ranks := by
  have hrun : (machine 2).runWhen ForgetsNothing (machine 2).init cancelledPair = some
      (List.replicate 2 { ({} : Member) with
        started := [5], allTasks := [5], cancelledTasks := [CANCEL_ALL_TASKS] }) := by
    decide +kernel
  have hreach := Machine.reachableWhen_of_run hrun
  obtain ⟨-, ranks', hround, haccounted, hentered⟩ := (ranks_agree 2).1 _ hreach.reachable
  obtain ⟨hsame, -⟩ := (ranks_agree 2).2 _ hreach
  exact ⟨_, ranks', hrun, hround, haccounted, hentered, hsame⟩

/-- Rank 0 has a new task and forgets that everything was cancelled; rank 1 does not. -/
theorem ranks_disagree_newTask :
    ∃ ranks ranks', (machine 2).Reachable ranks ∧ step ranks .agreeOnTasks = some ranks'
      ∧ ¬ SameCancelled ranks' := by
  have hrun : (machine 2).run (machine 2).init (cancelledPair ++ [.submit 0 7]) = some
      [{ ({} : Member) with started := [5], allTasks := [7, 5], maybeQueue := [7] },
        { ({} : Member) with
          started := [5], allTasks := [5], cancelledTasks := [CANCEL_ALL_TASKS] }] := by
    decide +kernel
  refine ⟨_, _, Machine.reachable_of_run hrun, step_agreeOnTasks _, fun h => ?_⟩
  have := h _ List.mem_cons_self _ (List.mem_cons_of_mem _ (List.mem_singleton_self _))
    CANCEL_ALL_TASKS
  revert this
  decide

end Ranks

end Exo
