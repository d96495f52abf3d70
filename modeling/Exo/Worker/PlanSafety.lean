import Exo.Worker.Plan

/-!
# When planning raises

An exception in `plan` ends the worker. There are five places in it that can raise: the two
that ask a backoff, the two that assert that a rank is one of its world, and the lookup of a
runner's status in the replicated state. A place is only reached when no question before it
has an answer.
-/

namespace Exo

open Lib (Dict)

/-- The first element that is not passed over raises. -/
def FirstRaises {α : Type} (passed raises : α → Prop) (l : List α) : Prop :=
  ∃ i a, l[i]? = some a ∧ (∀ b ∈ l.take i, passed b) ∧ raises a

variable {α : Type}

theorem firstRaises_congr {passed passed' raises raises' : α → Prop} {l : List α}
    (hp : ∀ a ∈ l, passed a ↔ passed' a) (hr : ∀ a ∈ l, raises a ↔ raises' a) :
    FirstRaises passed raises l ↔ FirstRaises passed' raises' l := by
  constructor
  · rintro ⟨i, a, hi, hpass, hraise⟩
    exact ⟨i, a, hi, fun b hb => (hp b (List.mem_of_mem_take hb)).mp (hpass b hb),
      (hr a (List.mem_of_getElem? hi)).mp hraise⟩
  · rintro ⟨i, a, hi, hpass, hraise⟩
    exact ⟨i, a, hi, fun b hb => (hp b (List.mem_of_mem_take hb)).mpr (hpass b hb),
      (hr a (List.mem_of_getElem? hi)).mpr hraise⟩

theorem firstRaises_cons {passed raises : α → Prop} {a : α} {l : List α} :
    FirstRaises passed raises (a :: l) ↔ raises a ∨ (passed a ∧ FirstRaises passed raises l) := by
  constructor
  · rintro ⟨i, b, hi, hpass, hraise⟩
    cases i with
    | zero =>
        obtain rfl := Option.some.inj hi
        exact .inl hraise
    | succ i =>
        refine .inr ⟨hpass a List.mem_cons_self, i, b, by simpa using hi, fun c hc => ?_, hraise⟩
        exact hpass c (List.mem_cons_of_mem _ hc)
  · rintro (hraise | ⟨hpass, i, b, hi, hrest, hraise⟩)
    · exact ⟨0, a, rfl, by simp, hraise⟩
    · refine ⟨i + 1, b, by simpa using hi, fun c hc => ?_, hraise⟩
      rcases List.mem_cons.mp hc with rfl | hc
      · exact hpass
      · exact hrest c hc

theorem not_firstRaises_nil {passed raises : α → Prop} :
    ¬ FirstRaises passed raises [] := by
  rintro ⟨i, a, hi, -⟩
  cases hi

/-- The computation ends with an exception. -/
def Raised {α : Type} (x : Except PlanError α) : Prop := ∃ e, x = .error e

@[simp] theorem not_raised_ok {a : α} : ¬ Raised (.ok a) := by
  rintro ⟨e, he⟩
  cases he

@[simp] theorem raised_error {e : PlanError} : Raised (.error e : Except PlanError α) :=
  ⟨e, rfl⟩

/-- **A question of every element raises where it first raises, if nothing answers before.** -/
theorem raised_firstAnswer {α β : Type} {f : α → Except PlanError (Option β)} {l : List α} :
    Raised (firstAnswer f l) ↔ FirstRaises (fun a => f a = .ok none) (fun a => Raised (f a)) l := by
  induction l with
  | nil => simp [firstAnswer, not_firstRaises_nil]
  | cons a l ih =>
      rw [firstRaises_cons, firstAnswer]
      cases hf : f a with
      | error e => simp
      | ok answer =>
          cases answer with
          | none => simp [ih]
          | some b => simp

theorem firstAnswer_none {α β : Type} {f : α → Except PlanError (Option β)} {l : List α} :
    firstAnswer f l = .ok none ↔ ∀ a ∈ l, f a = .ok none := by
  induction l with
  | nil => simp [firstAnswer]
  | cons a l ih =>
      rw [firstAnswer, List.forall_mem_cons, ← ih]
      cases hf : f a with
      | error e => simp
      | ok answer =>
          cases answer with
          | none => simp
          | some b => simp

/-! ## The backoffs -/

namespace KeyedBackoff

variable {b : KeyedBackoff} {now : Time} {key : Nat}

/-- There were so many attempts that the delay cannot be computed. -/
def Exhausted (b : KeyedBackoff) (key : Nat) : Prop := maxExponent ≤ b.numAttempts key

/-- The delay can be computed and is not over. -/
def Waits (b : KeyedBackoff) (now : Time) (key : Nat) : Prop :=
  ¬ b.Exhausted key ∧ b.elapsed now key = false

theorem raised_shouldProceed {f : Bool → α} :
    Raised ((b.shouldProceed now key).map f) ↔ b.Exhausted key := by
  unfold shouldProceed Exhausted
  split
  · rename_i h
    exact ⟨fun _ => h, fun _ => ⟨_, rfl⟩⟩
  · rename_i h
    exact ⟨fun hr => absurd hr not_raised_ok, fun hx => absurd hx h⟩

theorem shouldProceed_none {task : Task} :
    ((b.shouldProceed now key).map fun proceed => if proceed then some task else none) = .ok none
      ↔ b.Waits now key := by
  unfold shouldProceed Waits Exhausted
  split
  · rename_i h
    exact ⟨fun he => (by cases he), fun hw => absurd h hw.1⟩
  · rename_i h
    cases he : b.elapsed now key with
    | false => exact ⟨fun _ => ⟨h, rfl⟩, fun _ => rfl⟩
    | true => exact ⟨fun hx => (by cases hx), fun hw => (by cases hw.2)⟩

end KeyedBackoff

/-- The rank of a shard is one of its world. -/
def ShardMetadata.Ranked (shard : ShardMetadata) : Prop :=
  shard.deviceRank < shard.worldSize ∧ 0 ≤ shard.deviceRank

namespace PlanInput

variable (p : PlanInput)

/-! ## What a place that raises is asked about -/

/-- The worker has a part in the instance and no runner for it, and may create one. -/
def WantsRunner (inst : Instance) : Prop :=
  ∃ runnerId, inst.shardAssignments.nodeToRunner.get? p.nodeId = some runnerId
    ∧ p.runners.get? runnerId = none
    ∧ ((∃ r ∈ inst.shardAssignments.nodeToRunner.values, r ≠ runnerId
        ∧ p.runnerIs RunnerStatus.isFailed r) → p.runnerIs RunnerStatus.isFailed runnerId)

/-- The runner is idle, and its model is not on the way. -/
def WantsDownload (runner : Supervisor) : Prop :=
  runner.status = .idle ∧ (p.downloadStatus runner.boundInstance.boundShard.modelId = none
    ∨ p.downloadStatus runner.boundInstance.boundShard.modelId = some .pending)

/-- The runner and all others of its instance are ready to connect. -/
def WantsGroup (runner : Supervisor) : Prop :=
  runner.boundInstance.inst.runnerIds.length ≠ 1 ∧ runner.status = .idle
    ∧ ∀ r ∈ runner.boundInstance.inst.runnerIds, p.runnerIs RunnerStatus.connects r

/-- It is the last rank, and some other rank does not accept it yet. -/
def AwaitsGroup (runner : Supervisor) : Prop :=
  runner.boundInstance.boundShard.worldSize ≤ runner.boundInstance.boundShard.deviceRank + 1
    ∧ ∃ r ∈ runner.boundInstance.inst.runnerIds, r ≠ runner.boundInstance.boundRunnerId
      ∧ ¬ p.runnerIs (· == .connecting) r

/-- The runner has loaded its model, and the ranks it waits for are far enough. -/
def WarmsUp (runner : Supervisor) : Prop :=
  runner.status = .loaded
    ∧ (0 < runner.boundInstance.boundShard.deviceRank
        ∧ (∀ r ∈ runner.boundInstance.inst.runnerIds, p.runnerIs (fun s => s == .loaded || s.warms) r)
      ∨ runner.boundInstance.boundShard.deviceRank = 0
        ∧ ∀ r ∈ runner.boundInstance.inst.runnerIds, r ≠ runner.boundInstance.boundRunnerId →
          p.runnerIs RunnerStatus.warms r)

/-- The task is for the runner, which could take it now. -/
def Delivers (task : Task) (runner : Supervisor) : Prop :=
  (task.isGeneration ∧ task.taskStatus.inFlight ∧ p.hasInputs task)
    ∧ task.instanceId = runner.instanceId ∧ task.taskId ∉ runner.completed
    ∧ (runner.inProgress.get? task.taskId).isNone ∧ runner.status.serves

/-- The first runner of the instance that is not known to serve has no status at all. -/
def Unknown (inst : Instance) : Prop :=
  FirstRaises (fun r => p.runnerIs RunnerStatus.serves r) (fun r => p.allRunners.get? r = none)
    inst.runnerIds

/-- The first runner of the instance that is not known to serve has another status. -/
def Unready (inst : Instance) : Prop :=
  FirstRaises (fun r => p.runnerIs RunnerStatus.serves r)
    (fun r => ∃ status, p.allRunners.get? r = some status ∧ status.serves = false) inst.runnerIds

/-! ## The places -/

/-- A runner is wanted for an instance that failed too often. -/
def CreateOverflows : Prop :=
  FirstRaises (fun inst => p.WantsRunner inst → p.instanceBackoff.Waits p.now inst.instanceId)
    (fun inst => p.WantsRunner inst ∧ p.instanceBackoff.Exhausted inst.instanceId)
    p.instances.values

/-- A download is wanted that was asked for too often. -/
def DownloadOverflows : Prop :=
  FirstRaises
    (fun runner => p.WantsDownload runner →
      p.downloadBackoff.Waits p.now runner.boundInstance.boundShard.modelId)
    (fun runner => p.WantsDownload runner
      ∧ p.downloadBackoff.Exhausted runner.boundInstance.boundShard.modelId) p.runners.values

/-- A runner that is to connect has a rank outside of its world. -/
def ConnectAsserts : Prop :=
  FirstRaises
    (fun runner => p.WantsGroup runner →
      runner.boundInstance.boundShard.Ranked ∧ p.AwaitsGroup runner)
    (fun runner => p.WantsGroup runner ∧ ¬ runner.boundInstance.boundShard.Ranked)
    p.runners.values

/-- A runner has a rank outside of its world. -/
def WarmupAsserts : Prop :=
  FirstRaises (fun runner => runner.boundInstance.boundShard.Ranked ∧ ¬ p.WarmsUp runner)
    (fun runner => ¬ runner.boundInstance.boundShard.Ranked) p.runners.values

/-- A task is for a runner of an instance with a runner that has no status. -/
def LookupFails : Prop :=
  FirstRaises
    (fun task => ∀ runner ∈ p.runners.values, p.Delivers task runner →
      p.Unready runner.boundInstance.inst)
    (fun task => FirstRaises
      (fun runner => p.Delivers task runner → p.Unready runner.boundInstance.inst)
      (fun runner => p.Delivers task runner ∧ p.Unknown runner.boundInstance.inst)
      p.runners.values)
    p.tasks.values

variable {p}

theorem wantsRunner_iff {inst : Instance} {runnerId : RunnerId}
    (hsome : inst.shardAssignments.nodeToRunner.get? p.nodeId = some runnerId) :
    p.WantsRunner inst ↔ ¬ ((p.runners.get? runnerId).isSome
      ∨ ((inst.shardAssignments.nodeToRunner.values.filter (· ≠ runnerId)).any
          (p.runnerIs RunnerStatus.isFailed) ∧ ¬ p.runnerIs RunnerStatus.isFailed runnerId)) := by
  have hown : ∀ r, inst.shardAssignments.nodeToRunner.get? p.nodeId = some r ↔ r = runnerId :=
    fun r => by rw [hsome, Option.some.injEq, eq_comm]
  have hothers : (inst.shardAssignments.nodeToRunner.values.filter (· ≠ runnerId)).any
      (p.runnerIs RunnerStatus.isFailed) ↔ ∃ r ∈ inst.shardAssignments.nodeToRunner.values,
        r ≠ runnerId ∧ p.runnerIs RunnerStatus.isFailed r := by
    simp only [List.any_eq_true, List.mem_filter, decide_eq_true_eq, and_assoc]
  have hnone : ¬ (p.runners.get? runnerId).isSome ↔ p.runners.get? runnerId = none := by
    rw [Option.not_isSome_iff_eq_none]
  simp only [WantsRunner, hown, exists_eq_left, hothers, not_or, hnone, not_and, not_not]

theorem not_wantsRunner {inst : Instance}
    (hnone : inst.shardAssignments.nodeToRunner.get? p.nodeId = none) : ¬ p.WantsRunner inst := by
  rintro ⟨runnerId, hsome, -⟩
  rw [hnone] at hsome
  cases hsome

theorem raised_createRunner : Raised p.createRunner ↔ p.CreateOverflows := by
  refine (raised_firstAnswer).trans (firstRaises_congr (fun inst _ => ?_) fun inst _ => ?_)
  · split
    · rename_i hnone
      exact ⟨fun _ h => absurd h (not_wantsRunner hnone), fun _ => rfl⟩
    · rename_i runnerId hsome
      dsimp only
      split
      · rename_i hno
        exact ⟨fun _ h => absurd hno ((wantsRunner_iff hsome).mp h), fun _ => rfl⟩
      · rename_i hyes
        rw [KeyedBackoff.shouldProceed_none]
        exact ⟨fun h _ => h, fun h => h ((wantsRunner_iff hsome).mpr hyes)⟩
  · split
    · rename_i hnone
      exact ⟨fun h => absurd h not_raised_ok, fun h => absurd h.1 (not_wantsRunner hnone)⟩
    · rename_i runnerId hsome
      dsimp only
      split
      · rename_i hno
        exact ⟨fun h => absurd h not_raised_ok,
          fun h => absurd hno ((wantsRunner_iff hsome).mp h.1)⟩
      · rename_i hyes
        rw [KeyedBackoff.raised_shouldProceed]
        exact ⟨fun h => ⟨(wantsRunner_iff hsome).mpr hyes, h⟩, fun h => h.2⟩

theorem raised_modelNeedsDownload : Raised p.modelNeedsDownload ↔ p.DownloadOverflows := by
  refine (raised_firstAnswer).trans (firstRaises_congr (fun runner _ => ?_) fun runner _ => ?_)
  · dsimp only
    split
    · rename_i hwants
      rw [KeyedBackoff.shouldProceed_none]
      exact ⟨fun h _ => h, fun h => h hwants⟩
    · rename_i hnot
      exact ⟨fun _ h => absurd h hnot, fun _ => rfl⟩
  · dsimp only
    split
    · rename_i hwants
      rw [KeyedBackoff.raised_shouldProceed]
      exact ⟨fun h => ⟨hwants, h⟩, fun h => h.2⟩
    · rename_i hnot
      exact ⟨fun h => absurd h not_raised_ok, fun h => absurd h.1 hnot⟩

variable {runner : Supervisor}

/-- The two halves of the question of `_init_distributed_backend`. -/
theorem wantsGroup_iff : p.WantsGroup runner ↔
    ¬ runner.boundInstance.inst.runnerIds.length = 1
      ∧ (runner.status = .idle
        ∧ runner.boundInstance.inst.runnerIds.all (p.runnerIs RunnerStatus.connects)) := by
  rw [WantsGroup, List.all_eq_true]

theorem awaitsGroup_iff
    (hranked : runner.boundInstance.boundShard.Ranked) : p.AwaitsGroup runner ↔
    ¬ (runner.boundInstance.boundShard.deviceRank + 1 < runner.boundInstance.boundShard.worldSize
      ∨ (runner.boundInstance.boundShard.deviceRank + 1
          = runner.boundInstance.boundShard.worldSize
        ∧ (runner.boundInstance.inst.runnerIds.filter
            (· ≠ runner.boundInstance.boundRunnerId)).all (p.runnerIs (· == .connecting)))) := by
  have hothers : (runner.boundInstance.inst.runnerIds.filter
        (· ≠ runner.boundInstance.boundRunnerId)).all (p.runnerIs (· == .connecting)) ↔
      ¬ ∃ r ∈ runner.boundInstance.inst.runnerIds, r ≠ runner.boundInstance.boundRunnerId
        ∧ ¬ p.runnerIs (· == .connecting) r := by
    simp only [List.all_eq_true, List.mem_filter, decide_eq_true_eq, not_exists, not_and, not_not,
      and_imp]
  obtain ⟨hlt, -⟩ := hranked
  rw [AwaitsGroup, hothers, not_or, not_and, not_not, Int.not_lt]
  constructor
  · intro h
    exact ⟨h.1, fun _ => h.2⟩
  · intro h
    exact ⟨h.1, h.2 (by omega)⟩

theorem raised_initDistributedBackend :
    Raised p.initDistributedBackend ↔ p.ConnectAsserts := by
  refine (raised_firstAnswer).trans (firstRaises_congr (fun runner _ => ?_) fun runner _ => ?_)
  · rw [wantsGroup_iff]
    dsimp only
    split
    · rename_i hone
      exact ⟨fun _ h => absurd hone h.1, fun _ => rfl⟩
    · rename_i hmany
      split
      · rename_i hno
        exact ⟨fun _ h => absurd h.2 hno, fun _ => rfl⟩
      · rename_i hyes
        have hwants := not_not.mp hyes
        split
        · rename_i hrank
          exact ⟨fun h => (by cases h), fun h => absurd (h ⟨hmany, hwants⟩).1 hrank⟩
        · rename_i hrank
          have hranked : runner.boundInstance.boundShard.Ranked := not_not.mp hrank
          split
          · rename_i hready
            exact ⟨fun h => (by cases h),
              fun h => absurd hready ((awaitsGroup_iff hranked).mp (h ⟨hmany, hwants⟩).2)⟩
          · rename_i hawaits
            exact ⟨fun _ _ => ⟨hranked, (awaitsGroup_iff hranked).mpr hawaits⟩, fun _ => rfl⟩
  · rw [wantsGroup_iff]
    dsimp only
    split
    · rename_i hone
      exact ⟨fun h => absurd h not_raised_ok, fun h => absurd hone h.1.1⟩
    · rename_i hmany
      split
      · rename_i hno
        exact ⟨fun h => absurd h not_raised_ok, fun h => absurd h.1.2 hno⟩
      · rename_i hyes
        split
        · rename_i hrank
          exact ⟨fun _ => ⟨⟨hmany, not_not.mp hyes⟩, hrank⟩, fun _ => raised_error⟩
        · rename_i hrank
          refine ⟨fun h => ?_, fun h => absurd (not_not.mp hrank) h.2⟩
          split at h <;> exact absurd h not_raised_ok

theorem warmsUp_iff : p.WarmsUp runner ↔ runner.status = .loaded
    ∧ (0 < runner.boundInstance.boundShard.deviceRank
        ∧ runner.boundInstance.inst.runnerIds.all (p.runnerIs fun s => s == .loaded || s.warms)
      ∨ runner.boundInstance.boundShard.deviceRank = 0
        ∧ (runner.boundInstance.inst.runnerIds.filter
          (· ≠ runner.boundInstance.boundRunnerId)).all (p.runnerIs RunnerStatus.warms)) := by
  simp only [WarmsUp, List.all_eq_true, List.mem_filter, decide_eq_true_eq, and_imp]

theorem raised_readyToWarmup : Raised p.readyToWarmup ↔ p.WarmupAsserts := by
  refine (raised_firstAnswer).trans (firstRaises_congr (fun runner _ => ?_) fun runner _ => ?_)
  · rw [warmsUp_iff]
    dsimp only
    split
    · rename_i hrank
      exact ⟨fun h => (by cases h), fun h => absurd h.1 hrank⟩
    · rename_i hrank
      split
      · rename_i hready
        exact ⟨fun h => (by cases h), fun h => absurd hready h.2⟩
      · rename_i hwaits
        exact ⟨fun _ => ⟨not_not.mp hrank, hwaits⟩, fun _ => rfl⟩
  · dsimp only
    split
    · rename_i hrank
      exact ⟨fun _ => hrank, fun _ => raised_error⟩
    · rename_i hrank
      refine ⟨fun h => ?_, fun h => absurd (not_not.mp hrank) h⟩
      split at h <;> exact absurd h not_raised_ok

/-- What the lookups of the statuses of an instance come to. -/
theorem raised_allServe (ids : List RunnerId) : Raised (allServe p.allRunners ids) ↔
    FirstRaises (fun r => p.runnerIs RunnerStatus.serves r)
      (fun r => p.allRunners.get? r = none) ids := by
  induction ids with
  | nil => simp [allServe, not_firstRaises_nil]
  | cons r ids ih =>
      rw [firstRaises_cons, allServe, runnerIs]
      cases hr : p.allRunners.get? r with
      | none => simp
      | some status =>
          cases hs : status.serves with
          | false => simp [hs]
          | true => simp [hs, ih]

theorem allServe_false (ids : List RunnerId) : allServe p.allRunners ids = .ok false ↔
    FirstRaises (fun r => p.runnerIs RunnerStatus.serves r)
      (fun r => ∃ status, p.allRunners.get? r = some status ∧ status.serves = false) ids := by
  induction ids with
  | nil => simp [allServe, not_firstRaises_nil]
  | cons r ids ih =>
      rw [firstRaises_cons, allServe, runnerIs]
      cases hr : p.allRunners.get? r with
      | none => simp
      | some status =>
          cases hs : status.serves with
          | false => simp [hs]
          | true => simp [hs, ih]

theorem delivers_iff {task : Task}
    (htask : ¬ (¬ task.isGeneration ∨ ¬ task.taskStatus.inFlight ∨ ¬ p.hasInputs task)) :
    p.Delivers task runner ↔ ¬ (task.instanceId ≠ runner.instanceId
      ∨ task.taskId ∈ runner.completed ∨ (runner.inProgress.get? task.taskId).isSome
      ∨ ¬ runner.status.serves) := by
  have hnone : ¬ (runner.inProgress.get? task.taskId).isSome
      ↔ (runner.inProgress.get? task.taskId).isNone := by
    rw [Option.not_isSome_iff_eq_none, Option.isNone_iff_eq_none]
  simp only [not_or, not_not] at htask
  simp only [Delivers, htask, not_or, not_not, ne_eq, hnone, true_and, and_self]

/-- The question of `_pending_tasks` about a task and a runner. -/
theorem delivery_none {task : Task}
    (htask : ¬ (¬ task.isGeneration ∨ ¬ task.taskStatus.inFlight ∨ ¬ p.hasInputs task)) :
    (if task.instanceId ≠ runner.instanceId ∨ task.taskId ∈ runner.completed
        ∨ (runner.inProgress.get? task.taskId).isSome ∨ ¬ runner.status.serves then .ok none
      else
        (allServe p.allRunners runner.boundInstance.inst.runnerIds).map fun ready =>
          if ready then some task else none) = (.ok none : Except PlanError (Option Task))
      ↔ (p.Delivers task runner → p.Unready runner.boundInstance.inst) := by
  rw [delivers_iff htask, Unready, ← allServe_false]
  split
  · rename_i hno
    exact ⟨fun _ h => absurd hno h, fun _ => rfl⟩
  · rename_i hyes
    cases hserve : allServe p.allRunners runner.boundInstance.inst.runnerIds with
    | error e => exact ⟨fun h => (by cases h), fun h => (by cases h hyes)⟩
    | ok ready =>
        cases ready with
        | false => exact ⟨fun _ _ => rfl, fun _ => rfl⟩
        | true => exact ⟨fun h => (by cases h), fun h => (by cases h hyes)⟩

theorem delivery_raised {task : Task}
    (htask : ¬ (¬ task.isGeneration ∨ ¬ task.taskStatus.inFlight ∨ ¬ p.hasInputs task)) :
    Raised (if task.instanceId ≠ runner.instanceId ∨ task.taskId ∈ runner.completed
        ∨ (runner.inProgress.get? task.taskId).isSome ∨ ¬ runner.status.serves then .ok none
      else
        (allServe p.allRunners runner.boundInstance.inst.runnerIds).map fun ready =>
          if ready then some task else none)
      ↔ p.Delivers task runner ∧ p.Unknown runner.boundInstance.inst := by
  rw [delivers_iff htask, Unknown, ← raised_allServe]
  split
  · rename_i hno
    exact ⟨fun h => absurd h not_raised_ok, fun h => absurd hno h.1⟩
  · rename_i hyes
    cases hserve : allServe p.allRunners runner.boundInstance.inst.runnerIds with
    | error e => exact ⟨fun _ => ⟨hyes, raised_error⟩, fun _ => ⟨e, rfl⟩⟩
    | ok ready =>
        exact ⟨fun h => absurd h not_raised_ok, fun h => absurd h.2 not_raised_ok⟩

theorem raised_pendingTasks : Raised p.pendingTasks ↔ p.LookupFails := by
  refine (raised_firstAnswer).trans (firstRaises_congr (fun task _ => ?_) fun task _ => ?_)
  · split
    · rename_i hno
      refine ⟨fun _ runner _ hd => ?_, fun _ => rfl⟩
      obtain ⟨⟨hg, hf, hi⟩, -⟩ := hd
      rcases hno with hno | hno | hno
      · exact absurd hg hno
      · exact absurd hf hno
      · exact absurd hi hno
    · rename_i htask
      rw [firstAnswer_none]
      exact forall₂_congr fun runner _ => delivery_none htask
  · split
    · rename_i hno
      refine ⟨fun h => absurd h not_raised_ok, fun h => ?_⟩
      obtain ⟨i, runner, -, -, ⟨⟨hg, hf, hi⟩, -⟩, -⟩ := h
      rcases hno with hno | hno | hno
      · exact absurd hg hno
      · exact absurd hf hno
      · exact absurd hi hno
    · rename_i htask
      exact (raised_firstAnswer).trans (firstRaises_congr (fun runner _ => delivery_none htask)
        fun runner _ => delivery_raised htask)

/-! ## Planning -/

variable (p)

/-- The questions of `plan`, in their order. -/
def questions : List (Except PlanError (Option Task)) :=
  [.ok p.cancelTasks, .ok p.killRunner, p.createRunner, p.modelNeedsDownload,
    p.initDistributedBackend, .ok p.loadModel, p.readyToWarmup, p.pendingTasks]

/-- The first `k` questions have no answer. -/
def Silent (k : Nat) : Prop := ∀ q ∈ p.questions.take k, q = .ok none

/-- A place that raises is reached, and raises. -/
inductive Raises : Prop where
  | create (silent : p.Silent 2) (overflows : p.CreateOverflows)
  | download (silent : p.Silent 3) (overflows : p.DownloadOverflows)
  | connect (silent : p.Silent 4) (asserts : p.ConnectAsserts)
  | warmup (silent : p.Silent 6) (asserts : p.WarmupAsserts)
  | lookup (silent : p.Silent 7) (fails : p.LookupFails)

variable {p}

/-- **What `plan` raises, it raises in one of five places.** -/
theorem raised_plan : Raised p.plan ↔ p.Raises := by
  refine (raised_firstAnswer (f := id) (l := p.questions)).trans ?_
  constructor
  · rintro ⟨i, q, hi, hsilent, hq⟩
    match i, hi with
    | 0, hi | 1, hi | 5, hi =>
        obtain rfl := Option.some.inj hi
        exact absurd hq not_raised_ok
    | 2, hi =>
        obtain rfl := Option.some.inj hi
        exact .create hsilent (raised_createRunner.1 hq)
    | 3, hi =>
        obtain rfl := Option.some.inj hi
        exact .download hsilent (raised_modelNeedsDownload.1 hq)
    | 4, hi =>
        obtain rfl := Option.some.inj hi
        exact .connect hsilent (raised_initDistributedBackend.1 hq)
    | 6, hi =>
        obtain rfl := Option.some.inj hi
        exact .warmup hsilent (raised_readyToWarmup.1 hq)
    | 7, hi =>
        obtain rfl := Option.some.inj hi
        exact .lookup hsilent (raised_pendingTasks.1 hq)
    | i + 8, hi => cases hi
  · intro h
    cases h with
    | create silent overflows =>
        exact ⟨2, _, rfl, silent, raised_createRunner.2 overflows⟩
    | download silent overflows =>
        exact ⟨3, _, rfl, silent, raised_modelNeedsDownload.2 overflows⟩
    | connect silent asserts =>
        exact ⟨4, _, rfl, silent, raised_initDistributedBackend.2 asserts⟩
    | warmup silent asserts => exact ⟨6, _, rfl, silent, raised_readyToWarmup.2 asserts⟩
    | lookup silent fails => exact ⟨7, _, rfl, silent, raised_pendingTasks.2 fails⟩

theorem returns_iff : (∃ answer, p.plan = .ok answer) ↔ ¬ p.Raises := by
  rw [← raised_plan]
  cases p.plan with
  | error e => simp
  | ok answer => simp

end PlanInput

end Exo
