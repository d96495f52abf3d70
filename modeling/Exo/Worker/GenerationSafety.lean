import Exo.Worker.Generation

/-!
# The engine and the runner agree on what is live
-/

namespace Exo

open Lib (Dict Machine)

/-! ## What a step inside the engine does -/

namespace Generation

/-- There are no more tasks in work than there may be. -/
def Bounded (maxConcurrentRequests : Nat) (g : Generation) : Prop :=
  g.engine.activeTasks.entries.length + g.stage.starting.length ≤ maxConcurrentRequests

/-- A step that stays inside `step`: tasks move around, and cancellations come in. -/
structure Moves (maxConcurrentRequests : Nat) (g g' : Generation) : Prop where
  runner : g'.runner = g.runner
  rounds : g'.rounds = g.rounds
  stage : g'.stage ≠ .entering
  allTasks : g'.engine.allTasks = g.engine.allTasks
  /-- At most one task gets lost, and it is cancelled. -/
  live : g.live.Perm g'.live ∨ ∃ t ∈ g'.engine.cancelledTasks, g.live.Perm (t :: g'.live)
  cancelledTasks : ∀ t ∈ g.engine.cancelledTasks, t ∈ g'.engine.cancelledTasks
  known : ∀ t ∈ g'.engine.cancelledTasks, t ∈ g.engine.cancelledTasks ∨ t = CANCEL_ALL_TASKS
    ∨ t ∈ g.engine.maybeCancel ∨ t ∈ g.engine.allTasks
  maybeCancel : ∀ t ∈ g'.engine.maybeCancel, t ∈ g.engine.maybeCancel ∨ t ∈ g.engine.allTasks
  uids : ∀ uid ∈ g'.engine.activeTasks.keys, uid < g'.engine.gen.inserted
  gen : ∀ task ∈ g'.engine.gen.activeTasks.values, task.taskId ∈ g.engine.allTasks
  maybeQueue : ∀ t ∈ g.engine.maybeQueue, t ∈ g'.engine.maybeQueue ++ g'.engine.queue
  /-- Tasks leave the queue from its front. -/
  queue : (∃ agreed, g'.engine.queue = g.engine.queue ++ agreed)
    ∨ ∃ t, g.engine.queue = t :: g'.engine.queue ∧ t ∈ g'.stage.starting
  starting : ∀ t ∈ g.stage.starting,
    t ∈ g'.stage.starting ∨ t ∈ g'.engine.activeTasks.values ∨ t ∈ g'.engine.cancelledTasks
  active : ∀ uid t, g.engine.activeTasks.get? uid = some t →
    g'.engine.activeTasks.get? uid = some t
  bounded : g.Bounded maxConcurrentRequests → g'.Bounded maxConcurrentRequests

/-- The end of a call of `step`, after its responses were handled. -/
structure Finishes (g g' : Generation) (e : BatchGenerator)
    (output : List (TaskId × GenerationResponse)) : Prop where
  stage : g.stage = .submitting ∨ ∃ results, g.stage = .generating results
  engine : ∃ activeTasks, e = { g.engine with activeTasks := activeTasks }
  outputs : BatchGenerator.Outputs g.engine.activeTasks e.activeTasks output
  finish : g.finish e output = some g'

/--
Cancellations are applied when no cancelled task is queued, and a prefill is only cancelled
by a cancellation of its own task.
-/
def timely (g : Generation) : GenerationAction → Bool
  | .engine .finish | .engine .noWork =>
      decide (∀ t ∈ g.engine.cancelledTasks, t ∉ g.engine.queue ∧ t ∉ g.engine.maybeQueue)
  | .engine (.check _) =>
      decide (∀ t ∈ g.stage.starting, g.engine.shouldCancel t → t ∈ g.engine.cancelledTasks)
  | _ => true

section Steps

variable {g g' : Generation} {maxConcurrentRequests : Nat} {e : BatchGenerator}

variable {others : Others}

/-- What the collectives of a rank keep of its engine. -/
theorem agree_ensures {p : Lib.Proc Hidden Contribution Agreements} {Q : Agreements → Prop} (hp : p.Ensures Q)
    (h : g.engine.agree p others = some e) :
    ∃ a, Q a ∧ e = { g.engine with toAgreements := a } := by
  obtain ⟨a, ha, rfl⟩ := Option.map_eq_some_iff.mp h
  exact ⟨a, hp.hear ha, rfl⟩

/-- The numbers and tasks of the generator are those of the engine. -/
structure Numbered (g : Generation) : Prop where
  nodup : g.live.Nodup
  live : ∀ t ∈ g.live, t ∈ g.engine.allTasks
  uids : ∀ uid ∈ g.engine.activeTasks.keys, uid < g.engine.gen.inserted
  gen : ∀ task ∈ g.engine.gen.activeTasks.values, task.taskId ∈ g.engine.allTasks

theorem Numbered.nodup_maybeQueue (h : Numbered g) : g.engine.maybeQueue.Nodup :=
  h.nodup.of_append_left.of_append_left.of_append_left

theorem Numbered.nodup_activeTasks (h : Numbered g) : g.engine.activeTasks.values.Nodup :=
  h.nodup.of_append_right

variable {stage : EngineStage}

/-- Tasks that the ranks agree on go from one queue to the other. -/
theorem moves_agreeOnTasks (hg : Numbered g)
    (h : g.engine.agree g.engine.agreeOnTasks others = some e)
    (hstage : stage.starting = g.stage.starting) (hne : stage ≠ .entering) :
    Moves maxConcurrentRequests g { g with engine := e, stage := stage } := by
  obtain ⟨a, ha, rfl⟩ := agree_ensures (Agreements.ensures_agreeOnTasks _) h
  have hqueued := ha.queued hg.nodup_maybeQueue
  refine ⟨rfl, rfl, hne, ha.allTasks, .inl ?_, ?_, ?_, ?_, hg.uids, hg.gen,
    fun t ht => hqueued.symm.subset (List.mem_append_left _ ht), .inl ha.appended,
    fun t ht => .inl (hstage ▸ ht), fun _ _ h => h, fun h => ?_⟩
  · show g.live.Perm (a.maybeQueue ++ a.queue ++ stage.starting ++ _)
    rw [hstage]
    exact (hqueued.symm.append_right _).append_right _
  · exact fun t ht => ha.cancelledTasks ▸ ht
  · exact fun t ht => .inl (ha.cancelledTasks ▸ ht)
  · exact fun t ht => .inl (ha.maybeCancel ▸ ht)
  · unfold Bounded at h ⊢
    exact hstage ▸ h

/-- The engine goes on to another place. -/
theorem moves_stage (hg : Numbered g) (hstage : stage.starting = g.stage.starting)
    (hne : stage ≠ .entering) : Moves maxConcurrentRequests g { g with stage := stage } := by
  refine ⟨rfl, rfl, hne, rfl, .inl ?_, fun _ ht => ht, fun _ ht => .inl ht, fun _ ht => .inl ht,
    hg.uids, hg.gen, fun t ht => List.mem_append_left _ ht, .inl ⟨[], (List.append_nil _).symm⟩,
    fun t ht => .inl (hstage ▸ ht), fun _ _ h => h,
    fun h => by unfold Bounded at h ⊢; exact hstage ▸ h⟩
  rw [live, live, hstage]

theorem moves_agreeOnCancellations (hg : Numbered g)
    (h : g.engine.agree g.engine.agreeOnCancellations others = some e)
    (hstage : stage.starting = g.stage.starting) (hne : stage ≠ .entering) :
    Moves maxConcurrentRequests g { g with engine := e, stage := stage } := by
  obtain ⟨a, ha, rfl⟩ := agree_ensures (Agreements.ensures_agreeOnCancellations _) h
  refine ⟨rfl, rfl, hne, ha.allTasks, .inl ?_, ha.kept, ha.cancelledTasks, ha.maybeCancel,
    hg.uids, hg.gen, fun t ht => List.mem_append_left _ (ha.maybeQueue ▸ ht),
    .inl ⟨[], ha.queue.trans (List.append_nil _).symm⟩, fun t ht => .inl (hstage ▸ ht),
    fun _ _ h => h, fun h => by unfold Bounded at h ⊢; exact hstage ▸ h⟩
  show g.live.Perm (a.maybeQueue ++ a.queue ++ stage.starting ++ _)
  rw [hstage, ha.queue, ha.maybeQueue]
  exact .refl _

/-- A prefilled task is active under a number that no other task has. -/
theorem moves_activate (hg : Numbered g) {task : TaskId} (hs : g.stage = .prefilling task) :
    Moves maxConcurrentRequests g { g with engine := g.engine.activate task, stage := .submitting } := by
  have hnew : g.engine.gen.inserted ∉ g.engine.activeTasks.keys := fun h =>
    absurd (hg.uids _ h) (Nat.lt_irrefl _)
  have htask : task ∈ g.engine.allTasks := by
    refine hg.live task ?_
    rw [live, hs]
    simp [EngineStage.starting]
  refine ⟨rfl, rfl, by simp, rfl, .inl ?_, fun _ ht => ht, fun _ ht => .inl ht,
    fun _ ht => .inl ht, fun uid huid => ?_, fun x hx => ?_,
    fun t ht => List.mem_append_left _ ht, .inl ⟨[], (List.append_nil _).symm⟩, fun t ht => ?_,
    fun uid t huid => ?_, fun h => ?_⟩
  · show g.live.Perm (g.engine.maybeQueue ++ g.engine.queue ++ [] ++ (Dict.set _ _ _).values)
    rw [live, hs, Dict.values_set_of_new hnew, List.append_nil, List.append_assoc]
    exact List.perm_append_comm.append_left _
  · rw [Dict.mem_keys] at huid
    simp only [BatchGenerator.activate, Dict.get?_set] at huid ⊢
    split at huid
    · omega
    · have := hg.uids uid (Dict.mem_keys.2 huid)
      omega
  · obtain ⟨uid, huid⟩ := Dict.mem_values.1 hx
    simp only [BatchGenerator.activate, Dict.get?_set] at huid
    split at huid
    · rw [← Option.some.inj huid]; exact htask
    · exact hg.gen x (Dict.mem_values.2 ⟨uid, huid⟩)
  · rw [hs] at ht
    refine .inr (.inl ?_)
    show t ∈ (Dict.set _ _ _).values
    rw [Dict.values_set_of_new hnew]
    exact List.mem_append_right _ ht
  · have hne : uid ≠ g.engine.gen.inserted := fun heq =>
      hnew (heq ▸ Dict.mem_keys.2 (by rw [huid]; rfl))
    show (Dict.set _ _ _).get? uid = some t
    rw [Dict.get?_set_ne _ _ hne]
    exact huid
  · have hlen : (g.engine.activeTasks.set g.engine.gen.inserted task).entries.length
        = g.engine.activeTasks.entries.length + 1 := by
      have := congrArg List.length (Dict.values_set_of_new (v := task) hnew)
      simpa [Dict.values] using this
    unfold Bounded at h ⊢
    rw [hs] at h
    show (Dict.set _ _ _).entries.length + 0 ≤ _
    rw [hlen]
    exact h

theorem moves_token (hg : Numbered g) {r : TokenResponse}
    {results : List TokenResponse} (hs : g.stage = .generating results)
    (h : g.engine.token r others = some e) :
    Moves maxConcurrentRequests g { g with engine := e, stage := .generating (results ++ [r]) } := by
  have ht := BatchGenerator.tokens_token h
  obtain ⟨task, htask, hc⟩ := ht.checks
  have hqueued := hc.queued hg.nodup_maybeQueue
  refine ⟨rfl, rfl, by simp, hc.allTasks, .inl ?_, hc.kept, fun t hmem => ?_, hc.maybeCancel,
    ?_, fun x hx => ?_, fun t ht => hqueued.symm.subset (List.mem_append_left _ ht),
    .inl hc.appended, fun t hmem => ?_, fun uid t huid => ?_, fun h => ?_⟩
  · show g.live.Perm (e.maybeQueue ++ e.queue ++ [] ++ e.activeTasks.values)
    rw [live, hs, ht.activeTasks]
    exact (hqueued.symm.append_right _).append_right _
  · rcases hc.cancelledTasks t hmem with h | h | h | h | rfl
    · exact .inl h
    · exact .inr (.inl h)
    · exact .inr (.inr (.inl h))
    · exact .inr (.inr (.inr h))
    · exact .inr (.inr (.inr (hg.gen _ htask)))
  · rw [ht.activeTasks, ht.inserted]
    exact hg.uids
  · obtain ⟨x', hx', heq⟩ := ht.gen x hx
    rw [← heq]
    exact hg.gen x' hx'
  · rw [hs] at hmem
    cases hmem
  · rw [← huid, ht.activeTasks]
  · unfold Bounded at h ⊢
    rw [ht.activeTasks]
    rw [hs] at h
    exact h

/-- **What a step of the engine can do.** -/
theorem stepEngine_cases (hg : Numbered g) {a : EngineAction}
    (ht : g.timely (.engine a) = true)
    (h : g.stepEngine maxConcurrentRequests g.stage a = some g') :
    Moves maxConcurrentRequests g g'
      ∨ (g.timely (.engine .finish) = true ∧ ∃ e output, Finishes g g' e output)
      ∨ g' = { g with runner := (g.runner.raise "Exception").1 } := by
  unfold stepEngine at h
  split at h
  · -- the engine enters
    rename_i others hs
    split at h
    · obtain ⟨e, he, rfl⟩ := Option.map_eq_some_iff.mp h
      exact .inl (moves_agreeOnTasks hg he (by rw [hs]; rfl) (by simp))
    · rw [← Option.some.inj h]
      exact .inl (moves_stage hg (by rw [hs]; rfl) (by simp))
  · -- a task leaves the queue
    rename_i hs
    split at h
    · cases h
    · rename_i task queue hq
      split at h
      · rw [← Option.some.inj h]
        rename_i hroom
        have hnone : ∀ t, t ∉ g.stage.starting := by
          rw [hs]
          exact fun _ => List.not_mem_nil
        simp only [submits, Bool.and_eq_true, decide_eq_true_eq] at hroom
        refine .inl ⟨rfl, rfl, by simp, rfl, .inl ?_, fun _ ht => ht, fun _ ht => .inl ht,
          fun _ ht => .inl ht, hg.uids, hg.gen, fun t ht => List.mem_append_left _ ht,
          .inr ⟨task, hq, List.mem_singleton_self task⟩, fun t ht => absurd ht (hnone t),
          fun _ _ huid => huid, fun _ => hroom.2⟩
        rw [live, live, hs, hq]
        show (_ ++ task :: queue ++ [] ++ _).Perm (_ ++ queue ++ [task] ++ _)
        rw [List.append_nil, List.append_assoc _ queue]
        exact ((List.perm_append_singleton task queue).symm.append_left _).append_right _
      · cases h
  · rename_i task others hs
    obtain ⟨e, he, rfl⟩ := Option.map_eq_some_iff.mp h
    exact .inl (moves_agreeOnCancellations hg he (by rw [hs]; rfl) (by simp))
  · rename_i task others hs
    split at h
    · -- the prefill is cancelled
      rename_i hc
      rw [← Option.some.inj h]
      have hcancelled : task ∈ g.engine.cancelledTasks :=
        of_decide_eq_true ht task (by rw [hs]; exact List.mem_singleton_self task) hc
      refine .inl ⟨rfl, rfl, by simp, rfl, .inr ⟨task, hcancelled, ?_⟩, fun _ ht => ht,
        fun _ ht => .inl ht, fun _ ht => .inl ht, hg.uids, hg.gen,
        fun t ht => List.mem_append_left _ ht, .inl ⟨[], (List.append_nil _).symm⟩,
        fun t ht => ?_, fun _ _ huid => huid, fun hb => ?_⟩
      rotate_left
      · rw [hs] at ht
        exact .inr (.inr (List.mem_singleton.mp ht ▸ hcancelled))
      · unfold Bounded at hb ⊢
        exact (Nat.le_add_right _ _).trans hb
      rw [live, live, hs]
      show (_ ++ [task] ++ _).Perm (task :: (_ ++ [] ++ _))
      rw [List.append_nil, List.append_assoc]
      exact List.perm_middle
    · obtain ⟨e, he, rfl⟩ := Option.map_eq_some_iff.mp h
      exact .inl (moves_agreeOnTasks hg he (by rw [hs]; rfl) (by simp))
  · rename_i task hs
    rw [← Option.some.inj h]
    exact .inl (moves_activate hg hs)
  · rename_i hs
    split at h
    · cases h
    · rw [← Option.some.inj h]
      exact .inl (moves_stage hg (by rw [hs]; rfl) (by simp))
  · rename_i hs
    split at h
    · cases h
    · refine .inr (.inl ⟨ht, g.engine, [], .inl hs, ⟨g.engine.activeTasks, rfl⟩, ?_, h⟩)
      exact BatchGenerator.outputs_spec [] _ hg.nodup_activeTasks
  · rename_i results r others hs
    obtain ⟨e, he, rfl⟩ := Option.map_eq_some_iff.mp h
    exact .inl (moves_token hg hs he)
  · rename_i results hs
    refine .inr (.inl ⟨ht, _, _, .inr ⟨results, hs⟩, ⟨_, rfl⟩, ?_, h⟩)
    exact BatchGenerator.outputs_spec results _ hg.nodup_activeTasks
  · exact .inr (.inr (Option.some.inj h).symm)
  · cases h

end Steps

/-! ## The invariant -/

/-- The runner goes on. -/
def Running (g : Generation) : Prop := ∀ exitcode, g.runner.phase ≠ .exited exitcode

/-- What the engine, the runner and the rounds so far say about each other. -/
structure Sound (g : Generation) : Prop extends Numbered g where
  live_active : ∀ t ∈ g.live, t ∈ g.runner.activeTasks.keys
  /-- A task that the engine lost inside `step` is cancelled before `step` returns. -/
  active_live : g.Running → ∀ t ∈ g.runner.activeTasks.keys,
    t ∈ g.live ∨ (g.stage ≠ .entering ∧ t ∈ g.engine.cancelledTasks)
  active_known : g.Running → ∀ t ∈ g.runner.activeTasks.keys, t ∈ g.engine.allTasks
  seen : ∀ t ∈ g.engine.allTasks, t ∈ g.runner.seen ∧ t ≠ CANCEL_ALL_TASKS
  cancelledTasks : ∀ t ∈ g.engine.cancelledTasks,
    t = CANCEL_ALL_TASKS ∨ t ∈ g.engine.allTasks
  maybeCancel : ∀ t ∈ g.engine.maybeCancel, t ∈ g.engine.allTasks
  stage : g.Running → g.stage ≠ .entering → g.runner.phase = .generating
  /-- Results are about tasks that were submitted, and a task that ended is not active. -/
  responded : ∀ round ∈ g.rounds, ∀ p ∈ round.results,
    p.1 ∈ g.engine.allTasks ∧ (p.2 ≠ .chunk → p.1 ∉ g.runner.activeTasks.keys)
  lookups : ∀ round ∈ g.rounds, ∀ p ∈ round.results, p.2 = .chunk → p.1 ∈ round.active
  ordered : (g.rounds.flatMap Round.results).Pairwise BatchGenerator.InOrder
  left : ∀ t ∈ g.engine.allTasks, t ∉ g.runner.activeTasks.keys →
    (g.rounds.filter (·.ends t)).length = 1

section Sound

variable {g g' : Generation}

theorem sound_start (boundInstance : BoundInstance) (port : Option Nat) (seen : List TaskId)
    (checkForCancelEvery : Nat) : Sound (start boundInstance port seen checkForCancelEvery) := by
  have hn : Numbered (start boundInstance port seen checkForCancelEvery) := by
    constructor <;> simp [start, live, EngineStage.starting, Dict.keys]
  exact { hn with
    live_active := by simp [start, live, EngineStage.starting]
    active_live := by simp [start, Dict.keys]
    active_known := by simp [start, Dict.keys]
    seen := by simp [start]
    cancelledTasks := by simp [start]
    maybeCancel := by simp [start]
    stage := by simp [start]
    responded := by simp [start]
    lookups := by simp [start]
    ordered := by simp [start]
    left := by simp [start] }

variable {maxConcurrentRequests : Nat}

/-- **Inside `step`.** -/
theorem Sound.moves (h : Sound g) (hr : g.runner.phase = .generating) (hm : Moves maxConcurrentRequests g g') :
    Sound g' := by
  have hrun : g.Running := fun exitcode => by rw [hr]; simp
  have hlive : ∀ t ∈ g'.live, t ∈ g.live := by
    intro t ht
    rcases hm.live with hp | ⟨t', -, hp⟩
    · exact hp.mem_iff.mpr ht
    · exact hp.mem_iff.mpr (List.mem_cons_of_mem _ ht)
  have hmaybe : ∀ t ∈ g'.engine.maybeCancel, t ∈ g'.engine.allTasks := by
    intro t ht
    rw [hm.allTasks]
    rcases hm.maybeCancel t ht with h' | h'
    · exact h.maybeCancel t h'
    · exact h'
  refine
    { nodup := ?_
      live := fun t ht => hm.allTasks ▸ h.live t (hlive t ht)
      uids := hm.uids
      gen := fun task ht => hm.allTasks ▸ hm.gen task ht
      live_active := fun t ht => hm.runner ▸ h.live_active t (hlive t ht)
      active_live := fun _ t ht => ?_
      active_known := fun _ t ht => hm.allTasks ▸ h.active_known hrun t (hm.runner ▸ ht)
      seen := fun t ht => hm.runner ▸ h.seen t (hm.allTasks ▸ ht)
      cancelledTasks := fun t ht => ?_
      maybeCancel := hmaybe
      stage := fun _ _ => hm.runner ▸ hr
      responded := by rw [hm.rounds, hm.allTasks, hm.runner]; exact h.responded
      lookups := by rw [hm.rounds]; exact h.lookups
      ordered := by rw [hm.rounds]; exact h.ordered
      left := by rw [hm.rounds, hm.allTasks, hm.runner]; exact h.left }
  · rcases hm.live with hp | ⟨t', -, hp⟩
    · exact hp.nodup h.nodup
    · exact (List.nodup_cons.mp (hp.nodup h.nodup)).2
  · rcases h.active_live hrun t (hm.runner ▸ ht) with hl | ⟨-, hc⟩
    · rcases hm.live with hp | ⟨t', hc', hp⟩
      · exact .inl (hp.mem_iff.mp hl)
      · rcases List.mem_cons.mp (hp.mem_iff.mp hl) with rfl | hl
        · exact .inr ⟨hm.stage, hc'⟩
        · exact .inl hl
    · exact .inr ⟨hm.stage, hm.cancelledTasks t hc⟩
  · rw [hm.allTasks]
    rcases hm.known t ht with hc | hc | hc | hc
    · exact h.cancelledTasks t hc
    · exact .inl hc
    · exact .inr (h.maybeCancel t hc)
    · exact .inr hc

variable {r : Runner}

/-- The runner moves on and its active tasks are those that it had. -/
theorem Sound.runner (h : Sound g)
    (hkeys : ∀ t ∈ g.engine.allTasks,
      (t ∈ r.activeTasks.keys ↔ t ∈ g.runner.activeTasks.keys))
    (hseen : ∀ t ∈ g.runner.seen, t ∈ r.seen)
    (hrun : (∀ exitcode, r.phase ≠ .exited exitcode) → g.Running
      ∧ (∀ t ∈ r.activeTasks.keys, t ∈ g.runner.activeTasks.keys)
      ∧ (g.stage ≠ .entering → r.phase = .generating)) :
    Sound { g with runner := r } where
  nodup := h.nodup
  live := h.live
  uids := h.uids
  gen := h.gen
  live_active := fun t ht => (hkeys t (h.live t ht)).mpr (h.live_active t ht)
  active_live := fun hr t ht => h.active_live (hrun hr).1 t ((hrun hr).2.1 t ht)
  active_known := fun hr t ht => h.active_known (hrun hr).1 t ((hrun hr).2.1 t ht)
  seen := fun t ht => ⟨hseen t (h.seen t ht).1, (h.seen t ht).2⟩
  cancelledTasks := h.cancelledTasks
  maybeCancel := h.maybeCancel
  stage := fun hr => (hrun hr).2.2
  responded := fun round hround p hp =>
    have := h.responded round hround p hp
    ⟨this.1, fun hc hmem => this.2 hc ((hkeys _ this.1).mp hmem)⟩
  lookups := h.lookups
  ordered := h.ordered
  left := fun t ht hmem => h.left t ht fun hold => hmem ((hkeys t ht).mpr hold)

theorem Sound.receive (h : Sound g) (taskId : TaskId) :
    Sound { g with engine := { g.engine with
      toAgreements := g.engine.toAgreements.receive taskId } } :=
  { nodup := h.nodup, live := h.live, uids := h.uids, gen := h.gen
    live_active := h.live_active, active_live := h.active_live
    active_known := h.active_known, seen := h.seen, cancelledTasks := h.cancelledTasks
    maybeCancel := h.maybeCancel, stage := h.stage, responded := h.responded
    lookups := h.lookups, ordered := h.ordered, left := h.left }

/-- Outside `step`, the engine holds what is active in the runner. -/
theorem Sound.live_iff (h : Sound g) (hr : g.Running) (hs : g.stage = .entering) (t : TaskId) :
    t ∈ g.runner.activeTasks.keys ↔ t ∈ g.live := by
  constructor
  · intro ht
    rcases h.active_live hr t ht with hl | ⟨hne, -⟩
    · exact hl
    · exact absurd hs hne
  · exact h.live_active t

/-- A new task is active, and waits for the other ranks. -/
theorem Sound.submit (h : Sound g) {task : Task} (hr : g.Running)
    (hs : g.stage = .entering) (hnew : task.taskId ∉ g.runner.seen)
    (hid : task.taskId ≠ CANCEL_ALL_TASKS)
    (hactive : r.activeTasks = g.runner.activeTasks.set task.taskId task)
    (hseen : ∀ t ∈ g.runner.seen, t ∈ r.seen) (htaken : task.taskId ∈ r.seen) :
    Sound { g with runner := r, engine := g.engine.submit task.taskId } := by
  have hkeys : ∀ t, t ∈ r.activeTasks.keys ↔ t = task.taskId ∨ t ∈ g.runner.activeTasks.keys := by
    intro t
    rw [Dict.mem_keys, hactive, Dict.get?_set, Dict.mem_keys]
    by_cases ht : t = task.taskId <;> simp [ht]
  have hunknown : task.taskId ∉ g.engine.allTasks := fun hmem => hnew (h.seen _ hmem).1
  have hlive : ({ g with runner := r, engine := g.engine.submit task.taskId } : Generation).live.Perm
      (task.taskId :: g.live) := by
    show ((g.engine.maybeQueue ++ [task.taskId]) ++ g.engine.queue ++ g.stage.starting
      ++ g.engine.activeTasks.values).Perm _
    rw [live]
    simp only [List.append_assoc, List.singleton_append]
    exact List.perm_middle
  have hall : ∀ t, t ∈ (g.engine.submit task.taskId).allTasks
      ↔ t = task.taskId ∨ t ∈ g.engine.allTasks := fun t => List.mem_insert_iff
  have hcancelled : ∀ t ∈ (g.engine.submit task.taskId).cancelledTasks,
      t ∈ g.engine.cancelledTasks := fun t ht => List.mem_of_mem_filter ht
  refine
    { nodup := hlive.symm.nodup (List.nodup_cons.mpr
        ⟨fun hmem => hunknown (h.live _ hmem), h.nodup⟩)
      live := fun t ht => ?_
      uids := h.uids
      gen := fun x hx => (hall _).mpr (.inr (h.gen x hx))
      live_active := fun t ht => ?_
      active_live := fun _ t ht => .inl (hlive.mem_iff.mpr ?_)
      active_known := fun _ t ht => (hall t).mpr ?_
      seen := fun t ht => ?_
      cancelledTasks := fun t ht => ?_
      maybeCancel := fun t ht => (hall t).mpr (.inr (h.maybeCancel t ht))
      stage := fun _ hne => absurd hs hne
      responded := fun round hround p hp => ?_
      lookups := h.lookups
      ordered := h.ordered
      left := fun t ht hmem => ?_ }
  · rw [hall]
    exact (List.mem_cons.mp (hlive.mem_iff.mp ht)).imp_right (h.live t)
  · rw [hkeys]
    exact (List.mem_cons.mp (hlive.mem_iff.mp ht)).imp_right (h.live_active t)
  · rw [List.mem_cons]
    exact ((hkeys t).mp ht).imp_right (h.live_iff hr hs t).mp
  · exact ((hkeys t).mp ht).imp_right (h.active_known hr t)
  · rcases (hall t).mp ht with rfl | ht
    · exact ⟨htaken, hid⟩
    · exact ⟨hseen t (h.seen t ht).1, (h.seen t ht).2⟩
  · rw [hall]
    exact (h.cancelledTasks t (hcancelled t ht)).imp_right .inr
  · obtain ⟨hknown, hgone⟩ := h.responded round hround p hp
    refine ⟨(hall _).mpr (.inr hknown), fun hc hmem => ?_⟩
    rcases (hkeys _).mp hmem with heq | hmem
    · exact hunknown (heq ▸ hknown)
    · exact hgone hc hmem
  · rw [hkeys, not_or] at hmem
    exact h.left t (((hall t).mp ht).resolve_left hmem.1) hmem.2

/-- The responses end the task. -/
def Ends (all : List (TaskId × GenerationResponse)) (t : TaskId) : Prop :=
  ∃ p ∈ all, p.1 = t ∧ p.2 ≠ .chunk

/--
What a call of `step` that returns has done. `all` is what it returns, with the chunks that
only the first rank passes on.
-/
structure Returns (g g' : Generation) (all : List (TaskId × GenerationResponse)) : Prop where
  queue : g'.engine.queue = g.engine.queue
  maybeQueue : g'.engine.maybeQueue = g.engine.maybeQueue
  allTasks : g'.engine.allTasks = g.engine.allTasks
  maybeCancel : g'.engine.maybeCancel = g.engine.maybeCancel
  cancelledTasks : g'.engine.cancelledTasks = []
  inserted : g'.engine.gen.inserted = g.engine.gen.inserted
  gen : ∀ task ∈ g'.engine.gen.activeTasks.values, task ∈ g.engine.gen.activeTasks.values
  stage : g'.stage = .entering
  /-- Nothing that ends a task is held back. -/
  rounds : ∃ results, g'.rounds = g.rounds ++ [⟨g.runner.activeTasks.keys, results⟩]
    ∧ results.Sublist all ∧ ∀ p ∈ all, p.2 ≠ .chunk → p ∈ results
  phase : g'.runner.phase = .polling
  seen : g'.runner.seen = g.runner.seen
  active : ∀ t, t ∈ g'.runner.activeTasks.keys ↔ t ∈ g.runner.activeTasks.keys ∧ ¬ Ends all t
  nodup : g'.engine.activeTasks.values.Nodup
  stays : ∀ uid t, g'.engine.activeTasks.get? uid = some t → g.engine.activeTasks.get? uid = some t
  gone : ∀ t, Ends all t → t ∉ g'.engine.activeTasks.values
  kept : ∀ t ∈ g.engine.activeTasks.values, t ∈ g'.engine.activeTasks.values ∨ Ends all t
  reported : ∀ t ∈ g.engine.cancelledTasks, t ≠ CANCEL_ALL_TASKS → Ends all t
  origin : ∀ p ∈ all, p.1 ∈ g.engine.activeTasks.values
    ∨ p.2 ≠ .chunk ∧ p.1 ≠ CANCEL_ALL_TASKS ∧ p.1 ∈ g.engine.cancelledTasks
  ordered : all.Pairwise BatchGenerator.InOrder

theorem returns_of_finishes {e : BatchGenerator} {output : List (TaskId × GenerationResponse)}
    (hr : g.runner.phase = .generating)
    (hactive : ∀ t ∈ g.engine.activeTasks.values, t ∈ g.runner.activeTasks.keys)
    (hf : Finishes g g' e output) :
    ∃ all, Returns g g' all := by
  obtain ⟨activeTasks, he⟩ := hf.engine
  have hout := hf.outputs
  have hc := e.applyCancellations_spec
  have hfinish := hf.finish
  unfold Generation.finish at hfinish
  generalize e.applyCancellations = p at hc hfinish
  obtain ⟨e', cancelled⟩ := p
  dsimp only at hc hfinish
  obtain ⟨⟨r, sent⟩, hstep, rfl⟩ := Option.map_eq_some_iff.mp hfinish
  generalize hresults : (output ++ cancelled).filter
    (fun p => p.2 ≠ .chunk || e'.deviceRank = 0) = results at hstep
  have hsub : results.Sublist (output ++ cancelled) := hresults ▸ List.filter_sublist
  have hkeep : ∀ p ∈ output ++ cancelled, p.2 ≠ .chunk → p ∈ results := fun p hp hne => by
    rw [← hresults]
    exact List.mem_filter.mpr ⟨hp, by simp [hne]⟩
  -- a chunk is of a task that was active in the engine
  have hok : (g.runner.responseEvents results).2 = true := by
    refine g.runner.responseEvents_ok results fun p hp hchunk => ?_
    rcases List.mem_append.mp (hsub.subset hp) with h | h
    · exact hactive _ (hout.owned p h)
    · rw [(hc.origin p h).1] at hchunk
      cases hchunk
  unfold Runner.engineStep at hstep
  rw [hr] at hstep
  dsimp only at hstep
  rw [if_pos hok] at hstep
  obtain ⟨rfl, -⟩ := Prod.mk.inj (Option.some.inj hstep)
  have hends : ∀ t, Ends (output ++ cancelled) t ↔ t ∈ Runner.finishedTasks results := by
    intro t
    rw [Runner.mem_finishedTasks]
    constructor
    · rintro ⟨p, hp, heq, hne⟩
      exact ⟨p, hkeep p hp hne, heq, hne⟩
    · rintro ⟨p, hp, heq, hne⟩
      exact ⟨p, hsub.subset hp, heq, hne⟩
  have hcan : ∀ t, (t, GenerationResponse.cancelled) ∈ cancelled → Ends (output ++ cancelled) t :=
    fun t ht => ⟨_, List.mem_append_right _ ht, rfl, by simp⟩
  subst he
  refine ⟨output ++ cancelled, hc.queue, hc.maybeQueue, hc.allTasks, hc.maybeCancel,
    hc.cancelledTasks, hc.inserted, hc.gen, rfl, ⟨results, rfl, hsub, hkeep⟩, rfl, rfl, ?_,
    hc.nodup hout.nodup, fun uid t h => hout.stays uid t (hc.stays uid t h), ?_, ?_, ?_, ?_, ?_⟩
  · intro t
    rw [Dict.mem_keys, Dict.get?_foldl_erase, hends, Dict.mem_keys]
    by_cases ht : t ∈ Runner.finishedTasks results <;> simp [ht]
  · rintro t ⟨p, hp, rfl, hne⟩ hmem
    rcases List.mem_append.mp hp with h | h
    · obtain ⟨uid, huid⟩ := Dict.mem_values.1 hmem
      exact hout.gone p h hne (Dict.mem_values.2 ⟨uid, hc.stays uid _ huid⟩)
    · exact (hc.origin p h).2.1 hmem
  · intro t ht
    rcases hout.kept t ht with h | h
    · exact (hc.kept t h).imp_right (hcan t)
    · exact .inr ⟨_, List.mem_append_left _ h, rfl, by simp⟩
  · exact fun t ht hne => hcan t (hc.reported t ht hne).1
  · intro p hp
    rcases List.mem_append.mp hp with h | h
    · exact .inl (hout.owned p h)
    · obtain ⟨hkind, -, ho⟩ := hc.origin p h
      rcases ho with ho | ho
      · exact .inl (hout.subset _ ho)
      · exact .inr ⟨by rw [hkind]; simp, ho⟩
  · refine List.pairwise_append.mpr ⟨hout.ordered, ?_, ?_⟩
    · refine List.pairwise_of_forall_mem_list fun p hp q hq _ hq' => ?_
      rw [(hc.origin q hq).1] at hq'
      cases hq'
    · intro p hp q hq _ hq'
      rw [(hc.origin q hq).1] at hq'
      cases hq'

/-- **A call of `step` returns.** -/
theorem Sound.returns (h : Sound g) (hr : g.runner.phase = .generating)
    (ht : g.timely (.engine .finish) = true) (hs : g.stage.starting = [])
    {all : List (TaskId × GenerationResponse)} (hf : Returns g g' all) : Sound g' := by
  have hrun : g.Running := fun exitcode => by rw [hr]; simp
  have hlive : g.live = g.engine.maybeQueue ++ g.engine.queue ++ g.engine.activeTasks.values := by
    rw [live, hs, List.append_nil]
  have hlive' : g'.live
      = g.engine.maybeQueue ++ g.engine.queue ++ g'.engine.activeTasks.values := by
    rw [live, hf.stage, hf.maybeQueue, hf.queue]
    simp [EngineStage.starting]
  have hn := h.nodup
  rw [hlive] at hn
  obtain ⟨hqueued, -, hdisjoint⟩ := List.nodup_append.mp hn
  have hactive : ∀ t ∈ g'.engine.activeTasks.values, t ∈ g.engine.activeTasks.values := by
    intro t ht
    obtain ⟨uid, huid⟩ := Dict.mem_values.1 ht
    exact Dict.mem_values.2 ⟨uid, hf.stays uid t huid⟩
  have hsubset : ∀ t ∈ g'.live, t ∈ g.live := by
    intro t ht
    rw [hlive'] at ht
    rw [hlive]
    exact (List.mem_append.mp ht).elim (List.mem_append_left _)
      fun ht => List.mem_append_right _ (hactive t ht)
  have htimely : ∀ t ∈ g.engine.cancelledTasks, t ∉ g.engine.maybeQueue ++ g.engine.queue :=
    fun t hc hmem => by
      have := of_decide_eq_true ht t hc
      exact (List.mem_append.mp hmem).elim this.2 this.1
  -- nothing that is still held has ended
  have hheld : ∀ t ∈ g'.live, ¬ Ends all t := by
    rintro t htl ⟨p, hp, rfl, hne⟩
    rw [hlive'] at htl
    rcases List.mem_append.mp htl with hq | ha
    · rcases hf.origin p hp with ho | ⟨-, -, ho⟩
      · exact hdisjoint _ hq _ ho rfl
      · exact htimely _ ho hq
    · exact hf.gone _ ⟨p, hp, rfl, hne⟩ ha
  -- and everything else has
  have hrest : ∀ t ∈ g.runner.activeTasks.keys, ¬ Ends all t → t ∈ g'.live := by
    intro t htk hne
    rw [hlive']
    rcases h.active_live hrun t htk with hl | ⟨-, hc⟩
    · rw [hlive] at hl
      rcases List.mem_append.mp hl with hq | ha
      · exact List.mem_append_left _ hq
      · exact List.mem_append_right _ ((hf.kept t ha).resolve_right hne)
    · exact absurd (hf.reported t hc (h.seen t (h.active_known hrun t htk)).2) hne
  have hknown : ∀ p ∈ all, p.1 ∈ g.engine.allTasks := by
    intro p hp
    rcases hf.origin p hp with ho | ⟨-, hne, ho⟩
    · exact h.live _ (hlive ▸ List.mem_append_right _ ho)
    · exact (h.cancelledTasks _ ho).resolve_left hne
  have hlookup : ∀ p ∈ all, p.2 = .chunk → p.1 ∈ g.runner.activeTasks.keys := by
    intro p hp hchunk
    rcases hf.origin p hp with ho | ⟨hne, -⟩
    · exact h.live_active _ (hlive ▸ List.mem_append_right _ ho)
    · exact absurd hchunk hne
  obtain ⟨results, hrounds, hsub, hkeep⟩ := hf.rounds
  have hround : ∀ round ∈ g'.rounds, round ∈ g.rounds
      ∨ round = ⟨g.runner.activeTasks.keys, results⟩ := by
    intro round hmem
    rw [hrounds] at hmem
    exact (List.mem_append.mp hmem).imp_right List.mem_singleton.mp
  refine
    { nodup := ?_
      live := fun t ht => hf.allTasks ▸ h.live t (hsubset t ht)
      uids := fun uid huid => ?_
      gen := fun task ht => hf.allTasks ▸ h.gen task (hf.gen task ht)
      live_active := fun t ht =>
        (hf.active t).mpr ⟨h.live_active t (hsubset t ht), hheld t ht⟩
      active_live := fun _ t ht =>
        .inl (hrest t ((hf.active t).mp ht).1 ((hf.active t).mp ht).2)
      active_known := fun _ t ht =>
        hf.allTasks ▸ h.active_known hrun t ((hf.active t).mp ht).1
      seen := fun t ht => hf.seen ▸ h.seen t (hf.allTasks ▸ ht)
      cancelledTasks := by simp [hf.cancelledTasks]
      maybeCancel := fun t ht => hf.allTasks ▸ h.maybeCancel t (hf.maybeCancel ▸ ht)
      stage := fun _ hne => absurd hf.stage hne
      responded := fun round hmem p hp => ?_
      lookups := fun round hmem p hp hchunk => ?_
      ordered := ?_
      left := fun t ht hmem => ?_ }
  · rw [hlive']
    exact List.nodup_append.mpr ⟨hqueued, hf.nodup, fun a ha b hb => hdisjoint a ha b (hactive b hb)⟩
  · obtain ⟨t, htuid⟩ := Option.isSome_iff_exists.mp (Dict.mem_keys.1 huid)
    rw [hf.inserted]
    exact h.uids uid (Dict.mem_keys.2 (by rw [hf.stays uid t htuid]; rfl))
  · rw [hf.allTasks]
    rcases hround round hmem with hold | rfl
    · obtain ⟨hk, hgone⟩ := h.responded round hold p hp
      exact ⟨hk, fun hne hact => hgone hne ((hf.active _).mp hact).1⟩
    · have hpall := hsub.subset hp
      exact ⟨hknown p hpall, fun hne hact => ((hf.active _).mp hact).2 ⟨p, hpall, rfl, hne⟩⟩
  · rcases hround round hmem with hold | rfl
    · exact h.lookups round hold p hp hchunk
    · exact hlookup p (hsub.subset hp) hchunk
  · rw [hrounds, List.flatMap_append]
    refine List.pairwise_append.mpr ⟨h.ordered, ?_, ?_⟩
    · simpa using hf.ordered.sublist hsub
    · -- a task with an earlier end is not active, and a chunk would be of an active task
      intro p hp q hq heq hchunk
      obtain ⟨round, hmem, hp⟩ := List.mem_flatMap.mp hp
      simp only [List.flatMap_cons, List.flatMap_nil, List.append_nil] at hq
      by_contra hne
      exact (h.responded round hmem p hp).2 hne (heq ▸ hlookup q (hsub.subset hq) hchunk)
  · rw [hf.allTasks] at ht
    rw [hrounds, List.filter_append, List.length_append]
    by_cases hact : t ∈ g.runner.activeTasks.keys
    · -- this is the round that ends the task
      have hend : Ends all t := by
        by_contra hne
        exact hmem ((hf.active t).mpr ⟨hact, hne⟩)
      obtain ⟨p, hp, hpt, hne⟩ := hend
      have hnone : g.rounds.filter (·.ends t) = [] := by
        refine List.filter_eq_nil_iff.mpr fun round hround' hends => ?_
        simp only [Round.ends, Bool.and_eq_true, List.any_eq_true, decide_eq_true_eq] at hends
        obtain ⟨-, q, hq, rfl, hqne⟩ := hends
        exact (h.responded round hround' q hq).2 hqne hact
      have hthis : Round.ends ⟨g.runner.activeTasks.keys, results⟩ t = true := by
        simp only [Round.ends, Bool.and_eq_true, List.any_eq_true, decide_eq_true_eq,
          List.contains_iff_mem]
        exact ⟨hact, p, hkeep p hp hne, hpt, hne⟩
      simp [hnone, hthis]
    · have hthis : Round.ends ⟨g.runner.activeTasks.keys, results⟩ t = false := by
        simp [Round.ends, hact]
      simp [h.left t ht hact, hthis]

/-- A step that is not the engine's, or that ends the runner. -/
inductive Outside (g : Generation) : Generation → Prop where
  /-- The runner moves on and its active tasks are those that it had. -/
  | runner (r : Runner)
      (keys : ∀ t ∈ g.engine.allTasks,
        (t ∈ r.activeTasks.keys ↔ t ∈ g.runner.activeTasks.keys))
      (seen : ∀ t ∈ g.runner.seen, t ∈ r.seen)
      (running : (∀ exitcode, r.phase ≠ .exited exitcode) → g.Running
        ∧ (∀ t ∈ r.activeTasks.keys, t ∈ g.runner.activeTasks.keys)
        ∧ (g.stage ≠ .entering → r.phase = .generating)) :
      Outside g { g with runner := r }
  /-- A new task is active, and waits for the other ranks. -/
  | submit (r : Runner) (task : Task) (running : g.Running) (stage : g.stage = .entering)
      (new : task.taskId ∉ g.runner.seen) (uuid : task.taskId ≠ CANCEL_ALL_TASKS)
      (active : r.activeTasks = g.runner.activeTasks.set task.taskId task)
      (seen : ∀ t ∈ g.runner.seen, t ∈ r.seen) (taken : task.taskId ∈ r.seen) :
      Outside g { g with runner := r, engine := g.engine.submit task.taskId }
  | receive (taskId : TaskId) :
      Outside g { g with engine := { g.engine with
        toAgreements := g.engine.toAgreements.receive taskId } }

theorem Sound.outside (h : Sound g) (ho : Outside g g') : Sound g' := by
  cases ho with
  | runner r keys seen running => exact h.runner keys seen running
  | submit r task running stage new uuid active seen taken =>
      exact h.submit running stage new uuid active seen taken
  | receive taskId => exact h.receive taskId

/-- Taking a task submits it, or the active tasks are what they were. -/
theorem outside_take (h : Sound g) {task : Task} (hid : task.taskId ≠ CANCEL_ALL_TASKS)
    (hstep : g.take task = some g') : Outside g g' := by
  obtain ⟨⟨r, sent⟩, hr, rfl⟩ := Option.map_eq_some_iff.mp hstep
  have htakes := Runner.takes_take hr
  have hactive := Runner.activeTasks_take hr
  have hphase := Runner.phase_of_take hr
  have hrun : g.Running := fun exitcode => by
    rcases hphase with hp | hp <;> rw [hp] <;> simp
  have hstage : g.stage = .entering := by
    by_contra hne
    have := h.stage hrun hne
    rcases hphase with hp | hp <;> rw [hp] at this <;> cases this
  dsimp only at htakes hactive ⊢
  split
  · rename_i hsub
    have hnew := Runner.not_mem_seen_of_submits hsub
    rw [if_pos hsub] at hactive
    split
    · exact .submit r task hrun hstage hnew hid hactive htakes.seen htakes.taken
    · -- the assertion fails, and the runner exits with the task among its active ones
      refine .runner _ (fun t ht => ?_) htakes.seen fun hrunning => absurd rfl (hrunning 1)
      have hne : t ≠ task.taskId := fun heq => hnew (heq ▸ (h.seen t ht).1)
      show t ∈ r.activeTasks.keys ↔ _
      rw [hactive, Dict.mem_keys, Dict.get?_set_ne _ _ hne, Dict.mem_keys]
  · rename_i hsub
    rw [if_neg hsub] at hactive
    exact .runner _ (fun t _ => by rw [hactive]) htakes.seen
      fun _ => ⟨hrun, fun t ht => hactive ▸ ht, fun hne => absurd hstage hne⟩

/-- Between two calls of `step` the runner only polls. -/
theorem outside_poll (h : Sound g) (hphase : g.runner.phase = .polling)
    (hactive : r.activeTasks = g.runner.activeTasks) (hseen : r.seen = g.runner.seen) :
    Outside g { g with runner := r } := by
  have hrun : g.Running := fun exitcode => by rw [hphase]; simp
  refine .runner r (fun t _ => by rw [hactive]) (fun t ht => hseen ▸ ht) fun _ =>
    ⟨hrun, fun t ht => hactive ▸ ht, fun hne => ?_⟩
  rw [h.stage hrun hne] at hphase
  cases hphase

variable {a : GenerationAction}

theorem outside_step (h : Sound g)
    (ha : ∀ b, a ≠ .engine b) (hstep : g.step maxConcurrentRequests a = some g') :
    Outside g g' := by
  cases a with
  | take task =>
      simp only [step] at hstep
      split at hstep
      · cases hstep
      · rename_i hid
        exact outside_take h hid hstep
  | takeClosed =>
      obtain ⟨r, hr, rfl⟩ := Option.map_eq_some_iff.mp hstep
      unfold Runner.takeClosed at hr
      split at hr
      · rw [← Option.some.inj hr]
        exact .runner _ (fun _ _ => .rfl) (fun _ ht => ht) fun hrunning => absurd rfl (hrunning 0)
      · rename_i hphase
        rw [← Option.some.inj hr]
        exact outside_poll h hphase rfl rfl
      · cases hr
  | pollEmpty =>
      simp only [step] at hstep
      split at hstep
      · rename_i hphase
        rw [← Option.some.inj hstep]
        exact outside_poll h hphase (Runner.activeTasks_loop _) (Runner.seen_loop _)
      · cases hstep
  | cancel taskId =>
      rw [← Option.some.inj hstep]
      exact .receive taskId
  | engine b => exact absurd rfl (ha b)

/-- **What a step can do.** -/
theorem step_cases (h : Sound g)
    (ht : g.timely a = true) (hstep : g.step maxConcurrentRequests a = some g') :
    (g.runner.phase = .generating ∧ Moves maxConcurrentRequests g g')
      ∨ (g.runner.phase = .generating ∧ g.timely (.engine .finish) = true
        ∧ g.stage.starting = [] ∧ ∃ all, Returns g g' all)
      ∨ Outside g g' := by
  cases a with
  | engine a =>
      simp only [step] at hstep
      split at hstep
      · rename_i hphase
        rcases stepEngine_cases h.toNumbered ht hstep with hm | ⟨htf, e, output, hf⟩ | rfl
        · exact .inl ⟨hphase, hm⟩
        · have hs : g.stage.starting = [] := by
            rcases hf.stage with hs | ⟨results, hs⟩ <;> rw [hs] <;> rfl
          exact .inr (.inl ⟨hphase, htf, hs, returns_of_finishes hphase (fun t ht =>
            h.live_active t (List.mem_append_right _ ht)) hf⟩)
        · exact .inr (.inr (.runner _ (fun _ _ => .rfl) (fun _ ht => ht)
            fun hrunning => absurd rfl (hrunning 1)))
      · cases hstep
  | take | takeClosed | pollEmpty | cancel =>
      exact .inr (.inr (outside_step h (fun b => by simp) hstep))

/-- **Preserved by every step that meets the condition.** -/
theorem sound_step (h : Sound g)
    (ht : g.timely a = true) (hstep : g.step maxConcurrentRequests a = some g') : Sound g' := by
  rcases step_cases h ht hstep with ⟨hphase, hm⟩ | ⟨hphase, htf, hs, all, hr⟩ | ho
  · exact h.moves hphase hm
  · exact h.returns hphase htf hs hr
  · exact h.outside ho

end Sound

theorem sound_reachable (cfg : GenerationConfig) {g : Generation}
    (h : cfg.machine.ReachableWhen (fun g a => g.timely a = true) g) : Sound g :=
  h.invariant (sound_start ..) fun _ _ _ h ht hs => sound_step h ht hs

end Generation

end Exo
