import Exo.Lib.Run
import Exo.Worker.GenerationSafety

/-!
# Every submitted task leaves

A task goes from the tasks the ranks have not agreed on to the queue, from there to the
model, and then out of the engine. It cannot stay in one of these places forever, if the
ranks hear of all tasks, sequences come to an end and calls of `step` return: the queue
only ever loses its first task, and it loses one whenever there is room.
-/

namespace Exo

open Lib (Dict Machine)

namespace Generation

variable {g g' : Generation} {maxConcurrentRequests : Nat}

/-! ## Room -/

theorem bounded_step {a : GenerationAction} (h : Sound g) (ht : g.timely a = true)
    (hstep : g.step maxConcurrentRequests a = some g') (hb : g.Bounded maxConcurrentRequests) :
    g'.Bounded maxConcurrentRequests := by
  rcases step_cases h ht hstep with ⟨-, hm⟩ | ⟨-, -, hs, all, hr⟩ | ho
  · exact hm.bounded hb
  · have hle := Dict.length_le hr.stays
    unfold Bounded at hb ⊢
    rw [hr.stage]
    rw [hs] at hb
    exact hle.trans hb
  · cases ho with
    | runner | submit | receive => exact hb

/-- The engine is about to look at its queue, and takes a task if there is one. -/
def HasRoom (maxConcurrentRequests : Nat) (g : Generation) : Prop :=
  (g.stage = .entering ∨ g.stage = .submitting)
    ∧ g.engine.activeTasks.entries.length < maxConcurrentRequests

end Generation

/-- The call of `step` returns. -/
def GenerationAction.returns : GenerationAction → Bool
  | .engine .finish | .engine .noWork => true
  | _ => false

namespace Generation

variable {g g' : Generation} {maxConcurrentRequests : Nat} {a : GenerationAction}

theorem stage_of_finish {e : BatchGenerator} {output : List (TaskId × GenerationResponse)}
    (h : g.finish e output = some g') : g'.stage = .entering := by
  obtain ⟨r, -, rfl⟩ := Option.map_eq_some_iff.mp h
  rfl

/-- A call of `step` only returns when no queued task can be started. -/
theorem stage_of_returns (ha : a.returns = true)
    (hstep : g.step maxConcurrentRequests a = some g') :
    g.runner.phase = .generating ∧ g.stage.starting = [] ∧ g'.stage = .entering
      ∧ (g.HasRoom maxConcurrentRequests → g.engine.queue = []) := by
  unfold GenerationAction.returns at ha
  split at ha
  · simp only [step] at hstep
    split at hstep
    · rename_i hphase
      cases hs : g.stage with
      | generating results =>
          rw [hs] at hstep
          refine ⟨hphase, rfl, stage_of_finish hstep, fun hroom => ?_⟩
          rcases hroom.1 with h | h <;> rw [hs] at h <;> cases h
      | entering | submitting | prefilling | checking =>
          rw [hs] at hstep
          cases hstep
    · cases hstep
  · simp only [step] at hstep
    split at hstep
    · rename_i hphase
      cases hs : g.stage with
      | submitting =>
          rw [hs] at hstep
          simp only [stepEngine] at hstep
          split at hstep
          · cases hstep
          · rename_i hnone
            refine ⟨hphase, rfl, stage_of_finish hstep, fun hroom => ?_⟩
            by_contra hne
            exact hnone (by simp [submits, hne, hroom.2])
      | entering | generating | prefilling | checking =>
          rw [hs] at hstep
          cases hstep
    · cases hstep
  · cases ha

/-! ## One step from each place -/

/-- What the runner's own steps keep. -/
theorem outside_places (ho : Outside g g') : g'.stage = g.stage
    ∧ g'.engine.queue = g.engine.queue ∧ g'.engine.activeTasks = g.engine.activeTasks
    ∧ (∀ t ∈ g.engine.maybeQueue, t ∈ g'.engine.maybeQueue)
    ∧ (g.stage ≠ .entering → g'.engine.cancelledTasks = g.engine.cancelledTasks) := by
  cases ho with
  | runner | receive => exact ⟨rfl, rfl, rfl, fun _ ht => ht, fun _ => rfl⟩
  | submit r task running stage =>
      exact ⟨rfl, rfl, rfl, fun _ ht => List.mem_append_left _ ht, fun hne => absurd stage hne⟩

section Places

variable (h : Sound g) (ht : g.timely a = true)
  (hstep : g.step maxConcurrentRequests a = some g') {t : TaskId}
include h ht hstep

theorem maybeQueue_step (hp : t ∈ g.engine.maybeQueue) :
    t ∈ g'.engine.maybeQueue ∨ t ∈ g'.engine.queue := by
  rcases step_cases h ht hstep with ⟨-, hm⟩ | ⟨-, -, -, all, hr⟩ | ho
  · exact List.mem_append.mp (hm.maybeQueue t hp)
  · exact .inl (hr.maybeQueue ▸ hp)
  · exact .inl ((outside_places ho).2.2.2.1 t hp)

theorem queue_step {k : Nat} (hp : g.engine.queue[k]? = some t) :
    g'.engine.queue[k]? = some t ∨ t ∈ g'.stage.starting
      ∨ ∃ j < k, g'.engine.queue[j]? = some t := by
  rcases step_cases h ht hstep with ⟨-, hm⟩ | ⟨-, -, -, all, hr⟩ | ho
  · rcases hm.queue with ⟨agreed, hq⟩ | ⟨t', hq, hs⟩
    · left
      rw [hq, List.getElem?_append_left (List.getElem?_eq_some_iff.mp hp).1]
      exact hp
    · -- the first task is taken off
      rw [hq] at hp
      cases k with
      | zero =>
          rw [List.getElem?_cons_zero] at hp
          exact .inr (.inl (Option.some.inj hp ▸ hs))
      | succ k =>
          rw [List.getElem?_cons_succ] at hp
          exact .inr (.inr ⟨k, Nat.lt_succ_self k, hp⟩)
  · exact .inl (by rw [hr.queue]; exact hp)
  · exact .inl (by rw [(outside_places ho).2.1]; exact hp)

theorem starting_step (hp : t ∈ g.stage.starting) :
    t ∈ g'.stage.starting ∨ t ∈ g'.engine.activeTasks.values
      ∨ (g'.stage ≠ .entering ∧ t ∈ g'.engine.cancelledTasks) := by
  rcases step_cases h ht hstep with ⟨-, hm⟩ | ⟨-, -, hs, -⟩ | ho
  · rcases hm.starting t hp with h' | h' | h'
    · exact .inl h'
    · exact .inr (.inl h')
    · exact .inr (.inr ⟨hm.stage, h'⟩)
  · rw [hs] at hp
    cases hp
  · exact .inl ((outside_places ho).1 ▸ hp)

/-- An active task stays active until a round ends it, and that makes room. -/
theorem active_step (hp : t ∈ g.engine.activeTasks.values) :
    t ∈ g'.engine.activeTasks.values ∨ (t ∉ g'.runner.activeTasks.keys
      ∧ g'.engine.queue = g.engine.queue
      ∧ (g.Bounded maxConcurrentRequests → g'.HasRoom maxConcurrentRequests)) := by
  rcases step_cases h ht hstep with ⟨-, hm⟩ | ⟨-, -, hs, all, hr⟩ | ho
  · obtain ⟨uid, huid⟩ := Dict.mem_values.1 hp
    exact .inl (Dict.mem_values.2 ⟨uid, hm.active uid t huid⟩)
  · by_cases hp' : t ∈ g'.engine.activeTasks.values
    · exact .inl hp'
    · refine .inr ⟨fun hmem => ?_, hr.queue, fun hb => ⟨.inl hr.stage, ?_⟩⟩
      · exact ((hr.active t).mp hmem).2 ((hr.kept t hp).resolve_left hp')
      · have hlt := Dict.length_lt hr.stays hp hp'
        unfold Bounded at hb
        omega
  · exact .inl ((outside_places ho).2.2.1 ▸ hp)

/-- A cancelled task leaves when the call of `step` returns. -/
theorem cancelled_step (hs : g.stage ≠ .entering) (hp : t ∈ g.engine.cancelledTasks)
    (hk : t ∈ g.engine.allTasks) :
    (g'.stage ≠ .entering ∧ t ∈ g'.engine.cancelledTasks ∧ t ∈ g'.engine.allTasks)
      ∨ t ∉ g'.runner.activeTasks.keys := by
  rcases step_cases h ht hstep with ⟨-, hm⟩ | ⟨-, -, -, all, hr⟩ | ho
  · exact .inl ⟨hm.stage, hm.cancelledTasks t hp, hm.allTasks ▸ hk⟩
  · right
    intro hmem
    exact ((hr.active t).mp hmem).2 (hr.reported t hp (h.seen t hk).2)
  · have hplaces := outside_places ho
    refine .inl ⟨hplaces.1 ▸ hs, hplaces.2.2.2.2 hs ▸ hp, ?_⟩
    cases ho with
    | runner | receive => exact hk
    | submit => exact List.mem_insert_of_mem hk

/-- With room, the call goes on to take the first task of the queue. -/
theorem room_step {k : Nat} (hroom : g.HasRoom maxConcurrentRequests)
    (hp : g.engine.queue[k]? = some t) :
    (g'.HasRoom maxConcurrentRequests ∧ g'.engine.queue[k]? = some t)
      ∨ t ∈ g'.stage.starting ∨ ∃ j < k, g'.engine.queue[j]? = some t := by
  have hne : g.engine.queue ≠ [] := fun hnil => by simp [hnil] at hp
  cases a with
  | engine b =>
      simp only [step] at hstep
      split at hstep
      · have hsubmits : g.submits maxConcurrentRequests = true := by
          simp [submits, hne, hroom.2]
        rcases hroom.1 with hs | hs
        · rw [hs] at hstep
          cases b with
          | agreeOnTasks others =>
              simp only [stepEngine, if_neg hne] at hstep
              rw [← Option.some.inj hstep]
              exact .inl ⟨⟨.inr rfl, hroom.2⟩, hp⟩
          | fail =>
              rw [← Option.some.inj hstep]
              exact .inl ⟨hroom, hp⟩
          | startTask | promptProgress | check | prefilled | generate | token | finish | noWork =>
              cases hstep
        · rw [hs] at hstep
          cases b with
          | startTask =>
              simp only [stepEngine] at hstep
              split at hstep
              · cases hstep
              · rename_i task queue hq
                rw [if_pos hsubmits] at hstep
                rw [← Option.some.inj hstep]
                rw [hq] at hp
                cases k with
                | zero =>
                    rw [List.getElem?_cons_zero] at hp
                    exact .inr (.inl (Option.some.inj hp ▸ List.mem_singleton_self task))
                | succ k =>
                    rw [List.getElem?_cons_succ] at hp
                    exact .inr (.inr ⟨k, Nat.lt_succ_self k, hp⟩)
          | generate =>
              simp only [stepEngine, if_pos hsubmits] at hstep
              cases hstep
          | noWork =>
              simp only [stepEngine, hsubmits, Bool.true_or, if_true] at hstep
              cases hstep
          | fail =>
              rw [← Option.some.inj hstep]
              exact .inl ⟨hroom, hp⟩
          | agreeOnTasks | promptProgress | check | prefilled | token | finish => cases hstep
      · cases hstep
  | take | takeClosed | pollEmpty | cancel =>
      obtain ⟨hs, hq, hactive, -⟩ := outside_places (outside_step h (fun b => by simp) hstep)
      refine .inl ⟨⟨hs ▸ hroom.1, hactive ▸ hroom.2⟩, hq ▸ hp⟩

theorem allTasks_step (hk : t ∈ g.engine.allTasks) : t ∈ g'.engine.allTasks := by
  rcases step_cases h ht hstep with ⟨-, hm⟩ | ⟨-, -, -, all, hr⟩ | ho
  · exact hm.allTasks ▸ hk
  · exact hr.allTasks ▸ hk
  · cases ho with
    | runner | receive => exact hk
    | submit => exact List.mem_insert_of_mem hk

/-- A task that has left is not active again. -/
theorem left_step (hk : t ∈ g.engine.allTasks) (hp : t ∉ g.runner.activeTasks.keys) :
    t ∈ g'.engine.allTasks ∧ t ∉ g'.runner.activeTasks.keys := by
  rcases step_cases h ht hstep with ⟨-, hm⟩ | ⟨-, -, -, all, hr⟩ | ho
  · exact ⟨hm.allTasks ▸ hk, hm.runner ▸ hp⟩
  · exact ⟨hr.allTasks ▸ hk, fun hmem => hp ((hr.active t).mp hmem).1⟩
  · cases ho with
    | runner r keys => exact ⟨hk, fun hmem => hp ((keys t hk).mp hmem)⟩
    | submit r task running stage new uuid active =>
        refine ⟨List.mem_insert_of_mem hk, fun hmem => hp ?_⟩
        have hne : t ≠ task.taskId := fun heq => new (heq ▸ (h.seen t hk).1)
        rw [Dict.mem_keys, active, Dict.get?_set_ne _ _ hne] at hmem
        exact Dict.mem_keys.2 hmem
    | receive => exact ⟨hk, hp⟩

end Places

/-! ## Along a run -/

/-- The runs of the generation loop whose steps meet the condition. -/
abbrev TimelyRun (cfg : GenerationConfig) :=
  Machine.Run cfg.machine fun g a => g.timely a = true

section Run

variable {cfg : GenerationConfig} (run : TimelyRun cfg)

/--
What the world around the loop is good for: there is room for a task, calls of `step` return
as long as tasks are active, the ranks hear of every task, and every sequence ends.
-/
structure Fair : Prop where
  capacity : 0 < cfg.maxConcurrentRequests
  returns : ∀ n, (run.state n).runner.activeTasks.keys ≠ [] →
    ∃ k, n ≤ k ∧ (run.action k).returns = true
  agrees : ∀ n, ∀ t ∈ (run.state n).engine.maybeQueue,
    ∃ k, n ≤ k ∧ t ∉ (run.state k).engine.maybeQueue
  ends : ∀ n, ∀ t ∈ (run.state n).engine.activeTasks.values,
    ∃ k, n ≤ k ∧ t ∉ (run.state k).engine.activeTasks.values

theorem sound_run (n : Nat) : Sound (run.state n) := sound_reachable cfg (run.reachable n)

theorem bounded_run (n : Nat) : (run.state n).Bounded cfg.maxConcurrentRequests := by
  induction n with
  | zero =>
      rw [run.init]
      exact Nat.zero_le _
  | succ n ih => exact bounded_step (sound_run run n) (run.meets n) (run.step n) ih

variable {run} (hfair : Fair run) (t : TaskId)
include hfair

/-- A held task keeps the runner in its loop, so some call of `step` returns. -/
theorem returns_of_live {n : Nat} (h : t ∈ (run.state n).live) :
    ∃ k, n ≤ k ∧ (run.action k).returns = true :=
  hfair.returns n (List.ne_nil_of_mem ((sound_run run n).live_active t h))

theorem leadsTo_active : run.LeadsTo (fun g => t ∈ g.engine.activeTasks.values)
    fun g => t ∉ g.runner.activeTasks.keys := by
  refine Machine.Run.leadsTo_of_unless (fun n h => ?_) fun n h => hfair.ends n t h
  exact (active_step (sound_run run n) (run.meets n) (run.step n) h).imp_right And.left

theorem leadsTo_cancelled : run.LeadsTo
    (fun g => (g.stage ≠ .entering ∧ t ∈ g.engine.cancelledTasks ∧ t ∈ g.engine.allTasks)
      ∧ t ∈ g.runner.activeTasks.keys)
    fun g => t ∉ g.runner.activeTasks.keys := by
  refine Machine.Run.leadsTo_of_unless (fun n h => ?_) fun n h => ?_
  · obtain ⟨⟨hs, hc, hk⟩, -⟩ := h
    by_cases hleft : t ∈ (run.state (n + 1)).runner.activeTasks.keys
    · rcases cancelled_step (sound_run run n) (run.meets n) (run.step n) hs hc hk with h' | h'
      · exact .inl ⟨h', hleft⟩
      · exact absurd hleft h'
    · exact .inr hleft
  · obtain ⟨k, hnk, hk⟩ := hfair.returns n (List.ne_nil_of_mem h.2)
    have hentering := (stage_of_returns hk (run.step k)).2.2.1
    exact ⟨k + 1, Nat.le_succ_of_le hnk, fun h' => h'.1.1 hentering⟩

theorem leadsTo_starting : run.LeadsTo (fun g => t ∈ g.stage.starting)
    fun g => t ∉ g.runner.activeTasks.keys := by
  have hnext : run.LeadsTo (fun g => t ∈ g.stage.starting)
      (fun g => t ∈ g.engine.activeTasks.values
        ∨ (g.stage ≠ .entering ∧ t ∈ g.engine.cancelledTasks ∧ t ∈ g.engine.allTasks)) := by
    refine Machine.Run.leadsTo_of_unless (fun n h => ?_) fun n h => ?_
    · have hknown : t ∈ (run.state n).engine.allTasks :=
        (sound_run run n).live t (List.mem_append_left _ (List.mem_append_right _ h))
      rcases starting_step (sound_run run n) (run.meets n) (run.step n) h with h' | h' | h'
      · exact .inl h'
      · exact .inr (.inl h')
      · exact .inr (.inr ⟨h'.1, h'.2,
          allTasks_step (sound_run run n) (run.meets n) (run.step n) hknown⟩)
    · have hlive : t ∈ (run.state n).live := List.mem_append_left _ (List.mem_append_right _ h)
      obtain ⟨k, hnk, hk⟩ := returns_of_live hfair t hlive
      refine ⟨k, hnk, fun h' => ?_⟩
      rw [(stage_of_returns hk (run.step k)).2.1] at h'
      cases h'
  refine hnext.trans (Machine.Run.LeadsTo.or (leadsTo_active hfair t) fun n h => ?_)
  by_cases hleft : t ∈ (run.state n).runner.activeTasks.keys
  · exact leadsTo_cancelled hfair t n ⟨h, hleft⟩
  · exact ⟨n, Nat.le_refl n, hleft⟩

/-- With room, a task of the queue moves up. -/
theorem leadsTo_room (k : Nat) : run.LeadsTo
    (fun g => g.HasRoom cfg.maxConcurrentRequests ∧ g.engine.queue[k]? = some t)
    fun g => t ∈ g.stage.starting ∨ ∃ j < k, g.engine.queue[j]? = some t := by
  refine Machine.Run.leadsTo_of_unless (fun n h => ?_) fun n h => ?_
  · exact room_step (sound_run run n) (run.meets n) (run.step n) h.1 h.2
  · have hlive : t ∈ (run.state n).live :=
      List.mem_append_left _ (List.mem_append_left _ (List.mem_append_right _
        (List.mem_of_getElem? h.2)))
    obtain ⟨l, hnl, hl⟩ := returns_of_live hfair t hlive
    refine ⟨l, hnl, fun h' => ?_⟩
    have := (stage_of_returns hl (run.step l)).2.2.2 h'.1
    simp [this] at h'

/-- A task of the queue moves up, since there will be room for the first one. -/
theorem leadsTo_moveUp (k : Nat) : run.LeadsTo (fun g => g.engine.queue[k]? = some t)
    fun g => t ∈ g.stage.starting ∨ ∃ j < k, g.engine.queue[j]? = some t := by
  intro n h
  by_contra hnever
  -- until then the task keeps its place
  have hstays : ∀ l, n ≤ l → (run.state l).engine.queue[k]? = some t := by
    intro l hnl
    induction hnl with
    | refl => exact h
    | @step l hnl ih =>
        rcases queue_step (sound_run run l) (run.meets l) (run.step l) ih with h' | h'
        · exact h'
        · exact absurd ⟨l + 1, Nat.le_succ_of_le hnl, h'⟩ hnever
  have hnoroom : ∀ l, n ≤ l → ¬ (run.state l).HasRoom cfg.maxConcurrentRequests := by
    intro l hnl hroom
    obtain ⟨i, hli, hi⟩ := leadsTo_room hfair t k l ⟨hroom, hstays l hnl⟩
    exact hnever ⟨i, Nat.le_trans hnl hli, hi⟩
  have hlive : t ∈ (run.state n).live :=
    List.mem_append_left _ (List.mem_append_left _ (List.mem_append_right _
      (List.mem_of_getElem? h)))
  obtain ⟨l, hnl, hl⟩ := returns_of_live hfair t hlive
  -- after a call of `step` only active tasks can take up the room
  have hentering := (stage_of_returns hl (run.step l)).2.2.1
  have hfull : ¬ (run.state (l + 1)).engine.activeTasks.entries.length
      < cfg.maxConcurrentRequests := fun hlt =>
    hnoroom (l + 1) (Nat.le_succ_of_le hnl) ⟨.inl hentering, hlt⟩
  have hcap := hfair.capacity
  obtain ⟨t', ht'⟩ : ∃ t', t' ∈ (run.state (l + 1)).engine.activeTasks.values := by
    refine List.exists_mem_of_length_pos ?_
    simp only [Dict.values, List.length_map]
    omega
  obtain ⟨i, hli, hi⟩ := hfair.ends (l + 1) t' ht'
  refine hi ?_
  clear hi
  -- and they stay, since a task that ends makes room
  induction hli with
  | refl => exact ht'
  | @step i hli ih =>
      rcases active_step (sound_run run i) (run.meets i) (run.step i) ih with h' | ⟨-, -, hroom⟩
      · exact h'
      · have hle : n ≤ i + 1 :=
          Nat.le_succ_of_le (Nat.le_trans (Nat.le_succ_of_le hnl) hli)
        exact absurd (hroom (bounded_run run i)) (hnoroom (i + 1) hle)

theorem leadsTo_queued : run.LeadsTo (fun g => t ∈ g.engine.queue)
    fun g => t ∉ g.runner.activeTasks.keys := by
  intro n h
  obtain ⟨k, hk⟩ := List.mem_iff_getElem?.mp h
  have hrank := Machine.Run.leadsTo_of_rank (r := run) (Q := fun g => t ∈ g.stage.starting)
    (P := fun k g => g.engine.queue[k]? = some t) (fun k => leadsTo_moveUp hfair t k) k
  exact (hrank.trans (leadsTo_starting hfair t)) n hk

theorem leadsTo_maybeQueue : run.LeadsTo (fun g => t ∈ g.engine.maybeQueue)
    fun g => t ∉ g.runner.activeTasks.keys := by
  refine Machine.Run.LeadsTo.trans (Machine.Run.leadsTo_of_unless (fun n h => ?_)
    fun n h => hfair.agrees n t h) (leadsTo_queued hfair t)
  exact maybeQueue_step (sound_run run n) (run.meets n) (run.step n) h

theorem leadsTo_live : run.LeadsTo (fun g => t ∈ g.live)
    fun g => t ∉ g.runner.activeTasks.keys := by
  intro n h
  rcases List.mem_append.mp h with h | h
  · rcases List.mem_append.mp h with h | h
    · rcases List.mem_append.mp h with h | h
      · exact leadsTo_maybeQueue hfair t n h
      · exact leadsTo_queued hfair t n h
    · exact leadsTo_starting hfair t n h
  · exact leadsTo_active hfair t n h

/-- **Every task leaves.** And it does not come back. -/
theorem leaves_forever {n : Nat} (hk : t ∈ (run.state n).engine.allTasks) :
    ∃ k, n ≤ k ∧ ∀ l, k ≤ l → t ∉ (run.state l).runner.activeTasks.keys := by
  have hallTasks : ∀ {l}, n ≤ l → t ∈ (run.state l).engine.allTasks :=
    run.stable (P := fun g => t ∈ g.engine.allTasks)
      (fun l h => allTasks_step (sound_run run l) (run.meets l) (run.step l) h) hk
  have hstays : ∀ {k}, n ≤ k → t ∉ (run.state k).runner.activeTasks.keys →
      ∀ l, k ≤ l → t ∉ (run.state l).runner.activeTasks.keys := fun hnk hk l hkl =>
    (run.stable (P := fun g => t ∈ g.engine.allTasks ∧ t ∉ g.runner.activeTasks.keys)
      (fun l h => left_step (sound_run run l) (run.meets l) (run.step l) h.1 h.2)
      ⟨hallTasks hnk, hk⟩ hkl).2
  by_cases hleft : t ∈ (run.state n).runner.activeTasks.keys
  · -- at a call of `step` that returns, the runner goes on
    obtain ⟨k, hnk, hreturns⟩ := hfair.returns n (List.ne_nil_of_mem hleft)
    have hphase := (stage_of_returns hreturns (run.step k)).1
    have hrun : (run.state k).Running := fun exitcode => by rw [hphase]; simp
    by_cases hleft' : t ∈ (run.state k).runner.activeTasks.keys
    · obtain ⟨l, hkl, hl⟩ : ∃ l, k ≤ l ∧ t ∉ (run.state l).runner.activeTasks.keys := by
        rcases (sound_run run k).active_live hrun t hleft' with hlive | ⟨hs, hc⟩
        · exact leadsTo_live hfair t k hlive
        · exact leadsTo_cancelled hfair t k ⟨⟨hs, hc, hallTasks hnk⟩, hleft'⟩
      exact ⟨l, Nat.le_trans hnk hkl, hstays (Nat.le_trans hnk hkl) hl⟩
    · exact ⟨k, hnk, hstays hnk hleft'⟩
  · exact ⟨n, Nat.le_refl n, hstays (Nat.le_refl n) hleft⟩

end Run

/-! ## Agreement -/

/-- The engine and the runner agree on which tasks are live. -/
structure Agree (g : Generation) : Prop where
  /-- Whenever `step` is not running, the engine holds what is active in the runner. -/
  live : g.Running → g.stage = .entering → ∀ t, t ∈ g.runner.activeTasks.keys ↔ t ∈ g.live
  /-- No chunk comes after the cancellation or the end of its task. -/
  ordered : (g.rounds.flatMap Round.results).Pairwise BatchGenerator.InOrder
  /-- `self.active_tasks[task_id]` does not fail. -/
  lookups : ∀ round ∈ g.rounds, ∀ p ∈ round.results, p.2 = .chunk → p.1 ∈ round.active
  /-- A submitted task is active until the one round that ends it. -/
  left : ∀ t ∈ g.engine.allTasks,
    (g.rounds.filter (·.ends t)).length = if t ∈ g.runner.activeTasks.keys then 0 else 1

theorem Sound.agree (h : Sound g) : Agree g where
  live := h.live_iff
  ordered := h.ordered
  lookups := h.lookups
  left := by
    intro t ht
    split
    · rename_i hactive
      refine List.length_eq_zero_iff.mpr (List.filter_eq_nil_iff.mpr fun round hround hends => ?_)
      simp only [Round.ends, Bool.and_eq_true, List.any_eq_true, decide_eq_true_eq] at hends
      obtain ⟨-, p, hp, rfl, hne⟩ := hends
      exact (h.responded round hround p hp).2 hne hactive
    · rename_i hleft
      exact h.left t ht hleft

/--
**The engine and the runner agree on what is live**, in every run in which cancellations
are applied in time; and if the run is fair, every submitted task leaves for good.
-/
theorem engine_runner_agree (cfg : GenerationConfig) :
    (∀ g, cfg.machine.ReachableWhen (fun g a => g.timely a = true) g → Agree g)
      ∧ ∀ run : TimelyRun cfg, Fair run → ∀ n, ∀ t ∈ (run.state n).engine.allTasks,
        ∃ k, n ≤ k ∧ ∀ l, k ≤ l → t ∉ (run.state l).runner.activeTasks.keys :=
  ⟨fun _ h => (sound_reachable cfg h).agree, fun _ hfair _ t ht => leaves_forever hfair t ht⟩

/-! ## A queue of one -/

/-- A rank of its own that works on one request at a time. -/
def oneRequest : GenerationConfig where
  boundInstance :=
    { inst :=
        { instanceId := 100
          shardAssignments :=
            { modelId := 7
              runnerToShard := Dict.empty.set 11
                { modelId := 7, deviceRank := 0, worldSize := 1, startLayer := 0, endLayer := 4 }
              nodeToRunner := Dict.empty.set 1 11
              runnersExist := soleRunner_exists } }
      boundRunnerId := 11
      boundNodeId := 1
      shardExists := by decide }
  checkForCancelEvery := 1
  maxConcurrentRequests := 1

/-- A client asks for a text. -/
def request (taskId : TaskId) : GenerationAction :=
  .take ⟨taskId, .pending, 100, .textGeneration taskId [] [], none, none⟩

/-- A call of `step` that starts the first task of the queue, and one token of `uid`. -/
def startAndToken (uid : Nat) : List GenerationAction :=
  [.engine (.agreeOnTasks []), .engine .startTask, .engine .prefilled, .engine .generate,
    .engine (.token ⟨uid, 1, false⟩ []), .engine .finish]

/-- A call of `step` that starts no task. -/
def onlyToken (uid : Nat) (finished : Bool) : List GenerationAction :=
  [.engine (.agreeOnTasks []), .engine .generate, .engine (.token ⟨uid, 1, finished⟩ []),
    .engine .finish]

/-- The second request is cancelled while it waits for the first one, and then it is started. -/
def cancelledInQueue : List GenerationAction :=
  [request 1] ++ startAndToken 0 ++ [request 2, .cancel 2] ++ onlyToken 0 false
  ++ [.pollEmpty] ++ onlyToken 0 true ++ [.pollEmpty, request 3] ++ startAndToken 1

/-- **The runner gets a chunk of a task that it has dropped.** -/
theorem not_engine_runner_agree :
    ¬ ∀ (cfg : GenerationConfig) (g : Generation), cfg.machine.Reachable g → Agree g := by
  intro h
  have hrun : (oneRequest.machine.run oneRequest.machine.init cancelledInQueue).map
      (fun g => g.rounds.map Round.results)
      = some [[(1, .chunk)], [(1, .chunk), (2, .cancelled)], [(1, .chunk), (1, .finished)],
        [(2, .chunk)]] := by
    decide +kernel
  obtain ⟨g, hg, hresults⟩ := Option.map_eq_some_iff.mp hrun
  have hordered := (h oneRequest g (Machine.reachable_of_run hg)).ordered
  rw [List.flatMap_def, hresults] at hordered
  revert hordered
  decide

/-- The first request is cancelled while it is active, and the second one after it has ended. -/
def cancelledInTime : List GenerationAction :=
  [request 1] ++ startAndToken 0 ++ [request 2, .cancel 1] ++ onlyToken 0 false
  ++ [.pollEmpty] ++ startAndToken 1 ++ [.pollEmpty] ++ onlyToken 1 true ++ [.pollEmpty]

theorem engine_runner_agree_cancelledInTime :
    ∃ g : Generation, g.rounds.map Round.results
        = [[(1, .chunk)], [(1, .chunk), (1, .cancelled)], [(2, .chunk)],
          [(2, .chunk), (2, .finished)]]
      ∧ Agree g := by
  have hrun : (oneRequest.machine.runWhen (fun g a => g.timely a = true) oneRequest.machine.init
      cancelledInTime).map (fun g => g.rounds.map Round.results)
      = some [[(1, .chunk)], [(1, .chunk), (1, .cancelled)], [(2, .chunk)],
        [(2, .chunk), (2, .finished)]] := by
    decide +kernel
  obtain ⟨g, hg, hresults⟩ := Option.map_eq_some_iff.mp hrun
  exact ⟨g, hresults, (engine_runner_agree oneRequest).1 g (Machine.reachableWhen_of_run hg)⟩

end Generation

end Exo
