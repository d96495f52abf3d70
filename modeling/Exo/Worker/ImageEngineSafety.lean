import Exo.Worker.ImageEngine

/-!
# Accounting of image tasks

A step that is allowed to say something says it about the first live task. On the primary
output rank the runner hears it, so its active tasks are the live tasks of the engine. On any
other rank every response is filtered, the one that ends the task included.

An exception of `generate_image` is raised a second time when the generator is resumed after
its `FinishedResponse`, which happens in a step that belongs to a later task.
-/

namespace Exo

open Lib (Dict Machine)

/-- The generator has an exception left to raise when it is resumed next. -/
def ImageStage.holdsError : ImageStage → Bool
  | .finishing (some _) => true
  | _ => false

namespace ImageEngine

variable {e e' : ImageEngine} {outcomes : List ImageOutcome} {result : Result}

def holdsError (e : ImageEngine) : Bool := e.currentGen.any fun g => g.2.holdsError

/-- What a step of the primary output rank returns, and which tasks are live after it. -/
inductive Says (e e' : ImageEngine) : Result → Prop where
  | nothing : e.live = [] → e'.live = [] → Says e e' (.ok none)
  | chunk (t : TaskId) (rest : List TaskId) :
      e.live = t :: rest → e'.live = t :: rest → Says e e' (.ok (some (t, .chunk)))
  | finished (t : TaskId) (rest : List TaskId) :
      e.live = t :: rest → e'.live = rest → Says e e' (.ok (some (t, .finished)))

variable {stage : ImageStage}

theorem says_resume {e : ImageEngine} {t : TaskId}
    (hprimary : e.shardMetadata.isPrimaryOutputNode = true) (hlive : stage.unfinished = true)
    (h : e.resume t stage outcomes = some (result, e')) :
    Says { e with currentGen := some (t, stage) } e' result := by
  simp only [resume, hprimary] at h
  cases stage with
  | running =>
    cases outcomes with
    | nil => simp [ImageStage.next] at h
    | cons outcome outcomes =>
      cases outcome
      all_goals
        simp only [ImageStage.next, if_true, Option.map_some, Option.some.injEq,
          Prod.mk.injEq] at h
        obtain ⟨rfl, rfl⟩ := h
      · exact .chunk t e.queue rfl rfl
      · exact .finished t e.queue rfl rfl
      · exact .chunk t e.queue rfl rfl
  | failed error =>
    simp only [ImageStage.next, Option.map_some, Option.some.injEq, Prod.mk.injEq] at h
    obtain ⟨rfl, rfl⟩ := h
    exact .finished t e.queue rfl rfl
  | finishing error => cases hlive
  | exhausted => cases hlive

/-- A generator that has finished without an exception has nothing more to say. -/
theorem resume_finished {t : TaskId} (hdead : stage.unfinished = false)
    (herror : stage.holdsError = false)
    (h : e.resume t stage outcomes = some (result, e')) :
    result = .ok none ∧ e' = { e with currentGen := some (t, .exhausted) } := by
  cases stage with
  | running => cases hdead
  | failed error => cases hdead
  | finishing error =>
    cases error with
    | none => simpa [resume, ImageStage.next, eq_comm] using h
    | some error => cases herror
  | exhausted => simpa [resume, ImageStage.next, eq_comm] using h

theorem Says.congr {e₁ e₂ : ImageEngine} (hlive : e₁.live = e₂.live) (h : Says e₁ e' result) :
    Says e₂ e' result := by
  cases h with
  | nothing h1 h2 => exact .nothing (hlive ▸ h1) h2
  | chunk t rest h1 h2 => exact .chunk t rest (hlive ▸ h1) h2
  | finished t rest h1 h2 => exact .finished t rest (hlive ▸ h1) h2

/-- With no unfinished generator the step goes on to the next task. -/
theorem says_startNext (hprimary : e.shardMetadata.isPrimaryOutputNode = true)
    (hlive : e.live = e.queue)
    (h : (match e.queue with
      | taskId :: queue => { e with queue := queue }.resume taskId .running outcomes
      | [] => some (.ok none, e)) = some (result, e')) :
    Says e e' result := by
  split at h
  · rename_i t queue hqueue
    refine (says_resume (e := { e with queue := queue }) hprimary rfl h).congr ?_
    rw [hlive, hqueue]
    rfl
  · rename_i hqueue
    simp only [Option.some.injEq, Prod.mk.injEq] at h
    obtain ⟨rfl, rfl⟩ := h
    exact .nothing (hlive.trans hqueue) (hlive.trans hqueue)

/-- **On the primary output rank a step is about the first live task.** -/
theorem says_step (hprimary : e.shardMetadata.isPrimaryOutputNode = true)
    (herror : e.holdsError = false) (h : e.step outcomes = some (result, e')) :
    Says e e' result := by
  obtain ⟨⟨result₁, e₁⟩, hcurrent, hrest⟩ := Option.bind_eq_some_iff.mp h
  have hnext : result₁ = .ok none → (match e₁.queue with
      | taskId :: queue => { e₁ with queue := queue }.resume taskId .running outcomes
      | [] => some (.ok none, e₁)) = some (result, e') := by
    intro hnone
    rw [hnone] at hrest
    dsimp only at hrest
    cases hqueue : e₁.queue <;> rw [hqueue] at hrest <;> exact hrest
  cases hgen : e.currentGen with
  | none =>
    simp only [resumeCurrent, hgen, Option.some.injEq, Prod.mk.injEq] at hcurrent
    obtain ⟨rfl, rfl⟩ := hcurrent
    exact says_startNext hprimary (by simp [live, hgen]) (hnext rfl)
  | some gen =>
    obtain ⟨t, stage⟩ := gen
    simp only [resumeCurrent, hgen] at hcurrent
    have hstage : stage.holdsError = false := by
      simpa [holdsError, hgen] using herror
    cases hunfinished : stage.unfinished with
    | true =>
      have hsays := says_resume hprimary hunfinished hcurrent
      have heq : { e with currentGen := some (t, stage) } = e := by rw [← hgen]
      rw [heq] at hsays
      -- the generator has something to say, so no other task is started
      cases hsays with
      | nothing hlive _ => simp [live, hgen, hunfinished] at hlive
      | chunk t' rest h1 h2 =>
        obtain ⟨rfl, rfl⟩ : Except.ok (some (t', .chunk)) = result ∧ e₁ = e' := by
          simpa using hrest
        exact .chunk t' rest h1 h2
      | finished t' rest h1 h2 =>
        obtain ⟨rfl, rfl⟩ : Except.ok (some (t', .finished)) = result ∧ e₁ = e' := by
          simpa using hrest
        exact .finished t' rest h1 h2
    | false =>
      obtain ⟨hresult, rfl⟩ := resume_finished hunfinished hstage hcurrent
      have hlive : e.live = e.queue := by simp [live, hgen, hunfinished]
      refine (says_startNext (e := { e with currentGen := some (t, .exhausted) }) hprimary rfl
        (hnext hresult)).congr ?_
      rw [hlive]
      rfl

theorem shardMetadata_step (h : e.step outcomes = some (result, e')) :
    e'.shardMetadata = e.shardMetadata := by
  have hresume : ∀ {e e' : ImageEngine} {t stage result},
      e.resume t stage outcomes = some (result, e') → e'.shardMetadata = e.shardMetadata := by
    intro e e' t stage result h
    obtain ⟨⟨r, stage'⟩, -, h⟩ := Option.map_eq_some_iff.mp h
    cases r <;> (simp only [Prod.mk.injEq] at h; rw [← h.2])
  obtain ⟨⟨result₁, e₁⟩, hcurrent, hrest⟩ := Option.bind_eq_some_iff.mp h
  have h₁ : e₁.shardMetadata = e.shardMetadata := by
    unfold resumeCurrent at hcurrent
    split at hcurrent
    · simp only [Option.some.injEq, Prod.mk.injEq] at hcurrent
      rw [← hcurrent.2]
    · exact hresume hcurrent
  simp only at hrest
  split at hrest
  · exact (hresume hrest).trans h₁
  · simp only [Option.some.injEq, Prod.mk.injEq] at hrest
    rw [← hrest.2, h₁]

theorem live_of_exhausted (h : e.exhausted = true) : e.live = [] := by
  simp only [exhausted, Bool.and_eq_true, List.isEmpty_iff] at h
  obtain ⟨hqueue, hgen⟩ := h
  cases hg : e.currentGen with
  | none => simp [live, hg, hqueue]
  | some g =>
    have : g.2 = .exhausted := by simpa [hg] using hgen
    simp [live, hg, hqueue, this, ImageStage.unfinished]

end ImageEngine

namespace ImageRunner

variable {g g' : ImageRunner}

/-- Image tasks are accounted for, and isolated from each other. -/
structure Accounted (g : ImageRunner) : Prop where
  /-- Each submitted task is active, or has left `active_tasks` once. -/
  once : g.submitted.Perm (g.left ++ g.runner.activeTasks.keys)
  nodup : g.submitted.Nodup
  /-- Once the generators are exhausted no task is active, and the poll ends in `RunnerReady`. -/
  released : g.engine.exhausted = true → g.runner.activeTasks.keys = [] ∧
    (g.runner.phase = .polling →
      g.runner.loop.1.currentStatus = .ready g.runner.prefillServerPort)
  /-- Nothing is yielded for a task after its `FinishedResponse`. -/
  silent : g.yielded.Pairwise fun p q => p.2 = .finished → q.1 ≠ p.1
  /-- An exception is raised while its task is active, not in a step of a later task. -/
  isolated : ∀ p ∈ g.raised, p.1 ∈ p.2

/-- A step of the engine is taken on the primary output rank, with no exception left over. -/
def isolates (g : ImageRunner) : ImageAction → Bool
  | .step _ => g.engine.shardMetadata.isPrimaryOutputNode && !g.engine.holdsError
  | _ => true

/-- What holds of runs whose steps meet `isolates`. -/
structure Sound (g : ImageRunner) : Prop where
  /-- The runner and the engine agree on what is live. -/
  keys : g.runner.activeTasks.keys = g.engine.live
  once : g.submitted = g.left ++ g.engine.live
  nodup : g.submitted.Nodup
  seen : ∀ t ∈ g.submitted, t ∈ g.runner.seen
  finished : ∀ p ∈ g.yielded, p.2 = .finished → p.1 ∈ g.left
  silent : g.yielded.Pairwise fun p q => p.2 = .finished → q.1 ≠ p.1
  raised : g.raised = []

theorem Sound.accounted (h : Sound g) : Accounted g where
  once := by rw [h.once, h.keys]
  nodup := h.nodup
  released := fun hexhausted => by
    have hkeys : g.runner.activeTasks.keys = [] :=
      h.keys.trans (ImageEngine.live_of_exhausted hexhausted)
    refine ⟨hkeys, fun _ => ?_⟩
    have hentries : g.runner.activeTasks.entries = [] := List.map_eq_nil_iff.mp hkeys
    simp [Runner.loop, hentries]
  silent := h.silent
  isolated := by simp [h.raised]

/-- A step of the runner that leaves its active tasks alone. -/
theorem Sound.become (h : Sound g) {r : Runner} (hactive : r.activeTasks = g.runner.activeTasks)
    (hseen : ∀ t ∈ g.runner.seen, t ∈ r.seen) : Sound (g.become r) := by
  have hleft : (g.become r).left = g.left := by
    simp [ImageRunner.become, hactive]
  exact ⟨hactive ▸ h.keys, hleft ▸ h.once, h.nodup, fun t ht => hseen t (h.seen t ht),
    hleft ▸ h.finished, h.silent, h.raised⟩

theorem live_submit (e : ImageEngine) (t : TaskId) : (e.submit t).live = e.live ++ [t] := by
  simp [ImageEngine.live, ImageEngine.submit]

theorem Sound.take (h : Sound g) {task : Task} (hstep : g.take task = some g') : Sound g' := by
  have hmap : (g.runner.take task).map (fun p =>
      if g.runner.submits task then
        { g.become p.1 with
          engine := g.engine.submit task.taskId
          submitted := g.submitted ++ [task.taskId] }
      else g.become p.1) = some g' := by
    unfold ImageRunner.take at hstep
    split at hstep
    · cases hstep
    · exact hstep
  obtain ⟨⟨r, sent⟩, hr, rfl⟩ := Option.map_eq_some_iff.mp hmap
  have htakes := Runner.takes_take hr
  have hactive := Runner.activeTasks_take hr
  dsimp only at htakes hactive ⊢
  split
  · rename_i hsub
    rw [if_pos hsub] at hactive
    -- the task is new, so it comes last among the active tasks
    have hnew : task.taskId ∉ g.submitted := fun hm =>
      Runner.not_mem_seen_of_submits hsub (h.seen _ hm)
    have hlive : task.taskId ∉ g.engine.live := fun hm =>
      hnew (h.once ▸ List.mem_append_right g.left hm)
    have hkeys : r.activeTasks.keys = g.engine.live ++ [task.taskId] := by
      rw [hactive, Dict.keys_set_of_new (h.keys ▸ hlive), h.keys]
    have hleft : (g.become r).left = g.left := by
      have hnone : g.runner.activeTasks.keys.filter (fun t => t ∉ r.activeTasks.keys) = [] := by
        refine List.filter_eq_nil_iff.mpr fun t ht => ?_
        have : t ∈ r.activeTasks.keys := hkeys ▸ List.mem_append_left _ (h.keys ▸ ht)
        simpa using this
      rw [ImageRunner.become, hnone, List.append_nil]
    exact
      { keys := by rw [live_submit]; exact hkeys
        once := by
          show g.submitted ++ [task.taskId] = (g.become r).left ++ (g.engine.submit _).live
          rw [hleft, live_submit, h.once, List.append_assoc]
        nodup := List.nodup_append.mpr ⟨h.nodup, List.nodup_singleton _, fun t ht t' ht' heq => by
          rw [List.mem_singleton] at ht'
          exact hnew (ht' ▸ heq ▸ ht)⟩
        seen := fun t ht => by
          obtain ht | ht := List.mem_append.mp ht
          · exact htakes.seen t (h.seen t ht)
          · exact List.mem_singleton.mp ht ▸ htakes.taken
        finished := hleft ▸ h.finished
        silent := h.silent
        raised := h.raised }
  · rename_i hsub
    rw [if_neg hsub] at hactive
    exact h.become hactive htakes.seen

/-- What the runner does with a response about a live task. -/
theorem engineStep_eq {r : Runner} (results : List (TaskId × GenerationResponse))
    (hphase : r.phase = .generating)
    (hactive : ∀ p ∈ results, p.2 = .chunk → p.1 ∈ r.activeTasks.keys) :
    ∃ sent, r.engineStep results = some ({ r with
      activeTasks := (Runner.finishedTasks results).foldl Dict.erase r.activeTasks
      phase := .polling }, sent) := by
  have hok := Runner.responseEvents_ok r results hactive
  unfold Runner.engineStep
  rw [hphase]
  dsimp only
  rw [if_pos hok]
  exact ⟨_, rfl⟩

theorem Sound.stepEngine (h : Sound g) (hprimary : g.engine.shardMetadata.isPrimaryOutputNode)
    (herror : g.engine.holdsError = false) (hphase : g.runner.phase = .generating)
    {outcomes : List ImageOutcome} (hstep : g.stepEngine outcomes = some g') : Sound g' := by
  obtain ⟨⟨result, e⟩, he, hrest⟩ := Option.bind_eq_some_iff.mp hstep
  have hsays := ImageEngine.says_step hprimary herror he
  have hshard := ImageEngine.shardMetadata_step he
  have hprimary' : e.shardMetadata.isPrimaryOutputNode = true := by rw [hshard]; exact hprimary
  have hnodup : (g.left ++ g.engine.live).Nodup := h.once ▸ h.nodup
  -- a live task has not finished before
  have hlate : ∀ t ∈ g.engine.live, ∀ p ∈ g.yielded, p.2 = .finished → t ≠ p.1 := by
    intro t ht p hp hfin heq
    exact (List.nodup_append.mp hnodup).2.2 p.1 (h.finished p hp hfin) t ht heq.symm
  cases hsays with
  | nothing h1 h2 =>
    obtain ⟨sent, heq⟩ := engineStep_eq [] hphase (by simp)
    simp only [Option.toList_none, ite_self, heq, Option.map_some, Option.some.injEq,
      List.append_nil] at hrest
    subst hrest
    have hs : Sound (g.become { g.runner with phase := .polling }) := h.become rfl fun _ ht => ht
    have hlive : e.live = g.engine.live := h2.trans h1.symm
    exact ⟨hlive ▸ hs.keys, hlive ▸ hs.once, hs.nodup, hs.seen, hs.finished, hs.silent, hs.raised⟩
  | chunk t rest h1 h2 =>
    have ht : t ∈ g.engine.live := h1 ▸ List.mem_cons_self
    obtain ⟨sent, heq⟩ := engineStep_eq [(t, .chunk)] hphase (by simp [h.keys, ht])
    simp only [hprimary', if_true, Option.toList_some, heq, Option.map_some,
      Option.some.injEq] at hrest
    subst hrest
    have hs : Sound (g.become { g.runner with phase := .polling }) := h.become rfl fun _ ht => ht
    have hlive : e.live = g.engine.live := h2.trans h1.symm
    refine ⟨hlive ▸ hs.keys, hlive ▸ hs.once, hs.nodup, hs.seen, fun p hp hfin => ?_, ?_,
      hs.raised⟩
    · obtain hp | hp := List.mem_append.mp hp
      · exact hs.finished p hp hfin
      · rw [List.mem_singleton.mp hp] at hfin
        cases hfin
    · exact List.pairwise_append.mpr ⟨h.silent, by simp, fun p hp q hq hfin => by
        rw [List.mem_singleton.mp hq]
        exact hlate t ht p hp hfin⟩
  | finished t rest h1 h2 =>
    have ht : t ∈ g.engine.live := h1 ▸ List.mem_cons_self
    obtain ⟨sent, heq⟩ : ∃ sent, g.runner.engineStep [(t, .finished)] = some ({ g.runner with
        activeTasks := g.runner.activeTasks.erase t
        phase := .polling }, sent) := engineStep_eq _ hphase (by simp)
    simp only [hprimary', if_true, Option.toList_some, heq, Option.map_some,
      Option.some.injEq] at hrest
    subst hrest
    obtain ⟨hfirst, hrest⟩ : t ∉ rest ∧ rest.Nodup := by
      have := (List.nodup_append.mp hnodup).2.1
      rw [h1] at this
      exact List.nodup_cons.mp this
    have hkeys : (g.runner.activeTasks.erase t).keys = rest := by
      rw [Dict.keys_erase, h.keys, h1]
      simp only [ne_eq, not_true_eq_false, decide_false, Bool.false_eq_true, not_false_eq_true,
        List.filter_cons_of_neg]
      refine List.filter_eq_self.mpr fun t' ht' => ?_
      have hne : t' ≠ t := fun heq => hfirst (heq ▸ ht')
      simpa using hne
    have hgone : g.runner.activeTasks.keys.filter
        (fun t' => t' ∉ (g.runner.activeTasks.erase t).keys) = [t] := by
      rw [hkeys, h.keys, h1, List.filter_cons_of_pos (by simpa using hfirst)]
      have hnone : rest.filter (fun t' => decide (t' ∉ rest)) = [] :=
        List.filter_eq_nil_iff.mpr fun t' ht' => by simpa using ht'
      rw [hnone]
    have hleft : (g.become { g.runner with
        activeTasks := g.runner.activeTasks.erase t
        phase := .polling }).left = g.left ++ [t] := congrArg (g.left ++ ·) hgone
    refine ⟨hkeys.trans h2.symm, ?_, h.nodup, h.seen, fun p hp hfin => ?_, ?_, h.raised⟩
    · show g.submitted = (g.become _).left ++ e.live
      rw [hleft, h.once, h1, h2]
      simp
    · show p.1 ∈ (g.become _).left
      rw [hleft]
      obtain hp | hp := List.mem_append.mp hp
      · exact List.mem_append_left [t] (h.finished p hp hfin)
      · rw [List.mem_singleton.mp hp]
        simp
    · exact List.pairwise_append.mpr ⟨h.silent, by simp, fun p hp q hq hfin => by
        rw [List.mem_singleton.mp hq]
        exact hlate t ht p hp hfin⟩

theorem sound_step {a : ImageAction} (h : Sound g) (hok : g.isolates a = true)
    (hstep : g.step a = some g') : Sound g' := by
  cases a with
  | take task => exact h.take hstep
  | takeClosed =>
    obtain ⟨r, hr, rfl⟩ := Option.map_eq_some_iff.mp hstep
    unfold Runner.takeClosed at hr
    split at hr
    all_goals try cases hr
    all_goals exact h.become rfl fun _ ht => ht
  | pollEmpty =>
    simp only [step] at hstep
    split at hstep
    · rw [← Option.some.inj hstep]
      exact h.become (Runner.activeTasks_loop _) fun t ht => (Runner.seen_loop g.runner).symm ▸ ht
    · cases hstep
  | step outcomes =>
    simp only [step] at hstep
    split at hstep
    · rename_i hphase
      obtain ⟨hprimary, herror⟩ : g.engine.shardMetadata.isPrimaryOutputNode = true ∧
          g.engine.holdsError = false := by simpa [isolates] using hok
      exact h.stepEngine hprimary herror hphase hstep
    · cases hstep

theorem sound_start (boundInstance : BoundInstance) (shard : ImageShard) (seen : List TaskId) :
    Sound (start boundInstance shard seen) := by
  constructor <;> simp [start, ImageEngine.live, Dict.keys]

/--
**Image tasks are accounted for on the primary output rank**, as long as no step follows the
`FinishedResponse` of a task that failed.
-/
theorem images_accounted (boundInstance : BoundInstance) (shard : ImageShard)
    (seen : List TaskId) (g : ImageRunner)
    (h : (machine boundInstance shard seen).ReachableWhen (fun g a => g.isolates a = true) g) :
    Accounted g :=
  (h.invariant (P := Sound) (sound_start boundInstance shard seen)
    fun _ _ _ hs hok hstep => sound_step hs hok hstep).accounted

/-! ## Tasks that are not -/

/-- An image model on one node. -/
def oneNode : BoundInstance where
  inst :=
    { instanceId := 100
      shardAssignments :=
        { modelId := 7
          runnerToShard := Dict.empty.set 11
            { modelId := 7, deviceRank := 0, worldSize := 1, startLayer := 0, endLayer := 4 }
          nodeToRunner := Dict.empty.set 1 11
          runnersExist := soleRunner_exists } }
  boundRunnerId := 11
  boundNodeId := 1
  shardExists := soleShard_exists

/-- A client asks for an image. -/
def request (taskId : TaskId) : ImageAction :=
  .take ⟨taskId, .pending, 100, .imageGeneration taskId, none, none⟩

/-- Two images one after the other, of two chunks and of one. -/
def twoImages : List ImageAction :=
  [request 1, .step [.chunk], .pollEmpty, .step [.chunk], request 2, .step [.returns],
    .pollEmpty, .step [.chunk], .pollEmpty, .step [.returns], .pollEmpty]

theorem images_accounted_twoImages : ∃ g : ImageRunner, g.left = [1, 2] ∧ Accounted g := by
  have hrun : ((machine oneNode (.pipeline 0 1) []).runWhen (fun g a => g.isolates a = true)
      (machine oneNode (.pipeline 0 1) []).init twoImages).map (·.left) = some [1, 2] := by
    decide +kernel
  obtain ⟨g, hg, hleft⟩ := Option.map_eq_some_iff.mp hrun
  exact ⟨g, hleft, images_accounted oneNode (.pipeline 0 1) [] g (Machine.reachableWhen_of_run hg)⟩

/-- The first image fails, and the second one is asked for when the runner is ready again. -/
def failsThenNext : List ImageAction :=
  [request 1, .step [.raises "ValueError"], .pollEmpty, .step [], .pollEmpty, request 2, .step []]

/-- A rank that is not the primary output rank runs one image to its end. -/
def otherRank : List ImageAction :=
  [request 1, .step [.chunk, .returns], .pollEmpty, .step [], .pollEmpty]

/-- The step of one task raises what another task left, and a filtered task never leaves. -/
theorem not_images_accounted :
    (¬ ∀ g, (machine oneNode (.pipeline 0 1) []).Reachable g → Accounted g) ∧
    ¬ ∀ g, (machine oneNode (.pipeline 0 2) []).Reachable g → Accounted g := by
  constructor
  · intro h
    have hrun : ((machine oneNode (.pipeline 0 1) []).run (machine oneNode (.pipeline 0 1) []).init
        failsThenNext).map (·.raised) = some [(1, [2])] := by decide +kernel
    obtain ⟨g, hg, hraised⟩ := Option.map_eq_some_iff.mp hrun
    have := (h g (Machine.reachable_of_run hg)).isolated (1, [2]) (by rw [hraised]; decide)
    revert this
    decide
  · intro h
    have hrun : ((machine oneNode (.pipeline 0 2) []).run (machine oneNode (.pipeline 0 2) []).init
        otherRank).map (fun g => (g.engine.exhausted, g.runner.activeTasks.keys))
        = some (true, [1]) := by decide +kernel
    obtain ⟨g, hg, hstate⟩ := Option.map_eq_some_iff.mp hrun
    obtain ⟨hexhausted, hkeys⟩ := Prod.mk.inj hstate
    have := ((h g (Machine.reachable_of_run hg)).released hexhausted).1
    rw [hkeys] at this
    cases this

end ImageRunner

end Exo
