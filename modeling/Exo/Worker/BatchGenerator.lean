import Exo.Worker.Collectives
import Exo.Worker.Runner

/-!
# The batch engine

An engine holds a task in one of three places: with the tasks the ranks have not agreed
on, in the queue, or among the active ones, which the generator works on together. The
generator numbers the sequences it is given, and the number is what the engine knows an
active task by.

What the tokens are is not part of the model. A response of the generator says how many
chunks the parsers of its task make of it and whether it is the last one.
-/

namespace Exo

open Lib (Dict Proc)

/-- A task of the generator, with the counter of its `on_generation_token`. -/
structure EngineTask where
  taskId : TaskId
  tokensSinceCancelCheck : Nat
  deriving DecidableEq, Repr

structure ExoBatchGenerator where
  activeTasks : Dict Nat EngineTask := .empty
  /-- How many sequences `_mlx_gen.insert` was given. The next one gets this number. -/
  inserted : Nat := 0
  deriving DecidableEq

/-- What the generator says about a sequence. -/
structure TokenResponse where
  uid : Nat
  /-- How often the parsed output of the task yields. -/
  chunks : Nat
  /-- `response.finish_reason is not None`. -/
  finished : Bool
  deriving DecidableEq, Repr

/-- What the other ranks contribute to one collective after the other. -/
abbrev Others := List (List Contribution × List Contribution)

structure BatchGenerator extends Agreements where
  deviceRank : Int := 0
  checkForCancelEvery : Nat := 50
  activeTasks : Dict Nat TaskId := .empty
  gen : ExoBatchGenerator := {}
  deriving DecidableEq

/-- The body of `on_generation_token` when it is time to check. -/
def Agreements.checkGenerationToken (a : Agreements) (taskId : TaskId) : Rank Agreements := do
  let a ← a.agreeOnCancellations
  let a := if a.shouldCancel taskId then
    { a with cancelledTasks := a.cancelledTasks.insert taskId } else a
  a.agreeOnTasks

namespace BatchGenerator

/-- `submit`, of a text generation. -/
def submit (e : BatchGenerator) (taskId : TaskId) : BatchGenerator :=
  { e with
    cancelledTasks := e.cancelledTasks.filter fun t => t ≠ CANCEL_ALL_TASKS
    allTasks := e.allTasks.insert taskId
    maybeQueue := e.maybeQueue ++ [taskId] }

/-- Go through collectives, where `others` is what the other ranks contribute. -/
def agree (e : BatchGenerator) (p : Rank Agreements) (others : Others) :
    Option BatchGenerator :=
  (p.hear others).map fun a => { e with toAgreements := a }

/-- `_gen.submit` has prefilled the task and returns its number. -/
def activate (e : BatchGenerator) (taskId : TaskId) : BatchGenerator :=
  let uid := e.gen.inserted
  { e with
    activeTasks := e.activeTasks.set uid taskId
    gen :=
      { activeTasks := e.gen.activeTasks.set uid ⟨taskId, e.checkForCancelEvery⟩
        inserted := uid + 1 } }

/-- `on_generation_token` of an active sequence. -/
def onGenerationToken (e : BatchGenerator) (uid : Nat) (task : EngineTask)
    (others : Others) : Option BatchGenerator :=
  let count := task.tokensSinceCancelCheck + 1
  let counted (n : Nat) : BatchGenerator :=
    { e with gen := { e.gen with activeTasks := e.gen.activeTasks.set uid { task with
        tokensSinceCancelCheck := n } } }
  if count ≥ e.checkForCancelEvery then
    (counted 0).agree (e.checkGenerationToken task.taskId) others
  else some (counted count)

/-- A round of the loop of `_gen.step`: a sequence yields a token. -/
def token (e : BatchGenerator) (response : TokenResponse) (others : Others) :
    Option BatchGenerator := do
  let task ← e.gen.activeTasks.get? response.uid
  let e ← e.onGenerationToken response.uid task others
  if response.finished then
    pure { e with gen := { e.gen with activeTasks := e.gen.activeTasks.erase response.uid } }
  else pure e

/-- The loop of `step` over the responses, with the tasks that stay active. -/
def outputs : List TokenResponse → Dict Nat TaskId →
    Dict Nat TaskId × List (TaskId × GenerationResponse)
  | [], active => (active, [])
  | r :: results, active =>
      match active.get? r.uid with
      | none => outputs results active
      | some task =>
          let chunks := List.replicate r.chunks (task, GenerationResponse.chunk)
          if r.finished then
            let (active, output) := outputs results (active.erase r.uid)
            (active, chunks ++ (task, .finished) :: output)
          else
            let (active, output) := outputs results active
            (active, chunks ++ output)

/-- `_apply_cancellations`. -/
def applyCancellations (e : BatchGenerator) :
    BatchGenerator × List (TaskId × GenerationResponse) :=
  if e.cancelledTasks = [] then (e, [])
  else
    let uidsToCancel := (e.activeTasks.entries.filter fun p => e.shouldCancel p.2).map Prod.fst
    let results := e.activeTasks.values.filter e.shouldCancel
    let others := e.cancelledTasks.filter fun t => t ≠ CANCEL_ALL_TASKS && !results.contains t
    ({ e with
        activeTasks := e.activeTasks.filter fun _ t => !e.shouldCancel t
        gen := { e.gen with activeTasks := uidsToCancel.foldl Dict.erase e.gen.activeTasks }
        cancelledTasks := [] },
      (results ++ others).map fun t => (t, .cancelled))

/-! ## What the operations do to the tasks -/

/-- What `on_generation_token` makes of the queues and the cancellations. -/
structure Checks (a : Agreements) (taskId : TaskId) (a' : Agreements) : Prop where
  allTasks : a'.allTasks = a.allTasks
  queued : a.maybeQueue.Nodup →
    (a'.maybeQueue ++ a'.queue).Perm (a.maybeQueue ++ a.queue)
  cancelledTasks : ∀ t ∈ a'.cancelledTasks, t ∈ a.cancelledTasks ∨ t = CANCEL_ALL_TASKS
    ∨ t ∈ a.maybeCancel ∨ t ∈ a.allTasks ∨ t = taskId
  maybeCancel : ∀ t ∈ a'.maybeCancel, t ∈ a.maybeCancel ∨ t ∈ a.allTasks
  kept : ∀ t ∈ a.cancelledTasks, t ∈ a'.cancelledTasks
  appended : ∃ agreed, a'.queue = a.queue ++ agreed

theorem checks_refl (a : Agreements) (taskId : TaskId) : Checks a taskId a :=
  ⟨rfl, fun _ => .refl _, fun _ ht => .inl ht, fun _ ht => .inl ht, fun _ ht => ht, [],
    (List.append_nil _).symm⟩

theorem ensures_checkGenerationToken (a : Agreements) (taskId : TaskId) :
    (a.checkGenerationToken taskId).Ensures (Checks a taskId) := by
  refine Proc.Ensures.bind ((Agreements.ensures_agreeOnCancellations a).mono fun b hb => ?_)
  have hknown : ∀ t ∈ b.cancelledTasks, t ∈ a.cancelledTasks ∨ t = CANCEL_ALL_TASKS
      ∨ t ∈ a.maybeCancel ∨ t ∈ a.allTasks ∨ t = taskId := fun t ht => by
    have := hb.cancelledTasks t ht
    tauto
  by_cases hc : b.shouldCancel taskId = true
  · -- the task of the token is now cancelled by name
    simp only [hc, if_true]
    refine (Agreements.ensures_agreeOnTasks _).mono fun c h => ?_
    refine ⟨h.allTasks.trans hb.allTasks, fun hn => ?_, fun t ht => ?_,
      fun t ht => hb.maybeCancel t (h.maybeCancel ▸ ht), fun t ht => ?_, ?_⟩
    · rw [← hb.maybeQueue, ← hb.queue]
      exact h.queued (by rw [hb.maybeQueue]; exact hn)
    · rw [h.cancelledTasks] at ht
      rcases List.mem_insert_iff.mp ht with rfl | ht
      · exact .inr (.inr (.inr (.inr rfl)))
      · exact hknown t ht
    · rw [h.cancelledTasks]
      exact List.mem_insert_of_mem (hb.kept t ht)
    · rw [← hb.queue]
      exact h.appended
  · simp only [hc]
    refine (Agreements.ensures_agreeOnTasks _).mono fun c h => ?_
    refine ⟨h.allTasks.trans hb.allTasks, fun hn => ?_, fun t ht => ?_,
      fun t ht => hb.maybeCancel t (h.maybeCancel ▸ ht), fun t ht => ?_, ?_⟩
    · rw [← hb.maybeQueue, ← hb.queue]
      exact h.queued (by simpa [hb.maybeQueue] using hn)
    · exact hknown t (by simpa [h.cancelledTasks] using ht)
    · simpa [h.cancelledTasks] using hb.kept t ht
    · rw [← hb.queue]
      exact h.appended

/-- A token changes what the ranks agreed on and the bookkeeping of the generator. -/
structure Tokens (e : BatchGenerator) (e' : BatchGenerator) : Prop where
  checks : ∃ task ∈ e.gen.activeTasks.values, Checks e.toAgreements task.taskId e'.toAgreements
  activeTasks : e'.activeTasks = e.activeTasks
  inserted : e'.gen.inserted = e.gen.inserted
  gen : ∀ task ∈ e'.gen.activeTasks.values,
    ∃ task' ∈ e.gen.activeTasks.values, task'.taskId = task.taskId

theorem tokens_token {e e' : BatchGenerator} {r : TokenResponse} {others : Others}
    (h : e.token r others = some e') : Tokens e e' := by
  obtain ⟨task, htask, h⟩ := Option.bind_eq_some_iff.mp h
  obtain ⟨e₁, he₁, h⟩ := Option.bind_eq_some_iff.mp h
  have hmem : task ∈ e.gen.activeTasks.values := Dict.mem_values.2 ⟨r.uid, htask⟩
  have hcount : ∀ n, ∀ x ∈ (e.gen.activeTasks.set r.uid
      { task with tokensSinceCancelCheck := n }).values,
      ∃ x' ∈ e.gen.activeTasks.values, x'.taskId = x.taskId := by
    intro n x hx
    obtain ⟨uid, huid⟩ := Dict.mem_values.1 hx
    rw [Dict.get?_set] at huid
    split at huid
    · exact ⟨task, hmem, by rw [← Option.some.inj huid]⟩
    · exact ⟨x, Dict.mem_values.2 ⟨uid, huid⟩, rfl⟩
  have htokens : Tokens e e₁ := by
    unfold onGenerationToken at he₁
    dsimp only at he₁
    split at he₁
    · obtain ⟨a, ha, rfl⟩ := Option.map_eq_some_iff.mp he₁
      exact ⟨⟨task, hmem, (ensures_checkGenerationToken _ _).hear ha⟩, rfl, rfl, hcount 0⟩
    · rw [← Option.some.inj he₁]
      exact ⟨⟨task, hmem, checks_refl _ _⟩, rfl, rfl, hcount _⟩
  split at h
  · rw [← Option.some.inj h]
    exact { htokens with
      gen := fun x hx => htokens.gen x (Dict.mem_values_of_erase hx) }
  · rw [← Option.some.inj h]
    exact htokens

/-- After its cancellation or its end there is no chunk of a task. -/
def InOrder (p q : TaskId × GenerationResponse) : Prop :=
  p.1 = q.1 → q.2 = .chunk → p.2 = .chunk

instance (p q : TaskId × GenerationResponse) : Decidable (InOrder p q) :=
  inferInstanceAs (Decidable (_ → _ → _))

/-- What `outputs` gives, when every active task is active once. -/
structure Outputs (active active' : Dict Nat TaskId)
    (output : List (TaskId × GenerationResponse)) : Prop where
  nodup : active'.values.Nodup
  /-- What stays active keeps its number. -/
  stays : ∀ uid t, active'.get? uid = some t → active.get? uid = some t
  /-- Only active tasks have output. -/
  owned : ∀ p ∈ output, p.1 ∈ active.values
  /-- A finished task is not active any more. -/
  gone : ∀ p ∈ output, p.2 ≠ .chunk → p.1 ∉ active'.values
  /-- A task that is not active any more is finished. -/
  kept : ∀ t ∈ active.values, t ∈ active'.values ∨ (t, .finished) ∈ output
  ordered : output.Pairwise InOrder

theorem Outputs.subset {active active' : Dict Nat TaskId}
    {output : List (TaskId × GenerationResponse)} (h : Outputs active active' output) :
    ∀ t ∈ active'.values, t ∈ active.values := by
  intro t ht
  obtain ⟨uid, huid⟩ := Dict.mem_values.1 ht
  exact Dict.mem_values.2 ⟨uid, h.stays uid t huid⟩

theorem inOrder_of_chunk {p q : TaskId × GenerationResponse} (h : p.2 = .chunk) : InOrder p q :=
  fun _ _ => h

theorem pairwise_chunks (t : TaskId) (n : Nat) :
    (List.replicate n (t, GenerationResponse.chunk)).Pairwise InOrder :=
  List.pairwise_replicate.mpr (.inr (inOrder_of_chunk rfl))

theorem outputs_spec (results : List TokenResponse) : ∀ active : Dict Nat TaskId,
    active.values.Nodup → Outputs active (outputs results active).1 (outputs results active).2 := by
  induction results with
  | nil =>
      intro active hn
      exact ⟨hn, fun _ _ h => h, by simp [outputs], by simp [outputs], fun t ht => .inl ht,
        by simp [outputs]⟩
  | cons r results ih =>
      intro active hn
      rw [outputs]
      split
      · exact ih active hn
      · rename_i task huid
        have htask : task ∈ active.values := Dict.mem_values.2 ⟨r.uid, huid⟩
        have hchunk : ∀ p ∈ List.replicate r.chunks (task, GenerationResponse.chunk),
            p = (task, .chunk) := fun p hp => List.eq_of_mem_replicate hp
        split
        · -- the task ends, and its number is free
          have hrest := ih (active.erase r.uid) (Dict.nodup_values_filter _ hn)
          have hgone : task ∉ (outputs results (active.erase r.uid)).1.values := fun h =>
            Dict.not_mem_values_erase hn huid (hrest.subset _ h)
          refine ⟨hrest.nodup, fun uid t h => ?_, fun p hp => ?_, fun p hp hc => ?_,
            fun t ht => ?_, ?_⟩
          · have := hrest.stays uid t h
            rw [Dict.get?_erase] at this
            split at this
            · cases this
            · exact this
          · rcases List.mem_append.mp hp with h | h
            · rw [hchunk p h]; exact htask
            · rcases List.mem_cons.mp h with rfl | h
              · exact htask
              · exact Dict.mem_values_of_erase (hrest.owned p h)
          · rcases List.mem_append.mp hp with h | h
            · exact absurd (by rw [hchunk p h]) hc
            · rcases List.mem_cons.mp h with rfl | h
              · exact hgone
              · exact hrest.gone p h hc
          · rcases Dict.mem_values_erase huid ht with rfl | h
            · exact .inr (List.mem_append_right _ List.mem_cons_self)
            · exact (hrest.kept t h).imp_right fun h =>
                List.mem_append_right _ (List.mem_cons_of_mem _ h)
          · refine List.pairwise_append.mpr ⟨pairwise_chunks task _, ?_, fun p hp q _ => ?_⟩
            · refine List.pairwise_cons.mpr ⟨fun q hq heq _ => ?_, hrest.ordered⟩
              -- there is no output of a task that is not active any more
              have := hrest.owned q hq
              rw [← heq] at this
              exact absurd this (Dict.not_mem_values_erase hn huid)
            · exact inOrder_of_chunk (by rw [hchunk p hp])
        · have hrest := ih active hn
          refine ⟨hrest.nodup, hrest.stays, fun p hp => ?_, fun p hp hc => ?_,
            fun t ht => (hrest.kept t ht).imp_right (List.mem_append_right _), ?_⟩
          · rcases List.mem_append.mp hp with h | h
            · rw [hchunk p h]; exact htask
            · exact hrest.owned p h
          · rcases List.mem_append.mp hp with h | h
            · exact absurd (by rw [hchunk p h]) hc
            · exact hrest.gone p h hc
          · refine List.pairwise_append.mpr ⟨pairwise_chunks task _, hrest.ordered,
              fun p hp q _ => ?_⟩
            exact inOrder_of_chunk (by rw [hchunk p hp])

/-- What `_apply_cancellations` does. -/
structure Cancelled (e e' : BatchGenerator) (results : List (TaskId × GenerationResponse)) :
    Prop where
  queue : e'.queue = e.queue
  maybeQueue : e'.maybeQueue = e.maybeQueue
  allTasks : e'.allTasks = e.allTasks
  maybeCancel : e'.maybeCancel = e.maybeCancel
  cancelledTasks : e'.cancelledTasks = []
  inserted : e'.gen.inserted = e.gen.inserted
  gen : ∀ task ∈ e'.gen.activeTasks.values, task ∈ e.gen.activeTasks.values
  deviceRank : e'.deviceRank = e.deviceRank
  nodup : e.activeTasks.values.Nodup → e'.activeTasks.values.Nodup
  stays : ∀ uid t, e'.activeTasks.get? uid = some t → e.activeTasks.get? uid = some t
  /-- Everything cancelled is reported, and is not active any more. -/
  reported : ∀ t ∈ e.cancelledTasks, t ≠ CANCEL_ALL_TASKS →
    (t, .cancelled) ∈ results ∧ t ∉ e'.activeTasks.values
  /-- A task that is not active any more is reported. -/
  kept : ∀ t ∈ e.activeTasks.values, t ∈ e'.activeTasks.values ∨ (t, .cancelled) ∈ results
  /-- A report is of an active task that is not active any more, or of a cancelled task. -/
  origin : ∀ p ∈ results, p.2 = .cancelled ∧ p.1 ∉ e'.activeTasks.values
    ∧ (p.1 ∈ e.activeTasks.values ∨ p.1 ≠ CANCEL_ALL_TASKS ∧ p.1 ∈ e.cancelledTasks)

theorem applyCancellations_spec (e : BatchGenerator) :
    Cancelled e e.applyCancellations.1 e.applyCancellations.2 := by
  rw [applyCancellations]
  split
  · rename_i hnil
    exact ⟨rfl, rfl, rfl, rfl, hnil, rfl, fun _ ht => ht, rfl, id, fun _ _ h => h, by simp [hnil],
      fun t ht => .inl ht, by simp⟩
  · rename_i hsome
    have hactive : (e.activeTasks.filter fun _ t => !e.shouldCancel t).values
        = e.activeTasks.values.filter fun t => !e.shouldCancel t := Dict.values_filter _ _
    have hcancels : ∀ t ∈ e.cancelledTasks, e.shouldCancel t = true := fun t ht => by
      rw [Agreements.shouldCancel, List.contains_iff_mem.mpr ht, Bool.true_or]
    refine ⟨rfl, rfl, rfl, rfl, rfl, rfl, fun task ht => ?_, rfl, Dict.nodup_values_filter _,
      fun uid t h => ?_, fun t ht hne => ⟨?_, ?_⟩, fun t ht => ?_, fun p hp => ?_⟩
    · obtain ⟨uid, huid⟩ := Dict.mem_values.1 ht
      rw [Dict.get?_foldl_erase] at huid
      split at huid
      · cases huid
      · exact Dict.mem_values.2 ⟨uid, huid⟩
    · rw [Dict.get?_filter] at h
      exact (Option.filter_eq_some_iff.mp h).1
    · refine List.mem_map.mpr ⟨t, ?_, rfl⟩
      by_cases hr : t ∈ e.activeTasks.values.filter e.shouldCancel
      · exact List.mem_append_left _ hr
      · exact List.mem_append_right _ (List.mem_filter.mpr ⟨ht, by
          rw [Bool.and_eq_true, Bool.not_eq_true', List.contains_eq_mem, decide_eq_false_iff_not]
          exact ⟨decide_eq_true hne, hr⟩⟩)
    · rw [hactive]
      simp [hcancels t ht]
    · by_cases hc : e.shouldCancel t = true
      · exact .inr (List.mem_map.mpr ⟨t, List.mem_append_left _ (by simp [ht, hc]), rfl⟩)
      · exact .inl (by rw [hactive]; simp [ht, hc])
    · obtain ⟨t, ht, rfl⟩ := List.mem_map.mp hp
      rw [hactive]
      rcases List.mem_append.mp ht with h | h
      · obtain ⟨hmem, hc⟩ := List.mem_filter.mp h
        exact ⟨rfl, by simp [hc], .inl hmem⟩
      · simp only [List.mem_filter, Bool.and_eq_true, decide_eq_true_eq] at h
        exact ⟨rfl, by simp [hcancels t h.1], .inr ⟨h.2.1, h.1⟩⟩

end BatchGenerator

end Exo
