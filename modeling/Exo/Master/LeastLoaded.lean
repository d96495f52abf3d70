import Exo.Lib.Machine
import Exo.Master.Commands
import Exo.Shared.Tasks

/-!
# The least loaded instance

The command processor counts the tasks of `self.state`. A task it creates is an event it sends, and the
event processor applies it later, behind whatever else has arrived. A command that is handled in
between does not see the task.

The state the master is heading for is the one where everything sent has been applied. The choice is
right for it exactly when the instance that looks least loaded has no more unapplied tasks than any
other, beyond those by which the other one looks busier.
-/

namespace Exo.LeastLoaded

open Lib (Dict Machine)

/-- A `TextGeneration` command, with the id drawn for its task. -/
structure Request where
  commandId : CommandId
  model : ModelId
  imageHashes : List Base64ImageHash := []
  taskId : TaskId
  deriving DecidableEq

/-- The command processor, and the events it sent that are not applied, the oldest first. -/
structure System where
  processor : CommandProcessor := {}
  sent : List EventBody := []

/-- Events of other sources are applied at any time; those sent are applied in their order. -/
inductive Action where
  | textGeneration (request : Request)
  | applySent
  | applyOther (body : EventBody)

/-- The event creates the task. -/
def creates (t : TaskId) : EventBody → Bool
  | .taskCreated t' _ => t' = t
  | _ => false

/-- The event creates a task that one of the others creates. -/
def clashes (sent : List EventBody) : EventBody → Bool
  | .taskCreated t _ => sent.any (creates t)
  | _ => false

namespace System

variable (s : System)

def execute (r : Request) : CommandProcessor × List EventBody :=
  s.processor.execute r.taskId (.textGeneration r.commandId r.model r.imageHashes)

def applied (body : EventBody) : CommandProcessor :=
  { s.processor with state := body.apply s.processor.state }

/-- Task ids are drawn fresh: no event of another source creates a task that was sent. -/
def step : Action → Option System
  | .textGeneration r =>
    if (s.processor.state.tasks.get? r.taskId).isSome ∨ s.sent.any (creates r.taskId) then none
    else some { processor := (s.execute r).1, sent := s.sent ++ (s.execute r).2 }
  | .applySent =>
    match s.sent with
    | [] => none
    | body :: sent => some { processor := s.applied body, sent }
  | .applyOther body =>
    if clashes s.sent body then none
    else some { s with processor := s.applied body }

/-- The state with everything sent applied. -/
def upToDate : State := s.sent.foldl (fun state body => body.apply state) s.processor.state

/-- The tasks of an instance in flight, applied or not. -/
def load (i : InstanceId) : Nat :=
  { s.processor with state := s.upToDate : CommandProcessor }.taskCount i

/-- The instances a text generation may go to. -/
def eligible (model : ModelId) : List InstanceId :=
  (s.processor.servingInstances model).filter fun i => !s.processor.prefillOnly i

/-- The task that a command creates goes to an instance with the least load. -/
def CountsAssigned (r : Request) : Prop :=
  ∀ t task, .taskCreated t task ∈ (s.execute r).2 →
    ∀ i ∈ s.eligible r.model, s.load task.instanceId ≤ s.load i

/-- The tasks sent to an instance and not applied. -/
def unapplied (i : InstanceId) : Nat :=
  s.sent.countP fun
    | .taskCreated _ task => task.instanceId = i ∧ task.taskStatus.inFlight
    | _ => false

/-- Of the instances with the fewest applied tasks, the first. -/
def LooksFree (model : ModelId) (c : InstanceId) : Prop :=
  c ∈ s.eligible model ∧ ∀ i ∈ s.eligible model,
    s.processor.taskCount c < s.processor.taskCount i
      ∨ s.processor.taskCount c = s.processor.taskCount i
        ∧ (s.eligible model).idxOf c ≤ (s.eligible model).idxOf i

/-- The unapplied tasks do not upset the order: the instance that looks free has at most as many as
any other, beyond what the other one has applied more. -/
def Settled (model : ModelId) : Prop :=
  ∀ c, s.LooksFree model c → ∀ i ∈ s.eligible model,
    s.unapplied c ≤ s.unapplied i + (s.processor.taskCount i - s.processor.taskCount c)

end System

def machine : Machine System Action := ⟨{}, System.step⟩

variable {s s' : System} {r : Request} {body : EventBody} {c i : InstanceId} {model : ModelId}

/-! ## The choice -/

theorem leastLoaded_eq_some :
    s.processor.leastLoaded (s.eligible model) = some c ↔ s.LooksFree model c := by
  have hargmin := List.mem_argmin_iff (f := s.processor.taskCount) (l := s.eligible model) (m := c)
  rw [CommandProcessor.leastLoaded, ← Option.mem_def, hargmin]
  constructor
  · intro ⟨hmem, hleast, hfirst⟩
    refine ⟨hmem, fun i hi => ?_⟩
    rcases Nat.lt_or_ge (s.processor.taskCount c) (s.processor.taskCount i) with hlt | hge
    · exact .inl hlt
    · exact .inr ⟨Nat.le_antisymm (hleast i hi) hge, hfirst i hi hge⟩
  · intro ⟨hmem, hlooks⟩
    refine ⟨hmem, fun i hi => ?_, fun i hi hle => ?_⟩
    · rcases hlooks i hi with hlt | ⟨heq, -⟩
      · exact Nat.le_of_lt hlt
      · exact Nat.le_of_eq heq
    · rcases hlooks i hi with hlt | ⟨-, hidx⟩
      · omega
      · exact hidx

variable {t : TaskId}

/-- The command creates one task, on the instance that looks free. -/
theorem mem_execute {task : Task} :
    .taskCreated t task ∈ (s.execute r).2 ↔ ∃ c, s.LooksFree r.model c ∧ t = r.taskId
      ∧ task = { taskId := r.taskId, taskStatus := .pending, instanceId := c,
                 kind := .textGeneration r.commandId r.imageHashes [] } := by
  unfold System.execute CommandProcessor.execute
  show _ ∈ (s.processor.createTask _ _ (s.processor.leastLoaded (s.eligible r.model)) _).2 ↔ _
  cases hchoice : s.processor.leastLoaded (s.eligible r.model) with
  | none =>
      refine iff_of_false (fun h => by cases h) fun ⟨c, hc, _⟩ => ?_
      rw [leastLoaded_eq_some.2 hc] at hchoice
      cases hchoice
  | some c =>
      rw [CommandProcessor.createTask, List.mem_singleton, EventBody.taskCreated.injEq]
      constructor
      · intro ⟨ht, htask⟩
        exact ⟨c, leastLoaded_eq_some.1 hchoice, ht, htask⟩
      · intro ⟨c', hc', ht, htask⟩
        rw [leastLoaded_eq_some.2 hc'] at hchoice
        cases hchoice
        exact ⟨ht, htask⟩

/-! ## What is sent -/

/-- What is sent creates tasks that are new, each once. -/
structure Fresh (state : State) (sent : List EventBody) : Prop where
  created : ∀ body ∈ sent, ∃ t task, body = .taskCreated t task ∧ state.tasks.get? t = none
  apart : sent.Pairwise fun a b => ∀ t, creates t a → ¬ creates t b

theorem creates_iff : creates t body ↔ ∃ task, body = .taskCreated t task := by
  constructor
  · intro h
    cases body with
    | taskCreated t' task => exact ⟨task, by rw [of_decide_eq_true h]⟩
    | _ => cases h
  · intro ⟨task, h⟩
    rw [h]
    exact decide_eq_true rfl

/-- An event that does not create a task leaves it out of the state. -/
theorem get?_tasks_apply {state : State} (hnone : state.tasks.get? t = none)
    (hbody : ¬ creates t body) : (body.apply state).tasks.get? t = none := by
  cases hget : (body.apply state).tasks.get? t with
  | none => rfl
  | some task =>
      rcases apply_tasks_cases hget with ⟨t', rfl, rfl⟩ | ⟨old, hold, -⟩
      · exact absurd (decide_eq_true rfl) hbody
      · rw [hnone] at hold
        cases hold

theorem Fresh.tail {state : State} {sent : List EventBody} (h : Fresh state (body :: sent)) :
    Fresh (body.apply state) sent := by
  obtain ⟨hhead, htail⟩ := List.pairwise_cons.mp h.apart
  refine ⟨fun b hb => ?_, htail⟩
  obtain ⟨t, task, rfl, hnone⟩ := h.created b (List.mem_cons_of_mem _ hb)
  refine ⟨t, task, rfl, get?_tasks_apply hnone fun hcreates => ?_⟩
  exact hhead _ hb t hcreates (decide_eq_true rfl)

theorem fresh_step {a : Action} (h : Fresh s.processor.state s.sent) (hs : s.step a = some s') :
    Fresh s'.processor.state s'.sent := by
  cases a with
  | textGeneration r =>
      rw [System.step, Option.ite_none_left_eq_some] at hs
      obtain ⟨hnew, hs⟩ := hs
      obtain rfl := Option.some.inj hs
      rw [not_or] at hnew
      have hstate : (s.execute r).1.state = s.processor.state := by
        unfold System.execute CommandProcessor.execute CommandProcessor.createTask
        dsimp only
        split <;> rfl
      have hlast : ∀ b ∈ (s.execute r).2, ∃ task, b = .taskCreated r.taskId task := by
        unfold System.execute CommandProcessor.execute CommandProcessor.createTask
        dsimp only
        split
        · simp
        · simp
      have honce : (s.execute r).2.length ≤ 1 := by
        unfold System.execute CommandProcessor.execute CommandProcessor.createTask
        dsimp only
        split <;> simp
      refine ⟨fun b hb => ?_, ?_⟩
      · show ∃ t task, _ ∧ (s.execute r).1.state.tasks.get? t = none
        rw [hstate]
        rcases List.mem_append.mp hb with hb | hb
        · exact h.created b hb
        · obtain ⟨task, rfl⟩ := hlast b hb
          exact ⟨r.taskId, task, rfl, Option.not_isSome_iff_eq_none.mp hnew.1⟩
      · refine List.pairwise_append.mpr ⟨h.apart, ?_, fun b hb b' hb' t ht ht' => ?_⟩
        · match hsent : (s.execute r).2 with
          | [] => exact List.Pairwise.nil
          | [b] => exact List.pairwise_singleton _ _
          | _ :: _ :: _ =>
              rw [hsent] at honce
              simp at honce
        · obtain ⟨task, rfl⟩ := hlast b' hb'
          obtain rfl : r.taskId = t := of_decide_eq_true ht'
          exact hnew.2 (List.any_eq_true.mpr ⟨b, hb, ht⟩)
  | applySent =>
      unfold System.step at hs
      dsimp only at hs
      split at hs
      · cases hs
      · rename_i body sent hsent
        obtain rfl := Option.some.inj hs
        rw [hsent] at h
        exact h.tail
  | applyOther body =>
      rw [System.step, Option.ite_none_left_eq_some] at hs
      obtain ⟨hother, hs⟩ := hs
      obtain rfl := Option.some.inj hs
      refine ⟨fun b hb => ?_, h.apart⟩
      obtain ⟨t, task, rfl, hnone⟩ := h.created b hb
      refine ⟨t, task, rfl, get?_tasks_apply hnone fun hcreates => hother ?_⟩
      obtain ⟨task', rfl⟩ := creates_iff.1 hcreates
      exact List.any_eq_true.mpr ⟨_, hb, decide_eq_true rfl⟩

theorem fresh_of_reachable (h : machine.Reachable s) : Fresh s.processor.state s.sent := by
  induction h with
  | init => exact ⟨fun b hb => (by cases hb), List.Pairwise.nil⟩
  | tail _ hs ih => exact fresh_step ih hs

/-! ## The load -/

/-- **The load is what is applied and what is sent.** -/
theorem load_eq (h : Fresh s.processor.state s.sent) (i : InstanceId) :
    s.load i = s.processor.taskCount i + s.unapplied i := by
  obtain ⟨processor, sent⟩ := s
  -- the induction takes the events from the front, as they will be applied
  induction sent generalizing processor with
  | nil => rfl
  | cons body sent ih =>
      obtain ⟨t, task, rfl, hnone⟩ := h.created body List.mem_cons_self
      have hrest := ih { processor with
        state := (EventBody.taskCreated t task).apply processor.state } h.tail
      have hvalues : ((EventBody.taskCreated t task).apply processor.state).tasks.values
          = processor.state.tasks.values ++ [task] := by
        have hkey : t ∉ processor.state.tasks.entries.map Prod.fst := fun hmem => by
          have hsome := Dict.mem_keys.1 hmem
          rw [hnone] at hsome
          cases hsome
        show (processor.state.tasks.set t task).values = _
        rw [Dict.set, dif_neg hkey, Dict.values, List.map_append]
        rfl
      show System.load ⟨{ processor with
        state := (EventBody.taskCreated t task).apply processor.state }, sent⟩ i = _
      rw [hrest, CommandProcessor.taskCount, CommandProcessor.taskCount, hvalues]
      simp only [System.unapplied, List.countP_append, List.countP_cons, List.countP_nil]
      omega

/-- **When the choice is right.** -/
theorem countsAssigned_iff (h : machine.Reachable s) (r : Request) :
    s.CountsAssigned r ↔ s.Settled r.model := by
  have hload := load_eq (fresh_of_reachable h)
  constructor
  · intro hcounts c hc i hi
    have hle : s.load c ≤ s.load i :=
      hcounts r.taskId _ (mem_execute.2 ⟨c, hc, rfl, rfl⟩) i hi
    rw [hload, hload] at hle
    have happlied : s.processor.taskCount c ≤ s.processor.taskCount i := by
      rcases hc.2 i hi with hlt | ⟨heq, -⟩ <;> omega
    omega
  · intro hsettled t task hmem i hi
    obtain ⟨c, hc, rfl, rfl⟩ := mem_execute.1 hmem
    have hle := hsettled c hc i hi
    have happlied : s.processor.taskCount c ≤ s.processor.taskCount i := by
      rcases hc.2 i hi with hlt | ⟨heq, -⟩ <;> omega
    show s.load c ≤ s.load i
    rw [hload, hload]
    omega

/-- An instance of a model, with no runners. -/
def emptyInstance (instanceId : InstanceId) : Instance where
  instanceId
  shardAssignments := {
    modelId := 0
    runnerToShard := .empty
    nodeToRunner := .empty
    runnersExist := fun r hr => by cases hr }

/-- Two instances, and two commands before an event is applied. -/
def burst : List Action :=
  [.applyOther (.instanceCreated (emptyInstance 1)), .applyOther (.instanceCreated (emptyInstance 2)),
    .textGeneration { commandId := 1, model := 0, taskId := 1 },
    .textGeneration { commandId := 2, model := 0, taskId := 2 }]

end Exo.LeastLoaded
