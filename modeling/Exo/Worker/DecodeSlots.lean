import Exo.Lib.Machine
import Exo.Worker.BatchGenerator
import Exo.Worker.StopSequences

/-!
# What the generator decodes

Under the two maps of active tasks is the generator of `mlx_lm`. It decodes a sequence from its
`insert` until it reports a `finish_reason` for it or is told to `remove` it. A task that ends with a
stop sequence leaves both maps; the generator below is told nothing.
-/

namespace Exo

open Lib (Dict Machine Text)
open StopSequences (Stop TokenText trimmed lookBack maxStopLen)

/-- What the generator below reports for a sequence, with the text of the token and what follows from
it above. -/
structure DecodeResponse where
  uid : Nat
  out : TokenText
  /-- How often the parsed output of the task yields. -/
  chunks : Nat
  /-- What the other ranks contribute in `on_generation_token`. -/
  others : Others

/-- The engine between two of its calls, or behind the first line of `step`. -/
structure Decoding where
  engine : BatchGenerator
  /-- The sequences of `_mlx_gen`. -/
  decoded : List Nat := []
  /-- `potential_stop_sequence_text` of the active tasks. -/
  potentialStopSequenceText : Dict Nat Text := .empty
  submitting : Bool := false

/-- What an engine is set up with, and the tasks it is given. -/
structure DecodeConfig where
  deviceRank : Int := 0
  checkForCancelEvery : Nat := 50
  /-- `EXO_MAX_CONCURRENT_REQUESTS` -/
  maxConcurrentRequests : Nat := 8
  /-- `task_params.stop` -/
  stop : TaskId → Stop := fun _ => .none

inductive DecodeAction where
  | submit (taskId : TaskId)
  /-- What `cancel_receiver.collect()` returns some time later. -/
  | cancel (taskIds : List TaskId)
  /-- The first line of `step`. -/
  | agreeOnTasks (others : Others)
  /-- A round of the loop of `step`: the first task of the queue is prefilled, with what the other ranks
  contribute at each call of `distributed_prompt_progress_callback`. -/
  | start (progress : List (Others × Others))
  /-- The rest of `step`, with the responses of `_mlx_gen.next()`. -/
  | generate (responses : List DecodeResponse)
  /-- The rest of `step` when there is no work. -/
  | noWork

/-- `_gen.submit`, up to its call of `insert`: whether the prefill gets to its end. -/
def Agreements.prefill (a : Agreements) (taskId : TaskId) :
    List (Others × Others) → Option (Agreements × Bool)
  | [] => some (a, true)
  | (cancelling, queueing) :: progress => do
    let a ← a.agreeOnCancellations.hear cancelling
    if a.shouldCancel taskId then some (a, false)
    else
      let a ← a.agreeOnTasks.hear queueing
      a.prefill taskId progress

namespace Decoding

/-- `has_work` -/
def hasWork (d : Decoding) : Bool := d.engine.gen.activeTasks.entries ≠ [] || d.decoded ≠ []

/-- The text that stop sequences are looked for in. -/
def searched (d : Decoding) (r : DecodeResponse) : Text :=
  (d.potentialStopSequenceText.get? r.uid).getD [] ++ r.out.text

/-- A round of the loop of `_gen.step`. -/
def respond (stop : TaskId → Stop) (d : Decoding) (r : DecodeResponse) :
    Option (Decoding × List TokenResponse) :=
  match d.engine.gen.activeTasks.get? r.uid with
  | none => some (d, [])
  | some task =>
    let stopSequences := (stop task.taskId).sequences
    let emitted := trimmed stopSequences (d.searched r) r.out
    let response : TokenResponse := ⟨r.uid, r.chunks, emitted.finishReason.isSome⟩
    (d.engine.token response r.others).map fun e =>
      ({ d with
          engine := e
          potentialStopSequenceText :=
            if response.finished then d.potentialStopSequenceText.erase r.uid
            else d.potentialStopSequenceText.set r.uid
              (lookBack (maxStopLen stopSequences) (d.searched r)) },
        [response])

def respondAll (stop : TaskId → Stop) (d : Decoding) :
    List DecodeResponse → Option (Decoding × List TokenResponse)
  | [] => some (d, [])
  | r :: responses => do
    let (d, now) ← d.respond stop r
    let (d, later) ← d.respondAll stop responses
    pure (d, now ++ later)

/-- `next`: the sequences that go on. -/
def next (d : Decoding) (responses : List DecodeResponse) : Decoding :=
  { d with decoded := d.decoded.filter fun uid =>
      !responses.any fun r => r.uid = uid && r.out.finishReason.isSome }

/-- The active tasks that `_apply_cancellations` finds cancelled. -/
def uidsToCancel (d : Decoding) : List Nat :=
  (d.engine.activeTasks.entries.filter fun p => d.engine.shouldCancel p.2).map Prod.fst

/-- `_apply_cancellations`, which calls `remove` below. -/
def applyCancellations (d : Decoding) : Decoding :=
  { d with
    engine := d.engine.applyCancellations.1
    decoded := d.decoded.filter fun uid => uid ∉ d.uidsToCancel
    potentialStopSequenceText := d.uidsToCancel.foldl Dict.erase d.potentialStopSequenceText }

/-- `while self._queue and len(self._active_tasks) < EXO_MAX_CONCURRENT_REQUESTS` -/
def starts (d : Decoding) (maxConcurrentRequests : Nat) : Bool :=
  d.engine.queue ≠ [] && d.engine.activeTasks.entries.length < maxConcurrentRequests

/-- The prefill of a task that was taken off the queue, and `insert` behind it. -/
def start (d : Decoding) (task : TaskId) (progress : List (Others × Others)) : Option Decoding :=
  (d.engine.prefill task progress).map fun (a, prefilled) =>
    let e : BatchGenerator := { d.engine with toAgreements := a }
    if prefilled then
      { d with
        engine := e.activate task
        decoded := d.decoded ++ [e.gen.inserted]
        potentialStopSequenceText := d.potentialStopSequenceText.set e.gen.inserted [] }
    else { d with engine := e }

/-- From the responses of the generator below to the end of `step`. -/
def generate (stop : TaskId → Stop) (d : Decoding) (responses : List DecodeResponse) :
    Option Decoding :=
  ((d.next responses).respondAll stop responses).map fun (d, results) =>
    let activeTasks := (BatchGenerator.outputs results d.engine.activeTasks).1
    { d with engine := { d.engine with activeTasks } }.applyCancellations

def step (cfg : DecodeConfig) (d : Decoding) : DecodeAction → Option Decoding
  | .submit taskId =>
      if d.submitting then none else some { d with engine := d.engine.submit taskId }
  | .cancel taskIds =>
      some { d with engine := { d.engine with
        cancelReceiver := d.engine.cancelReceiver ++ [taskIds] } }
  | .agreeOnTasks others =>
      if d.submitting then none
      else if d.engine.queue = [] then
        (d.engine.agree d.engine.agreeOnTasks others).map fun e =>
          { d with engine := e, submitting := true }
      else some { d with submitting := true }
  | .start progress =>
      match d.engine.queue with
      | [] => none
      | task :: queue =>
          if d.submitting && d.starts cfg.maxConcurrentRequests then
            { d with engine := { d.engine with queue } }.start task progress
          else none
  | .generate responses =>
      -- at most one response for each sequence that is decoded
      if d.submitting && !d.starts cfg.maxConcurrentRequests && d.hasWork
          && decide (responses.map (·.uid)).Nodup && responses.all fun r => r.uid ∈ d.decoded then
        (d.generate cfg.stop responses).map fun d => { d with submitting := false }
      else none
  | .noWork =>
      if d.submitting && !d.starts cfg.maxConcurrentRequests && !d.hasWork then
        some { d.applyCancellations with submitting := false }
      else none

end Decoding

def DecodeConfig.machine (cfg : DecodeConfig) : Machine Decoding DecodeAction where
  init :=
    { engine := { deviceRank := cfg.deviceRank, checkForCancelEvery := cfg.checkForCancelEvery } }
  step := Decoding.step cfg

/-! ## What is claimed of the slots -/

namespace Decoding

/-- The generator decodes the active tasks, and only them. -/
structure Exact (maxConcurrentRequests : Nat) (d : Decoding) : Prop where
  gen : ∀ uid, uid ∈ d.decoded ↔ uid ∈ d.engine.gen.activeTasks.keys
  engine : ∀ uid, uid ∈ d.decoded ↔ uid ∈ d.engine.activeTasks.keys
  bounded : d.decoded.length ≤ maxConcurrentRequests
  idle : d.engine.activeTasks.keys = [] → d.hasWork = false

/-- No stop sequence ends a task that the generator below goes on with. -/
def EndsBelow (stop : TaskId → Stop) (d : Decoding) : DecodeAction → Prop
  | .generate responses => ∀ r ∈ responses, r.out.finishReason = none →
      ∀ task, d.engine.gen.activeTasks.get? r.uid = some task →
        ∀ s ∈ (stop task.taskId).sequences, ¬ s <:+: d.searched r
  | _ => True

end Decoding

end Exo
