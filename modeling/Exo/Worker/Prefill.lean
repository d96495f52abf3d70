import Exo.Worker.Collectives

/-!
# Pipeline prefill

A long prompt is cut into chunks, and the model is called once for each on every
rank. Inside a call, a rank receives the hidden state of the rank before it and
queues its own for the rank after it. What is queued is sent when the queue is
flushed, which is after the progress callback.
-/

namespace Exo

open Lib

/-- What `prefill` is called with on the ranks of a group. -/
structure PrefillConfig where
  /-- `group.size()`. -/
  size : Nat
  /-- The number of prompt tokens. -/
  total : Nat
  prefillStepSize : Nat := 4096
  /-- The task and the engine of each rank, when there is a distributed callback. -/
  callback : Option (TaskId × (Nat → Agreements)) := none

/-- How the prefill of a rank ends. -/
inductive PrefillEnd where
  | complete
  /-- `PrefillCancelled`, raised after this call of the model. -/
  | cancelled (call : Nat)
  deriving DecidableEq, Repr

/-- `_pending_prefill_sends`. -/
abbrev PendingSends := List (Hidden × Nat)

/-- `flush_prefill_sends`. -/
def flushPrefillSends : PendingSends → Rank Unit
  | [] => pure ()
  | (output, dst) :: rest => .send dst output (flushPrefillSends rest)

/-- `PipelineFirstLayer.__call__`. -/
def pipelineFirstLayer (r : Nat) (x : Hidden) : Rank Unit :=
  if r ≠ 0 then .recv (r - 1) x fun _ => pure () else pure ()

/-- The flags of the pipeline layers. -/
structure PipelineFlags where
  isPrefill : Bool
  queueSends : Bool

/-- `PipelineLastLayer.__call__`, with the queue of sends it may add to. -/
def pipelineLastLayer (r s : Nat) (flags : PipelineFlags) (output : Hidden)
    (pending : PendingSends) : Rank PendingSends := do
  let pending ←
    if r ≠ s - 1 then
      if flags.queueSends then pure (pending ++ [(output, (r + 1) % s)])
      else Proc.send ((r + 1) % s) output (pure pending)
    else pure pending
  if flags.isPrefill then pure pending
  else .gather (.hidden output) fun _ => pure pending

/-- One call of the model on a rank. -/
def callModel (r s : Nat) (flags : PipelineFlags) (x : Hidden) (pending : PendingSends) :
    Rank PendingSends := do
  pipelineFirstLayer r x
  pipelineLastLayer r s flags x pending

/-- The `while remaining` loop. A round takes at least one token, so `fuel` rounds are enough. -/
def realChunkSizes (stepSize : Nat) : Nat → Nat → List Nat
  | 0, _ => []
  | fuel + 1, remaining =>
      if remaining = 0 then []
      else min stepSize remaining
        :: realChunkSizes stepSize fuel (remaining - min stepSize remaining)

/-- The chunks cover the prompt up to its last token. -/
theorem sum_realChunkSizes {stepSize : Nat} (h : 0 < stepSize) :
    ∀ (fuel remaining : Nat), remaining ≤ fuel →
      (realChunkSizes stepSize fuel remaining).sum = remaining
  | 0, remaining, hr => by
      rw [Nat.le_zero.mp hr]; rfl
  | fuel + 1, remaining, hr => by
      rw [realChunkSizes]
      split
      · rename_i h0
        rw [h0]; rfl
      · rw [List.sum_cons, sum_realChunkSizes h fuel _ (by omega)]
        omega

namespace PrefillConfig

variable (cfg : PrefillConfig)

/-- `prefill_step_size // min(4, group.size())`. -/
def chunkStep : Nat := cfg.prefillStepSize / min 4 cfg.size

/-- The calls of the model inside the loop, numbered. -/
def realCalls : List Hidden :=
  (realChunkSizes cfg.chunkStep (cfg.total - 1) (cfg.total - 1)).zipIdx.map fun p => ⟨p.2, p.1⟩

/-- The two calls after the loop, with the last token. -/
def lastCalls : List Hidden :=
  let n := cfg.realCalls.length
  [⟨n, 1⟩, ⟨n + 1, 1⟩]

/-- During prefill the last layer queues its sends and gathers nothing. -/
def prefillFlags : PipelineFlags := { isPrefill := true, queueSends := true }

/-- The loop over the chunks. A callback that raises leaves the queue cleared. -/
def chunkLoop (r : Nat) : List Hidden → PendingSends → Option (TaskId × Agreements) →
    Rank PrefillEnd → Rank PrefillEnd
  | [], _, _, afterLoop => afterLoop
  | x :: xs, pending, callback, afterLoop => do
      let pending ← callModel r cfg.size prefillFlags x pending
      match callback with
      | none =>
          flushPrefillSends pending
          chunkLoop r xs [] none afterLoop
      | some (taskId, a) =>
          let (a, raised) ← a.promptProgressCallback taskId
          if raised then pure (.cancelled x.call)
          else
            flushPrefillSends pending
            chunkLoop r xs [] (some (taskId, a)) afterLoop

/-- The two calls after the loop, each flushed. -/
def tailLoop (r : Nat) : List Hidden → Rank PrefillEnd
  | [] => pure .complete
  | x :: xs => do
      let pending ← callModel r cfg.size prefillFlags x []
      flushPrefillSends pending
      tailLoop r xs

/-- `pipeline_parallel_prefill`. -/
def pipelineParallelPrefill (r : Nat) : Rank PrefillEnd :=
  cfg.chunkLoop r cfg.realCalls [] (cfg.callback.map fun c => (c.1, c.2 r))
    (cfg.tailLoop r cfg.lastCalls)

/-- `prefill` of a prompt that takes the pipelined path. -/
def prefill (r : Nat) : Rank PrefillEnd := do
  mxBarrier
  cfg.pipelineParallelPrefill r

/-- The ranks of the group, prefilling together. -/
def machine : Machine (Group Hidden Contribution PrefillEnd) Group.Action :=
  Group.machine cfg.size cfg.prefill

end PrefillConfig

end Exo
