import Exo.Image.BlockWrapper
import Exo.Image.Topology
import Exo.Lib.Process

/-!
# The diffusion runner

Arrays are of a type `X`, and what mflux computes on them is a parameter. A rank is a process
that sends arrays and receives them. A message says whether it is the sentinel: a receiver tells
the sentinel by its being all NaN, and nothing else is. What a runner keeps from one call to the
next is passed along.
-/

namespace Exo

open Lib

/-! ## The model -/

structure Shape where
  batch : Nat
  tokens : Nat
  dim : Nat
  deriving DecidableEq, Repr

/-- `ModelAdapter`, the scheduler of a `Config` and the operations of `mx` on arrays. What stays
the same in one generation (prompt, sizes, guidance scale) is part of the functions. -/
structure ModelAdapter (X E Q : Type) where
  needsCfg : Bool
  hiddenDim : Nat
  shape : X → Shape
  /-- The buffer of a receive. -/
  empty : Shape → X
  /-- `mx.full(data.shape, nan)`. -/
  nan : X → X
  /-- `x[:, start:stop, ...]`. -/
  slice : X → Nat → Option Nat → X
  /-- `mx.concatenate(xs, axis=1)`. -/
  concatenate : List X → X
  zeroKv : E
  jointBlock : Nat → JointBlock X E Q
  singleBlock : Nat → SingleBlock X E Q
  computeEmbeddings : (hiddenStates promptEmbeds : X) → X × X
  computeTextEmbeddings : (t : Nat) → (pooled : X) → (hiddenStates : Option X) → X
  computeRotaryEmbeddings : (promptEmbeds : X) → (mask : Option X) → X
  mergeStreams : (hiddenStates encoderHiddenStates : X) → X
  applyGuidance : (noisePositive noiseNegative : X) → X
  finalProjection : (hiddenStates textEmbeddings : X) → X
  scaleModelInput : (latents : X) → (t : Nat) → X
  /-- `config.scheduler.step`. -/
  schedulerStep : (noise : X) → (timestep : Nat) → (latents : X) → X

structure CfgBranch (X : Type) where
  positive : Bool
  embeds : X
  mask : Option X
  pooled : Option X
  condLatents : Option X

/-- `PromptData`, by `get_cfg_branch_data`. -/
structure PromptData (X : Type) where
  embeds : Bool → X
  mask : Bool → Option X
  pooled : Bool → Option X
  conditioningLatents : Option X

def PromptData.getCfgBranchData {X : Type} (d : PromptData X) (positive : Bool) : CfgBranch X :=
  ⟨positive, d.embeds positive, d.mask positive, d.pooled positive, d.conditioningLatents⟩

/-- What the loop reads of a `Config`, for an image of `16 * latentHeight` times
`16 * latentWidth` pixels. -/
structure RuntimeConfig where
  numInferenceSteps : Nat
  initTimeStep : Nat
  latentHeight : Nat
  latentWidth : Nat
  latentHeight_pos : 0 < latentHeight
  latentWidth_pos : 0 < latentWidth

/-! ## A runner -/

/-- What a `DiffusionRunner` does not change. -/
structure DiffusionRunner (X E Q : Type) where
  adapter : ModelAdapter X E Q
  group : Bool
  topology : CfgTopology
  blocks : AssignedBlocks
  totalJoint : Nat
  numPatches : Nat

namespace DiffusionRunner

/-- `DiffusionRunner.__init__`, for a model of `totalJoint` and `totalSingle` blocks. -/
def init {X E Q : Type} (adapter : ModelAdapter X E Q) (totalJoint totalSingle : Nat)
    (shard : Option StageShard) (numPatches : Option Nat) : DiffusionRunner X E Q :=
  let topology := initCfgTopology (totalJoint + totalSingle) shard
  { adapter
    group := shard.isSome
    topology
    blocks := computeAssignedBlocks totalJoint topology.startLayer topology.endLayer
    totalJoint
    numPatches := match numPatches with
      | some (n + 1) => n + 1
      | _ => max 1 topology.pipelineWorldSize }

end DiffusionRunner

/-- What a `DiffusionRunner` keeps. Lists of wrappers are empty before there are wrappers. -/
structure RunnerState (X E : Type) where
  cancelling : Bool := false
  jointBlockWrappers : List (BlockWrapper X E) := []
  singleBlockWrappers : List (BlockWrapper X E) := []
  /-- There are wrappers, for this length. -/
  currentTextSeqLen : Option Nat := none
  /-- All calls of blocks so far. -/
  calls : List (BlockCall X) := []

/-- An array on its way. -/
structure ArrayMsg (X : Type) where
  data : X
  sentinel : Bool := false
  deriving DecidableEq

/-- A rank that may fail an assertion. -/
abbrev RankProgram (X : Type) := ExceptT AssertionError (Proc (ArrayMsg X) PUnit)

section
variable {X E Q α : Type}

/-- `assert x is not None`. -/
def assertSome (x : Option α) (e : AssertionError) : RankProgram X α :=
  match x with
  | some a => pure a
  | none => throw e

/-- What is computed without a message. -/
def compute (x : Except AssertionError α) : RankProgram X α := ExceptT.mk (pure x)

namespace RunnerState

/-- `_reset_all_caches`. -/
def resetAllCaches (s : RunnerState X E) : RunnerState X E :=
  { s with
    jointBlockWrappers := s.jointBlockWrappers.map .resetCache
    singleBlockWrappers := s.singleBlockWrappers.map .resetCache }

/-- `_set_text_seq_len`. -/
def setTextSeqLen (s : RunnerState X E) (textSeqLen : Nat) : RunnerState X E :=
  { s with
    jointBlockWrappers := s.jointBlockWrappers.map (·.setTextSeqLen textSeqLen)
    singleBlockWrappers := s.singleBlockWrappers.map (·.setTextSeqLen textSeqLen) }

/-- The loop that sets the encoder mask of the joint wrappers. -/
def setEncoderMask (s : RunnerState X E) (mask : Option X) : RunnerState X E :=
  { s with jointBlockWrappers := s.jointBlockWrappers.map (·.setEncoderMask mask) }

/-- `_recv_and_check`, after a receive into `buffer`. -/
def recvAndCheck (s : RunnerState X E) (buffer : X) (src : Nat) :
    RankProgram X (X × RunnerState X E) :=
  ExceptT.mk (.recv src ⟨buffer, false⟩ fun m =>
    .pure (.ok (m.data, if m.sentinel then { s with cancelling := true } else s)))

/-- `_recv_like`. -/
def recvLike (s : RunnerState X E) (template : X) (src : Nat) :
    RankProgram X (X × RunnerState X E) :=
  s.recvAndCheck template src

end RunnerState

namespace DiffusionRunner

variable (r : DiffusionRunner X E Q)

def isFirstStage : Bool := r.topology.isFirstStage

def isLastStage : Bool := r.topology.isLastStage

/-- `array.shape[1]`. -/
def tokens (x : X) : Nat := (r.adapter.shape x).tokens

/-! ## Messages -/

/-- `_check_cancellation`, for what the checker says now. -/
def checkCancellation (s : RunnerState X E) (cancelChecker : Bool) : RunnerState X E :=
  if s.cancelling then s
  else if r.isFirstStage && cancelChecker then { s with cancelling := true }
  else s

/-- `_send`. -/
def send (s : RunnerState X E) (data : X) (dst : Nat) : RankProgram X X :=
  let data := if s.cancelling then r.adapter.nan data else data
  ExceptT.mk (.send dst ⟨data, s.cancelling⟩ (.pure (.ok data)))

/-- `_recv`. -/
def recv (s : RunnerState X E) (shape : Shape) (src : Nat) : RankProgram X (X × RunnerState X E) :=
  s.recvAndCheck (r.adapter.empty shape) src

/-! ## CFG -/

/-- `_get_cfg_branches`. -/
def getCfgBranches (d : PromptData X) : List (CfgBranch X) :=
  if !r.adapter.needsCfg then [d.getCfgBranchData true]
  else if r.topology.cfgParallel then [d.getCfgBranchData (r.topology.cfgRank == 0)]
  else [d.getCfgBranchData true, d.getCfgBranchData false]

/-- `_exchange_and_apply_guidance`. -/
def exchangeAndApplyGuidance (s : RunnerState X E) (noise : X) (isPositive : Bool) :
    RankProgram X (X × RunnerState X E) := do
  let peer ← assertSome r.topology.cfgPeerRank .noRank
  if isPositive then
    let noise ← r.send s noise peer
    let (noiseNeg, s) ← s.recvLike noise peer
    pure (r.adapter.applyGuidance noise noiseNeg, s)
  else
    let (noisePos, s) ← s.recvLike noise peer
    let noise ← r.send s noise peer
    pure (r.adapter.applyGuidance noisePos noise, s)

/-- `_combine_cfg_results`. -/
def combineCfgResults (s : RunnerState X E) (results : List (Bool × X)) :
    RankProgram X (X × RunnerState X E) :=
  match results with
  | [(positive, noise)] =>
    if r.topology.cfgParallel && r.isLastStage then r.exchangeAndApplyGuidance s noise positive
    else pure (noise, s)
  | results => do
    let (_, noiseNeg) ← assertSome (results.find? fun p => !p.1) .noBranch
    let (_, noisePos) ← assertSome (results.find? fun p => p.1) .noBranch
    pure (r.adapter.applyGuidance noisePos noiseNeg, s)

/-! ## Wrappers -/

/-- `get_joint_block_wrappers`, of the blocks that `slice_transformer_blocks` left. -/
def getJointBlockWrappers (textSeqLen : Nat) (mask : Option X) : List (BlockWrapper X E) :=
  (List.range' r.blocks.jointStart (r.blocks.jointEnd - r.blocks.jointStart)).map fun b =>
    { block := b, textSeqLen, encoderHiddenStatesMask := mask }

/-- `get_single_block_wrappers`. -/
def getSingleBlockWrappers (textSeqLen : Nat) : List (BlockWrapper X E) :=
  (List.range' (r.totalJoint + r.blocks.singleStart)
    (r.blocks.singleEnd - r.blocks.singleStart)).map fun b => { block := b, textSeqLen }

/-- `_ensure_wrappers`. -/
def ensureWrappers (s : RunnerState X E) (textSeqLen : Nat) (mask : Option X) :
    RunnerState X E :=
  if s.currentTextSeqLen = some textSeqLen then s
  else { s with
    jointBlockWrappers := r.getJointBlockWrappers textSeqLen mask
    singleBlockWrappers := r.getSingleBlockWrappers textSeqLen
    currentTextSeqLen := some textSeqLen }

/-! ## Blocks -/

/-- The loop over joint wrappers, each of them `prepare`d before its call. The streams are the
image's and the text's. -/
def callJointBlocks (prepare : BlockWrapper X E → BlockWrapper X E) (positive : Bool)
    (textEmbeddings rotaryEmbeddings : X) : List (BlockWrapper X E) → X → X →
      Except AssertionError (List (BlockWrapper X E) × X × X × List (BlockCall X))
  | [], hiddenStates, encoderHiddenStates => .ok ([], hiddenStates, encoderHiddenStates, [])
  | w :: ws, hiddenStates, encoderHiddenStates => do
    let (w, (encoder, hidden), call) ← (r.adapter.jointBlock w.block).call r.adapter.zeroKv
      (prepare w) positive hiddenStates encoderHiddenStates textEmbeddings rotaryEmbeddings
    let (ws, hidden, encoder, calls) ←
      callJointBlocks prepare positive textEmbeddings rotaryEmbeddings ws hidden encoder
    pure (w :: ws, hidden, encoder, call :: calls)

/-- The loop over single wrappers. -/
def callSingleBlocks (prepare : BlockWrapper X E → BlockWrapper X E) (positive : Bool)
    (textEmbeddings rotaryEmbeddings : X) : List (BlockWrapper X E) → X →
      Except AssertionError (List (BlockWrapper X E) × X × List (BlockCall X))
  | [], hiddenStates => .ok ([], hiddenStates, [])
  | w :: ws, hiddenStates => do
    let (w, hidden, call) ← (r.adapter.singleBlock w.block).call r.adapter.zeroKv
      (prepare w) positive hiddenStates textEmbeddings rotaryEmbeddings
    let (ws, hidden, calls) ←
      callSingleBlocks prepare positive textEmbeddings rotaryEmbeddings ws hidden
    pure (w :: ws, hidden, call :: calls)

/-- All joint blocks of this runner, on the streams of the image and of the text. -/
def jointBlocks (s : RunnerState X E) (prepare : BlockWrapper X E → BlockWrapper X E)
    (positive : Bool) (textEmbeddings rotaryEmbeddings hiddenStates encoderHiddenStates : X) :
    Except AssertionError (X × X × RunnerState X E) := do
  let (ws, hidden, encoder, calls) ← r.callJointBlocks prepare positive textEmbeddings
    rotaryEmbeddings s.jointBlockWrappers hiddenStates encoderHiddenStates
  pure (hidden, encoder, { s with jointBlockWrappers := ws, calls := s.calls ++ calls })

/-- All single blocks of this runner. -/
def singleBlocks (s : RunnerState X E) (prepare : BlockWrapper X E → BlockWrapper X E)
    (positive : Bool) (textEmbeddings rotaryEmbeddings hiddenStates : X) :
    Except AssertionError (X × RunnerState X E) := do
  let (ws, hidden, calls) ← r.callSingleBlocks prepare positive textEmbeddings
    rotaryEmbeddings s.singleBlockWrappers hiddenStates
  pure (hidden, { s with singleBlockWrappers := ws, calls := s.calls ++ calls })

/-! ## One node -/

def pooledEmbeds (branch : CfgBranch X) : X := branch.pooled.getD branch.embeds

/-- Latents with the conditioning latents after them, if there are any. -/
def withCondLatents (latents : X) (branch : CfgBranch X) : X :=
  match branch.condLatents with
  | some cond => r.adapter.concatenate [latents, cond]
  | none => latents

/-- `_forward_pass`. -/
def forwardPass (s : RunnerState X E) (t : Nat) (latents : X) (branch : CfgBranch X) :
    Except AssertionError (X × RunnerState X E) := do
  let textSeqLen := r.tokens branch.embeds
  let s := r.ensureWrappers s textSeqLen branch.mask
  let s := if branch.mask.isSome then s.setEncoderMask branch.mask else s
  let scaledLatents := r.adapter.scaleModelInput latents t
  let embedded :=
    r.adapter.computeEmbeddings (r.withCondLatents scaledLatents branch) branch.embeds
  let textEmbeddings :=
    r.adapter.computeTextEmbeddings t (pooledEmbeds branch) (some embedded.1)
  let rotaryEmbeddings := r.adapter.computeRotaryEmbeddings branch.embeds branch.mask
  let (hiddenStates, encoderHiddenStates, s) ← r.jointBlocks s id branch.positive textEmbeddings
    rotaryEmbeddings embedded.1 embedded.2
  let hiddenStates := if s.jointBlockWrappers.isEmpty then hiddenStates
    else r.adapter.mergeStreams hiddenStates encoderHiddenStates
  let (hiddenStates, s) ← r.singleBlocks s id branch.positive textEmbeddings rotaryEmbeddings
    hiddenStates
  let hiddenStates := r.adapter.slice hiddenStates textSeqLen none
  let hiddenStates := if branch.condLatents.isSome
    then r.adapter.slice hiddenStates 0 (some (r.tokens scaledLatents)) else hiddenStates
  pure (r.adapter.finalProjection hiddenStates textEmbeddings, s)

/-- The loop of `_single_node_step`. -/
def singleNodeBranches (t : Nat) (latents : X) : List (CfgBranch X) → RunnerState X E →
    Except AssertionError (List (Bool × X) × RunnerState X E)
  | [], s => .ok ([], s)
  | branch :: branches, s => do
    let (noise, s) ← r.forwardPass s.resetAllCaches t latents branch
    let (results, s) ← singleNodeBranches t latents branches s
    pure ((branch.positive, noise) :: results, s)

/-- `_single_node_step`. -/
def singleNodeStep (t : Nat) (latents : X) (d : PromptData X) (s : RunnerState X E) :
    RankProgram X (X × RunnerState X E) := do
  let (results, s) ← compute (r.singleNodeBranches t latents (r.getCfgBranches d) s)
  let (noise, s) ← r.combineCfgResults s results
  pure (r.adapter.schedulerStep noise t latents, s)

/-! ## A stage -/

/-- One way of a CFG branch through a stage: of the whole image in a sync step, of a patch in an
async step. -/
structure Pass (X : Type) where
  positive : Bool
  mode : BlockWrapperMode
  patchStart : Nat := 0
  patchEnd : Nat := 0
  /-- The text stream goes from stage to stage too. -/
  withText : Bool
  batchSize : Nat
  /-- `num_img_tokens` or `patch_len`. -/
  imgTokens : Nat
  textSeqLen : Nat
  textEmbeddings : X
  rotaryEmbeddings : X

/-- `wrapper.set_patch`, before each call. -/
def Pass.prepare (p : Pass X) (w : BlockWrapper X E) : BlockWrapper X E :=
  w.setPatch p.mode p.patchStart p.patchEnd

/-- The receives before the joint blocks. -/
def recvStreams (p : Pass X) (s : RunnerState X E) (hiddenStates : X)
    (encoderHiddenStates : Option X) : RankProgram X (X × Option X × RunnerState X E) := do
  if r.isFirstStage then pure (hiddenStates, encoderHiddenStates, s)
  else
    let prev ← assertSome r.topology.prevPipelineRank .noRank
    let (hiddenStates, s) ← r.recv s ⟨p.batchSize, p.imgTokens, r.adapter.hiddenDim⟩ prev
    if p.withText then
      let (encoder, s) ← r.recv s ⟨p.batchSize, p.textSeqLen, r.adapter.hiddenDim⟩ prev
      pure (hiddenStates, some encoder, s)
    else pure (hiddenStates, encoderHiddenStates, s)

/-- `if self.has_joint_blocks`. -/
def jointStage (p : Pass X) (s : RunnerState X E) (hiddenStates : X)
    (encoderHiddenStates : Option X) : RankProgram X (X × Option X × RunnerState X E) := do
  if r.blocks.hasJointBlocks then
    let (hiddenStates, encoderHiddenStates, s) ←
      r.recvStreams p s hiddenStates encoderHiddenStates
    let encoder ← assertSome encoderHiddenStates .noEncoderHiddenStates
    let (hiddenStates, encoder, s) ← compute (r.jointBlocks s p.prepare p.positive
      p.textEmbeddings p.rotaryEmbeddings hiddenStates encoder)
    pure (hiddenStates, some encoder, s)
  else pure (hiddenStates, encoderHiddenStates, s)

/-- `if self.owns_concat_stage` and the `elif` after it. -/
def concatStage (p : Pass X) (s : RunnerState X E) (hiddenStates : X)
    (encoderHiddenStates : Option X) : RankProgram X (X × Option X) := do
  if r.blocks.ownsConcatStage then
    let encoder ← assertSome encoderHiddenStates .noEncoderHiddenStates
    let concatenated := r.adapter.mergeStreams hiddenStates encoder
    if r.blocks.hasSingleBlocks || r.isLastStage then pure (concatenated, encoderHiddenStates)
    else
      let next ← assertSome r.topology.nextPipelineRank .noRank
      let _ ← r.send s concatenated next
      pure (hiddenStates, encoderHiddenStates)
  else if r.blocks.hasJointBlocks && !r.isLastStage then
    let next ← assertSome r.topology.nextPipelineRank .noRank
    let hiddenStates ← r.send s hiddenStates next
    if p.withText then
      let encoder ← assertSome encoderHiddenStates .noEncoderHiddenStates
      let encoder ← r.send s encoder next
      pure (hiddenStates, some encoder)
    else pure (hiddenStates, encoderHiddenStates)
  else pure (hiddenStates, encoderHiddenStates)

/-- The receive before the single blocks. -/
def recvConcatenated (p : Pass X) (s : RunnerState X E) (hiddenStates : X) :
    RankProgram X (X × RunnerState X E) := do
  if !r.blocks.ownsConcatStage && !r.isFirstStage then
    let prev ← assertSome r.topology.prevPipelineRank .noRank
    r.recv s ⟨p.batchSize, p.textSeqLen + p.imgTokens, r.adapter.hiddenDim⟩ prev
  else pure (hiddenStates, s)

/-- `if self.has_single_blocks`. -/
def singleStage (p : Pass X) (s : RunnerState X E) (hiddenStates : X) :
    RankProgram X (X × RunnerState X E) := do
  if r.blocks.hasSingleBlocks then
    let (hiddenStates, s) ← r.recvConcatenated p s hiddenStates
    let (hiddenStates, s) ← compute (r.singleBlocks s p.prepare p.positive p.textEmbeddings
      p.rotaryEmbeddings hiddenStates)
    if r.isLastStage then pure (hiddenStates, s)
    else
      let next ← assertSome r.topology.nextPipelineRank .noRank
      let hiddenStates ← r.send s hiddenStates next
      pure (hiddenStates, s)
  else pure (hiddenStates, s)

/-- What `_run_sync_pass` and `_run_single_patch_pass` have in common. -/
def stagePass (p : Pass X) (s : RunnerState X E) (hiddenStates : X)
    (encoderHiddenStates : Option X) : RankProgram X (X × Option X × RunnerState X E) := do
  let (hiddenStates, encoderHiddenStates, s) ← r.jointStage p s hiddenStates encoderHiddenStates
  let (hiddenStates, encoderHiddenStates) ← r.concatStage p s hiddenStates encoderHiddenStates
  let (hiddenStates, s) ← r.singleStage p s hiddenStates
  pure (hiddenStates, encoderHiddenStates, s)

/-! ## Sync steps -/

/-- `_run_sync_pass`. -/
def runSyncPass (s : RunnerState X E) (t : Nat) (scaledHiddenStates : X) (branch : CfgBranch X)
    (numImgTokens originalLatentTokens : Nat) :
    RankProgram X (Option X × RunnerState X E) := do
  let textSeqLen := r.tokens branch.embeds
  let s := (s.setTextSeqLen textSeqLen).setEncoderMask branch.mask
  let (hiddenStates, encoderHiddenStates) :=
    if r.isFirstStage then
      let (hidden, encoder) := r.adapter.computeEmbeddings scaledHiddenStates branch.embeds
      (hidden, some encoder)
    else (scaledHiddenStates, none)
  let textEmbeddings :=
    r.adapter.computeTextEmbeddings t (pooledEmbeds branch) (some hiddenStates)
  let pass : Pass X := {
    positive := branch.positive
    mode := .caching
    withText := true
    batchSize := (r.adapter.shape scaledHiddenStates).batch
    imgTokens := numImgTokens
    textSeqLen
    textEmbeddings
    rotaryEmbeddings := r.adapter.computeRotaryEmbeddings branch.embeds branch.mask }
  let (hiddenStates, _, s) ← r.stagePass pass s hiddenStates encoderHiddenStates
  let hiddenStates := r.adapter.slice hiddenStates textSeqLen none
  let hiddenStates := if branch.condLatents.isSome
    then r.adapter.slice hiddenStates 0 (some originalLatentTokens) else hiddenStates
  if r.isLastStage then pure (some (r.adapter.finalProjection hiddenStates textEmbeddings), s)
  else pure (none, s)

/-- The results after one more branch: only the last stage has any. -/
def addResult (branch : CfgBranch X) (noise : Option X) (results : List (Bool × X)) :
    RankProgram X (List (Bool × X)) := do
  if r.isLastStage then
    let noise ← assertSome noise .noNoise
    pure (results ++ [(branch.positive, noise)])
  else pure results

/-- `num_img_tokens`. -/
def numImgTokens (originalLatentTokens : Nat) (branch : CfgBranch X) : Nat :=
  match branch.condLatents with
  | some cond => originalLatentTokens + r.tokens cond
  | none => originalLatentTokens

/-- One branch of `_sync_pipeline_step`. -/
def syncBranch (s : RunnerState X E) (t : Nat) (scaledHiddenStates : X) (branch : CfgBranch X) :
    RankProgram X (Option X × RunnerState X E) :=
  let originalLatentTokens := r.tokens scaledHiddenStates
  let stepLatents := if r.isFirstStage then r.withCondLatents scaledHiddenStates branch
    else scaledHiddenStates
  let s := r.ensureWrappers s (r.tokens branch.embeds) branch.mask
  r.runSyncPass s t stepLatents branch (r.numImgTokens originalLatentTokens branch)
    originalLatentTokens

/-- The loop over the branches in `_sync_pipeline_step`. -/
def syncBranches (t : Nat) (scaledHiddenStates : X) : List (CfgBranch X) → RunnerState X E →
    List (Bool × X) → RankProgram X (List (Bool × X) × RunnerState X E)
  | [], s, results => pure (results, s)
  | branch :: branches, s, results => do
    let (noise, s) ← r.syncBranch s t scaledHiddenStates branch
    let results ← r.addResult branch noise results
    syncBranches t scaledHiddenStates branches s results

/-- `_sync_pipeline_step`. -/
def syncPipelineStep (t : Nat) (prevLatents : X) (d : PromptData X) (s : RunnerState X E) :
    RankProgram X (X × RunnerState X E) := do
  let scaledHiddenStates := r.adapter.scaleModelInput prevLatents t
  let (results, s) ← r.syncBranches t scaledHiddenStates (r.getCfgBranches d) s []
  if r.isLastStage then
    let (noise, s) ← r.combineCfgResults s results
    let hiddenStates := r.adapter.schedulerStep noise t prevLatents
    if r.isFirstStage then pure (hiddenStates, s)
    else
      let hiddenStates ← r.send s hiddenStates r.topology.firstPipelineRank
      pure (hiddenStates, s)
  else if r.isFirstStage then s.recvLike prevLatents r.topology.lastPipelineRank
  else pure (prevLatents, s)

/-! ## Async steps -/

/-- A patch: its index, its latents and its token range. -/
structure Patch (X : Type) where
  idx : Nat
  latents : X
  start : Nat
  stop : Nat

/-- `_create_patches`. -/
def createPatches (latents : X) (config : RuntimeConfig) : List (Patch X) :=
  let (patchHeights, _) := calculatePatchHeights config.latentHeight r.numPatches
  let tokenIndices := calculateTokenIndices patchHeights config.latentWidth
  tokenIndices.mapIdx fun idx range =>
    ⟨idx, r.adapter.slice latents range.1 (some range.2), range.1, range.2⟩

/-- `_run_single_patch_pass`. -/
def runSinglePatchPass (s : RunnerState X E) (patch : Patch X) (latents : X)
    (branch : CfgBranch X) (textEmbeddings rotaryEmbeddings : X)
    (encoderHiddenStates : Option X) :
    RankProgram X (Option X × Option X × RunnerState X E) := do
  let textSeqLen := r.tokens branch.embeds
  let (hiddenStates, encoderHiddenStates) :=
    if r.blocks.hasJointBlocks && r.isFirstStage then
      let (hidden, encoder) := r.adapter.computeEmbeddings latents branch.embeds
      (hidden, some encoder)
    else (latents, encoderHiddenStates)
  let pass : Pass X := {
    positive := branch.positive
    mode := .patched
    patchStart := patch.start
    patchEnd := patch.stop
    withText := patch.idx == 0
    batchSize := (r.adapter.shape latents).batch
    imgTokens := r.tokens latents
    textSeqLen
    textEmbeddings
    rotaryEmbeddings }
  let (hiddenStates, encoderHiddenStates, s) ←
    r.stagePass pass s hiddenStates encoderHiddenStates
  if r.isLastStage then
    let patchImgOnly := r.adapter.slice hiddenStates textSeqLen none
    pure (some (r.adapter.finalProjection patchImgOnly textEmbeddings), encoderHiddenStates, s)
  else pure (none, encoderHiddenStates, s)

/-- One branch of a patch in `_async_pipeline_step`. -/
def asyncBranch (s : RunnerState X E) (t : Nat) (patch : Patch X) (latents : X)
    (branch : CfgBranch X) (encoderHiddenStates : Option X) :
    RankProgram X (Option X × Option X × RunnerState X E) :=
  let textSeqLen := r.tokens branch.embeds
  let s := r.ensureWrappers s textSeqLen branch.mask
  let s := (s.setTextSeqLen textSeqLen).setEncoderMask branch.mask
  let textEmbeddings := r.adapter.computeTextEmbeddings t (pooledEmbeds branch) none
  let rotaryEmbeddings := r.adapter.computeRotaryEmbeddings branch.embeds branch.mask
  r.runSinglePatchPass s patch latents branch textEmbeddings rotaryEmbeddings encoderHiddenStates

/-- The loop over the branches of a patch. -/
def asyncBranches (t : Nat) (patch : Patch X) (latents : X) : List (CfgBranch X) →
    Option X → RunnerState X E → List (Bool × X) →
      RankProgram X (List (Bool × X) × Option X × RunnerState X E)
  | [], encoderHiddenStates, s, results => pure (results, encoderHiddenStates, s)
  | branch :: branches, encoderHiddenStates, s, results => do
    let (noise, encoderHiddenStates, s) ←
      r.asyncBranch s t patch latents branch encoderHiddenStates
    let results ← r.addResult branch noise results
    asyncBranches t patch latents branches encoderHiddenStates s results

/-- What the last stage makes of a patch. -/
def finishPatch (t : Nat) (config : RuntimeConfig) (patch : Patch X)
    (results : List (Bool × X)) (s : RunnerState X E) :
    RankProgram X (X × RunnerState X E) := do
  if r.isLastStage then
    let (noise, s) ← r.combineCfgResults s results
    let latents := r.adapter.schedulerStep noise t patch.latents
    if !r.isFirstStage && t + 1 != config.numInferenceSteps then
      let latents ← r.send s latents r.topology.firstPipelineRank
      pure (latents, s)
    else pure (latents, s)
  else pure (patch.latents, s)

/-- The receive before a patch: the latents that the last stage made of it in the step before. -/
def recvPatch (s : RunnerState X E) (patch : Patch X) (isFirstAsyncStep : Bool) :
    RankProgram X (X × RunnerState X E) :=
  if r.isFirstStage && !r.isLastStage && !isFirstAsyncStep then
    s.recvLike patch.latents r.topology.lastPipelineRank
  else pure (patch.latents, s)

/-- The loop over the patches in `_async_pipeline_step`: the patch latents after it. -/
def asyncPatches (t : Nat) (config : RuntimeConfig) (d : PromptData X) (isFirstAsyncStep : Bool) :
    List (Patch X) → Option X → RunnerState X E → RankProgram X (List X × RunnerState X E)
  | [], _, s => pure ([], s)
  | patch :: patches, encoderHiddenStates, s => do
    let (latents, s) ← r.recvPatch s patch isFirstAsyncStep
    let (results, encoderHiddenStates, s) ←
      r.asyncBranches t patch latents (r.getCfgBranches d) encoderHiddenStates s []
    let (latents, s) ← r.finishPatch t config patch results s
    let (rest, s) ← asyncPatches t config d isFirstAsyncStep patches encoderHiddenStates s
    pure (latents :: rest, s)

/-- `_async_pipeline_step`. -/
def asyncPipelineStep (t : Nat) (config : RuntimeConfig) (latents : X) (d : PromptData X)
    (isFirstAsyncStep : Bool) (s : RunnerState X E) : RankProgram X (X × RunnerState X E) := do
  let (patchLatents, s) ←
    r.asyncPatches t config d isFirstAsyncStep (r.createPatches latents config) none s
  pure (r.adapter.concatenate patchLatents, s)

/-! ## The loop -/

/-- `_diffusion_step`. -/
def diffusionStep (t : Nat) (config : RuntimeConfig) (latents : X) (d : PromptData X)
    (numSyncSteps : Nat) (s : RunnerState X E) : RankProgram X (X × RunnerState X E) :=
  if !r.group then r.singleNodeStep t latents d s
  else if r.topology.pipelineWorldSize == 1 || decide (t < config.initTimeStep + numSyncSteps) then
    r.syncPipelineStep t latents d s
  else
    r.asyncPipelineStep t config latents d (t == config.initTimeStep + numSyncSteps) s

/-- The receives that drain the ring. -/
def drainPatches : List (Patch X) → RunnerState X E → RankProgram X (RunnerState X E)
  | [], s => pure s
  | patch :: patches, s => do
    let (_, s) ← s.recvLike patch.latents r.topology.lastPipelineRank
    drainPatches patches s

/-- The part of `_run_diffusion_loop` after the steps, of which `t` was the last. -/
def drain (t : Nat) (config : RuntimeConfig) (latents : X) (numSyncSteps : Nat)
    (s : RunnerState X E) : RankProgram X (RunnerState X E) :=
  if s.cancelling && r.isFirstStage && !r.isLastStage && r.group
      && decide (config.initTimeStep + numSyncSteps ≤ t) && t + 1 != config.numInferenceSteps then
    r.drainPatches (r.createPatches latents config) s
  else pure s

/-- How a generation ends: the step after which the loop was left (or before which, without a
group), the latents and what is kept. -/
structure LoopEnd (X E : Type) where
  t : Option Nat
  latents : X
  state : RunnerState X E

/-- The steps that are left from `t` on. -/
def diffusionSteps (config : RuntimeConfig) (d : PromptData X) (numSyncSteps : Nat)
    (cancelChecker : Nat → Bool) : (stepsLeft t : Nat) → X → RunnerState X E →
      RankProgram X (LoopEnd X E)
  | 0, t, latents, s => pure ⟨if t = 0 then none else some (t - 1), latents, s⟩
  | stepsLeft + 1, t, latents, s => do
    let s := r.checkCancellation s (cancelChecker t)
    if s.cancelling && !r.group then pure ⟨some t, latents, s⟩
    else
      let (latents, s) ← r.diffusionStep t config latents d numSyncSteps s
      if s.cancelling then pure ⟨some t, latents, s⟩
      else diffusionSteps config d numSyncSteps cancelChecker stepsLeft (t + 1) latents s

/-- `_run_diffusion_loop`. -/
def runDiffusionLoop (config : RuntimeConfig) (latents : X) (d : PromptData X)
    (numSyncSteps : Nat) (cancelChecker : Nat → Bool) (s : RunnerState X E) :
    RankProgram X (LoopEnd X E) := do
  let s := s.resetAllCaches
  let e ← r.diffusionSteps config d numSyncSteps cancelChecker config.numInferenceSteps 0 latents s
  match e.t with
  | none => pure e
  | some t =>
    let s ← r.drain t config e.latents numSyncSteps e.state
    pure { e with state := s }

/-- The part of `generate_image` that all ranks go through. -/
def generateImage (config : RuntimeConfig) (latents : X) (d : PromptData X)
    (numSyncSteps : Nat) (cancelChecker : Nat → Bool) (s : RunnerState X E) :
    RankProgram X (LoopEnd X E) :=
  r.runDiffusionLoop config latents d numSyncSteps cancelChecker { s with cancelling := false }

end DiffusionRunner

end

end Exo
