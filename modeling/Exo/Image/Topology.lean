import Mathlib.Data.List.Basic
import Mathlib.Algebra.GroupWithZero.Nat

/-!
# Stages of a diffusion pipeline

How an image model is cut: its blocks into stages, the ranks of an instance into one pipeline or
into two (one for each CFG branch), and an image into patches.
-/

namespace Exo

/-! ## Patches -/

/-- `ceil(a / b)`. -/
def ceilDiv (a b : Nat) : Nat := (a + b - 1) / b

/-- `calculate_patch_heights`. -/
def calculatePatchHeights (latentHeight numPatches : Nat) : List Nat × Nat :=
  let patchHeight := ceilDiv latentHeight numPatches
  let actualNumPatches := ceilDiv latentHeight patchHeight
  let lastHeight := latentHeight - patchHeight * (actualNumPatches - 1)
  (List.replicate (actualNumPatches - 1) patchHeight ++ [lastHeight], actualNumPatches)

/-- The loop of `calculate_token_indices`, from `cumulativeHeight` on. -/
def tokenRanges (latentWidth cumulativeHeight : Nat) : List Nat → List (Nat × Nat)
  | [] => []
  | h :: heights =>
    (latentWidth * cumulativeHeight, latentWidth * (cumulativeHeight + h))
      :: tokenRanges latentWidth (cumulativeHeight + h) heights

/-- `calculate_token_indices`. -/
def calculateTokenIndices (patchHeights : List Nat) (latentWidth : Nat) : List (Nat × Nat) :=
  tokenRanges latentWidth 0 patchHeights

/-! ## Ranks -/

/-- What `CfgShardMetadata` adds. -/
structure CfgRank where
  cfgRank : Nat
  pipelineRank : Nat
  pipelineWorldSize : Nat
  deriving DecidableEq, Repr

/-- `PipelineShardMetadata`, or `CfgShardMetadata` when there is a `cfg`. -/
structure StageShard where
  deviceRank : Nat
  worldSize : Nat
  startLayer : Nat
  endLayer : Nat
  cfg : Option CfgRank := none
  deriving DecidableEq, Repr

/-- What `_init_cfg_topology` sets. -/
structure CfgTopology where
  rank : Nat := 0
  worldSize : Nat := 1
  startLayer : Nat := 0
  endLayer : Nat
  cfgRank : Nat := 0
  cfgParallel : Bool := false
  pipelineRank : Nat := 0
  pipelineWorldSize : Nat := 1
  nextPipelineRank : Option Nat := none
  prevPipelineRank : Option Nat := none
  cfgPeerRank : Option Nat := none
  firstPipelineRank : Nat := 0
  lastPipelineRank : Nat := 0
  deriving DecidableEq, Repr

/-- `_device_rank_for`. -/
def deviceRankFor (cfgParallel : Bool) (worldSize cfgRank pipelineRank : Nat) : Nat :=
  if !cfgParallel then pipelineRank
  else if cfgRank = 0 then pipelineRank
  else worldSize - 1 - pipelineRank

/-- `_init_cfg_topology`. Without a group there is one node for all blocks. -/
def initCfgTopology (totalBlocks : Nat) : Option StageShard → CfgTopology
  | none => { endLayer := totalBlocks }
  | some m =>
    let cfgRank := (m.cfg.map CfgRank.cfgRank).getD 0
    let cfgParallel := m.cfg.isSome
    let pipelineRank := (m.cfg.map CfgRank.pipelineRank).getD m.deviceRank
    let pipelineWorldSize := (m.cfg.map CfgRank.pipelineWorldSize).getD m.worldSize
    let deviceRank := deviceRankFor cfgParallel m.worldSize
    let isLast := pipelineRank == pipelineWorldSize - 1
    { rank := m.deviceRank
      worldSize := m.worldSize
      startLayer := m.startLayer
      endLayer := m.endLayer
      cfgRank
      cfgParallel
      pipelineRank
      pipelineWorldSize
      nextPipelineRank := if isLast then none else some (deviceRank cfgRank (pipelineRank + 1))
      prevPipelineRank :=
        if pipelineRank == 0 then none else some (deviceRank cfgRank (pipelineRank - 1))
      cfgPeerRank :=
        if cfgParallel && isLast then some (deviceRank (1 - cfgRank) pipelineRank) else none
      firstPipelineRank := deviceRank cfgRank 0
      lastPipelineRank := deviceRank cfgRank (pipelineWorldSize - 1) }

namespace CfgTopology

def isFirstStage (top : CfgTopology) : Bool := top.pipelineRank == 0

def isLastStage (top : CfgTopology) : Bool := top.pipelineRank == top.pipelineWorldSize - 1

end CfgTopology

/-! ## Blocks -/

/-- What `_compute_assigned_blocks` sets. -/
structure AssignedBlocks where
  jointStart : Nat
  jointEnd : Nat
  singleStart : Nat
  singleEnd : Nat
  /-- `end_layer == total_joint`. -/
  endsJoint : Bool
  deriving DecidableEq, Repr

/-- `_compute_assigned_blocks`. -/
def computeAssignedBlocks (totalJoint startLayer endLayer : Nat) : AssignedBlocks :=
  if endLayer ≤ totalJoint then
    { jointStart := startLayer, jointEnd := endLayer, singleStart := 0, singleEnd := 0
      endsJoint := endLayer == totalJoint }
  else if totalJoint ≤ startLayer then
    { jointStart := 0, jointEnd := 0, singleStart := startLayer - totalJoint
      singleEnd := endLayer - totalJoint, endsJoint := endLayer == totalJoint }
  else
    { jointStart := startLayer, jointEnd := totalJoint, singleStart := 0
      singleEnd := endLayer - totalJoint, endsJoint := endLayer == totalJoint }

namespace AssignedBlocks

def hasJointBlocks (b : AssignedBlocks) : Bool := b.jointStart < b.jointEnd

def hasSingleBlocks (b : AssignedBlocks) : Bool := b.singleStart < b.singleEnd

def ownsConcatStage (b : AssignedBlocks) : Bool :=
  b.hasJointBlocks && (b.hasSingleBlocks || b.endsJoint)

end AssignedBlocks

end Exo
