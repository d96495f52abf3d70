import Mathlib.Data.List.MinMax
import Mathlib.Data.List.Sort
import Exo.Lib.Double
import Exo.Lib.Fallible
import Exo.Lib.Sequence
import Exo.Shared.Topology

/-!
# How the layers of a model are spread over a cycle of nodes

Every node gets layers in proportion to its memory. The shares are doubles: each is rounded
down, the layers that are left go to the largest fractions, and a node that got none takes one
from the node that has most.

A ring of image-generation nodes is split in the middle. Its second half runs the same pipeline
for the negative prompt, in the opposite direction.
-/

namespace Exo

open Lib

/-- A number of bytes. -/
abbrev Memory := Nat

inductive Backend where
  | mlxMetal
  | mlxCpu
  | mlxCuda
  | vllm
  deriving DecidableEq, Repr

inductive InstanceMeta where
  | mlxRing
  | mlxJaccl
  deriving DecidableEq, Repr

inductive Sharding where
  | tensor
  | pipeline
  deriving DecidableEq, Repr

/-- The fields of a model card that decide where the model is placed. -/
structure ModelCard where
  modelId : ModelId
  storageSize : Memory
  nLayers : Nat
  hiddenSize : Nat
  supportsTensor : Bool
  numKeyValueHeads : Option Nat := none
  baseModel : String := ""
  backends : List Backend
  usesCfg : Bool := false
  /-- `PositiveInt`. -/
  nLayersPos : 0 < nLayers
  /-- `PositiveInt`. -/
  hiddenSizePos : 0 < hiddenSize
  deriving DecidableEq

/-- What is free on a node. -/
structure MemoryUsage where
  ramAvailable : Memory
  deriving DecidableEq, Repr

/-- What placing an instance can end in. -/
inductive PlacementError where
  /-- `KeyError`. -/
  | keyError (nodeId : NodeId)
  /-- `IndexError`. -/
  | indexError
  /-- `AssertionError`. -/
  | assertionError
  /-- `OverflowError`, an integer that is too large for a double. -/
  | overflowError
  /-- "Invalid multiaddr format: {address}. ...". -/
  | invalidMultiaddr
  /-- "Cannot allocate layers to an empty node list". -/
  | emptyNodeList
  /-- "Cannot distribute {total_layers} layers across {n} nodes (need at least 1 layer per node)". -/
  | tooFewLayers (totalLayers n : Nat)
  /-- "Cannot create shard assignments for empty node cycle". -/
  | emptyCycle
  /-- "Cannot create shard assignments: total available memory is 0". -/
  | noMemory
  /-- "Node {i} ({node_id}) has insufficient memory: requires ... for {node_layers} layers, ...". -/
  | insufficientMemory (i : Nat) (nodeId : NodeId) (required : Memory) (nodeLayers : Nat)
      (available : Memory)
  /-- "No cycles found with sufficient memory". -/
  | noCyclesWithSufficientMemory
  /-- "Requested Tensor sharding but this model does not support tensor parallelism: ...". -/
  | tensorNotSupported (modelId : ModelId)
  /-- "No tensor sharding found for model with hidden_size=..., num_key_value_heads=... ...". -/
  | noTensorSharding (hiddenSize : Nat) (kvHeads : Option Nat)
  /-- "Pipeline parallelism is not supported for DeepSeek V3.1 (8-bit)". -/
  | noPipelineForDeepSeek
  /-- "Pipeline parallelism is not supported for Gemma 4; use tensor parallelism instead.". -/
  | noPipelineForGemma
  /-- "Model {model_id} backends ... cannot satisfy engine {instance_meta} which requires ...". -/
  | backendsCannotSatisfyEngine (modelId : ModelId) (engine : InstanceMeta)
  /-- "No cycle where every node supports a backend in ... for {model_id}". -/
  | noCycleWithBackends (requiredBackends : List Backend) (modelId : ModelId)
  /-- "Requested RDMA (MlxJaccl) but no RDMA-connected cycles available". -/
  | noRdmaCycles
  /-- "Current jaccl backend requires all-to-all RDMA connections". -/
  | jacclNeedsAllToAll
  /-- "MLX ring backend requires connectivity between neighbouring nodes". -/
  | ringNeedsConnectivity
  /-- "Current jaccl backend requires all participating devices to be able to communicate". -/
  | jacclNeedsCommunication
  deriving DecidableEq, Repr

/-- `node_memory[node_id].ram_available`. -/
def ramAvailable (nodeMemory : Dict NodeId MemoryUsage) (nodeId : NodeId) :
    Except PlacementError Memory :=
  match nodeMemory.get? nodeId with
  | some usage => .ok usage.ramAvailable
  | none => .error (.keyError nodeId)

/-! ## Layers in proportion to memory -/

/-- `raw`, the shares before they are rounded down. -/
def rawShares (totalLayers : Nat) (memoryFractions : List ℚ) : List ℚ :=
  memoryFractions.map fun f => toDouble (f * toDouble totalLayers)

/-- The shares rounded down. -/
def wholeShares (raw : List ℚ) : List Nat := raw.map fun r => ⌊r⌋₊

/-- The positions with the largest fractions first; the sort is stable. -/
def byRemainder (raw : List ℚ) (result : List Nat) : List Nat :=
  let remainder (i : Nat) : ℚ := toDouble (raw.getD i 0 - toDouble (result.getD i 0))
  (List.range raw.length).insertionSort fun i j => remainder j ≤ remainder i

/-- One layer more for the first `count` positions of the order. -/
def addRemainders (order result : List Nat) (count : Nat) : Except PlacementError (List Nat) :=
  (List.range count).foldlM (fun result i =>
    match order[i]? with
    | some j => .ok (result.modify j (· + 1))
    | none => .error .indexError) result

/-- A node without layers takes one from the node that has most. -/
def ensureMinimum (result : List Nat) : Except PlacementError (List Nat) :=
  (List.range result.length).foldlM (fun result i =>
    if result[i]? = some 0 then
      match (List.range result.length).argmax fun j => result.getD j 0 with
      | some maxIdx =>
          if 1 < result.getD maxIdx 0 then
            .ok ((result.modify maxIdx (· - 1)).set i 1)
          else .error .assertionError
      | none => .error .assertionError
    else .ok result) result

def allocateLayersProportionally (totalLayers : Nat) (memoryFractions : List ℚ) :
    Except PlacementError (List Nat) :=
  if memoryFractions.length = 0 then .error .emptyNodeList
  else if totalLayers < memoryFractions.length then
    .error (.tooFewLayers totalLayers memoryFractions.length)
  -- the product of a double and an integer makes a double of the integer first
  else if overflows totalLayers then .error .overflowError
  else do
    let raw := rawShares totalLayers memoryFractions
    let result := wholeShares raw
    let result ← addRemainders (byRemainder raw result) result (totalLayers - result.sum)
    ensureMinimum result

def validateCycle (cycle : Cycle) : Except PlacementError Unit :=
  if cycle.nodeIds = [] then .error .emptyCycle else .ok ()

def computeTotalMemory (nodeIds : List NodeId) (nodeMemory : Dict NodeId MemoryUsage) :
    Except PlacementError Memory := do
  let available ← nodeIds.mapM (ramAvailable nodeMemory)
  if available.sum = 0 then .error .noMemory else .ok available.sum

/-- The bytes that some layers of a model take. -/
def ModelCard.memoryFor (modelCard : ModelCard) (nodeLayers : Nat) : Memory :=
  modelCard.storageSize * nodeLayers / modelCard.nLayers

/-- Every node can hold its layers; `i` is the position of the first of them. -/
def validateLayers (modelCard : ModelCard) (nodeMemory : Dict NodeId MemoryUsage)
    (layerAllocations : List Nat) : Nat → List NodeId → Except PlacementError Unit
  | _, [] => .ok ()
  | i, nodeId :: nodeIds => do
      let nodeLayers := layerAllocations.getD i 0
      let available ← ramAvailable nodeMemory nodeId
      if modelCard.memoryFor nodeLayers > available then
        .error (.insufficientMemory i nodeId (modelCard.memoryFor nodeLayers) nodeLayers available)
      else validateLayers modelCard nodeMemory layerAllocations (i + 1) nodeIds

def allocateAndValidateLayers (nodeIds : List NodeId) (nodeMemory : Dict NodeId MemoryUsage)
    (totalMemory : Memory) (modelCard : ModelCard) : Except PlacementError (List Nat) := do
  let available ← nodeIds.mapM (ramAvailable nodeMemory)
  let layerAllocations ← allocateLayersProportionally modelCard.nLayers
    (available.map fun m : Memory => toDouble ((m : ℚ) / totalMemory))
  validateLayers modelCard nodeMemory layerAllocations 0 nodeIds
  return layerAllocations

/-! ## Shards -/

/-- What kind of shard it is, with the coordinates that only this kind has. -/
inductive ShardKind where
  | pipeline
  | cfg (cfgRank cfgWorldSize pipelineRank pipelineWorldSize : Nat)
  | tensor
  deriving DecidableEq, Repr

/-- A shard with all its coordinates. -/
structure Shard extends ShardMetadata where
  nLayers : Nat
  kind : ShardKind
  deriving DecidableEq, Repr

/-- The layers of a shard, as a half-open interval. -/
def Shard.layers (s : Shard) : Nat × Nat := (s.startLayer, s.endLayer)

/-- `ShardAssignments`, with all that is known of the shards. -/
structure Assignments where
  modelId : ModelId
  runnerToShard : Dict RunnerId Shard
  nodeToRunner : Dict NodeId RunnerId
  /-- `validate_runners_exist`. -/
  runnersExist : ∀ r ∈ nodeToRunner.values, (runnerToShard.get? r).isSome
  deriving DecidableEq

/-- The assignments as the other parties see them. -/
def Assignments.toShardAssignments (a : Assignments) : ShardAssignments where
  modelId := a.modelId
  runnerToShard := a.runnerToShard.mapValues fun _ s => s.toShardMetadata
  nodeToRunner := a.nodeToRunner
  runnersExist := by
    intro r hr
    rw [Dict.get?_mapValues, Option.isSome_map]
    exact a.runnersExist r hr

/-- The uuids of new runners, in the order they are drawn. No uuid is drawn twice. -/
structure RunnerIds where
  draw : Nat → RunnerId
  distinct : Function.Injective draw

/-- One more node, with its runner and the runner's shard. -/
def Assignments.add (a : Assignments) (nodeId : NodeId) (runnerId : RunnerId) (shard : Shard) :
    Assignments where
  modelId := a.modelId
  runnerToShard := a.runnerToShard.set runnerId shard
  nodeToRunner := a.nodeToRunner.set nodeId runnerId
  runnersExist := by
    intro r hr
    rw [Dict.get?_set]
    split
    · rfl
    · rename_i hne
      obtain ⟨n, hn⟩ := Dict.mem_values.1 hr
      rw [Dict.get?_set] at hn
      split at hn
      · exact absurd (Option.some.inj hn).symm hne
      · exact a.runnersExist r (Dict.mem_values.2 ⟨n, hn⟩)

section Add

variable (a : Assignments) (nodeId : NodeId) (runnerId : RunnerId) (shard : Shard)

@[simp] theorem Assignments.add_runnerToShard :
    (a.add nodeId runnerId shard).runnerToShard = a.runnerToShard.set runnerId shard := rfl

@[simp] theorem Assignments.add_nodeToRunner :
    (a.add nodeId runnerId shard).nodeToRunner = a.nodeToRunner.set nodeId runnerId := rfl

end Add

/-- The loop over a cycle: the node at every rank gets a new runner for the shard of the rank. -/
def assignShards (modelCard : ModelCard) (cycle : Cycle) (runnerIds : RunnerIds)
    (shardAt : Nat → Shard) : Assignments :=
  (enumerate cycle.nodeIds).foldl
    (fun a p => a.add p.2 (runnerIds.draw p.1) (shardAt p.1))
    { modelId := modelCard.modelId
      runnerToShard := .empty
      nodeToRunner := .empty
      runnersExist := by simp }

/-- The layers of a stage of a pipeline. -/
def stageLayers (layerAllocations : List Nat) (pipelineRank : Nat) : Nat × Nat :=
  let layersBefore := (layerAllocations.take pipelineRank).sum
  (layersBefore, layersBefore + layerAllocations.getD pipelineRank 0)

/-- Where the first half of a ring is in the pipelines, and then the second. -/
def positionToCfgPipeline (pipelineWorldSize : Nat) : List (Nat × Nat) :=
  (List.range pipelineWorldSize).map (fun r => (0, r))
    ++ (List.range pipelineWorldSize).reverse.map fun r => (1, r)

def cfgShard (modelCard : ModelCard) (worldSize : Nat) (layerAllocations : List Nat)
    (deviceRank : Nat) : Shard :=
  let pipelineWorldSize := worldSize / 2
  let position := (positionToCfgPipeline pipelineWorldSize).getD deviceRank (0, 0)
  let layers := stageLayers layerAllocations position.2
  { modelId := modelCard.modelId
    deviceRank := deviceRank
    worldSize := worldSize
    startLayer := layers.1
    endLayer := layers.2
    nLayers := modelCard.nLayers
    kind := .cfg position.1 2 position.2 pipelineWorldSize }

def pipelineShard (modelCard : ModelCard) (worldSize : Nat) (layerAllocations : List Nat)
    (pipelineRank : Nat) : Shard :=
  let layers := stageLayers layerAllocations pipelineRank
  { modelId := modelCard.modelId
    deviceRank := pipelineRank
    worldSize := worldSize
    startLayer := layers.1
    endLayer := layers.2
    nLayers := modelCard.nLayers
    kind := .pipeline }

def tensorShard (modelCard : ModelCard) (worldSize : Nat) (i : Nat) : Shard where
  modelId := modelCard.modelId
  deviceRank := i
  worldSize := worldSize
  startLayer := 0
  endLayer := modelCard.nLayers
  nLayers := modelCard.nLayers
  kind := .tensor

def getShardAssignmentsForCfgParallel (modelCard : ModelCard) (cycle : Cycle)
    (nodeMemory : Dict NodeId MemoryUsage) (runnerIds : RunnerIds) :
    Except PlacementError Assignments := do
  validateCycle cycle
  let worldSize := cycle.nodeIds.length
  let pipelineNodeIds := cycle.nodeIds.take (worldSize / 2)
  let pipelineMemory ← computeTotalMemory pipelineNodeIds nodeMemory
  let layerAllocations ← allocateAndValidateLayers pipelineNodeIds nodeMemory pipelineMemory
    modelCard
  return assignShards modelCard cycle runnerIds (cfgShard modelCard worldSize layerAllocations)

def getShardAssignmentsForPurePipeline (modelCard : ModelCard) (cycle : Cycle)
    (nodeMemory : Dict NodeId MemoryUsage) (runnerIds : RunnerIds) :
    Except PlacementError Assignments := do
  validateCycle cycle
  let totalMemory ← computeTotalMemory cycle.nodeIds nodeMemory
  let layerAllocations ← allocateAndValidateLayers cycle.nodeIds nodeMemory totalMemory modelCard
  return assignShards modelCard cycle runnerIds
    (pipelineShard modelCard cycle.nodeIds.length layerAllocations)

/-- `use_cfg_parallel`. -/
def useCfgParallel (modelCard : ModelCard) (worldSize : Nat) : Bool :=
  modelCard.usesCfg ∧ 2 ≤ worldSize ∧ worldSize % 2 = 0

def getShardAssignmentsForPipelineParallel (modelCard : ModelCard) (cycle : Cycle)
    (nodeMemory : Dict NodeId MemoryUsage) (runnerIds : RunnerIds) :
    Except PlacementError Assignments :=
  if useCfgParallel modelCard cycle.nodeIds.length then
    getShardAssignmentsForCfgParallel modelCard cycle nodeMemory runnerIds
  else getShardAssignmentsForPurePipeline modelCard cycle nodeMemory runnerIds

def getShardAssignmentsForTensorParallel (modelCard : ModelCard) (cycle : Cycle)
    (runnerIds : RunnerIds) : Assignments :=
  assignShards modelCard cycle runnerIds (tensorShard modelCard cycle.nodeIds.length)

def getShardAssignments (modelCard : ModelCard) (cycle : Cycle) (sharding : Sharding)
    (nodeMemory : Dict NodeId MemoryUsage) (runnerIds : RunnerIds) :
    Except PlacementError Assignments :=
  match sharding with
  | .pipeline => getShardAssignmentsForPipelineParallel modelCard cycle nodeMemory runnerIds
  | .tensor => .ok (getShardAssignmentsForTensorParallel modelCard cycle runnerIds)

end Exo
