import Mathlib.Data.Prod.Lex
import Exo.Master.Hosts
import Exo.Master.Transition

/-!
# Where an instance is placed

`place_instance` takes the cycles of the topology through one filter after the other, keeps the
smallest of them, and takes the cycle on which most of the model is downloaded already. What a
filter leaves nothing of ends the placement with an error that says so.
-/

namespace Exo

open Lib

def INSTANCE_META_BACKENDS : InstanceMeta → List Backend
  | .mlxRing => [.mlxMetal, .mlxCuda, .mlxCpu]
  | .mlxJaccl => [.mlxMetal]

/-- The number that stands for the model `mlx-community/DeepSeek-V3.1-8bit`. -/
def DEEPSEEK_V3_1_8BIT : ModelId := 0

/-- How far the download of a model on a node is, in bytes. -/
inductive DownloadBytes where
  | completed
  | ongoing (downloaded total : Memory)
  | pending (downloaded total : Memory)
  | failed
  deriving DecidableEq, Repr

structure ModelDownload where
  modelId : ModelId
  progress : DownloadBytes
  deriving DecidableEq, Repr

/-- The command to place an instance. -/
structure PlaceInstance where
  modelCard : ModelCard
  sharding : Sharding
  instanceMeta : InstanceMeta
  minNodes : Int
  deriving DecidableEq

/-- What is known of the nodes. -/
structure NodeMaps where
  memory : Dict NodeId MemoryUsage
  network : Dict NodeId NodeNetworkInfo := .empty
  backends : Dict NodeId (List Backend) := .empty
  requiredNodes : List NodeId := []
  downloads : Dict NodeId (List ModelDownload) := .empty
  /-- Whether RDMA is enabled on a node. -/
  rdmaCtl : Dict NodeId Bool := .empty

/-- What a placement draws: uuids that were not drawn before, and a port. -/
structure Drawn where
  instanceId : InstanceId
  runnerIds : RunnerIds
  port : Nat

/-- An instance with the tables its engine needs. -/
inductive PlacedInstance where
  | mlxRing (instanceId : InstanceId) (shardAssignments : Assignments)
      (hostsByNode : Dict NodeId (List Host)) (ephemeralPort : Nat)
  | mlxJaccl (instanceId : InstanceId) (shardAssignments : Assignments)
      (jacclDevices : List (List (Option String))) (jacclCoordinators : Dict NodeId String)
  deriving DecidableEq

def PlacedInstance.instanceId : PlacedInstance → InstanceId
  | .mlxRing instanceId .. | .mlxJaccl instanceId .. => instanceId

def PlacedInstance.shardAssignments : PlacedInstance → Assignments
  | .mlxRing _ shardAssignments .. | .mlxJaccl _ shardAssignments .. => shardAssignments

/-- The instance as the other parties see it. -/
def PlacedInstance.toInstance (p : PlacedInstance) : Instance where
  instanceId := p.instanceId
  shardAssignments := p.shardAssignments.toShardAssignments

/-! ## Scores -/

/-- A fraction of bytes, as a double. -/
def byteFraction (downloaded total : Memory) : ℚ :=
  if 0 < total then toDouble ((downloaded : ℚ) / total) else 0

/-- `_get_node_download_fraction`: the first entry about the model counts. -/
def nodeDownloadFraction (nodeId : NodeId) (modelId : ModelId)
    (downloads : Dict NodeId (List ModelDownload)) : ℚ :=
  match ((downloads.get? nodeId).getD []).find? fun d => d.modelId = modelId with
  | none => 0
  | some d =>
      match d.progress with
      | .completed => 1
      | .ongoing downloaded total | .pending downloaded total => byteFraction downloaded total
      | .failed => 0

/-- `_cycle_download_score`. -/
def cycleDownloadScore (cycle : Cycle) (modelId : ModelId)
    (downloads : Dict NodeId (List ModelDownload)) : ℚ :=
  sumDoubles (cycle.nodeIds.map fun nodeId => nodeDownloadFraction nodeId modelId downloads)

/-- The free memory of a cycle, whose nodes are all known. -/
def cycleMemory (memory : Dict NodeId MemoryUsage) (cycle : Cycle) : Memory :=
  (cycle.nodeIds.map fun nodeId => ((memory.get? nodeId).map (·.ramAvailable)).getD 0).sum

/-! ## Filters -/

def filterCyclesByMemory (cycles : List Cycle) (memory : Dict NodeId MemoryUsage)
    (requiredMemory : Memory) : List Cycle :=
  cycles.filter fun cycle =>
    (cycle.nodeIds.all fun nodeId => (memory.get? nodeId).isSome)
      ∧ requiredMemory ≤ cycleMemory memory cycle

/-- The cycles of the least length. -/
def getSmallestCycles (cycles : List Cycle) : List Cycle :=
  match (cycles.map fun cycle => cycle.nodeIds.length).min? with
  | some minNodes => cycles.filter fun cycle => cycle.nodeIds.length = minNodes
  | none => []

/-- `base_model.startswith(...)`. -/
def ModelCard.isFamily (modelCard : ModelCard) (name : String) : Bool :=
  name.toList.isPrefixOf modelCard.baseModel.toList

/-- The width of the model, and its heads where they matter, divide by the size of the cycle. -/
def divides (modelCard : ModelCard) (cycle : Cycle) : Bool :=
  modelCard.hiddenSize % cycle.nodeIds.length = 0
    ∧ (modelCard.isFamily "DeepSeek V4"
      ∨ modelCard.numKeyValueHeads.all fun kvHeads => kvHeads % cycle.nodeIds.length = 0)

def requiredBackends (command : PlaceInstance) : List Backend :=
  (INSTANCE_META_BACKENDS command.instanceMeta).filter (· ∈ command.modelCard.backends)

/-- Every node has a backend of these. -/
def supports (backends : Dict NodeId (List Backend)) (required : List Backend) (cycle : Cycle) :
    Bool :=
  cycle.nodeIds.all fun nodeId => ((backends.get? nodeId).getD []).any (· ∈ required)

/-- `_all_rdma_ctl_enabled`. -/
def allRdmaCtlEnabled (rdmaCtl : Dict NodeId Bool) (cycle : Cycle) : Bool :=
  cycle.nodeIds.all fun nodeId => rdmaCtl.get? nodeId = some true

/-- What is left of a list that must not be empty. -/
def nonempty (cycles : List Cycle) (error : PlacementError) :
    Except PlacementError (List Cycle) :=
  if cycles = [] then .error error else .ok cycles

/-- The cycles with enough nodes, the required ones among them, and enough memory. -/
def cyclesWithSufficientMemory (command : PlaceInstance) (cycles : List Cycle) (maps : NodeMaps) :
    List Cycle :=
  let candidateCycles := cycles.filter fun cycle => command.minNodes ≤ cycle.nodeIds.length
  let candidateCycles :=
    if maps.requiredNodes = [] then candidateCycles
    else candidateCycles.filter fun cycle =>
      maps.requiredNodes.all fun nodeId => nodeId ∈ cycle.nodeIds
  filterCyclesByMemory candidateCycles maps.memory command.modelCard.storageSize

/-- The cycles that the model can be sharded over. -/
def filterCyclesBySharding (command : PlaceInstance) (cycles : List Cycle) :
    Except PlacementError (List Cycle) :=
  match command.sharding with
  | .tensor =>
      if command.modelCard.supportsTensor then
        nonempty (cycles.filter (divides command.modelCard))
          (.noTensorSharding command.modelCard.hiddenSize command.modelCard.numKeyValueHeads)
      else .error (.tensorNotSupported command.modelCard.modelId)
  | .pipeline =>
      if command.modelCard.modelId = DEEPSEEK_V3_1_8BIT then .error .noPipelineForDeepSeek
      else if command.modelCard.isFamily "Gemma 4" then
        nonempty (cycles.filter fun cycle => cycle.nodeIds.length = 1) .noPipelineForGemma
      else .ok cycles

/-- The cycles whose nodes all have a backend that the engine and the model share. -/
def filterCyclesByBackends (command : PlaceInstance) (cycles : List Cycle) (maps : NodeMaps) :
    Except PlacementError (List Cycle) :=
  if requiredBackends command = [] then
    .error (.backendsCannotSatisfyEngine command.modelCard.modelId command.instanceMeta)
  else
    nonempty (cycles.filter (supports maps.backends (requiredBackends command)))
      (.noCycleWithBackends (requiredBackends command) command.modelCard.modelId)

/-- For Jaccl, the cycles connected by RDMA. -/
def filterCyclesByRdma (lib : GraphLibrary) (command : PlaceInstance) (topology : Topology)
    (cycles : List Cycle) (maps : NodeMaps) : Except PlacementError (List Cycle) :=
  let smallestRdmaCycles := cycles.filter fun cycle =>
    topology.isRdmaCycle lib cycle ∧ allRdmaCtlEnabled maps.rdmaCtl cycle
  match command.instanceMeta with
  | .mlxJaccl => nonempty smallestRdmaCycles .noRdmaCycles
  | .mlxRing => .ok cycles

/-- The candidates that are left when every filter has been passed. -/
def candidateCycles (lib : GraphLibrary) (command : PlaceInstance) (topology : Topology)
    (maps : NodeMaps) : Except PlacementError (List Cycle) := do
  let cycles ← nonempty (cyclesWithSufficientMemory command (topology.getCycles lib) maps)
    .noCyclesWithSufficientMemory
  let cycles ← filterCyclesBySharding command cycles
  let cycles ← filterCyclesByBackends command (getSmallestCycles cycles) maps
  filterCyclesByRdma lib command topology cycles maps

/-- The best of the candidates: with a leaf if there is one, and with the best score. -/
def selectCycle (command : PlaceInstance) (topology : Topology) (maps : NodeMaps)
    (cycles : List Cycle) : Option Cycle :=
  let cyclesWithLeafNodes := cycles.filter fun cycle => cycle.nodeIds.any topology.nodeIsLeaf
  (if cyclesWithLeafNodes ≠ [] then cyclesWithLeafNodes else cycles).argmax fun cycle =>
    toLex (cycleDownloadScore cycle command.modelCard.modelId maps.downloads,
      cycleMemory maps.memory cycle)

/-- A single node is always a ring that runs a pipeline. -/
def PlaceInstance.forCycle (command : PlaceInstance) (cycle : Cycle) : PlaceInstance :=
  if cycle.nodeIds.length = 1 then
    { command with instanceMeta := .mlxRing, sharding := .pipeline }
  else command

/-- `get_device_rank`. -/
def Assignments.deviceRank (a : Assignments) (nodeId : NodeId) : Except PlacementError Int :=
  match a.nodeToRunner.get? nodeId with
  | none => .error (.keyError nodeId)
  | some runnerId =>
      match a.runnerToShard.get? runnerId with
      | none => .error .assertionError
      | some shard => .ok shard.deviceRank

/-- The only node of device rank 0. -/
def zeroNode (a : Assignments) (nodeIds : List NodeId) : Except PlacementError NodeId := do
  let ranks ← nodeIds.mapM a.deviceRank
  match (nodeIds.zip ranks).filter fun p => p.2 = 0 with
  | [(nodeId, _)] => .ok nodeId
  | _ => .error .assertionError

/-- The instance on the selected cycle. -/
def buildInstance (lib : GraphLibrary) (command : PlaceInstance) (cycleDigraph : Topology)
    (selectedCycle : Cycle) (shardAssignments : Assignments) (maps : NodeMaps) (drawn : Drawn) :
    Except PlacementError PlacedInstance :=
  match command.instanceMeta with
  | .mlxJaccl => do
      let coordinator ← zeroNode shardAssignments selectedCycle.nodeIds
      let jacclDevices ← getMlxJacclDevicesMatrix lib selectedCycle.nodeIds cycleDigraph
      let jacclCoordinators ← getMlxJacclCoordinators lib coordinator drawn.port cycleDigraph
        maps.network
      return .mlxJaccl drawn.instanceId shardAssignments jacclDevices jacclCoordinators
  | .mlxRing => do
      let hostsByNode ← getMlxRingHostsByNode lib selectedCycle.nodeIds cycleDigraph drawn.port
        maps.network
      return .mlxRing drawn.instanceId shardAssignments hostsByNode drawn.port

/-- `place_instance`. -/
def placeInstance (lib : GraphLibrary) (command : PlaceInstance) (topology : Topology)
    (currentInstances : Dict InstanceId PlacedInstance) (maps : NodeMaps) (drawn : Drawn) :
    Except PlacementError (Dict InstanceId PlacedInstance) := do
  let cycles ← candidateCycles lib command topology maps
  match selectCycle command topology maps cycles with
  | none => .error .assertionError
  | some selectedCycle =>
      let command := command.forCycle selectedCycle
      let shardAssignments ← getShardAssignments command.modelCard selectedCycle command.sharding
        maps.memory drawn.runnerIds
      let cycleDigraph := topology.getSubgraphFromNodes lib selectedCycle.nodeIds
      let inst ← buildInstance lib command cycleDigraph selectedCycle shardAssignments maps drawn
      return currentInstances.set drawn.instanceId inst

end Exo
