import Exo.Lib.Machine
import Exo.Master.Placement
import Exo.Shared.Apply

/-!
# What is known of the nodes

The part of the replicated state that is about nodes: the topology, when each node was last heard
of, and one mapping for each kind of information a node gathers about itself. `event_apply` on this
part is `NodeState.apply`; the other parts of the state are `State`, and the two agree on
`last_seen`.

Where the nodes of a set are enumerated, the order is that of the mapping the set was made from.
-/

namespace Exo

open Lib (Dict Machine)

/-! ## What a node gathers -/

structure NodeIdentity where
  modelId : String := "Unknown"
  chipId : String := "Unknown"
  friendlyName : String := "Unknown"
  osVersion : String := "Unknown"
  osBuildVersion : String := "Unknown"
  deriving DecidableEq, Repr

structure DiskUsage where
  total : Memory
  available : Memory
  deriving DecidableEq, Repr

/-- The numbers are floats that are only stored. -/
structure SystemPerformanceProfile where
  gpuUsage : ℚ := 0
  temp : ℚ := 0
  sysPower : ℚ := 0
  pcpuUsage : ℚ := 0
  ecpuUsage : ℚ := 0
  deriving DecidableEq

structure ThunderboltIdentifier where
  rdmaInterface : String
  domainUuid : String
  linkSpeed : String := ""
  deriving DecidableEq, Repr

structure ThunderboltConnection where
  sourceUuid : String
  sinkUuid : String
  deriving DecidableEq, Repr

structure NodeThunderboltInfo where
  interfaces : List ThunderboltIdentifier := []
  deriving DecidableEq, Repr

/-- Whether the Thunderbolt Bridge network service is enabled on a node. -/
structure ThunderboltBridgeStatus where
  enabled : Bool
  existing : Bool
  serviceName : Option String := none
  deriving DecidableEq, Repr

structure NodeRdmaCtlStatus where
  enabled : Bool
  deriving DecidableEq, Repr

/-- `GatheredInfo`. -/
inductive GatheredInfo where
  | macmonMetrics (systemProfile : SystemPerformanceProfile) (memory : MemoryUsage)
  | memoryUsage (memory : MemoryUsage)
  | nodeDiskUsage (diskUsage : DiskUsage)
  | nodeConfig
  | miscData (friendlyName : String)
  | staticNodeInformation (model chip osVersion osBuildVersion : String)
  | nodeNetworkInterfaces (ifaces : List NetworkInterfaceInfo)
  | macThunderboltIdentifiers (idents : List ThunderboltIdentifier)
  | macThunderboltConnections (conns : List ThunderboltConnection)
  | thunderboltBridgeInfo (status : ThunderboltBridgeStatus)
  | rdmaCtlStatus (enabled : Bool)
  | nodeBackends (backends : List Backend)
  deriving DecidableEq

/-- The events that change what is known of the nodes; any other one is `other`. -/
inductive NodeEvent where
  | nodeTimedOut (nodeId : NodeId)
  | nodeGatheredInfo (nodeId : NodeId) (when : Time) (info : GatheredInfo)
  | topologyEdgeCreated (conn : Connection)
  | topologyEdgeDeleted (conn : Connection)
  | other
  deriving DecidableEq

structure NodeState where
  topology : Topology := .empty
  lastSeen : Dict NodeId Time := .empty
  nodeIdentities : Dict NodeId NodeIdentity := .empty
  nodeMemory : Dict NodeId MemoryUsage := .empty
  nodeDisk : Dict NodeId DiskUsage := .empty
  nodeSystem : Dict NodeId SystemPerformanceProfile := .empty
  nodeNetwork : Dict NodeId NodeNetworkInfo := .empty
  nodeThunderbolt : Dict NodeId NodeThunderboltInfo := .empty
  nodeThunderboltBridge : Dict NodeId ThunderboltBridgeStatus := .empty
  nodeRdmaCtl : Dict NodeId NodeRdmaCtlStatus := .empty
  nodeBackends : Dict NodeId (List Backend) := .empty
  thunderboltBridgeCycles : List (List NodeId) := []
  deriving DecidableEq

/-! ## The cycles of bridged nodes -/

/-- `_get_ips_with_interface_type`. -/
def getIpsWithInterfaceType (nodeIds : List NodeId) (nodeNetwork : Dict NodeId NodeNetworkInfo)
    (interfaceType : InterfaceType) : List String :=
  nodeIds.flatMap fun nodeId =>
    ((((nodeNetwork.get? nodeId).getD {}).interfaces.filter
      fun iface => iface.interfaceType = interfaceType).map (·.ipAddress))

/-- The nodes on which the bridge is enabled. -/
def enabledNodes (nodeTbBridgeStatus : Dict NodeId ThunderboltBridgeStatus) : List NodeId :=
  (nodeTbBridgeStatus.filter fun _ status => status.enabled).keys

/-- Whether the connection is over a Thunderbolt interface; a name has no `ip_address`. -/
def Connection.overThunderbolt? (thunderboltIps : List String) (c : Connection) : Option Bool :=
  match c.edge with
  | .socket sinkMultiaddr => sinkMultiaddr.ipAddress.map fun ip => ip ∈ thunderboltIps
  | .rdma .. => some true

/-- The subgraph with only the given nodes and Thunderbolt connections. -/
def Topology.bridgeGraph (t : Topology) (enabled : List NodeId) (thunderboltIps : List String)
    (hnodup : enabled.Nodup) : Topology where
  nodes := enabled.filter (· ∈ t.nodes)
  connections := t.connections.filter fun c =>
    c.source ∈ enabled ∧ c.sink ∈ enabled ∧ c.overThunderbolt? thunderboltIps = some true
  nodup := hnodup.filter _
  endpoints := by
    intro c hc
    obtain ⟨hmem, hc⟩ := List.mem_filter.mp hc
    obtain ⟨hsource, hsink, -⟩ := of_decide_eq_true hc
    obtain ⟨hs, ht⟩ := t.endpoints c hmem
    exact ⟨List.mem_filter.mpr ⟨hsource, by simpa using hs⟩,
      List.mem_filter.mpr ⟨hsink, by simpa using ht⟩⟩

theorem enabledNodes_nodup (d : Dict NodeId ThunderboltBridgeStatus) : (enabledNodes d).Nodup := by
  unfold enabledNodes Dict.keys
  exact Dict.nodup _

/--
Cycles of at least two nodes where all nodes have the bridge enabled. `none` is the `ValueError`
for a connection to a name.
-/
def Topology.getThunderboltBridgeCycles (lib : GraphLibrary) (t : Topology)
    (nodeTbBridgeStatus : Dict NodeId ThunderboltBridgeStatus)
    (nodeNetwork : Dict NodeId NodeNetworkInfo) : Option (List (List NodeId)) :=
  let enabled := enabledNodes nodeTbBridgeStatus
  if enabled.length < 2 then
    some []
  else
    let thunderboltIps := getIpsWithInterfaceType enabled nodeNetwork .thunderbolt
    let between := t.connections.filter fun c => c.source ∈ enabled ∧ c.sink ∈ enabled
    if between.all fun c => (c.overThunderbolt? thunderboltIps).isSome then
      let graph := t.bridgeGraph enabled thunderboltIps (enabledNodes_nodup nodeTbBridgeStatus)
      some ((lib.simpleCycles graph).filter fun cycle => 2 ≤ cycle.length)
    else
      none

/-! ## What the events do -/

/-- A node is RDMA-capable only if `rdma_ctl` has been observed as enabled. -/
def isRdmaCtlEnabled (nodeId : NodeId) (nodeRdmaCtl : Dict NodeId NodeRdmaCtlStatus) : Bool :=
  match nodeRdmaCtl.get? nodeId with
  | some status => status.enabled
  | none => false

/-- `conn_map`: the node and the interface with a Thunderbolt domain; later ones win. -/
def thunderboltConnMap (nodeThunderbolt : Dict NodeId NodeThunderboltInfo) :
    Dict String (NodeId × String) :=
  (nodeThunderbolt.entries.flatMap fun (nid, info) =>
    info.interfaces.map fun tbIdent => (tbIdent.domainUuid, nid, tbIdent.rdmaInterface)).foldl
      (fun connMap entry => connMap.set entry.1 entry.2) .empty

/-- `as_rdma_conns`. -/
def asRdmaConns (nodeId : NodeId) (conns : List ThunderboltConnection) (state : NodeState) :
    List Connection :=
  let connMap := thunderboltConnMap state.nodeThunderbolt
  let sourceIsRdmaEnabled := isRdmaCtlEnabled nodeId state.nodeRdmaCtl
  conns.filterMap fun tbConn =>
    (connMap.get? tbConn.sourceUuid).bind fun source =>
      (connMap.get? tbConn.sinkUuid).bind fun sink =>
        if sourceIsRdmaEnabled ∧ isRdmaCtlEnabled sink.1 state.nodeRdmaCtl then
          some ⟨nodeId, sink.1, .rdma source.2 sink.2⟩
        else
          none

namespace NodeState

/-- `apply_node_timed_out`. -/
def applyNodeTimedOut (lib : GraphLibrary) (nodeId : NodeId) (state : NodeState) :
    Option NodeState :=
  let topology := state.topology.removeNode nodeId
  let nodeNetwork := state.nodeNetwork.erase nodeId
  let nodeThunderboltBridge := state.nodeThunderboltBridge.erase nodeId
  let leavingNodeHadTbEnabled :=
    (state.nodeThunderboltBridge.get? nodeId).any fun status => status.enabled
  let cycles :=
    if leavingNodeHadTbEnabled then
      topology.getThunderboltBridgeCycles lib nodeThunderboltBridge nodeNetwork
    else
      some state.thunderboltBridgeCycles
  cycles.map fun thunderboltBridgeCycles =>
    { state with
      topology
      lastSeen := state.lastSeen.erase nodeId
      nodeMemory := state.nodeMemory.erase nodeId
      nodeDisk := state.nodeDisk.erase nodeId
      nodeSystem := state.nodeSystem.erase nodeId
      nodeNetwork
      nodeThunderbolt := state.nodeThunderbolt.erase nodeId
      nodeThunderboltBridge
      nodeRdmaCtl := state.nodeRdmaCtl.erase nodeId
      thunderboltBridgeCycles }

/-- What the information itself changes, after the node was added and seen. -/
def applyInfo (lib : GraphLibrary) (nodeId : NodeId) (state : NodeState) :
    GatheredInfo → Option NodeState
  | .macmonMetrics systemProfile memory =>
      some { state with
        nodeSystem := state.nodeSystem.set nodeId systemProfile
        nodeMemory := state.nodeMemory.set nodeId memory }
  | .memoryUsage memory => some { state with nodeMemory := state.nodeMemory.set nodeId memory }
  | .nodeDiskUsage diskUsage => some { state with nodeDisk := state.nodeDisk.set nodeId diskUsage }
  | .nodeConfig => some state
  | .miscData friendlyName =>
      let currentIdentity := (state.nodeIdentities.get? nodeId).getD {}
      some { state with
        nodeIdentities := state.nodeIdentities.set nodeId { currentIdentity with friendlyName } }
  | .staticNodeInformation model chip osVersion osBuildVersion =>
      let currentIdentity := (state.nodeIdentities.get? nodeId).getD {}
      some { state with
        nodeIdentities := state.nodeIdentities.set nodeId
          { currentIdentity with modelId := model, chipId := chip, osVersion, osBuildVersion } }
  | .nodeNetworkInterfaces ifaces =>
      some { state with nodeNetwork := state.nodeNetwork.set nodeId ⟨ifaces⟩ }
  | .macThunderboltIdentifiers idents =>
      some { state with nodeThunderbolt := state.nodeThunderbolt.set nodeId ⟨idents⟩ }
  | .macThunderboltConnections conns =>
      (state.topology.replaceAllOutRdmaConnections lib nodeId (asRdmaConns nodeId conns state)).map
        fun topology => { state with topology }
  | .thunderboltBridgeInfo status =>
      let newTbBridge := state.nodeThunderboltBridge.set nodeId status
      let oldEnabled := (state.nodeThunderboltBridge.get? nodeId).any fun status => status.enabled
      let cycles :=
        if oldEnabled ≠ status.enabled then
          state.topology.getThunderboltBridgeCycles lib newTbBridge state.nodeNetwork
        else
          some state.thunderboltBridgeCycles
      cycles.map fun thunderboltBridgeCycles =>
        { state with nodeThunderboltBridge := newTbBridge, thunderboltBridgeCycles }
  | .rdmaCtlStatus enabled =>
      some { state with
        nodeRdmaCtl := state.nodeRdmaCtl.set nodeId ⟨enabled⟩
        topology :=
          if enabled then state.topology
          else state.topology.removeAllRdmaConnectionsTouching nodeId }
  | .nodeBackends backends =>
      some { state with nodeBackends := state.nodeBackends.set nodeId backends }

/-- `apply_node_gathered_info`. -/
def applyNodeGatheredInfo (lib : GraphLibrary) (nodeId : NodeId) (when : Time)
    (info : GatheredInfo) (state : NodeState) : Option NodeState :=
  { state with
    topology := state.topology.addNode nodeId
    lastSeen := state.lastSeen.set nodeId when }.applyInfo lib nodeId info

def applyTopologyEdgeCreated (lib : GraphLibrary) (conn : Connection) (state : NodeState) :
    NodeState :=
  { state with topology := state.topology.addConnection lib conn }

def applyTopologyEdgeDeleted (conn : Connection) (state : NodeState) : NodeState :=
  { state with topology := state.topology.removeConnection conn }

/-- What an event does; `none` is an exception. -/
def apply (lib : GraphLibrary) (state : NodeState) : NodeEvent → Option NodeState
  | .nodeTimedOut nodeId => applyNodeTimedOut lib nodeId state
  | .nodeGatheredInfo nodeId when info => applyNodeGatheredInfo lib nodeId when info state
  | .topologyEdgeCreated conn => some (applyTopologyEdgeCreated lib conn state)
  | .topologyEdgeDeleted conn => some (applyTopologyEdgeDeleted conn state)
  | .other => some state

end NodeState

/-- The log as it is applied to what is known of the nodes. -/
def nodeMachine (lib : GraphLibrary) : Machine NodeState NodeEvent where
  init := {}
  step state event := state.apply lib event

end Exo
