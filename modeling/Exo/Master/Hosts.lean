import Mathlib.Data.List.MinMax
import Exo.Master.Sharding

/-!
# How the nodes of an instance reach each other

The tables that an instance carries are read off the connections between its nodes: for Jaccl
the RDMA interface from every rank to every other and the address of rank 0, for a ring the
addresses of both neighbours.
-/

namespace Exo

open Lib

inductive InterfaceType where
  | wifi
  | ethernet
  | maybeEthernet
  | thunderbolt
  | unknown
  deriving DecidableEq, Repr

structure NetworkInterfaceInfo where
  ipAddress : String
  interfaceType : InterfaceType := .unknown
  deriving DecidableEq, Repr

structure NodeNetworkInfo where
  interfaces : List NetworkInterfaceInfo := []
  deriving DecidableEq, Repr

structure Host where
  ip : String
  port : Nat
  deriving DecidableEq, Repr

/-- `conn.source_rdma_iface` of the first RDMA connection. -/
def firstRdmaIface (edges : List Edge) : Option String :=
  edges.findSome? fun
    | .rdma sourceRdmaIface _ => some sourceRdmaIface
    | .socket _ => none

/-- The cell of row `i` and column `j`. -/
def jacclDevice (lib : GraphLibrary) (cycleDigraph : Topology) (i j : Nat × NodeId) :
    Except PlacementError (Option String) :=
  if i.1 = j.1 then .ok none
  else
    match firstRdmaIface (cycleDigraph.getAllConnectionsBetween lib i.2 j.2) with
    | some iface => .ok (some iface)
    | none => .error .jacclNeedsAllToAll

def getMlxJacclDevicesMatrix (lib : GraphLibrary) (selectedCycle : List NodeId)
    (cycleDigraph : Topology) : Except PlacementError (List (List (Option String))) :=
  (enumerate selectedCycle).mapM fun i =>
    (enumerate selectedCycle).mapM fun j => jacclDevice lib cycleDigraph i j

/-- The addresses of the sockets among some edges. -/
def socketIps : List Edge → Except PlacementError (List String)
  | [] => .ok []
  | .rdma .. :: edges => socketIps edges
  | .socket sinkMultiaddr :: edges =>
      match sinkMultiaddr.ipAddress with
      | some ip => do
          let ips ← socketIps edges
          return ip :: ips
      | none => .error .invalidMultiaddr

/-- `_find_connection_ip`. -/
def findConnectionIp (lib : GraphLibrary) (nodeI nodeJ : NodeId) (cycleDigraph : Topology) :
    Except PlacementError (List String) :=
  socketIps (cycleDigraph.getAllConnectionsBetween lib nodeI nodeJ)

/-- The priorities of interface types; a ring wants the fastest, Jaccl an ethernet coordinator. -/
def InterfaceType.priority (ring : Bool) : InterfaceType → Nat
  | .thunderbolt => if ring then 0 else 4
  | .maybeEthernet => if ring then 1 else 3
  | .ethernet => if ring then 2 else 0
  | .wifi => if ring then 3 else 1
  | .unknown => if ring then 4 else 2

/-- `ip_to_type.get(ip, "unknown")`; the last interface with an address tells its type. -/
def interfaceTypeOf (network : NodeNetworkInfo) (ip : String) : InterfaceType :=
  ((network.interfaces.reverse.find? fun iface => iface.ipAddress = ip).map
    (·.interfaceType)).getD .unknown

def findIpPrioritised (lib : GraphLibrary) (nodeId otherNodeId : NodeId) (cycleDigraph : Topology)
    (nodeNetwork : Dict NodeId NodeNetworkInfo) (ring : Bool) :
    Except PlacementError (Option String) := do
  let ips ← findConnectionIp lib nodeId otherNodeId cycleDigraph
  let otherNetwork := (nodeNetwork.get? otherNodeId).getD {}
  return ips.argmin fun ip => (interfaceTypeOf otherNetwork ip).priority ring

/-- What a node puts at the position of another one. -/
def ringHost (lib : GraphLibrary) (cycleDigraph : Topology) (ephemeralPort : Nat)
    (nodeNetwork : Dict NodeId NodeNetworkInfo) (worldSize : Nat) (self other : Nat × NodeId) :
    Except PlacementError Host :=
  if other.1 = self.1 then .ok ⟨"0.0.0.0", ephemeralPort⟩
  else if other.1 ≠ (self.1 + worldSize - 1) % worldSize
      ∧ other.1 ≠ (self.1 + 1) % worldSize then
    .ok ⟨"198.51.100.1", 0⟩
  else do
    let connectionIp ← findIpPrioritised lib self.2 other.2 cycleDigraph nodeNetwork true
    match connectionIp with
    | some ip => .ok ⟨ip, ephemeralPort⟩
    | none => .error .ringNeedsConnectivity

/-- The hosts of a node, in the order of the ranks. -/
def ringHosts (lib : GraphLibrary) (selectedCycle : List NodeId) (cycleDigraph : Topology)
    (ephemeralPort : Nat) (nodeNetwork : Dict NodeId NodeNetworkInfo) (self : Nat × NodeId) :
    Except PlacementError (List Host) :=
  (enumerate selectedCycle).mapM
    (ringHost lib cycleDigraph ephemeralPort nodeNetwork selectedCycle.length self)

def getMlxRingHostsByNode (lib : GraphLibrary) (selectedCycle : List NodeId)
    (cycleDigraph : Topology) (ephemeralPort : Nat)
    (nodeNetwork : Dict NodeId NodeNetworkInfo) :
    Except PlacementError (Dict NodeId (List Host)) :=
  fillM Prod.snd (ringHosts lib selectedCycle cycleDigraph ephemeralPort nodeNetwork)
    (enumerate selectedCycle) .empty

/-- `get_ip_for_node`. -/
def coordinatorIp (lib : GraphLibrary) (coordinator : NodeId) (cycleDigraph : Topology)
    (nodeNetwork : Dict NodeId NodeNetworkInfo) (n : NodeId) : Except PlacementError String :=
  if n = coordinator then .ok "0.0.0.0"
  else do
    let ip ← findIpPrioritised lib n coordinator cycleDigraph nodeNetwork false
    match ip with
    | some ip => .ok ip
    | none => .error .jacclNeedsCommunication

def getMlxJacclCoordinators (lib : GraphLibrary) (coordinator : NodeId) (coordinatorPort : Nat)
    (cycleDigraph : Topology) (nodeNetwork : Dict NodeId NodeNetworkInfo) :
    Except PlacementError (Dict NodeId String) :=
  fillM id (fun n => do
    let ip ← coordinatorIp lib coordinator cycleDigraph nodeNetwork n
    return ip ++ ":" ++ toString coordinatorPort) cycleDigraph.nodes .empty

end Exo
