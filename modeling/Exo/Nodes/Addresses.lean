import Exo.Nodes.RdmaEdges

/-!
# Addresses and names

A connection to a name has no IP address, and computing the cycles of bridged nodes raises on it.
The workers report addresses only, and with these no event raises.
-/

namespace Exo

open Lib (Dict)

/-- A socket that the edge may be has an IP address. -/
def Edge.Addressed (edge : Edge) : Prop := ∀ m, edge = .socket m → m.ipAddress.isSome

/-- An edge that is created has an address. -/
def NodeEvent.Addressed : NodeEvent → Prop
  | .topologyEdgeCreated conn => conn.edge.Addressed
  | _ => True

instance : (edge : Edge) → Decidable edge.Addressed
  | .socket m => decidable_of_iff (m.ipAddress.isSome = true)
      ⟨fun h m' hm => by cases hm; exact h, fun h => h m rfl⟩
  | .rdma .. => isTrue fun m hm => by cases hm

instance : (e : NodeEvent) → Decidable e.Addressed
  | .topologyEdgeCreated conn => inferInstanceAs (Decidable conn.edge.Addressed)
  | .nodeTimedOut _ | .nodeGatheredInfo .. | .topologyEdgeDeleted _ | .other => isTrue trivial

variable {nodeId : NodeId}

theorem pollConnectionUpdates_addressed {port : Multiaddr → Nat}
    {apiPort : Nat} {edges : List Edge} {reached : List (String × NodeId)}
    {outEdges : List Connection} :
    ∀ e ∈ pollConnectionUpdates port nodeId apiPort edges reached outEdges, e.Addressed := by
  intro e he
  rcases List.mem_append.mp he with he | he
  · obtain ⟨⟨ip, nid⟩, -, he⟩ := List.mem_filterMap.mp he
    dsimp only at he
    split at he
    · cases he
    · obtain rfl := Option.some.inj he
      intro m hm
      obtain rfl := Edge.socket.inj hm
      by_cases hdot : ip.contains '.' <;> simp [Multiaddr.ipAddress, hdot]
  · -- what is deleted may be anything
    obtain ⟨conn, -, he⟩ := List.mem_filterMap.mp he
    cases e with
    | topologyEdgeCreated conn' =>
        exfalso
        cases hedge : conn.edge with
        | rdma sourceRdmaIface sinkRdmaIface => simp [hedge] at he
        | socket sinkMultiaddr =>
            simp only [hedge] at he
            split at he
            · cases he
            · split at he <;> cases he
    | _ => trivial

namespace NodeState

variable {lib : GraphLibrary} {s s' : NodeState} {e : NodeEvent}

/-- All sockets of the topology have addresses. -/
def AllAddressed (s : NodeState) : Prop := ∀ c ∈ s.topology.connections, c.edge.Addressed

theorem getThunderboltBridgeCycles_isSome (lib : GraphLibrary) {t : Topology}
    (h : ∀ c ∈ t.connections, c.edge.Addressed) (status : Dict NodeId ThunderboltBridgeStatus)
    (network : Dict NodeId NodeNetworkInfo) :
    (t.getThunderboltBridgeCycles lib status network).isSome := by
  unfold Topology.getThunderboltBridgeCycles
  dsimp only
  split
  · rfl
  · rw [if_pos]
    · rfl
    · rw [List.all_eq_true]
      intro c hc
      have haddr := h c (List.mem_of_mem_filter hc)
      unfold Connection.overThunderbolt?
      cases hedge : c.edge with
      | socket m => simpa using haddr m hedge
      | rdma sourceRdmaIface sinkRdmaIface => rfl

theorem applyInfo_addressed {info : GatheredInfo} (h : s.AllAddressed)
    (hnode : nodeId ∈ s.topology.nodes) :
    ∃ s', s.applyInfo lib nodeId info = some s' ∧ s'.AllAddressed := by
  cases info with
  | macThunderboltConnections conns =>
      have hreplace : s.topology.replaceAllOutRdmaConnections lib nodeId
          (asRdmaConns nodeId conns s) = some _ := if_pos hnode
      refine ⟨_, by rw [applyInfo, hreplace]; rfl, ?_⟩
      intro c hc
      rcases ((Topology.foldl_addConnection _ _).1 c).mp hc with hc | hc
      · exact h c (Topology.mem_filterConnections.1 hc).1
      · obtain ⟨tbConn, -, hc⟩ := List.mem_filterMap.mp hc
        obtain ⟨source, -, hc⟩ := Option.bind_eq_some_iff.mp hc
        obtain ⟨sink, -, hc⟩ := Option.bind_eq_some_iff.mp hc
        split at hc
        · obtain rfl := Option.some.inj hc
          intro m hm
          cases hm
        · cases hc
  | thunderboltBridgeInfo status =>
      have hcycles := getThunderboltBridgeCycles_isSome lib h
        (s.nodeThunderboltBridge.set nodeId status) s.nodeNetwork
      obtain ⟨cycles, hcycles⟩ := Option.isSome_iff_exists.mp hcycles
      simp only [applyInfo, hcycles]
      split
      · exact ⟨_, rfl, h⟩
      · exact ⟨_, rfl, h⟩
  | rdmaCtlStatus enabled =>
      refine ⟨_, rfl, ?_⟩
      intro c hc
      cases enabled with
      | true => exact h c hc
      | false => exact h c (Topology.mem_filterConnections.1 hc).1
  | _ => exact ⟨_, rfl, h⟩

/-- **With addresses only, no event raises.** -/
theorem apply_addressed (h : s.AllAddressed) (he : e.Addressed) :
    ∃ s', s.apply lib e = some s' ∧ s'.AllAddressed := by
  cases e with
  | nodeTimedOut nodeId =>
      have hleft : ∀ c ∈ (s.topology.removeNode nodeId).connections, c.edge.Addressed :=
        fun c hc => h c (Topology.mem_removeNode_connections.1 hc).1
      have hcycles := getThunderboltBridgeCycles_isSome lib hleft
        (s.nodeThunderboltBridge.erase nodeId) (s.nodeNetwork.erase nodeId)
      obtain ⟨cycles, hcycles⟩ := Option.isSome_iff_exists.mp hcycles
      simp only [apply, applyNodeTimedOut, hcycles]
      split
      · exact ⟨_, rfl, hleft⟩
      · exact ⟨_, rfl, hleft⟩
  | nodeGatheredInfo nodeId time info =>
      refine applyInfo_addressed ?_ (Topology.mem_addNode.2 (.inr rfl))
      intro c hc
      exact h c (by simpa using hc)
  | topologyEdgeCreated conn =>
      refine ⟨_, rfl, fun c hc => ?_⟩
      rcases Topology.mem_addConnection hc with hc | rfl
      · exact h c hc
      · exact he
  | topologyEdgeDeleted conn =>
      exact ⟨_, rfl, fun c hc => h c (Topology.mem_filterConnections.1 hc).1⟩
  | other => exact ⟨_, rfl, h⟩

end NodeState

end Exo
