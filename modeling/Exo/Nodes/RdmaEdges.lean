import Exo.Nodes.State

/-!
# RDMA edges and rdma_ctl

An RDMA connection stands in the topology only while `rdma_ctl` is enabled on both of its nodes:
it is put there when it is, it goes when one of the nodes disables it or times out, and the
workers report sockets only.
-/

namespace Exo

open Lib (Dict Machine)

/-! ## What the workers report -/

/-- An edge event is about a socket. -/
def NodeEvent.CarriesSocket : NodeEvent → Prop
  | .topologyEdgeCreated conn => conn.edge.isRdma = false
  | .topologyEdgeDeleted conn => conn.edge.isRdma = false
  | _ => True

instance : (e : NodeEvent) → Decidable e.CarriesSocket
  | .topologyEdgeCreated conn => inferInstanceAs (Decidable (conn.edge.isRdma = false))
  | .topologyEdgeDeleted conn => inferInstanceAs (Decidable (conn.edge.isRdma = false))
  | .nodeTimedOut _ | .nodeGatheredInfo .. | .other => isTrue trivial

/-- The edge for an address that answered. -/
def reachedEdge (apiPort : Nat) (ip : String) : Edge :=
  .socket
    { kind := if ip.contains '.' then .ip4 else .ip6
      host := ip
      rest := "/tcp/" ++ toString apiPort }

/--
One round of `_poll_connection_updates`: the edges there were when it began, what answered, and
the connections of the node when the answers are in. The port of an address is read off by `port`.
-/
def pollConnectionUpdates (port : Multiaddr → Nat) (nodeId : NodeId) (apiPort : Nat)
    (edges : List Edge) (reached : List (String × NodeId)) (outEdges : List Connection) :
    List NodeEvent :=
  (reached.dedup.filterMap fun (ip, nid) =>
      if reachedEdge apiPort ip ∈ edges then none
      else some (.topologyEdgeCreated ⟨nodeId, nid, reachedEdge apiPort ip⟩))
    ++ outEdges.filterMap fun conn =>
      match conn.edge with
      | .rdma .. => none
      | .socket sinkMultiaddr =>
          if port sinkMultiaddr ≠ apiPort then none
          else if (sinkMultiaddr.host, conn.sink) ∈ reached then none
          else some (.topologyEdgeDeleted conn)

theorem pollConnectionUpdates_carriesSocket {port : Multiaddr → Nat} {nodeId : NodeId}
    {apiPort : Nat} {edges : List Edge} {reached : List (String × NodeId)}
    {outEdges : List Connection} :
    ∀ e ∈ pollConnectionUpdates port nodeId apiPort edges reached outEdges, e.CarriesSocket := by
  intro e he
  rcases List.mem_append.mp he with he | he
  · obtain ⟨⟨ip, nid⟩, -, he⟩ := List.mem_filterMap.mp he
    dsimp only at he
    split at he
    · cases he
    · obtain rfl := Option.some.inj he
      rfl
  · obtain ⟨conn, -, he⟩ := List.mem_filterMap.mp he
    cases hedge : conn.edge with
    | rdma sourceRdmaIface sinkRdmaIface => simp [hedge] at he
    | socket sinkMultiaddr =>
        have hconn : NodeEvent.topologyEdgeDeleted conn = e := by
          simp only [hedge] at he
          split at he
          · cases he
          · split at he
            · cases he
            · exact Option.some.inj he
        rw [← hconn, NodeEvent.CarriesSocket, hedge]
        rfl

/-! ## The invariant -/

/-- Both nodes of every RDMA connection have `rdma_ctl` enabled. -/
def NodeState.RdmaEnabled (s : NodeState) : Prop :=
  ∀ c ∈ s.topology.connections, c.edge.isRdma →
    isRdmaCtlEnabled c.source s.nodeRdmaCtl ∧ isRdmaCtlEnabled c.sink s.nodeRdmaCtl

namespace NodeState

variable {lib : GraphLibrary} {s s' : NodeState} {nodeId : NodeId}

theorem isRdmaCtlEnabled_erase_ne {d : Dict NodeId NodeRdmaCtlStatus} {n : NodeId}
    (h : n ≠ nodeId) : isRdmaCtlEnabled n (d.erase nodeId) = isRdmaCtlEnabled n d := by
  rw [isRdmaCtlEnabled, isRdmaCtlEnabled, d.get?_erase_ne h]

theorem isRdmaCtlEnabled_set (d : Dict NodeId NodeRdmaCtlStatus) (n : NodeId) (enabled : Bool) :
    isRdmaCtlEnabled n (d.set nodeId ⟨enabled⟩)
      = if n = nodeId then enabled else isRdmaCtlEnabled n d := by
  rw [isRdmaCtlEnabled, isRdmaCtlEnabled, Dict.get?_set]
  by_cases h : n = nodeId
  · rw [if_pos h, if_pos h]
  · rw [if_neg h, if_neg h]

variable {conns : List ThunderboltConnection}

/-- The connections that a node reports are between enabled nodes. -/
theorem asRdmaConns_enabled {c : Connection}
    (h : c ∈ asRdmaConns nodeId conns s) :
    isRdmaCtlEnabled c.source s.nodeRdmaCtl ∧ isRdmaCtlEnabled c.sink s.nodeRdmaCtl := by
  obtain ⟨tbConn, -, h⟩ := List.mem_filterMap.mp h
  obtain ⟨source, -, h⟩ := Option.bind_eq_some_iff.mp h
  obtain ⟨sink, -, h⟩ := Option.bind_eq_some_iff.mp h
  split at h
  · rename_i henabled
    obtain rfl := Option.some.inj h
    exact henabled
  · cases h

theorem RdmaEnabled.timedOut (h : s.RdmaEnabled) (hs : applyNodeTimedOut lib nodeId s = some s') :
    s'.RdmaEnabled := by
  obtain ⟨cycles, -, rfl⟩ := Option.map_eq_some_iff.mp hs
  intro c hc hrdma
  obtain ⟨hc, hsource, hsink⟩ := Topology.mem_removeNode_connections.1 hc
  dsimp only
  rw [isRdmaCtlEnabled_erase_ne hsource, isRdmaCtlEnabled_erase_ne hsink]
  exact h c hc hrdma

/-- New connections take the place of the old ones of a node. -/
theorem RdmaEnabled.connections (h : s.RdmaEnabled)
    (hs : s.applyInfo lib nodeId (.macThunderboltConnections conns) = some s') :
    s'.RdmaEnabled := by
  obtain ⟨topology, htopology, rfl⟩ := Option.map_eq_some_iff.mp hs
  unfold Topology.replaceAllOutRdmaConnections at htopology
  split at htopology
  · obtain rfl := Option.some.inj htopology
    intro c hc hrdma
    rcases ((Topology.foldl_addConnection _ _).1 c).mp hc with hc | hc
    · exact h c (Topology.mem_filterConnections.1 hc).1 hrdma
    · exact asRdmaConns_enabled hc
  · cases htopology

theorem RdmaEnabled.rdmaCtl (h : s.RdmaEnabled) (enabled : Bool)
    (hs : s.applyInfo lib nodeId (.rdmaCtlStatus enabled) = some s') : s'.RdmaEnabled := by
  obtain rfl := Option.some.inj hs
  intro c hc hrdma
  dsimp only
  rw [isRdmaCtlEnabled_set, isRdmaCtlEnabled_set]
  cases enabled with
  | true =>
      obtain ⟨hsource, hsink⟩ := h c hc hrdma
      simp [hsource, hsink]
  | false =>
      -- what is left does not touch the node
      obtain ⟨hc, hleft⟩ := Topology.mem_filterConnections.1 hc
      have hends : c.source ≠ nodeId ∧ c.sink ≠ nodeId := by
        simp only [hrdma, and_true, not_or, decide_eq_true_eq] at hleft
        exact hleft
      rw [if_neg hends.1, if_neg hends.2]
      exact h c hc hrdma

theorem RdmaEnabled.gatheredInfo {time : Time} {info : GatheredInfo} (h : s.RdmaEnabled)
    (hs : applyNodeGatheredInfo lib nodeId time info s = some s') : s'.RdmaEnabled := by
  unfold applyNodeGatheredInfo at hs
  have hseen : RdmaEnabled { s with
      topology := s.topology.addNode nodeId, lastSeen := s.lastSeen.set nodeId time } := by
    intro c hc
    exact h c (by simpa using hc)
  cases info with
  | macThunderboltConnections conns => exact hseen.connections hs
  | rdmaCtlStatus enabled => exact hseen.rdmaCtl enabled hs
  | thunderboltBridgeInfo status =>
      obtain ⟨cycles, -, rfl⟩ := Option.map_eq_some_iff.mp hs
      exact hseen
  | _ =>
      obtain rfl := Option.some.inj hs
      exact hseen

theorem RdmaEnabled.step {e : NodeEvent} (h : s.RdmaEnabled) (he : e.CarriesSocket)
    (hs : s.apply lib e = some s') : s'.RdmaEnabled := by
  cases e with
  | nodeTimedOut nodeId => exact h.timedOut hs
  | nodeGatheredInfo nodeId time info => exact h.gatheredInfo hs
  | topologyEdgeCreated conn =>
      obtain rfl := Option.some.inj hs
      intro c hc hrdma
      rcases Topology.mem_addConnection hc with hc | rfl
      · exact h c hc hrdma
      · rw [he] at hrdma
        cases hrdma
  | topologyEdgeDeleted conn =>
      obtain rfl := Option.some.inj hs
      intro c hc hrdma
      exact h c (Topology.mem_filterConnections.1 hc).1 hrdma
  | other =>
      obtain rfl := Option.some.inj hs
      exact h

end NodeState

/-- **RDMA edges never outlive rdma_ctl.** -/
theorem rdmaEnabled_of_run {lib : GraphLibrary} {events : List NodeEvent} {s : NodeState}
    (hevents : ∀ e ∈ events, e.CarriesSocket) (h : (nodeMachine lib).run {} events = some s) :
    s.RdmaEnabled := by
  have hreach : (nodeMachine lib).ReachableWhen (fun _ e => e.CarriesSocket) s := by
    refine Machine.reachableWhen_of_run (Machine.runWhen_eq_some.mpr ⟨h, ?_⟩)
    intro k e t hk _
    exact hevents e (List.mem_of_getElem? hk)
  refine hreach.invariant ?_ fun s e s' hinv he hs => hinv.step he hs
  intro c hc
  cases hc

/-- Two nodes enable RDMA, and the first one is connected to the second. -/
def rdmaLog : List NodeEvent :=
  [.nodeGatheredInfo 1 0 (.rdmaCtlStatus true),
    .nodeGatheredInfo 2 0 (.rdmaCtlStatus true),
    .nodeGatheredInfo 1 0 (.macThunderboltIdentifiers [⟨"rdma_en2", "a", ""⟩]),
    .nodeGatheredInfo 2 0 (.macThunderboltIdentifiers [⟨"rdma_en3", "b", ""⟩]),
    .nodeGatheredInfo 1 0 (.macThunderboltConnections [⟨"a", "b"⟩])]

theorem rdmaEnabled_of_run_rdmaLog : ∃ s, (nodeMachine .search).run {} rdmaLog = some s
    ∧ s.topology.connections = [⟨1, 2, .rdma "rdma_en2" "rdma_en3"⟩] ∧ s.RdmaEnabled := by
  have hrun : (nodeMachine .search).run {} rdmaLog = some _ := rfl
  exact ⟨_, hrun, rfl, rdmaEnabled_of_run (by decide) hrun⟩

end Exo
