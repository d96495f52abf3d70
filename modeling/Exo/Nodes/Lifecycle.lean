import Exo.Nodes.State

/-!
# The nodes of the topology and what is known of them

Every node of the topology has been heard of, and everything that is known is known of a node of
the topology. What a node gathers keeps this up. A timeout only does when nothing is left of the
node, and an edge only does when both of its nodes are there: otherwise it brings them back.
-/

namespace Exo

open Lib (Dict Machine)

/-! ## The two models of the state -/

/-- The event as one of the rest of the state. -/
def NodeEvent.body? : NodeEvent → Option EventBody
  | .nodeTimedOut nodeId => some (.nodeTimedOut nodeId)
  | .nodeGatheredInfo nodeId when _ => some (.nodeGatheredInfo nodeId when)
  | .topologyEdgeCreated _ | .topologyEdgeDeleted _ | .other => none

namespace NodeState

variable {lib : GraphLibrary} {s s' : NodeState} {nodeId : NodeId}

/-! ## What the events do to the nodes -/

/-- All that is known is known of these nodes. -/
def mappedNodes (s : NodeState) : List NodeId :=
  s.nodeIdentities.keys ++ s.nodeMemory.keys ++ s.nodeDisk.keys ++ s.nodeSystem.keys
    ++ s.nodeNetwork.keys ++ s.nodeThunderbolt.keys ++ s.nodeThunderboltBridge.keys
    ++ s.nodeRdmaCtl.keys ++ s.nodeBackends.keys

/-- The node lifecycle is consistent. -/
structure Consistent (s : NodeState) : Prop where
  seen : ∀ n, n ∈ s.topology.nodes ↔ n ∈ s.lastSeen.keys
  mapped : ∀ n ∈ s.mappedNodes, n ∈ s.topology.nodes

/--
The event leaves no trace of a node that is not there: a node only times out when neither its
identity nor its backends are known, and an edge is only between nodes that were heard of.
-/
def KeepsNodes (s : NodeState) : NodeEvent → Prop
  | .nodeTimedOut nodeId => nodeId ∉ s.nodeIdentities.keys ∧ nodeId ∉ s.nodeBackends.keys
  | .topologyEdgeCreated conn => conn.source ∈ s.lastSeen.keys ∧ conn.sink ∈ s.lastSeen.keys
  | _ => True

instance (s : NodeState) : (e : NodeEvent) → Decidable (s.KeepsNodes e)
  | .nodeTimedOut nodeId =>
      inferInstanceAs (Decidable (nodeId ∉ s.nodeIdentities.keys ∧ nodeId ∉ s.nodeBackends.keys))
  | .topologyEdgeCreated conn =>
      inferInstanceAs (Decidable (conn.source ∈ s.lastSeen.keys ∧ conn.sink ∈ s.lastSeen.keys))
  | .nodeGatheredInfo .. | .topologyEdgeDeleted _ | .other => isTrue trivial

/-- A domain belongs to a node whose identifiers are known. -/
theorem mem_keys_of_thunderboltConnMap {d : Dict NodeId NodeThunderboltInfo} {uuid : String}
    {entry : NodeId × String} (h : (thunderboltConnMap d).get? uuid = some entry) :
    entry.1 ∈ d.keys := by
  rcases Dict.mem_of_get?_foldl_set h with h | h
  · obtain ⟨⟨nid, info⟩, hmem, h⟩ := List.mem_flatMap.mp h
    obtain ⟨tbIdent, -, h⟩ := List.mem_map.mp h
    obtain ⟨-, rfl⟩ := Prod.mk.injEq .. ▸ h
    exact List.mem_map.mpr ⟨_, hmem, rfl⟩
  · cases h

variable {conns : List ThunderboltConnection}

theorem asRdmaConns_ends {c : Connection}
    (h : c ∈ asRdmaConns nodeId conns s) : c.source = nodeId ∧ c.sink ∈ s.nodeThunderbolt.keys := by
  obtain ⟨tbConn, -, h⟩ := List.mem_filterMap.mp h
  obtain ⟨source, -, h⟩ := Option.bind_eq_some_iff.mp h
  obtain ⟨sink, hsink, h⟩ := Option.bind_eq_some_iff.mp h
  split at h
  · obtain rfl := Option.some.inj h
    exact ⟨rfl, mem_keys_of_thunderboltConnMap hsink⟩
  · cases h

/-- Connections add no nodes but the one they are from and those with known identifiers. -/
theorem mem_nodes_of_replace {t t' : Topology}
    (h : t.replaceAllOutRdmaConnections lib nodeId (asRdmaConns nodeId conns s) = some t')
    (n : NodeId) :
    (n ∈ t.nodes → n ∈ t'.nodes) ∧ (n ∈ t'.nodes → n ∈ t.nodes ∨ n ∈ s.nodeThunderbolt.keys) := by
  unfold Topology.replaceAllOutRdmaConnections at h
  split at h
  · rename_i hnode
    obtain rfl := Option.some.inj h
    refine ⟨fun hn => ((Topology.foldl_addConnection _ _).2 n).mpr (.inl hn), fun hn => ?_⟩
    rcases ((Topology.foldl_addConnection _ _).2 n).mp hn with hn | ⟨c, hc, hn⟩
    · exact .inl hn
    · obtain ⟨hsource, hsink⟩ := asRdmaConns_ends hc
      rcases hn with rfl | rfl
      · exact .inl (hsource ▸ hnode)
      · exact .inr hsink
  · cases h

variable {info : GatheredInfo}

/-- **What information changes.** -/
theorem applyInfo_spec (hs : s.applyInfo lib nodeId info = some s') :
    s'.lastSeen = s.lastSeen
      ∧ (∀ n ∈ s'.mappedNodes, n = nodeId ∨ n ∈ s.mappedNodes)
      ∧ (∀ n ∈ s.topology.nodes, n ∈ s'.topology.nodes)
      ∧ ∀ n ∈ s'.topology.nodes, n ∈ s.topology.nodes ∨ n ∈ s.mappedNodes := by
  cases info with
  | macThunderboltConnections conns =>
      obtain ⟨topology, htopology, rfl⟩ := Option.map_eq_some_iff.mp hs
      have hnodes := mem_nodes_of_replace htopology
      refine ⟨rfl, fun n hn => .inr hn, fun n => (hnodes n).1, fun n hn => ?_⟩
      refine ((hnodes n).2 hn).imp_right fun hn => ?_
      simp [mappedNodes, hn]
  | thunderboltBridgeInfo status =>
      obtain ⟨cycles, -, rfl⟩ := Option.map_eq_some_iff.mp hs
      refine ⟨rfl, fun n hn => ?_, fun n hn => hn, fun n hn => .inl hn⟩
      simp only [mappedNodes, List.mem_append, Dict.mem_keys_set] at hn ⊢
      grind
  | rdmaCtlStatus enabled =>
      obtain rfl := Option.some.inj hs
      have hnodes : (if enabled then s.topology
          else s.topology.removeAllRdmaConnectionsTouching nodeId).nodes = s.topology.nodes := by
        cases enabled <;> rfl
      refine ⟨rfl, fun n hn => ?_, fun n hn => by rw [hnodes]; exact hn,
        fun n hn => .inl (by rw [hnodes] at hn; exact hn)⟩
      simp only [mappedNodes, List.mem_append, Dict.mem_keys_set] at hn ⊢
      grind
  | _ =>
      obtain rfl := Option.some.inj hs
      refine ⟨rfl, fun n hn => ?_, fun n hn => hn, fun n hn => .inl hn⟩
      simp only [mappedNodes, List.mem_append, Dict.mem_keys_set] at hn ⊢
      grind

theorem Consistent.gatheredInfo {time : Time} (h : s.Consistent)
    (hs : applyNodeGatheredInfo lib nodeId time info s = some s') : s'.Consistent := by
  obtain ⟨hseen, hmapped, hkept, hnew⟩ := applyInfo_spec hs
  dsimp only at hseen
  -- the nodes are those from before and the one that spoke
  have hnodes : ∀ n, n ∈ s'.topology.nodes ↔ n = nodeId ∨ n ∈ s.topology.nodes := by
    intro n
    constructor
    · intro hn
      rcases hnew n hn with hn | hn
      · exact (Topology.mem_addNode.1 hn).symm
      · exact .inr (h.mapped n hn)
    · intro hn
      exact hkept n (Topology.mem_addNode.2 hn.symm)
  constructor
  · intro n
    rw [hnodes, hseen, Dict.mem_keys_set, h.seen]
  · intro n hn
    rw [hnodes]
    exact (hmapped n hn).imp_right (h.mapped n)

theorem consistent_timedOut_iff (h : s.Consistent)
    (hs : applyNodeTimedOut lib nodeId s = some s') :
    s'.Consistent ↔ nodeId ∉ s.nodeIdentities.keys ∧ nodeId ∉ s.nodeBackends.keys := by
  obtain ⟨cycles, -, rfl⟩ := Option.map_eq_some_iff.mp hs
  constructor
  · intro h'
    -- what is left of the node is left of a node that is gone
    have hgone : ∀ n, n ∈ s.nodeIdentities.keys ∨ n ∈ s.nodeBackends.keys → n ≠ nodeId := by
      intro n hn
      have hleft := h'.mapped n (by
        simp only [mappedNodes, List.mem_append]
        grind)
      exact (Topology.mem_removeNode.1 hleft).2
    exact ⟨fun hn => hgone nodeId (.inl hn) rfl, fun hn => hgone nodeId (.inr hn) rfl⟩
  · intro ⟨hidentity, hbackends⟩
    constructor
    · intro n
      rw [Topology.mem_removeNode, Dict.mem_keys_erase, h.seen]
    · intro n hn
      rw [Topology.mem_removeNode]
      simp only [mappedNodes, List.mem_append, Dict.mem_keys_erase] at hn
      have hne : n ≠ nodeId := by
        intro heq
        subst heq
        grind
      refine ⟨h.mapped n ?_, hne⟩
      simp only [mappedNodes, List.mem_append]
      grind

theorem consistent_edgeCreated_iff {conn : Connection} (h : s.Consistent) :
    (applyTopologyEdgeCreated lib conn s).Consistent
      ↔ conn.source ∈ s.lastSeen.keys ∧ conn.sink ∈ s.lastSeen.keys := by
  have hnodes (n : NodeId) : n ∈ (applyTopologyEdgeCreated lib conn s).topology.nodes
      ↔ n ∈ s.topology.nodes ∨ n = conn.source ∨ n = conn.sink :=
    Topology.mem_addConnection_nodes
  constructor
  · intro h'
    exact ⟨(h'.seen _).mp ((hnodes _).mpr (.inr (.inl rfl))),
      (h'.seen _).mp ((hnodes _).mpr (.inr (.inr rfl)))⟩
  · intro ⟨hsource, hsink⟩
    constructor
    · intro n
      rw [hnodes, h.seen]
      constructor
      · intro hn
        rcases hn with hn | rfl | rfl
        · exact hn
        · exact hsource
        · exact hsink
      · exact .inl
    · intro n hn
      exact (hnodes n).mpr (.inl (h.mapped n hn))

/-- **An event keeps the nodes consistent exactly when it leaves no trace of a node.** -/
theorem consistent_step_iff {e : NodeEvent} (h : s.Consistent) (hs : s.apply lib e = some s') :
    s'.Consistent ↔ s.KeepsNodes e := by
  cases e with
  | nodeTimedOut nodeId => exact consistent_timedOut_iff h hs
  | nodeGatheredInfo nodeId time info => exact iff_of_true (h.gatheredInfo hs) trivial
  | topologyEdgeCreated conn =>
      obtain rfl := Option.some.inj hs
      exact consistent_edgeCreated_iff h
  | topologyEdgeDeleted conn =>
      obtain rfl := Option.some.inj hs
      exact iff_of_true ⟨h.seen, h.mapped⟩ trivial
  | other =>
      obtain rfl := Option.some.inj hs
      exact iff_of_true h trivial

theorem consistent_init : ({} : NodeState).Consistent :=
  ⟨fun _ => Iff.rfl, fun _ hn => by cases hn⟩

/-- The rest of the state hears of the same nodes. -/
theorem lastSeen_apply {state : State} {e : NodeEvent} {body : EventBody}
    (hseen : s.lastSeen = state.lastSeen) (hbody : e.body? = some body)
    (hs : s.apply lib e = some s') : s'.lastSeen = (body.apply state).lastSeen := by
  cases e with
  | nodeTimedOut nodeId =>
      obtain rfl := Option.some.inj hbody
      obtain ⟨cycles, -, rfl⟩ := Option.map_eq_some_iff.mp hs
      exact congrArg (·.erase nodeId) hseen
  | nodeGatheredInfo nodeId time info =>
      obtain rfl := Option.some.inj hbody
      rw [(applyInfo_spec hs).1]
      exact congrArg (·.set nodeId time) hseen
  | topologyEdgeCreated _ | topologyEdgeDeleted _ | other => cases hbody

end NodeState

/--
**The nodes stay consistent exactly as long as no event leaves a trace of a node that is not
there.**
-/
theorem consistent_throughout_iff {lib : GraphLibrary} {events : List NodeEvent} {s : NodeState}
    (h : (nodeMachine lib).run {} events = some s) :
    (∀ k t, (nodeMachine lib).run {} (events.take k) = some t → t.Consistent)
      ↔ ∀ k e t, events[k]? = some e → (nodeMachine lib).run {} (events.take k) = some t →
        t.KeepsNodes e :=
  Machine.throughout_iff (fun _ _ _ => NodeState.consistent_step_iff) NodeState.consistent_init h

/-- A node is heard of and connected; then it times out. -/
def passingLog : List NodeEvent :=
  [.nodeGatheredInfo 1 0 .nodeConfig,
    .nodeGatheredInfo 2 0 (.memoryUsage ⟨8⟩),
    .topologyEdgeCreated ⟨1, 2, .socket ⟨.ip4, "10.0.0.2", ""⟩⟩,
    .nodeTimedOut 2]

theorem consistent_throughout_passingLog : ∃ s, (nodeMachine .search).run {} passingLog = some s
    ∧ ∀ k t, (nodeMachine .search).run {} (passingLog.take k) = some t → t.Consistent := by
  have hrun : (nodeMachine .search).runWhen NodeState.KeepsNodes {} passingLog = some _ := rfl
  obtain ⟨h, hall⟩ := Machine.runWhen_eq_some.mp hrun
  exact ⟨_, h, (consistent_throughout_iff h).mpr hall⟩

/-- An edge to a node that timed out brings the node back, and it cannot time out again. -/
theorem not_consistent_late_edge : ¬ ∀ events s, (nodeMachine .search).run {} events = some s →
    s.Consistent := by
  intro h
  have hlate := h (passingLog ++
    [.topologyEdgeCreated ⟨1, 2, .socket ⟨.ip4, "10.0.0.2", ""⟩⟩]) _ rfl
  exact absurd ((hlate.seen 2).mp (by decide)) (by decide)

end Exo
