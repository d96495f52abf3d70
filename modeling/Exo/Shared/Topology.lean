import Mathlib.Data.List.Dedup
import Mathlib.Data.List.Rotate
import Exo.Shared.Types

/-!
# The network as a directed multigraph

The nodes know each other by their connections, sockets and RDMA interfaces, of which there can
be several between two nodes. The graph itself is kept by a library. What depends on how that
library works is a parameter here: the list of simple cycles it finds, and the order in which it
lists parallel edges.
-/

namespace Exo

inductive AddressKind where
  | ip4
  | ip6
  | dns
  deriving DecidableEq, Repr

/-- An address `/kind/host...`; the port and the peer only tell addresses apart. -/
structure Multiaddr where
  kind : AddressKind
  host : String
  rest : String := ""
  deriving DecidableEq, Repr

/-- `ip_address`; `none` is the `ValueError` for a name. -/
def Multiaddr.ipAddress (m : Multiaddr) : Option String :=
  match m.kind with
  | .ip4 | .ip6 => some m.host
  | .dns => none

/-- `SocketConnection | RDMAConnection`. -/
inductive Edge where
  | socket (sinkMultiaddr : Multiaddr)
  | rdma (sourceRdmaIface sinkRdmaIface : String)
  deriving DecidableEq, Repr

/-- `isinstance(conn, RDMAConnection)`. -/
def Edge.isRdma : Edge → Bool
  | .rdma .. => true
  | .socket _ => false

structure Connection where
  source : NodeId
  sink : NodeId
  edge : Edge
  deriving DecidableEq, Repr

/-- A cycle of the topology, by its nodes. -/
structure Cycle where
  nodeIds : List NodeId
  deriving DecidableEq, Repr

structure Topology where
  nodes : List NodeId
  connections : List Connection
  /-- Every node has one vertex. -/
  nodup : nodes.Nodup
  /-- Edges are between vertices. -/
  endpoints : ∀ c ∈ connections, c.source ∈ nodes ∧ c.sink ∈ nodes
  deriving DecidableEq

/-- The graph library. -/
structure GraphLibrary where
  /-- `rx.simple_cycles`. -/
  simpleCycles : Topology → List (List NodeId)
  /-- The order in which parallel edges are listed. -/
  arrange : List Edge → List Edge
  arrange_perm : ∀ l, (arrange l).Perm l

namespace Topology

/-- No nodes yet. -/
def empty : Topology where
  nodes := []
  connections := []
  nodup := List.nodup_nil
  endpoints := by simp

def addNode (t : Topology) (nodeId : NodeId) : Topology :=
  if h : nodeId ∈ t.nodes then t
  else
    { nodes := t.nodes ++ [nodeId]
      connections := t.connections
      nodup := t.nodup.append (List.nodup_singleton _) (by simpa using h)
      endpoints := by
        intro c hc
        have := t.endpoints c hc
        exact ⟨List.mem_append_left _ this.1, List.mem_append_left _ this.2⟩ }

/-- The edges from one node to another. -/
def edgesBetween (t : Topology) (source sink : NodeId) : List Edge :=
  (t.connections.filter fun c => c.source = source ∧ c.sink = sink).map (·.edge)

def getAllConnectionsBetween (lib : GraphLibrary) (t : Topology) (source sink : NodeId) :
    List Edge :=
  lib.arrange (t.edgesBetween source sink)

variable {t : Topology}

variable {n nodeId : NodeId}

theorem mem_addNode :
    n ∈ (t.addNode nodeId).nodes ↔ n ∈ t.nodes ∨ n = nodeId := by
  unfold addNode
  split
  · rename_i h
    constructor
    · exact .inl
    · intro hn
      rcases hn with hn | rfl
      · exact hn
      · exact h
  · simp

@[simp] theorem addNode_connections (t : Topology) (nodeId : NodeId) :
    (t.addNode nodeId).connections = t.connections := by
  unfold addNode
  split <;> rfl

def addConnection (lib : GraphLibrary) (t : Topology) (conn : Connection) : Topology :=
  if conn.edge ∈ t.getAllConnectionsBetween lib conn.source conn.sink then t
  else
    { nodes := ((t.addNode conn.source).addNode conn.sink).nodes
      connections := t.connections ++ [conn]
      nodup := ((t.addNode conn.source).addNode conn.sink).nodup
      endpoints := by
        intro c hc
        simp only [mem_addNode]
        rcases List.mem_append.mp hc with hc | hc
        · have := t.endpoints c hc
          exact ⟨.inl (.inl this.1), .inl (.inl this.2)⟩
        · rw [List.mem_singleton.mp hc]
          exact ⟨.inl (.inr rfl), .inr rfl⟩ }

/-- The topology with some of its connections. -/
def filterConnections (t : Topology) (p : Connection → Bool) : Topology :=
  { t with
    connections := t.connections.filter p
    endpoints := fun c hc => t.endpoints c (List.mem_of_mem_filter hc) }

@[simp] theorem mem_filterConnections {p : Connection → Bool} {c : Connection} :
    c ∈ (t.filterConnections p).connections ↔ c ∈ t.connections ∧ p c :=
  List.mem_filter

/-- The edges of the node go with it. -/
def removeNode (t : Topology) (nodeId : NodeId) : Topology where
  nodes := t.nodes.filter (· ≠ nodeId)
  connections := t.connections.filter fun c => c.source ≠ nodeId ∧ c.sink ≠ nodeId
  nodup := t.nodup.filter _
  endpoints := by
    intro c hc
    obtain ⟨hc, hne⟩ := List.mem_filter.mp hc
    obtain ⟨hsource, hsink⟩ := of_decide_eq_true hne
    obtain ⟨hs, ht⟩ := t.endpoints c hc
    exact ⟨List.mem_filter.mpr ⟨hs, by simpa using hsource⟩,
      List.mem_filter.mpr ⟨ht, by simpa using hsink⟩⟩

@[simp] theorem mem_removeNode :
    n ∈ (t.removeNode nodeId).nodes ↔ n ∈ t.nodes ∧ n ≠ nodeId := by
  simp [removeNode]

@[simp] theorem mem_removeNode_connections {nodeId : NodeId} {c : Connection} :
    c ∈ (t.removeNode nodeId).connections
      ↔ c ∈ t.connections ∧ c.source ≠ nodeId ∧ c.sink ≠ nodeId := by
  simp [removeNode]

/-- `none` is the `KeyError` for a node that is not there. -/
def replaceAllOutRdmaConnections (lib : GraphLibrary) (t : Topology) (source : NodeId)
    (newConnections : List Connection) : Option Topology :=
  if source ∈ t.nodes then
    some (newConnections.foldl (fun t c => t.addConnection lib c)
      (t.filterConnections fun c => ¬ (c.source = source ∧ c.edge.isRdma)))
  else
    none

/-- Remove every RDMA edge incident to a node. -/
def removeAllRdmaConnectionsTouching (t : Topology) (nodeId : NodeId) : Topology :=
  t.filterConnections fun c => ¬ ((c.source = nodeId ∨ c.sink = nodeId) ∧ c.edge.isRdma)

def removeConnection (t : Topology) (conn : Connection) : Topology :=
  t.filterConnections fun c => c ≠ conn

/-- `_graph.neighbors`: the nodes that a node has edges to. -/
def neighbors (t : Topology) (nodeId : NodeId) : List NodeId :=
  ((t.connections.filter fun c => c.source = nodeId).map (·.sink)).dedup

def nodeIsLeaf (t : Topology) (nodeId : NodeId) : Bool :=
  nodeId ∈ t.nodes ∧ (t.neighbors nodeId).length ≤ 1

/-- Simple cycles, and every node for itself. -/
def getCycles (lib : GraphLibrary) (t : Topology) : List Cycle :=
  (lib.simpleCycles t).map (fun nodeIds => ⟨nodeIds⟩) ++ t.nodes.map fun nodeId => ⟨[nodeId]⟩

def getSubgraphFromNodes (lib : GraphLibrary) (t : Topology) (nodeIds : List NodeId) : Topology :=
  let topology := nodeIds.foldl addNode empty
  (t.connections.filter fun c => c.source ∈ nodeIds ∧ c.sink ∈ nodeIds).foldl
    (fun topology c => topology.addConnection lib c) topology

/-- Nodes of the cycle that are connected have an RDMA connection. -/
def isRdmaCycle (lib : GraphLibrary) (t : Topology) (cycle : Cycle) : Bool :=
  cycle.nodeIds.all fun rid =>
    (t.neighbors rid).all fun neighbor =>
      neighbor ∉ cycle.nodeIds ∨ (t.getAllConnectionsBetween lib rid neighbor).any Edge.isRdma

/-! ## Cycles -/

/-- The nodes are different, and each is connected to the next, the last to the first. -/
structure IsSimpleCycle (t : Topology) (l : List NodeId) : Prop where
  ne_nil : l ≠ []
  nodup : l.Nodup
  connected : ∀ i < l.length, ∃ c ∈ t.connections,
    l[i]? = some c.source ∧ l[(i + 1) % l.length]? = some c.sink

/-- What the library finds are the simple cycles, each from one of its nodes on. -/
structure FindsSimpleCycles (lib : GraphLibrary) (t : Topology) : Prop where
  sound : ∀ l ∈ lib.simpleCycles t, t.IsSimpleCycle l
  complete : ∀ l, t.IsSimpleCycle l → ∃ l' ∈ lib.simpleCycles t, l'.IsRotated l

/-- A simple cycle, or a single node. -/
def IsCycle (t : Topology) (l : List NodeId) : Prop :=
  t.IsSimpleCycle l ∨ ∃ n ∈ t.nodes, l = [n]

variable {lib : GraphLibrary} {t : Topology}

variable {l : List NodeId}

theorem IsCycle.nodup (h : t.IsCycle l) : l.Nodup := by
  rcases h with h | ⟨n, -, rfl⟩
  · exact h.nodup
  · exact List.nodup_singleton n

theorem IsCycle.ne_nil (h : t.IsCycle l) : l ≠ [] := by
  rcases h with h | ⟨n, -, rfl⟩
  · exact h.ne_nil
  · exact List.cons_ne_nil n []

theorem isCycle_of_mem_getCycles (hlib : FindsSimpleCycles lib t) {cycle : Cycle}
    (h : cycle ∈ t.getCycles lib) : t.IsCycle cycle.nodeIds := by
  rcases List.mem_append.mp h with h | h
  · obtain ⟨l, hl, rfl⟩ := List.mem_map.mp h
    exact .inl (hlib.sound l hl)
  · obtain ⟨n, hn, rfl⟩ := List.mem_map.mp h
    exact .inr ⟨n, hn, rfl⟩

/-- Every cycle is found, from one of its nodes on. -/
theorem exists_mem_getCycles (hlib : FindsSimpleCycles lib t)
    (h : t.IsCycle l) : ∃ cycle ∈ t.getCycles lib, cycle.nodeIds.Perm l := by
  rcases h with h | ⟨n, hn, rfl⟩
  · obtain ⟨l', hl', hrot⟩ := hlib.complete l h
    exact ⟨⟨l'⟩, List.mem_append_left _ (List.mem_map.mpr ⟨l', hl', rfl⟩), hrot.perm⟩
  · exact ⟨⟨[n]⟩, List.mem_append_right _ (List.mem_map.mpr ⟨n, hn, rfl⟩), List.Perm.refl _⟩

/-! ## What the subgraph keeps -/

theorem mem_getAllConnectionsBetween {source sink : NodeId} {edge : Edge} :
    edge ∈ t.getAllConnectionsBetween lib source sink
      ↔ ⟨source, sink, edge⟩ ∈ t.connections := by
  rw [getAllConnectionsBetween, (lib.arrange_perm _).mem_iff, edgesBetween, List.mem_map]
  constructor
  · intro h
    obtain ⟨c, hc, rfl⟩ := h
    obtain ⟨hmem, hends⟩ := List.mem_filter.mp hc
    obtain ⟨rfl, rfl⟩ := of_decide_eq_true hends
    exact hmem
  · intro h
    exact ⟨_, List.mem_filter.mpr ⟨h, by simp⟩, rfl⟩

variable {conn c : Connection}

theorem mem_addConnection (h : c ∈ (t.addConnection lib conn).connections) :
    c ∈ t.connections ∨ c = conn := by
  unfold addConnection at h
  split at h
  · exact .inl h
  · simpa using h

/-- All that a connection adds are its ends. -/
theorem mem_addConnection_nodes {conn : Connection} {n : NodeId} :
    n ∈ (t.addConnection lib conn).nodes ↔ n ∈ t.nodes ∨ n = conn.source ∨ n = conn.sink := by
  unfold addConnection
  split
  · -- the edge is there already
    rename_i h
    obtain ⟨hsource, hsink⟩ := t.endpoints _ (mem_getAllConnectionsBetween.1 h)
    constructor
    · exact .inl
    · intro hn
      rcases hn with hn | rfl | rfl
      · exact hn
      · exact hsource
      · exact hsink
  · simp only [mem_addNode]
    tauto

theorem mem_addConnection_iff :
    c ∈ (t.addConnection lib conn).connections ↔ c ∈ t.connections ∨ c = conn := by
  unfold addConnection
  split
  · rename_i h
    have hmem := mem_getAllConnectionsBetween.1 h
    constructor
    · exact .inl
    · intro hc
      rcases hc with hc | rfl
      · exact hc
      · exact hmem
  · simp

/-- The connections and the nodes after connections were added one by one. -/
theorem foldl_addConnection (conns : List Connection) (t : Topology) :
    (∀ c, c ∈ (conns.foldl (fun t c => t.addConnection lib c) t).connections
        ↔ c ∈ t.connections ∨ c ∈ conns)
      ∧ ∀ n, n ∈ (conns.foldl (fun t c => t.addConnection lib c) t).nodes
        ↔ n ∈ t.nodes ∨ ∃ c ∈ conns, n = c.source ∨ n = c.sink := by
  induction conns generalizing t with
  | nil => simp
  | cons conn conns ih =>
      obtain ⟨hconns, hnodes⟩ := ih (t.addConnection lib conn)
      refine ⟨fun c => ?_, fun n => ?_⟩
      · rw [List.foldl_cons, hconns, mem_addConnection_iff, List.mem_cons, or_assoc]
      · rw [List.foldl_cons, hnodes, mem_addConnection_nodes, or_assoc]
        simp only [List.mem_cons, exists_eq_or_imp]

/-- A connection adds no node when its ends are there. -/
theorem addConnection_nodes {conn : Connection} (hsource : conn.source ∈ t.nodes)
    (hsink : conn.sink ∈ t.nodes) : (t.addConnection lib conn).nodes = t.nodes := by
  have hadd : ∀ n ∈ t.nodes, t.addNode n = t := by
    intro n hn
    rw [addNode, dif_pos hn]
  unfold addConnection
  split
  · rfl
  · have hboth : ((t.addNode conn.source).addNode conn.sink).nodes = t.nodes := by
      rw [hadd _ hsource, hadd _ hsink]
    exact hboth

variable {nodeIds : List NodeId}

/-- The nodes that were added one by one. -/
theorem foldl_addNode_nodes (hnodup : nodeIds.Nodup) (t : Topology)
    (hnew : ∀ n ∈ nodeIds, n ∉ t.nodes) : (nodeIds.foldl addNode t).nodes = t.nodes ++ nodeIds := by
  induction nodeIds generalizing t with
  | nil => simp
  | cons n nodeIds ih =>
      obtain ⟨hn, hnodup⟩ := List.nodup_cons.mp hnodup
      have hadd : (t.addNode n).nodes = t.nodes ++ [n] := by
        rw [addNode, dif_neg (hnew n List.mem_cons_self)]
      rw [List.foldl_cons, ih hnodup _ ?_, hadd, List.append_assoc, List.singleton_append]
      intro m hm
      rw [hadd, List.mem_append, List.mem_singleton]
      intro hmem
      rcases hmem with hmem | rfl
      · exact hnew m (List.mem_cons_of_mem _ hm) hmem
      · exact hn hm

/-- **The subgraph has the nodes it is asked for and some of the connections.** -/
theorem getSubgraphFromNodes_spec (hnodup : nodeIds.Nodup) :
    (t.getSubgraphFromNodes lib nodeIds).nodes = nodeIds
      ∧ ∀ c ∈ (t.getSubgraphFromNodes lib nodeIds).connections, c ∈ t.connections := by
  have hstart : (nodeIds.foldl addNode empty).nodes = nodeIds := by
    rw [foldl_addNode_nodes hnodup empty fun n _ => List.not_mem_nil]
    rfl
  have hnone : (nodeIds.foldl addNode empty).connections = [] := by
    have : ∀ (l : List NodeId) (t : Topology), (l.foldl addNode t).connections
        = t.connections := by
      intro l
      induction l with
      | nil => exact fun t => rfl
      | cons n l ih =>
          intro t
          rw [List.foldl_cons, ih, addNode_connections]
    exact this nodeIds empty
  have hloop : ∀ (l : List Connection) (s : Topology), s.nodes = nodeIds →
      (∀ c ∈ l, c ∈ t.connections ∧ c.source ∈ nodeIds ∧ c.sink ∈ nodeIds) →
      (∀ c ∈ s.connections, c ∈ t.connections) →
      (l.foldl (fun s c => s.addConnection lib c) s).nodes = nodeIds
        ∧ ∀ c ∈ (l.foldl (fun s c => s.addConnection lib c) s).connections,
          c ∈ t.connections := by
    intro l
    induction l with
    | nil => exact fun s hs _ hc => ⟨hs, hc⟩
    | cons c l ih =>
        intro s hs hl hc
        obtain ⟨hmem, hsource, hsink⟩ := hl c List.mem_cons_self
        rw [List.foldl_cons]
        refine ih _ ?_ (fun c' hc' => hl c' (List.mem_cons_of_mem _ hc')) ?_
        · rw [addConnection_nodes (hs ▸ hsource) (hs ▸ hsink), hs]
        · intro c' hc'
          rcases mem_addConnection hc' with hc' | rfl
          · exact hc c' hc'
          · exact hmem
  refine hloop _ _ hstart ?_ ?_
  · intro c hc
    obtain ⟨hmem, hends⟩ := List.mem_filter.mp hc
    obtain ⟨hsource, hsink⟩ := of_decide_eq_true hends
    exact ⟨hmem, hsource, hsink⟩
  · rw [hnone]
    intro c hc
    cases hc

/-! ## A library that searches -/

instance (t : Topology) (l : List NodeId) : Decidable (t.IsSimpleCycle l) :=
  decidable_of_iff (l ≠ [] ∧ l.Nodup ∧ ∀ i < l.length, ∃ c ∈ t.connections,
      l[i]? = some c.source ∧ l[(i + 1) % l.length]? = some c.sink)
    ⟨fun h => ⟨h.1, h.2.1, h.2.2⟩, fun h => ⟨h.ne_nil, h.nodup, h.connected⟩⟩

/-- The lists of at most `n` nodes. -/
def nodeLists (nodes : List NodeId) : Nat → List (List NodeId)
  | 0 => [[]]
  | n + 1 => [] :: nodes.flatMap fun v => (nodeLists nodes n).map (v :: ·)

theorem mem_nodeLists {nodes : List NodeId} {n : Nat} (hlen : l.length ≤ n)
    (hmem : ∀ v ∈ l, v ∈ nodes) : l ∈ nodeLists nodes n := by
  induction n generalizing l with
  | zero =>
      rw [List.length_eq_zero_iff.mp (Nat.le_zero.mp hlen)]
      exact List.mem_singleton.mpr rfl
  | succ n ih =>
      cases l with
      | nil => exact List.mem_cons_self
      | cons v l =>
          have htail : l ∈ nodeLists nodes n :=
            ih (Nat.le_of_succ_le_succ hlen) fun u hu => hmem u (List.mem_cons_of_mem _ hu)
          refine List.mem_cons_of_mem _ (List.mem_flatMap.mpr ⟨v, hmem v List.mem_cons_self, ?_⟩)
          exact List.mem_map.mpr ⟨l, htail, rfl⟩

/-- The nodes of a cycle are nodes of the topology. -/
theorem IsSimpleCycle.mem_nodes (h : t.IsSimpleCycle l) :
    ∀ v ∈ l, v ∈ t.nodes := by
  intro v hv
  obtain ⟨i, hi⟩ := List.mem_iff_getElem?.mp hv
  obtain ⟨hlt, -⟩ := List.getElem?_eq_some_iff.mp hi
  obtain ⟨c, hc, hsource, -⟩ := h.connected i hlt
  rw [hi] at hsource
  rw [Option.some.inj hsource]
  exact (t.endpoints c hc).1

end Topology

/-- Tries all lists of nodes. -/
def GraphLibrary.search : GraphLibrary where
  simpleCycles t :=
    (Topology.nodeLists t.nodes t.nodes.length).filter fun l => t.IsSimpleCycle l
  arrange := id
  arrange_perm := List.Perm.refl

theorem GraphLibrary.search_findsSimpleCycles (t : Topology) :
    t.FindsSimpleCycles GraphLibrary.search where
  sound l hl := by simpa using (List.mem_filter.mp hl).2
  complete l hl := by
    have hlen : l.length ≤ t.nodes.length :=
      (List.subperm_of_subset hl.nodup hl.mem_nodes).length_le
    refine ⟨l, List.mem_filter.mpr ⟨?_, by simpa using hl⟩, List.IsRotated.refl l⟩
    exact Topology.mem_nodeLists hlen hl.mem_nodes

end Exo
