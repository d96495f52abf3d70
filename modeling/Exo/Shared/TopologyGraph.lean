import Exo.Lib.Machine
import Exo.Lib.Multigraph
import Exo.Shared.Topology

/-!
# The topology in its graph

`Topology` keeps a graph of the library, and for each node id the index of its vertex. Here it is
kept that way; `Exo.Topology` is what it is for.

The library hands out indices that are free, and those of what was removed again. What it hands out,
and the order in which it lists things, is chosen anew at every step.
-/

namespace Exo.TopologyGraph

open Lib

structure Topology where
  graph : Multigraph NodeId Edge
  vertexIndices : Dict NodeId Nat

structure TopologySnapshot where
  nodes : List NodeId
  connections : Dict NodeId (Dict NodeId (List Edge))

namespace Topology

def empty : Topology := { graph := .empty, vertexIndices := .empty }

section Operations

variable (rx : Multigraph.Policy NodeId Edge) (t : Topology)

def addNode (nodeId : NodeId) : Topology :=
  if (t.vertexIndices.get? nodeId).isSome then t
  else
    let (graph, rxId) := t.graph.addNode rx nodeId
    { graph, vertexIndices := t.vertexIndices.set nodeId rxId }

def getAllConnectionsBetween (source sink : NodeId) : List Edge :=
  match t.vertexIndices.get? source, t.vertexIndices.get? sink with
  | some srcId, some sinkId => t.graph.edgeDataBetween rx srcId sinkId
  | _, _ => []

/-- The node ids are looked up before `add_node` and in it. -/
def addConnection (conn : Connection) : Option Topology :=
  if conn.edge ∈ t.getAllConnectionsBetween rx conn.source conn.sink then some t
  else
    let t := (t.addNode rx conn.source).addNode rx conn.sink
    do
      let srcId ← t.vertexIndices.get? conn.source
      let sinkId ← t.vertexIndices.get? conn.sink
      let graph ← t.graph.addEdge rx srcId sinkId conn.edge
      pure { t with graph }

def listNodes : List NodeId := t.graph.nodeList rx

/-- The body of the loop of `map_connections`. -/
def mapConnection (base : Dict NodeId (Dict NodeId (List Edge))) (edge : Nat × Nat × Edge) :
    Option (Dict NodeId (Dict NodeId (List Edge))) := do
  let source ← t.graph.nodes.get? edge.1
  let sink ← t.graph.nodes.get? edge.2.1
  let row := (base.get? source).getD .empty
  let connections := (row.get? sink).getD []
  pure (base.set source (row.set sink (connections ++ [edge.2.2])))

def mapConnections : Option (Dict NodeId (Dict NodeId (List Edge))) :=
  (t.graph.edgeList rx).foldlM t.mapConnection .empty

def toSnapshot : Option TopologySnapshot :=
  (t.mapConnections rx).map fun connections => { nodes := t.listNodes rx, connections }

def removeNode (nodeId : NodeId) : Topology :=
  match t.vertexIndices.get? nodeId with
  | none => t
  | some rxIdx =>
    { graph := t.graph.removeNode rxIdx, vertexIndices := t.vertexIndices.erase nodeId }

/-- `self._vertex_indices[source]` raises if there is no such node. -/
def replaceAllOutRdmaConnections (source : NodeId) (newConnections : List Connection) :
    Option Topology := do
  let rxIdx ← t.vertexIndices.get? source
  let graph ← t.graph.removeEdgesWhere Edge.isRdma (t.graph.outEdgeIndices rx rxIdx)
  newConnections.foldlM (fun t conn => t.addConnection rx conn) { t with graph }

def removeAllRdmaConnectionsTouching (nodeId : NodeId) : Option Topology :=
  match t.vertexIndices.get? nodeId with
  | none => some t
  | some rxIdx =>
    let rdmaEdgeIdxs := (t.graph.outEdgeIndices rx rxIdx ++ t.graph.inEdgeIndices rx rxIdx).filter
      fun edgeIdx => (t.graph.edgeData edgeIdx).any Edge.isRdma
    (t.graph.removeEdges rdmaEdgeIdxs).map fun graph => { t with graph }

def removeConnection (conn : Connection) : Option Topology :=
  match t.vertexIndices.get? conn.source, t.vertexIndices.get? conn.sink with
  | some srcId, some sinkId =>
    (t.graph.removeEdgesWhere (· = conn.edge) (t.graph.edgeIndicesBetween rx srcId sinkId)).map
      fun graph => { t with graph }
  | _, _ => some t

end Operations

end Topology

/-- The connections of a snapshot, in the order of its loops. -/
def TopologySnapshot.connectionList (snapshot : TopologySnapshot) : List Connection :=
  snapshot.connections.entries.flatMap fun (source, row) =>
    row.entries.flatMap fun (sink, edges) => edges.map fun edge => { source, sink, edge }

/-- `from_snapshot`. -/
def Topology.fromSnapshot (rx : Multigraph.Policy NodeId Edge) (snapshot : TopologySnapshot) :
    Option Topology :=
  snapshot.connectionList.foldlM (fun t conn => t.addConnection rx conn)
    (snapshot.nodes.foldl (fun t nodeId => t.addNode rx nodeId) .empty)

inductive Operation where
  | addNode (nodeId : NodeId)
  | addConnection (conn : Connection)
  | removeNode (nodeId : NodeId)
  | removeConnection (conn : Connection)
  | replaceAllOutRdmaConnections (source : NodeId) (newConnections : List Connection)
  | removeAllRdmaConnectionsTouching (nodeId : NodeId)

/-- An operation; `none` is an error that it raises. -/
def Topology.apply (t : Topology) (rx : Multigraph.Policy NodeId Edge) : Operation → Option Topology
  | .addNode nodeId => some (t.addNode rx nodeId)
  | .addConnection conn => t.addConnection rx conn
  | .removeNode nodeId => some (t.removeNode nodeId)
  | .removeConnection conn => t.removeConnection rx conn
  | .replaceAllOutRdmaConnections source newConnections =>
    t.replaceAllOutRdmaConnections rx source newConnections
  | .removeAllRdmaConnectionsTouching nodeId => t.removeAllRdmaConnectionsTouching rx nodeId

/-- One operation after the other, each with what the library chooses in it. -/
def machine : Machine Topology (Multigraph.Policy NodeId Edge × Operation) where
  init := .empty
  step t action := t.apply action.1 action.2

/-! ## What a topology should be -/

/-- The vertex indices and the graph agree. -/
structure Rep (t : Topology) : Prop where
  /-- The node ids and the vertices correspond, and a vertex carries its id. -/
  vertex : ∀ nodeId i, t.vertexIndices.get? nodeId = some i ↔ t.graph.nodes.get? i = some nodeId
  /-- Edges are between vertices. -/
  closed : t.graph.Closed
  /-- Equal edges do not join the same pair twice. -/
  simple : ∀ e e' edge, t.graph.edges.get? e = some edge → t.graph.edges.get? e' = some edge → e = e'

/-- The snapshot can be taken and read, and what is read has the same nodes and edges. -/
def RoundTrips (t : Topology) : Prop :=
  ∀ rx rx' : Multigraph.Policy NodeId Edge,
    ∃ snapshot t', t.toSnapshot rx = some snapshot ∧ Topology.fromSnapshot rx' snapshot = some t' ∧
      Rep t' ∧ (∀ nodeId, nodeId ∈ t'.listNodes rx' ↔ nodeId ∈ t.listNodes rx) ∧
        ∀ source sink edge, edge ∈ t'.getAllConnectionsBetween rx' source sink ↔
          edge ∈ t.getAllConnectionsBetween rx source sink

/-- No operation raises, and every topology on the way is what it should be. -/
def Sound (actions : List (Multigraph.Policy NodeId Edge × Operation)) : Prop :=
  (machine.run .empty actions).isSome ∧
    ∀ k t, machine.run .empty (actions.take k) = some t → Rep t ∧ RoundTrips t

/-- The source of a replacement is there, and a node whose RDMA edges are removed has none to
itself. -/
def Operation.Safe (t : Topology) : Operation → Prop
  | .replaceAllOutRdmaConnections source _ => (t.vertexIndices.get? source).isSome
  | .removeAllRdmaConnectionsTouching nodeId =>
    ∀ e i edge, t.vertexIndices.get? nodeId = some i → t.graph.edges.get? e = some (i, i, edge) →
      edge.isRdma = false
  | _ => True

end Exo.TopologyGraph
