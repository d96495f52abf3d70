import Exo.Shared.TopologyGraph

/-!
# What the operations on a topology keep

The vertex indices and the graph always agree. An operation fails only where it looks for a node
that is not there, or for an edge that it has removed. What a snapshot says is what the graph has, by
node ids, and reading it adds just that.
-/

namespace Exo.TopologyGraph

open Lib

variable {r : Multigraph.Policy NodeId Edge} {t t' : Topology}

/-- The topology has this connection. -/
def HasEdge (t : Topology) (conn : Connection) : Prop :=
  ∃ e i j, t.graph.nodes.get? i = some conn.source ∧ t.graph.nodes.get? j = some conn.sink ∧
    t.graph.edges.get? e = some (i, j, conn.edge)

/-- The topology has this node. -/
def HasNode (t : Topology) (nodeId : NodeId) : Prop := (t.vertexIndices.get? nodeId).isSome

theorem Rep.empty : Rep .empty where
  vertex _ _ := iff_of_false nofun nofun
  closed _ _ h := by cases h
  simple _ _ _ h := by cases h

theorem Rep.mem_listNodes (h : Rep t) (nodeId : NodeId) :
    nodeId ∈ t.listNodes r ↔ HasNode t nodeId := by
  rw [Topology.listNodes, Multigraph.mem_nodeList, HasNode, Option.isSome_iff_exists]
  exact exists_congr fun i => (h.vertex nodeId i).symm

theorem Rep.mem_getAllConnectionsBetween (h : Rep t) (conn : Connection) :
    conn.edge ∈ t.getAllConnectionsBetween r conn.source conn.sink ↔ HasEdge t conn := by
  simp only [HasEdge, ← h.vertex]
  unfold Topology.getAllConnectionsBetween
  cases t.vertexIndices.get? conn.source with
  | none => simp
  | some i =>
      cases t.vertexIndices.get? conn.sink with
      | none => simp
      | some j => simp [Multigraph.mem_edgeDataBetween]

variable {conn : Connection}

theorem Rep.hasNode_of_hasEdge (h : Rep t) (he : HasEdge t conn) :
    HasNode t conn.source ∧ HasNode t conn.sink := by
  obtain ⟨e, i, j, hi, hj, -⟩ := he
  exact ⟨Option.isSome_iff_exists.mpr ⟨i, (h.vertex _ _).mpr hi⟩,
    Option.isSome_iff_exists.mpr ⟨j, (h.vertex _ _).mpr hj⟩⟩

/-! ## Adding -/

variable {nodeId : NodeId}

theorem addNode_of_hasNode (h : HasNode t nodeId) :
    t.addNode r nodeId = t := if_pos h

theorem addNode_of_not_hasNode (h : ¬ HasNode t nodeId) :
    t.addNode r nodeId =
      { graph := (t.graph.addNode r nodeId).1
        vertexIndices := t.vertexIndices.set nodeId (r.freeNode t.graph) } := if_neg h

theorem hasNode_addNode {nodeId m : NodeId} :
    HasNode (t.addNode r nodeId) m ↔ HasNode t m ∨ m = nodeId := by
  by_cases h : HasNode t nodeId
  · rw [addNode_of_hasNode h]
    exact (or_iff_left_of_imp fun hm => hm ▸ h).symm
  · rw [addNode_of_not_hasNode h]
    simp only [HasNode, Dict.get?_set]
    by_cases hm : m = nodeId <;> simp [hm]

theorem Rep.addNode (h : Rep t) (nodeId : NodeId) : Rep (t.addNode r nodeId) := by
  by_cases hmem : HasNode t nodeId
  · rwa [addNode_of_hasNode hmem]
  rw [addNode_of_not_hasNode hmem]
  have hfree := r.freeNode_free t.graph
  have hnew : t.vertexIndices.get? nodeId = none := Option.not_isSome_iff_eq_none.mp hmem
  refine ⟨fun m i => ?_, fun e edge he => ?_, h.simple⟩
  · simp only [Multigraph.addNode, Dict.get?_set]
    by_cases hm : m = nodeId <;> by_cases hi : i = r.freeNode t.graph
    · simp [hm, hi]
    · subst hm
      simp only [if_neg hi, if_true, ← h.vertex, hnew]
      simp [Ne.symm hi]
    · subst hi
      simp only [if_neg hm, if_true, h.vertex, hfree]
      simp [Ne.symm hm]
    · rw [if_neg hm, if_neg hi]
      exact h.vertex m i
  · obtain ⟨hsource, hsink⟩ := h.closed e edge he
    constructor <;> simp only [Multigraph.addNode, Dict.get?_set] <;> split <;> simp_all

theorem Rep.hasEdge_addNode (h : Rep t) :
    HasEdge (t.addNode r nodeId) conn ↔ HasEdge t conn := by
  by_cases hmem : HasNode t nodeId
  · rw [addNode_of_hasNode hmem]
  rw [addNode_of_not_hasNode hmem]
  have hfree := r.freeNode_free t.graph
  refine exists_congr fun e => exists_congr fun i => exists_congr fun j => ?_
  simp only [Multigraph.addNode, ← and_assoc]
  refine and_congr_left fun he => ?_
  obtain ⟨hi, hj⟩ := h.closed e _ he
  have hi : i ≠ r.freeNode t.graph := fun heq => by rw [heq, hfree] at hi; cases hi
  have hj : j ≠ r.freeNode t.graph := fun heq => by rw [heq, hfree] at hj; cases hj
  rw [Dict.get?_set_ne _ _ hi, Dict.get?_set_ne _ _ hj]

/-- Adding a connection adds it and its ends, unless they are there. -/
theorem Rep.addConnection (h : Rep t) (conn : Connection) :
    ∃ t', t.addConnection r conn = some t' ∧ Rep t' ∧
      (∀ m, HasNode t' m ↔ HasNode t m ∨ m = conn.source ∨ m = conn.sink) ∧
        ∀ d, HasEdge t' d ↔ HasEdge t d ∨ d = conn := by
  unfold Topology.addConnection
  by_cases hmem : HasEdge t conn
  · rw [if_pos ((h.mem_getAllConnectionsBetween conn).mpr hmem)]
    obtain ⟨hsource, hsink⟩ := h.hasNode_of_hasEdge hmem
    refine ⟨t, rfl, h, fun m => (or_iff_left_of_imp ?_).symm,
      fun d => (or_iff_left_of_imp fun hd => hd ▸ hmem).symm⟩
    rintro (rfl | rfl)
    · exact hsource
    · exact hsink
  rw [if_neg fun hin => hmem ((h.mem_getAllConnectionsBetween conn).mp hin)]
  have hrep : Rep ((t.addNode r conn.source).addNode r conn.sink) := (h.addNode _).addNode _
  have hnode : ∀ m, HasNode ((t.addNode r conn.source).addNode r conn.sink) m ↔
      HasNode t m ∨ m = conn.source ∨ m = conn.sink := fun m => by
    rw [hasNode_addNode, hasNode_addNode, or_assoc]
  have hedge : ∀ d, HasEdge ((t.addNode r conn.source).addNode r conn.sink) d ↔ HasEdge t d :=
    fun d => (h.addNode _).hasEdge_addNode.trans h.hasEdge_addNode
  generalize (t.addNode r conn.source).addNode r conn.sink = u at hrep hnode hedge
  obtain ⟨i, hi⟩ := Option.isSome_iff_exists.mp ((hnode conn.source).mpr (Or.inr (Or.inl rfl)))
  obtain ⟨j, hj⟩ := Option.isSome_iff_exists.mp ((hnode conn.sink).mpr (Or.inr (Or.inr rfl)))
  have hi' := (hrep.vertex _ _).mp hi
  have hj' := (hrep.vertex _ _).mp hj
  have hadd : u.graph.addEdge r i j conn.edge =
      some { u.graph with edges := u.graph.edges.set (r.freeEdge u.graph) (i, j, conn.edge) } :=
    if_pos (by rw [hi', hj']; exact ⟨rfl, rfl⟩)
  have hfree := r.freeEdge_free u.graph
  -- the new edge is not one of the old ones
  have hnew : ∀ e, u.graph.edges.get? e ≠ some (i, j, conn.edge) := fun e he =>
    hmem ((hedge conn).mp ⟨e, i, j, hi', hj', he⟩)
  refine ⟨{ u with graph := { u.graph with
    edges := u.graph.edges.set (r.freeEdge u.graph) (i, j, conn.edge) } }, ?_, ?_, hnode, ?_⟩
  · simp only [hi, hj, hadd, Option.bind_eq_bind, Option.bind_some, Option.pure_def]
  · refine ⟨hrep.vertex, fun e edge he => ?_, fun e e' edge he he' => ?_⟩
    · simp only [Dict.get?_set] at he
      split at he
      · obtain rfl := Option.some.inj he
        simp only [hi', hj']
        exact ⟨rfl, rfl⟩
      · exact hrep.closed e edge he
    · simp only [Dict.get?_set] at he he'
      split at he <;> split at he'
      · simp_all
      · exact absurd (he'.trans he.symm) (hnew e')
      · exact absurd (he.trans he'.symm) (hnew e)
      · exact hrep.simple e e' edge he he'
  · intro d
    rw [← hedge]
    constructor
    · rintro ⟨e, i', j', hsource, hsink, he⟩
      simp only [Dict.get?_set] at he
      split at he
      · obtain ⟨rfl, rfl, hd⟩ : i = i' ∧ j = j' ∧ conn.edge = d.edge := by simpa using he
        right
        have hs : conn.source = d.source := Option.some.inj (hi'.symm.trans hsource)
        have hk : conn.sink = d.sink := Option.some.inj (hj'.symm.trans hsink)
        cases d
        cases conn
        simp_all
      · exact Or.inl ⟨e, i', j', hsource, hsink, he⟩
    · rintro (⟨e, i', j', hsource, hsink, he⟩ | rfl)
      · have hne : e ≠ r.freeEdge u.graph := fun heq => by rw [heq, hfree] at he; cases he
        exact ⟨e, i', j', hsource, hsink, by rw [Dict.get?_set_ne _ _ hne]; exact he⟩
      · exact ⟨r.freeEdge u.graph, i, j, hi', hj', Dict.get?_set_self ..⟩

theorem Rep.addConnections (h : Rep t) (conns : List Connection) :
    ∃ t', conns.foldlM (fun t conn => t.addConnection r conn) t = some t' ∧ Rep t' ∧
      (∀ m, HasNode t' m ↔
        HasNode t m ∨ ∃ conn ∈ conns, m = conn.source ∨ m = conn.sink) ∧
        ∀ d, HasEdge t' d ↔ HasEdge t d ∨ d ∈ conns := by
  induction conns generalizing t with
  | nil => exact ⟨t, rfl, h, by simp, by simp⟩
  | cons conn conns ih =>
      obtain ⟨t₁, hadd, hrep₁, hnode₁, hedge₁⟩ := h.addConnection conn
      obtain ⟨t₂, hfold, hrep₂, hnode₂, hedge₂⟩ := ih hrep₁
      refine ⟨t₂, by rw [List.foldlM_cons, hadd]; exact hfold, hrep₂, fun m => ?_, fun d => ?_⟩
      · rw [hnode₂, hnode₁, or_assoc]
        simp
      · rw [hedge₂, hedge₁, List.mem_cons, or_assoc]

theorem Rep.addNodes (h : Rep t) (nodeIds : List NodeId) :
    Rep (nodeIds.foldl (fun t nodeId => t.addNode r nodeId) t) ∧
      (∀ m, HasNode (nodeIds.foldl (fun t nodeId => t.addNode r nodeId) t) m ↔
        HasNode t m ∨ m ∈ nodeIds) ∧
      ∀ d, HasEdge (nodeIds.foldl (fun t nodeId => t.addNode r nodeId) t) d ↔ HasEdge t d := by
  induction nodeIds generalizing t with
  | nil => exact ⟨h, by simp, by simp⟩
  | cons nodeId nodeIds ih =>
      obtain ⟨hrep, hnode, hedge⟩ := ih (h.addNode nodeId)
      refine ⟨hrep, fun m => ?_, fun d => (hedge d).trans h.hasEdge_addNode⟩
      rw [List.foldl_cons, hnode, hasNode_addNode, List.mem_cons, or_assoc]

/-! ## Removing -/

theorem Rep.filterEdges (h : Rep t) (keep : Nat → Nat × Nat × Edge → Bool) :
    Rep { t with graph := t.graph.filterEdges keep } := by
  have hsub : ∀ e edge, (t.graph.filterEdges keep).edges.get? e = some edge →
      t.graph.edges.get? e = some edge := fun e edge he => by
    rw [Multigraph.filterEdges_edges] at he
    exact (Option.filter_eq_some_iff.mp he).1
  exact ⟨h.vertex, fun e edge he => h.closed e edge (hsub e edge he),
    fun e e' edge he he' => h.simple e e' edge (hsub e edge he) (hsub e' edge he')⟩

theorem Rep.removeNode (h : Rep t) (nodeId : NodeId) : Rep (t.removeNode nodeId) := by
  unfold Topology.removeNode
  cases hidx : t.vertexIndices.get? nodeId with
  | none => exact h
  | some rxIdx =>
      have hvertex := (h.vertex _ _).mp hidx
      have hsub : ∀ e edge, (t.graph.removeNode rxIdx).edges.get? e = some edge →
          t.graph.edges.get? e = some edge ∧ edge.1 ≠ rxIdx ∧ edge.2.1 ≠ rxIdx := by
        intro e edge he
        simp only [Multigraph.removeNode, Dict.get?_filter] at he
        simpa using Option.filter_eq_some_iff.mp he
      refine ⟨fun m i => ?_, fun e edge he => ?_, fun e e' edge he he' =>
        h.simple e e' edge (hsub e edge he).1 (hsub e' edge he').1⟩
      · simp only [Multigraph.removeNode, Dict.get?_erase]
        by_cases hm : m = nodeId <;> by_cases hi : i = rxIdx
        · simp [hm, hi]
        · subst hm
          rw [if_pos rfl, if_neg hi, ← h.vertex, hidx]
          simp [Ne.symm hi]
        · subst hi
          rw [if_neg hm, if_pos rfl, h.vertex, hvertex]
          simp [Ne.symm hm]
        · rw [if_neg hm, if_neg hi]
          exact h.vertex m i
      · obtain ⟨hold, hsource, hsink⟩ := hsub e edge he
        simp only [Multigraph.removeNode, Dict.get?_erase, if_neg hsource, if_neg hsink]
        exact h.closed e edge hold

theorem Rep.removeConnection (h : Rep t) (conn : Connection) :
    ∃ t', t.removeConnection r conn = some t' ∧ Rep t' := by
  unfold Topology.removeConnection
  split
  · rw [Multigraph.edgeIndicesBetween,
      Multigraph.removeEdgesWhere_eq (Multigraph.nodup_edgeIndices _) fun e he => ?_]
    · exact ⟨_, rfl, h.filterEdges _⟩
    · obtain ⟨edge, hedge, -⟩ := Multigraph.mem_edgeIndices.1 he
      rw [hedge]
      rfl
  · exact ⟨t, rfl, h⟩

theorem Rep.replaceAllOutRdmaConnections (h : Rep t) {source : NodeId} (hsource : HasNode t source)
    (newConnections : List Connection) :
    ∃ t', t.replaceAllOutRdmaConnections r source newConnections = some t' ∧ Rep t' := by
  obtain ⟨rxIdx, hidx⟩ := Option.isSome_iff_exists.mp hsource
  unfold Topology.replaceAllOutRdmaConnections
  simp only [hidx, Option.bind_eq_bind, Option.bind_some, Multigraph.outEdgeIndices]
  rw [Multigraph.removeEdgesWhere_eq (Multigraph.nodup_edgeIndices _) fun e he => ?_]
  · obtain ⟨t', hfold, hrep, -⟩ := (h.filterEdges _).addConnections newConnections
    exact ⟨t', hfold, hrep⟩
  · obtain ⟨edge, hedge, -⟩ := Multigraph.mem_edgeIndices.1 he
    rw [hedge]
    rfl

/-- Removing the RDMA edges of a node fails exactly at one that it has to itself. -/
theorem removeAllRdmaConnectionsTouching_isSome_iff (nodeId : NodeId) :
    (t.removeAllRdmaConnectionsTouching r nodeId).isSome ↔
      (Operation.removeAllRdmaConnectionsTouching nodeId).Safe t := by
  unfold Topology.removeAllRdmaConnectionsTouching Operation.Safe
  cases hidx : t.vertexIndices.get? nodeId with
  | none =>
      refine iff_of_true rfl fun e i edge hi => ?_
      rw [hidx] at hi
      cases hi
  | some rxIdx =>
      simp only [Option.isSome_map]
      have hlive : ∀ e ∈ (t.graph.outEdgeIndices r rxIdx ++ t.graph.inEdgeIndices r rxIdx).filter
          (fun edgeIdx => (t.graph.edgeData edgeIdx).any Edge.isRdma),
          (t.graph.edges.get? e).isSome := by
        intro e he
        rcases List.mem_append.mp (List.mem_of_mem_filter he) with he | he <;>
        · obtain ⟨edge, hedge, -⟩ := Multigraph.mem_edgeIndices.1 he
          rw [hedge]
          rfl
      constructor
      · intro h e i edge hi he
        obtain rfl := Option.some.inj (hidx.symm.trans hi)
        obtain ⟨g, hg⟩ := Option.isSome_iff_exists.mp h
        have hnodup := (Multigraph.nodup_of_removeEdges hg).1
        rw [List.filter_append] at hnodup
        by_contra hrdma
        have hany : (t.graph.edgeData e).any Edge.isRdma = true := by
          rw [Multigraph.edgeData, he]
          simpa using hrdma
        -- an RDMA edge to itself goes out and comes in, so it is listed twice
        refine (List.nodup_append.mp hnodup).2.2 e (List.mem_filter.mpr ⟨?_, hany⟩) e
          (List.mem_filter.mpr ⟨?_, hany⟩) rfl
        · exact Multigraph.mem_edgeIndices.2 ⟨_, he, by simp⟩
        · exact Multigraph.mem_edgeIndices.2 ⟨_, he, by simp⟩
      · intro hsafe
        rw [Multigraph.removeEdges_eq_removeEdgesWhere, Multigraph.removeEdgesWhere_eq ?_ hlive]
        · rfl
        rw [List.filter_append]
        refine List.nodup_append.mpr ⟨(Multigraph.nodup_edgeIndices _).filter _,
          (Multigraph.nodup_edgeIndices _).filter _, ?_⟩
        rintro e hout e' hin rfl
        obtain ⟨hout, hany⟩ := List.mem_filter.mp hout
        obtain ⟨edge, hedge, hsource⟩ := Multigraph.mem_edgeIndices.1 hout
        obtain ⟨edge', hedge', hsink⟩ := Multigraph.mem_edgeIndices.1 (List.mem_of_mem_filter hin)
        obtain rfl := Option.some.inj (hedge.symm.trans hedge')
        obtain ⟨i, j, edge⟩ := edge
        simp only [decide_eq_true_eq] at hsource hsink
        subst hsource hsink
        rw [Multigraph.edgeData, hedge] at hany
        exact absurd hany (by simp [hsafe e _ edge hidx hedge])

theorem Rep.removeAllRdmaConnectionsTouching (h : Rep t)
    (ht : t.removeAllRdmaConnectionsTouching r nodeId = some t') : Rep t' := by
  unfold Topology.removeAllRdmaConnectionsTouching at ht
  cases hidx : t.vertexIndices.get? nodeId with
  | none =>
      rw [hidx] at ht
      exact Option.some.inj ht ▸ h
  | some rxIdx =>
      rw [hidx] at ht
      obtain ⟨g, hg, rfl⟩ := Option.map_eq_some_iff.mp ht
      obtain ⟨hnodup, hlive⟩ := Multigraph.nodup_of_removeEdges hg
      rw [Multigraph.removeEdges_eq_removeEdgesWhere,
        Multigraph.removeEdgesWhere_eq hnodup hlive] at hg
      obtain rfl := Option.some.inj hg
      exact h.filterEdges _

/-! ## One operation -/

theorem Rep.isSome_apply_iff (h : Rep t) (operation : Operation) :
    (t.apply r operation).isSome ↔ operation.Safe t := by
  cases operation with
  | addNode nodeId => exact iff_of_true rfl trivial
  | addConnection conn =>
      obtain ⟨t', ht', -⟩ := h.addConnection (r := r) conn
      exact iff_of_true (by rw [Topology.apply, ht']; rfl) trivial
  | removeNode nodeId => exact iff_of_true rfl trivial
  | removeConnection conn =>
      obtain ⟨t', ht', -⟩ := h.removeConnection (r := r) conn
      exact iff_of_true (by rw [Topology.apply, ht']; rfl) trivial
  | replaceAllOutRdmaConnections source newConnections =>
      constructor
      · intro hsome
        obtain ⟨t', ht'⟩ := Option.isSome_iff_exists.mp hsome
        obtain ⟨rxIdx, hidx, -⟩ := Option.bind_eq_some_iff.mp ht'
        exact Option.isSome_iff_exists.mpr ⟨rxIdx, hidx⟩
      · intro hsafe
        obtain ⟨t', ht', -⟩ := h.replaceAllOutRdmaConnections (r := r) hsafe newConnections
        rw [Topology.apply, ht']
        rfl
  | removeAllRdmaConnectionsTouching nodeId =>
      exact removeAllRdmaConnectionsTouching_isSome_iff nodeId

theorem Rep.apply (h : Rep t) {operation : Operation} (ht : t.apply r operation = some t') :
    Rep t' := by
  have hsafe := (h.isSome_apply_iff operation).mp (by rw [ht]; rfl)
  cases operation with
  | addNode nodeId => exact Option.some.inj ht ▸ h.addNode nodeId
  | addConnection conn =>
      obtain ⟨t₁, ht₁, hrep, -⟩ := h.addConnection (r := r) conn
      exact Option.some.inj (ht₁.symm.trans ht) ▸ hrep
  | removeNode nodeId => exact Option.some.inj ht ▸ h.removeNode nodeId
  | removeConnection conn =>
      obtain ⟨t₁, ht₁, hrep⟩ := h.removeConnection (r := r) conn
      exact Option.some.inj (ht₁.symm.trans ht) ▸ hrep
  | replaceAllOutRdmaConnections source newConnections =>
      obtain ⟨t₁, ht₁, hrep⟩ := h.replaceAllOutRdmaConnections (r := r) hsafe newConnections
      exact Option.some.inj (ht₁.symm.trans ht) ▸ hrep
  | removeAllRdmaConnectionsTouching nodeId => exact h.removeAllRdmaConnectionsTouching ht

/-! ## Snapshots -/

/-- The connections of a mapping between two nodes. -/
def cell (base : Dict NodeId (Dict NodeId (List Edge))) (source sink : NodeId) : List Edge :=
  (((base.get? source).getD .empty).get? sink).getD []

theorem mapConnection_spec (base : Dict NodeId (Dict NodeId (List Edge))) (edge : Edge) {i j : Nat}
    {source sink : NodeId} (hi : t.graph.nodes.get? i = some source)
    (hj : t.graph.nodes.get? j = some sink) :
    ∃ base', t.mapConnection base (i, j, edge) = some base' ∧
      ∀ source' sink' edge', edge' ∈ cell base' source' sink' ↔
        edge' ∈ cell base source' sink' ∨ (source' = source ∧ sink' = sink ∧ edge' = edge) := by
  refine ⟨_, by simp only [Topology.mapConnection, hi, hj]; rfl, fun source' sink' edge' => ?_⟩
  simp only [cell, Dict.get?_set]
  by_cases hsource : source' = source
  · subst hsource
    by_cases hsink : sink' = sink
    · subst hsink
      simp
    · simp [hsink, Dict.get?_set_ne]
  · simp [hsource]

/-- The mapping has what the edges say, by the ids of their ends. -/
theorem foldlM_mapConnection (h : Rep t) (edges : List (Nat × Nat × Edge))
    (hedges : ∀ edge ∈ edges, ∃ e, t.graph.edges.get? e = some edge)
    (base : Dict NodeId (Dict NodeId (List Edge))) :
    ∃ base', edges.foldlM t.mapConnection base = some base' ∧
      ∀ source sink edge, edge ∈ cell base' source sink ↔ edge ∈ cell base source sink ∨
        ∃ i j, (i, j, edge) ∈ edges ∧ t.graph.nodes.get? i = some source ∧
          t.graph.nodes.get? j = some sink := by
  induction edges generalizing base with
  | nil => exact ⟨base, rfl, by simp⟩
  | cons first edges ih =>
      obtain ⟨i, j, edge⟩ := first
      obtain ⟨e, he⟩ := hedges _ List.mem_cons_self
      obtain ⟨hi, hj⟩ := h.closed e _ he
      obtain ⟨source, hi⟩ := Option.isSome_iff_exists.mp hi
      obtain ⟨sink, hj⟩ := Option.isSome_iff_exists.mp hj
      obtain ⟨base₁, hstep, hcell₁⟩ := mapConnection_spec base edge hi hj
      obtain ⟨base₂, hfold, hcell₂⟩ := ih (fun edge hedge =>
        hedges edge (List.mem_cons_of_mem _ hedge)) base₁
      refine ⟨base₂, by rw [List.foldlM_cons, hstep]; exact hfold, fun source' sink' edge' => ?_⟩
      rw [hcell₂, hcell₁, or_assoc]
      refine or_congr_right ⟨?_, ?_⟩
      · rintro (⟨rfl, rfl, rfl⟩ | ⟨i', j', hmem, hi', hj'⟩)
        · exact ⟨i, j, List.mem_cons_self, hi, hj⟩
        · exact ⟨i', j', List.mem_cons_of_mem _ hmem, hi', hj'⟩
      · rintro ⟨i', j', hmem, hi', hj'⟩
        rcases List.mem_cons.mp hmem with heq | hmem
        · obtain ⟨rfl, rfl, rfl⟩ : i' = i ∧ j' = j ∧ edge' = edge := by simpa using heq
          exact Or.inl ⟨Option.some.inj (hi'.symm.trans hi), Option.some.inj (hj'.symm.trans hj), rfl⟩
        · exact Or.inr ⟨i', j', hmem, hi', hj'⟩

theorem TopologySnapshot.mem_connectionList {snapshot : TopologySnapshot} :
    conn ∈ snapshot.connectionList ↔
      conn.edge ∈ cell snapshot.connections conn.source conn.sink := by
  unfold TopologySnapshot.connectionList cell
  simp only [List.mem_flatMap, List.mem_map]
  constructor
  · rintro ⟨⟨source, row⟩, hrow, ⟨sink, edges⟩, hedges, edge, hedge, rfl⟩
    rw [Dict.mem_entries.1 hrow, Option.getD_some, Dict.mem_entries.1 hedges]
    exact hedge
  · intro hmem
    cases hrow : snapshot.connections.get? conn.source with
    | none => simp [hrow] at hmem
    | some row =>
        rw [hrow, Option.getD_some] at hmem
        cases hedges : row.get? conn.sink with
        | none => simp [hedges] at hmem
        | some edges =>
            rw [hedges] at hmem
            exact ⟨_, Dict.mem_entries.2 hrow, _, Dict.mem_entries.2 hedges, conn.edge, hmem, rfl⟩

/-- A snapshot of a topology can be taken, and has its nodes and connections. -/
theorem Rep.toSnapshot (h : Rep t) :
    ∃ snapshot, t.toSnapshot r = some snapshot ∧
      (∀ m, m ∈ snapshot.nodes ↔ HasNode t m) ∧
        ∀ conn, conn ∈ snapshot.connectionList ↔ HasEdge t conn := by
  obtain ⟨base, hfold, hcell⟩ := foldlM_mapConnection h (t.graph.edgeList r)
    (fun edge hedge => Multigraph.mem_edgeList.1 hedge) .empty
  refine ⟨{ nodes := t.listNodes r, connections := base }, ?_, h.mem_listNodes, fun conn => ?_⟩
  · rw [Topology.toSnapshot, Topology.mapConnections, hfold]
    rfl
  · rw [TopologySnapshot.mem_connectionList, hcell]
    simp only [Multigraph.mem_edgeList, HasEdge]
    constructor
    · rintro (hnone | ⟨i, j, ⟨e, he⟩, hi, hj⟩)
      · cases hnone
      · exact ⟨e, i, j, hi, hj, he⟩
    · rintro ⟨e, i, j, hi, hj, he⟩
      exact Or.inr ⟨i, j, ⟨e, he⟩, hi, hj⟩

theorem Rep.roundTrips (h : Rep t) : RoundTrips t := by
  intro r r'
  obtain ⟨snapshot, hsnap, hnodes, hconns⟩ := h.toSnapshot (r := r)
  obtain ⟨hrep₁, hnode₁, hedge₁⟩ := Rep.empty.addNodes (r := r') snapshot.nodes
  obtain ⟨t', hfold, hrep, hnode, hedge⟩ := hrep₁.addConnections (r := r') snapshot.connectionList
  have hempty : ∀ m, ¬ HasNode .empty m := fun m hm => by cases hm
  have hnoedge : ∀ conn, ¬ HasEdge .empty conn := by
    rintro conn ⟨e, i, j, hi, -⟩
    cases hi
  refine ⟨snapshot, t', hsnap, hfold, hrep, fun m => ?_, fun source sink edge => ?_⟩
  · rw [hrep.mem_listNodes, h.mem_listNodes, hnode, hnode₁, hnodes]
    constructor
    · rintro ((hm | hm) | ⟨conn, hconn, hm⟩)
      · exact absurd hm (hempty m)
      · exact hm
      · -- the ends of a connection are nodes
        obtain ⟨hsource, hsink⟩ := h.hasNode_of_hasEdge ((hconns conn).mp hconn)
        rcases hm with rfl | rfl
        · exact hsource
        · exact hsink
    · exact fun hm => Or.inl (Or.inr hm)
  · have hold := h.mem_getAllConnectionsBetween (r := r) ⟨source, sink, edge⟩
    have hnew := hrep.mem_getAllConnectionsBetween (r := r') ⟨source, sink, edge⟩
    rw [hnew, hold, hedge, hedge₁, hconns]
    exact or_iff_right (hnoedge _)

/-! ## Runs -/

/-- The index after the largest one. -/
def nextIndex {ν : Type} (d : Dict Nat ν) : Nat :=
  match d.keys.max? with
  | none => 0
  | some i => i + 1

theorem get?_nextIndex {ν : Type} (d : Dict Nat ν) : d.get? (nextIndex d) = none := by
  by_contra hsome
  have hmem := Dict.mem_keys.2 (Option.isSome_iff_ne_none.mpr hsome)
  unfold nextIndex at hmem
  split at hmem
  · rename_i h
    rw [List.max?_eq_none_iff.mp h] at hmem
    cases hmem
  · rename_i i h
    have := (List.max?_eq_some_iff.mp h).2 _ hmem
    omega

/-- A library that gives out the index after the largest one, and lists in order. -/
def ascending : Multigraph.Policy NodeId Edge where
  freeNode g := nextIndex g.nodes
  freeNode_free g := get?_nextIndex g.nodes
  freeEdge g := nextIndex g.edges
  freeEdge_free g := get?_nextIndex g.edges
  arrange _ indices := indices
  arrange_perm _ indices := List.Perm.refl indices

end Exo.TopologyGraph
