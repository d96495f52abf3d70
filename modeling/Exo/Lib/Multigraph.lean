import Exo.Lib.Dict
import Mathlib.Data.List.Dedup

/-!
# Directed multigraphs with stable indices

A node and an edge keep the index they were given until they are removed. An index that is free can
be given again. Which free index is taken, and in what order a graph lists its indices, is left
open: it is the policy of an implementation.
-/

namespace Exo.Lib

universe u v

/-- Payloads by index; an edge has the indices of its source and its sink. -/
structure Multigraph (N : Type u) (E : Type v) where
  nodes : Dict Nat N
  edges : Dict Nat (Nat × Nat × E)

/-- The choices of an implementation. -/
structure Multigraph.Policy (N : Type u) (E : Type v) where
  freeNode : Multigraph N E → Nat
  freeNode_free : ∀ g : Multigraph N E, g.nodes.get? (freeNode g) = none
  freeEdge : Multigraph N E → Nat
  freeEdge_free : ∀ g : Multigraph N E, g.edges.get? (freeEdge g) = none
  /-- The order in which a graph lists some of its indices. -/
  arrange : Multigraph N E → List Nat → List Nat
  arrange_perm : ∀ g l, (arrange g l).Perm l

namespace Multigraph

variable {N : Type u} {E : Type v} (policy : Policy N E)

def empty : Multigraph N E where
  nodes := .empty
  edges := .empty

/-- Add a node, and its index. -/
def addNode (g : Multigraph N E) (payload : N) : Multigraph N E × Nat :=
  ({ g with nodes := g.nodes.set (policy.freeNode g) payload }, policy.freeNode g)

/-- Add an edge; there is none if an end of it is missing. -/
def addEdge (g : Multigraph N E) (source sink : Nat) (payload : E) : Option (Multigraph N E) :=
  if (g.nodes.get? source).isSome ∧ (g.nodes.get? sink).isSome then
    some { g with edges := g.edges.set (policy.freeEdge g) (source, sink, payload) }
  else none

/-- Remove a node and the edges that it has. -/
def removeNode (g : Multigraph N E) (i : Nat) : Multigraph N E where
  nodes := g.nodes.erase i
  edges := g.edges.filter fun _ edge => edge.1 ≠ i ∧ edge.2.1 ≠ i

/-- Remove an edge, which has to be there. -/
def removeEdge (g : Multigraph N E) (e : Nat) : Option (Multigraph N E) :=
  if (g.edges.get? e).isSome then some { g with edges := g.edges.erase e } else none

def edgeData (g : Multigraph N E) (e : Nat) : Option E := (g.edges.get? e).map fun edge => edge.2.2

/-- The indices of the edges of a kind. -/
def edgeIndices (g : Multigraph N E) (p : Nat → Nat → Bool) : List Nat :=
  policy.arrange g ((g.edges.filter fun _ edge => p edge.1 edge.2.1).keys)

def outEdgeIndices (g : Multigraph N E) (i : Nat) : List Nat :=
  g.edgeIndices policy fun source _ => source = i

def inEdgeIndices (g : Multigraph N E) (i : Nat) : List Nat :=
  g.edgeIndices policy fun _ sink => sink = i

def edgeIndicesBetween (g : Multigraph N E) (i j : Nat) : List Nat :=
  g.edgeIndices policy fun source sink => source = i ∧ sink = j

/-- The payloads of the edges between two nodes. -/
def edgeDataBetween (g : Multigraph N E) (i j : Nat) : List E :=
  (g.edgeIndicesBetween policy i j).filterMap g.edgeData

/-- The payloads of the nodes. -/
def nodeList (g : Multigraph N E) : List N :=
  (policy.arrange g g.nodes.keys).filterMap g.nodes.get?

/-- The edges with the indices of their ends. -/
def edgeList (g : Multigraph N E) : List (Nat × Nat × E) :=
  (g.edgeIndices policy fun _ _ => true).filterMap g.edges.get?

/-- Every edge is between two nodes. -/
def Closed (g : Multigraph N E) : Prop :=
  ∀ e edge, g.edges.get? e = some edge →
    (g.nodes.get? edge.1).isSome ∧ (g.nodes.get? edge.2.1).isSome

variable {policy} {g g' : Multigraph N E}

/-! ## Listing -/

variable {e : Nat}

theorem mem_edgeIndices {p : Nat → Nat → Bool} :
    e ∈ g.edgeIndices policy p ↔ ∃ edge, g.edges.get? e = some edge ∧ p edge.1 edge.2.1 = true := by
  rw [edgeIndices, (policy.arrange_perm g _).mem_iff, Dict.mem_keys, Dict.get?_filter]
  cases g.edges.get? e with
  | none => simp
  | some edge => by_cases hp : p edge.1 edge.2.1 = true <;> simp [hp]

theorem nodup_edgeIndices (p : Nat → Nat → Bool) : (g.edgeIndices policy p).Nodup :=
  (policy.arrange_perm g _).nodup_iff.mpr (Dict.nodup _)

theorem mem_edgeDataBetween {i j : Nat} {payload : E} :
    payload ∈ g.edgeDataBetween policy i j ↔ ∃ e, g.edges.get? e = some (i, j, payload) := by
  simp only [edgeDataBetween, edgeIndicesBetween, List.mem_filterMap, mem_edgeIndices, edgeData,
    decide_eq_true_eq, Option.map_eq_some_iff]
  constructor
  · rintro ⟨e, ⟨edge, he, rfl, rfl⟩, edge', he', rfl⟩
    obtain rfl := Option.some.inj (he.symm.trans he')
    exact ⟨e, he⟩
  · rintro ⟨e, he⟩
    exact ⟨e, ⟨_, he, rfl, rfl⟩, _, he, rfl⟩

theorem mem_nodeList {payload : N} :
    payload ∈ g.nodeList policy ↔ ∃ i, g.nodes.get? i = some payload := by
  simp only [nodeList, List.mem_filterMap, (policy.arrange_perm g _).mem_iff, Dict.mem_keys]
  exact exists_congr fun i => and_iff_right_of_imp fun h => by rw [h]; rfl

theorem mem_edgeList {edge : Nat × Nat × E} :
    edge ∈ g.edgeList policy ↔ ∃ e, g.edges.get? e = some edge := by
  simp only [edgeList, List.mem_filterMap, mem_edgeIndices, and_true]
  exact exists_congr fun e => and_iff_right_of_imp fun h => ⟨edge, h⟩

/-! ## Removing edges -/

/-- Remove edges one after the other. -/
def removeEdges (g : Multigraph N E) (es : List Nat) : Option (Multigraph N E) :=
  es.foldlM removeEdge g

/-- Remove those of some edges whose payload is of a kind, looking at one after the other. -/
def removeEdgesWhere (p : E → Bool) (g : Multigraph N E) (es : List Nat) :
    Option (Multigraph N E) :=
  es.foldlM (fun g e => (g.edgeData e).bind fun payload =>
    if p payload then g.removeEdge e else some g) g

/-- The graph with some of its edges. -/
def filterEdges (g : Multigraph N E) (keep : Nat → Nat × Nat × E → Bool) : Multigraph N E :=
  { g with edges := g.edges.filter keep }

theorem filterEdges_edges (keep : Nat → Nat × Nat × E → Bool) (e : Nat) :
    (g.filterEdges keep).edges.get? e = (g.edges.get? e).filter (keep e) :=
  Dict.get?_filter ..

theorem filterEdges_congr {keep keep' : Nat → Nat × Nat × E → Bool}
    (h : ∀ e edge, g.edges.get? e = some edge → keep e edge = keep' e edge) :
    g.filterEdges keep = g.filterEdges keep' := by
  have hentries : (g.edges.filter keep).entries = (g.edges.filter keep').entries :=
    List.filter_congr fun entry hentry => h entry.1 entry.2 (Dict.mem_entries.1 hentry)
  unfold filterEdges
  congr 1
  exact Dict.ext hentries

theorem filterEdges_filterEdges (keep keep' : Nat → Nat × Nat × E → Bool) :
    (g.filterEdges keep).filterEdges keep' =
      g.filterEdges fun e edge => keep' e edge && keep e edge := by
  unfold filterEdges
  congr 1
  exact Dict.ext (List.filter_filter ..)

theorem removeEdge_eq_some (h : (g.edges.get? e).isSome) :
    g.removeEdge e = some (g.filterEdges fun e' _ => e' ≠ e) := if_pos h

theorem removeEdge_eq_none (h : g.edges.get? e = none) : g.removeEdge e = none := by
  rw [removeEdge, h]
  rfl

/-- **Looking at edges that are there, each once, removes those of the kind.** -/
theorem removeEdgesWhere_eq {p : E → Bool} {es : List Nat} (hnodup : es.Nodup)
    (hlive : ∀ e ∈ es, (g.edges.get? e).isSome) :
    removeEdgesWhere p g es =
      some (g.filterEdges fun e edge => !(decide (e ∈ es) && p edge.2.2)) := by
  induction es generalizing g with
  | nil =>
      have hall : g.filterEdges (fun _ _ => true) = g := by
        unfold filterEdges
        congr 1
        exact Dict.ext (List.filter_true ..)
      simpa [removeEdgesWhere] using hall.symm
  | cons e es ih =>
      obtain ⟨hnew, hnodup⟩ := List.nodup_cons.mp hnodup
      obtain ⟨edge, hedge⟩ := Option.isSome_iff_exists.mp (hlive e List.mem_cons_self)
      have hdata : g.edgeData e = some edge.2.2 := by rw [edgeData, hedge]; rfl
      have hstep : removeEdgesWhere p g (e :: es) =
          (if p edge.2.2 then g.removeEdge e else some g).bind fun g =>
            removeEdgesWhere p g es := by
        rw [removeEdgesWhere, List.foldlM_cons, hdata]
        rfl
      rw [hstep]
      by_cases hp : p edge.2.2 = true
      · rw [if_pos hp, removeEdge_eq_some (hlive e List.mem_cons_self), Option.bind_some,
          ih hnodup fun e' he' => ?_, filterEdges_filterEdges]
        · congr 1
          refine filterEdges_congr fun e' edge' he' => ?_
          by_cases heq : e' = e
          · subst heq
            obtain rfl := Option.some.inj (hedge.symm.trans he')
            simp [hp]
          · simp [heq]
        · have hne : e' ≠ e := fun heq => hnew (heq ▸ he')
          rw [filterEdges_edges]
          simpa [hne] using hlive e' (List.mem_cons_of_mem _ he')
      · rw [if_neg hp, Option.bind_some, ih hnodup fun e' he' => hlive e' (List.mem_cons_of_mem _ he')]
        congr 1
        refine filterEdges_congr fun e' edge' he' => ?_
        by_cases heq : e' = e
        · subst heq
          obtain rfl := Option.some.inj (hedge.symm.trans he')
          simp [hp, hnew]
        · simp [heq]

theorem removeEdges_eq_removeEdgesWhere (g : Multigraph N E) (es : List Nat) :
    removeEdges g es = removeEdgesWhere (fun _ => true) g es := by
  have hstep : (removeEdge : Multigraph N E → Nat → _) =
      fun g e => (g.edgeData e).bind fun _ => if true then g.removeEdge e else some g := by
    funext g e
    cases he : g.edges.get? e with
    | none => rw [removeEdge_eq_none he, edgeData, he]; rfl
    | some edge => rw [edgeData, he]; rfl
  rw [removeEdges, hstep]
  rfl

/-- An edge that is listed twice is missed the second time. -/
theorem nodup_of_removeEdges {es : List Nat} (h : removeEdges g es = some g') :
    es.Nodup ∧ ∀ e ∈ es, (g.edges.get? e).isSome := by
  induction es generalizing g with
  | nil => exact ⟨List.nodup_nil, fun e he => absurd he List.not_mem_nil⟩
  | cons e es ih =>
      rw [removeEdges, List.foldlM_cons] at h
      obtain ⟨g₁, hg₁, hrest⟩ := Option.bind_eq_some_iff.mp h
      have hlive : (g.edges.get? e).isSome := by
        by_contra hnone
        rw [removeEdge_eq_none (Option.not_isSome_iff_eq_none.mp hnone)] at hg₁
        cases hg₁
      rw [removeEdge_eq_some hlive] at hg₁
      obtain rfl := Option.some.inj hg₁
      obtain ⟨hnodup, hall⟩ := ih hrest
      simp only [filterEdges_edges] at hall
      refine ⟨List.nodup_cons.mpr ⟨fun he => ?_, hnodup⟩, fun e' he' => ?_⟩
      · obtain ⟨edge, hedge⟩ := Option.isSome_iff_exists.mp (hall e he)
        simpa using (Option.filter_eq_some_iff.mp hedge).2
      · rcases List.mem_cons.mp he' with rfl | he'
        · exact hlive
        · obtain ⟨edge, hedge⟩ := Option.isSome_iff_exists.mp (hall e' he')
          exact Option.isSome_iff_exists.mpr ⟨edge, (Option.filter_eq_some_iff.mp hedge).1⟩

end Multigraph

end Exo.Lib
