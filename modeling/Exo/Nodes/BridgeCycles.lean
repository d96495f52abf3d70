import Exo.Nodes.State

/-!
# Whether the cycles of bridged nodes are up to date

The cycles are computed again when the bridge of a node is switched, or a bridged node leaves.
They depend on more: on the edges and on the addresses of the interfaces, which other events
change. Such an event leaves them right exactly when no link between bridged nodes that it makes
or breaks lies on a cycle.
-/

namespace Exo

open Lib (Dict Machine)

/-! ## Rotated cycles -/

/-- The same cycles, each from any of its nodes on. -/
structure SameCycles (cs cs' : List (List NodeId)) : Prop where
  left : ∀ c ∈ cs, ∃ c' ∈ cs', c'.IsRotated c
  right : ∀ c' ∈ cs', ∃ c ∈ cs, c.IsRotated c'

theorem SameCycles.refl (cs : List (List NodeId)) : SameCycles cs cs :=
  ⟨fun c hc => ⟨c, hc, .refl c⟩, fun c hc => ⟨c, hc, .refl c⟩⟩

theorem SameCycles.symm {cs cs' : List (List NodeId)} (h : SameCycles cs cs') :
    SameCycles cs' cs :=
  ⟨h.right, h.left⟩

theorem SameCycles.trans {cs cs' cs'' : List (List NodeId)} (h : SameCycles cs cs')
    (h' : SameCycles cs' cs'') : SameCycles cs cs'' := by
  have half : ∀ {a b c : List (List NodeId)}, SameCycles a b → SameCycles b c →
      ∀ x ∈ a, ∃ z ∈ c, z.IsRotated x := by
    intro a b c hab hbc x hx
    obtain ⟨y, hy, hyx⟩ := hab.left x hx
    obtain ⟨z, hz, hzy⟩ := hbc.left y hy
    exact ⟨z, hz, hzy.trans hyx⟩
  exact ⟨half h h', half h'.symm h.symm⟩

theorem Topology.IsSimpleCycle.rotated {t : Topology} {l l' : List NodeId}
    (h : t.IsSimpleCycle l) (hrot : l.IsRotated l') : t.IsSimpleCycle l' := by
  obtain ⟨n, rfl⟩ := hrot
  have hlen : 0 < l.length := List.length_pos_of_ne_nil h.ne_nil
  refine ⟨?_, List.nodup_rotate.mpr h.nodup, fun i hi => ?_⟩
  · intro hnil
    exact h.ne_nil (List.rotate_eq_nil_iff.mp hnil)
  · rw [List.length_rotate] at hi ⊢
    obtain ⟨c, hc, hsource, hsink⟩ := h.connected ((i + n) % l.length) (Nat.mod_lt _ hlen)
    refine ⟨c, hc, ?_, ?_⟩
    · rw [List.getElem?_rotate hi, hsource]
    · rw [List.getElem?_rotate (Nat.mod_lt _ hlen), ← hsink]
      congr 1
      rw [Nat.mod_add_mod, Nat.mod_add_mod]
      congr 1
      omega

namespace NodeState

variable {lib : GraphLibrary} {s s' : NodeState}

/-! ## Links between bridged nodes -/

/-- The nodes with the bridge enabled and the Thunderbolt connections between them. -/
def bridged (s : NodeState) : Topology :=
  let enabled := enabledNodes s.nodeThunderboltBridge
  s.topology.bridgeGraph enabled (getIpsWithInterfaceType enabled s.nodeNetwork .thunderbolt)
    (enabledNodes_nodup s.nodeThunderboltBridge)

/-- There is a Thunderbolt connection from one bridged node to another. -/
def BridgeLink (s : NodeState) (u v : NodeId) : Prop :=
  ∃ c ∈ s.bridged.connections, c.source = u ∧ c.sink = v

/-- A cycle of at least two bridged nodes. -/
def BridgeCycle (s : NodeState) (l : List NodeId) : Prop :=
  s.bridged.IsSimpleCycle l ∧ 2 ≤ l.length

/-- The link lies on a cycle of bridged nodes. -/
def OnCycle (s : NodeState) (u v : NodeId) : Prop :=
  ∃ l, s.BridgeCycle l ∧ ∃ i < l.length, l[i]? = some u ∧ l[(i + 1) % l.length]? = some v

/-- No two bridged nodes are connected by a name instead of an address. -/
def Addressed (s : NodeState) : Prop :=
  (enabledNodes s.nodeThunderboltBridge).length < 2 ∨
    ∀ c ∈ s.topology.connections, c.source ∈ enabledNodes s.nodeThunderboltBridge →
      c.sink ∈ enabledNodes s.nodeThunderboltBridge →
      ∀ m, c.edge = .socket m → m.ipAddress.isSome

/-- `get_thunderbolt_bridge_cycles` of the state. -/
def recomputed (lib : GraphLibrary) (s : NodeState) : Option (List (List NodeId)) :=
  s.topology.getThunderboltBridgeCycles lib s.nodeThunderboltBridge s.nodeNetwork

/-- The cycles of the state are those it would compute. -/
def Fresh (lib : GraphLibrary) (s : NodeState) : Prop :=
  ∃ cycles, s.recomputed lib = some cycles ∧ SameCycles s.thunderboltBridgeCycles cycles

/-- The events after which the cycles are computed again. -/
def recomputes (s : NodeState) : NodeEvent → Bool
  | .nodeTimedOut nodeId =>
      (s.nodeThunderboltBridge.get? nodeId).any fun status => status.enabled
  | .nodeGatheredInfo nodeId _ (.thunderboltBridgeInfo status) =>
      (s.nodeThunderboltBridge.get? nodeId).any (fun status => status.enabled) ≠ status.enabled
  | _ => false

/-- No link is made or broken that lies on a cycle, and no bridged nodes are connected by name. -/
structure SameLinks (s s' : NodeState) : Prop where
  addressed : s'.Addressed
  broken : ∀ u v, s.OnCycle u v → s'.BridgeLink u v
  made : ∀ u v, s'.OnCycle u v → s.BridgeLink u v

/-- The cycles are computed again, or the event does not change them. -/
def KeepsCycles (lib : GraphLibrary) (s : NodeState) (e : NodeEvent) : Prop :=
  s.recomputes e ∨ ∀ s', s.apply lib e = some s' → s.SameLinks s'

/-! ## What is computed -/

theorem overThunderbolt?_isSome (ips : List String) (c : Connection) :
    (c.overThunderbolt? ips).isSome ↔ ∀ m, c.edge = .socket m → m.ipAddress.isSome := by
  unfold Connection.overThunderbolt?
  cases c.edge with
  | socket m => simp
  | rdma sourceRdmaIface sinkRdmaIface => simp

theorem recomputed_isSome : (s.recomputed lib).isSome ↔ s.Addressed := by
  unfold recomputed Topology.getThunderboltBridgeCycles Addressed
  by_cases hfew : (enabledNodes s.nodeThunderboltBridge).length < 2
  · simp [hfew]
  · rw [if_neg hfew, or_iff_right hfew]
    simp only [← overThunderbolt?_isSome (getIpsWithInterfaceType
      (enabledNodes s.nodeThunderboltBridge) s.nodeNetwork .thunderbolt)]
    split
    · rename_i hall
      simp only [List.all_eq_true, List.mem_filter, decide_eq_true_eq] at hall
      exact iff_of_true rfl fun c hc hsource hsink => hall c ⟨hc, hsource, hsink⟩
    · rename_i hall
      refine iff_of_false (by simp) fun h => hall ?_
      simp only [List.all_eq_true, List.mem_filter, decide_eq_true_eq]
      exact fun c hc => h c hc.1 hc.2.1 hc.2.2

/-- There is no cycle of fewer than two nodes. -/
theorem not_bridgeCycle (h : (enabledNodes s.nodeThunderboltBridge).length < 2) (l : List NodeId) :
    ¬ s.BridgeCycle l := by
  intro ⟨hcycle, hlen⟩
  have hsub : ∀ v ∈ l, v ∈ enabledNodes s.nodeThunderboltBridge := fun v hv =>
    List.mem_of_mem_filter (hcycle.mem_nodes v hv)
  have hle := (List.subperm_of_subset hcycle.nodup hsub).length_le
  omega

/-- The cycles that are computed are the cycles of bridged nodes. -/
theorem exists_mem_recomputed (hlib : ∀ t : Topology, t.FindsSimpleCycles lib)
    {cycles : List (List NodeId)} (h : s.recomputed lib = some cycles) (l : List NodeId) :
    (∃ c ∈ cycles, c.IsRotated l) ↔ s.BridgeCycle l := by
  unfold recomputed Topology.getThunderboltBridgeCycles at h
  by_cases hfew : (enabledNodes s.nodeThunderboltBridge).length < 2
  · rw [if_pos hfew] at h
    obtain rfl := Option.some.inj h
    exact iff_of_false (by simp) (not_bridgeCycle hfew l)
  · rw [if_neg hfew] at h
    dsimp only at h
    split at h
    · obtain rfl := Option.some.inj h
      constructor
      · intro ⟨c, hc, hrot⟩
        obtain ⟨hmem, hlen⟩ := List.mem_filter.mp hc
        refine ⟨((hlib _).sound c hmem).rotated hrot, ?_⟩
        rw [← hrot.perm.length_eq]
        exact of_decide_eq_true hlen
      · intro ⟨hcycle, hlen⟩
        obtain ⟨c, hmem, hrot⟩ := (hlib _).complete l hcycle
        refine ⟨c, List.mem_filter.mpr ⟨hmem, decide_eq_true ?_⟩, hrot⟩
        rw [hrot.perm.length_eq]
        exact hlen
    · cases h

/-- A cycle whose links are there is a cycle. -/
theorem BridgeCycle.of_links {l : List NodeId} (h : s.BridgeCycle l)
    (hlinks : ∀ u v, s.OnCycle u v → s'.BridgeLink u v) : s'.BridgeCycle l := by
  refine ⟨⟨h.1.ne_nil, h.1.nodup, fun i hi => ?_⟩, h.2⟩
  obtain ⟨c, -, hsource, hsink⟩ := h.1.connected i hi
  obtain ⟨c', hc', hs, ht⟩ := hlinks _ _ ⟨l, h, i, hi, hsource, hsink⟩
  exact ⟨c', hc', by rw [hsource, hs], by rw [hsink, ht]⟩

/-- The links of a cycle are there. -/
theorem OnCycle.of_cycles {u v : NodeId} (h : s.OnCycle u v)
    (hcycles : ∀ l, s.BridgeCycle l → s'.BridgeCycle l) : s'.BridgeLink u v := by
  obtain ⟨l, hl, i, hi, hu, hv⟩ := h
  obtain ⟨c, hc, hsource, hsink⟩ := (hcycles l hl).1.connected i hi
  exact ⟨c, hc, Option.some.inj (hsource.symm.trans hu), Option.some.inj (hsink.symm.trans hv)⟩

/-- The same cycles are computed when the cycles of bridged nodes are the same. -/
theorem sameCycles_recomputed_iff (hlib : ∀ t : Topology, t.FindsSimpleCycles lib)
    {cycles cycles' : List (List NodeId)} (h : s.recomputed lib = some cycles)
    (h' : s'.recomputed lib = some cycles') :
    SameCycles cycles cycles' ↔ ∀ l, s.BridgeCycle l ↔ s'.BridgeCycle l := by
  have hmem := exists_mem_recomputed hlib h
  have hmem' := exists_mem_recomputed hlib h'
  constructor
  · intro hsame l
    rw [← hmem, ← hmem']
    constructor
    · intro ⟨c, hc, hrot⟩
      obtain ⟨c', hc', hrot'⟩ := hsame.left c hc
      exact ⟨c', hc', hrot'.trans hrot⟩
    · intro ⟨c', hc', hrot'⟩
      obtain ⟨c, hc, hrot⟩ := hsame.right c' hc'
      exact ⟨c, hc, hrot.trans hrot'⟩
  · intro hcycles
    constructor
    · intro c hc
      exact (hmem' c).mpr ((hcycles c).mp ((hmem c).mp ⟨c, hc, .refl c⟩))
    · intro c' hc'
      exact (hmem c').mpr ((hcycles c').mpr ((hmem' c').mp ⟨c', hc', .refl c'⟩))

/-! ## A step -/

/-- What is kept is right exactly when the links on cycles are the same. -/
theorem fresh_iff_sameLinks (hlib : ∀ t : Topology, t.FindsSimpleCycles lib) (h : s.Fresh lib)
    (hkept : s'.thunderboltBridgeCycles = s.thunderboltBridgeCycles) :
    s'.Fresh lib ↔ s.SameLinks s' := by
  obtain ⟨cycles, hcycles, hsame⟩ := h
  constructor
  · intro ⟨cycles', hcycles', hsame'⟩
    rw [hkept] at hsame'
    have hiff := (sameCycles_recomputed_iff hlib hcycles hcycles').mp (hsame.symm.trans hsame')
    refine ⟨recomputed_isSome.1 (by rw [hcycles']; rfl), fun u v huv => ?_, fun u v huv => ?_⟩
    · exact huv.of_cycles fun l => (hiff l).mp
    · exact huv.of_cycles fun l => (hiff l).mpr
  · intro hlinks
    obtain ⟨cycles', hcycles'⟩ := Option.isSome_iff_exists.mp
      (recomputed_isSome.2 hlinks.addressed)
    refine ⟨cycles', hcycles', ?_⟩
    rw [hkept]
    refine hsame.trans ((sameCycles_recomputed_iff hlib hcycles hcycles').mpr fun l => ?_)
    exact ⟨fun hl => hl.of_links hlinks.broken, fun hl => hl.of_links hlinks.made⟩

variable {e : NodeEvent}

/-- Events that compute the cycles, and events that leave them alone. -/
theorem cycles_apply (hs : s.apply lib e = some s') :
    if s.recomputes e then s'.recomputed lib = some s'.thunderboltBridgeCycles
    else s'.thunderboltBridgeCycles = s.thunderboltBridgeCycles := by
  cases e with
  | nodeTimedOut nodeId =>
      obtain ⟨cycles, hcycles, rfl⟩ := Option.map_eq_some_iff.mp hs
      by_cases hleaving : (s.nodeThunderboltBridge.get? nodeId).any fun status => status.enabled
      · rw [if_pos hleaving] at hcycles
        rw [recomputes, if_pos hleaving]
        exact hcycles
      · rw [if_neg hleaving] at hcycles
        rw [recomputes, if_neg hleaving]
        exact (Option.some.inj hcycles).symm
  | nodeGatheredInfo nodeId time info =>
      cases info with
      | thunderboltBridgeInfo status =>
          obtain ⟨cycles, hcycles, rfl⟩ := Option.map_eq_some_iff.mp hs
          by_cases hswitched : (s.nodeThunderboltBridge.get? nodeId).any
              (fun status => status.enabled) ≠ status.enabled
          · rw [if_pos hswitched] at hcycles
            rw [recomputes, if_pos (decide_eq_true hswitched)]
            exact hcycles
          · rw [if_neg hswitched] at hcycles
            rw [recomputes, if_neg (by simpa using hswitched)]
            exact (Option.some.inj hcycles).symm
      | macThunderboltConnections conns =>
          obtain ⟨topology, -, rfl⟩ := Option.map_eq_some_iff.mp hs
          rfl
      | _ =>
          obtain rfl := Option.some.inj hs
          rfl
  | topologyEdgeCreated _ | topologyEdgeDeleted _ | other =>
      obtain rfl := Option.some.inj hs
      rfl

/-- **An event leaves the cycles right exactly when it keeps the links on cycles.** -/
theorem fresh_step_iff (hlib : ∀ t : Topology, t.FindsSimpleCycles lib)
    (h : s.Fresh lib) (hs : s.apply lib e = some s') : s'.Fresh lib ↔ s.KeepsCycles lib e := by
  have hcycles := cycles_apply hs
  by_cases hre : s.recomputes e
  · rw [if_pos hre] at hcycles
    exact iff_of_true ⟨_, hcycles, .refl _⟩ (.inl hre)
  · rw [if_neg hre] at hcycles
    rw [fresh_iff_sameLinks hlib h hcycles]
    constructor
    · intro hlinks
      refine .inr fun t ht => ?_
      rw [← Option.some.inj (hs.symm.trans ht)]
      exact hlinks
    · intro hkeeps
      exact hkeeps.resolve_left hre s' hs

/-- Nothing about cycles happens while fewer than two nodes are bridged. -/
theorem keepsCycles_of_few
    (h : s.recomputes e ∨ (enabledNodes s.nodeThunderboltBridge).length < 2
      ∧ (s.apply lib e).all fun s' => (enabledNodes s'.nodeThunderboltBridge).length < 2) :
    s.KeepsCycles lib e := by
  refine h.imp_right fun ⟨hfew, hfew'⟩ s' hs => ?_
  rw [hs] at hfew'
  have hfew' : (enabledNodes s'.nodeThunderboltBridge).length < 2 := by simpa using hfew'
  refine ⟨.inl hfew', fun u v hon => ?_, fun u v hon => ?_⟩
  · obtain ⟨l, hl, -⟩ := hon
    exact absurd hl (not_bridgeCycle hfew l)
  · obtain ⟨l, hl, -⟩ := hon
    exact absurd hl (not_bridgeCycle hfew' l)

theorem fresh_init : ({} : NodeState).Fresh lib :=
  ⟨[], rfl, .refl []⟩

end NodeState

/--
**The cycles are never stale exactly as long as no event that does not compute them makes or
breaks a link on a cycle.**
-/
theorem fresh_throughout_iff {lib : GraphLibrary} (hlib : ∀ t : Topology, t.FindsSimpleCycles lib)
    {events : List NodeEvent} {s : NodeState} (h : (nodeMachine lib).run {} events = some s) :
    (∀ k t, (nodeMachine lib).run {} (events.take k) = some t → t.Fresh lib)
      ↔ ∀ k e t, events[k]? = some e → (nodeMachine lib).run {} (events.take k) = some t →
        t.KeepsCycles lib e :=
  Machine.throughout_iff (fun _ _ _ => NodeState.fresh_step_iff hlib) NodeState.fresh_init h

/-- Two nodes with a Thunderbolt interface each. -/
def interfacesLog : List NodeEvent :=
  [.nodeGatheredInfo 1 0 (.nodeNetworkInterfaces [⟨"169.254.0.1", .thunderbolt⟩]),
    .nodeGatheredInfo 2 0 (.nodeNetworkInterfaces [⟨"169.254.0.2", .thunderbolt⟩])]

/-- They find each other. -/
def linksLog : List NodeEvent :=
  [.topologyEdgeCreated ⟨1, 2, .socket ⟨.ip4, "169.254.0.2", ""⟩⟩,
    .topologyEdgeCreated ⟨2, 1, .socket ⟨.ip4, "169.254.0.1", ""⟩⟩]

/-- The bridge is enabled on both. -/
def bridgesLog : List NodeEvent :=
  [.nodeGatheredInfo 1 0 (.thunderboltBridgeInfo ⟨true, true, none⟩),
    .nodeGatheredInfo 2 0 (.thunderboltBridgeInfo ⟨true, true, none⟩)]

theorem fresh_throughout_bridges_last : ∃ s,
    (nodeMachine .search).run {} (interfacesLog ++ linksLog ++ bridgesLog) = some s ∧ ∀ k t,
      (nodeMachine .search).run {} ((interfacesLog ++ linksLog ++ bridgesLog).take k) = some t →
        t.Fresh .search := by
  have hrun : (nodeMachine .search).runWhen
      (fun s e => s.recomputes e ∨ (enabledNodes s.nodeThunderboltBridge).length < 2
        ∧ (s.apply .search e).all fun s' => (enabledNodes s'.nodeThunderboltBridge).length < 2)
      {} (interfacesLog ++ linksLog ++ bridgesLog) = some _ := rfl
  obtain ⟨h, hall⟩ := Machine.runWhen_eq_some.mp hrun
  refine ⟨_, h, ?_⟩
  refine (fresh_throughout_iff GraphLibrary.search_findsSimpleCycles h).mpr fun k e t hk ht => ?_
  exact NodeState.keepsCycles_of_few (hall k e t hk ht)

/-- When the bridges are enabled first, the links make a cycle that is not computed. -/
theorem not_fresh_links_last : ¬ ∀ lib, (∀ t : Topology, t.FindsSimpleCycles lib) →
    ∀ events s, (nodeMachine lib).run {} events = some s → s.Fresh lib := by
  intro h
  obtain ⟨cycles, hcycles, hsame⟩ := h .search GraphLibrary.search_findsSimpleCycles
    (interfacesLog ++ bridgesLog ++ linksLog) _ rfl
  have htwo : some [[1, 2], [2, 1]] = some cycles := hcycles
  obtain rfl := Option.some.inj htwo
  obtain ⟨c, hc, -⟩ := hsame.right [1, 2] (by decide)
  cases hc

end Exo
