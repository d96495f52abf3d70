import Exo.Master.Placement
import Exo.Master.ShardingSafety

/-!
# A placement is what was asked for

Whatever the filters let through, and whichever cycle is selected in the end, the instance runs
on the nodes of one cycle of the topology that meets every constraint of the command, its
runners have the ranks of that cycle, and its tables name connections that exist.
-/

namespace Exo

open Lib

/-! ## The tables -/

/-- The hosts of a ring: every node has one for itself and one for each of its neighbours. -/
structure RingConnected (t : Topology) (nodeIds : List NodeId) (port : Nat)
    (hostsByNode : Dict NodeId (List Host)) : Prop where
  nodes : ∀ n, (hostsByNode.get? n).isSome ↔ n ∈ nodeIds
  /-- Every node has a host for every rank, itself at its own. -/
  self : ∀ (i : Nat) n, nodeIds[i]? = some n → ∃ hosts, hostsByNode.get? n = some hosts
    ∧ hosts.length = nodeIds.length ∧ hosts[i]? = some ⟨"0.0.0.0", port⟩
  /-- The host of a neighbour is the address of a socket to it. -/
  neighbours : ∀ (i j : Nat) n m, nodeIds[i]? = some n → nodeIds[j]? = some m → j ≠ i →
    j = (i + nodeIds.length - 1) % nodeIds.length ∨ j = (i + 1) % nodeIds.length →
    ∃ hosts address ip, hostsByNode.get? n = some hosts ∧ hosts[j]? = some ⟨ip, port⟩
      ∧ address.ipAddress = some ip ∧ ⟨n, m, .socket address⟩ ∈ t.connections

/-- The devices of Jaccl, and the addresses of its coordinator. -/
structure JacclConnected (t : Topology) (nodeIds : List NodeId) (port : Nat)
    (rdmaCtl : Dict NodeId Bool) (jacclDevices : List (List (Option String)))
    (jacclCoordinators : Dict NodeId String) : Prop where
  rdmaEnabled : ∀ n ∈ nodeIds, rdmaCtl.get? n = some true
  rows : jacclDevices.length = nodeIds.length ∧ ∀ row ∈ jacclDevices, row.length = nodeIds.length
  /-- The device of a rank for another one is the interface of an RDMA connection to it. -/
  devices : ∀ (i j : Nat) n m, i ≠ j → nodeIds[i]? = some n → nodeIds[j]? = some m →
    ∃ row iface sinkIface, jacclDevices[i]? = some row ∧ row[j]? = some (some iface)
      ∧ ⟨n, m, .rdma iface sinkIface⟩ ∈ t.connections
  coordinators : ∀ n, (jacclCoordinators.get? n).isSome ↔ n ∈ nodeIds
  /-- The node of rank 0 coordinates, and the others have the address of a socket to it. -/
  addresses : ∃ coordinator, nodeIds[0]? = some coordinator ∧ ∀ n ∈ nodeIds, ∃ ip,
    jacclCoordinators.get? n = some (ip ++ ":" ++ toString port)
      ∧ (n = coordinator ∧ ip = "0.0.0.0" ∨ n ≠ coordinator ∧ ∃ address,
        address.ipAddress = some ip ∧ ⟨n, coordinator, .socket address⟩ ∈ t.connections)

section Tables

variable {lib : GraphLibrary} {t : Topology} {nodeIds : List NodeId} {port : Nat}
  {nodeNetwork : Dict NodeId NodeNetworkInfo}

/-- Every address is one of a socket. -/
theorem socketIps_ok {edges : List Edge} {ips : List String} (h : socketIps edges = .ok ips) :
    ∀ ip ∈ ips, ∃ address, .socket address ∈ edges ∧ address.ipAddress = some ip := by
  induction edges generalizing ips with
  | nil =>
      cases h
      exact fun ip hip => by cases hip
  | cons edge edges ih =>
      cases edge with
      | rdma =>
          intro ip hip
          obtain ⟨address, hmem, hip⟩ := ih h ip hip
          exact ⟨address, List.mem_cons_of_mem _ hmem, hip⟩
      | socket address =>
          simp only [socketIps] at h
          split at h
          · rename_i ip hip
            obtain ⟨rest, hrest, h⟩ := bind_eq_ok.1 h
            cases h
            intro ip' hip'
            rcases List.mem_cons.mp hip' with rfl | hip'
            · exact ⟨address, List.mem_cons_self, hip⟩
            · obtain ⟨address', hmem, hip'⟩ := ih hrest ip' hip'
              exact ⟨address', List.mem_cons_of_mem _ hmem, hip'⟩
          · cases h

/-- The address that is found is one of a socket. -/
theorem findIpPrioritised_ok {n m : NodeId} {ring : Bool} {ip : String}
    (h : findIpPrioritised lib n m t nodeNetwork ring = .ok (some ip)) :
    ∃ address, address.ipAddress = some ip ∧ ⟨n, m, .socket address⟩ ∈ t.connections := by
  obtain ⟨ips, hips, h⟩ := bind_eq_ok.1 h
  have hmem : ip ∈ ips := List.argmin_mem (Except.ok.inj h)
  obtain ⟨address, hsocket, hip⟩ := socketIps_ok hips ip hmem
  exact ⟨address, hip, Topology.mem_getAllConnectionsBetween.1 hsocket⟩

theorem nodup_snd_enumerate (h : nodeIds.Nodup) : ((enumerate nodeIds).map Prod.snd).Nodup := by
  rwa [map_snd_enumerate]

/-- **The hosts of a ring are those of its neighbours.** -/
theorem ringConnected_of_ok {hostsByNode : Dict NodeId (List Host)} (hnodup : nodeIds.Nodup)
    (h : getMlxRingHostsByNode lib nodeIds t port nodeNetwork = .ok hostsByNode) :
    RingConnected t nodeIds port hostsByNode := by
  obtain ⟨hframe, hentries⟩ := fillM_ok (nodup_snd_enumerate hnodup) h
  have hrow : ∀ (i : Nat) n, nodeIds[i]? = some n → ∃ hosts, hostsByNode.get? n = some hosts
      ∧ hosts.length = nodeIds.length ∧ ∀ (j : Nat) m, nodeIds[j]? = some m → ∃ host,
        hosts[j]? = some host
          ∧ ringHost lib t port nodeNetwork nodeIds.length (i, n) (j, m) = .ok host := by
    intro i n hi
    obtain ⟨hosts, hhosts, hget⟩ := hentries (i, n) (mem_enumerate.2 hi)
    obtain ⟨hlength, hall⟩ := getElem?_of_mapM hhosts
    rw [enumerate_length] at hlength
    refine ⟨hosts, hget, hlength, ?_⟩
    intro j m hj
    exact hall j (j, m) (by rw [getElem?_enumerate, hj]; rfl)
  refine ⟨?_, ?_, ?_⟩
  · intro n
    constructor
    · intro hn
      by_contra hnot
      rw [hframe n (by rwa [map_snd_enumerate])] at hn
      cases hn
    · intro hn
      obtain ⟨i, hi⟩ := List.mem_iff_getElem?.mp hn
      obtain ⟨hosts, hget, -⟩ := hrow i n hi
      rw [hget]
      rfl
  · intro i n hi
    obtain ⟨hosts, hget, hlength, hall⟩ := hrow i n hi
    obtain ⟨host, hhost, hring⟩ := hall i n hi
    rw [ringHost, if_pos rfl] at hring
    cases hring
    exact ⟨hosts, hget, hlength, hhost⟩
  · intro i j n m hi hj hne hneighbour
    obtain ⟨hosts, hget, -, hall⟩ := hrow i n hi
    obtain ⟨host, hhost, hring⟩ := hall j m hj
    rw [ringHost, if_neg hne, if_neg fun hc => hneighbour.elim hc.1 hc.2] at hring
    obtain ⟨found, hfound, hring⟩ := bind_eq_ok.1 hring
    cases found with
    | none => cases hring
    | some ip =>
        cases hring
        obtain ⟨address, hip, hmem⟩ := findIpPrioritised_ok hfound
        exact ⟨hosts, address, ip, hget, hhost, hip, hmem⟩

/-- The matrix of devices is square, and off the diagonal it names interfaces. -/
theorem jacclDevices_of_ok {jacclDevices : List (List (Option String))}
    (h : getMlxJacclDevicesMatrix lib nodeIds t = .ok jacclDevices) :
    (jacclDevices.length = nodeIds.length ∧ ∀ row ∈ jacclDevices, row.length = nodeIds.length)
      ∧ ∀ (i j : Nat) n m, i ≠ j → nodeIds[i]? = some n → nodeIds[j]? = some m →
        ∃ row iface sinkIface, jacclDevices[i]? = some row ∧ row[j]? = some (some iface)
          ∧ ⟨n, m, .rdma iface sinkIface⟩ ∈ t.connections := by
  obtain ⟨hlength, hrows⟩ := getElem?_of_mapM h
  rw [enumerate_length] at hlength
  have hrow : ∀ (i : Nat) n, nodeIds[i]? = some n → ∃ row, jacclDevices[i]? = some row
      ∧ (enumerate nodeIds).mapM (fun j => jacclDevice lib t (i, n) j) = .ok row := by
    intro i n hi
    exact hrows i (i, n) (by rw [getElem?_enumerate, hi]; rfl)
  refine ⟨⟨hlength, ?_⟩, ?_⟩
  · intro row hmem
    obtain ⟨i, hi⟩ := List.mem_iff_getElem?.mp hmem
    have hlt : i < nodeIds.length := by
      rw [← hlength]
      exact (List.getElem?_eq_some_iff.mp hi).1
    obtain ⟨row', hrow', hcells⟩ := hrow i _ (List.getElem?_eq_getElem hlt)
    rw [hi] at hrow'
    cases hrow'
    have := (getElem?_of_mapM hcells).1
    rwa [enumerate_length] at this
  · intro i j n m hne hi hj
    obtain ⟨row, hrow, hcells⟩ := hrow i n hi
    obtain ⟨cell, hcell, hdevice⟩ := (getElem?_of_mapM hcells).2 j (j, m)
      (by rw [getElem?_enumerate, hj]; rfl)
    rw [jacclDevice, if_neg hne] at hdevice
    split at hdevice
    · rename_i iface hfirst
      cases hdevice
      obtain ⟨edge, hedge, hiface⟩ := List.exists_of_findSome?_eq_some hfirst
      cases edge with
      | socket => cases hiface
      | rdma sourceIface sinkIface =>
          cases hiface
          exact ⟨row, iface, sinkIface, hrow, hcell,
            Topology.mem_getAllConnectionsBetween.1 hedge⟩
    · cases hdevice

/-- Every node of the graph has an address of the coordinator. -/
theorem coordinators_of_ok {coordinator : NodeId} {jacclCoordinators : Dict NodeId String}
    (h : getMlxJacclCoordinators lib coordinator port t nodeNetwork = .ok jacclCoordinators) :
    (∀ n, (jacclCoordinators.get? n).isSome ↔ n ∈ t.nodes)
      ∧ ∀ n ∈ t.nodes, ∃ ip, jacclCoordinators.get? n = some (ip ++ ":" ++ toString port)
        ∧ (n = coordinator ∧ ip = "0.0.0.0" ∨ n ≠ coordinator ∧ ∃ address,
          address.ipAddress = some ip ∧ ⟨n, coordinator, .socket address⟩ ∈ t.connections) := by
  obtain ⟨hframe, hentries⟩ := fillM_ok (by rw [List.map_id]; exact t.nodup) h
  rw [List.map_id] at hframe
  refine ⟨?_, ?_⟩
  · intro n
    constructor
    · intro hn
      by_contra hnot
      rw [hframe n hnot] at hn
      cases hn
    · intro hn
      obtain ⟨address, -, hget⟩ := hentries n hn
      rw [show jacclCoordinators.get? n = some address from hget]
      rfl
  · intro n hn
    obtain ⟨address, hvalue, hget⟩ := hentries n hn
    obtain ⟨ip, hip, hvalue⟩ := bind_eq_ok.1 hvalue
    cases hvalue
    refine ⟨ip, hget, ?_⟩
    unfold coordinatorIp at hip
    split at hip
    · rename_i hself
      cases hip
      exact .inl ⟨hself, rfl⟩
    · rename_i hother
      obtain ⟨found, hfound, hip⟩ := bind_eq_ok.1 hip
      cases found with
      | none => cases hip
      | some ip' =>
          cases hip
          exact .inr ⟨hother, findIpPrioritised_ok hfound⟩

end Tables

/-! ## The shards -/

/-- Nodes, runners and shards correspond, and the ranks are the positions of the nodes. -/
structure RanksFollow (nodeIds : List NodeId) (a : Assignments) : Prop where
  ranks : ∀ (i : Nat) n, nodeIds[i]? = some n → ∃ r s, a.nodeToRunner.get? n = some r
    ∧ a.runnerToShard.get? r = some s ∧ s.deviceRank = i
  nodes : ∀ n, (a.nodeToRunner.get? n).isSome ↔ n ∈ nodeIds
  injective : ∀ n m r, a.nodeToRunner.get? n = some r → a.nodeToRunner.get? m = some r → n = m
  surjective : ∀ r, (a.runnerToShard.get? r).isSome → ∃ n, a.nodeToRunner.get? n = some r

section Shards

variable {modelCard : ModelCard} {cycle : Cycle} {runnerIds : RunnerIds} {shardAt : Nat → Shard}

/-- Only the nodes of the cycle get runners. -/
theorem mem_of_assignShards {n : NodeId}
    (h : ((assignShards modelCard cycle runnerIds shardAt).nodeToRunner.get? n).isSome) :
    n ∈ cycle.nodeIds := by
  unfold assignShards at h
  revert h
  induction cycle.nodeIds using List.reverseRecOn with
  | nil => exact fun h => by cases h
  | append_singleton nodeIds last ih =>
      intro h
      rw [enumerate_snoc, List.foldl_append, List.foldl_cons, List.foldl_nil,
        Assignments.add_nodeToRunner, Dict.get?_set] at h
      split at h
      · rename_i hn
        simp [hn]
      · exact List.mem_append_left _ (ih h)

/-- In a cycle of different nodes, every position gives its node the runner of that rank. -/
theorem ranksFollow_assignShards (hnodup : cycle.nodeIds.Nodup)
    (hrank : ∀ i, (shardAt i).deviceRank = i) :
    RanksFollow cycle.nodeIds (assignShards modelCard cycle runnerIds shardAt) := by
  have hrunner : ∀ (i : Nat) n, cycle.nodeIds[i]? = some n →
      (assignShards modelCard cycle runnerIds shardAt).nodeToRunner.get? n
        = some (runnerIds.draw i) := by
    intro i n hi
    refine assignShards_nodeToRunner _ _ _ _ hi ?_
    intro hmem
    obtain ⟨j, hj⟩ := List.mem_iff_getElem?.mp hmem
    rw [List.getElem?_drop] at hj
    have hlt : i < cycle.nodeIds.length := (List.getElem?_eq_some_iff.mp hi).1
    have := (List.getElem?_inj hlt hnodup).mp (hi.trans hj.symm)
    omega
  have hindex : ∀ n r, (assignShards modelCard cycle runnerIds shardAt).nodeToRunner.get? n
      = some r → ∃ i, cycle.nodeIds[i]? = some n ∧ r = runnerIds.draw i := by
    intro n r hn
    obtain ⟨i, hi⟩ := List.mem_iff_getElem?.mp
      (mem_of_assignShards (Option.isSome_iff_exists.mpr ⟨r, hn⟩))
    rw [hrunner i n hi] at hn
    exact ⟨i, hi, (Option.some.inj hn).symm⟩
  refine ⟨?_, ?_, ?_, ?_⟩
  · intro i n hi
    have hlt : i < cycle.nodeIds.length := (List.getElem?_eq_some_iff.mp hi).1
    exact ⟨_, _, hrunner i n hi, assignShards_get? _ _ _ _ hlt, hrank i⟩
  · intro n
    refine ⟨mem_of_assignShards, ?_⟩
    intro hn
    obtain ⟨i, hi⟩ := List.mem_iff_getElem?.mp hn
    rw [hrunner i n hi]
    rfl
  · intro n m r hn hm
    obtain ⟨i, hi, rfl⟩ := hindex n r hn
    obtain ⟨j, hj, hij⟩ := hindex m _ hm
    rw [runnerIds.distinct hij, hj] at hi
    exact (Option.some.inj hi).symm
  · intro r hr
    obtain ⟨s, hs⟩ := Option.isSome_iff_exists.mp hr
    rw [← Dict.mem_entries, assignShards_runnerToShard] at hs
    obtain ⟨i, hi, heq⟩ := List.mem_map.mp hs
    have hlt : i < cycle.nodeIds.length := List.mem_range.mp hi
    cases heq
    exact ⟨_, hrunner i _ (List.getElem?_eq_getElem hlt)⟩

/-- However a model is sharded, the shard of a rank has that rank. -/
theorem getShardAssignments_ok {sharding : Sharding} {nodeMemory : Dict NodeId MemoryUsage}
    {a : Assignments}
    (h : getShardAssignments modelCard cycle sharding nodeMemory runnerIds = .ok a) :
    ∃ shardAt, a = assignShards modelCard cycle runnerIds shardAt
      ∧ ∀ i, (shardAt i).deviceRank = i := by
  cases sharding with
  | tensor =>
      cases h
      exact ⟨_, rfl, fun i => rfl⟩
  | pipeline =>
      simp only [getShardAssignments, getShardAssignmentsForPipelineParallel] at h
      split at h
      all_goals
        obtain ⟨⟨⟩, -, h⟩ := bind_eq_ok.1 h
        obtain ⟨total, -, h⟩ := bind_eq_ok.1 h
        obtain ⟨allocations, -, h⟩ := bind_eq_ok.1 h
        cases h
        exact ⟨_, rfl, fun i => rfl⟩

end Shards

/-! ## The cycle -/

/-- The constraints on a cycle that are not about RDMA. -/
structure MeetsCommand (command : PlaceInstance) (maps : NodeMaps) (nodeIds : List NodeId) :
    Prop where
  minNodes : command.minNodes ≤ nodeIds.length
  requiredNodes : ∀ n ∈ maps.requiredNodes, n ∈ nodeIds
  memoryKnown : ∀ n ∈ nodeIds, (maps.memory.get? n).isSome
  memory : command.modelCard.storageSize ≤ cycleMemory maps.memory ⟨nodeIds⟩
  /-- Every node has a backend that the engine requires and the model supports. -/
  backends : ∀ n ∈ nodeIds, ∃ b ∈ (maps.backends.get? n).getD [],
    b ∈ INSTANCE_META_BACKENDS command.instanceMeta ∧ b ∈ command.modelCard.backends

section Filters

variable {lib : GraphLibrary} {command : PlaceInstance} {topology : Topology} {maps : NodeMaps}

theorem nonempty_ok {cycles cycles' : List Cycle} {error : PlacementError}
    (h : nonempty cycles error = .ok cycles') : cycles' = cycles ∧ cycles ≠ [] := by
  unfold nonempty at h
  split at h
  · cases h
  · rename_i hne
    exact ⟨(Except.ok.inj h).symm, hne⟩

variable {cycles : List Cycle}

variable {cycle : Cycle}

/-- What the first filters let through. -/
theorem mem_cyclesWithSufficientMemory :
    cycle ∈ cyclesWithSufficientMemory command cycles maps ↔
      cycle ∈ cycles ∧ command.minNodes ≤ cycle.nodeIds.length
        ∧ (∀ n ∈ maps.requiredNodes, n ∈ cycle.nodeIds)
        ∧ (∀ n ∈ cycle.nodeIds, (maps.memory.get? n).isSome)
        ∧ command.modelCard.storageSize ≤ cycleMemory maps.memory cycle := by
  have hrequired : cycle ∈ (if maps.requiredNodes = [] then
      cycles.filter fun cycle => command.minNodes ≤ cycle.nodeIds.length
      else (cycles.filter fun cycle => command.minNodes ≤ cycle.nodeIds.length).filter fun cycle =>
        maps.requiredNodes.all fun nodeId => nodeId ∈ cycle.nodeIds)
      ↔ (cycle ∈ cycles ∧ command.minNodes ≤ cycle.nodeIds.length)
        ∧ ∀ n ∈ maps.requiredNodes, n ∈ cycle.nodeIds := by
    split
    · rename_i hnone
      simp [hnone, List.mem_filter]
    · simp only [List.mem_filter, decide_eq_true_eq, List.all_eq_true]
  simp only [cyclesWithSufficientMemory, filterCyclesByMemory, List.mem_filter, hrequired,
    decide_eq_true_eq, List.all_eq_true, and_assoc]

theorem mem_getSmallestCycles :
    cycle ∈ getSmallestCycles cycles ↔ cycle ∈ cycles
      ∧ ∀ other ∈ cycles, cycle.nodeIds.length ≤ other.nodeIds.length := by
  unfold getSmallestCycles
  split
  · rename_i minNodes hmin
    obtain ⟨hmem, hle⟩ := List.min?_eq_some_iff.mp hmin
    rw [List.mem_filter, decide_eq_true_eq]
    constructor
    · intro h
      obtain ⟨hcycle, hlength⟩ := h
      refine ⟨hcycle, ?_⟩
      intro other hother
      rw [hlength]
      exact hle _ (List.mem_map.mpr ⟨other, hother, rfl⟩)
    · intro h
      obtain ⟨hcycle, hleast⟩ := h
      obtain ⟨least, hleast', hlength⟩ := List.mem_map.mp hmem
      have := hleast least hleast'
      have := hle _ (List.mem_map.mpr ⟨cycle, hcycle, rfl⟩)
      exact ⟨hcycle, by omega⟩
  · rename_i hnone
    rw [List.min?_eq_none_iff, List.map_eq_nil_iff] at hnone
    simp [hnone]

theorem filterCyclesBySharding_ok {cycles cycles' : List Cycle}
    (h : filterCyclesBySharding command cycles = .ok cycles') : ∀ c ∈ cycles', c ∈ cycles := by
  unfold filterCyclesBySharding at h
  split at h
  · split at h
    · rw [(nonempty_ok h).1]
      exact fun c hc => (List.mem_filter.mp hc).1
    · cases h
  · split at h
    · cases h
    · split at h
      · rw [(nonempty_ok h).1]
        exact fun c hc => (List.mem_filter.mp hc).1
      · cases h
        exact fun c hc => hc

theorem mem_requiredBackends {b : Backend} : b ∈ requiredBackends command ↔
    b ∈ INSTANCE_META_BACKENDS command.instanceMeta ∧ b ∈ command.modelCard.backends := by
  simp [requiredBackends]

/-- Every node has one of the backends that the engine and the model share. -/
theorem supports_iff :
    supports maps.backends (requiredBackends command) cycle ↔
      ∀ n ∈ cycle.nodeIds, ∃ b ∈ (maps.backends.get? n).getD [],
        b ∈ INSTANCE_META_BACKENDS command.instanceMeta ∧ b ∈ command.modelCard.backends := by
  simp only [supports, List.all_eq_true, List.any_eq_true, decide_eq_true_eq,
    mem_requiredBackends]

/-- **What a candidate is.** -/
theorem candidateCycles_ok
    (h : candidateCycles lib command topology maps = .ok cycles) : ∀ c ∈ cycles,
      c ∈ topology.getCycles lib ∧ MeetsCommand command maps c.nodeIds
        ∧ (command.instanceMeta = .mlxJaccl → topology.isRdmaCycle lib c
          ∧ ∀ n ∈ c.nodeIds, maps.rdmaCtl.get? n = some true) := by
  obtain ⟨enough, henough, hrest⟩ := bind_eq_ok.1 h
  obtain ⟨sharded, hsharded, hrest⟩ := bind_eq_ok.1 hrest
  obtain ⟨backed, hbacked, hrdma⟩ := bind_eq_ok.1 hrest
  -- a candidate went through the filters before the last one
  have hbefore : ∀ c ∈ backed, c ∈ topology.getCycles lib ∧ MeetsCommand command maps c.nodeIds := by
    intro c hc
    unfold filterCyclesByBackends at hbacked
    split at hbacked
    · cases hbacked
    · rw [(nonempty_ok hbacked).1, List.mem_filter] at hc
      obtain ⟨hsmall, hsupports⟩ := hc
      have hshard := (mem_getSmallestCycles.1 hsmall).1
      have hfirst := filterCyclesBySharding_ok hsharded c hshard
      rw [(nonempty_ok henough).1] at hfirst
      obtain ⟨hmem, hmin, hrequired, hknown, hmemory⟩ :=
        mem_cyclesWithSufficientMemory.1 hfirst
      exact ⟨hmem, hmin, hrequired, hknown, hmemory, supports_iff.1 hsupports⟩
  intro c hc
  unfold filterCyclesByRdma at hrdma
  split at hrdma
  · rw [(nonempty_ok hrdma).1, List.mem_filter, decide_eq_true_eq] at hc
    obtain ⟨hmem, hconnected, hctl⟩ := hc
    obtain ⟨hcycle, hmeets⟩ := hbefore c hmem
    simp only [allRdmaCtlEnabled, List.all_eq_true, decide_eq_true_eq] at hctl
    exact ⟨hcycle, hmeets, fun _ => ⟨hconnected, hctl⟩⟩
  · rename_i hring
    cases hrdma
    obtain ⟨hcycle, hmeets⟩ := hbefore c hc
    refine ⟨hcycle, hmeets, ?_⟩
    intro hjaccl
    rw [hring] at hjaccl
    cases hjaccl

/-- What is selected is one of the candidates. -/
theorem selectCycle_mem
    (h : selectCycle command topology maps cycles = some cycle) : cycle ∈ cycles := by
  have hmem := List.argmax_mem h
  split at hmem
  · exact (List.mem_filter.mp hmem).1
  · exact hmem

end Filters

/-! ## The instance -/

/-- What the tables of an instance are. -/
def TablesConnected (topology : Topology) (maps : NodeMaps) (port : Nat) (nodeIds : List NodeId) :
    PlacedInstance → Prop
  | .mlxRing _ _ hostsByNode ephemeralPort =>
      ephemeralPort = port ∧ RingConnected topology nodeIds port hostsByNode
  | .mlxJaccl _ _ jacclDevices jacclCoordinators =>
      JacclConnected topology nodeIds port maps.rdmaCtl jacclDevices jacclCoordinators

def PlacedInstance.instanceMeta : PlacedInstance → InstanceMeta
  | .mlxRing .. => .mlxRing
  | .mlxJaccl .. => .mlxJaccl

/-- The instance is a placement on these nodes. -/
structure IsPlacement (command : PlaceInstance) (topology : Topology) (maps : NodeMaps)
    (drawn : Drawn) (nodeIds : List NodeId) (inst : PlacedInstance) : Prop where
  instanceId : inst.instanceId = drawn.instanceId
  cycle : topology.IsCycle nodeIds
  distinct : nodeIds.Nodup
  meets : MeetsCommand command maps nodeIds
  /-- The engine is the one of the command, or a ring on a single node. -/
  engine : inst.instanceMeta
    = if nodeIds.length = 1 then .mlxRing else command.instanceMeta
  ranks : RanksFollow nodeIds inst.shardAssignments
  tables : TablesConnected topology maps drawn.port nodeIds inst

section Instance

variable {lib : GraphLibrary} {command : PlaceInstance} {topology : Topology} {maps : NodeMaps}
  {drawn : Drawn}

variable {a : Assignments}

/-- The node of rank 0 is the first of the cycle. -/
theorem zeroNode_ok {nodeIds : List NodeId} {coordinator : NodeId}
    (hranks : RanksFollow nodeIds a) (h : zeroNode a nodeIds = .ok coordinator) :
    nodeIds[0]? = some coordinator := by
  obtain ⟨ranks, hall, h⟩ := bind_eq_ok.1 h
  split at h
  · rename_i nodeId rank hfilter
    cases h
    have hmem : (coordinator, rank) ∈ (nodeIds.zip ranks).filter fun p => p.2 = 0 := by
      rw [hfilter]
      exact List.mem_singleton_self _
    obtain ⟨hzip, hzero⟩ := List.mem_filter.mp hmem
    have hzero : rank = 0 := of_decide_eq_true hzero
    obtain ⟨i, hi⟩ := List.mem_iff_getElem?.mp hzip
    obtain ⟨hnode, hrank⟩ := List.getElem?_zip_eq_some.mp hi
    -- the rank that is read there is the position
    obtain ⟨rank', hrank', hdevice⟩ := (getElem?_of_mapM hall).2 i coordinator hnode
    obtain ⟨r, s, hr, hs, hpos⟩ := hranks.ranks i coordinator hnode
    simp only [Assignments.deviceRank, hr, hs] at hdevice
    cases hdevice
    rw [hrank] at hrank'
    have hcast : (i : Int) = 0 := by
      rw [← hpos, ← Option.some.inj hrank', hzero]
    rwa [Int.natCast_eq_zero.mp hcast] at hnode
  · cases h

/-- A ring finds its tables in the subgraph, hence in the topology. -/
theorem RingConnected.mono {t t' : Topology} {nodeIds : List NodeId} {port : Nat}
    {hostsByNode : Dict NodeId (List Host)} (h : RingConnected t nodeIds port hostsByNode)
    (hsub : ∀ c ∈ t.connections, c ∈ t'.connections) :
    RingConnected t' nodeIds port hostsByNode where
  nodes := h.nodes
  self := h.self
  neighbours i j n m hi hj hne hneighbour := by
    obtain ⟨hosts, address, ip, hget, hhost, hip, hmem⟩ := h.neighbours i j n m hi hj hne hneighbour
    exact ⟨hosts, address, ip, hget, hhost, hip, hsub _ hmem⟩

/-- What is built on a cycle has the tables of its engine. -/
theorem buildInstance_ok {selectedCycle : Cycle} {inst : PlacedInstance}
    (hnodup : selectedCycle.nodeIds.Nodup) (hranks : RanksFollow selectedCycle.nodeIds a)
    (hrdma : command.instanceMeta = .mlxJaccl → ∀ n ∈ selectedCycle.nodeIds,
      maps.rdmaCtl.get? n = some true)
    (h : buildInstance lib command (topology.getSubgraphFromNodes lib selectedCycle.nodeIds)
      selectedCycle a maps drawn = .ok inst) :
    inst.instanceId = drawn.instanceId ∧ inst.shardAssignments = a
      ∧ inst.instanceMeta = command.instanceMeta
      ∧ TablesConnected topology maps drawn.port selectedCycle.nodeIds inst := by
  have hspec : (topology.getSubgraphFromNodes lib selectedCycle.nodeIds).nodes
        = selectedCycle.nodeIds
      ∧ ∀ c ∈ (topology.getSubgraphFromNodes lib selectedCycle.nodeIds).connections,
        c ∈ topology.connections := Topology.getSubgraphFromNodes_spec hnodup
  obtain ⟨hnodes, hsub⟩ := hspec
  unfold buildInstance at h
  split at h
  · rename_i hjaccl
    obtain ⟨coordinator, hzero, h⟩ := bind_eq_ok.1 h
    obtain ⟨devices, hdevices, h⟩ := bind_eq_ok.1 h
    obtain ⟨coordinators, hcoordinators, h⟩ := bind_eq_ok.1 h
    cases h
    obtain ⟨hrows, hcells⟩ := jacclDevices_of_ok hdevices
    obtain ⟨hkeys, haddresses⟩ := coordinators_of_ok hcoordinators
    rw [hnodes] at hkeys haddresses
    refine ⟨rfl, rfl, hjaccl.symm, hrdma hjaccl, hrows, ?_, hkeys, coordinator,
      zeroNode_ok hranks hzero, ?_⟩
    · intro i j n m hne hi hj
      obtain ⟨row, iface, sinkIface, hrow, hcell, hmem⟩ := hcells i j n m hne hi hj
      exact ⟨row, iface, sinkIface, hrow, hcell, hsub _ hmem⟩
    · intro n hn
      obtain ⟨ip, hget, hip⟩ := haddresses n hn
      refine ⟨ip, hget, hip.imp_right ?_⟩
      intro hother
      obtain ⟨hne, address, hip, hmem⟩ := hother
      exact ⟨hne, address, hip, hsub _ hmem⟩
  · rename_i hring
    obtain ⟨hostsByNode, hhosts, h⟩ := bind_eq_ok.1 h
    cases h
    exact ⟨rfl, rfl, hring.symm, rfl, (ringConnected_of_ok hnodup hhosts).mono hsub⟩

/-- **A placement adds one instance, on a cycle that meets the command.** -/
theorem placeInstance_sound {currentInstances result : Dict InstanceId PlacedInstance}
    (hlib : topology.FindsSimpleCycles lib)
    (hnew : currentInstances.get? drawn.instanceId = none)
    (h : placeInstance lib command topology currentInstances maps drawn = .ok result) :
    ∃ nodeIds inst, IsPlacement command topology maps drawn nodeIds inst
      ∧ result.entries = currentInstances.entries ++ [(drawn.instanceId, inst)] := by
  obtain ⟨cycles, hcycles, h⟩ := bind_eq_ok.mp h
  split at h
  · cases h
  · rename_i selectedCycle hselect
    obtain ⟨a, hassign, h⟩ := bind_eq_ok.mp h
    obtain ⟨inst, hbuild, h⟩ := bind_eq_ok.mp h
    cases h
    obtain ⟨hmem, hmeets, hrdma⟩ := candidateCycles_ok hcycles selectedCycle
      (selectCycle_mem hselect)
    have hcycle := Topology.isCycle_of_mem_getCycles hlib hmem
    obtain ⟨shardAt, rfl, hrank⟩ := getShardAssignments_ok hassign
    have hranks : RanksFollow selectedCycle.nodeIds
        (assignShards (command.forCycle selectedCycle).modelCard selectedCycle drawn.runnerIds
          shardAt) :=
      ranksFollow_assignShards hcycle.nodup hrank
    have hengine : (command.forCycle selectedCycle).instanceMeta
        = if selectedCycle.nodeIds.length = 1 then .mlxRing else command.instanceMeta := by
      unfold PlaceInstance.forCycle
      split <;> rfl
    have hctl : (command.forCycle selectedCycle).instanceMeta = .mlxJaccl →
        ∀ n ∈ selectedCycle.nodeIds, maps.rdmaCtl.get? n = some true := by
      intro hjaccl
      rw [hengine] at hjaccl
      split at hjaccl
      · cases hjaccl
      · exact (hrdma hjaccl).2
    obtain ⟨hid, hshards, hmeta, htables⟩ := buildInstance_ok hcycle.nodup hranks hctl hbuild
    refine ⟨selectedCycle.nodeIds, inst, ⟨hid, hcycle, hcycle.nodup, hmeets, hmeta.trans hengine,
      hshards.symm ▸ hranks, htables⟩, ?_⟩
    refine Dict.entries_set_of_new ?_
    rw [Dict.mem_keys, hnew]
    exact Bool.false_ne_true

end Instance

/-! ## Two nodes that know each other -/

/-- The library as it is on a graph whose only cycle is `a`, `b`. -/
def pairLibrary (a b : NodeId) : GraphLibrary where
  simpleCycles _ := [[a, b]]
  arrange := id
  arrange_perm := fun l => List.Perm.refl l

/-- Where all connections are between `a` and `b`, their cycle is the only one. -/
theorem findsSimpleCycles_pair {t : Topology} {a b : NodeId} (hne : a ≠ b)
    (hconn : ∀ c ∈ t.connections, c.source = a ∧ c.sink = b ∨ c.source = b ∧ c.sink = a)
    (hab : ∃ c ∈ t.connections, c.source = a) (hba : ∃ c ∈ t.connections, c.source = b) :
    Topology.FindsSimpleCycles (pairLibrary a b) t where
  sound := by
    intro l hl
    obtain rfl : l = [a, b] := List.mem_singleton.mp hl
    obtain ⟨c, hc, rfl⟩ := hab
    obtain ⟨c', hc', rfl⟩ := hba
    refine ⟨by simp, by simpa using hne, ?_⟩
    intro i hi
    have hsink := hconn c hc
    have hsink' := hconn c' hc'
    match i, hi with
    | 0, _ => exact ⟨c, hc, rfl, by simp; tauto⟩
    | 1, _ => exact ⟨c', hc', rfl, by simp; tauto⟩
  complete := by
    intro l hl
    refine ⟨[a, b], List.mem_singleton_self _, ?_⟩
    have hends : ∀ i < l.length, (l[i]? = some a ∧ l[(i + 1) % l.length]? = some b)
        ∨ (l[i]? = some b ∧ l[(i + 1) % l.length]? = some a) := by
      intro i hi
      obtain ⟨c, hc, hsource, hsink⟩ := hl.connected i hi
      rw [hsource, hsink]
      rcases hconn c hc with ⟨h1, h2⟩ | ⟨h1, h2⟩
      · exact .inl ⟨congrArg some h1, congrArg some h2⟩
      · exact .inr ⟨congrArg some h1, congrArg some h2⟩
    match l, hl, hends with
    | [], hl, _ => exact absurd rfl hl.ne_nil
    | [x], _, hends =>
        -- a node is not connected to itself
        have := hends 0 Nat.one_pos
        simp only [List.length_cons, List.length_nil, List.getElem?_cons_zero] at this
        rcases this with ⟨h1, h2⟩ | ⟨h1, h2⟩
        · exact absurd (Option.some.inj (h1.symm.trans h2)) hne
        · exact absurd (Option.some.inj (h2.symm.trans h1)) hne
    | [x, y], _, hends =>
        have := hends 0 Nat.two_pos
        simp only [List.length_cons, List.length_nil, List.getElem?_cons_zero] at this
        rcases this with ⟨h1, h2⟩ | ⟨h1, h2⟩
        · cases h1
          cases h2
          exact List.IsRotated.refl _
        · cases h1
          cases h2
          exact ⟨1, rfl⟩
    | x :: y :: z :: l, hl, hends =>
        -- three different nodes, but there are only two
        have hx := hends 0 (by simp)
        have hy := hends 1 (by simp)
        have hz := hends 2 (by simp)
        have hnodup := hl.nodup
        simp only [List.nodup_cons, List.mem_cons, not_or] at hnodup
        simp only [List.getElem?_cons_zero, List.getElem?_cons_succ, Option.some.injEq] at hx hy hz
        obtain ⟨⟨hxy, hxz, -⟩, ⟨hyz, -⟩, -⟩ := hnodup
        rcases hx with ⟨rfl, -⟩ | ⟨rfl, -⟩ <;> rcases hy with ⟨rfl, -⟩ | ⟨rfl, -⟩ <;>
          rcases hz with ⟨rfl, -⟩ | ⟨rfl, -⟩ <;> simp_all

theorem nodup_rdmaPair : ([1, 2] : List NodeId).Nodup := by decide

/-- Nodes 1 and 2 with sockets and RDMA between them. -/
def rdmaPair : Topology where
  nodes := [1, 2]
  connections :=
    [⟨1, 2, .socket ⟨.ip4, "10.0.0.2", ""⟩⟩, ⟨2, 1, .socket ⟨.ip4, "10.0.0.1", ""⟩⟩,
      ⟨1, 2, .rdma "rdma_en2" "rdma_en3"⟩, ⟨2, 1, .rdma "rdma_en3" "rdma_en2"⟩]
  nodup := nodup_rdmaPair
  endpoints := by decide

/-- A model of two layers that needs both nodes. -/
def twoLayers : ModelCard where
  modelId := 7
  storageSize := 20
  nLayers := 2
  hiddenSize := 4
  supportsTensor := true
  backends := [.mlxMetal]
  nLayersPos := Nat.two_pos
  hiddenSizePos := Nat.succ_pos 3

def pairMaps : NodeMaps where
  memory := (Dict.empty.set 1 ⟨10⟩).set 2 ⟨10⟩
  backends := (Dict.empty.set 1 [.mlxMetal, .mlxCpu]).set 2 [.mlxMetal]
  rdmaCtl := (Dict.empty.set 1 true).set 2 true

theorem placeInstance_sound_rdmaPair :
    ∃ result nodeIds inst,
      placeInstance (pairLibrary 1 2) ⟨twoLayers, .pipeline, .mlxJaccl, 2⟩ rdmaPair .empty pairMaps
        ⟨9, countedIds, 5000⟩ = .ok result
      ∧ IsPlacement ⟨twoLayers, .pipeline, .mlxJaccl, 2⟩ rdmaPair pairMaps ⟨9, countedIds, 5000⟩
        nodeIds inst
      ∧ result.entries = [(9, inst)] := by
  have hlib : Topology.FindsSimpleCycles (pairLibrary 1 2) rdmaPair :=
    findsSimpleCycles_pair (by decide) (by decide) (by decide) (by decide)
  have hok : (placeInstance (pairLibrary 1 2) ⟨twoLayers, .pipeline, .mlxJaccl, 2⟩ rdmaPair .empty
      pairMaps ⟨9, countedIds, 5000⟩).isOk = true := by decide +kernel
  cases hresult : placeInstance (pairLibrary 1 2) ⟨twoLayers, .pipeline, .mlxJaccl, 2⟩ rdmaPair
      .empty pairMaps ⟨9, countedIds, 5000⟩ with
  | error e =>
      rw [hresult] at hok
      cases hok
  | ok result =>
      obtain ⟨nodeIds, inst, hplaced, hentries⟩ := placeInstance_sound hlib rfl hresult
      exact ⟨result, nodeIds, inst, rfl, hplaced, hentries⟩

end Exo
