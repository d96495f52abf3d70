import Exo.Master.PlacementSafety

/-!
# When a placement says that there is no cycle

A placement looks for the smallest cycles before it asks for backends and RDMA. So it can end
with an error that there is no cycle while there is one, a larger one. It tells the truth exactly
when one of the smallest cycles, among those with the nodes, the memory and a size that the model
can be sharded over, also meets what is asked for afterwards, or when no cycle at all does.
-/

namespace Exo

open Lib

/-- The errors that say that no cycle is left. -/
def PlacementError.isNoCycle : PlacementError → Bool
  | .noCyclesWithSufficientMemory | .noTensorSharding .. | .noPipelineForGemma
  | .noCycleWithBackends .. | .noRdmaCycles => true
  | _ => false

/-- The sizes of a cycle that the model can be sharded over. -/
def fitsSharding (command : PlaceInstance) (cycle : Cycle) : Bool :=
  match command.sharding with
  | .tensor => divides command.modelCard cycle
  | .pipeline => !command.modelCard.isFamily "Gemma 4" || cycle.nodeIds.length = 1

/-- The model itself cannot be sharded in the way the command asks for. -/
def PlaceInstance.refused (command : PlaceInstance) : Bool :=
  match command.sharding with
  | .tensor => !command.modelCard.supportsTensor
  | .pipeline => command.modelCard.modelId = DEEPSEEK_V3_1_8BIT

/-- What is asked of a cycle before its size is compared with the others'. -/
structure Considered (command : PlaceInstance) (maps : NodeMaps) (nodeIds : List NodeId) :
    Prop where
  minNodes : command.minNodes ≤ nodeIds.length
  requiredNodes : ∀ n ∈ maps.requiredNodes, n ∈ nodeIds
  memoryKnown : ∀ n ∈ nodeIds, (maps.memory.get? n).isSome
  memory : command.modelCard.storageSize ≤ cycleMemory maps.memory ⟨nodeIds⟩
  sharding : fitsSharding command ⟨nodeIds⟩

/-- What is asked of it afterwards. -/
structure Equipped (lib : GraphLibrary) (command : PlaceInstance) (topology : Topology)
    (maps : NodeMaps) (nodeIds : List NodeId) : Prop where
  backends : supports maps.backends (requiredBackends command) ⟨nodeIds⟩
  rdma : command.instanceMeta = .mlxJaccl →
    topology.isRdmaCycle lib ⟨nodeIds⟩ ∧ allRdmaCtlEnabled maps.rdmaCtl ⟨nodeIds⟩

/-- A cycle that meets every constraint. -/
structure Feasible (lib : GraphLibrary) (command : PlaceInstance) (topology : Topology)
    (maps : NodeMaps) (nodeIds : List NodeId) : Prop where
  cycle : topology.IsCycle nodeIds
  considered : Considered command maps nodeIds
  equipped : Equipped lib command topology maps nodeIds

/-- No feasible cycle is hidden behind smaller ones. -/
def NothingHidden (lib : GraphLibrary) (command : PlaceInstance) (topology : Topology)
    (maps : NodeMaps) : Prop :=
  command.refused
    ∨ (∀ nodeIds, ¬ Feasible lib command topology maps nodeIds)
    ∨ ∃ nodeIds, Feasible lib command topology maps nodeIds
        ∧ ∀ other, topology.IsCycle other → Considered command maps other →
          nodeIds.length ≤ other.length

/-! ## The constraints do not depend on where a cycle starts -/

section Perm

variable {lib : GraphLibrary} {command : PlaceInstance} {topology : Topology} {maps : NodeMaps}
  {l l' : List NodeId}

theorem Considered.perm (h : Considered command maps l) (hp : l'.Perm l) :
    Considered command maps l' where
  minNodes := by rw [hp.length_eq]; exact h.minNodes
  requiredNodes n hn := hp.mem_iff.mpr (h.requiredNodes n hn)
  memoryKnown n hn := h.memoryKnown n (hp.mem_iff.mp hn)
  memory := by
    have hsum : cycleMemory maps.memory ⟨l'⟩ = cycleMemory maps.memory ⟨l⟩ :=
      (hp.map _).sum_eq
    rw [hsum]
    exact h.memory
  sharding := by
    have hsame : fitsSharding command ⟨l'⟩ = fitsSharding command ⟨l⟩ := by
      simp only [fitsSharding, divides, hp.length_eq]
    rw [hsame]
    exact h.sharding

theorem all_perm {p q : NodeId → Bool} (hp : l'.Perm l) (hpq : ∀ n, p n = q n) (h : l.all p) :
    l'.all q := by
  rw [List.all_eq_true] at h ⊢
  intro n hn
  rw [← hpq]
  exact h n (hp.mem_iff.mp hn)

theorem Equipped.perm (h : Equipped lib command topology maps l) (hp : l'.Perm l) :
    Equipped lib command topology maps l' where
  backends := all_perm hp (fun _ => rfl) h.backends
  rdma hjaccl := by
    obtain ⟨hrdma, hctl⟩ := h.rdma hjaccl
    refine ⟨all_perm hp ?_ hrdma, all_perm hp (fun _ => rfl) hctl⟩
    intro rid
    simp only [hp.mem_iff]

end Perm

/-! ## The filters, and what they end in -/

section Filters

variable {lib : GraphLibrary} {command : PlaceInstance} {topology : Topology} {maps : NodeMaps}
  {cycles : List Cycle}

theorem mem_considered {cycle : Cycle} :
    cycle ∈ (cyclesWithSufficientMemory command cycles maps).filter (fitsSharding command)
      ↔ cycle ∈ cycles ∧ Considered command maps cycle.nodeIds := by
  rw [List.mem_filter, mem_cyclesWithSufficientMemory]
  constructor
  · intro h
    obtain ⟨⟨hmem, hmin, hrequired, hknown, hmemory⟩, hsharding⟩ := h
    exact ⟨hmem, hmin, hrequired, hknown, hmemory, hsharding⟩
  · intro h
    obtain ⟨hmem, hc⟩ := h
    exact ⟨⟨hmem, hc.minNodes, hc.requiredNodes, hc.memoryKnown, hc.memory⟩, hc.sharding⟩

theorem nonempty_cases (cycles : List Cycle) (error : PlacementError) :
    cycles = [] ∧ nonempty cycles error = .error error
      ∨ cycles ≠ [] ∧ nonempty cycles error = .ok cycles := by
  unfold nonempty
  by_cases h : cycles = []
  · exact .inl ⟨h, if_pos h⟩
  · exact .inr ⟨h, if_neg h⟩

/-- A refused model is not an error about cycles. -/
theorem filterCyclesBySharding_refused (h : command.refused) :
    ∃ e, filterCyclesBySharding command cycles = .error e ∧ e.isNoCycle = false := by
  cases hsharding : command.sharding with
  | tensor =>
      simp only [PlaceInstance.refused, hsharding] at h
      simp only [filterCyclesBySharding, hsharding]
      rw [if_neg (by simpa using h)]
      exact ⟨_, rfl, rfl⟩
  | pipeline =>
      simp only [PlaceInstance.refused, hsharding] at h
      simp only [filterCyclesBySharding, hsharding]
      rw [if_pos (by simpa using h)]
      exact ⟨_, rfl, rfl⟩

/-- What is left of the cycles, or an error that says that nothing is. -/
theorem filterCyclesBySharding_cases (h : command.refused = false) (hne : cycles ≠ []) :
    (cycles.filter (fitsSharding command) = []
        ∧ ∃ e, filterCyclesBySharding command cycles = .error e ∧ e.isNoCycle = true)
      ∨ (cycles.filter (fitsSharding command) ≠ []
        ∧ filterCyclesBySharding command cycles
          = .ok (cycles.filter (fitsSharding command))) := by
  cases hsharding : command.sharding with
  | tensor =>
      simp only [PlaceInstance.refused, hsharding] at h
      have hfits : fitsSharding command = divides command.modelCard := by
        funext cycle
        simp only [fitsSharding, hsharding]
      simp only [filterCyclesBySharding, hsharding, hfits]
      rw [if_pos (by simpa using h)]
      rcases nonempty_cases (cycles.filter (divides command.modelCard))
          (.noTensorSharding command.modelCard.hiddenSize command.modelCard.numKeyValueHeads)
        with ⟨hnil, herror⟩ | ⟨hcons, hok⟩
      · exact .inl ⟨hnil, _, herror, rfl⟩
      · exact .inr ⟨hcons, hok⟩
  | pipeline =>
      simp only [PlaceInstance.refused, hsharding] at h
      simp only [filterCyclesBySharding, hsharding]
      rw [if_neg (by simpa using h)]
      by_cases hgemma : command.modelCard.isFamily "Gemma 4" = true
      · have hfits : fitsSharding command = fun cycle => decide (cycle.nodeIds.length = 1) := by
          funext cycle
          simp [fitsSharding, hsharding, hgemma]
        rw [if_pos hgemma, hfits]
        rcases nonempty_cases (cycles.filter fun cycle => cycle.nodeIds.length = 1)
            .noPipelineForGemma with ⟨hnil, herror⟩ | ⟨hcons, hok⟩
        · exact .inl ⟨hnil, _, herror, rfl⟩
        · exact .inr ⟨hcons, hok⟩
      · have hfits : cycles.filter (fitsSharding command) = cycles := by
          refine List.filter_eq_self.mpr fun cycle _ => ?_
          simp only [fitsSharding, hsharding]
          simp [hgemma]
        rw [if_neg hgemma, hfits]
        exact .inr ⟨hne, rfl⟩

/-- The cycles that are compared by their size. -/
def consideredCycles (lib : GraphLibrary) (command : PlaceInstance) (topology : Topology)
    (maps : NodeMaps) : List Cycle :=
  (cyclesWithSufficientMemory command (topology.getCycles lib) maps).filter (fitsSharding command)

/-- Either some of the smallest cycles are equipped, or there is an error that says no cycle is. -/
theorem candidateCycles_cases (hrefused : command.refused = false)
    (hbackends : requiredBackends command ≠ []) :
    (∃ cycles, candidateCycles lib command topology maps = .ok cycles ∧ cycles ≠ []
        ∧ ∀ c, c ∈ cycles ↔ c ∈ getSmallestCycles (consideredCycles lib command topology maps)
          ∧ Equipped lib command topology maps c.nodeIds)
      ∨ (∃ e, candidateCycles lib command topology maps = .error e ∧ e.isNoCycle = true)
        ∧ ∀ c ∈ getSmallestCycles (consideredCycles lib command topology maps),
          ¬ Equipped lib command topology maps c.nodeIds := by
  unfold candidateCycles
  rcases nonempty_cases (cyclesWithSufficientMemory command (topology.getCycles lib) maps)
      .noCyclesWithSufficientMemory with ⟨hnil, herror⟩ | ⟨hcons, hok⟩
  · refine .inr ⟨⟨_, by rw [herror]; rfl, rfl⟩, ?_⟩
    intro c hc
    have hmem := (mem_getSmallestCycles.1 hc).1
    rw [consideredCycles, hnil] at hmem
    cases hmem
  rw [hok]
  rcases filterCyclesBySharding_cases hrefused hcons with ⟨hnil, e, herror, he⟩ | ⟨hcons, hok⟩
  · refine .inr ⟨⟨e, by rw [← herror]; simp [bind, Except.bind, herror], he⟩, ?_⟩
    intro c hc
    have hmem := (mem_getSmallestCycles.1 hc).1
    rw [consideredCycles, hnil] at hmem
    cases hmem
  have hbind : ∀ {α : Type} (f : List Cycle → Except PlacementError α),
      ((.ok (cyclesWithSufficientMemory command (topology.getCycles lib) maps)
        : Except PlacementError (List Cycle)) >>= fun cycles =>
          filterCyclesBySharding command cycles >>= f)
        = f (consideredCycles lib command topology maps) := by
    intro α f
    simp only [bind, Except.bind, hok, consideredCycles]
  rw [hbind, filterCyclesByBackends, if_neg hbackends]
  rcases nonempty_cases ((getSmallestCycles (consideredCycles lib command topology maps)).filter
      (supports maps.backends (requiredBackends command)))
      (.noCycleWithBackends (requiredBackends command) command.modelCard.modelId)
    with ⟨hnil, herror⟩ | ⟨hcons, hok⟩
  · refine .inr ⟨⟨_, by rw [herror]; rfl, rfl⟩, ?_⟩
    intro c hc heq
    exact List.filter_eq_nil_iff.mp hnil c hc heq.backends
  rw [hok]
  show (∃ cycles, filterCyclesByRdma lib command topology _ maps = .ok cycles ∧ _) ∨ (∃ e,
    filterCyclesByRdma lib command topology _ maps = .error e ∧ _) ∧ _
  unfold filterCyclesByRdma
  split
  · rename_i hjaccl
    rcases nonempty_cases (((getSmallestCycles
        (consideredCycles lib command topology maps)).filter
        (supports maps.backends (requiredBackends command))).filter fun cycle =>
          topology.isRdmaCycle lib cycle ∧ allRdmaCtlEnabled maps.rdmaCtl cycle)
        .noRdmaCycles with ⟨hnil, herror⟩ | ⟨hcons, hok⟩
    · refine .inr ⟨⟨_, herror, rfl⟩, ?_⟩
      intro c hc heq
      have hmem : c ∈ (getSmallestCycles (consideredCycles lib command topology maps)).filter
          (supports maps.backends (requiredBackends command)) :=
        List.mem_filter.mpr ⟨hc, heq.backends⟩
      have hnot := List.filter_eq_nil_iff.mp hnil c hmem
      rw [decide_eq_true_eq] at hnot
      exact hnot (heq.rdma hjaccl)
    · refine .inl ⟨_, hok, hcons, ?_⟩
      intro c
      rw [List.mem_filter, List.mem_filter, decide_eq_true_eq, and_assoc]
      refine and_congr_right fun _ => ?_
      constructor
      · intro h
        exact ⟨h.1, fun _ => h.2⟩
      · intro h
        exact ⟨h.backends, h.rdma hjaccl⟩
  · rename_i hring
    refine .inl ⟨_, rfl, hcons, ?_⟩
    intro c
    rw [List.mem_filter]
    refine and_congr_right fun _ => ?_
    constructor
    · intro h
      refine ⟨h, fun hjaccl => ?_⟩
      rw [hring] at hjaccl
      cases hjaccl
    · intro h
      exact h.backends

end Filters

/-! ## Errors after a cycle was selected -/

/-- The computation never fails with an error that says there is no cycle. -/
abbrev BlamesNoCycle {α : Type} (x : Except PlacementError α) : Prop :=
  FailsOnly (fun e => e.isNoCycle = false) x

section Errors

variable {lib : GraphLibrary} {modelCard : ModelCard} {nodeMemory : Dict NodeId MemoryUsage}

theorem ramAvailable_blames (nodeId : NodeId) : BlamesNoCycle (ramAvailable nodeMemory nodeId) := by
  unfold ramAvailable
  split
  · exact .ok _
  · exact .error rfl

theorem computeTotalMemory_blames (nodeIds : List NodeId) :
    BlamesNoCycle (computeTotalMemory nodeIds nodeMemory) := by
  refine .bind (.mapM ramAvailable_blames) fun available _ => ?_
  split
  · exact .error rfl
  · exact .ok _

theorem allocateLayers_blames (totalLayers : Nat) (fractions : List ℚ) :
    BlamesNoCycle (allocateLayersProportionally totalLayers fractions) := by
  unfold allocateLayersProportionally
  split
  · exact .error rfl
  split
  · exact .error rfl
  split
  · exact .error rfl
  refine .bind (.foldlM fun result i => ?_) fun result _ =>
    .foldlM fun result i => ?_
  · split
    · exact .ok _
    · exact .error rfl
  · split
    · split
      · split
        · exact .ok _
        · exact .error rfl
      · exact .error rfl
    · exact .ok _

theorem validateLayers_blames (allocations : List Nat) (i : Nat) (nodeIds : List NodeId) :
    BlamesNoCycle (validateLayers modelCard nodeMemory allocations i nodeIds) := by
  induction nodeIds generalizing i with
  | nil => exact .ok ()
  | cons nodeId nodeIds ih =>
      refine .bind (ramAvailable_blames nodeId) fun available _ => ?_
      split
      · exact .error rfl
      · exact ih (i + 1)

theorem allocateAndValidateLayers_blames (nodeIds : List NodeId) (total : Memory) :
    BlamesNoCycle (allocateAndValidateLayers nodeIds nodeMemory total modelCard) := by
  refine .bind (.mapM ramAvailable_blames) fun available _ => ?_
  refine .bind (allocateLayers_blames _ _) fun allocations _ => ?_
  exact .bind (validateLayers_blames _ _ _) fun _ _ => .ok _

theorem getShardAssignments_blames (cycle : Cycle) (sharding : Sharding) (runnerIds : RunnerIds) :
    BlamesNoCycle (getShardAssignments modelCard cycle sharding nodeMemory runnerIds) := by
  have hvalid : BlamesNoCycle (validateCycle cycle) := by
    unfold validateCycle
    split
    · exact .error rfl
    · exact .ok _
  cases sharding with
  | tensor => exact .ok _
  | pipeline =>
      simp only [getShardAssignments, getShardAssignmentsForPipelineParallel]
      split
      all_goals
        refine .bind hvalid fun _ _ => ?_
        refine .bind (computeTotalMemory_blames _) fun total _ => ?_
        exact .bind (allocateAndValidateLayers_blames _ _) fun _ _ => .ok _

theorem findIpPrioritised_blames (n m : NodeId) (t : Topology)
    (nodeNetwork : Dict NodeId NodeNetworkInfo) (ring : Bool) :
    BlamesNoCycle (findIpPrioritised lib n m t nodeNetwork ring) := by
  have hips : ∀ edges, BlamesNoCycle (socketIps edges) := by
    intro edges
    induction edges with
    | nil => exact .ok []
    | cons edge edges ih =>
        cases edge with
        | rdma => exact ih
        | socket address =>
            simp only [socketIps]
            split
            · exact .bind ih fun ips _ => .ok _
            · exact .error rfl
  exact .bind (hips _) fun ips _ => .ok _

theorem zeroNode_blames (a : Assignments) (nodeIds : List NodeId) :
    BlamesNoCycle (zeroNode a nodeIds) := by
  refine .bind (.mapM fun nodeId => ?_) fun ranks _ => ?_
  · unfold Assignments.deviceRank
    split
    · exact .error rfl
    · split
      · exact .error rfl
      · exact .ok _
  · split
    · exact .ok _
    · exact .error rfl

theorem buildInstance_blames (command : PlaceInstance) (t : Topology) (cycle : Cycle)
    (a : Assignments) (maps : NodeMaps) (drawn : Drawn) :
    BlamesNoCycle (buildInstance lib command t cycle a maps drawn) := by
  unfold buildInstance
  split
  · refine .bind (zeroNode_blames _ _) fun coordinator _ => ?_
    refine .bind (.mapM fun i => .mapM fun j => ?_) fun devices _ =>
      .bind (.fillM fun n => ?_) fun coordinators _ => .ok _
    · unfold jacclDevice
      split
      · exact .ok _
      · split
        · exact .ok _
        · exact .error rfl
    · refine .bind ?_ fun ip _ => .ok _
      unfold coordinatorIp
      split
      · exact .ok _
      · refine .bind (findIpPrioritised_blames _ _ _ _ _) fun ip _ => ?_
        split
        · exact .ok _
        · exact .error rfl
  · refine .bind (.fillM fun i => .mapM fun j => ?_)
      fun hosts _ => .ok _
    unfold ringHost
    split
    · exact .ok _
    · split
      · exact .ok _
      · refine .bind (findIpPrioritised_blames _ _ _ _ _) fun ip _ => ?_
        split
        · exact .ok _
        · exact .error rfl

end Errors

/-! ## When the errors tell the truth -/

section Truth

variable {lib : GraphLibrary} {command : PlaceInstance} {topology : Topology} {maps : NodeMaps}
  {currentInstances : Dict InstanceId PlacedInstance} {drawn : Drawn}

/-- A placement with candidates does not say that there is no cycle. -/
theorem placeInstance_blames_of_candidates {cycles : List Cycle}
    (h : candidateCycles lib command topology maps = .ok cycles) :
    BlamesNoCycle (placeInstance lib command topology currentInstances maps drawn) := by
  refine .bind ?_ fun cycles' _ => ?_
  · rw [h]
    exact .ok cycles
  · split
    · exact .error rfl
    · refine .bind (getShardAssignments_blames _ _ _) fun a _ => ?_
      exact .bind (buildInstance_blames _ _ _ _ _ _) fun inst _ => .ok _

/-- One that has none fails with the error of the filters. -/
theorem placeInstance_of_candidates_error {e : PlacementError}
    (h : candidateCycles lib command topology maps = .error e) :
    placeInstance lib command topology currentInstances maps drawn = .error e := by
  rw [placeInstance, h]
  rfl

variable {nodeIds : List NodeId}

/-- A feasible cycle is found, from one of its nodes on, and considered. -/
theorem exists_considered (hlib : topology.FindsSimpleCycles lib)
    (hcycle : topology.IsCycle nodeIds) (h : Considered command maps nodeIds) :
    ∃ c ∈ consideredCycles lib command topology maps, c.nodeIds.Perm nodeIds := by
  obtain ⟨c, hc, hperm⟩ := Topology.exists_mem_getCycles hlib hcycle
  exact ⟨c, mem_considered.2 ⟨hc, h.perm hperm⟩, hperm⟩

/-- Where there is a feasible cycle, the engine has a backend. -/
theorem requiredBackends_ne_nil
    (h : Feasible lib command topology maps nodeIds) : requiredBackends command ≠ [] := by
  intro hnil
  obtain ⟨n, rest, rfl⟩ := List.exists_cons_of_ne_nil h.cycle.ne_nil
  have hall := h.equipped.backends
  simp only [supports, List.all_eq_true] at hall
  have hn := hall n List.mem_cons_self
  simp [hnil] at hn

/-- A refused model ends a placement with another error, when there is memory for it. -/
theorem placeInstance_refused (hlib : topology.FindsSimpleCycles lib)
    (h : Feasible lib command topology maps nodeIds) (hrefused : command.refused) :
    ∃ e, placeInstance lib command topology currentInstances maps drawn = .error e
      ∧ e.isNoCycle = false := by
  obtain ⟨c, hc, -⟩ := exists_considered hlib h.cycle h.considered
  have henough : cyclesWithSufficientMemory command (topology.getCycles lib) maps ≠ [] :=
    List.ne_nil_of_mem (List.mem_filter.mp hc).1
  have hrefuse : ∀ cycles, ∃ e, filterCyclesBySharding command cycles = .error e
      ∧ e.isNoCycle = false := fun cycles => filterCyclesBySharding_refused hrefused
  obtain ⟨e, he, hblame⟩ :=
    hrefuse (cyclesWithSufficientMemory command (topology.getCycles lib) maps)
  refine ⟨e, placeInstance_of_candidates_error ?_, hblame⟩
  rw [candidateCycles, nonempty, if_neg henough]
  simp only [bind, Except.bind, he]

/-- **The errors that say there is no cycle are true exactly when nothing is hidden.** -/
theorem noCycle_true_iff_nothingHidden (hlib : topology.FindsSimpleCycles lib) :
    (∀ e, placeInstance lib command topology currentInstances maps drawn = .error e →
        e.isNoCycle = true → ∀ nodeIds, ¬ Feasible lib command topology maps nodeIds)
      ↔ NothingHidden lib command topology maps := by
  -- the candidates are the smallest of the considered cycles that are equipped
  have hfeasible : ∀ c ∈ getSmallestCycles (consideredCycles lib command topology maps),
      Equipped lib command topology maps c.nodeIds →
      Feasible lib command topology maps c.nodeIds
        ∧ ∀ other, topology.IsCycle other → Considered command maps other →
          c.nodeIds.length ≤ other.length := by
    intro c hc hequipped
    obtain ⟨hmem, hleast⟩ := mem_getSmallestCycles.mp hc
    obtain ⟨hget, hconsidered⟩ := mem_considered.mp hmem
    refine ⟨⟨Topology.isCycle_of_mem_getCycles hlib hget, hconsidered, hequipped⟩, ?_⟩
    intro other hother hcons
    obtain ⟨c', hc', hperm⟩ := exists_considered hlib hother hcons
    rw [← hperm.length_eq]
    exact hleast c' hc'
  constructor
  · intro htruth
    by_cases hrefused : command.refused = true
    · exact .inl hrefused
    by_cases hsome : ∃ nodeIds, Feasible lib command topology maps nodeIds
    · obtain ⟨nodeIds, hnodes⟩ := hsome
      have hrefused : command.refused = false := by simpa using hrefused
      rcases candidateCycles_cases hrefused (requiredBackends_ne_nil hnodes) with
        ⟨cycles, -, hne, hmem⟩ | ⟨⟨e, herror, he⟩, -⟩
      · obtain ⟨c, rest, rfl⟩ := List.exists_cons_of_ne_nil hne
        obtain ⟨hsmall, hequipped⟩ := (hmem c).mp List.mem_cons_self
        exact .inr (.inr ⟨c.nodeIds, hfeasible c hsmall hequipped⟩)
      · exact absurd hnodes (htruth e (placeInstance_of_candidates_error herror) he nodeIds)
    · exact .inr (.inl fun nodeIds hnodes => hsome ⟨nodeIds, hnodes⟩)
  · intro hnothing e herror he nodeIds hnodes
    -- a model that is refused does not end in an error about cycles
    by_cases hrefused : command.refused = true
    · obtain ⟨e', he', hblame⟩ := placeInstance_refused hlib hnodes hrefused
      rw [he'] at herror
      cases herror
      rw [hblame] at he
      cases he
    have hrefused' : command.refused = false := by simpa using hrefused
    rcases hnothing with hrefuse | hnone | ⟨least, hleast, hsmallest⟩
    · exact hrefused hrefuse
    · exact hnone nodeIds hnodes
    · rcases candidateCycles_cases hrefused' (requiredBackends_ne_nil hnodes) with
        ⟨cycles, hok, -, -⟩ | ⟨-, hnone⟩
      · have hblame := placeInstance_blames_of_candidates hok e herror
        rw [hblame] at he
        cases he
      · -- the least feasible cycle is one of the smallest
        obtain ⟨c, hc, hperm⟩ := exists_considered hlib hleast.cycle hleast.considered
        refine hnone c (mem_getSmallestCycles.mpr ⟨hc, ?_⟩) (hleast.equipped.perm hperm)
        intro other hother
        obtain ⟨hget, hcons⟩ := mem_considered.mp hother
        rw [hperm.length_eq]
        exact hsmallest _ (Topology.isCycle_of_mem_getCycles hlib hget) hcons

/-- The pair of nodes hides nothing from a command that it can serve. -/
theorem noCycle_true_rdmaPair :
    NothingHidden (pairLibrary 1 2) ⟨twoLayers, .pipeline, .mlxJaccl, 2⟩ rdmaPair pairMaps := by
  have hlib : Topology.FindsSimpleCycles (pairLibrary 1 2) rdmaPair :=
    findsSimpleCycles_pair (by decide) (by decide) (by decide) (by decide)
  have hok : (placeInstance (pairLibrary 1 2) ⟨twoLayers, .pipeline, .mlxJaccl, 2⟩ rdmaPair .empty
      pairMaps ⟨9, countedIds, 5000⟩).isOk = true := by decide +kernel
  have htruth := @noCycle_true_iff_nothingHidden (pairLibrary 1 2)
    ⟨twoLayers, .pipeline, .mlxJaccl, 2⟩ rdmaPair pairMaps .empty ⟨9, countedIds, 5000⟩ hlib
  refine htruth.mp fun e he => ?_
  rw [he] at hok
  cases hok

/-- Nodes 2 and 3 know each other, and node 1 is alone. -/
def pairAndLoner : Topology where
  nodes := [1, 2, 3]
  connections :=
    [⟨2, 3, .socket ⟨.ip4, "10.0.0.3", ""⟩⟩, ⟨3, 2, .socket ⟨.ip4, "10.0.0.2", ""⟩⟩]
  nodup := by decide
  endpoints := by decide

/-- Node 1 has enough memory for the model and no backend for it; the others share both. -/
def lonerMaps : NodeMaps where
  memory := ((Dict.empty.set 1 ⟨30⟩).set 2 ⟨10⟩).set 3 ⟨10⟩
  backends := ((Dict.empty.set 1 [.vllm]).set 2 [.mlxMetal]).set 3 [.mlxMetal]

/-- Node 1 is the smallest cycle, and hides the pair. -/
theorem noCycle_false_pairAndLoner :
    Topology.FindsSimpleCycles (pairLibrary 2 3) pairAndLoner
      ∧ placeInstance (pairLibrary 2 3) ⟨twoLayers, .pipeline, .mlxRing, 1⟩ pairAndLoner .empty
          lonerMaps ⟨9, countedIds, 5000⟩ = .error (.noCycleWithBackends [.mlxMetal] 7)
      ∧ Feasible (pairLibrary 2 3) ⟨twoLayers, .pipeline, .mlxRing, 1⟩ pairAndLoner lonerMaps
          [2, 3] := by
  have hlib : Topology.FindsSimpleCycles (pairLibrary 2 3) pairAndLoner :=
    findsSimpleCycles_pair (by decide) (by decide) (by decide) (by decide)
  refine ⟨hlib, placeInstance_of_candidates_error (by decide +kernel), ?_, ?_, ?_⟩
  · exact .inl (hlib.sound [2, 3] (List.mem_singleton_self _))
  · exact ⟨by decide, by decide, by decide, by decide, by decide⟩
  · exact ⟨by decide, by decide⟩

end Truth

end Exo
