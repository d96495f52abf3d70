import Exo.Lib.Tiling
import Exo.Master.Sharding

/-!
# The shards are a partition of the layers

What the allocation returns fills the pipeline: every node gets at least one layer, and together
they get all of them, provided that the doubles did not round the shares to more than there is.
So the stages tile the layers, in a plain pipeline and in each of the two of a split ring.

The memory of a node is checked for the nodes that the layers were allocated to. In a split ring
these are the nodes of the first half, and nothing looks at the others.
-/

namespace Exo

open Lib

/-! ## What an allocation gives -/

/-- The positions are sorted, and none is lost. -/
theorem byRemainder_perm (raw : List ℚ) (result : List Nat) :
    (byRemainder raw result).Perm (List.range raw.length) :=
  List.perm_insertionSort _ _

/-- Every round adds one layer. -/
theorem addRemainders_ok {order result result' : List Nat} {count : Nat}
    (horder : ∀ j ∈ order, j < result.length) (h : addRemainders order result count = .ok result') :
    result'.sum = result.sum + count ∧ result'.length = result.length := by
  refine foldlM_range_ok (P := fun i t => t.sum = result.sum + i ∧ t.length = result.length)
    ⟨rfl, rfl⟩ ?_ h
  intro i t t' _ ht hstep
  obtain ⟨hsum, hlength⟩ := ht
  split at hstep
  · rename_i j hj
    cases hstep
    have hlt : j < t.length := by
      rw [hlength]
      exact horder j (List.mem_of_getElem? hj)
    have hone : (t.modify j (· + 1)).sum + t[j] = t.sum + (t[j] + 1) :=
      sum_modify (List.getElem?_eq_getElem hlt)
    exact ⟨by omega, by rw [List.length_modify, hlength]⟩
  · cases hstep

/-- Nothing is lost when a node without layers takes one, and in the end there is no such node. -/
theorem ensureMinimum_ok {result result' : List Nat} (h : ensureMinimum result = .ok result') :
    result'.sum = result.sum ∧ result'.length = result.length ∧ ∀ n ∈ result', 0 < n := by
  have hloop : result'.sum = result.sum ∧ result'.length = result.length
      ∧ ∀ j < result.length, result'[j]? ≠ some 0 := by
    refine foldlM_range_ok (P := fun i t => t.sum = result.sum ∧ t.length = result.length
      ∧ ∀ j < i, t[j]? ≠ some 0) ⟨rfl, rfl, fun j hj => absurd hj (Nat.not_lt_zero j)⟩ ?_ h
    intro i t t' hi ht hstep
    obtain ⟨hsum, hlength, hpos⟩ := ht
    split at hstep
    · rename_i hzero
      split at hstep
      · rename_i m hmax
        split at hstep
        · rename_i hmore
          cases hstep
          -- the node that gives has more than one layer, so it is another one
          have hm : t[m]? = some (t.getD m 0) := by
            rw [List.getD_eq_getElem?_getD] at hmore ⊢
            cases htm : t[m]? with
            | none => simp [htm] at hmore
            | some x => rfl
          have hmi : m ≠ i := by
            intro heq
            rw [heq, hzero] at hm
            have := Option.some.inj hm
            rw [heq] at hmore
            omega
          have htake : (t.modify m (· - 1)).sum + t.getD m 0 = t.sum + (t.getD m 0 - 1) :=
            sum_modify hm
          have hstill : (t.modify m (· - 1))[i]? = some 0 := by
            rw [List.getElem?_modify_ne _ _ hmi, hzero]
          have hgive := sum_set (x := 1) hstill
          refine ⟨by omega, by simp [hlength], ?_⟩
          intro j hj hj0
          rcases getElem?_set_cases hj0 with ⟨-, h10⟩ | ⟨hji, hj0⟩
          · cases h10
          · by_cases hjm : m = j
            · rw [← hjm, List.getElem?_modify_eq, hm] at hj0
              have hnone : t.getD m 0 - 1 = 0 := Option.some.inj hj0
              omega
            · rw [List.getElem?_modify_ne _ _ hjm] at hj0
              exact hpos j (by omega) hj0
        · cases hstep
      · cases hstep
    · rename_i hnot
      cases hstep
      refine ⟨hsum, hlength, ?_⟩
      intro j hj
      rcases Nat.lt_succ_iff_lt_or_eq.mp hj with hj | rfl
      · exact hpos j hj
      · exact hnot
  obtain ⟨hsum, hlength, hpos⟩ := hloop
  refine ⟨hsum, hlength, ?_⟩
  intro n hn
  obtain ⟨j, hj, rfl⟩ := List.getElem_of_mem hn
  have := hpos j (by omega)
  rw [List.getElem?_eq_getElem hj] at this
  exact Nat.pos_of_ne_zero fun h0 => this (congrArg some h0)

variable {totalLayers : Nat}

variable {allocations : List Nat}

/-- **An allocation gives every node a layer, and gives out all that the whole shares leave.** -/
theorem allocateLayers_ok {fractions : List ℚ}
    (h : allocateLayersProportionally totalLayers fractions = .ok allocations) :
    allocations.length = fractions.length ∧ (∀ n ∈ allocations, 0 < n)
      ∧ allocations.sum
        = (wholeShares (rawShares totalLayers fractions)).sum
          + (totalLayers - (wholeShares (rawShares totalLayers fractions)).sum) := by
  unfold allocateLayersProportionally at h
  split at h
  · cases h
  split at h
  · cases h
  split at h
  · cases h
  obtain ⟨result, hresult, hmin⟩ := bind_eq_ok.1 h
  have hraw : (rawShares totalLayers fractions).length = fractions.length := by simp [rawShares]
  have hwhole : (wholeShares (rawShares totalLayers fractions)).length = fractions.length := by
    simp [wholeShares, hraw]
  have horder : ∀ j ∈ byRemainder (rawShares totalLayers fractions)
      (wholeShares (rawShares totalLayers fractions)),
      j < (wholeShares (rawShares totalLayers fractions)).length := by
    intro j hj
    have := List.mem_range.mp ((byRemainder_perm _ _).mem_iff.mp hj)
    omega
  obtain ⟨hsum, hlength⟩ := addRemainders_ok horder hresult
  obtain ⟨hsum', hlength', hpos⟩ := ensureMinimum_ok hmin
  exact ⟨by omega, hpos, by omega⟩

/-! ## What is checked -/

section Memory

variable {modelCard : ModelCard} {nodeMemory : Dict NodeId MemoryUsage}

/-- The node is known, and has at least this much memory. -/
def HasMemory (nodeMemory : Dict NodeId MemoryUsage) (nodeId : NodeId) (required : Memory) : Prop :=
  ∃ usage, nodeMemory.get? nodeId = some usage ∧ required ≤ usage.ramAvailable

theorem ramAvailable_ok {nodeId : NodeId} {m : Memory} :
    ramAvailable nodeMemory nodeId = .ok m
      ↔ ∃ usage, nodeMemory.get? nodeId = some usage ∧ usage.ramAvailable = m := by
  unfold ramAvailable
  cases nodeMemory.get? nodeId <;> simp

variable {nodeIds : List NodeId}

/-- The check passes exactly when every node can hold the layers of its position. -/
theorem validateLayers_ok_iff {layerAllocations : List Nat} {i : Nat} :
    validateLayers modelCard nodeMemory layerAllocations i nodeIds = .ok ()
      ↔ ∀ (j : Nat) nodeId, nodeIds[j]? = some nodeId →
          HasMemory nodeMemory nodeId (modelCard.memoryFor (layerAllocations.getD (i + j) 0)) := by
  induction nodeIds generalizing i with
  | nil => simp [validateLayers]
  | cons nodeId nodeIds ih =>
      rw [validateLayers, bind_eq_ok]
      constructor
      · intro h j n hn
        obtain ⟨m, hm, hrest⟩ := h
        split at hrest
        · cases hrest
        · rename_i hle
          cases j with
          | zero =>
              obtain rfl : nodeId = n := Option.some.inj hn
              obtain ⟨usage, husage, rfl⟩ := ramAvailable_ok.1 hm
              exact ⟨usage, husage, Nat.le_of_not_lt hle⟩
          | succ j =>
              have := ih.mp hrest j n hn
              rwa [Nat.add_right_comm] at this
      · intro h
        obtain ⟨usage, husage, hle⟩ := h 0 nodeId rfl
        refine ⟨usage.ramAvailable, ramAvailable_ok.2 ⟨usage, husage, rfl⟩, ?_⟩
        rw [Nat.add_zero] at hle
        rw [if_neg (Nat.not_lt.mpr hle)]
        refine ih.mpr fun j n hn => ?_
        rw [Nat.add_right_comm]
        exact h (j + 1) n hn

/-- The memory that is free on some nodes. -/
def memoryOf (nodeMemory : Dict NodeId MemoryUsage) (nodeIds : List NodeId) : List Memory :=
  nodeIds.map fun nodeId => ((nodeMemory.get? nodeId).map (·.ramAvailable)).getD 0

/-- The part of the total memory that each node has, as a double. -/
def memoryFractions (nodeMemory : Dict NodeId MemoryUsage) (nodeIds : List NodeId) : List ℚ :=
  (memoryOf nodeMemory nodeIds).map fun m : Memory =>
    toDouble ((m : ℚ) / (memoryOf nodeMemory nodeIds).sum)

theorem mapM_ramAvailable {available : List Memory}
    (h : nodeIds.mapM (ramAvailable nodeMemory) = .ok available) :
    available = memoryOf nodeMemory nodeIds := by
  have hall := mapM_eq_ok.1 h
  clear h
  induction hall with
  | nil => rfl
  | cons hm _ ih =>
      obtain ⟨usage, husage, rfl⟩ := ramAvailable_ok.1 hm
      rw [ih, memoryOf, memoryOf, List.map_cons, husage]
      rfl

/-- **What a pipeline's nodes were given**: the allocation for their memory, which they can hold. -/
theorem allocate_ok {total : Memory}
    (htotal : computeTotalMemory nodeIds nodeMemory = .ok total)
    (h : allocateAndValidateLayers nodeIds nodeMemory total modelCard = .ok allocations) :
    allocateLayersProportionally modelCard.nLayers (memoryFractions nodeMemory nodeIds)
        = .ok allocations
      ∧ ∀ (j : Nat) nodeId, nodeIds[j]? = some nodeId →
        HasMemory nodeMemory nodeId (modelCard.memoryFor (allocations.getD j 0)) := by
  obtain ⟨available, havail, htotal⟩ := bind_eq_ok.1 htotal
  split at htotal
  · cases htotal
  · cases htotal
    obtain ⟨available', havail', h⟩ := bind_eq_ok.1 h
    obtain ⟨allocations', halloc, h⟩ := bind_eq_ok.1 h
    obtain ⟨⟨⟩, hvalid, h⟩ := bind_eq_ok.1 h
    cases h
    rw [mapM_ramAvailable havail'] at halloc
    rw [mapM_ramAvailable havail] at halloc
    refine ⟨halloc, ?_⟩
    intro j nodeId hj
    have := validateLayers_ok_iff.1 hvalid j nodeId hj
    rwa [Nat.zero_add] at this

end Memory

/-! ## What the loop over the cycle leaves -/

section Loop

variable (modelCard : ModelCard) (cycle : Cycle) (runnerIds : RunnerIds) (shardAt : Nat → Shard)

/-- Every rank has its own runner, in the order of the ranks. -/
theorem assignShards_runnerToShard :
    (assignShards modelCard cycle runnerIds shardAt).runnerToShard.entries
      = (List.range cycle.nodeIds.length).map fun i => (runnerIds.draw i, shardAt i) := by
  unfold assignShards
  induction cycle.nodeIds using List.reverseRecOn with
  | nil => rfl
  | append_singleton nodeIds nodeId ih =>
      rw [enumerate_snoc, List.foldl_append, List.foldl_cons, List.foldl_nil]
      rw [Assignments.add_runnerToShard, Dict.entries_set_of_new, ih]
      · simp [List.range_succ]
      · -- the new runner id was not drawn before
        rw [Dict.keys, ih, List.map_map]
        intro hmem
        obtain ⟨i, hi, heq⟩ := List.mem_map.mp hmem
        have hlast : i = nodeIds.length := runnerIds.distinct heq
        have hlt := List.mem_range.mp hi
        omega

theorem assignShards_values :
    (assignShards modelCard cycle runnerIds shardAt).runnerToShard.values
      = (List.range cycle.nodeIds.length).map shardAt := by
  rw [Dict.values, assignShards_runnerToShard, List.map_map]
  rfl

theorem assignShards_get? {i : Nat} (hi : i < cycle.nodeIds.length) :
    (assignShards modelCard cycle runnerIds shardAt).runnerToShard.get? (runnerIds.draw i)
      = some (shardAt i) := by
  rw [← Dict.mem_entries, assignShards_runnerToShard]
  exact List.mem_map.mpr ⟨i, List.mem_range.mpr hi, rfl⟩

/-- A node has the runner of the last position at which it is in the cycle. -/
theorem assignShards_nodeToRunner {i : Nat} {nodeId : NodeId}
    (hi : cycle.nodeIds[i]? = some nodeId) (hlast : nodeId ∉ cycle.nodeIds.drop (i + 1)) :
    (assignShards modelCard cycle runnerIds shardAt).nodeToRunner.get? nodeId
      = some (runnerIds.draw i) := by
  unfold assignShards
  revert hi hlast
  induction cycle.nodeIds using List.reverseRecOn with
  | nil => exact fun hi => by cases hi
  | append_singleton nodeIds last ih =>
      intro hi hlast
      rw [enumerate_snoc, List.foldl_append, List.foldl_cons, List.foldl_nil]
      rw [Assignments.add_nodeToRunner, Dict.get?_set]
      rcases getElem?_snoc_cases hi with hi | ⟨rfl, rfl⟩
      · have hlt : i < nodeIds.length := (List.getElem?_eq_some_iff.mp hi).1
        rw [List.drop_append_of_le_length (by omega)] at hlast
        have hne : nodeId ≠ last := fun heq => hlast (by simp [heq])
        rw [if_neg hne]
        exact ih hi fun hmem => hlast (List.mem_append_left _ hmem)
      · rw [if_pos rfl]

end Loop

/-! ## Stages that cover a model -/

/-- The stages of a pipeline, in their order, hold every layer of the model once. -/
structure CoversOnce (nLayers : Nat) (stages : List Shard) : Prop where
  /-- Not empty, one after the other, from the first layer to the last. -/
  contiguous : Tiles 0 nLayers (stages.map Shard.layers)
  once : ∀ k < nLayers, ∃! i : Nat, ∃ p : Nat × Nat, (stages.map Shard.layers)[i]? = some p
    ∧ p.1 ≤ k ∧ k < p.2

theorem coversOnce_iff {nLayers : Nat} {stages : List Shard}
    (h : stages.map Shard.layers = cuts 0 allocations) :
    CoversOnce nLayers stages ↔ (∀ n ∈ allocations, 0 < n) ∧ allocations.sum = nLayers := by
  constructor
  · intro hc
    have := hc.contiguous
    rwa [h, tiles_cuts_iff, Nat.zero_add] at this
  · intro hc
    have htiles : Tiles 0 nLayers (stages.map Shard.layers) := by
      rwa [h, tiles_cuts_iff, Nat.zero_add]
    exact ⟨htiles, fun k hk => htiles.existsUnique (Nat.zero_le k) hk⟩

/-- The stages of an allocation cut the layers where its parts end. -/
theorem map_stageLayers (allocations : List Nat) :
    (List.range allocations.length).map (stageLayers allocations) = cuts 0 allocations := by
  refine List.ext_getElem? fun i => ?_
  rw [getElem?_cuts, List.getElem?_map]
  by_cases hi : i < allocations.length
  · simp [stageLayers, hi]
  · rw [List.getElem?_eq_none (by simpa using hi), List.getElem?_eq_none (by omega)]
    rfl

/-- A ring's shards are two pipelines that meet in the middle. -/
structure IsCfgPair (nLayers worldSize : Nat) (shards positive negative : List Shard) : Prop where
  /-- The second pipeline runs backwards. -/
  halves : shards = positive ++ negative.reverse
  positiveRanks : positive.map (·.kind)
    = (List.range (worldSize / 2)).map fun r => .cfg 0 2 r (worldSize / 2)
  negativeRanks : negative.map (·.kind)
    = (List.range (worldSize / 2)).map fun r => .cfg 1 2 r (worldSize / 2)
  /-- Both are cut at the same layers. -/
  sameCuts : positive.map Shard.layers = negative.map Shard.layers
  positiveCovers : CoversOnce nLayers positive
  negativeCovers : CoversOnce nLayers negative
  /-- The last stages are neighbours. -/
  lastStages : ∃ s ∈ positive.getLast?, ∃ s' ∈ negative.getLast?,
    s'.deviceRank = s.deviceRank + 1

/-- The shards partition the model over the cycle, and every node can hold its shard. -/
structure IsPartition (modelCard : ModelCard) (cycle : Cycle)
    (nodeMemory : Dict NodeId MemoryUsage) (a : Assignments) : Prop where
  /-- Device ranks are positions of the cycle. -/
  ranks : a.runnerToShard.values.map (·.deviceRank)
    = (List.range cycle.nodeIds.length).map Int.ofNat
  /-- A node runs the shard of its position, of the last one if it has more. -/
  placed : ∀ (i : Nat) nodeId, cycle.nodeIds[i]? = some nodeId →
    nodeId ∉ cycle.nodeIds.drop (i + 1) →
    ∃ r s, a.nodeToRunner.get? nodeId = some r ∧ a.runnerToShard.get? r = some s
      ∧ s.deviceRank = i
  stages : if useCfgParallel modelCard cycle.nodeIds.length then
      ∃ positive negative, IsCfgPair modelCard.nLayers cycle.nodeIds.length
        a.runnerToShard.values positive negative
    else CoversOnce modelCard.nLayers a.runnerToShard.values
  /-- The node at every position has memory for the layers of the shard there. -/
  memory : ∀ (i : Nat) nodeId s, cycle.nodeIds[i]? = some nodeId →
    a.runnerToShard.values[i]? = some s →
    HasMemory nodeMemory nodeId (modelCard.memoryFor (s.endLayer - s.startLayer))

/-! ## How far the shares are rounded up -/

/-- Two roundings make a share larger by less than one part in `2 ^ 52`, and hardly anything. -/
theorem rawShare_le {part : ℚ} (hpart : 0 ≤ part)
    (hlayers : totalLayers < 2 ^ 52) :
    toDouble (toDouble part * toDouble totalLayers)
      ≤ part * (totalLayers * (1 + 2 ^ (-53 : ℤ)) ^ 2)
        + (totalLayers * (1 + 2 ^ (-53 : ℤ)) + 1) * 2 ^ (-1075 : ℤ) := by
  have hexact : toDouble totalLayers = totalLayers := toDouble_natCast (by omega)
  have hnonneg : (0 : ℚ) ≤ totalLayers := totalLayers.cast_nonneg
  have hu : (0 : ℚ) ≤ 1 + 2 ^ (-53 : ℤ) := by positivity
  calc toDouble (toDouble part * toDouble totalLayers)
      ≤ toDouble part * totalLayers * (1 + 2 ^ (-53 : ℤ)) + 2 ^ (-1075 : ℤ) := by
        rw [hexact]
        exact toDouble_le (mul_nonneg (toDouble_nonneg hpart) hnonneg)
    _ ≤ (part * (1 + 2 ^ (-53 : ℤ)) + 2 ^ (-1075 : ℤ)) * totalLayers * (1 + 2 ^ (-53 : ℤ))
          + 2 ^ (-1075 : ℤ) :=
        add_le_add_left (mul_le_mul_of_nonneg_right
          (mul_le_mul_of_nonneg_right (toDouble_le hpart) hnonneg) hu) _
    _ = _ := by ring

/-- The shares of the parts of a total, before they are rounded down. -/
theorem sum_rawShares_le (parts : List ℚ) (hparts : ∀ p ∈ parts, 0 ≤ p)
    (hlayers : totalLayers < 2 ^ 52) :
    ((wholeShares (rawShares totalLayers (parts.map toDouble))).sum : ℚ)
      ≤ parts.sum * (totalLayers * (1 + 2 ^ (-53 : ℤ)) ^ 2)
        + parts.length * ((totalLayers * (1 + 2 ^ (-53 : ℤ)) + 1) * 2 ^ (-1075 : ℤ)) := by
  induction parts with
  | nil => simp [wholeShares, rawShares]
  | cons p parts ih =>
      obtain ⟨hp, hparts⟩ := List.forall_mem_cons.mp hparts
      have ih := ih hparts
      have hraw := rawShare_le hp hlayers
      have hfloor : ((⌊toDouble (toDouble p * toDouble totalLayers)⌋₊ : ℕ) : ℚ)
          ≤ toDouble (toDouble p * toDouble totalLayers) :=
        Nat.floor_le (toDouble_nonneg
          (mul_nonneg (toDouble_nonneg hp) (toDouble_nonneg totalLayers.cast_nonneg)))
      simp only [wholeShares, rawShares, List.map_cons, List.sum_cons, List.length_cons] at ih ⊢
      generalize (2 : ℚ) ^ (-1075 : ℤ) = least at *
      rw [Nat.cast_add, Nat.cast_succ, add_mul, add_mul, one_mul]
      linarith only [ih, hraw, hfloor]

variable {nodeMemory : Dict NodeId MemoryUsage}

/-- **Below `2 ^ 52` layers, the doubles do not give out more layers than there are.** -/
theorem sum_wholeShares_le {nodeIds : List NodeId}
    (hlayers : totalLayers < 2 ^ 52) (hnodes : nodeIds.length ≤ totalLayers)
    (htotal : (memoryOf nodeMemory nodeIds).sum ≠ 0) :
    (wholeShares (rawShares totalLayers (memoryFractions nodeMemory nodeIds))).sum
      ≤ totalLayers := by
  have hpos : (0 : ℚ) < (memoryOf nodeMemory nodeIds).sum := by
    exact_mod_cast Nat.pos_of_ne_zero htotal
  have hdiv : ∀ l : List Memory, (l.map fun m : Memory =>
      (m : ℚ) / (memoryOf nodeMemory nodeIds).sum).sum
        = (l.sum : ℚ) / (memoryOf nodeMemory nodeIds).sum := by
    intro l
    induction l with
    | nil => simp
    | cons m l ih =>
        rw [List.map_cons, List.sum_cons, ih, List.sum_cons, Nat.cast_add, add_div]
  -- the parts are nonnegative and sum up to one
  have hsum := sum_rawShares_le ((memoryOf nodeMemory nodeIds).map fun m : Memory =>
    (m : ℚ) / (memoryOf nodeMemory nodeIds).sum) (by
      intro p hp
      obtain ⟨m, -, rfl⟩ := List.mem_map.mp hp
      exact div_nonneg m.cast_nonneg hpos.le) hlayers
  rw [hdiv, div_self hpos.ne', one_mul, List.map_map, List.length_map] at hsum
  have hlen : ((memoryOf nodeMemory nodeIds).length : ℚ) ≤ totalLayers := by
    rw [memoryOf, List.length_map]
    exact_mod_cast hnodes
  have hmax : (totalLayers : ℚ) ≤ 2 ^ 52 - 1 := by
    have hle : (totalLayers : ℚ) + 1 ≤ 2 ^ 52 := by exact_mod_cast hlayers
    linarith only [hle]
  have hleast : (2 : ℚ) ^ (-1075 : ℤ) ≤ 2 ^ (-200 : ℤ) :=
    zpow_le_zpow_right₀ one_le_two (by omega)
  have hleast0 : (0 : ℚ) ≤ 2 ^ (-1075 : ℤ) := (zpow_pos two_pos _).le
  have hlt : ((wholeShares (rawShares totalLayers (memoryFractions nodeMemory nodeIds))).sum : ℚ)
      < totalLayers + 1 := by
    refine lt_of_le_of_lt hsum ?_
    generalize (2 : ℚ) ^ (-1075 : ℤ) = least at *
    have hL0 : (0 : ℚ) ≤ totalLayers := totalLayers.cast_nonneg
    generalize (totalLayers : ℚ) = L at *
    generalize ((memoryOf nodeMemory nodeIds).length : ℚ) = n at *
    have hrounding : L * (1 + 2 ^ (-53 : ℤ)) ^ 2
        ≤ L + (2 ^ 52 - 1) * ((1 + 2 ^ (-53 : ℤ)) ^ 2 - 1) := by
      have hu : (0 : ℚ) ≤ (1 + 2 ^ (-53 : ℤ)) ^ 2 - 1 := by norm_num
      have := mul_le_mul_of_nonneg_right hmax hu
      linarith only [this]
    have hsubnormal : n * ((L * (1 + 2 ^ (-53 : ℤ)) + 1) * least)
        ≤ 2 ^ 52 * ((2 ^ 52 * 2 + 1) * 2 ^ (-200 : ℤ)) := by
      have hu : (1 + 2 ^ (-53 : ℤ) : ℚ) ≤ 2 := by norm_num
      have hL : L ≤ 2 ^ 52 := by linarith only [hmax]
      have hprod : L * (1 + 2 ^ (-53 : ℤ)) ≤ 2 ^ 52 * 2 :=
        mul_le_mul hL hu (by norm_num) (by norm_num)
      have hprod0 : 0 ≤ L * (1 + 2 ^ (-53 : ℤ)) := mul_nonneg hL0 (by norm_num)
      refine mul_le_mul (hlen.trans hL) (mul_le_mul ?_ hleast hleast0 ?_)
        (mul_nonneg ?_ hleast0) (by norm_num)
      · linarith only [hprod]
      · norm_num
      · linarith only [hprod0]
    norm_num at hrounding hsubnormal ⊢
    linarith only [hrounding, hsubnormal]
  have hlt' : (wholeShares (rawShares totalLayers (memoryFractions nodeMemory nodeIds))).sum
      < totalLayers + 1 := by exact_mod_cast hlt
  omega

/-! ## The two kinds of placements -/

section Cfg

variable (modelCard : ModelCard) {worldSize : Nat} (allocations : List Nat)

/-- The first half of the ring ascends. -/
theorem positionToCfgPipeline_positive {r : Nat} (hr : r < worldSize / 2) :
    (positionToCfgPipeline (worldSize / 2)).getD r (0, 0) = (0, r) := by
  rw [List.getD_eq_getElem?_getD, positionToCfgPipeline, List.getElem?_append_left (by simpa)]
  simp [hr]

/-- The second half descends. -/
theorem positionToCfgPipeline_negative (heven : worldSize % 2 = 0) {r : Nat}
    (hr : r < worldSize / 2) :
    (positionToCfgPipeline (worldSize / 2)).getD (worldSize - 1 - r) (0, 0) = (1, r) := by
  rw [List.getD_eq_getElem?_getD, positionToCfgPipeline,
    List.getElem?_append_right (by simp; omega), List.getElem?_map, List.getElem?_reverse]
  · have hindex : (List.range (worldSize / 2)).length - 1
        - (worldSize - 1 - r - ((List.range (worldSize / 2)).map fun r => (0, r)).length) = r := by
      simp only [List.length_map, List.length_range]
      omega
    rw [hindex, List.getElem?_range hr]
    rfl
  · simp only [List.length_map, List.length_range]
    omega

/-- The shards of the first half, and those of the second half from the end. -/
theorem map_cfgShard_halves (heven : worldSize % 2 = 0) :
    (List.range worldSize).map (cfgShard modelCard worldSize allocations)
      = (List.range (worldSize / 2)).map (cfgShard modelCard worldSize allocations)
        ++ ((List.range (worldSize / 2)).map fun r =>
            cfgShard modelCard worldSize allocations (worldSize - 1 - r)).reverse := by
  have hsplit : worldSize = worldSize / 2 + worldSize / 2 := by omega
  have hrange : List.range worldSize
      = List.range (worldSize / 2) ++ ((List.range (worldSize / 2)).map fun r =>
          worldSize - 1 - r).reverse := by
    conv_lhs => rw [hsplit, List.range_add]
    refine congrArg (List.range (worldSize / 2) ++ ·) (List.ext_getElem? fun i => ?_)
    by_cases hi : i < worldSize / 2
    · rw [List.getElem?_map, List.getElem?_range hi, List.getElem?_reverse (by simpa),
        List.getElem?_map, List.getElem?_range (by simp; omega)]
      simp only [Option.map_some, List.length_map, List.length_range]
      congr 1
      omega
    · rw [List.getElem?_eq_none (by simpa using hi), List.getElem?_eq_none (by simpa using hi)]
  conv_lhs => rw [hrange, List.map_append, List.map_reverse, List.map_map]
  rfl

end Cfg

/-! ## When the shards are a partition -/

/-- The nodes that layers are allocated to. -/
def pipelineNodeIds (modelCard : ModelCard) (cycle : Cycle) : List NodeId :=
  if useCfgParallel modelCard cycle.nodeIds.length then
    cycle.nodeIds.take (cycle.nodeIds.length / 2)
  else cycle.nodeIds

/-- The whole shares of a cycle's pipeline. -/
def pipelineShares (modelCard : ModelCard) (cycle : Cycle) (nodeMemory : Dict NodeId MemoryUsage) :
    List Nat :=
  wholeShares (rawShares modelCard.nLayers
    (memoryFractions nodeMemory (pipelineNodeIds modelCard cycle)))

/-- There is room for what is not checked. -/
structure RoomForMirrors (modelCard : ModelCard) (cycle : Cycle)
    (nodeMemory : Dict NodeId MemoryUsage) : Prop where
  /-- The doubles do not round the shares to more layers than the model has. -/
  shares : (pipelineShares modelCard cycle nodeMemory).sum ≤ modelCard.nLayers
  /-- In a split ring, the nodes of the second half have memory for the mirrored stages. -/
  mirrors : useCfgParallel modelCard cycle.nodeIds.length → ∀ allocations,
    allocateLayersProportionally modelCard.nLayers
        (memoryFractions nodeMemory (pipelineNodeIds modelCard cycle)) = .ok allocations →
      ∀ r nodeId, r < cycle.nodeIds.length / 2 →
        cycle.nodeIds[cycle.nodeIds.length - 1 - r]? = some nodeId →
        HasMemory nodeMemory nodeId (modelCard.memoryFor (allocations.getD r 0))

section Partition

variable {modelCard : ModelCard} {cycle : Cycle} {nodeMemory : Dict NodeId MemoryUsage}
  {runnerIds : RunnerIds}

/-- What remains to be seen when every rank has a shard of its own. -/
theorem isPartition_assignShards_iff {shardAt : Nat → Shard}
    (hrank : ∀ i, (shardAt i).deviceRank = i) :
    IsPartition modelCard cycle nodeMemory (assignShards modelCard cycle runnerIds shardAt)
      ↔ (if useCfgParallel modelCard cycle.nodeIds.length then
            ∃ positive negative, IsCfgPair modelCard.nLayers cycle.nodeIds.length
              ((List.range cycle.nodeIds.length).map shardAt) positive negative
          else CoversOnce modelCard.nLayers ((List.range cycle.nodeIds.length).map shardAt))
        ∧ ∀ (i : Nat) nodeId, cycle.nodeIds[i]? = some nodeId → HasMemory nodeMemory nodeId
            (modelCard.memoryFor ((shardAt i).endLayer - (shardAt i).startLayer)) := by
  constructor
  · intro h
    have hstages := h.stages
    rw [assignShards_values] at hstages
    refine ⟨hstages, ?_⟩
    intro i nodeId hi
    refine h.memory i nodeId (shardAt i) hi ?_
    have hlt : i < cycle.nodeIds.length := (List.getElem?_eq_some_iff.mp hi).1
    rw [assignShards_values, List.getElem?_map, List.getElem?_range hlt]
    rfl
  · intro h
    obtain ⟨hstages, hmemory⟩ := h
    refine ⟨?_, ?_, ?_, ?_⟩
    · rw [assignShards_values, List.map_map]
      exact List.map_congr_left fun i _ => hrank i
    · intro i nodeId hi hlast
      have hlt : i < cycle.nodeIds.length := (List.getElem?_eq_some_iff.mp hi).1
      exact ⟨runnerIds.draw i, shardAt i, assignShards_nodeToRunner _ _ _ _ hi hlast,
        assignShards_get? _ _ _ _ hlt, hrank i⟩
    · rw [assignShards_values]
      exact hstages
    · intro i nodeId s hi hs
      have hlt : i < cycle.nodeIds.length := (List.getElem?_eq_some_iff.mp hi).1
      rw [assignShards_values, List.getElem?_map, List.getElem?_range hlt] at hs
      rw [← Option.some.inj hs]
      exact hmemory i nodeId hi

variable {a : Assignments}

/-- A plain pipeline is a partition when the whole shares are no more than there is. -/
theorem isPartition_pure_iff (hpure : useCfgParallel modelCard cycle.nodeIds.length = false)
    (h : getShardAssignmentsForPurePipeline modelCard cycle nodeMemory runnerIds = .ok a) :
    IsPartition modelCard cycle nodeMemory a
      ↔ (pipelineShares modelCard cycle nodeMemory).sum ≤ modelCard.nLayers := by
  obtain ⟨⟨⟩, -, h⟩ := bind_eq_ok.1 h
  obtain ⟨total, htotal, h⟩ := bind_eq_ok.1 h
  obtain ⟨allocations, halloc, h⟩ := bind_eq_ok.1 h
  cases h
  obtain ⟨hallocate, hmemory⟩ := allocate_ok htotal halloc
  obtain ⟨hlength, hpos, hsum⟩ := allocateLayers_ok hallocate
  have hlen : allocations.length = cycle.nodeIds.length := by
    rw [hlength, memoryFractions, memoryOf, List.length_map, List.length_map]
  have hshares : pipelineShares modelCard cycle nodeMemory
      = wholeShares (rawShares modelCard.nLayers (memoryFractions nodeMemory cycle.nodeIds)) := by
    simp [pipelineShares, pipelineNodeIds, hpure]
  have hlayers : ((List.range cycle.nodeIds.length).map
      (pipelineShard modelCard cycle.nodeIds.length allocations)).map Shard.layers
      = cuts 0 allocations := by
    rw [List.map_map, ← map_stageLayers, hlen]
    rfl
  rw [isPartition_assignShards_iff fun i => rfl, if_neg (by simp [hpure]), coversOnce_iff hlayers,
    hshares]
  constructor
  · intro h
    have := h.1.2
    omega
  · intro h
    refine ⟨⟨hpos, by omega⟩, ?_⟩
    intro i nodeId hi
    have := hmemory i nodeId hi
    simpa [pipelineShard, stageLayers] using this

/-- A split ring is one when, besides, the second half has the memory. -/
theorem isPartition_cfg_iff (hcfg : useCfgParallel modelCard cycle.nodeIds.length = true)
    (h : getShardAssignmentsForCfgParallel modelCard cycle nodeMemory runnerIds = .ok a) :
    IsPartition modelCard cycle nodeMemory a ↔ RoomForMirrors modelCard cycle nodeMemory := by
  obtain ⟨⟨⟩, -, h⟩ := bind_eq_ok.1 h
  obtain ⟨total, htotal, h⟩ := bind_eq_ok.1 h
  obtain ⟨allocations, halloc, h⟩ := bind_eq_ok.1 h
  cases h
  obtain ⟨hallocate, hmemory⟩ := allocate_ok htotal halloc
  obtain ⟨hlength, hpos, hsum⟩ := allocateLayers_ok hallocate
  have hcfg' := hcfg
  simp only [useCfgParallel, decide_eq_true_eq] at hcfg'
  obtain ⟨-, htwo, heven⟩ := hcfg'
  have hlen : allocations.length = cycle.nodeIds.length / 2 := by
    rw [hlength, memoryFractions, memoryOf, List.length_map, List.length_map, List.length_take]
    omega
  have hnodes : pipelineNodeIds modelCard cycle
      = cycle.nodeIds.take (cycle.nodeIds.length / 2) := by
    rw [pipelineNodeIds, if_pos hcfg]
  have hshares : pipelineShares modelCard cycle nodeMemory = wholeShares (rawShares
      modelCard.nLayers (memoryFractions nodeMemory
        (cycle.nodeIds.take (cycle.nodeIds.length / 2)))) := by
    rw [pipelineShares, hnodes]
  -- the two pipelines, each in the order of its stages
  let positive := (List.range (cycle.nodeIds.length / 2)).map
    (cfgShard modelCard cycle.nodeIds.length allocations)
  let negative := (List.range (cycle.nodeIds.length / 2)).map fun r =>
    cfgShard modelCard cycle.nodeIds.length allocations (cycle.nodeIds.length - 1 - r)
  have hpositive : ∀ r, r < cycle.nodeIds.length / 2 →
      (cfgShard modelCard cycle.nodeIds.length allocations r).kind
          = .cfg 0 2 r (cycle.nodeIds.length / 2)
        ∧ (cfgShard modelCard cycle.nodeIds.length allocations r).layers
          = stageLayers allocations r := by
    intro r hr
    simp only [cfgShard, Shard.layers, positionToCfgPipeline_positive hr]
    exact ⟨trivial, trivial⟩
  have hnegative : ∀ r, r < cycle.nodeIds.length / 2 →
      (cfgShard modelCard cycle.nodeIds.length allocations (cycle.nodeIds.length - 1 - r)).kind
          = .cfg 1 2 r (cycle.nodeIds.length / 2)
        ∧ (cfgShard modelCard cycle.nodeIds.length allocations
            (cycle.nodeIds.length - 1 - r)).layers = stageLayers allocations r := by
    intro r hr
    simp only [cfgShard, Shard.layers, positionToCfgPipeline_negative heven hr]
    exact ⟨trivial, trivial⟩
  have hcuts : positive.map Shard.layers = cuts 0 allocations := by
    rw [← map_stageLayers, hlen, List.map_map]
    exact List.map_congr_left fun r hr => (hpositive r (List.mem_range.mp hr)).2
  have hcuts' : negative.map Shard.layers = cuts 0 allocations := by
    rw [← map_stageLayers, hlen, List.map_map]
    exact List.map_congr_left fun r hr => (hnegative r (List.mem_range.mp hr)).2
  have hstages : (∃ positive negative, IsCfgPair modelCard.nLayers cycle.nodeIds.length
      ((List.range cycle.nodeIds.length).map
        (cfgShard modelCard cycle.nodeIds.length allocations)) positive negative)
      ↔ allocations.sum = modelCard.nLayers := by
    constructor
    · intro hpair
      obtain ⟨pos, neg, hpair⟩ := hpair
      -- the first pipeline is the first half
      have hposlen : pos.length = cycle.nodeIds.length / 2 := by
        simpa using congrArg List.length hpair.positiveRanks
      have htake : pos = positive := by
        have := congrArg (List.take (cycle.nodeIds.length / 2)) hpair.halves
        rw [map_cfgShard_halves modelCard allocations heven, List.take_left' (by simp),
          List.take_left' hposlen] at this
        exact this.symm
      exact ((coversOnce_iff (htake ▸ hcuts)).mp hpair.positiveCovers).2
    · intro htotal
      refine ⟨positive, negative, map_cfgShard_halves modelCard allocations heven, ?_, ?_,
        hcuts.trans hcuts'.symm, (coversOnce_iff hcuts).mpr ⟨hpos, htotal⟩,
        (coversOnce_iff hcuts').mpr ⟨hpos, htotal⟩, ?_⟩
      · rw [List.map_map]
        exact List.map_congr_left fun r hr => (hpositive r (List.mem_range.mp hr)).1
      · rw [List.map_map]
        exact List.map_congr_left fun r hr => (hnegative r (List.mem_range.mp hr)).1
      · have hlast : (List.range (cycle.nodeIds.length / 2)).getLast?
            = some (cycle.nodeIds.length / 2 - 1) := by
          rw [List.getLast?_range, if_neg (by omega)]
        refine ⟨_, by rw [List.getLast?_map, hlast]; rfl, _,
          by rw [List.getLast?_map, hlast]; rfl, ?_⟩
        simp only [cfgShard]
        omega
  rw [isPartition_assignShards_iff fun i => rfl, if_pos hcfg, hstages]
  constructor
  · intro h
    obtain ⟨htotal, hmem⟩ := h
    refine ⟨by rw [hshares]; omega, ?_⟩
    intro _ allocations' hallocate' r nodeId hr hnode
    rw [hnodes, hallocate] at hallocate'
    cases hallocate'
    have hsize := hmem _ nodeId hnode
    have hrange := (hnegative r hr).2
    simp only [Shard.layers, stageLayers, Prod.mk.injEq] at hrange
    rwa [hrange.1, hrange.2, Nat.add_sub_cancel_left] at hsize
  · intro hroom
    have hle := hroom.shares
    rw [hshares] at hle
    refine ⟨by omega, ?_⟩
    intro i nodeId hi
    have hlt : i < cycle.nodeIds.length := (List.getElem?_eq_some_iff.mp hi).1
    by_cases hfirst : i < cycle.nodeIds.length / 2
    · have hrange := (hpositive i hfirst).2
      simp only [Shard.layers, stageLayers, Prod.mk.injEq] at hrange
      rw [hrange.1, hrange.2, Nat.add_sub_cancel_left]
      refine hmemory i nodeId ?_
      rw [List.getElem?_take_of_lt hfirst]
      exact hi
    · -- a node of the second half runs the stage of its mirror image
      have hr : cycle.nodeIds.length - 1 - i < cycle.nodeIds.length / 2 := by omega
      have hmirror : cycle.nodeIds.length - 1 - (cycle.nodeIds.length - 1 - i) = i := by omega
      have hrange := (hnegative _ hr).2
      rw [hmirror] at hrange
      simp only [Shard.layers, stageLayers, Prod.mk.injEq] at hrange
      rw [hrange.1, hrange.2, Nat.add_sub_cancel_left]
      exact hroom.mirrors hcfg allocations (hnodes ▸ hallocate) _ nodeId hr (by rwa [hmirror])

/-- **The shards are a partition exactly when there is room for what is not checked.** -/
theorem isPartition_iff_roomForMirrors {a : Assignments}
    (h : getShardAssignmentsForPipelineParallel modelCard cycle nodeMemory runnerIds = .ok a) :
    IsPartition modelCard cycle nodeMemory a ↔ RoomForMirrors modelCard cycle nodeMemory := by
  unfold getShardAssignmentsForPipelineParallel at h
  split at h
  · rename_i hcfg
    exact isPartition_cfg_iff hcfg h
  · rename_i hpure
    have hpure : useCfgParallel modelCard cycle.nodeIds.length = false := by simpa using hpure
    rw [isPartition_pure_iff hpure h]
    constructor
    · intro hshares
      exact ⟨hshares, fun hcfg => by rw [hpure] at hcfg; cases hcfg⟩
    · intro hroom
      exact hroom.shares

end Partition

/-- Below `2 ^ 52` layers, only the memory of the second half matters. -/
theorem pipelineShares_le {modelCard : ModelCard} {cycle : Cycle}
    {runnerIds : RunnerIds} {a : Assignments}
    (h : getShardAssignmentsForPipelineParallel modelCard cycle nodeMemory runnerIds = .ok a)
    (hlayers : modelCard.nLayers < 2 ^ 52) :
    (pipelineShares modelCard cycle nodeMemory).sum ≤ modelCard.nLayers := by
  have hok : ∃ total allocations,
      computeTotalMemory (pipelineNodeIds modelCard cycle) nodeMemory = .ok total
        ∧ allocateAndValidateLayers (pipelineNodeIds modelCard cycle) nodeMemory total modelCard
          = .ok allocations := by
    unfold getShardAssignmentsForPipelineParallel at h
    unfold pipelineNodeIds
    split at h
    all_goals
      rename_i hcfg
      obtain ⟨⟨⟩, -, h⟩ := bind_eq_ok.1 h
      obtain ⟨total, htotal, h⟩ := bind_eq_ok.1 h
      obtain ⟨allocations, halloc, h⟩ := bind_eq_ok.1 h
    · rw [if_pos hcfg]
      exact ⟨total, allocations, htotal, halloc⟩
    · rw [if_neg hcfg]
      exact ⟨total, allocations, htotal, halloc⟩
  obtain ⟨total, allocations, htotal, halloc⟩ := hok
  refine sum_wholeShares_le hlayers ?_ ?_
  · -- there is at least one layer for every node
    have hallocate := (allocate_ok htotal halloc).1
    unfold allocateLayersProportionally at hallocate
    split at hallocate
    · cases hallocate
    · split at hallocate
      · cases hallocate
      · rename_i hle
        rw [memoryFractions, memoryOf, List.length_map, List.length_map] at hle
        omega
  · obtain ⟨available, havail, htotal⟩ := bind_eq_ok.1 htotal
    split at htotal
    · cases htotal
    · rename_i hne
      rwa [← mapM_ramAvailable havail]

/-- A model of one layer and ten bytes, whose pipeline is run twice. -/
def twoPrompts : ModelCard where
  modelId := 7
  storageSize := 10
  nLayers := 1
  hiddenSize := 1
  supportsTensor := false
  backends := [.mlxMetal]
  usesCfg := true
  nLayersPos := Nat.one_pos
  hiddenSizePos := Nat.one_pos

/-- Node 1 has ten bytes, and node 2 has some. -/
def twoNodes (second : Memory) : Dict NodeId MemoryUsage :=
  (Dict.empty.set 1 ⟨10⟩).set 2 ⟨second⟩

def countedIds : RunnerIds := ⟨id, Function.injective_id⟩

theorem twoPrompts_allocate (second : Memory) :
    allocateLayersProportionally 1 (memoryFractions (twoNodes second) [1]) = .ok [1] := by
  have hfractions : memoryFractions (twoNodes second) [1] = [toDouble (10 / 10)] := by
    simp [memoryFractions, memoryOf, twoNodes, Dict.get?_set]
  rw [hfractions]
  decide +kernel

theorem isPartition_twoNodes :
    ∃ a, getShardAssignmentsForPipelineParallel twoPrompts ⟨[1, 2]⟩ (twoNodes 10) countedIds = .ok a
      ∧ IsPartition twoPrompts ⟨[1, 2]⟩ (twoNodes 10) a := by
  have hok : (getShardAssignmentsForPipelineParallel twoPrompts ⟨[1, 2]⟩ (twoNodes 10)
      countedIds).isOk = true := by decide +kernel
  cases ha : getShardAssignmentsForPipelineParallel twoPrompts ⟨[1, 2]⟩ (twoNodes 10)
      countedIds with
  | error e =>
      rw [ha] at hok
      cases hok
  | ok a =>
      refine ⟨a, rfl, (isPartition_iff_roomForMirrors ha).mpr ⟨by decide +kernel, ?_⟩⟩
      intro _ allocations hallocate r nodeId hr hnode
      have halloc : allocations = [1] :=
        Except.ok.inj (hallocate.symm.trans (twoPrompts_allocate 10))
      obtain rfl : r = 0 := by simpa using hr
      obtain rfl : nodeId = 2 := (Option.some.inj hnode).symm
      rw [halloc]
      exact ⟨⟨10⟩, by decide, by decide⟩

/-- Nobody asks whether node 2 can hold the second pipeline. -/
theorem not_isPartition_twoNodes :
    ∃ a, getShardAssignmentsForPipelineParallel twoPrompts ⟨[1, 2]⟩ (twoNodes 0) countedIds = .ok a
      ∧ ¬ IsPartition twoPrompts ⟨[1, 2]⟩ (twoNodes 0) a := by
  have hok : (getShardAssignmentsForPipelineParallel twoPrompts ⟨[1, 2]⟩ (twoNodes 0)
      countedIds).isOk = true := by decide +kernel
  cases ha : getShardAssignmentsForPipelineParallel twoPrompts ⟨[1, 2]⟩ (twoNodes 0)
      countedIds with
  | error e =>
      rw [ha] at hok
      cases hok
  | ok a =>
      refine ⟨a, rfl, ?_⟩
      intro hpart
      have hroom := (isPartition_cfg_iff (by decide) ha).mp hpart
      obtain ⟨usage, husage, hle⟩ := hroom.mirrors (by decide) [1] (twoPrompts_allocate 0) 0 2
        (by decide) rfl
      obtain rfl : usage = ⟨0⟩ := (Option.some.inj husage).symm
      revert hle
      decide

end Exo
