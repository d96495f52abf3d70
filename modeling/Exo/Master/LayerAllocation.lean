import Exo.Master.ShardingSafety

/-!
# The allocation of layers in exact arithmetic

Without the rounding of doubles the shares rounded down leave less than one layer for each node. So
the largest remainders are enough to give out what is left, each node once, and whoever has no layer
then takes one from a node that has two.
-/

namespace Exo

open Lib

/-! ## Shares that are rounded by `round` -/

/-- `by_remainder` -/
def byRemainderWith (round : ℚ → ℚ) (raw : List ℚ) (result : List Nat) : List Nat :=
  let remainder (i : Nat) : ℚ := round (raw.getD i 0 - round (result.getD i 0))
  (List.range raw.length).insertionSort fun i j => remainder j ≤ remainder i

/-- `allocate_layers_proportionally`, where every operation on fractions is followed by `round`. -/
def allocateLayersWith (round : ℚ → ℚ) (totalLayers : Nat) (memoryFractions : List ℚ) :
    Except PlacementError (List Nat) :=
  if memoryFractions.length = 0 then .error .emptyNodeList
  else if totalLayers < memoryFractions.length then
    .error (.tooFewLayers totalLayers memoryFractions.length)
  else do
    let raw := memoryFractions.map fun f => round (f * round totalLayers)
    let result := wholeShares raw
    let result ← addRemainders (byRemainderWith round raw result) result
      (totalLayers - result.sum)
    ensureMinimum result

/-- With doubles it is what the master computes, unless there are too many layers for a double. -/
theorem allocateLayersWith_toDouble {totalLayers : Nat} (h : overflows totalLayers = false)
    (memoryFractions : List ℚ) :
    allocateLayersWith toDouble totalLayers memoryFractions
      = allocateLayersProportionally totalLayers memoryFractions := by
  simp only [allocateLayersWith, allocateLayersProportionally, h, Bool.false_eq_true, if_false]
  rfl

/-! ## What is left after the shares are rounded down -/

/-- The fractions of a whole. -/
structure IsDivision (fractions : List ℚ) : Prop where
  nonneg : ∀ f ∈ fractions, 0 ≤ f
  sum : fractions.sum = 1

/-- `raw`, in exact arithmetic. -/
def exactShares (totalLayers : Nat) (fractions : List ℚ) : List ℚ :=
  fractions.map fun f => f * totalLayers

theorem sum_exactShares (totalLayers : Nat) (fractions : List ℚ) :
    (exactShares totalLayers fractions).sum = fractions.sum * totalLayers := by
  induction fractions with
  | nil => simp [exactShares]
  | cons f fractions ih =>
      simp only [exactShares, List.map_cons, List.sum_cons, add_mul] at ih ⊢
      rw [ih]

/-- Rounding down loses less than one layer a node. -/
theorem wholeShares_bounds {raw : List ℚ} (h : ∀ r ∈ raw, 0 ≤ r) :
    ((wholeShares raw).sum : ℚ) ≤ raw.sum ∧
      raw.sum ≤ (wholeShares raw).sum + raw.length ∧
      (raw ≠ [] → raw.sum < (wholeShares raw).sum + raw.length) := by
  induction raw with
  | nil => simp [wholeShares]
  | cons r raw ih =>
      obtain ⟨hr, hraw⟩ := List.forall_mem_cons.mp h
      obtain ⟨hle, hge, -⟩ := ih hraw
      have hfloor : ((⌊r⌋₊ : ℕ) : ℚ) ≤ r := Nat.floor_le hr
      have hceil : r < (⌊r⌋₊ : ℕ) + 1 := Nat.lt_floor_add_one r
      simp only [wholeShares, List.map_cons, List.sum_cons, List.length_cons] at hle hge ⊢
      simp only [Nat.cast_add, Nat.cast_one]
      refine ⟨by linarith only [hle, hfloor], by linarith only [hge, hceil], fun _ => ?_⟩
      linarith only [hge, hceil]

/-! ## The loops -/

/-- The largest remainders are different nodes, and each gets one layer more. -/
theorem addRemainders_exact {order result : List Nat} {count : Nat}
    (horder : order.Perm (List.range result.length)) (hcount : count ≤ result.length) :
    ∃ result', addRemainders order result count = .ok result' ∧
      result'.length = result.length ∧ result'.sum = result.sum + count ∧
      ∀ j, result'[j]? = (result[j]?).map fun n =>
        if j ∈ order.take count then n + 1 else n := by
  have hlength : order.length = result.length := by rw [horder.length_eq, List.length_range]
  have hnodup : order.Nodup := horder.nodup_iff.mpr List.nodup_range
  refine foldlM_range_exists (P := fun i (t : List Nat) => t.length = result.length ∧
    t.sum = result.sum + i ∧ ∀ j, t[j]? = (result[j]?).map fun n =>
      if j ∈ order.take i then n + 1 else n) ⟨rfl, rfl, fun j => by simp⟩ ?_
  rintro i t hi ⟨ht, hsum, hget⟩
  have hilt : i < order.length := by omega
  have hmem : order[i] < result.length :=
    List.mem_range.mp (horder.mem_iff.mp (List.getElem_mem hilt))
  have hnew : order[i] ∉ order.take i := fun hin => by
    obtain ⟨k, hk, heq⟩ := List.mem_take_iff_getElem.mp hin
    have := (List.Nodup.getElem_inj_iff hnodup).mp heq
    omega
  have htake : ∀ j, j ∈ order.take (i + 1) ↔ j ∈ order.take i ∨ j = order[i] := fun j => by
    rw [List.take_succ_eq_append_getElem hilt, List.mem_append, List.mem_singleton]
  have hat : t[order[i]]? = some t[order[i]] := List.getElem?_eq_getElem (by omega)
  rw [List.getElem?_eq_getElem hilt]
  refine ⟨_, rfl, by rw [List.length_modify, ht], ?_, fun j => ?_⟩
  · have := sum_modify (f := (· + 1)) hat
    omega
  · simp only [htake]
    by_cases hj : order[i] = j
    · subst hj
      rw [List.getElem?_modify_eq, hget, Option.map_eq_map, Option.map_map]
      refine congrArg (Option.map · _) (funext fun n => ?_)
      rw [Function.comp_apply, if_neg hnew, if_pos (.inr rfl)]
    · have hsame : (j ∈ order.take i ∨ j = order[i]) ↔ j ∈ order.take i :=
        or_iff_left (Ne.symm hj)
      rw [List.getElem?_modify_ne _ _ hj, hget]
      simp only [hsame]

/-- When a node has no layer and the others at most one, there are fewer layers than nodes. -/
theorem sum_lt_length {l : List Nat} (hone : ∀ n ∈ l, n ≤ 1) (h0 : 0 ∈ l) : l.sum < l.length := by
  induction l with
  | nil => cases h0
  | cons n l ih =>
      obtain ⟨hn, hone⟩ := List.forall_mem_cons.mp hone
      have hle : l.sum ≤ l.length := by
        simpa using List.sum_le_card_nsmul l 1 hone
      rw [List.sum_cons, List.length_cons]
      rcases List.mem_cons.mp h0 with rfl | h0
      · omega
      · have := ih hone h0
        omega

/-- The node with most layers has two, as long as there is a layer for each and one has none. -/
theorem two_le_of_argmax {t : List Nat} {i m : Nat} (hsum : t.length ≤ t.sum)
    (hi : t[i]? = some 0)
    (hmax : (List.range t.length).argmax (fun j => t.getD j 0) = some m) :
    m < t.length ∧ 1 < t.getD m 0 := by
  have hm : m < t.length := List.mem_range.mp (List.argmax_mem hmax)
  refine ⟨hm, ?_⟩
  by_contra hle
  refine absurd (sum_lt_length (fun n hn => ?_) (List.mem_of_getElem? hi)) (by omega)
  obtain ⟨j, hj, rfl⟩ := List.getElem_of_mem hn
  have hge := List.le_of_mem_argmax (List.mem_range.mpr hj) hmax
  rw [List.getD_eq_getElem?_getD, List.getElem?_eq_getElem hj, Option.getD_some] at hge
  omega

/-- The repair succeeds, and gives nobody more than one layer. -/
theorem ensureMinimum_exact {result bound : List Nat} (hsum : result.length ≤ result.sum)
    (hbound : ∀ (j n : Nat), result[j]? = some n → ∃ b, bound[j]? = some b ∧ n ≤ b + 1) :
    ∃ result' : List Nat, ensureMinimum result = .ok result' ∧
      ∀ (j n : Nat), result'[j]? = some n → ∃ b, bound[j]? = some b ∧ n ≤ b + 1 := by
  have hloop : ∃ result' : List Nat, ensureMinimum result = .ok result' ∧
      (result'.length = result.length ∧ result'.sum = result.sum ∧
        ∀ (j n : Nat), result'[j]? = some n → ∃ b, bound[j]? = some b ∧ n ≤ b + 1) := by
    refine foldlM_range_exists (P := fun _ (t : List Nat) => t.length = result.length ∧
      t.sum = result.sum ∧
        ∀ (j n : Nat), t[j]? = some n → ∃ b, bound[j]? = some b ∧ n ≤ b + 1)
      ⟨rfl, rfl, hbound⟩ ?_
    rintro i t hi ⟨ht, htsum, htbound⟩
    by_cases hzero : t[i]? = some 0
    · obtain ⟨m, hm⟩ : ∃ m, (List.range t.length).argmax (fun j => t.getD j 0) = some m := by
        rw [← Option.isSome_iff_exists, Option.isSome_iff_ne_none, Ne, List.argmax_eq_none,
          List.range_eq_nil]
        omega
      obtain ⟨hlt, htwo⟩ := two_le_of_argmax (by omega) hzero hm
      have hgetm : t[m]? = some (t.getD m 0) := by
        rw [List.getD_eq_getElem?_getD, List.getElem?_eq_getElem hlt, Option.getD_some]
      have hmi : m ≠ i := by
        rintro rfl
        rw [hzero] at hgetm
        have := Option.some.inj hgetm
        omega
      have htake : (t.modify m (· - 1)).sum + t.getD m 0 = t.sum + (t.getD m 0 - 1) :=
        sum_modify hgetm
      have hstill : (t.modify m (· - 1))[i]? = some 0 := by
        rw [List.getElem?_modify_ne _ _ hmi, hzero]
      have hgive := sum_set (x := 1) hstill
      refine ⟨(t.modify m (· - 1)).set i 1, ?_, by simp [ht], by omega, fun j n hj => ?_⟩
      · rw [if_pos hzero, hm]
        exact if_pos htwo
      · rcases getElem?_set_cases hj with ⟨rfl, rfl⟩ | ⟨hji, hj⟩
        · obtain ⟨b, hb, -⟩ := htbound _ _ hzero
          exact ⟨b, hb, by omega⟩
        · by_cases hjm : m = j
          · subst hjm
            rw [List.getElem?_modify_eq, hgetm] at hj
            obtain rfl : t.getD m 0 - 1 = n := Option.some.inj hj
            obtain ⟨b, hb, hle⟩ := htbound _ _ hgetm
            exact ⟨b, hb, by omega⟩
          · rw [List.getElem?_modify_ne _ _ hjm] at hj
            exact htbound j n hj
    · exact ⟨t, if_neg hzero, ht, htsum, htbound⟩
  obtain ⟨result', hok, -, -, hle⟩ := hloop
  exact ⟨result', hok, hle⟩

/-- Where everybody has a layer nothing is repaired. -/
theorem ensureMinimum_of_pos {result : List Nat} (h : ∀ n ∈ result, 0 < n) :
    ensureMinimum result = .ok result := by
  have hloop : ∃ result', ensureMinimum result = .ok result' ∧ result' = result := by
    refine foldlM_range_exists (P := fun _ t => t = result) rfl ?_
    rintro i t - rfl
    refine ⟨t, if_neg fun hzero => ?_, rfl⟩
    exact absurd (h 0 (List.mem_of_getElem? hzero)) (Nat.lt_irrefl 0)
  obtain ⟨result', hok, rfl⟩ := hloop
  exact hok

/-! ## The allocation -/

/-- Every share of the allocation is a share rounded down, with at most one layer more. -/
structure IsAllocation (totalLayers : Nat) (fractions : List ℚ) (allocations : List Nat) :
    Prop where
  length : allocations.length = fractions.length
  pos : ∀ n ∈ allocations, 0 < n
  sum : allocations.sum = totalLayers
  le : ∀ (i n : Nat) (f : ℚ), allocations[i]? = some n → fractions[i]? = some f → n ≤ ⌊f * totalLayers⌋₊ + 1
  /-- Where everybody is due a layer nobody gets less than that. -/
  ge : (∀ f ∈ fractions, 1 ≤ ⌊f * totalLayers⌋₊) →
    ∀ (i n : Nat) (f : ℚ), allocations[i]? = some n → fractions[i]? = some f → ⌊f * totalLayers⌋₊ ≤ n

/-- **In exact arithmetic the layers can always be allocated**, if there is one for each node. -/
theorem allocateLayersWith_exact {totalLayers : Nat} {fractions : List ℚ}
    (hne : fractions ≠ []) (htotal : fractions.length ≤ totalLayers)
    (hdivision : IsDivision fractions) :
    ∃ allocations, allocateLayersWith id totalLayers fractions = .ok allocations ∧
      IsAllocation totalLayers fractions allocations := by
  have hraw : (fractions.map fun f => id (f * id (totalLayers : ℚ)))
      = exactShares totalLayers fractions := rfl
  have hsumraw : (exactShares totalLayers fractions).sum = totalLayers := by
    rw [sum_exactShares, hdivision.sum, one_mul]
  have hnonneg : ∀ r ∈ exactShares totalLayers fractions, 0 ≤ r := by
    intro r hr
    obtain ⟨f, hf, rfl⟩ := List.mem_map.mp hr
    exact mul_nonneg (hdivision.nonneg f hf) (Nat.cast_nonneg _)
  have hrawlength : (exactShares totalLayers fractions).length = fractions.length :=
    List.length_map ..
  have hwholelength : (wholeShares (exactShares totalLayers fractions)).length
      = fractions.length := by
    rw [wholeShares, List.length_map, hrawlength]
  have hwhole : ∀ i, (wholeShares (exactShares totalLayers fractions))[i]?
      = (fractions[i]?).map fun f : ℚ => ⌊f * totalLayers⌋₊ := fun i => by
    rw [wholeShares, exactShares, List.map_map, List.getElem?_map]
    rfl
  -- what is left is less than one layer for each node
  obtain ⟨hle, -, hlt⟩ := wholeShares_bounds hnonneg
  have hlt := hlt (by rw [exactShares, Ne, List.map_eq_nil_iff]; exact hne)
  rw [hsumraw] at hle hlt
  rw [hrawlength] at hlt
  norm_cast at hle hlt
  have horder : (byRemainderWith id (exactShares totalLayers fractions)
      (wholeShares (exactShares totalLayers fractions))).Perm
      (List.range (wholeShares (exactShares totalLayers fractions)).length) := by
    rw [hwholelength, ← hrawlength]
    exact List.perm_insertionSort _ _
  obtain ⟨result, hresult, hlength, hsum, hget⟩ := addRemainders_exact horder
    (show totalLayers - (wholeShares (exactShares totalLayers fractions)).sum ≤ _ by omega)
  have hallocate : allocateLayersWith id totalLayers fractions = ensureMinimum result := by
    unfold allocateLayersWith
    rw [if_neg (by simpa using hne), if_neg (by omega), hraw]
    simp only [hresult]
    rfl
  have hbound : ∀ (j n : Nat), result[j]? = some n →
      ∃ b, (wholeShares (exactShares totalLayers fractions))[j]? = some b ∧ n ≤ b + 1 := by
    intro j n hj
    rw [hget, Option.map_eq_some_iff] at hj
    obtain ⟨b, hb, rfl⟩ := hj
    exact ⟨b, hb, by split <;> omega⟩
  obtain ⟨allocations, hok, hbound'⟩ := ensureMinimum_exact (by omega) hbound
  obtain ⟨hsum', hlength', hpos⟩ := ensureMinimum_ok hok
  refine ⟨allocations, hallocate.trans hok, by omega, hpos, by omega, ?_, ?_⟩
  · intro i n f hi hf
    obtain ⟨b, hb, hle⟩ := hbound' i n hi
    rw [hwhole, hf] at hb
    obtain rfl := Option.some.inj hb
    exact hle
  · intro hdue i n f hi hf
    have hallpos : ∀ m ∈ result, 0 < m := by
      intro m hm
      obtain ⟨j, hj⟩ := List.mem_iff_getElem?.mp hm
      rw [hget, hwhole, Option.map_map, Option.map_eq_some_iff] at hj
      obtain ⟨g, hg, rfl⟩ := hj
      have := hdue g (List.mem_of_getElem? hg)
      rw [Function.comp_apply]
      split <;> omega
    rw [ensureMinimum_of_pos hallpos] at hok
    obtain rfl := Except.ok.inj hok
    rw [hget, Option.map_eq_some_iff] at hi
    obtain ⟨b, hb, rfl⟩ := hi
    rw [hwhole, hf] at hb
    obtain rfl : ⌊f * totalLayers⌋₊ = b := Option.some.inj hb
    split <;> omega

theorem allocateLayersWith_exact_three : ∃ allocations,
    allocateLayersWith id 5 [1 / 2, 1 / 2, 0] = .ok allocations ∧
      IsAllocation 5 [1 / 2, 1 / 2, 0] allocations :=
  allocateLayersWith_exact (by simp) (by simp) ⟨by norm_num, by norm_num⟩

end Exo
