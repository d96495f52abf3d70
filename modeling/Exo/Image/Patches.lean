import Exo.Image.Topology

/-!
# The patches of an image

The patch heights add up to the height of the latents, and the token ranges follow one another
from the first token to the last.
-/

namespace Exo

variable {a b : Nat}

theorem ceilDiv_pos (ha : 0 < a) (hb : 0 < b) : 0 < ceilDiv a b := by
  unfold ceilDiv
  exact Nat.div_pos (by omega) hb

theorem mul_pred_ceilDiv_lt (ha : 0 < a) (hb : 0 < b) :
    b * (ceilDiv a b - 1) < a := by
  have hdiv : b * ((a + b - 1) / b) ≤ a + b - 1 := Nat.mul_div_le _ _
  have hpos := ceilDiv_pos ha hb
  rw [Nat.mul_sub]
  unfold ceilDiv at hpos ⊢
  omega

theorem ceilDiv_eq_one (ha : 0 < a) (hb : 0 < b) : ceilDiv a b = 1 ↔ a ≤ b := by
  unfold ceilDiv
  constructor
  · intro h
    have hlt : (a + b - 1) / b < 2 := by omega
    rw [Nat.div_lt_iff_lt_mul hb] at hlt
    omega
  · intro h
    exact Nat.div_eq_of_lt_le (by omega) (by omega)

section
variable {latentHeight numPatches : Nat}

/-- The patches cover the height. -/
theorem sum_calculatePatchHeights (h : 0 < latentHeight) (hp : 0 < numPatches) :
    (calculatePatchHeights latentHeight numPatches).1.sum = latentHeight := by
  have hlt := mul_pred_ceilDiv_lt h (ceilDiv_pos h hp)
  simp only [calculatePatchHeights, List.sum_append_nat, List.sum_replicate_nat,
    List.sum_singleton]
  rw [Nat.mul_comm] at hlt
  rw [Nat.mul_comm (ceilDiv latentHeight numPatches)]
  omega

/-- The first patch is all of the image exactly when there are no others. -/
theorem head_calculatePatchHeights (h : 0 < latentHeight) (hp : 0 < numPatches) :
    ∃ first rest, (calculatePatchHeights latentHeight numPatches).1 = first :: rest ∧
      ((calculatePatchHeights latentHeight numPatches).2 = 1 → first = latentHeight ∧ rest = []) ∧
      ((calculatePatchHeights latentHeight numPatches).2 ≠ 1 → first < latentHeight) := by
  have hpos := ceilDiv_pos h hp
  generalize hpatch : ceilDiv latentHeight numPatches = patchHeight at hpos
  have hone := ceilDiv_eq_one h hpos
  have hactual := ceilDiv_pos h hpos
  simp only [calculatePatchHeights, hpatch]
  cases hk : ceilDiv latentHeight patchHeight - 1 with
  | zero =>
    refine ⟨_, [], rfl, fun _ => ⟨?_, rfl⟩, fun hne => absurd ?_ hne⟩ <;> omega
  | succ k =>
    refine ⟨patchHeight, _, rfl, fun heq => ?_, fun hne => ?_⟩
    · omega
    · exact Nat.lt_of_not_le fun hle => hne (hone.mpr hle)

end

/-! ## Token ranges -/

variable {w c : Nat}

/-- Each range lies in the image. -/
theorem mem_tokenRanges {heights : List Nat} {range : Nat × Nat}
    (h : range ∈ tokenRanges w c heights) :
    range.1 ≤ range.2 ∧ range.2 ≤ w * (c + heights.sum) := by
  induction heights generalizing c with
  | nil => cases h
  | cons k heights ih =>
    rw [tokenRanges, List.mem_cons] at h
    rw [List.sum_cons, ← Nat.add_assoc]
    rcases h with rfl | h
    · exact ⟨Nat.mul_le_mul_left w (by omega), Nat.mul_le_mul_left w (by omega)⟩
    · exact ih h

/-- Together they have all tokens. -/
theorem sum_tokenRanges (heights : List Nat) :
    ((tokenRanges w c heights).map fun range => range.2 - range.1).sum = w * heights.sum := by
  induction heights generalizing c with
  | nil => rfl
  | cons k heights ih =>
    rw [tokenRanges, List.map_cons, List.sum_cons, ih, List.sum_cons, Nat.mul_add, Nat.mul_add]
    omega

end Exo
