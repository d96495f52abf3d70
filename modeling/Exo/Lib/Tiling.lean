import Mathlib.Algebra.BigOperators.Group.List.Basic
import Mathlib.Algebra.Order.Group.Nat
import Mathlib.Algebra.GroupWithZero.Nat

/-!
# Intervals that tile a range

A list of half-open intervals tiles a range when each is not empty and starts where the one
before it ends. Cutting a range into parts of given sizes gives such a list.
-/

namespace Exo.Lib

/-- The intervals `[s, e)` of the list follow one another from `a` to `b`. -/
def Tiles : Nat → Nat → List (Nat × Nat) → Prop
  | a, b, [] => a = b
  | a, b, (s, e) :: l => s = a ∧ s < e ∧ Tiles e b l

/-- Parts of these sizes, one after the other from `a` on. -/
def cuts : Nat → List Nat → List (Nat × Nat)
  | _, [] => []
  | a, n :: ns => (a, a + n) :: cuts (a + n) ns

variable {a b : Nat} {l : List (Nat × Nat)}

theorem Tiles.le (h : Tiles a b l) : a ≤ b := by
  induction l generalizing a with
  | nil => exact Nat.le_of_eq h
  | cons p l ih =>
      obtain ⟨hs, hlt, htail⟩ := h
      have := ih htail
      omega

/-- No interval leaves the range. -/
theorem Tiles.within (h : Tiles a b l) {p : Nat × Nat} (hp : p ∈ l) : a ≤ p.1 ∧ p.2 ≤ b := by
  induction l generalizing a with
  | nil => cases hp
  | cons q l ih =>
      obtain ⟨hs, hlt, htail⟩ := h
      rcases List.mem_cons.mp hp with rfl | hp
      · exact ⟨hs.ge, htail.le⟩
      · have := ih htail hp
        omega

/-- **Everything in the range is in exactly one interval.** -/
theorem Tiles.existsUnique (h : Tiles a b l) {k : Nat} (ha : a ≤ k) (hb : k < b) :
    ∃! i : Nat, ∃ p : Nat × Nat, l[i]? = some p ∧ p.1 ≤ k ∧ k < p.2 := by
  induction l generalizing a with
  | nil =>
      have hab : a = b := h
      omega
  | cons q l ih =>
      obtain ⟨hs, hlt, htail⟩ := h
      by_cases hk : k < q.2
      · -- in the first one, and the others start after it
        refine ⟨0, ⟨q, rfl, by omega, hk⟩, ?_⟩
        intro i hi
        obtain ⟨p, hp, hle, -⟩ := hi
        cases i with
        | zero => rfl
        | succ i =>
            have := htail.within (List.mem_of_getElem? hp)
            omega
      · obtain ⟨i, hi, huniq⟩ := ih htail (by omega)
        refine ⟨i + 1, hi, ?_⟩
        intro j hj
        cases j with
        | zero =>
            obtain ⟨p, hp, -, hp2⟩ := hj
            obtain rfl : q = p := Option.some.inj hp
            omega
        | succ j => exact congrArg (· + 1) (huniq j hj)

@[simp] theorem length_cuts (ns : List Nat) : (cuts a ns).length = ns.length := by
  induction ns generalizing a with
  | nil => rfl
  | cons n ns ih => simp [cuts, ih]

/-- The part at a position starts where the parts before it end. -/
theorem getElem?_cuts (ns : List Nat) (i : Nat) :
    (cuts a ns)[i]? = ns[i]?.map fun n => (a + (ns.take i).sum, a + (ns.take i).sum + n) := by
  induction ns generalizing a i with
  | nil => rfl
  | cons n ns ih =>
      cases i with
      | zero => simp [cuts]
      | succ i => simp [cuts, ih, Nat.add_assoc]

/-- Parts tile a range when none is empty and they fill it. -/
theorem tiles_cuts_iff {ns : List Nat} :
    Tiles a b (cuts a ns) ↔ (∀ n ∈ ns, 0 < n) ∧ a + ns.sum = b := by
  induction ns generalizing a with
  | nil => simp [cuts, Tiles]
  | cons n ns ih =>
      simp only [cuts, Tiles, ih, List.forall_mem_cons, List.sum_cons]
      constructor
      · intro h
        obtain ⟨-, hn, hpos, hsum⟩ := h
        exact ⟨⟨by omega, hpos⟩, by omega⟩
      · intro h
        obtain ⟨⟨hn, hpos⟩, hsum⟩ := h
        exact ⟨trivial, by omega, hpos, by omega⟩

end Exo.Lib
