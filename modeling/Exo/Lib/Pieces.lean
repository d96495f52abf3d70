import Exo.Lib.Dict
import Exo.Lib.Sequence
import Mathlib.Data.List.Flatten
import Mathlib.Data.List.Range

/-!
# A list in pieces

A list is cut into slices of a fixed length, and the slices are numbered. Whoever files numbered
pieces under their numbers has all of them as soon as there are as many as there should be, in
whatever order they came and however often.
-/

namespace Exo.Lib

universe u

variable {α : Type u}

/-- The slices of length `n` of a list, of which the last one can be shorter. -/
def slices (n : Nat) (l : List α) : List (List α) :=
  (List.range' 0 ((l.length + n - 1) / n) n).map fun i => (l.drop i).take n

section Slices

variable {n : Nat}

@[simp] theorem slices_nil (hn : 0 < n) : slices n ([] : List α) = [] := by
  have hnone : (0 + n - 1) / n = 0 := Nat.div_eq_of_lt (by omega)
  rw [slices, List.length_nil, hnone]
  rfl

/-- The first slice, and those of the rest. -/
theorem slices_of_ne_nil (hn : 0 < n) {l : List α} (hl : l ≠ []) :
    slices n l = l.take n :: slices n (l.drop n) := by
  have hpos : 0 < l.length := List.length_pos_iff.mpr hl
  have hcount : (l.length + n - 1) / n = ((l.drop n).length + n - 1) / n + 1 := by
    have hsplit : l.length + n - 1 = (l.length - 1) + n := by omega
    rw [hsplit, Nat.add_div_right _ hn, List.length_drop]
    by_cases hle : n ≤ l.length
    · rw [show l.length - n + n - 1 = l.length - 1 by omega]
    · rw [Nat.div_eq_of_lt (by omega), Nat.div_eq_of_lt (by omega)]
  unfold slices
  rw [hcount, List.range'_succ, List.map_cons, List.drop_zero, Nat.zero_add, ← Nat.add_zero n,
    ← List.map_add_range', List.map_map, Nat.add_zero]
  congr 1
  refine List.map_congr_left fun i _ => ?_
  rw [Function.comp_apply, List.drop_drop]

/-- **The slices make up the list.** -/
theorem flatten_slices (hn : 0 < n) (l : List α) : (slices n l).flatten = l := by
  induction hk : l.length using Nat.strongRecOn generalizing l with
  | _ k ih =>
      by_cases hl : l = []
      · subst hl
        rw [slices_nil hn]
        rfl
      · have hpos : 0 < l.length := List.length_pos_iff.mpr hl
        have hrest : (slices n (l.drop n)).flatten = l.drop n :=
          ih (l.drop n).length (by rw [List.length_drop]; omega) _ rfl
        rw [slices_of_ne_nil hn hl, List.flatten_cons, hrest, List.take_append_drop]

theorem slices_eq_nil (hn : 0 < n) {l : List α} : slices n l = [] ↔ l = [] := by
  constructor
  · intro h
    rw [← flatten_slices hn l, h]
    rfl
  · rintro rfl
    exact slices_nil hn

end Slices

/-! ## Numbered pieces -/

section Numbered

variable {d : Dict Nat α} {l : List α} (h : ∀ i a, d.get? i = some a → l[i]? = some a)
include h

theorem entries_subset_enumerate : d.entries ⊆ enumerate l := by
  intro e he
  rw [mem_enumerate]
  exact h e.1 e.2 (Dict.mem_entries.1 he)

theorem length_le_of_numbered : d.entries.length ≤ l.length := by
  have hnodup : d.entries.Nodup := d.nodup.of_map Prod.fst
  have hle := (List.subperm_of_subset hnodup (entries_subset_enumerate h)).length_le
  rwa [enumerate_length] at hle

/-- **As many pieces as there are, are all of them.** -/
theorem values_perm_of_numbered (hlen : d.entries.length = l.length) : d.values.Perm l := by
  have hnodup : d.entries.Nodup := d.nodup.of_map Prod.fst
  have hperm : d.entries.Perm (enumerate l) :=
    (List.subperm_of_subset hnodup (entries_subset_enumerate h)).perm_of_length_le
      (by rw [enumerate_length, hlen])
  have hvalues := hperm.map Prod.snd
  rwa [map_snd_enumerate] at hvalues

/-- Who has each of them has as many as there are. -/
theorem length_of_numbered (hall : ∀ i a, l[i]? = some a → d.get? i = some a) :
    d.entries.length = l.length := by
  refine Nat.le_antisymm (length_le_of_numbered h) ?_
  have hkeys : List.range l.length ⊆ d.keys := by
    intro i hi
    have hlt : i < l.length := List.mem_range.mp hi
    refine Dict.mem_keys.2 ?_
    rw [hall i l[i] (List.getElem?_eq_getElem hlt)]
    rfl
  have hle := (List.subperm_of_subset List.nodup_range hkeys).length_le
  rwa [List.length_range, Dict.keys, List.length_map] at hle

end Numbered

/-- What is sorted by a key that tells its elements apart is so in one way. -/
theorem mergeSort_eq_of_perm {key : α → Nat} {l l' : List α} (hperm : l.Perm l')
    (hsorted : l'.Pairwise fun a b => key a < key b) :
    l.mergeSort (fun a b => key a ≤ key b) = l' := by
  have htrans : ∀ a b c, decide (key a ≤ key b) → decide (key b ≤ key c) →
      decide (key a ≤ key c) := by
    intro a b c hab hbc
    simp only [decide_eq_true_eq] at hab hbc ⊢
    omega
  have htotal : ∀ a b, decide (key a ≤ key b) || decide (key b ≤ key a) := by
    intro a b
    simp only [Bool.or_eq_true, decide_eq_true_eq]
    omega
  have hsort : (l.mergeSort fun a b => key a ≤ key b).Pairwise fun a b => key a ≤ key b :=
    (List.pairwise_mergeSort htrans htotal l).imp fun hle => of_decide_eq_true hle
  have heq : ∀ a b, a ∈ l' → b ∈ l' → key a = key b → a = b := by
    intro a b ha hb hkey
    obtain ⟨i, hi, rfl⟩ := List.mem_iff_getElem.mp ha
    obtain ⟨j, hj, rfl⟩ := List.mem_iff_getElem.mp hb
    have hapart := List.pairwise_iff_getElem.mp hsorted
    rcases Nat.lt_trichotomy i j with hlt | rfl | hlt
    · have := hapart i j hi hj hlt
      omega
    · rfl
    · have := hapart j i hj hi hlt
      omega
  have hall := (List.mergeSort_perm l fun a b => key a ≤ key b).trans hperm
  refine hall.eq_of_pairwise (fun a b ha hb hab hba => ?_) hsort (hsorted.imp Nat.le_of_lt)
  exact heq a b (hall.mem_iff.mp ha) hb (Nat.le_antisymm hab hba)

end Exo.Lib
