import Exo.Lib.Dict

/-!
# Dictionaries ordered by use

A bounded cache keeps its bindings in the order of their last use. A binding that is used goes to the
end; where one too many is put, the first goes. What a lookup gives is what was put: moving a binding
changes no lookup, and dropping one only takes lookups away.
-/

namespace Exo.Lib.Dict

universe u v

variable {κ : Type u} {ν : Type v} [DecidableEq κ] {d : Dict κ ν} {k k' : κ} {v w : ν}

/-- Move a binding to the end. -/
def moveToEnd (d : Dict κ ν) (k : κ) : Dict κ ν :=
  match d.get? k with
  | none => d
  | some v => (d.erase k).set k v

/-- Take the first binding away. -/
def popFirst (d : Dict κ ν) : Dict κ ν where
  entries := d.entries.tail
  nodup := d.nodup.sublist ((List.tail_sublist _).map Prod.fst)

/-- Take the first binding away when there are more than `bound`. -/
def within (bound : Nat) (d : Dict κ ν) : Dict κ ν :=
  if bound < d.entries.length then d.popFirst else d

/-- Bind a key at the end, and keep no more than `bound` bindings. -/
def putWithin (bound : Nat) (d : Dict κ ν) (k : κ) (v : ν) : Dict κ ν :=
  ((d.set k v).moveToEnd k).within bound

@[simp] theorem get?_moveToEnd (d : Dict κ ν) (k k' : κ) :
    (d.moveToEnd k).get? k' = d.get? k' := by
  unfold moveToEnd
  cases h : d.get? k with
  | none => rfl
  | some v =>
      show ((d.erase k).set k v).get? k' = d.get? k'
      rw [get?_set, get?_erase]
      by_cases hk : k' = k
      · rw [if_pos hk, hk, h]
      · rw [if_neg hk, if_neg hk]

theorem get?_of_popFirst (h : d.popFirst.get? k = some v) : d.get? k = some v :=
  mem_entries.1 (List.mem_of_mem_tail (mem_entries.2 h))

/-- A cache holds what was put now or what it held before. -/
theorem get?_of_putWithin {bound : Nat} (h : (d.putWithin bound k v).get? k' = some w) :
    (k' = k ∧ w = v) ∨ d.get? k' = some w := by
  have hset : ((d.set k v).moveToEnd k).get? k' = some w := by
    unfold putWithin within at h
    split at h
    · exact get?_of_popFirst h
    · exact h
  rw [get?_moveToEnd, get?_set] at hset
  split at hset
  · rename_i hk
    exact .inl ⟨hk, (Option.some.inj hset).symm⟩
  · exact .inr hset

theorem length_entries_set (d : Dict κ ν) (k : κ) (v : ν) :
    (d.set k v).entries.length
      = if (d.get? k).isSome then d.entries.length else d.entries.length + 1 := by
  unfold set
  split
  · rename_i hk
    rw [if_pos (mem_keys.1 hk), List.length_map]
  · rename_i hk
    rw [if_neg fun h => hk (mem_keys.2 h), List.length_append]
    rfl

theorem length_entries_erase (h : d.get? k = some v) :
    (d.erase k).entries.length + 1 = d.entries.length := by
  have hback := length_entries_set (d.erase k) k v
  have hkeys : ((d.erase k).set k v).keys.length = d.keys.length := by
    have hnodup : ((d.erase k).set k v).keys.Nodup := ((d.erase k).set k v).nodup
    refine List.Perm.length_eq ((List.perm_ext_iff_of_nodup hnodup d.nodup).mpr fun k' => ?_)
    show k' ∈ ((d.erase k).set k v).keys ↔ k' ∈ d.keys
    rw [mem_keys, mem_keys, get?_set, get?_erase]
    by_cases hk : k' = k
    · rw [if_pos hk, hk, h, Option.isSome_some]
    · rw [if_neg hk, if_neg hk]
  rw [get?_erase_self, Option.isSome_none, if_neg Bool.false_ne_true] at hback
  simp only [keys, List.length_map] at hkeys
  omega

@[simp] theorem length_entries_moveToEnd (d : Dict κ ν) (k : κ) :
    (d.moveToEnd k).entries.length = d.entries.length := by
  unfold moveToEnd
  cases h : d.get? k with
  | none => rfl
  | some v =>
      show ((d.erase k).set k v).entries.length = d.entries.length
      rw [length_entries_set, get?_erase_self, Option.isSome_none, if_neg Bool.false_ne_true,
        length_entries_erase h]

/-- **A bounded cache stays within its bound.** -/
theorem length_entries_putWithin {bound : Nat} (h : d.entries.length ≤ bound) (k : κ) (v : ν) :
    (d.putWithin bound k v).entries.length ≤ bound := by
  have hset := length_entries_set d k v
  have hlength : ((d.set k v).moveToEnd k).entries.length ≤ bound + 1 := by
    rw [length_entries_moveToEnd, hset]
    split <;> omega
  unfold putWithin within
  split
  · show ((d.set k v).moveToEnd k).entries.tail.length ≤ bound
    rw [List.length_tail]
    omega
  · omega

end Exo.Lib.Dict
