import Mathlib.Data.List.Induction
import Mathlib.Data.List.Nodup
import Mathlib.Data.List.Perm.Subperm
import Mathlib.Algebra.GroupWithZero.Nat

/-!
# Insertion-ordered dictionaries

A dictionary is a list of bindings with pairwise different keys. Setting a key
that is present rewrites its binding in place; setting a new key appends. The
order of the bindings is the order an iteration over the dictionary sees.
-/

namespace Exo.Lib

universe u v

/-- A dictionary with its bindings in insertion order. -/
structure Dict (κ : Type u) (ν : Type v) where
  entries : List (κ × ν)
  /-- No key is bound twice. -/
  nodup : (entries.map Prod.fst).Nodup
  deriving DecidableEq

namespace Dict

variable {κ : Type u} {ν : Type v}

/-- The dictionary with no bindings. -/
def empty : Dict κ ν := ⟨[], List.nodup_nil⟩

instance : EmptyCollection (Dict κ ν) := ⟨empty⟩

instance : Inhabited (Dict κ ν) := ⟨empty⟩

def keys (d : Dict κ ν) : List κ := d.entries.map Prod.fst

def values (d : Dict κ ν) : List ν := d.entries.map Prod.snd

/-- Keep the bindings that satisfy `p`, in order. -/
def filter (p : κ → ν → Bool) (d : Dict κ ν) : Dict κ ν where
  entries := d.entries.filter fun e => p e.1 e.2
  nodup := d.nodup.sublist (List.filter_sublist.map Prod.fst)

/-- Change every value, keeping the keys and their order. -/
def mapValues {ν' : Type v} (f : κ → ν → ν') (d : Dict κ ν) : Dict κ ν' where
  entries := d.entries.map fun e => (e.1, f e.1 e.2)
  nodup := by rw [List.map_map]; exact d.nodup

/-- A dictionary is its bindings. -/
theorem ext {d d' : Dict κ ν} (h : d.entries = d'.entries) : d = d' := by
  cases d
  cases d'
  cases h
  rfl

@[simp] theorem entries_empty : (empty : Dict κ ν).entries = [] := rfl

@[simp] theorem values_empty : (empty : Dict κ ν).values = [] := rfl

variable [DecidableEq κ]

/-- The value bound to a key. -/
def get? (d : Dict κ ν) (k : κ) : Option ν := d.entries.lookup k

/-- Remove the binding of a key, if there is one. -/
def erase (d : Dict κ ν) (k : κ) : Dict κ ν := d.filter fun k' _ => k' ≠ k

private theorem map_fst_replace (l : List (κ × ν)) (k : κ) (v : ν) :
    (l.map fun e => if e.1 = k then (k, v) else e).map Prod.fst = l.map Prod.fst := by
  rw [List.map_map]
  refine List.map_congr_left fun e _ => ?_
  by_cases h : e.1 = k <;> simp [h]

/-- Bind a key, in place when it is present and at the end when it is new. -/
def set (d : Dict κ ν) (k : κ) (v : ν) : Dict κ ν :=
  if h : k ∈ d.entries.map Prod.fst then
    ⟨d.entries.map fun e => if e.1 = k then (k, v) else e, by
      rw [map_fst_replace]; exact d.nodup⟩
  else
    ⟨d.entries ++ [(k, v)], by
      rw [List.map_append, List.nodup_append]
      refine ⟨d.nodup, List.nodup_singleton k, ?_⟩
      intro a ha b hb
      simp only [List.map_cons, List.map_nil, List.mem_singleton] at hb
      subst hb
      intro he
      exact h (he ▸ ha)⟩

/-! ## Bindings and lookups -/

variable {l : List (κ × ν)}

private theorem lookup_iff (hnd : (l.map Prod.fst).Nodup) (k : κ) (v : ν) :
    l.lookup k = some v ↔ (k, v) ∈ l := by
  induction l with
  | nil => simp
  | cons e l ih =>
      obtain ⟨k', v'⟩ := e
      simp only [List.map_cons, List.nodup_cons] at hnd
      by_cases hk : k = k'
      · subst hk
        simp only [List.lookup_cons_self, List.mem_cons, Prod.mk.injEq, true_and]
        constructor
        · intro h; exact Or.inl (Option.some.inj h).symm
        · rintro (rfl | h)
          · rfl
          · exact absurd (List.mem_map_of_mem (f := Prod.fst) h) hnd.1
      · have hb : (k == k') = false := by simpa using hk
        rw [List.lookup_cons, hb]
        simp [ih hnd.2, hk]

variable {d : Dict κ ν} {v : ν}

variable {k : κ}

/-- A binding is in the dictionary exactly when looking its key up gives its value. -/
theorem mem_entries :
    (k, v) ∈ d.entries ↔ d.get? k = some v :=
  (lookup_iff d.nodup k v).symm

theorem mem_values : v ∈ d.values ↔ ∃ k, d.get? k = some v := by
  simp only [values, List.mem_map, Prod.exists, exists_eq_right, mem_entries]

theorem mem_keys : k ∈ d.keys ↔ (d.get? k).isSome := by
  simp only [keys, List.mem_map, Prod.exists, exists_and_right, exists_eq_right, mem_entries,
    Option.isSome_iff_exists]

@[simp] theorem get?_empty (k : κ) : (empty : Dict κ ν).get? k = none := rfl

theorem get?_filter (d : Dict κ ν) (p : κ → ν → Bool) (k : κ) :
    (d.filter p).get? k = (d.get? k).filter (p k) := by
  apply Option.ext
  intro v
  rw [← mem_entries, Option.filter_eq_some_iff, ← mem_entries]
  simp [filter, List.mem_filter]

theorem get?_erase (d : Dict κ ν) (k k' : κ) :
    (d.erase k).get? k' = if k' = k then none else d.get? k' := by
  rw [erase, get?_filter]
  by_cases h : k' = k
  · simp [h]
  · cases d.get? k' <;> simp [h]

theorem get?_set (d : Dict κ ν) (k k' : κ) (v : ν) :
    (d.set k v).get? k' = if k' = k then some v else d.get? k' := by
  apply Option.ext
  intro w
  rw [← mem_entries, set]
  by_cases hk : k ∈ d.entries.map Prod.fst
  · rw [dif_pos hk]
    simp only [List.mem_map, Prod.exists]
    by_cases h : k' = k
    · subst h
      obtain ⟨⟨k₀, v₀⟩, hmem, rfl⟩ := List.mem_map.mp hk
      rw [if_pos rfl]
      constructor
      · rintro ⟨a, b, -, hab⟩
        by_cases ha : a = k₀
        · rw [if_pos ha] at hab; simp_all
        · rw [if_neg ha] at hab; simp_all
      · intro hw
        exact ⟨k₀, v₀, hmem, by simp_all⟩
    · rw [if_neg h, ← mem_entries]
      constructor
      · rintro ⟨a, b, hmem, hab⟩
        by_cases ha : a = k
        · rw [if_pos ha] at hab; simp_all
        · rw [if_neg ha] at hab
          rw [← hab]; exact hmem
      · intro hmem
        exact ⟨k', w, hmem, if_neg h⟩
  · rw [dif_neg hk]
    simp only [List.mem_append, List.mem_singleton, Prod.mk.injEq, mem_entries]
    by_cases h : k' = k
    · subst h
      have hnone : d.get? k' = none := by
        cases hg : d.get? k' with
        | none => rfl
        | some v' => exact absurd (List.mem_map_of_mem (f := Prod.fst) (mem_entries.2 hg)) hk
      simp [hnone, eq_comm]
    · simp [h]

@[simp] theorem get?_set_self (d : Dict κ ν) (k : κ) (v : ν) : (d.set k v).get? k = some v := by
  simp [get?_set]

variable {k k' : κ}

theorem get?_set_ne (d : Dict κ ν) (v : ν) (h : k' ≠ k) :
    (d.set k v).get? k' = d.get? k' := by
  simp [get?_set, h]

@[simp] theorem get?_erase_self (d : Dict κ ν) (k : κ) : (d.erase k).get? k = none := by
  simp [get?_erase]

theorem get?_erase_ne (d : Dict κ ν) (h : k' ≠ k) :
    (d.erase k).get? k' = d.get? k' := by
  simp [get?_erase, h]

theorem get?_mapValues {ν' : Type v} (d : Dict κ ν) (f : κ → ν → ν') (k : κ) :
    (d.mapValues f).get? k = (d.get? k).map (f k) := by
  apply Option.ext
  intro w
  rw [← mem_entries, Option.map_eq_some_iff]
  simp only [mapValues, List.mem_map, Prod.mk.injEq, Prod.exists]
  constructor
  · rintro ⟨a, b, hm, rfl, rfl⟩
    exact ⟨b, mem_entries.1 hm, rfl⟩
  · rintro ⟨b, hb, rfl⟩
    exact ⟨k, b, mem_entries.2 hb, rfl, rfl⟩

/-- When only the binding of one key contributes, a `flatMap` over the bindings is that part. -/
theorem flatMap_entries {β : Type v} (d : Dict κ ν) (f : κ × ν → List β) (k : κ)
    (h : ∀ e ∈ d.entries, e.1 ≠ k → f e = []) :
    d.entries.flatMap f = (d.get? k).elim [] fun v => f (k, v) := by
  have key : ∀ l : List (κ × ν), (∀ e ∈ l, e.1 ≠ k → f e = []) → (l.map Prod.fst).Nodup →
      l.flatMap f = (l.lookup k).elim [] fun v => f (k, v) := by
    intro l
    induction l with
    | nil => intros; rfl
    | cons e l ih =>
        obtain ⟨k', v'⟩ := e
        intro hl hnd
        simp only [List.map_cons, List.nodup_cons] at hnd
        have htail := ih (fun e he => hl e (List.mem_cons_of_mem _ he)) hnd.2
        rw [List.flatMap_cons, htail]
        by_cases hk : k = k'
        · subst hk
          have hnone : l.lookup k = none := by
            cases hlk : l.lookup k with
            | none => rfl
            | some w =>
                have := List.mem_map_of_mem (f := Prod.fst) ((lookup_iff hnd.2 k w).mp hlk)
                exact absurd this hnd.1
          simp [hnone]
        · have hb : (k == k') = false := by simpa using hk
          rw [hl (k', v') List.mem_cons_self (fun h' => hk h'.symm), List.lookup_cons, hb]
          rfl
  exact key d.entries h d.nodup

theorem get?_foldl_erase (ks : List κ) : ∀ (d : Dict κ ν) (k : κ),
    (ks.foldl erase d).get? k = if k ∈ ks then none else d.get? k := by
  induction ks with
  | nil => simp
  | cons i ks ih =>
      intro d k
      rw [List.foldl_cons, ih, get?_erase]
      by_cases h : k ∈ ks
      · simp [h]
      · by_cases hi : k = i <;> simp [h, hi]

/-- After values were filed one by one, the last one filed under a key is there. -/
theorem get?_foldl_set (key : ν → κ) (l : List ν) (d : Dict κ ν) (k : κ) :
    (l.foldl (fun d v => d.set (key v) v) d).get? k
      = ((l.filter fun v => key v = k).getLast?).or (d.get? k) := by
  induction l using List.reverseRecOn with
  | nil => simp
  | append_singleton l v ih =>
      rw [List.foldl_append, List.foldl_cons, List.foldl_nil, get?_set, ih, List.filter_append]
      by_cases h : k = key v
      · simp [h]
      · have h' : ¬ key v = k := fun he => h he.symm
        simp [h, h']

/-! ## A dictionary inside another -/

section Inside

variable {d d' : Dict κ ν} (h : ∀ k v, d'.get? k = some v → d.get? k = some v)
include h

theorem keys_subset : ∀ k ∈ d'.keys, k ∈ d.keys := by
  intro k hk
  obtain ⟨v, hv⟩ := Option.isSome_iff_exists.mp (mem_keys.1 hk)
  exact mem_keys.2 (by rw [h k v hv]; rfl)

theorem length_le : d'.entries.length ≤ d.entries.length := by
  have := (List.subperm_of_subset d'.nodup (keys_subset h)).length_le
  simpa [keys] using this

/-- A dictionary inside another is shorter when a value is gone. -/
theorem length_lt (hv : v ∈ d.values) (hv' : v ∉ d'.values) :
    d'.entries.length < d.entries.length := by
  obtain ⟨k, hk⟩ := mem_values.1 hv
  have hk' : k ∉ d'.keys := fun hmem => by
    obtain ⟨w, hw⟩ := Option.isSome_iff_exists.mp (mem_keys.1 hmem)
    have heq : v = w := Option.some.inj (hk.symm.trans (h k w hw))
    exact hv' (mem_values.2 ⟨k, heq ▸ hw⟩)
  have hsub : ∀ x ∈ k :: d'.keys, x ∈ d.keys := by
    intro x hx
    rcases List.mem_cons.mp hx with rfl | hx
    · exact mem_keys.2 (by rw [hk]; rfl)
    · exact keys_subset h x hx
  have := (List.subperm_of_subset (List.nodup_cons.mpr ⟨hk', d'.nodup⟩) hsub).length_le
  simp only [List.length_cons, keys, List.length_map] at this
  omega

end Inside

/-! ## The keys of a changed dictionary -/

theorem entries_set_of_new (h : k ∉ d.keys) :
    (d.set k v).entries = d.entries ++ [(k, v)] := by
  have h' : k ∉ d.entries.map Prod.fst := h
  simp only [set, dif_neg h']

theorem keys_set_of_new (h : k ∉ d.keys) :
    (d.set k v).keys = d.keys ++ [k] := by
  have h' : k ∉ d.entries.map Prod.fst := h
  simp only [set, dif_neg h', keys, List.map_append, List.map_cons, List.map_nil]

theorem keys_erase (d : Dict κ ν) (k : κ) : (d.erase k).keys = d.keys.filter (· ≠ k) := by
  simp only [erase, filter, keys, List.filter_map]
  rfl

@[simp] theorem mem_keys_erase :
    k' ∈ (d.erase k).keys ↔ k' ∈ d.keys ∧ k' ≠ k := by
  simp [keys_erase]

@[simp] theorem mem_keys_set :
    k' ∈ (d.set k v).keys ↔ k' = k ∨ k' ∈ d.keys := by
  rw [mem_keys, mem_keys, get?_set]
  by_cases h : k' = k <;> simp [h]

/-- What is found after entries were filed one by one is one of them, or was there. -/
theorem mem_of_get?_foldl_set
    (h : (l.foldl (fun d entry => d.set entry.1 entry.2) d).get? k = some v) :
    (k, v) ∈ l ∨ d.get? k = some v := by
  induction l generalizing d with
  | nil => exact .inr h
  | cons entry l ih =>
      rcases ih h with hmem | hget
      · exact .inl (List.mem_cons_of_mem _ hmem)
      · rw [get?_set] at hget
        split at hget
        · rename_i hk
          subst hk
          exact .inl (by rw [← Option.some.inj hget]; exact List.mem_cons_self)
        · exact .inr hget

/-! ## Values that occur once -/

theorem values_set_of_new (h : k ∉ d.keys) :
    (d.set k v).values = d.values ++ [v] := by
  have h' : k ∉ d.entries.map Prod.fst := h
  simp only [set, dif_neg h', values, List.map_append, List.map_cons, List.map_nil]

omit [DecidableEq κ] in
theorem nodup_values_filter (p : κ → ν → Bool) (h : d.values.Nodup) :
    (d.filter p).values.Nodup :=
  h.sublist (List.filter_sublist.map Prod.snd)

omit [DecidableEq κ] in
theorem values_filter (d : Dict κ ν) (p : ν → Bool) :
    (d.filter fun _ v => p v).values = d.values.filter p := by
  simp only [values, filter, List.filter_map]
  rfl

theorem mem_values_of_erase (h : v ∈ (d.erase k).values) :
    v ∈ d.values :=
  (List.filter_sublist.map Prod.snd).subset h

/-- Only one value goes when a key is removed. -/
theorem mem_values_erase {v w : ν} (hk : d.get? k = some w)
    (h : v ∈ d.values) : v = w ∨ v ∈ (d.erase k).values := by
  obtain ⟨k', hk'⟩ := mem_values.1 h
  by_cases hkk : k' = k
  · subst hkk
    exact .inl (Option.some.inj (hk'.symm.trans hk))
  · exact .inr (mem_values.2 ⟨k', by rw [get?_erase_ne d hkk]; exact hk'⟩)

/-- A value that occurs once goes with its key. -/
theorem not_mem_values_erase (hn : d.values.Nodup)
    (hk : d.get? k = some v) : v ∉ (d.erase k).values := by
  intro h
  obtain ⟨k', hk'⟩ := mem_values.1 h
  have hne : k' ≠ k := by
    rintro rfl
    simp at hk'
  rw [get?_erase_ne d hne] at hk'
  have hmem := mem_entries.2 hk
  have hmem' := mem_entries.2 hk'
  have := List.inj_on_of_nodup_map hn hmem hmem' rfl
  exact hne (congrArg Prod.fst this).symm

end Dict

end Exo.Lib
