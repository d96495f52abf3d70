import Exo.Mlx.PrefillStateSafety
import Exo.Mlx.PrefixCache

/-!
# What an addition evicts

Every use of an entry has a number of its own, and the numbers only grow.
-/

namespace Exo.KVPrefixCache

variable {Token A V : Type} {kv : KVPrefixCache Token A V} {entries : List (PrefixEntry Token A V)}

/-- The numbers of the last uses. -/
def lastUses (entries : List (PrefixEntry Token A V)) : List Nat := entries.map (·.lastUsed)

/-- The uses are numbered. -/
structure Numbered (kv : KVPrefixCache Token A V) : Prop where
  nodup : (lastUses kv.entries).Nodup
  past : ∀ n ∈ lastUses kv.entries, n ≤ kv.accessCounter

/-- What stays of some entries after a number of evictions. -/
structure Evicts (k : Nat) (entries kept : List (PrefixEntry Token A V)) : Prop where
  sublist : kept.Sublist entries
  length : kept.length = entries.length - k
  /-- What is gone was used before everything that stays. -/
  older : ∀ e ∈ entries, e ∉ kept → ∀ e' ∈ kept, e.lastUsed < e'.lastUsed

theorem evicts_one (hnodup : (lastUses entries).Nodup) : Evicts 1 entries (evictOne entries) := by
  unfold evictOne
  split
  · rename_i hnone
    rw [List.min?_eq_none_iff, List.map_eq_nil_iff] at hnone
    subst hnone
    exact ⟨.refl _, rfl, nofun⟩
  · rename_i least hleast
    obtain ⟨hmem, hle⟩ := List.min?_eq_some_iff.mp hleast
    have hlt := List.idxOf_lt_length_of_mem hmem
    have hsub := List.eraseIdx_sublist entries ((entries.map (·.lastUsed)).idxOf least)
    refine ⟨hsub, List.length_eraseIdx_of_lt (by simpa using hlt), ?_⟩
    intro e he hgone e' hkept
    have huse : e.lastUsed = least := by
      obtain ⟨j, hj⟩ := List.mem_iff_getElem?.mp he
      obtain rfl : j = (entries.map (·.lastUsed)).idxOf least :=
        by_contra fun hne => hgone (List.mem_eraseIdx_iff_getElem?.mpr ⟨j, hne, hj⟩)
      have hat := List.getElem_idxOf hlt
      obtain ⟨_, rfl⟩ := List.getElem?_eq_some_iff.mp hj
      rwa [List.getElem_map] at hat
    have hmem' := hsub.mem hkept
    refine lt_of_le_of_ne (huse ▸ hle _ (List.mem_map_of_mem hmem')) fun heq => hgone ?_
    rwa [List.inj_on_of_nodup_map hnodup he hmem' heq]

theorem evicts (hnodup : (lastUses entries).Nodup) (k : Nat) :
    Evicts k entries (Nat.repeat evictOne k entries) := by
  induction k with
  | zero => exact ⟨.refl _, rfl, fun e he hgone => absurd he hgone⟩
  | succ k ih =>
      have hone := evicts_one (hnodup.sublist (ih.sublist.map _))
      refine ⟨hone.sublist.trans ih.sublist, ?_, ?_⟩
      · rw [Nat.repeat, hone.length, ih.length, Nat.sub_sub]
      · intro e he hgone e' hkept
        by_cases hmem : e ∈ Nat.repeat evictOne k entries
        · exact hone.older e hmem hgone e' hkept
        · exact ih.older e he hmem e' (hone.sublist.mem hkept)

namespace Numbered

theorem next (h : kv.Numbered) : kv.accessCounter + 1 ∉ lastUses kv.entries := fun hmem => by
  have := h.past _ hmem
  omega

/-- An entry that is used takes the next number. -/
theorem use (h : kv.Numbered) (i : Nat)
    (hentries : lastUses entries = (lastUses kv.entries).set i (kv.accessCounter + 1)) :
    Numbered { entries, accessCounter := kv.accessCounter + 1 } := by
  refine ⟨hentries ▸ h.nodup.set h.next, fun n hn => ?_⟩
  rcases List.mem_or_eq_of_mem_set (hentries ▸ hn) with hn | rfl
  · exact Nat.le_succ_of_le (h.past n hn)
  · exact Nat.le_refl _

theorem evict (h : kv.Numbered) (k : Nat) : (kv.evict k).Numbered := by
  have hsub := (evicts h.nodup k).sublist.map (·.lastUsed)
  exact ⟨h.nodup.sublist hsub, fun n hn => h.past n (hsub.mem hn)⟩

end Numbered

variable [DecidableEq Token] {lib : MlxLm A V} {fresh : List (LayerCache A V)}

/-- What the calls make of an empty cache; `fresh` is `make_kv_cache(model)`. -/
inductive Reached (lib : MlxLm A V) (fresh : List (LayerCache A V)) :
    KVPrefixCache Token A V → Prop where
  | empty : Reached lib fresh {}
  | get {kv : _} (promptTokens queryRegions) : Reached lib fresh kv →
      Reached lib fresh (getKvCache lib fresh kv promptTokens queryRegions).2
  | add {kv : _} (evictions promptTokens cache ssmSnapshots mediaRegions) : Reached lib fresh kv →
      Reached lib fresh (kv.addKvCache evictions promptTokens cache ssmSnapshots mediaRegions)
  | update {kv : _} (index promptTokens cache snapshots restorePos mediaRegions) :
      index < kv.entries.length → Reached lib fresh kv → Reached lib fresh
        (kv.updateKvCache index promptTokens cache snapshots restorePos mediaRegions)
  | clear {kv : _} : Reached lib fresh kv → Reached lib fresh { kv with entries := [] }

theorem Reached.numbered (h : Reached lib fresh kv) : kv.Numbered := by
  induction h with
  | empty => exact ⟨List.nodup_nil, nofun⟩
  | @get kv promptTokens queryRegions _ ih =>
      unfold getKvCache
      dsimp only
      split
      · exact ih
      · rename_i i e _
        split
        · exact ih
        · exact ih.use i List.map_set
  | @add kv evictions promptTokens cache ssmSnapshots mediaRegions _ ih =>
      have h' := ih.evict evictions
      have hentries : lastUses (kv.addKvCache evictions promptTokens cache ssmSnapshots
          mediaRegions).entries = lastUses (kv.evict evictions).entries ++ [kv.accessCounter + 1] :=
        List.map_append
      refine ⟨?_, fun n hn => ?_⟩
      · rw [hentries, ← List.concat_eq_append]
        exact h'.nodup.concat h'.next
      · rcases List.mem_append.mp (hentries ▸ hn) with hn | hn
        · exact Nat.le_succ_of_le (h'.past n hn)
        · exact (List.mem_singleton.mp hn).le
  | update index _ _ _ _ _ _ _ ih =>
      refine ih.use index (List.ext_getElem? fun j => ?_)
      grind [lastUses]
  | clear _ _ => exact ⟨List.nodup_nil, nofun⟩

/-- **What was used least recently goes first**, after any calls. -/
theorem evicts_leastRecent (h : Reached lib fresh kv) (k : Nat) :
    Evicts k kv.entries (kv.evict k).entries :=
  evicts h.numbered.nodup k

/-- The second of two prompts goes when the first is asked for again. -/
theorem evicts_leastRecent_asked :
    let kv : KVPrefixCache Nat (List Nat) (RotatingKVCache (List Nat)) :=
      (getKvCache PrefillState.Sample.lib []
        (addKvCache 0 (addKvCache 0 {} [5, 6] [] none .empty) [7, 8] [] none .empty)
        [5, 6, 9] .empty).2
    (kv.evict 1).entries.map (·.prompt) = [[5, 6]] ∧ Evicts 1 kv.entries (kv.evict 1).entries :=
  ⟨rfl, evicts_leastRecent (.get _ _ (.add _ _ _ _ _ (.add _ _ _ _ _ .empty))) 1⟩

end Exo.KVPrefixCache
