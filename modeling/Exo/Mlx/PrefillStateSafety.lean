import Mathlib.Data.List.Infix
import Mathlib.Tactic.Common
import Exo.Mlx.PrefillState

/-!
# When a prefill leaves behind what it should

What a layer and its snapshot are is known from how many tokens the layer has absorbed. A layer that
is trimmed is right. A layer that is put back is right if the snapshot before the last two tokens has
a state of it, and this state is a copy with its rings in order.
-/

namespace Exo.PrefillState

open Lib

variable {Token A V : Type} {mc : ModelCaches Token A V}

/-! ## One layer -/

variable {i : Nat} {c : LayerCache A V} {tokens : List Token}

theorem isNonTrimmable_iff (hl : Lawful mc)
    (h : mc.Absorbed i c tokens) :
    isNonTrimmableCacheEntry mc.lib c = true ↔ NonTrimmableAt mc i tokens.length := by
  unfold NonTrimmableAt
  rw [← hl.kind h]
  cases c with
  | plain c => cases c <;> simp [isNonTrimmableCacheEntry, kindOf]
  | cacheList inner =>
      simp only [isNonTrimmableCacheEntry, kindOf, Bool.not_eq_true', hl.listTrimmable h]
  | deepseekV4 c => simp [isNonTrimmableCacheEntry, kindOf]

theorem copyRotatingKvCache_eq_none (lib : MlxLm A V) {c : RotatingKVCache A} :
    copyRotatingKvCache lib c = none ↔ c.keys = none ∨ c.values = none := by
  unfold copyRotatingKvCache
  rcases c.keys with _ | k <;> rcases c.values with _ | v <;> simp

/-- A snapshot has a copy of the layer, or nothing. -/
theorem snapshotEntry_eq_some {lib : MlxLm A V} {c state : LayerCache A V}
    (h : snapshotEntry lib c = some state) : state = copySnapshotEntry lib c := by
  cases c with
  | plain c =>
      cases c with
      | kv c => cases h
      | quantized c => cases h
      | rotating c =>
          obtain ⟨c', hc, rfl⟩ := Option.map_eq_some_iff.mp h
          simp [copySnapshotEntry, hc]
      | arrays c => exact (Option.some.inj h).symm
  | cacheList inner =>
      simp only [snapshotEntry] at h
      split at h
      · cases h
      · exact (Option.some.inj h).symm
  | deepseekV4 c => exact (Option.some.inj h).symm

theorem snapshotEntry_isSome_iff (hl : Lawful mc)
    (h : mc.Absorbed i c tokens) :
    (snapshotEntry mc.lib c).isSome = true ↔ SnapshottedAt mc i tokens.length := by
  unfold SnapshottedAt
  rw [← hl.kind h]
  cases c with
  | plain c =>
      cases c with
      | kv c => simp [snapshotEntry, kindOf]
      | quantized c => simp [snapshotEntry, kindOf]
      | rotating c =>
          have hempty := hl.rotatingEmpty h
          rw [← copyRotatingKvCache_eq_none mc.lib] at hempty
          simp [snapshotEntry, kindOf, ← hempty, Option.isSome_iff_ne_none]
      | arrays c => simp [snapshotEntry, kindOf]
  | cacheList inner => simp [snapshotEntry, kindOf, hl.listTrimmable h]
  | deepseekV4 c => simp [snapshotEntry, kindOf]

/-! ### Copies of copies -/

theorem copyRotatingKvCache_idem (hl : Lawful mc) {c c' : RotatingKVCache A}
    (h : copyRotatingKvCache mc.lib c = some c') : copyRotatingKvCache mc.lib c' = some c' := by
  unfold copyRotatingKvCache at h
  split at h
  · rename_i k v hk hv
    cases h
    have hn : min c.maxSize (mc.lib.positions
        (mc.lib.lastPositions (min c.maxSize (mc.lib.positions k)) k)) =
          min c.maxSize (mc.lib.positions k) := by
      rcases Nat.eq_zero_or_pos (min c.maxSize (mc.lib.positions k)) with h0 | hpos
      · rw [h0, hl.lastPositions_zero, h0]
      · rw [hl.positions_last _ _ hpos]
        omega
    simp only [copyRotatingKvCache, hn, hl.lastPositions_idem]
  · cases h

theorem getD_copyRotatingKvCache_idem (hl : Lawful mc) (c : RotatingKVCache A) :
    (copyRotatingKvCache mc.lib ((copyRotatingKvCache mc.lib c).getD c)).getD
      ((copyRotatingKvCache mc.lib c).getD c) = (copyRotatingKvCache mc.lib c).getD c := by
  cases h : copyRotatingKvCache mc.lib c with
  | none => simp [h]
  | some c' => simp [copyRotatingKvCache_idem hl h]

theorem copyInner_idem (hl : Lawful mc) (c : PlainCache A) :
    copyInner mc.lib (copyInner mc.lib c) = copyInner mc.lib c := by
  cases c with
  | rotating c => exact congrArg PlainCache.rotating (getD_copyRotatingKvCache_idem hl c)
  | kv c => rfl
  | quantized c => rfl
  | arrays c => rfl

theorem copyV4Cache_idem (hl : Lawful mc) (c : V) :
    copyV4Cache mc.lib (copyV4Cache mc.lib c) = copyV4Cache mc.lib c := by
  unfold copyV4Cache
  rw [hl.localV4, hl.setLocalV4]
  cases h : copyRotatingKvCache mc.lib (mc.lib.localV4 c) with
  | none => rfl
  | some c' => rw [Option.getD_some, copyRotatingKvCache_idem hl h, Option.getD_some]

theorem copySnapshotEntry_idem (hl : Lawful mc) (c : LayerCache A V) :
    copySnapshotEntry mc.lib (copySnapshotEntry mc.lib c) = copySnapshotEntry mc.lib c := by
  cases c with
  | plain c =>
      cases c with
      | rotating c =>
          exact congrArg (fun c => LayerCache.plain (.rotating c))
            (getD_copyRotatingKvCache_idem hl c)
      | kv c => rfl
      | quantized c => rfl
      | arrays c => rfl
  | cacheList inner =>
      simp [copySnapshotEntry, Function.comp_def, copyInner_idem hl]
  | deepseekV4 c => exact congrArg LayerCache.deepseekV4 (copyV4Cache_idem hl c)

/-! ## The length of a cache -/

theorem entryLength_eq (hl : Lawful mc)
    (h : mc.Absorbed i c tokens) :
    entryLength mc.lib c = (lengthAt mc tokens.length i : Int) := by
  have hoffset := hl.offset h
  unfold lengthAt
  rw [← hl.kind h] at hoffset ⊢
  cases c with
  | plain c =>
      cases c with
      | kv c | quantized c | rotating c => exact hoffset (by simp [kindOf]) (by simp [kindOf])
      | arrays c => rfl
  | cacheList inner => simp only [entryLength, kindOf, hl.listSize h]
  | deepseekV4 c => exact hoffset (by simp [kindOf]) (by simp [kindOf])

theorem max?_map_cast (lengths : List Nat) :
    (lengths.map fun n : Nat => (n : Int)).max? = lengths.max?.map fun n : Nat => (n : Int) := by
  cases h : lengths.max? with
  | none =>
      rw [List.max?_eq_none_iff] at h
      simp [h]
  | some m =>
      obtain ⟨hm, hle⟩ := List.max?_eq_some_iff.mp h
      refine List.max?_eq_some_iff.mpr ⟨List.mem_map_of_mem hm, fun b hb => ?_⟩
      obtain ⟨n, hn, rfl⟩ := List.mem_map.mp hb
      exact Int.ofNat_le.mpr (hle n hn)

variable {cache : List (LayerCache A V)}

theorem cacheLength_eq (hl : Lawful mc)
    (h : AllAbsorbed mc cache tokens) : cacheLength mc.lib cache = countAt mc tokens.length := by
  have hlengths : cache.map (entryLength mc.lib) =
      ((List.range mc.layers).map (lengthAt mc tokens.length)).map fun n : Nat => (n : Int) := by
    apply List.ext_getElem
    · simp [h.length]
    · intro i hi _
      simp only [List.length_map] at hi
      simp [entryLength_eq hl (h.absorbed (List.getElem?_eq_getElem hi))]
  unfold cacheLength countAt
  rw [hlengths, max?_map_cast]
  cases ((List.range mc.layers).map (lengthAt mc tokens.length)).max? with
  | none => rfl
  | some m => simp

theorem countAt_le (hl : Lawful mc) (n : Nat) : countAt mc n ≤ n := by
  unfold countAt
  cases h : ((List.range mc.layers).map (lengthAt mc n)).max? with
  | none => exact Nat.zero_le n
  | some m =>
      obtain ⟨i, -, rfl⟩ := List.mem_map.mp (List.max?_eq_some_iff.mp h).1
      unfold lengthAt
      split
      · exact Nat.zero_le n
      · exact hl.listSize_le i n
      · exact Nat.le_refl n

/-! ## The calls of a prefill -/

theorem AllAbsorbed.feedAll
    (hfeed : ∀ {cache : List (LayerCache A V)} {tokens : List Token} (chunk : List Token),
      AllAbsorbed mc cache tokens → AllAbsorbed mc (mc.feed chunk cache) (tokens ++ chunk))
    (h : AllAbsorbed mc cache tokens)
    (chunks : List (List Token)) :
    AllAbsorbed mc (fedCache mc cache chunks) (tokens ++ chunks.flatten) := by
  induction chunks generalizing cache tokens with
  | nil => simpa [fedCache] using h
  | cons chunk chunks ih =>
      rw [List.flatten_cons, ← List.append_assoc]
      exact ih (hfeed chunk h)

theorem hasNonKvCaches_iff (hl : Lawful mc)
    (h : AllAbsorbed mc cache tokens) :
    hasNonKvCaches mc.lib cache = true ↔ SomeNonTrimmableAt mc tokens.length := by
  unfold hasNonKvCaches SomeNonTrimmableAt
  rw [List.any_eq_true]
  constructor
  · rintro ⟨c, hc, hnon⟩
    obtain ⟨i, hi, rfl⟩ := List.mem_iff_getElem.mp hc
    exact ⟨i, h.length ▸ hi,
      (isNonTrimmable_iff hl (h.absorbed (List.getElem?_eq_getElem hi))).mp hnon⟩
  · rintro ⟨i, hi, hnon⟩
    rw [← h.length] at hi
    exact ⟨cache[i], List.getElem_mem hi,
      (isNonTrimmable_iff hl (h.absorbed (List.getElem?_eq_getElem hi))).mpr hnon⟩

theorem callbackCaches_eq (cache : List (LayerCache A V)) (chunks : List (List Token)) :
    callbackCaches mc cache chunks = chunks.inits.map (fedCache mc cache) := by
  induction chunks generalizing cache with
  | nil => rfl
  | cons chunk chunks ih =>
      rw [callbackCaches, ih, List.inits_cons, List.map_cons, List.map_map]
      rfl

variable (mc) in
theorem callbackCaches_last (cache : List (LayerCache A V)) (chunks : List (List Token)) :
    (callbackCaches mc cache chunks)[chunks.length]? = some (fedCache mc cache chunks) := by
  induction chunks generalizing cache with
  | nil => rfl
  | cons chunk chunks ih => exact ih (mc.feed chunk cache)

/-! ## The snapshots -/

/-- A state of a snapshot is one of the tokens before it exactly when the copy was one. -/
theorem snapshotState_iff (hl : Lawful mc)
    (h : AllAbsorbed mc cache tokens) (hc : cache[i]? = some c)
    {all : List Token} (hall : tokens <+: all) :
    (∀ state, (snapshotSsmStates mc.lib cache).states[i]? = some (some state) →
      mc.Absorbed i state (all.take (snapshotSsmStates mc.lib cache).tokenCount)) ↔
    (SnapshottedAt mc i tokens.length →
      InOrder mc.lib c ∧ countAt mc tokens.length = tokens.length) := by
  have habs := h.absorbed hc
  have hcount : (snapshotSsmStates mc.lib cache).tokenCount = countAt mc tokens.length :=
    cacheLength_eq hl h
  have hstate : (snapshotSsmStates mc.lib cache).states[i]? = some (snapshotEntry mc.lib c) := by
    simp [snapshotSsmStates, hc]
  have htokens : all.take tokens.length = tokens := (List.prefix_iff_eq_take.mp hall).symm
  rw [hcount, hstate, ← snapshotEntry_isSome_iff hl habs]
  constructor
  · intro hright hsome
    obtain ⟨state, hs⟩ := Option.isSome_iff_exists.mp hsome
    have hcopy := hright state (congrArg some hs)
    rw [snapshotEntry_eq_some hs] at hcopy
    have hle := countAt_le hl tokens.length
    -- the copy counts as many tokens as the layer, so the snapshot does
    have hlen := hl.copyCount habs hcopy
    rw [List.length_take] at hlen
    have heq : countAt mc tokens.length = tokens.length := by omega
    rw [heq, htokens] at hcopy
    exact ⟨(hl.copy habs).mp hcopy, heq⟩
  · intro hcond state hs
    have hs : snapshotEntry mc.lib c = some state := Option.some.inj hs
    obtain ⟨horder, heq⟩ := hcond (by rw [hs]; rfl)
    rw [heq, htokens, snapshotEntry_eq_some hs]
    exact (hl.copy habs).mpr horder

/-! ## Taking the last two tokens back -/

theorem absorbed_trimLayer (hl : Lawful mc)
    {tokens last : List Token} (h : mc.Absorbed i c (tokens ++ last))
    (htrim : isNonTrimmableCacheEntry mc.lib c = false) :
    mc.Absorbed i (trimLayer mc last.length c) tokens := by
  cases c with
  | plain c =>
      cases c with
      | kv c => exact hl.trimKV h
      | quantized c => exact hl.trimQuantized h
      | rotating c => cases htrim
      | arrays c => cases htrim
  | cacheList inner => exact hl.trimList (by simpa [isNonTrimmableCacheEntry] using htrim) h
  | deepseekV4 c => cases htrim

/-- A layer is taken back to the tokens of the snapshot exactly when it can be trimmed or the
snapshot has a good copy of it. -/
theorem rollBackLayer_iff (hl : Lawful mc) {fed : List (LayerCache A V)}
    (hfed : AllAbsorbed mc fed tokens) {c₀ c : LayerCache A V} (hc₀ : fed[i]? = some c₀)
    {last extra : Token} (hc : mc.Absorbed i c (tokens ++ [last, extra])) (hasSsm : Bool) :
    (∃ c', rollBackLayer mc hasSsm
        (if hasSsm then some (snapshotSsmStates mc.lib fed) else none) i c = some c' ∧
      mc.Absorbed i c' tokens) ↔
    (NonTrimmableAt mc i (tokens.length + 2) →
      hasSsm = true ∧ SnapshottedAt mc i tokens.length ∧ InOrder mc.lib c₀) := by
  have hnon := isNonTrimmable_iff hl hc
  rw [List.length_append] at hnon
  have habs := hfed.absorbed hc₀
  rw [← snapshotEntry_isSome_iff hl habs]
  unfold rollBackLayer
  cases htrim : isNonTrimmableCacheEntry mc.lib c with
  | false =>
      have hback := absorbed_trimLayer hl hc htrim
      rw [htrim] at hnon
      exact iff_of_true ⟨_, by simp, hback⟩ fun h => absurd (hnon.mpr h) Bool.false_ne_true
  | true =>
      have hnon := hnon.mp htrim
      cases hasSsm with
      | false =>
          refine iff_of_false ?_ fun h => Bool.false_ne_true (h hnon).1
          rintro ⟨c', h, -⟩
          cases h
      | true =>
          have hstate : (snapshotSsmStates mc.lib fed).states[i]? =
              some (snapshotEntry mc.lib c₀) := by simp [snapshotSsmStates, hc₀]
          simp only [Bool.and_true, if_true, Option.map_some, hstate, Option.join_some]
          cases hsnap : snapshotEntry mc.lib c₀ with
          | none =>
              -- the layer keeps the two tokens
              refine iff_of_false ?_ fun h => Bool.false_ne_true (h hnon).2.1
              rintro ⟨c', h, habs'⟩
              cases h
              have hcount := hl.count hc habs'
              simp at hcount
          | some state =>
              rw [snapshotEntry_eq_some hsnap, Option.map_some, copySnapshotEntry_idem hl]
              constructor
              · rintro ⟨c', h, habs'⟩ -
                cases h
                exact ⟨trivial, rfl, (hl.copy habs).mp habs'⟩
              · intro h
                exact ⟨_, rfl, (hl.copy habs).mpr (h hnon).2.2⟩

variable (mc) in
/-- The loop over the layers leaves each as its body does, and fails where the body does. -/
theorem rollBackFrom_iff (hasSsm : Bool) (preGen : Option (CacheSnapshot A V))
    (P : Nat → LayerCache A V → Prop) (cache : List (LayerCache A V)) (k : Nat) :
    (∃ out, rollBackFrom mc hasSsm preGen k cache = some out ∧ out.length = cache.length ∧
      ∀ i c', out[i]? = some c' → P (k + i) c') ↔
    ∀ i c, cache[i]? = some c →
      ∃ c', rollBackLayer mc hasSsm preGen (k + i) c = some c' ∧ P (k + i) c' := by
  induction cache generalizing k with
  | nil => simp [rollBackFrom]
  | cons c cache ih =>
      rw [rollBackFrom]
      constructor
      · rintro ⟨out, hout, hlen, hP⟩ i d hd
        obtain ⟨c', hc', hrest⟩ := Option.bind_eq_some_iff.mp hout
        obtain ⟨out', hout', rfl⟩ := Option.map_eq_some_iff.mp hrest
        cases i with
        | zero =>
            cases hd
            exact ⟨c', hc', hP 0 c' rfl⟩
        | succ i =>
            have hrest := (ih (k + 1)).mp ⟨out', hout', Nat.succ.inj hlen, fun j d' hj => by
              have := hP (j + 1) d' hj
              rwa [← Nat.add_assoc, Nat.add_right_comm] at this⟩ i d hd
            rwa [Nat.add_right_comm, Nat.add_assoc] at hrest
      · intro h
        obtain ⟨c', hc', hP⟩ := h 0 c rfl
        obtain ⟨out', hout', hlen, hP'⟩ := (ih (k + 1)).mpr fun i d hd => by
          have := h (i + 1) d hd
          rwa [← Nat.add_assoc, Nat.add_right_comm] at this
        rw [Nat.add_zero] at hc'
        refine ⟨c' :: out', by rw [hout', hc']; rfl, congrArg Nat.succ hlen, ?_⟩
        intro i d hd
        cases i with
        | zero =>
            cases hd
            exact hP
        | succ i =>
            have := hP' i d hd
            rwa [Nat.add_right_comm, Nat.add_assoc] at this

/-! ## `prefill` -/

variable {prompt : List Token}

variable {before : List Token}

/-- The caches after the last token of the prompt and another one. -/
theorem absorbed_final (hl : Lawful mc)
    (h : AllAbsorbed mc cache before) (hne : prompt ≠ [])
    (calls : Calls prompt) :
    AllAbsorbed mc
      (mc.feed [calls.extra] (mc.feed [prompt.getLast hne] (fedCache mc cache calls.chunks)))
      (before ++ prompt.dropLast ++ [prompt.getLast hne, calls.extra]) := by
  have hfed := h.feedAll hl.feed calls.chunks
  rw [calls.covers] at hfed
  have hfinal := hl.feed [calls.extra] (hl.feed [prompt.getLast hne] hfed)
  rwa [List.append_assoc (before ++ prompt.dropLast), List.singleton_append] at hfinal

/-- The snapshot that is put back is the one after all chunks. -/
theorem prefill_eq (cache : List (LayerCache A V)) (hne : prompt ≠ [])
    (schedule : Schedule prompt) :
    prefill mc cache prompt schedule =
      let calls := schedule.calls hne
      let hasSsm := hasNonKvCaches mc.lib cache
      let fed := fedCache mc cache calls.chunks
      (rollBackFrom mc hasSsm (if hasSsm then some (snapshotSsmStates mc.lib fed) else none) 0
        (mc.feed [calls.extra] (mc.feed [prompt.getLast hne] fed))).map fun out =>
          (out, if hasSsm then
            calls.chunks.inits.map fun fed => snapshotSsmStates mc.lib (fedCache mc cache fed)
          else []) := by
  simp only [prefill, dif_neg hne]
  cases hasNonKvCaches mc.lib cache with
  | false => rfl
  | true =>
      have hlen : (callbackCaches mc cache (schedule.calls hne).chunks).length =
          (schedule.calls hne).chunks.length + 1 := by
        rw [callbackCaches_eq, List.length_map, List.length_inits]
      have hlast := callbackCaches_last mc cache (schedule.calls hne).chunks
      simp only [if_true, List.map_append, List.map_cons, List.map_nil, List.length_append,
        List.length_map, hlen, List.length_singleton, List.dropLast_concat]
      rw [List.getElem?_append_left (by simp [hlen]), List.getElem?_map]
      rw [show (schedule.calls hne).chunks.length + 1 + 1 - 2 =
        (schedule.calls hne).chunks.length by omega, hlast, callbackCaches_eq, List.map_map]
      rfl

theorem postState_map_iff {out : Option (List (LayerCache A V))}
    {snapshots : List (CacheSnapshot A V)} :
    PostState mc tokens (out.map fun cache => (cache, snapshots)) ↔
      (∃ cache, out = some cache ∧ AllAbsorbed mc cache tokens) ∧
        ∀ snap ∈ snapshots, snap.tokenCount ≤ tokens.length ∧
          ∀ i state, snap.states[i]? = some (some state) →
            mc.Absorbed i state (tokens.take snap.tokenCount) := by
  cases out with
  | none => simp [PostState]
  | some cache => simp [PostState]

/-- The layers are right exactly when what cannot be trimmed is in the snapshot. -/
theorem rollBack_iff (hl : Lawful mc)
    (h : AllAbsorbed mc cache before) (hne : prompt ≠ [])
    (calls : Calls prompt) (hasSsm : Bool) :
    let fed := fedCache mc cache calls.chunks
    (∃ out, rollBackFrom mc hasSsm
        (if hasSsm then some (snapshotSsmStates mc.lib fed) else none) 0
        (mc.feed [calls.extra] (mc.feed [prompt.getLast hne] fed)) = some out ∧
      AllAbsorbed mc out (before ++ prompt.dropLast)) ↔
    ∀ i c, cache[i]? = some c →
      NonTrimmableAt mc i (before.length + calls.chunks.flatten.length + 2) →
      hasSsm = true ∧ SnapshottedAt mc i (before.length + calls.chunks.flatten.length) ∧
        mc.inOrder i c (calls.chunks.map List.length) = true := by
  intro fed
  have hfinal := absorbed_final hl h hne calls
  have hfed := h.feedAll hl.feed calls.chunks
  rw [calls.covers] at hfed
  have hlayers := rollBackFrom_iff mc hasSsm
    (if hasSsm then some (snapshotSsmStates mc.lib fed) else none)
    (fun i c => mc.Absorbed i c (before ++ prompt.dropLast))
    (mc.feed [calls.extra] (mc.feed [prompt.getLast hne] fed)) 0
  simp only [Nat.zero_add] at hlayers
  have habsorbed : ∀ out, AllAbsorbed mc out (before ++ prompt.dropLast) ↔
      out.length = (mc.feed [calls.extra] (mc.feed [prompt.getLast hne] fed)).length ∧
        ∀ i c, out[i]? = some c → mc.Absorbed i c (before ++ prompt.dropLast) := fun out =>
    ⟨fun h => ⟨h.length.trans hfinal.length.symm, fun _ _ hc => h.absorbed hc⟩,
      fun h => ⟨h.1.trans hfinal.length, fun hc => h.2 _ _ hc⟩⟩
  simp only [habsorbed]
  rw [hlayers, calls.covers, ← List.length_append]
  constructor
  · intro hright i c hc hnon
    have hi : i < cache.length := (List.getElem?_eq_some_iff.mp hc).1
    obtain ⟨c₀, hc₀⟩ : ∃ c₀, fed[i]? = some c₀ :=
      ⟨_, List.getElem?_eq_getElem (by rw [hfed.length, ← h.length]; exact hi)⟩
    obtain ⟨c₁, hc₁⟩ : ∃ c₁,
        (mc.feed [calls.extra] (mc.feed [prompt.getLast hne] fed))[i]? = some c₁ :=
      ⟨_, List.getElem?_eq_getElem (by rw [hfinal.length, ← h.length]; exact hi)⟩
    have hlayer := (rollBackLayer_iff hl hfed hc₀ (hfinal.absorbed hc₁) hasSsm).mp
      (hright i c₁ hc₁) hnon
    exact ⟨hlayer.1, hlayer.2.1, (hl.order h hc hc₀).mp hlayer.2.2⟩
  · intro hcond i c₁ hc₁
    have hi : i < mc.layers := hfinal.length ▸ (List.getElem?_eq_some_iff.mp hc₁).1
    have hc₀ := List.getElem?_eq_getElem (l := fed) (i := i) (by rw [hfed.length]; exact hi)
    have hc := List.getElem?_eq_getElem (l := cache) (i := i) (by rw [h.length]; exact hi)
    refine (rollBackLayer_iff hl hfed hc₀ (hfinal.absorbed hc₁) hasSsm).mpr fun hnon => ?_
    obtain ⟨hsome, hsnap, horder⟩ := hcond i _ hc hnon
    exact ⟨hsome, hsnap, (hl.order h hc hc₀).mpr horder⟩

/-- The snapshots are right exactly when each was taken with its rings in order, and counts. -/
theorem snapshots_iff (hl : Lawful mc)
    (h : AllAbsorbed mc cache before) (calls : Calls prompt) :
    (∀ snap ∈ calls.chunks.inits.map fun fed => snapshotSsmStates mc.lib (fedCache mc cache fed),
      snap.tokenCount ≤ (before ++ prompt.dropLast).length ∧
        ∀ i state, snap.states[i]? = some (some state) →
          mc.Absorbed i state ((before ++ prompt.dropLast).take snap.tokenCount)) ↔
    ∀ fed, fed <+: calls.chunks → ∀ i c, cache[i]? = some c →
      SnapshottedAt mc i (before.length + fed.flatten.length) →
      mc.inOrder i c (fed.map List.length) = true ∧
        countAt mc (before.length + fed.flatten.length) =
          before.length + fed.flatten.length := by
  rw [List.forall_mem_map]
  simp only [List.mem_inits]
  refine forall₂_congr fun fed hfed => ?_
  have habs := h.feedAll hl.feed fed
  have hprefix : before ++ fed.flatten <+: before ++ prompt.dropLast := by
    obtain ⟨rest, hrest⟩ := hfed
    refine (List.prefix_append_right_inj before).mpr ⟨rest.flatten, ?_⟩
    rw [← List.flatten_append, hrest, calls.covers]
  have hle : (snapshotSsmStates mc.lib (fedCache mc cache fed)).tokenCount ≤
      (before ++ prompt.dropLast).length :=
    calc (snapshotSsmStates mc.lib (fedCache mc cache fed)).tokenCount
        = countAt mc (before ++ fed.flatten).length := cacheLength_eq hl habs
      _ ≤ (before ++ fed.flatten).length := countAt_le hl _
      _ ≤ (before ++ prompt.dropLast).length := hprefix.length_le
  rw [← List.length_append]
  constructor
  · rintro ⟨-, hright⟩ i c hc hsnap
    have hi : i < (fedCache mc cache fed).length := by
      rw [habs.length, ← h.length]
      exact (List.getElem?_eq_some_iff.mp hc).1
    have hc₀ := List.getElem?_eq_getElem hi
    obtain ⟨horder, hcount⟩ := (snapshotState_iff hl habs hc₀ hprefix).mp (hright i) hsnap
    exact ⟨(hl.order h hc hc₀).mp horder, hcount⟩
  · intro hcond
    refine ⟨hle, fun i state hstate => ?_⟩
    have hi : i < (fedCache mc cache fed).length := by
      have := (List.getElem?_eq_some_iff.mp hstate).1
      simpa [snapshotSsmStates] using this
    have hc₀ := List.getElem?_eq_getElem hi
    have hc := List.getElem?_eq_getElem (l := cache) (i := i)
      (by rw [h.length, ← habs.length]; exact hi)
    refine (snapshotState_iff hl habs hc₀ hprefix).mpr (fun hsnap => ?_) state hstate
    obtain ⟨horder, hcount⟩ := hcond i _ hc hsnap
    exact ⟨(hl.order h hc hc₀).mpr horder, hcount⟩

namespace Sample

def lib : MlxLm (List Nat) (RotatingKVCache (List Nat)) where
  positions := List.length
  lastPositions n a := if n = 0 then a else a.drop (a.length - n)
  trimKV n c := { c with offset := c.offset - n }
  listIsTrimmable _ := true
  trimList _ inner := inner
  listSize _ := 0
  trimV4 _ c := c
  offsetV4 c := c.offset
  localV4 c := c
  setLocalV4 _ c := c

/-- What an array holds after more tokens. -/
def extend (a : Option (List Nat)) (chunk : List Nat) : Option (List Nat) :=
  match a.getD [] ++ chunk with
  | [] => none
  | tokens => some tokens

/-- Tokens stand for their keys and values. -/
def feedLayer (chunk : List Nat) :
    LayerCache (List Nat) (RotatingKVCache (List Nat)) →
      LayerCache (List Nat) (RotatingKVCache (List Nat))
  | .plain (.kv c) =>
    let keys := c.keys.map (·.take c.offset.toNat)
    .plain (.kv ⟨extend keys chunk, extend keys chunk, c.offset + chunk.length⟩)
  | .plain (.rotating c) =>
    let keys := extend c.keys chunk
    .plain (.rotating
      { c with keys, values := keys, offset := c.offset + chunk.length, idx := (keys.getD []).length })
  | .plain (.arrays c) => .plain (.arrays ⟨c.cache.map (extend · chunk)⟩)
  | c => c

def Absorbed (i : Nat) (c : LayerCache (List Nat) (RotatingKVCache (List Nat)))
    (tokens : List Nat) : Prop :=
  match c with
  | .plain (.kv c) =>
    i = 0 ∧ c.offset = tokens.length ∧ (c.keys.getD []).take tokens.length = tokens
  | .plain (.rotating c) =>
    i = 1 ∧ c.offset = tokens.length ∧ c.maxSize = 4 ∧ c.values = c.keys ∧
      (c.keys = none ↔ tokens = []) ∧ c.keys.getD [] <:+ tokens ∧
        min 4 tokens.length ≤ (c.keys.getD []).length ∧ c.idx = (c.keys.getD []).length
  | .plain (.arrays c) => i = 2 ∧ c.cache = [extend none tokens]
  | _ => False

def model : ModelCaches Nat (List Nat) (RotatingKVCache (List Nat)) where
  lib := lib
  layers := 3
  feed chunk cache := cache.map (feedLayer chunk)
  Absorbed := Absorbed
  kind
    | 0 => .kv
    | 1 => .rotating
    | _ => .arrays
  listTrimmable _ _ := true
  listSize _ _ := 0
  inOrder _ _ _ := true

theorem getD_extend (a : Option (List Nat)) (chunk : List Nat) :
    (extend a chunk).getD [] = a.getD [] ++ chunk := by
  unfold extend
  split
  · rename_i h
    exact h.symm
  · rfl

theorem extend_eq_none {a : Option (List Nat)} {chunk : List Nat} :
    extend a chunk = none ↔ a.getD [] ++ chunk = [] := by
  unfold extend
  split
  · rename_i h
    exact iff_of_true rfl h
  · rename_i h
    exact iff_of_false (by simp) h

variable {c : LayerCache (List Nat) (RotatingKVCache (List Nat))} {tokens : List Nat}

/-- The layers there are. -/
theorem absorbed_cases
    (h : Absorbed i c tokens) :
    (i = 0 ∧ ∃ k, c = .plain (.kv k)) ∨ (i = 1 ∧ ∃ r, c = .plain (.rotating r)) ∨
      (i = 2 ∧ ∃ a, c = .plain (.arrays a)) := by
  unfold Absorbed at h
  split at h
  · exact Or.inl ⟨h.1, _, rfl⟩
  · exact Or.inr (Or.inl ⟨h.1, _, rfl⟩)
  · exact Or.inr (Or.inr ⟨h.1, _, rfl⟩)
  · exact h.elim

theorem absorbed_feedLayer
    (chunk : List Nat) (h : Absorbed i c tokens) :
    Absorbed i (feedLayer chunk c) (tokens ++ chunk) := by
  obtain ⟨-, c, rfl⟩ | ⟨-, c, rfl⟩ | ⟨-, c, rfl⟩ := absorbed_cases h
  · obtain ⟨hi, hoffset, htokens⟩ := h
    refine ⟨hi, by simp [hoffset], ?_⟩
    have hkeys : (c.keys.map (·.take c.offset.toNat)).getD [] = tokens := by
      rw [hoffset, Int.toNat_natCast]
      cases hk : c.keys <;> simp_all
    rw [getD_extend, hkeys, List.take_length]
  · obtain ⟨hi, hoffset, hsize, -, hempty, hwindow, hlen, -⟩ := h
    refine ⟨hi, by simp [hoffset], hsize, rfl, ?_, ?_, ?_, rfl⟩
    · rw [extend_eq_none, List.append_eq_nil_iff, List.append_eq_nil_iff, ← hempty]
      refine and_congr_left fun _ => ⟨fun hk => ?_, fun hk => by rw [hk]; rfl⟩
      cases hkeys : c.keys with
      | none => rfl
      | some keys =>
          rw [hkeys, Option.getD_some] at hk hlen
          have htokens : tokens ≠ [] := fun ht => by simp [hempty.mpr ht] at hkeys
          have := List.length_pos_iff.mpr htokens
          rw [hk, List.length_nil] at hlen
          omega
    · rw [getD_extend]
      obtain ⟨older, holder⟩ := hwindow
      exact ⟨older, by rw [← List.append_assoc, holder]⟩
    · rw [getD_extend, List.length_append, List.length_append]
      omega
  · obtain ⟨hi, hcache⟩ := h
    refine ⟨hi, ?_⟩
    rw [hcache, List.map_singleton]
    exact congrArg (fun held => [extend none (held ++ chunk)]) (getD_extend none tokens)

theorem allAbsorbed_feed {cache : List (LayerCache (List Nat) (RotatingKVCache (List Nat)))}
    (chunk : List Nat) (h : AllAbsorbed model cache tokens) :
    AllAbsorbed model (model.feed chunk cache) (tokens ++ chunk) where
  length := by simp [model, h.length]
  absorbed hc := by
    rw [show model.feed chunk cache = cache.map (feedLayer chunk) from rfl,
      List.getElem?_map] at hc
    obtain ⟨c, hc', rfl⟩ := Option.map_eq_some_iff.mp hc
    exact absorbed_feedLayer chunk (h.absorbed hc')

/-- The rings of this model are always in order. -/
theorem absorbed_inOrder
    (h : Absorbed i c tokens) : InOrder lib c := by
  obtain ⟨-, c, rfl⟩ | ⟨-, c, rfl⟩ | ⟨-, c, rfl⟩ := absorbed_cases h
  · trivial
  · obtain ⟨-, -, -, -, -, -, -, hidx⟩ := h
    intro k v hk _
    rw [hidx, hk]
    rfl
  · trivial

theorem absorbed_copyRotating {c c' : RotatingKVCache (List Nat)}
    (h : Absorbed i (.plain (.rotating c)) tokens) (hcopy : copyRotatingKvCache lib c = some c') :
    Absorbed i (.plain (.rotating c')) tokens := by
  obtain ⟨hi, hoffset, hsize, hvalues, hempty, hwindow, hlen, -⟩ := h
  unfold copyRotatingKvCache at hcopy
  split at hcopy
  · rename_i keys values hk hv
    cases hcopy
    rw [hk, Option.getD_some] at hwindow hlen
    have hsame : values = keys := Option.some.inj (hv.symm.trans (hvalues.trans hk))
    have hlast : (lib.lastPositions (min c.maxSize (lib.positions keys)) keys).length =
        min 4 keys.length := by
      simp only [lib, hsize]
      split <;> simp <;> omega
    refine ⟨hi, hoffset, hsize, by rw [hsame], by simpa [hk] using hempty, ?_, ?_, ?_⟩
    · refine List.IsSuffix.trans ?_ hwindow
      simp only [Option.getD_some, lib]
      split
      · exact List.suffix_refl _
      · exact List.drop_suffix _ _
    · rw [Option.getD_some, hlast]
      omega
    · rw [Option.getD_some, hlast, hsize]
      rfl
  · cases hcopy

theorem absorbed_copy
    (h : Absorbed i c tokens) :
    Absorbed i (copySnapshotEntry lib c) tokens := by
  obtain ⟨-, c, rfl⟩ | ⟨-, c, rfl⟩ | ⟨-, c, rfl⟩ := absorbed_cases h
  · exact h
  · simp only [copySnapshotEntry]
    cases hcopy : copyRotatingKvCache lib c with
    | none => exact h
    | some c' => exact absorbed_copyRotating h hcopy
  · exact h

theorem absorbed_count
    {tokens tokens' : List Nat} (h : Absorbed i c tokens) (h' : Absorbed i c tokens') :
    tokens.length = tokens'.length := by
  obtain ⟨-, c, rfl⟩ | ⟨-, c, rfl⟩ | ⟨-, c, rfl⟩ := absorbed_cases h
  · have := h.2.1.symm.trans h'.2.1
    omega
  · have := h.2.1.symm.trans h'.2.1
    omega
  · have hsame : extend none tokens = extend none tokens' :=
      (List.cons.inj (h.2.symm.trans h'.2)).1
    have := congrArg (fun a => (a.getD []).length) hsame
    rwa [getD_extend, getD_extend] at this

theorem absorbed_rotatingEmpty {c : RotatingKVCache (List Nat)}
    (h : Absorbed i (.plain (.rotating c)) tokens) :
    (c.keys = none ∨ c.values = none) ↔ tokens = [] := by
  obtain ⟨-, -, -, hvalues, hempty, -⟩ := h
  rw [hvalues, or_self]
  exact hempty

theorem absorbed_offset
    (h : Absorbed i c tokens) (hi : model.kind i ≠ .arrays) :
    entryLength lib c = tokens.length := by
  obtain ⟨-, c, rfl⟩ | ⟨-, c, rfl⟩ | ⟨rfl, c, rfl⟩ := absorbed_cases h
  · exact h.2.1
  · exact h.2.1
  · exact absurd rfl hi

theorem absorbed_kind
    (h : Absorbed i c tokens) : kindOf c = model.kind i := by
  obtain ⟨rfl, c, rfl⟩ | ⟨rfl, c, rfl⟩ | ⟨rfl, c, rfl⟩ := absorbed_cases h
  · rfl
  · rfl
  · rfl

theorem absorbed_trim {c : KVCache (List Nat)} {tokens last : List Nat}
    (h : Absorbed i (.plain (.kv c)) (tokens ++ last)) :
    Absorbed i (.plain (.kv (lib.trimKV last.length c))) tokens := by
  obtain ⟨hi, hoffset, htokens⟩ := h
  refine ⟨hi, by simp [lib, hoffset], ?_⟩
  have := congrArg (List.take tokens.length) htokens
  rwa [List.take_take, List.length_append, Nat.min_eq_left (Nat.le_add_right _ _),
    List.take_left] at this

theorem lawful : Lawful model where
  kind := absorbed_kind
  count := absorbed_count
  feed := allAbsorbed_feed
  order h _ hc' :=
    iff_of_true (absorbed_inOrder ((h.feedAll allAbsorbed_feed _).absorbed hc')) rfl
  trimKV := absorbed_trim
  trimQuantized h := False.elim h
  trimList _ h := False.elim h
  listTrimmable h := False.elim h
  listSize h := False.elim h
  listSize_le _ n := Nat.zero_le n
  offset h hi _ := absorbed_offset h hi
  rotatingEmpty := absorbed_rotatingEmpty
  copy h := iff_of_true (absorbed_copy h) (absorbed_inOrder h)
  copyCount h h' := absorbed_count h' (absorbed_copy h)
  lastPositions_zero _ := rfl
  lastPositions_idem n a := by
    simp only [model, lib]
    split
    · rfl
    · simp only [List.length_drop, List.drop_drop]
      congr 1
      omega
  positions_last n a hn := by
    simp only [model, lib]
    rw [if_neg (Nat.pos_iff_ne_zero.mp hn), List.length_drop]
    omega
  localV4 _ _ := rfl
  setLocalV4 _ _ _ := rfl

/-- A fresh cache. -/
def fresh : List (LayerCache (List Nat) (RotatingKVCache (List Nat))) :=
  [.plain (.kv {}), .plain (.rotating { maxSize := 4 }), .plain (.arrays ⟨[none]⟩)]

theorem allAbsorbed_fresh : AllAbsorbed model fresh [] where
  length := rfl
  absorbed {i c} hc := by
    match i, hc with
    | 0, hc => cases hc; exact ⟨rfl, rfl, rfl⟩
    | 1, hc =>
        cases hc
        exact ⟨rfl, rfl, rfl, rfl, by simp, List.suffix_refl _, Nat.le_refl 0, rfl⟩
    | 2, hc => cases hc; exact ⟨rfl, rfl⟩

/-- One chunk, and the last token. -/
def schedule : Schedule [1, 2, 3] := .streamGenerate ⟨[[1, 2]], rfl, 4⟩

/-- No chunk. -/
def short : Schedule [1] := .streamGenerate ⟨[], rfl, 2⟩

end Sample

end Exo.PrefillState
