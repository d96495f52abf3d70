import Mathlib.Data.List.Basic
import Mathlib.Algebra.GroupWithZero.Nat

/-!
# The caches of a model's layers

A cache has one entry for each layer. What `mlx` arrays and the cache classes of `mlx_lm` do by
themselves is a parameter, `MlxLm`; which entry is treated how, and in which order, is here.

An entry of a `CacheList` is one of the three plain kinds. Copies share nothing with the
original, so a copy is the value itself.
-/

namespace Exo

/-- `KVCache`; `A` stands for the arrays. -/
structure KVCache (A : Type) where
  keys : Option A := none
  values : Option A := none
  offset : Int := 0
  deriving DecidableEq

structure RotatingKVCache (A : Type) where
  keys : Option A := none
  values : Option A := none
  offset : Int := 0
  idx : Nat := 0
  keep : Nat := 0
  maxSize : Nat
  deriving DecidableEq

structure ArraysCache (A : Type) where
  cache : List (Option A)
  deriving DecidableEq

/-- The caches that stand alone or in a `CacheList`. -/
inductive PlainCache (A : Type) where
  | kv (c : KVCache A)
  /-- `QuantizedKVCache`. -/
  | quantized (c : KVCache A)
  | rotating (c : RotatingKVCache A)
  | arrays (c : ArraysCache A)
  deriving DecidableEq

/-- The cache of one layer; `V` stands for `DeepseekV4Cache`. -/
inductive LayerCache (A V : Type) where
  | plain (c : PlainCache A)
  | cacheList (inner : List (PlainCache A))
  | deepseekV4 (c : V)
  deriving DecidableEq

/-- What this program uses of `mlx` and `mlx_lm`. -/
structure MlxLm (A V : Type) where
  /-- `a.shape[2]` of an array of keys or values. -/
  positions : A → Nat
  /-- `a[..., -n:, :]`. -/
  lastPositions : Nat → A → A
  /-- `KVCache.trim` and `QuantizedKVCache.trim`. -/
  trimKV : Nat → KVCache A → KVCache A
  /-- `CacheList.is_trimmable`. -/
  listIsTrimmable : List (PlainCache A) → Bool
  /-- `CacheList.trim`. -/
  trimList : Nat → List (PlainCache A) → List (PlainCache A)
  /-- `CacheList.size`. -/
  listSize : List (PlainCache A) → Nat
  /-- `DeepseekV4Cache.trim`. -/
  trimV4 : Nat → V → V
  /-- `DeepseekV4Cache.offset`. -/
  offsetV4 : V → Int
  /-- `DeepseekV4Cache.local`. -/
  localV4 : V → RotatingKVCache A
  /-- `c.local = cache`. -/
  setLocalV4 : V → RotatingKVCache A → V

/-- `CacheSnapshot`. -/
structure CacheSnapshot (A V : Type) where
  states : List (Option (LayerCache A V))
  tokenCount : Nat
  deriving DecidableEq

section Layers

variable {A V : Type} (lib : MlxLm A V)

/-- `copy_rotating_kv_cache`. -/
def copyRotatingKvCache (c : RotatingKVCache A) : Option (RotatingKVCache A) :=
  match c.keys, c.values with
  | some k, some v =>
    let n := min c.maxSize (lib.positions k)
    some { c with
      keys := some (lib.lastPositions n k)
      values := some (lib.lastPositions n v)
      idx := n }
  | _, _ => none

/-- `_copy_cache_list`, for one inner cache. -/
def copyInner : PlainCache A → PlainCache A
  | .rotating c => .rotating ((copyRotatingKvCache lib c).getD c)
  | c => c

/-- `_copy_v4_cache`. -/
def copyV4Cache (c : V) : V :=
  lib.setLocalV4 c <|
    (copyRotatingKvCache lib (lib.localV4 c)).getD
      { lib.localV4 c with keys := none, values := none, idx := 0 }

/-- `copy_snapshot_entry`. -/
def copySnapshotEntry : LayerCache A V → LayerCache A V
  | .plain (.rotating c) => .plain (.rotating ((copyRotatingKvCache lib c).getD c))
  | .plain c => .plain c
  | .cacheList inner => .cacheList (inner.map (copyInner lib))
  | .deepseekV4 c => .deepseekV4 (copyV4Cache lib c)

/-- `is_non_trimmable_cache_entry`. -/
def isNonTrimmableCacheEntry : LayerCache A V → Bool
  | .plain (.arrays _) => true
  | .plain (.rotating _) => true
  | .plain (.kv _) => false
  | .plain (.quantized _) => false
  | .cacheList inner => !lib.listIsTrimmable inner
  | .deepseekV4 _ => true

/-- `has_non_kv_caches`. -/
def hasNonKvCaches (cache : List (LayerCache A V)) : Bool :=
  cache.any (isNonTrimmableCacheEntry lib)

/-- `_entry_length`. -/
def entryLength : LayerCache A V → Int
  | .plain (.kv c) => c.offset
  | .plain (.quantized c) => c.offset
  | .plain (.rotating c) => c.offset
  | .plain (.arrays _) => 0
  | .cacheList inner => lib.listSize inner
  | .deepseekV4 c => lib.offsetV4 c

/-- `cache_length`. No cache that is looked at here has a negative offset. -/
def cacheLength (cache : List (LayerCache A V)) : Nat :=
  ((cache.map (entryLength lib)).max?.getD 0).toNat

/-- `snapshot_ssm_states`, for one layer. -/
def snapshotEntry : LayerCache A V → Option (LayerCache A V)
  | .plain (.arrays c) => some (.plain (.arrays c))
  | .plain (.rotating c) => (copyRotatingKvCache lib c).map fun c' => .plain (.rotating c')
  | .plain (.kv _) => none
  | .plain (.quantized _) => none
  | .cacheList inner =>
    if lib.listIsTrimmable inner then none else some (.cacheList (inner.map (copyInner lib)))
  | .deepseekV4 c => some (.deepseekV4 (copyV4Cache lib c))

/-- `snapshot_ssm_states`. -/
def snapshotSsmStates (cache : List (LayerCache A V)) : CacheSnapshot A V where
  states := cache.map (snapshotEntry lib)
  tokenCount := cacheLength lib cache

/-- `_find_nearest_snapshot`. -/
def findNearestSnapshot (snapshots : List (CacheSnapshot A V)) (targetTokenCount : Nat) :
    Option (CacheSnapshot A V) :=
  snapshots.foldl (fun best snap =>
    if snap.tokenCount ≤ targetTokenCount ∧ best.all (fun b => b.tokenCount < snap.tokenCount)
    then some snap else best) none

/-- A plain cache with `state = [None] * len(state)`. -/
def PlainCache.clear : PlainCache A → PlainCache A
  | .kv c => .kv c
  | .quantized c => .quantized c
  | .rotating c => .rotating { c with keys := none, values := none, offset := 0, idx := 0 }
  | .arrays c => .arrays { c with cache := c.cache.map fun _ => none }

/-- The body of the loop of `trim_cache`; `state` is `snapshot.states[i]`. -/
def trimEntry (numTokens : Nat) (state : Option (LayerCache A V)) :
    LayerCache A V → LayerCache A V
  | .plain (.kv c) => .plain (.kv (lib.trimKV numTokens c))
  | .plain (.quantized c) => .plain (.quantized (lib.trimKV numTokens c))
  | .plain c =>
    match state with
    | some s => copySnapshotEntry lib s
    | none => .plain c.clear
  | .cacheList inner =>
    if lib.listIsTrimmable inner then .cacheList (lib.trimList numTokens inner)
    else match state with
      | some s => copySnapshotEntry lib s
      | none => .cacheList (inner.map PlainCache.clear)
  | .deepseekV4 c => .deepseekV4 (lib.trimV4 numTokens c)

/-- `trim_cache`. -/
def trimCache (cache : List (LayerCache A V)) (numTokens : Nat)
    (snapshot : Option (CacheSnapshot A V)) : List (LayerCache A V) :=
  cache.mapIdx fun i c =>
    trimEntry lib numTokens (snapshot.bind fun snap => snap.states[i]?.join) c

end Layers

/-- `get_prefix_length`. -/
def getPrefixLength {Token : Type} [DecidableEq Token] : List Token → List Token → Nat
  | t :: prompt, c :: cached => if t = c then getPrefixLength prompt cached + 1 else 0
  | _, _ => 0

end Exo
