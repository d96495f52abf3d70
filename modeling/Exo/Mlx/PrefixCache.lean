import Exo.Mlx.Cache
import Exo.Mlx.MediaRegions

/-!
# The prefix cache

`KVPrefixCache` keeps the caches of earlier prompts. Its parallel lists are one list of entries
here. How many entries an addition evicts depends on the memory pressure, so that number is an
argument.
-/

namespace Exo

variable {Token A V : Type}

/-- What the prefix cache holds at one index. -/
structure PrefixEntry (Token A V : Type) where
  prompt : List Token
  cache : List (LayerCache A V)
  snapshots : Option (List (CacheSnapshot A V))
  mediaRegions : MediaRegions
  lastUsed : Nat
  deriving DecidableEq

structure KVPrefixCache (Token A V : Type) where
  entries : List (PrefixEntry Token A V) := []
  accessCounter : Nat := 0
  deriving DecidableEq

/-- The loop of `_validate_media_match`. -/
def validateLoop (queryByStart : Nat → Option MediaRegion) (matchLength : Nat) :
    List MediaRegion → Nat
  | [] => matchLength
  | cachedR :: rest =>
    if matchLength ≤ cachedR.startPos then matchLength
    else match queryByStart cachedR.startPos with
      | none => validateLoop queryByStart matchLength rest
      | some queryR =>
        if queryR.contentHash ≠ cachedR.contentHash then cachedR.startPos
        else validateLoop queryByStart matchLength rest

/-- `_validate_media_match`. -/
def validateMediaMatch (matchLength : Nat) (cachedRegions queryRegions : MediaRegions) : Nat :=
  if cachedRegions.toList = [] then matchLength
  else validateLoop queryRegions.byStart.get? matchLength cachedRegions.toList

namespace PrefixEntry

/-- `length` in the search of `get_kv_cache`: how much of the prompt this entry serves. -/
def matchLength [DecidableEq Token] (e : PrefixEntry Token A V) (promptTokens : List Token)
    (queryRegions : MediaRegions) : Nat :=
  let length := getPrefixLength promptTokens e.prompt
  if 0 < length then validateMediaMatch length e.mediaRegions queryRegions else length

/-- `_get_snapshot`. -/
def getSnapshot (lib : MlxLm A V) (e : PrefixEntry Token A V) (targetTokenCount : Nat) :
    Nat × Option (CacheSnapshot A V) :=
  if !hasNonKvCaches lib e.cache then (targetTokenCount, none)
  else match findNearestSnapshot (e.snapshots.getD []) targetTokenCount with
    | none => (0, none)
    | some snap => (snap.tokenCount, some snap)

end PrefixEntry

/-- `c.offset = restore_pos`, for the entries that have an offset of their own. -/
def LayerCache.resetOffset (restorePos : Nat) : LayerCache A V → LayerCache A V
  | .plain (.kv c) => .plain (.kv { c with offset := restorePos })
  | .plain (.quantized c) => .plain (.quantized { c with offset := restorePos })
  | c => c

/-- What `get_kv_cache` returns. -/
structure CacheHit (Token A V : Type) where
  cache : List (LayerCache A V)
  remaining : List Token
  matchedIndex : Option Nat
  isExact : Bool
  deriving DecidableEq

namespace KVPrefixCache

/-- The search of `get_kv_cache` from index `i` on, with `best_index` and `best_length`. -/
def findBest [DecidableEq Token] (promptTokens : List Token) (queryRegions : MediaRegions) :
    Nat → Option Nat × Nat → List (PrefixEntry Token A V) → Option Nat × Nat × Bool
  | _, best, [] => (best.1, best.2, false)
  | i, best, e :: rest =>
    let length := e.matchLength promptTokens queryRegions
    if promptTokens.length - 1 ≤ length then (some i, length, true)
    else if best.2 < length then findBest promptTokens queryRegions (i + 1) (some i, length) rest
    else findBest promptTokens queryRegions (i + 1) best rest

/-- How much of an entry is restored, and the snapshot it is restored from. -/
def restorePoint (lib : MlxLm A V) (e : PrefixEntry Token A V) (maxLength bestLength : Nat)
    (isExact : Bool) : Nat × Option (CacheSnapshot A V) :=
  let target :=
    if hasNonKvCaches lib e.cache then bestLength
    else min (cacheLength lib e.cache) (if isExact then maxLength - 1 else bestLength)
  e.getSnapshot lib target

/-- The cache of an entry, rolled back to `restorePos` tokens. -/
def rollBack (lib : MlxLm A V) (e : PrefixEntry Token A V) (restorePos : Nat)
    (restoreSnap : Option (CacheSnapshot A V)) : List (LayerCache A V) :=
  let tokensToTrim := cacheLength lib e.cache - restorePos
  if 0 < tokensToTrim then
    (trimCache lib e.cache tokensToTrim restoreSnap).map (·.resetOffset restorePos)
  else e.cache

/-- `get_kv_cache`; `fresh` is `make_kv_cache(model)`. -/
def getKvCache [DecidableEq Token] (lib : MlxLm A V) (fresh : List (LayerCache A V))
    (kv : KVPrefixCache Token A V) (promptTokens : List Token) (queryRegions : MediaRegions) :
    CacheHit Token A V × KVPrefixCache Token A V :=
  let miss := (⟨fresh, promptTokens, none, false⟩, kv)
  let (bestIndex, bestLength, isExact) := findBest promptTokens queryRegions 0 (none, 0) kv.entries
  match bestIndex.bind fun i => kv.entries[i]?.map (i, ·) with
  | none => miss
  | some (i, e) =>
    let (restorePos, restoreSnap) := restorePoint lib e promptTokens.length bestLength isExact
    if restoreSnap.isNone ∧ hasNonKvCaches lib e.cache then miss
    else
      (⟨rollBack lib e restorePos restoreSnap, promptTokens.drop restorePos, some i, isExact⟩,
        { kv with
          entries := kv.entries.set i { e with lastUsed := kv.accessCounter + 1 }
          accessCounter := kv.accessCounter + 1 })

/-- One eviction: the first entry that was used least recently. -/
def evictOne (entries : List (PrefixEntry Token A V)) : List (PrefixEntry Token A V) :=
  match (entries.map (·.lastUsed)).min? with
  | none => []
  | some least => entries.eraseIdx ((entries.map (·.lastUsed)).idxOf least)

/-- `_evict_if_needed`, when the pressure falls after `evictions` evictions. -/
def evict (evictions : Nat) (kv : KVPrefixCache Token A V) : KVPrefixCache Token A V :=
  { kv with entries := Nat.repeat evictOne evictions kv.entries }

/-- `add_kv_cache`. -/
def addKvCache (evictions : Nat) (kv : KVPrefixCache Token A V) (promptTokens : List Token)
    (cache : List (LayerCache A V)) (ssmSnapshots : Option (List (CacheSnapshot A V)))
    (mediaRegions : MediaRegions) : KVPrefixCache Token A V :=
  let kv := kv.evict evictions
  { kv with
    entries := kv.entries ++
      [⟨promptTokens, cache, ssmSnapshots, mediaRegions, kv.accessCounter + 1⟩]
    accessCounter := kv.accessCounter + 1 }

/-- The snapshots of an updated entry. -/
def mergeSnapshots (old new : Option (List (CacheSnapshot A V))) (restorePos : Nat) :
    Option (List (CacheSnapshot A V)) :=
  let merged := (old.getD []).filter (fun s => s.tokenCount ≤ restorePos) ++ new.getD []
  if merged.isEmpty then none else some merged

/-- `update_kv_cache`. -/
def updateKvCache (kv : KVPrefixCache Token A V) (index : Nat) (promptTokens : List Token)
    (cache : List (LayerCache A V)) (snapshots : Option (List (CacheSnapshot A V)))
    (restorePos : Nat) (mediaRegions : MediaRegions) : KVPrefixCache Token A V :=
  { kv with
    entries := kv.entries.modify index fun e =>
      ⟨promptTokens, cache, mergeSnapshots e.snapshots snapshots restorePos, mediaRegions,
        kv.accessCounter + 1⟩
    accessCounter := kv.accessCounter + 1 }

end KVPrefixCache

end Exo
