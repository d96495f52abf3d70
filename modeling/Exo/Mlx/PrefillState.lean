import Exo.Mlx.Cache
import Exo.Worker.Prefill

/-!
# What a prefill leaves behind

A prefill feeds the model one token more than the prompt has. It takes the last two tokens back: from
a layer that can be trimmed by trimming it, from any other one by putting back the snapshot that was
taken before them.

What the model does to the caches of its layers is a parameter, `ModelCaches`; that a cache has
absorbed some tokens and no others is said by it, and what the classes of caches promise about that
is `Lawful`. A rotating cache writes a single token into its ring and several at its end, so its
positions are in order after some calls and not after others. Progress reports and barriers are left
out, and a prefill that is cancelled.
-/

namespace Exo.PrefillState

open Lib

inductive CacheKind where
  | kv
  | rotating
  | arrays
  | list
  | deepseekV4
deriving DecidableEq

/-- A `KVCache` may be quantized on the way. -/
def kindOf {A V : Type} : LayerCache A V → CacheKind
  | .plain (.kv _) => .kv
  | .plain (.quantized _) => .kv
  | .plain (.rotating _) => .rotating
  | .plain (.arrays _) => .arrays
  | .cacheList _ => .list
  | .deepseekV4 _ => .deepseekV4

/-- Every position of the ring is written, and the oldest one is the first. -/
def RotatingInOrder {A V : Type} (lib : MlxLm A V) (c : RotatingKVCache A) : Prop :=
  ∀ k v, c.keys = some k → c.values = some v → c.idx = lib.positions k

/-- Every ring of a layer is in order. -/
def InOrder {A V : Type} (lib : MlxLm A V) : LayerCache A V → Prop
  | .plain (.rotating c) => RotatingInOrder lib c
  | .plain _ => True
  | .cacheList inner => ∀ c, .rotating c ∈ inner → RotatingInOrder lib c
  | .deepseekV4 c => RotatingInOrder lib (lib.localV4 c)

/-- A model with its caches. -/
structure ModelCaches (Token A V : Type) where
  lib : MlxLm A V
  layers : Nat
  /-- `model(tokens, cache=cache)`, and `maybe_quantize_kv_cache`. -/
  feed : List Token → List (LayerCache A V) → List (LayerCache A V)
  /-- The cache of this layer has absorbed these tokens. -/
  Absorbed : Nat → LayerCache A V → List Token → Prop
  kind : Nat → CacheKind
  /-- Whether a `CacheList` can be trimmed when it has absorbed so many tokens. -/
  listTrimmable : Nat → Nat → Bool
  /-- The size of a `CacheList` that has absorbed so many tokens. -/
  listSize : Nat → Nat → Nat
  /-- Whether the rings of this layer, now as they are here, are in order after calls with so many
  tokens each. -/
  inOrder : Nat → LayerCache A V → List Nat → Bool

variable {Token A V : Type}

/-- Every layer has absorbed these tokens. -/
structure AllAbsorbed (mc : ModelCaches Token A V) (cache : List (LayerCache A V))
    (tokens : List Token) : Prop where
  length : cache.length = mc.layers
  absorbed : ∀ {i c}, cache[i]? = some c → mc.Absorbed i c tokens

/-- The caches after these calls. -/
def fedCache (mc : ModelCaches Token A V) (cache : List (LayerCache A V))
    (chunks : List (List Token)) : List (LayerCache A V) :=
  chunks.foldl (fun cache chunk => mc.feed chunk cache) cache

/-- What the model and the caches promise. -/
structure Lawful (mc : ModelCaches Token A V) : Prop where
  kind : ∀ {i c tokens}, mc.Absorbed i c tokens → kindOf c = mc.kind i
  /-- A cache has absorbed as many tokens as it has, whatever they are. -/
  count : ∀ {i c tokens tokens'}, mc.Absorbed i c tokens → mc.Absorbed i c tokens' →
    tokens.length = tokens'.length
  feed : ∀ {cache tokens} chunk, AllAbsorbed mc cache tokens →
    AllAbsorbed mc (mc.feed chunk cache) (tokens ++ chunk)
  /-- A call moves the positions of a ring by the number of its tokens, whatever they are. -/
  order : ∀ {cache tokens chunks i c c'}, AllAbsorbed mc cache tokens → cache[i]? = some c →
    (fedCache mc cache chunks)[i]? = some c' →
    (InOrder mc.lib c' ↔ mc.inOrder i c (chunks.map List.length) = true)
  trimKV : ∀ {i c tokens last}, mc.Absorbed i (.plain (.kv c)) (tokens ++ last) →
    mc.Absorbed i (.plain (.kv (mc.lib.trimKV last.length c))) tokens
  trimQuantized : ∀ {i c tokens last}, mc.Absorbed i (.plain (.quantized c)) (tokens ++ last) →
    mc.Absorbed i (.plain (.quantized (mc.lib.trimKV last.length c))) tokens
  trimList : ∀ {i inner tokens last}, mc.lib.listIsTrimmable inner = true →
    mc.Absorbed i (.cacheList inner) (tokens ++ last) →
    mc.Absorbed i (.cacheList (mc.lib.trimList last.length inner)) tokens
  listTrimmable : ∀ {i inner tokens}, mc.Absorbed i (.cacheList inner) tokens →
    mc.lib.listIsTrimmable inner = mc.listTrimmable i tokens.length
  listSize : ∀ {i inner tokens}, mc.Absorbed i (.cacheList inner) tokens →
    mc.lib.listSize inner = mc.listSize i tokens.length
  listSize_le : ∀ i n, mc.listSize i n ≤ n
  /-- The offset of a cache counts what it has absorbed. -/
  offset : ∀ {i c tokens}, mc.Absorbed i c tokens → mc.kind i ≠ .arrays → mc.kind i ≠ .list →
    entryLength mc.lib c = tokens.length
  /-- An empty rotating cache has no keys, and any other one has keys and values. -/
  rotatingEmpty : ∀ {i c tokens}, mc.Absorbed i (.plain (.rotating c)) tokens →
    ((c.keys = none ∨ c.values = none) ↔ tokens = [])
  /-- A copy takes the positions of a ring to be all written and in order. -/
  copy : ∀ {i c tokens}, mc.Absorbed i c tokens →
    (mc.Absorbed i (copySnapshotEntry mc.lib c) tokens ↔ InOrder mc.lib c)
  copyCount : ∀ {i c tokens tokens'}, mc.Absorbed i c tokens →
    mc.Absorbed i (copySnapshotEntry mc.lib c) tokens' → tokens'.length = tokens.length
  lastPositions_zero : ∀ a, mc.lib.lastPositions 0 a = a
  lastPositions_idem : ∀ n a,
    mc.lib.lastPositions n (mc.lib.lastPositions n a) = mc.lib.lastPositions n a
  positions_last : ∀ n a, 0 < n →
    mc.lib.positions (mc.lib.lastPositions n a) = min n (mc.lib.positions a)
  localV4 : ∀ v c, mc.lib.localV4 (mc.lib.setLocalV4 v c) = c
  setLocalV4 : ∀ v c c', mc.lib.setLocalV4 (mc.lib.setLocalV4 v c) c' = mc.lib.setLocalV4 v c'

/-! ## `prefill` -/

/-- The calls that feed a prompt: its chunks, and after its last token another one. -/
structure Calls (prompt : List Token) where
  chunks : List (List Token)
  covers : chunks.flatten = prompt.dropLast
  /-- The token of the additional step. -/
  extra : Token

/-- `prompt[processed : processed + chunk_size]`, for one chunk size after the other. -/
def chunksOf : List Nat → List Token → List (List Token)
  | [], _ => []
  | n :: sizes, prompt => prompt.take n :: chunksOf sizes (prompt.drop n)

theorem flatten_chunksOf (sizes : List Nat) (prompt : List Token) :
    (chunksOf sizes prompt).flatten = prompt.take sizes.sum := by
  induction sizes generalizing prompt with
  | nil => simp [chunksOf]
  | cons n sizes ih =>
      rw [chunksOf, List.flatten_cons, ih, List.sum_cons, List.take_add]

/-- The two ways of a prefill. -/
inductive Schedule (prompt : List Token) where
  /-- `stream_generate` cuts the prompt as it likes, and feeds what it generates. -/
  | streamGenerate (calls : Calls prompt)
  /-- `pipeline_parallel_prefill`, in a group of this size. -/
  | pipelineParallel (size : Nat) (h : 0 < size)

/-- `pipeline_parallel_prefill` feeds the last token twice. -/
def pipelineCalls (size : Nat) (h : 0 < size) (prompt : List Token) (hne : prompt ≠ []) :
    Calls prompt where
  chunks :=
    let config : PrefillConfig := { size, total := prompt.length }
    chunksOf (realChunkSizes config.chunkStep (prompt.length - 1) (prompt.length - 1)) prompt
  covers := by
    have hstep : 0 < PrefillConfig.chunkStep { size, total := prompt.length } :=
      Nat.div_pos (by simp only; omega) (by simp only; omega)
    rw [flatten_chunksOf, sum_realChunkSizes hstep _ _ (Nat.le_refl _), List.dropLast_eq_take]
  extra := prompt.getLast hne

def Schedule.calls {prompt : List Token} (hne : prompt ≠ []) : Schedule prompt → Calls prompt
  | .streamGenerate calls => calls
  | .pipelineParallel size h => pipelineCalls size h prompt hne

section Prefill

variable (mc : ModelCaches Token A V)

/-- The caches at the progress callbacks up to the last chunk. -/
def callbackCaches (cache : List (LayerCache A V)) : List (List Token) → List (List (LayerCache A V))
  | [] => [cache]
  | chunk :: chunks => cache :: callbackCaches (mc.feed chunk cache) chunks

/-- `c.trim(2)`, of what can be trimmed. -/
def trimLayer (n : Nat) : LayerCache A V → LayerCache A V
  | .plain (.kv c) => .plain (.kv (mc.lib.trimKV n c))
  | .plain (.quantized c) => .plain (.quantized (mc.lib.trimKV n c))
  | .plain c => .plain c
  | .cacheList inner => .cacheList (mc.lib.trimList n inner)
  | .deepseekV4 c => .deepseekV4 (mc.lib.trimV4 n c)

/-- The body of the last loop. A failed assertion is `none`. -/
def rollBackLayer (hasSsm : Bool) (preGen : Option (CacheSnapshot A V)) (i : Nat)
    (c : LayerCache A V) : Option (LayerCache A V) :=
  let nonTrimmable := isNonTrimmableCacheEntry mc.lib c
  if hasSsm && nonTrimmable then
    preGen.map fun snap =>
      match (snap.states[i]?.join).map (copySnapshotEntry mc.lib) with
      | some restored => restored
      | none => c
  else if nonTrimmable then none
  else some (trimLayer mc 2 c)

def rollBackFrom (hasSsm : Bool) (preGen : Option (CacheSnapshot A V)) :
    Nat → List (LayerCache A V) → Option (List (LayerCache A V))
  | _, [] => some []
  | i, c :: cache =>
    (rollBackLayer mc hasSsm preGen i c).bind fun c' =>
      (rollBackFrom hasSsm preGen (i + 1) cache).map (c' :: ·)

/-- `prefill`, with the caches and the snapshots it leaves. -/
def prefill (cache : List (LayerCache A V)) (prompt : List Token)
    (schedule : Schedule prompt) : Option (List (LayerCache A V) × List (CacheSnapshot A V)) :=
  if h : prompt = [] then some (cache, [])
  else
    let calls := schedule.calls h
    let hasSsm := hasNonKvCaches mc.lib cache
    let states := callbackCaches mc cache calls.chunks
    let final := mc.feed [calls.extra] (mc.feed [prompt.getLast h] (fedCache mc cache calls.chunks))
    let snapshots :=
      if hasSsm then (states ++ [final]).map (snapshotSsmStates mc.lib) else []
    let preGen := if hasSsm then snapshots[snapshots.length - 2]? else none
    (rollBackFrom mc hasSsm preGen 0 final).map fun cache => (cache, snapshots.dropLast)

end Prefill

/-- Every layer has absorbed the prompt up to its last token, and every snapshot is one of the
tokens it counts. -/
def PostState (mc : ModelCaches Token A V) (tokens : List Token) :
    Option (List (LayerCache A V) × List (CacheSnapshot A V)) → Prop
  | none => False
  | some (cache, snapshots) =>
    AllAbsorbed mc cache tokens ∧
      ∀ snap ∈ snapshots, snap.tokenCount ≤ tokens.length ∧
        ∀ i state, snap.states[i]? = some (some state) →
          mc.Absorbed i state (tokens.take snap.tokenCount)

/-! ## When it holds -/

section Condition

variable (mc : ModelCaches Token A V)

/-- The layer cannot be trimmed when it has absorbed so many tokens. -/
def NonTrimmableAt (i n : Nat) : Prop :=
  match mc.kind i with
  | .kv => False
  | .list => mc.listTrimmable i n = false
  | _ => True

/-- A snapshot of so many tokens has a state of the layer. -/
def SnapshottedAt (i n : Nat) : Prop :=
  match mc.kind i with
  | .kv => False
  | .rotating => n ≠ 0
  | .list => mc.listTrimmable i n = false
  | _ => True

/-- What a layer adds to the length of a cache that has absorbed so many tokens. -/
def lengthAt (n i : Nat) : Nat :=
  match mc.kind i with
  | .arrays => 0
  | .list => mc.listSize i n
  | _ => n

/-- The length of a cache that has absorbed so many tokens. -/
def countAt (n : Nat) : Nat := ((List.range mc.layers).map (lengthAt mc n)).max?.getD 0

/-- Some layer cannot be trimmed. -/
def SomeNonTrimmableAt (n : Nat) : Prop := ∃ j < mc.layers, NonTrimmableAt mc j n

/-- Every layer that cannot be trimmed in the end is in the snapshot that is put back, which some
layer made necessary from the beginning; and every snapshot that has a state counts its tokens. A
state is one of them only when its rings are in order as it is taken. -/
structure Restorable (cache : List (LayerCache A V)) (start : Nat) (chunks : List (List Token)) :
    Prop where
  restored : ∀ i c, cache[i]? = some c →
    NonTrimmableAt mc i (start + chunks.flatten.length + 2) →
    SomeNonTrimmableAt mc start ∧ SnapshottedAt mc i (start + chunks.flatten.length)
  taken : SomeNonTrimmableAt mc start → ∀ fed, fed <+: chunks → ∀ i c, cache[i]? = some c →
    SnapshottedAt mc i (start + fed.flatten.length) →
    mc.inOrder i c (fed.map List.length) = true ∧
      countAt mc (start + fed.flatten.length) = start + fed.flatten.length

end Condition

end Exo.PrefillState
