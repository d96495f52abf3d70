import Mathlib.Data.List.Basic

/-!
# Block wrappers

A wrapper owns the cache of the image K/V of its block. In `caching` mode the attention reads
what the call itself computed and the cache is filled; in `patched` mode the call writes its
patch into the cache and the attention reads the whole cache.

A K/V entry is what one token has of keys and values. It is kept with the CFG branch that wrote
it, which the code does not know.
-/

namespace Exo

/-- An `assert` that fails. -/
inductive AssertionError where
  | noCache
  | noEncoderHiddenStates
  | noRank
  | noNoise
  | noBranch
  deriving DecidableEq, Repr

inductive BlockWrapperMode where
  /-- Sync mode. -/
  | caching
  /-- Async mode. -/
  | patched
  deriving DecidableEq, Repr

/-! ## The cache -/

structure CacheEntry (E : Type) where
  /-- Whose entry it is: the positive branch's or not. The zeros of a new cache are nobody's. -/
  writer : Option Bool
  kv : E
  deriving DecidableEq

abbrev ImagePatchKVCache (E : Type) := List (CacheEntry E)

namespace ImagePatchKVCache

variable {E : Type}

/-- A new cache, for `zero` the entry of zeros. -/
def init (imageSeqLen : Nat) (zero : E) : ImagePatchKVCache E :=
  List.replicate imageSeqLen ⟨none, zero⟩

/-- `update_image_patch`. -/
def updateImagePatch (cache : ImagePatchKVCache E) (patchStart patchEnd : Nat)
    (entries : ImagePatchKVCache E) : ImagePatchKVCache E :=
  cache.take patchStart ++ entries ++ cache.drop patchEnd

/-- `get_full_kv`. -/
def getFullKv (cache : ImagePatchKVCache E) (textKv : List E) : List E :=
  textKv ++ cache.map CacheEntry.kv

end ImagePatchKVCache

/-! ## The mixin -/

/-- `BlockWrapperMixin`, with the encoder mask of the wrappers that have one. -/
structure BlockWrapper (X E : Type) where
  /-- The block it wraps, counted over the joint and then the single blocks of the model. -/
  block : Nat
  textSeqLen : Nat
  encoderHiddenStatesMask : Option X := none
  kvCache : Option (ImagePatchKVCache E) := none
  mode : BlockWrapperMode := .caching
  patchStart : Nat := 0
  patchEnd : Nat := 0

namespace BlockWrapper

variable {X E : Type}

def setPatch (w : BlockWrapper X E) (mode : BlockWrapperMode) (patchStart patchEnd : Nat) :
    BlockWrapper X E :=
  { w with mode, patchStart, patchEnd }

def setTextSeqLen (w : BlockWrapper X E) (textSeqLen : Nat) : BlockWrapper X E :=
  { w with textSeqLen }

def setEncoderMask (w : BlockWrapper X E) (mask : Option X) : BlockWrapper X E :=
  { w with encoderHiddenStatesMask := mask }

def resetCache (w : BlockWrapper X E) : BlockWrapper X E := { w with kvCache := none }

/-- `_ensure_cache` and what it leaves. -/
def ensureCache (w : BlockWrapper X E) (zero : E) (imgSeqLen : Nat) : ImagePatchKVCache E :=
  w.kvCache.getD (.init imgSeqLen zero)

/-- `_cache_full_image_kv`. -/
def cacheFullImageKv (w : BlockWrapper X E) (zero : E) (img : ImagePatchKVCache E) :
    BlockWrapper X E :=
  { w with kvCache := some ((w.ensureCache zero img.length).updateImagePatch 0 img.length img) }

/-- `_cache_patch_kv`, and the cache it leaves. -/
def cachePatchKv (w : BlockWrapper X E) (img : ImagePatchKVCache E) :
    Except AssertionError (ImagePatchKVCache E) :=
  match w.kvCache with
  | none => .error .noCache
  | some cache => .ok (cache.updateImagePatch w.patchStart w.patchEnd img)

/-- What the attention of one call works on. -/
structure Attended (X E : Type) where
  wrapper : BlockWrapper X E
  /-- All keys and values, text before image. -/
  kv : List E
  /-- Who wrote the image entries among them. -/
  read : List (Option Bool)

/-- The K/V part of `_forward_caching` and `_forward_patched`, for the keys and values that the
call computed, text before image. -/
def attend (w : BlockWrapper X E) (zero : E) (positive : Bool) (kv : List E) :
    Except AssertionError (Attended X E) :=
  let img := (kv.drop w.textSeqLen).map fun e => CacheEntry.mk (some positive) e
  match w.mode with
  | .caching => .ok ⟨w.cacheFullImageKv zero img, kv, img.map CacheEntry.writer⟩
  | .patched =>
    match w.cachePatchKv img with
    | .error e => .error e
    | .ok cache =>
      .ok ⟨{ w with kvCache := some cache }, cache.getFullKv (kv.take w.textSeqLen),
        cache.map CacheEntry.writer⟩

/-- The slice of the rotary embeddings that `patch_mode` takes. -/
def patchMode (w : BlockWrapper X E) : Option (Nat × Nat) :=
  match w.mode with
  | .caching => none
  | .patched => some (w.patchStart, w.patchEnd)

end BlockWrapper

/-! ## Blocks -/

/-- The abstract methods of `JointBlockWrapper`, for one block. A query comes with the
intermediate state that is kept for `_apply_output`. -/
structure JointBlock (X E Q : Type) where
  computeQkv : (textSeqLen : Nat) → (patchMode : Option (Nat × Nat)) →
    (hiddenStates encoderHiddenStates textEmbeddings rotaryEmbeddings : X) → Q × List E
  computeAttention : (textSeqLen : Nat) → (mask : Option X) → Q → List E → X
  applyOutput : (textSeqLen : Nat) → Q →
    (attnOut hiddenStates encoderHiddenStates textEmbeddings : X) → X × X

/-- The abstract methods of `SingleBlockWrapper`, for one block. -/
structure SingleBlock (X E Q : Type) where
  computeQkv : (textSeqLen : Nat) → (patchMode : Option (Nat × Nat)) →
    (hiddenStates textEmbeddings rotaryEmbeddings : X) → Q × List E
  computeAttention : (textSeqLen : Nat) → Q → List E → X
  applyOutput : (textSeqLen : Nat) → Q → (attnOut hiddenStates textEmbeddings : X) → X

/-- A call of a wrapper: what it was given, for which branch, and what its attention read. -/
structure BlockCall (X : Type) where
  block : Nat
  positive : Bool
  hiddenStates : X
  encoderHiddenStates : Option X
  read : List (Option Bool)
  deriving DecidableEq

variable {X E Q : Type}

/-- `JointBlockWrapper.__call__`: the wrapper and the two streams after it, text first. -/
def JointBlock.call (b : JointBlock X E Q) (zero : E) (w : BlockWrapper X E) (positive : Bool)
    (hiddenStates encoderHiddenStates textEmbeddings rotaryEmbeddings : X) :
    Except AssertionError (BlockWrapper X E × (X × X) × BlockCall X) :=
  let qkv := b.computeQkv w.textSeqLen w.patchMode hiddenStates encoderHiddenStates textEmbeddings
    rotaryEmbeddings
  match w.attend zero positive qkv.2 with
  | .error e => .error e
  | .ok a =>
    let attnOut := b.computeAttention w.textSeqLen w.encoderHiddenStatesMask qkv.1 a.kv
    .ok (a.wrapper,
      b.applyOutput w.textSeqLen qkv.1 attnOut hiddenStates encoderHiddenStates textEmbeddings,
      ⟨w.block, positive, hiddenStates, some encoderHiddenStates, a.read⟩)

/-- `SingleBlockWrapper.__call__`. -/
def SingleBlock.call (b : SingleBlock X E Q) (zero : E) (w : BlockWrapper X E) (positive : Bool)
    (hiddenStates textEmbeddings rotaryEmbeddings : X) :
    Except AssertionError (BlockWrapper X E × X × BlockCall X) :=
  let qkv := b.computeQkv w.textSeqLen w.patchMode hiddenStates textEmbeddings rotaryEmbeddings
  match w.attend zero positive qkv.2 with
  | .error e => .error e
  | .ok a =>
    let attnOut := b.computeAttention w.textSeqLen qkv.1 a.kv
    .ok (a.wrapper, b.applyOutput w.textSeqLen qkv.1 attnOut hiddenStates textEmbeddings,
      ⟨w.block, positive, hiddenStates, none, a.read⟩)

end Exo
