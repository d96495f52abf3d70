import Exo.Mlx.RemotePrefill
import Mathlib.Data.Nat.Find

/-!
# What a failed remote prefill leaves behind

While the answer is read the caches are not touched. After that each layer is assigned as soon
as its own data is decoded, and the keys of a layer before its values are joined. So a layer
whose data cannot be used leaves the layers before it changed, and maybe its own keys.
-/

namespace Exo

open Lib (Dict)
open Disaggregated

section Layers

variable {N A V : Type} (ops : ArrayOps N A) (result : PrefillResult) (startPos : Int)

/-! ## What an answer has for a layer -/

/-- Both arrays in the layout of the cache. -/
def bothBhsd (k v : A) : Except String (A × A) :=
  (nhdToBhsd ops k).bind fun k => (nhdToBhsd ops v).map (k, ·)

/-- What is appended to the held positions, or stands alone if there are none to keep. -/
def joined (existingK existingV : Option A) (existing : Option A) (a : A) : Except String A :=
  match decide (0 < startPos), existingK, existingV, existing with
  | true, some _, some _, some existing => appendAt ops startPos existing a
  | _, _, _, _ => .ok a

/-- What a `KVCache` is to hold. -/
def deliverKv (c : KVCache A) (k v : A) (offset : Int) : Except String (KVCache A) :=
  (bothBhsd ops k v).bind fun (k, v) =>
    (joined ops startPos c.keys c.values c.keys k).bind fun keys =>
      (joined ops startPos c.keys c.values c.values v).map fun values =>
        ⟨some keys, some values, offset⟩

/-- What a `RotatingKVCache` is to hold. -/
def deliverRotating (c : RotatingKVCache A) (k v : A) (offset : Int) :
    Except String (RotatingKVCache A) :=
  (bothBhsd ops k v).map fun (k, v) =>
    { c with keys := some k, values := some v, offset := offset, idx := ops.positions k }

/-- What a cache that takes keys and values is to hold. -/
def deliverChunks (k v : A) : LayerCache A V → Except String (LayerCache A V)
  | .plain (.kv c) =>
    (deliverKv ops startPos c k v (result.finalOffset startPos)).map fun c => .plain (.kv c)
  | .plain (.rotating c) =>
    (deliverRotating ops c k v (result.finalOffset startPos)).map fun c => .plain (.rotating c)
  | c => .ok c

/-- What layer `i` is to hold for the keys and values of the answer. -/
def deliveredChunks (i : Nat) (cache : LayerCache A V) : Except String (LayerCache A V) :=
  match result.kvChunks.get? i with
  | none => .ok cache
  | some chunks => (decodeChunks ops chunks).bind fun (k, v) =>
      deliverChunks ops result startPos k v cache

/-- What layer `i` is to hold for the states of the answer. -/
def deliveredArrays (i : Nat) (cache : LayerCache A V) : Except String (LayerCache A V) :=
  match result.arrays.get? i, cache with
  | some blobs, .plain (.arrays _) =>
    (blobs.mapM (blobToMlx ops)).map fun state => .plain (.arrays ⟨state.map some⟩)
  | _, c => .ok c

/-- What layer `i` is to hold after the ingestion, or why its data cannot be used. -/
def delivery (i : Nat) (cache : LayerCache A V) : Except String (LayerCache A V) :=
  (deliveredChunks ops result startPos i cache).bind (deliveredArrays ops result i)

/-- The data of layer `i` cannot be used. -/
def Unusable (i : Nat) (cache : LayerCache A V) : Prop :=
  ∃ e, delivery ops result startPos i cache = .error e

/-- The keys that are joined for a `KVCache`, when its values still have to be. -/
def joinedKvKeys (c : KVCache A) (k v : A) : Option A :=
  match bothBhsd ops k v with
  | .ok (k, _) => (joined ops startPos c.keys c.values c.keys k).toOption
  | .error _ => none

/-- The keys that are joined for layer `i`, when its values still have to be. -/
def joinedKeys (i : Nat) : LayerCache A V → Option A
  | .plain (.kv c) =>
    match (result.kvChunks.get? i).map (decodeChunks ops) with
    | some (.ok (k, v)) => joinedKvKeys ops startPos c k v
    | _ => none
  | _ => none

/-- The keys of a layer are assigned. -/
def LayerCache.withKeys (keys : Option A) : LayerCache A V → LayerCache A V
  | .plain (.kv c) => .plain (.kv { c with keys := keys.or c.keys })
  | c => c

/--
The first layer whose data cannot be used comes after layers that receive what they hold, and
receives no other keys itself.
-/
def Unspoiled (caches : List (LayerCache A V)) : Prop :=
  ∀ n c, caches[n]? = some c → Unusable ops result startPos n c →
    (∀ j < n, ∀ c', caches[j]? = some c' → ¬ Unusable ops result startPos j c') →
    (∀ j < n, ∀ c', caches[j]? = some c' → delivery ops result startPos j c' = .ok c') ∧
      c.withKeys (joinedKeys ops result startPos n c) = c

/-! ## One layer -/

/-- What an assignment in place does, against what it is to do. -/
private def Agrees {C : Type} (delivered : Except String C) (partly : C)
    (done : Except String Unit × C) : Prop :=
  (∃ c', delivered = .ok c' ∧ done = (.ok (), c')) ∨
  (∃ e, delivered = .error e ∧ done = (.error e, partly))

/-- A part of a cache agrees, so the cache does. -/
private theorem Agrees.map {C D : Type} {delivered : Except String C} {partly : C}
    {done : Except String Unit × C} (f : C → D) (h : Agrees delivered partly done) :
    Agrees (delivered.map f) (f partly) (done.1, f done.2) := by
  obtain ⟨c, rfl, rfl⟩ | ⟨e, rfl, rfl⟩ := h
  · exact Or.inl ⟨f c, rfl, rfl⟩
  · exact Or.inr ⟨e, rfl, rfl⟩

private theorem agrees_injectKvChunk (c : KVCache A) (k v : A) (offset : Int) :
    Agrees (deliverKv ops startPos c k v offset)
      { c with keys := (joinedKvKeys ops startPos c k v).or c.keys }
      (injectKvChunk ops c k v offset startPos c.keys c.values) := by
  unfold injectKvChunk deliverKv joinedKvKeys bothBhsd
  cases nhdToBhsd ops k with
  | error e => exact Or.inr ⟨e, rfl, rfl⟩
  | ok k' =>
    cases nhdToBhsd ops v with
    | error e => exact Or.inr ⟨e, rfl, rfl⟩
    | ok v' =>
      obtain ⟨keys, values, old⟩ := c
      -- both arrays are joined to held positions, or neither is
      cases hpos : decide (0 < startPos) with
      | false => exact Or.inl ⟨_, by simp [joined, hpos, Except.bind, Except.map], rfl⟩
      | true =>
        cases keys with
        | none => exact Or.inl ⟨_, by simp [joined, Except.bind, Except.map], rfl⟩
        | some ek =>
          cases values with
          | none => exact Or.inl ⟨_, by simp [joined, Except.bind, Except.map], rfl⟩
          | some ev =>
            simp only [joined, hpos, Except.bind, Except.map]
            cases hk : appendAt ops startPos ek k' with
            | error e => exact Or.inr ⟨e, rfl, rfl⟩
            | ok keys =>
              cases hv : appendAt ops startPos ev v' with
              | error e => exact Or.inr ⟨e, rfl, rfl⟩
              | ok values => exact Or.inl ⟨_, rfl, rfl⟩

private theorem injectKvChunk_start (c : KVCache A) (k v : A) (offset : Int)
    (h : ¬ 0 < startPos) : injectKvChunk ops c k v offset 0 none none =
      injectKvChunk ops c k v offset startPos c.keys c.values := by
  unfold injectKvChunk
  cases nhdToBhsd ops k with
  | error e => rfl
  | ok k =>
    cases nhdToBhsd ops v with
    | error e => rfl
    | ok v => simp [h]

private theorem agrees_injectRotating (c : RotatingKVCache A) (k v : A) (offset : Int) :
    Agrees (deliverRotating ops c k v offset) c (injectRotatingKvChunk ops c k v offset) := by
  unfold injectRotatingKvChunk deliverRotating bothBhsd
  cases nhdToBhsd ops k with
  | error e => exact Or.inr ⟨e, rfl, rfl⟩
  | ok k' =>
    cases nhdToBhsd ops v with
    | error e => exact Or.inr ⟨e, rfl, rfl⟩
    | ok v' => exact Or.inl ⟨_, rfl, rfl⟩

private theorem agrees_ingestChunks (i : Nat) (c : LayerCache A V) :
    Agrees (deliveredChunks ops result startPos i c)
      (c.withKeys (joinedKeys ops result startPos i c))
      (ingestChunks ops result startPos i c) := by
  unfold ingestChunks deliveredChunks
  cases hchunks : result.kvChunks.get? i with
  | none => exact Or.inl ⟨c, rfl, rfl⟩
  | some chunks =>
    simp only
    cases hdecode : decodeChunks ops chunks with
    | error e =>
      have hnone : joinedKeys ops result startPos i c = none := by
        unfold joinedKeys
        split
        · simp [hchunks, hdecode]
        · rfl
      refine Or.inr ⟨e, rfl, ?_⟩
      rw [hnone]
      cases c with
      | plain c => cases c <;> rfl
      | cacheList inner => rfl
      | deepseekV4 c => rfl
    | ok kv =>
      obtain ⟨k, v⟩ := kv
      simp only [Except.bind]
      cases c with
      | plain c =>
        cases c with
        | kv c =>
          have hagrees := (agrees_injectKvChunk ops startPos c k v
            (result.finalOffset startPos)).map (fun c => (LayerCache.plain (.kv c) : LayerCache A V))
          have hkeys : joinedKeys ops result startPos i (.plain (.kv c) : LayerCache A V) =
              joinedKvKeys ops startPos c k v := by
            simp [joinedKeys, hchunks, hdecode]
          have hinject : (if 0 < startPos
              then injectKvChunk ops c k v (result.finalOffset startPos) startPos c.keys c.values
              else injectKvChunk ops c k v (result.finalOffset startPos) 0 none none) =
              injectKvChunk ops c k v (result.finalOffset startPos) startPos c.keys c.values := by
            split
            · rfl
            · rename_i hpos
              exact injectKvChunk_start ops startPos c k v _ hpos
          rw [hkeys]
          simp only [injectChunks, hinject]
          exact hagrees
        | quantized c => exact Or.inl ⟨_, rfl, rfl⟩
        | rotating c =>
          exact (agrees_injectRotating ops c k v (result.finalOffset startPos)).map
            (fun c => (LayerCache.plain (.rotating c) : LayerCache A V))
        | arrays c => exact Or.inl ⟨_, rfl, rfl⟩
      | cacheList inner => exact Or.inl ⟨_, rfl, rfl⟩
      | deepseekV4 c => exact Or.inl ⟨_, rfl, rfl⟩

private theorem agrees_ingestArrays (i : Nat) (c : LayerCache A V) :
    Agrees (deliveredArrays ops result i c) c (ingestArrays ops result i c) := by
  unfold deliveredArrays ingestArrays
  cases result.arrays.get? i with
  | none => exact Or.inl ⟨c, rfl, rfl⟩
  | some blobs =>
    cases c with
    | plain c =>
      cases c with
      | arrays c =>
        simp only [injectArraysCache]
        cases blobs.mapM (blobToMlx ops) with
        | error e => exact Or.inr ⟨e, rfl, rfl⟩
        | ok state => exact Or.inl ⟨_, rfl, rfl⟩
      | kv c => exact Or.inl ⟨_, rfl, rfl⟩
      | quantized c => exact Or.inl ⟨_, rfl, rfl⟩
      | rotating c => exact Or.inl ⟨_, rfl, rfl⟩
    | cacheList inner => exact Or.inl ⟨_, rfl, rfl⟩
    | deepseekV4 c => exact Or.inl ⟨_, rfl, rfl⟩

variable {c : LayerCache A V}

/-- The states of a layer cannot be used only where it has an `ArraysCache`. -/
private theorem deliveredArrays_error {i : Nat} {e : String}
    (h : deliveredArrays ops result i c = .error e) : ∃ a, c = .plain (.arrays a) := by
  unfold deliveredArrays at h
  split at h
  · exact ⟨_, rfl⟩
  · cases h

private theorem deliveredChunks_arrays {i : Nat} {a : ArraysCache A}
    (h : deliveredChunks ops result startPos i c = .ok (.plain (.arrays a))) :
    c = .plain (.arrays a) := by
  unfold deliveredChunks at h
  split at h
  · exact Except.ok.inj h
  · rename_i chunks _
    cases hdecode : decodeChunks ops chunks with
    | error e => simp [hdecode, Except.bind] at h
    | ok kv =>
      simp only [hdecode, Except.bind] at h
      unfold deliverChunks at h
      split at h
      · rename_i c
        cases hkv : deliverKv ops startPos c kv.1 kv.2 (result.finalOffset startPos) <;>
          simp [hkv, Except.map] at h
      · rename_i c
        cases hkv : deliverRotating ops c kv.1 kv.2 (result.finalOffset startPos) <;>
          simp [hkv, Except.map] at h
      · exact Except.ok.inj h

/-- A layer receives all of its delivery, or raises with at most its keys assigned. -/
private theorem agrees_ingestLayer (i : Nat) (c : LayerCache A V) :
    Agrees (delivery ops result startPos i c) (c.withKeys (joinedKeys ops result startPos i c))
      (ingestLayer ops result startPos i c) := by
  unfold delivery ingestLayer
  obtain ⟨c₁, hdelivered, hdone⟩ | ⟨e, hdelivered, hdone⟩ :=
    agrees_ingestChunks ops result startPos i c
  · rw [hdelivered, hdone]
    obtain ⟨c₂, hdelivered₂, hdone₂⟩ | ⟨e, hdelivered₂, hdone₂⟩ :=
      agrees_ingestArrays ops result i c₁
    · exact Or.inl ⟨c₂, hdelivered₂, hdone₂⟩
    · -- such a layer took no keys or values
      obtain ⟨a, rfl⟩ := deliveredArrays_error ops result hdelivered₂
      obtain rfl := deliveredChunks_arrays ops result startPos hdelivered
      exact Or.inr ⟨e, hdelivered₂, hdone₂⟩
  · rw [hdelivered, hdone]
    exact Or.inr ⟨e, rfl, rfl⟩

/-! ## All layers -/

/-- `Unspoiled`, where the caches start with layer `i`. -/
private def UnspoiledFrom (i : Nat) (caches : List (LayerCache A V)) : Prop :=
  ∀ n c, caches[n]? = some c → Unusable ops result startPos (i + n) c →
    (∀ j < n, ∀ c', caches[j]? = some c' → ¬ Unusable ops result startPos (i + j) c') →
    (∀ j < n, ∀ c', caches[j]? = some c' → delivery ops result startPos (i + j) c' = .ok c') ∧
      c.withKeys (joinedKeys ops result startPos (i + n) c) = c

/-- The ingestion raises exactly when the data of some layer cannot be used. -/
private theorem ingestLoop_raises : ∀ (caches : List (LayerCache A V)) (i : Nat),
    (∃ e, (ingestLoop ops result startPos i caches).1 = .error e) ↔
      ∃ n c, caches[n]? = some c ∧ Unusable ops result startPos (i + n) c := by
  intro caches
  induction caches with
  | nil =>
    intro i
    simp [ingestLoop]
  | cons c cs ih =>
    intro i
    obtain ⟨c', hdelivered, hdone⟩ | ⟨e, hdelivered, hdone⟩ :=
      agrees_ingestLayer ops result startPos i c
    · have hloop : (ingestLoop ops result startPos i (c :: cs)).1 =
          (ingestLoop ops result startPos (i + 1) cs).1 := by
        simp only [ingestLoop, hdone]
      rw [hloop, ih (i + 1)]
      constructor
      · intro ⟨n, c₁, hn, hun⟩
        exact ⟨n + 1, c₁, hn, by rwa [← Nat.add_assoc, Nat.add_right_comm]⟩
      · intro ⟨n, c₁, hn, hun⟩
        cases n with
        | zero =>
          obtain rfl : c = c₁ := by simpa using hn
          obtain ⟨e, he⟩ := hun
          rw [Nat.add_zero, hdelivered] at he
          cases he
        | succ n => exact ⟨n, c₁, hn, by rwa [Nat.add_right_comm, Nat.add_assoc]⟩
    · have hloop : (ingestLoop ops result startPos i (c :: cs)).1 = .error e := by
        simp only [ingestLoop, hdone]
      exact ⟨fun _ => ⟨0, c, rfl, e, hdelivered⟩, fun _ => ⟨e, hloop⟩⟩

private theorem ingestLoop_iff : ∀ (caches : List (LayerCache A V)) (i : Nat),
    (∀ e, (ingestLoop ops result startPos i caches).1 = .error e →
      (ingestLoop ops result startPos i caches).2 = caches) ↔
    UnspoiledFrom ops result startPos i caches := by
  intro caches
  induction caches with
  | nil =>
    intro i
    simp [ingestLoop, UnspoiledFrom]
  | cons c cs ih =>
    intro i
    obtain ⟨c', hdelivered, hdone⟩ | ⟨e, hdelivered, hdone⟩ :=
      agrees_ingestLayer ops result startPos i c
    · -- this layer is done; what comes later decides
      have husable : ¬ Unusable ops result startPos i c := by
        intro ⟨e, he⟩
        rw [hdelivered] at he
        cases he
      have hshift : ∀ n, i + (n + 1) = i + 1 + n := fun n => by omega
      have hloop : ingestLoop ops result startPos i (c :: cs) =
          ((ingestLoop ops result startPos (i + 1) cs).1,
            c' :: (ingestLoop ops result startPos (i + 1) cs).2) := by
        simp only [ingestLoop, hdone]
      have hraises := ingestLoop_raises ops result startPos cs (i + 1)
      rw [hloop]
      constructor
      · intro h n c₁ hn hun hfirst
        cases n with
        | zero =>
          obtain rfl : c = c₁ := by simpa using hn
          exact absurd hun husable
        | succ n =>
          obtain ⟨e, he⟩ := hraises.mpr ⟨n, c₁, hn, hshift n ▸ hun⟩
          obtain ⟨hsame, hrest⟩ := List.cons.inj (h e he)
          have hun' := (ih (i + 1)).mp (fun _ _ => hrest) n c₁ hn (hshift n ▸ hun)
            fun j hj c₂ hc₂ => hshift j ▸ hfirst (j + 1) (Nat.succ_lt_succ hj) c₂ hc₂
          refine ⟨fun j hj c₂ hc₂ => ?_, by rw [hshift]; exact hun'.2⟩
          cases j with
          | zero =>
            obtain rfl : c = c₂ := by simpa using hc₂
            rw [Nat.add_zero, hdelivered, hsame]
          | succ j =>
            rw [hshift]
            exact hun'.1 j (Nat.lt_of_succ_lt_succ hj) c₂ hc₂
      · intro h e he
        have hfirst : ∃ n c₁, cs[n]? = some c₁ ∧ Unusable ops result startPos (i + 1 + n) c₁ :=
          hraises.mp ⟨e, he⟩
        classical
        obtain ⟨c₁, hn, hun⟩ := Nat.find_spec hfirst
        have hearlier : ∀ j < Nat.find hfirst + 1, ∀ c₂, (c :: cs)[j]? = some c₂ →
            ¬ Unusable ops result startPos (i + j) c₂ := by
          intro j hj c₂ hc₂ hun₂
          cases j with
          | zero =>
            obtain rfl : c = c₂ := by simpa using hc₂
            exact husable hun₂
          | succ j =>
            exact Nat.find_min hfirst (Nat.lt_of_succ_lt_succ hj) ⟨c₂, hc₂, hshift j ▸ hun₂⟩
        have hheld := (h (Nat.find hfirst + 1) c₁ hn (hshift _ ▸ hun) hearlier).1 0
          (Nat.succ_pos _) c rfl
        rw [Nat.add_zero, hdelivered] at hheld
        have hrest := (ih (i + 1)).mpr (fun n c₂ hn₂ hun₂ hfirst₂ => ?_) e he
        · rw [Except.ok.inj hheld, hrest]
        · -- the layers from `i + 1` on are unspoiled, since those from `i` on are
          have hun' := h (n + 1) c₂ hn₂ (hshift n ▸ hun₂) fun j hj c₃ hc₃ => by
            cases j with
            | zero =>
              obtain rfl : c = c₃ := by simpa using hc₃
              exact husable
            | succ j =>
              rw [hshift]
              exact hfirst₂ j (Nat.lt_of_succ_lt_succ hj) c₃ hc₃
          refine ⟨fun j hj c₃ hc₃ => ?_, by rw [← hshift]; exact hun'.2⟩
          rw [← hshift]
          exact hun'.1 (j + 1) (Nat.succ_lt_succ hj) c₃ hc₃
    · have hunusable : Unusable ops result startPos i c := ⟨e, hdelivered⟩
      have hloop : ingestLoop ops result startPos i (c :: cs) =
          (.error e, c.withKeys (joinedKeys ops result startPos i c) :: cs) := by
        simp only [ingestLoop, hdone]
      rw [hloop]
      constructor
      · intro h n c₁ hn _ hfirst
        cases n with
        | zero =>
          obtain rfl : c = c₁ := by simpa using hn
          exact ⟨fun j hj => absurd hj (Nat.not_lt_zero j), (List.cons.inj (h e rfl)).1⟩
        | succ n => exact absurd hunusable (hfirst 0 (Nat.succ_pos n) c rfl)
      · intro h _ _
        have := (h 0 c rfl hunusable fun j hj => absurd hj (Nat.not_lt_zero j)).2
        rw [Nat.add_zero] at this
        rw [this]

/--
**A failed remote prefill leaves no trace exactly when the first unusable layer comes after
layers that are unchanged by their own data.**
-/
theorem remotePrefill_noTrace_iff (lib : MlxLm A V) (codec : Codec) (progress : Progress)
    (connection : Except String Stream) (totalPromptTokens : Int)
    (cache : List (LayerCache A V)) :
    (∀ e, (remotePrefill ops lib codec progress connection totalPromptTokens cache startPos).1
        = .error e →
      (remotePrefill ops lib codec progress connection totalPromptTokens cache startPos).2
        = cache) ↔
    ∀ result, remotePrefillFetch codec progress connection totalPromptTokens = .ok result →
      Unspoiled ops result startPos cache := by
  unfold remotePrefill
  cases remotePrefillFetch codec progress connection totalPromptTokens with
  | error e => simp
  | ok result =>
    have hloop := ingestLoop_iff ops result startPos cache 0
    have hfrom : UnspoiledFrom ops result startPos 0 cache ↔
        Unspoiled ops result startPos cache := by
      simp only [UnspoiledFrom, Unspoiled, Nat.zero_add]
    simp only [ingestIntoMlxCache, Except.ok.injEq, forall_eq']
    rw [← hfrom, ← hloop]
    cases (ingestLoop ops result startPos 0 cache).1 <;> simp [Except.map]

end Layers

/-! ## A failure that leaves a trace -/

namespace Sample

/-- An array of one element, or a flat one, as its shape and its bytes. -/
abbrev Arr := List Int × Bytes

def itemSize : NpDType → Nat
  | .uint16 | .float16 => 2
  | .float32 => 4

def ops : ArrayOps Arr Arr where
  frombuffer data dtype :=
    if data.length % itemSize dtype = 0 then .ok ([data.length / itemSize dtype], data)
    else .error "buffer size must be a multiple of element size"
  reshape arr shape :=
    if arr.1.prod = shape.prod then .ok (shape, arr.2) else .error "cannot reshape array"
  mxArray arr := .ok arr
  viewBfloat16 arr := arr
  ndim arr := arr.1.length
  transpose
    | (a :: b :: rest, data) => (b :: a :: rest, data)
    | arr => arr
  expandDims arr := (1 :: arr.1, arr.2)
  concatenate _ arrs := .ok ([arrs.length], arrs.flatMap Prod.snd)
  takePositions _ arr := .ok arr
  positions arr := (arr.1.getD 2 0).toNat

def lib : MlxLm Arr Unit where
  positions := ops.positions
  lastPositions _ arr := arr
  trimKV n c := { c with offset := c.offset - n }
  listIsTrimmable _ := true
  trimList _ inner := inner
  listSize _ := 0
  trimV4 _ c := c
  offsetV4 _ := 0
  localV4 _ := { maxSize := 0 }
  setLocalV4 c _ := c

/-! The encoding of `msgspec`, for what is sent here. -/

def str (s : String) : Bytes :=
  UInt8.ofNat (160 + s.length) :: s.toList.map fun c => UInt8.ofNat c.toNat

def int (n : Int) : Bytes := [UInt8.ofNat n.toNat]

def bin (data : Bytes) : Bytes := 196 :: UInt8.ofNat data.length :: data

def encodeHeader (h : Header) : Bytes :=
  133 :: (str "request_id" ++ str h.requestId ++ str "model_id" ++ str h.modelId
    ++ str "num_layers" ++ int h.numLayers ++ str "dtype" ++ str "float32"
    ++ str "start_pos" ++ int h.startPos)

def encodeChunk (c : KVChunk) : Bytes :=
  136 :: (str "type" ++ str "kv_chunk" ++ str "layer_idx" ++ int c.layerIdx
    ++ str "num_tokens" ++ int c.numTokens ++ str "n_heads" ++ int c.nHeads
    ++ str "head_dim" ++ int c.headDim ++ str "dtype" ++ str "float32"
    ++ str "keys" ++ bin c.keys ++ str "values" ++ bin c.values)

def header : Header := { numLayers := 2, dtype := .float32 }

/-- A chunk of one token for layer 0, and one for layer 1 that lacks a byte of its keys. -/
def chunks : List KVChunk :=
  [⟨0, 1, 1, 1, .float32, [0, 0, 128, 63], [0, 0, 128, 63]⟩,
    ⟨1, 1, 1, 1, .float32, [0, 0, 128], [0, 0, 128, 63]⟩]

def codec : Codec where
  encodeHeader := encodeHeader
  decodeHeader bytes := if bytes = encodeHeader header then some header else none
  encodeMessage
    | .kvChunk c => encodeChunk c
    | _ => []
  decodeMessage bytes := (chunks.find? fun c => encodeChunk c = bytes).map .kvChunk

/-- What the server sends before it closes the connection. -/
def stream : Stream where
  bytes := ((encodeHeader header :: chunks.map encodeChunk).filterMap writeFrame).flatten

def cache : List (LayerCache Arr Unit) := [.plain (.kv {}), .plain (.kv {})]

end Sample

/-- Layer 0 keeps what it received when the data of layer 1 cannot be used. -/
theorem remotePrefill_leaves_trace : ¬ ∀ e,
    (remotePrefill Sample.ops Sample.lib Sample.codec none (.ok Sample.stream) 3 Sample.cache 0).1
      = .error e →
    (remotePrefill Sample.ops Sample.lib Sample.codec none (.ok Sample.stream) 3 Sample.cache 0).2
      = Sample.cache := by
  intro h
  have hdone : (remotePrefill Sample.ops Sample.lib Sample.codec none (.ok Sample.stream) 3
        Sample.cache 0).2 ≠ Sample.cache ∧
      (remotePrefill Sample.ops Sample.lib Sample.codec none (.ok Sample.stream) 3
        Sample.cache 0).1.toOption = none := by decide +kernel
  revert h hdone
  generalize remotePrefill Sample.ops Sample.lib Sample.codec none (.ok Sample.stream) 3
    Sample.cache 0 = done
  obtain ⟨raised, caches⟩ := done
  rintro h ⟨hne, hraises⟩
  cases raised with
  | error e => exact hne (h e rfl)
  | ok result => cases hraises

end Exo
