import Exo.Image.RankProgram

/-!
# What the calls of a pass leave in the caches

A pass of a branch through the wrappers of a stage either fills each cache with the branch's own
entries (`caching`) or replaces a range of them (`patched`). The attention of a patched call reads
the replaced range, which is the branch's own, and whatever the cache had outside of it.
-/

namespace Exo

variable {X E Q : Type}

/-! ## Shapes -/

/-- The shapes that mlx and mflux promise. -/
structure ModelAdapter.ShapeLaws (A : ModelAdapter X E Q) : Prop where
  empty : ∀ s, A.shape (A.empty s) = s
  nan : ∀ x, A.shape (A.nan x) = A.shape x
  slice : ∀ x start stop, A.shape (A.slice x start stop) =
    { A.shape x with
      tokens := min (stop.getD (A.shape x).tokens) (A.shape x).tokens - start }
  concatenate : ∀ x xs, A.shape (A.concatenate (x :: xs)) =
    { A.shape x with tokens := ((x :: xs).map fun y => (A.shape y).tokens).sum }
  embeddings : ∀ x e, A.shape (A.computeEmbeddings x e).1 = { A.shape x with dim := A.hiddenDim } ∧
    A.shape (A.computeEmbeddings x e).2 = { A.shape e with dim := A.hiddenDim }
  jointKv : ∀ b n p x e t rot, ((A.jointBlock b).computeQkv n p x e t rot).2.length =
    (A.shape e).tokens + (A.shape x).tokens
  jointOutput : ∀ b n q a x e t, A.shape ((A.jointBlock b).applyOutput n q a x e t).1 = A.shape e ∧
    A.shape ((A.jointBlock b).applyOutput n q a x e t).2 = A.shape x
  singleKv : ∀ b n p x t rot, ((A.singleBlock b).computeQkv n p x t rot).2.length =
    (A.shape x).tokens
  singleOutput : ∀ b n q a x t, A.shape ((A.singleBlock b).applyOutput n q a x t) = A.shape x
  mergeStreams : ∀ x e, A.shape (A.mergeStreams x e) =
    { A.shape x with tokens := (A.shape e).tokens + (A.shape x).tokens }
  scaleModelInput : ∀ x t, A.shape (A.scaleModelInput x t) = A.shape x
  schedulerStep : ∀ noise t x, A.shape (A.schedulerStep noise t x) = A.shape x

/-! ## One wrapper -/

/-- All entries are the branch's own. -/
def OwnedBy (positive : Bool) (cache : ImagePatchKVCache E) : Prop :=
  ∀ e ∈ cache, e.writer = some positive

/-- A cache of `n` entries, all of them the branch's own. -/
def Filled (positive : Bool) (n : Nat) (w : BlockWrapper X E) : Prop :=
  ∃ cache, w.kvCache = some cache ∧ cache.length = n ∧ OwnedBy positive cache

/-- A wrapper that a pass can call, for an image of `n` tokens. -/
def Ready (p : DiffusionRunner.Pass X) (n : Nat) (w : BlockWrapper X E) : Prop :=
  match p.mode with
  | .caching => p.imgTokens = n ∧ ∀ cache, w.kvCache = some cache → cache.length = n
  | .patched => p.patchStart + p.imgTokens = p.patchEnd ∧ p.patchEnd ≤ n ∧
      ∃ cache, w.kvCache = some cache ∧ cache.length = n

/-- What the attention of a pass reads beside the entries of the pass itself. -/
def outside (p : DiffusionRunner.Pass X) (w : BlockWrapper X E) : ImagePatchKVCache E :=
  match p.mode with
  | .caching => []
  | .patched => (w.kvCache.getD []).take p.patchStart ++ (w.kvCache.getD []).drop p.patchEnd

variable {cache entries : ImagePatchKVCache E}

theorem length_updateImagePatch {start stop : Nat}
    (hlen : start + entries.length = stop) (hstop : stop ≤ cache.length) :
    (cache.updateImagePatch start stop entries).length = cache.length := by
  simp only [ImagePatchKVCache.updateImagePatch, List.length_append, List.length_take,
    List.length_drop]
  omega

theorem mem_updateImagePatch {start stop : Nat}
    {e : CacheEntry E} : e ∈ cache.updateImagePatch start stop entries ↔
      e ∈ entries ∨ e ∈ cache.take start ++ cache.drop stop := by
  simp only [ImagePatchKVCache.updateImagePatch, List.mem_append]
  constructor
  · rintro ((h | h) | h)
    · exact .inr (.inl h)
    · exact .inl h
    · exact .inr (.inr h)
  · rintro (h | h | h)
    · exact .inl (.inr h)
    · exact .inl (.inl h)
    · exact .inr h

/-- What one call leaves, and what it read. -/
structure AttendSpec (p : DiffusionRunner.Pass X) (n : Nat) (w w' : BlockWrapper X E)
    (read : List (Option Bool)) : Prop where
  block : w'.block = w.block
  textSeqLen : w'.textSeqLen = w.textSeqLen
  prepared : p.prepare w' = w'
  length : ∃ cache, w'.kvCache = some cache ∧ cache.length = n
  read_own : (∀ x ∈ read, x = some p.positive) ↔ OwnedBy p.positive (outside p w)
  filled : OwnedBy p.positive (outside p w) → Filled p.positive n w'

theorem ownedBy_written (positive : Bool) (kv : List E) :
    OwnedBy positive (kv.map fun e => CacheEntry.mk (some positive) e) := by
  intro e he
  obtain ⟨x, -, rfl⟩ := List.mem_map.mp he
  rfl

variable {w : BlockWrapper X E}

/-- A caching call replaces the whole cache. -/
theorem cacheFullImageKv_kvCache {zero : E} {img : ImagePatchKVCache E}
    (h : ∀ cache, w.kvCache = some cache → cache.length = img.length) :
    (w.cacheFullImageKv zero img).kvCache = some img := by
  have hlen : (w.ensureCache zero img.length).length = img.length := by
    unfold BlockWrapper.ensureCache
    cases hc : w.kvCache with
    | none => exact List.length_replicate
    | some cache => exact h cache hc
  have hdrop : (w.ensureCache zero img.length).drop img.length = [] :=
    List.drop_eq_nil_of_le (Nat.le_of_eq hlen)
  simp only [BlockWrapper.cacheFullImageKv, ImagePatchKVCache.updateImagePatch, List.take_zero,
    List.nil_append, hdrop, List.append_nil]

theorem attend_spec {p : DiffusionRunner.Pass X} {n : Nat} (zero : E)
    {kv : List E} (hready : Ready p n w) (hkv : kv.length = w.textSeqLen + p.imgTokens) :
    ∃ a, (p.prepare w).attend zero p.positive kv = .ok a ∧
      AttendSpec p n w a.wrapper a.read := by
  have himg : ((kv.drop w.textSeqLen).map fun e => CacheEntry.mk (some p.positive) e).length =
      p.imgTokens := by
    rw [List.length_map, List.length_drop]
    omega
  have hown := ownedBy_written (E := E) p.positive (kv.drop w.textSeqLen)
  generalize hi : ((kv.drop w.textSeqLen).map fun e => CacheEntry.mk (some p.positive) e) = img
    at himg hown
  cases hmode : p.mode with
  | caching =>
    simp only [Ready, hmode] at hready
    obtain ⟨hn, hsized⟩ := hready
    have hcache : ((p.prepare w).cacheFullImageKv zero img).kvCache = some img :=
      cacheFullImageKv_kvCache fun cache hc => by rw [himg, hn]; exact hsized cache hc
    refine ⟨⟨(p.prepare w).cacheFullImageKv zero img, kv, img.map CacheEntry.writer⟩, ?_, ?_⟩
    · simp only [BlockWrapper.attend, DiffusionRunner.Pass.prepare, BlockWrapper.setPatch, hmode,
        hi]
    · exact {
        block := rfl
        textSeqLen := rfl
        prepared := rfl
        length := ⟨img, hcache, himg.trans hn⟩
        read_own := by
          simp only [outside, hmode, OwnedBy, List.not_mem_nil, false_imp_iff, implies_true,
            iff_true, List.mem_map]
          rintro x ⟨e, he, rfl⟩
          exact hown e he
        filled := fun _ => ⟨img, hcache, himg.trans hn, hown⟩ }
  | patched =>
    simp only [Ready, hmode] at hready
    obtain ⟨hrange, hstop, cache, hcache, hlen⟩ := hready
    have hout : outside p w = cache.take p.patchStart ++ cache.drop p.patchEnd := by
      simp only [outside, hmode, hcache, Option.getD_some]
    have hlen' : (cache.updateImagePatch p.patchStart p.patchEnd img).length = n := by
      rw [length_updateImagePatch (by rw [himg]; exact hrange) (by rw [hlen]; exact hstop), hlen]
    refine ⟨⟨{ p.prepare w with
        kvCache := some (cache.updateImagePatch p.patchStart p.patchEnd img) },
      (cache.updateImagePatch p.patchStart p.patchEnd img).getFullKv (kv.take w.textSeqLen),
      (cache.updateImagePatch p.patchStart p.patchEnd img).map CacheEntry.writer⟩, ?_, ?_⟩
    · simp only [BlockWrapper.attend, BlockWrapper.cachePatchKv, DiffusionRunner.Pass.prepare,
        BlockWrapper.setPatch, hmode, hcache, hi]
    · exact {
        block := rfl
        textSeqLen := rfl
        prepared := rfl
        length := ⟨_, rfl, hlen'⟩
        read_own := by
          rw [hout]
          constructor
          · intro h e he
            exact h _ (List.mem_map_of_mem (mem_updateImagePatch.2 (.inr he)))
          · intro h x hx
            obtain ⟨e, he, rfl⟩ := List.mem_map.mp hx
            exact (mem_updateImagePatch.1 he).elim (hown e) (h e)
        filled := fun h => by
          rw [hout] at h
          exact ⟨_, rfl, hlen', fun e he => (mem_updateImagePatch.1 he).elim (hown e) (h e)⟩ }

/-! ## The wrappers of a stage -/

/-- Each image entry that a call read was written for its own branch. -/
def Isolated (calls : List (BlockCall X)) : Prop :=
  ∀ c ∈ calls, ∀ writer ∈ c.read, writer = some c.positive

theorem isolated_append {xs ys : List (BlockCall X)} :
    Isolated (xs ++ ys) ↔ Isolated xs ∧ Isolated ys := by
  simp only [Isolated, List.mem_append, or_imp, forall_and]

/-- What the calls of a pass leave in a list of wrappers. -/
structure CallsSpec (p : DiffusionRunner.Pass X) (n : Nat) (ws ws' : List (BlockWrapper X E))
    (calls : List (BlockCall X)) : Prop where
  blocks : ws'.map (·.block) = ws.map (·.block)
  textSeqLen : ∀ w ∈ ws', w.textSeqLen = p.textSeqLen
  prepared : ∀ w ∈ ws', p.prepare w = w
  length : ∀ w ∈ ws', ∃ cache, w.kvCache = some cache ∧ cache.length = n
  isolated : Isolated calls ↔ ∀ w ∈ ws, OwnedBy p.positive (outside p w)
  filled : (∀ w ∈ ws, OwnedBy p.positive (outside p w)) → ∀ w ∈ ws', Filled p.positive n w

variable {p : DiffusionRunner.Pass X} {n : Nat}

theorem CallsSpec.nil : CallsSpec (E := E) p n [] [] [] where
  blocks := rfl
  textSeqLen := fun w hw => by cases hw
  prepared := fun w hw => by cases hw
  length := fun w hw => by cases hw
  isolated := by simp [Isolated]
  filled := fun _ w hw => by cases hw

theorem CallsSpec.cons {w w' : BlockWrapper X E} {ws ws' : List (BlockWrapper X E)}
    {call : BlockCall X} {calls : List (BlockCall X)} (hlen : w.textSeqLen = p.textSeqLen)
    (hpos : call.positive = p.positive) (h : AttendSpec p n w w' call.read)
    (hs : CallsSpec p n ws ws' calls) : CallsSpec p n (w :: ws) (w' :: ws') (call :: calls) where
  blocks := by rw [List.map_cons, List.map_cons, h.block, hs.blocks]
  textSeqLen := by
    intro x hx
    rcases List.mem_cons.mp hx with rfl | hx
    · exact h.textSeqLen.trans hlen
    · exact hs.textSeqLen x hx
  prepared := by
    intro x hx
    rcases List.mem_cons.mp hx with rfl | hx
    · exact h.prepared
    · exact hs.prepared x hx
  length := by
    intro x hx
    rcases List.mem_cons.mp hx with rfl | hx
    · exact h.length
    · exact hs.length x hx
  isolated := by
    have hcall : (∀ x ∈ call.read, x = some call.positive) ↔ OwnedBy p.positive (outside p w) := by
      rw [hpos]
      exact h.read_own
    rw [List.forall_mem_cons, ← hs.isolated, ← hcall]
    exact List.forall_mem_cons
  filled := by
    intro hown x hx
    rcases List.mem_cons.mp hx with rfl | hx
    · exact h.filled (hown w List.mem_cons_self)
    · exact hs.filled (fun y hy => hown y (List.mem_cons_of_mem _ hy)) x hx

namespace DiffusionRunner

variable (r : DiffusionRunner X E Q)

variable {a : BlockWrapper.Attended X E}

variable {positive : Bool}

theorem jointBlock_call {x e : X}
    {zero : E} {b : JointBlock X E Q} {te rot : X}
    (ha : w.attend zero positive (b.computeQkv w.textSeqLen w.patchMode x e te rot).2 = .ok a) :
    ∃ q attnOut, b.call zero w positive x e te rot = .ok (a.wrapper,
      b.applyOutput w.textSeqLen q attnOut x e te, ⟨w.block, positive, x, some e, a.read⟩) :=
  ⟨_, b.computeAttention w.textSeqLen w.encoderHiddenStatesMask _ a.kv, by
    simp only [JointBlock.call, ha]; rfl⟩

theorem singleBlock_call {x : X}
    {zero : E} {b : SingleBlock X E Q} {te rot : X}
    (ha : w.attend zero positive (b.computeQkv w.textSeqLen w.patchMode x te rot).2 = .ok a) :
    ∃ q attnOut, b.call zero w positive x te rot = .ok (a.wrapper,
      b.applyOutput w.textSeqLen q attnOut x te, ⟨w.block, positive, x, none, a.read⟩) :=
  ⟨_, b.computeAttention w.textSeqLen _ a.kv, by simp only [SingleBlock.call, ha]; rfl⟩

variable {ws : List (BlockWrapper X E)}

theorem callJointBlocks_spec (hA : r.adapter.ShapeLaws) {x e : X}
    (hws : ∀ w ∈ ws, w.textSeqLen = p.textSeqLen ∧ Ready p n w)
    (hx : (r.adapter.shape x).tokens = p.imgTokens)
    (he : (r.adapter.shape e).tokens = p.textSeqLen) :
    ∃ ws' x' e' calls, r.callJointBlocks p.prepare p.positive p.textEmbeddings p.rotaryEmbeddings
        ws x e = .ok (ws', x', e', calls) ∧
      r.adapter.shape x' = r.adapter.shape x ∧ r.adapter.shape e' = r.adapter.shape e ∧
      CallsSpec p n ws ws' calls := by
  induction ws generalizing x e with
  | nil => exact ⟨[], x, e, [], rfl, rfl, rfl, .nil⟩
  | cons w ws ih =>
    obtain ⟨⟨hlen, hready⟩, hws⟩ := List.forall_mem_cons.mp hws
    have hkv := hA.jointKv w.block w.textSeqLen (p.prepare w).patchMode x e p.textEmbeddings
      p.rotaryEmbeddings
    rw [hx, he, ← hlen] at hkv
    obtain ⟨a, ha, hspec⟩ := attend_spec r.adapter.zeroKv hready hkv
    obtain ⟨q, attnOut, hcall⟩ := jointBlock_call ha
    obtain ⟨hshape_e, hshape_x⟩ := hA.jointOutput w.block (p.prepare w).textSeqLen q attnOut x e
      p.textEmbeddings
    obtain ⟨ws', x', e', calls, hrest, hx', he', hcalls⟩ := ih hws
      ((congrArg Shape.tokens hshape_x).trans hx) ((congrArg Shape.tokens hshape_e).trans he)
    refine ⟨a.wrapper :: ws', x', e', ⟨w.block, p.positive, x, some e, a.read⟩ :: calls, ?_,
      hx'.trans hshape_x, he'.trans hshape_e, .cons hlen rfl hspec hcalls⟩
    simp only [callJointBlocks, hcall, bind, Except.bind, hrest]
    rfl

theorem callSingleBlocks_spec (hA : r.adapter.ShapeLaws) {x : X}
    (hws : ∀ w ∈ ws, w.textSeqLen = p.textSeqLen ∧ Ready p n w)
    (hx : (r.adapter.shape x).tokens = p.textSeqLen + p.imgTokens) :
    ∃ ws' x' calls, r.callSingleBlocks p.prepare p.positive p.textEmbeddings p.rotaryEmbeddings
        ws x = .ok (ws', x', calls) ∧
      r.adapter.shape x' = r.adapter.shape x ∧ CallsSpec p n ws ws' calls := by
  induction ws generalizing x with
  | nil => exact ⟨[], x, [], rfl, rfl, .nil⟩
  | cons w ws ih =>
    obtain ⟨⟨hlen, hready⟩, hws⟩ := List.forall_mem_cons.mp hws
    have hkv := hA.singleKv w.block w.textSeqLen (p.prepare w).patchMode x p.textEmbeddings
      p.rotaryEmbeddings
    rw [hx, ← hlen] at hkv
    obtain ⟨a, ha, hspec⟩ := attend_spec r.adapter.zeroKv hready hkv
    obtain ⟨q, attnOut, hcall⟩ := singleBlock_call ha
    have hshape := hA.singleOutput w.block (p.prepare w).textSeqLen q attnOut x p.textEmbeddings
    obtain ⟨ws', x', calls, hrest, hx', hcalls⟩ := ih hws
      ((congrArg Shape.tokens hshape).trans hx)
    refine ⟨a.wrapper :: ws', x', ⟨w.block, p.positive, x, none, a.read⟩ :: calls, ?_,
      hx'.trans hshape, .cons hlen rfl hspec hcalls⟩
    simp only [callSingleBlocks, hcall, bind, Except.bind, hrest]
    rfl

end DiffusionRunner

end Exo
