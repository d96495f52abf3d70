import Exo.Image.StagePass

/-!
# The passes of the CFG branches

Before each pass the wrappers are made for the text length of the branch. A sync pass leaves each
cache with the entries of its branch alone. An async pass reads what is outside of its patch, so it
is the branch's own only when the last pass was of the same branch, or when nothing is outside.
-/

namespace Exo

open Lib

variable {X E Q : Type}

namespace DiffusionRunner

variable {r : DiffusionRunner X E Q} {n len : Nat} {s s' : RunnerState X E} {quiet : Prop}

/-! ## Wrappers for a length -/

/-- What is kept between passes: when there are wrappers, they are those of the runner's blocks. -/
def Kept (r : DiffusionRunner X E Q) (s : RunnerState X E) : Prop :=
  s.currentTextSeqLen.isSome = true → r.Fits s

/-- The wrappers before a pass of a branch. -/
def readied (r : DiffusionRunner X E Q) (s : RunnerState X E) (branch : CfgBranch X) :
    RunnerState X E :=
  ((r.ensureWrappers s (r.tokens branch.embeds) branch.mask).setTextSeqLen
    (r.tokens branch.embeds)).setEncoderMask branch.mask

/-- The caches of a runner. -/
def caches (s : RunnerState X E) : List (Option (ImagePatchKVCache E)) :=
  s.wrappers.map (·.kvCache)

variable {w : BlockWrapper X E}

theorem kvCache_mem_caches (hw : w ∈ s.wrappers) : w.kvCache ∈ caches s :=
  List.mem_map_of_mem hw

theorem caches_set (s : RunnerState X E) (len : Nat) (mask : Option X) :
    caches ((s.setTextSeqLen len).setEncoderMask mask) = caches s := by
  simp only [caches, RunnerState.wrappers, RunnerState.setTextSeqLen, RunnerState.setEncoderMask,
    List.map_append, List.map_map]
  rfl

theorem fits_set (h : r.Fits s) (len : Nat) (mask : Option X) :
    r.Fits ((s.setTextSeqLen len).setEncoderMask mask) := by
  constructor
  · simp only [RunnerState.setTextSeqLen, RunnerState.setEncoderMask, List.map_map]
    exact h.joint
  · simp only [RunnerState.setTextSeqLen, RunnerState.setEncoderMask, List.map_map]
    exact h.single

theorem fits_ensureWrappers (h : r.Kept s) (len : Nat) (mask : Option X) :
    r.Fits (r.ensureWrappers s len mask) := by
  unfold ensureWrappers
  split
  next hlen => exact h (by rw [hlen]; rfl)
  next =>
    constructor
    · simp only [getJointBlockWrappers, List.map_map, Function.comp_def, List.map_id']
    · simp only [getSingleBlockWrappers, List.map_map, Function.comp_def, List.map_id']

theorem fits_readied (h : r.Kept s) (branch : CfgBranch X) : r.Fits (r.readied s branch) :=
  fits_set (fits_ensureWrappers h _ _) _ _

theorem readied_textSeqLen (s : RunnerState X E) (branch : CfgBranch X) :
    ∀ w ∈ (r.readied s branch).wrappers, w.textSeqLen = r.tokens branch.embeds := by
  intro w hw
  simp only [readied, RunnerState.wrappers, RunnerState.setTextSeqLen, RunnerState.setEncoderMask,
    List.map_map, List.mem_append, List.mem_map] at hw
  rcases hw with ⟨w', -, rfl⟩ | ⟨w', -, rfl⟩ <;> rfl

theorem readied_rest (s : RunnerState X E) (branch : CfgBranch X) :
    (r.readied s branch).calls = s.calls ∧ (r.readied s branch).cancelling = s.cancelling ∧
      (r.readied s branch).currentTextSeqLen = some (r.tokens branch.embeds) := by
  unfold readied ensureWrappers
  split
  next hlen => exact ⟨rfl, rfl, hlen⟩
  next => exact ⟨rfl, rfl, rfl⟩

variable {branch : CfgBranch X}

/-- Wrappers for the length of the branch stay, with their caches. -/
theorem caches_readied_of_eq
    (h : s.currentTextSeqLen = some (r.tokens branch.embeds)) :
    caches (r.readied s branch) = caches s := by
  rw [readied, caches_set, ensureWrappers, if_pos h]

/-- Wrappers for another length are replaced, and the caches are gone. -/
theorem caches_readied_of_ne
    (h : s.currentTextSeqLen ≠ some (r.tokens branch.embeds)) :
    ∀ c ∈ caches (r.readied s branch), c = none := by
  rw [readied, caches_set, ensureWrappers, if_neg h]
  intro c hc
  simp only [caches, RunnerState.wrappers, getJointBlockWrappers, getSingleBlockWrappers,
    List.map_append, List.map_map, List.mem_append, List.mem_map] at hc
  rcases hc with ⟨b, -, rfl⟩ | ⟨b, -, rfl⟩ <;> rfl

theorem caches_readied_of_none (branch : CfgBranch X) (h : ∀ c ∈ caches s, c = none) :
    ∀ c ∈ caches (r.readied s branch), c = none := by
  by_cases hlen : s.currentTextSeqLen = some (r.tokens branch.embeds)
  · rw [caches_readied_of_eq hlen]
    exact h
  · exact caches_readied_of_ne hlen

theorem Kept.resetAllCaches (h : r.Kept s) : r.Kept s.resetAllCaches := by
  refine fun hs => ⟨?_, ?_⟩
  · simp only [RunnerState.resetAllCaches, List.map_map]
    exact (h hs).joint
  · simp only [RunnerState.resetAllCaches, List.map_map]
    exact (h hs).single

theorem caches_resetAllCaches (s : RunnerState X E) :
    ∀ c ∈ caches s.resetAllCaches, c = none := by
  intro c hc
  obtain ⟨w, hw, rfl⟩ := List.mem_map.mp hc
  simp only [RunnerState.wrappers, RunnerState.resetAllCaches, ← List.map_append] at hw
  obtain ⟨w', -, rfl⟩ := List.mem_map.mp hw
  rfl

/-! ## Caches -/

/-- Each cache that is there has `n` entries. -/
def Sized (n : Nat) (s : RunnerState X E) : Prop :=
  ∀ c ∈ caches s, ∀ cache, c = some cache → cache.length = n

/-- All caches are there. -/
def Cached (n : Nat) (s : RunnerState X E) : Prop :=
  ∀ c ∈ caches s, ∃ cache, c = some cache ∧ cache.length = n

/-- All caches are there, and all entries are those of one branch. -/
def Owned (positive : Bool) (n : Nat) (s : RunnerState X E) : Prop :=
  ∀ c ∈ caches s, ∃ cache, c = some cache ∧ cache.length = n ∧ OwnedBy positive cache

variable {positive : Bool}

theorem Owned.cached (h : Owned positive n s) : Cached n s := by
  intro c hc
  obtain ⟨cache, hcache, hlen, -⟩ := h c hc
  exact ⟨cache, hcache, hlen⟩

theorem Cached.sized (h : Cached n s) : Sized n s := by
  intro c hc cache hcache
  obtain ⟨cache', hcache', hlen⟩ := h c hc
  rw [hcache] at hcache'
  obtain rfl := Option.some.inj hcache'
  exact hlen

theorem sized_of_none (h : ∀ c ∈ caches s, c = none) : Sized n s := by
  intro c hc cache hcache
  rw [h c hc] at hcache
  cases hcache

theorem sized_readied (h : Sized n s) (branch : CfgBranch X) : Sized n (r.readied s branch) := by
  by_cases hlen : s.currentTextSeqLen = some (r.tokens branch.embeds)
  · intro c hc
    rw [caches_readied_of_eq hlen] at hc
    exact h c hc
  · exact sized_of_none (caches_readied_of_ne hlen)

/-- What passes leave when all caches are filled. -/
structure Ran (r : DiffusionRunner X E Q) (n len : Nat) (quiet : Prop) (s s' : RunnerState X E) :
    Prop where
  fits : r.Fits s'
  currentTextSeqLen : s'.currentTextSeqLen = some len
  cancelling : Cancels quiet s.cancelling s'.cancelling
  cached : Cached n s'
  calls : s.calls <+: s'.calls

theorem Ran.trans {s₁ s₂ s₃ : RunnerState X E} {len' : Nat} (h : r.Ran n len quiet s₁ s₂)
    (h' : r.Ran n len' quiet s₂ s₃) : r.Ran n len' quiet s₁ s₃ where
  fits := h'.fits
  currentTextSeqLen := h'.currentTextSeqLen
  cancelling := h.cancelling.trans h'.cancelling
  cached := h'.cached
  calls := h.calls.trans h'.calls

theorem Ran.kept (h : r.Ran n len quiet s s') : r.Kept s' := fun _ => h.fits

theorem isolated_before {xs ys : List (BlockCall X)} (h : xs <+: ys) (hys : Isolated ys) :
    Isolated xs := by
  obtain ⟨zs, rfl⟩ := h
  exact (isolated_append.1 hys).1

variable {p : Pass X}

/-- A pass after `readied`, as a step from the state before it. -/
theorem Ran.of_pass
    (h : PassSpec r p n quiet (r.readied s branch) s') :
    r.Ran n (r.tokens branch.embeds) quiet s s' := by
  obtain ⟨hcalls, hcancel, hlen⟩ := readied_rest (r := r) s branch
  exact {
    fits := h.fits
    currentTextSeqLen := h.currentTextSeqLen.trans hlen
    cancelling := hcancel ▸ h.cancelling
    cached := by
      intro c hc
      obtain ⟨w, hw, rfl⟩ := List.mem_map.mp hc
      exact h.length w hw
    calls := by
      obtain ⟨new, hnew, -⟩ := h.calls
      rw [hnew, hcalls]
      exact List.prefix_append _ _ }

/-- When nothing outside is another branch's, the pass is isolated and owns all afterwards. -/
theorem owned_of_pass
    (h : PassSpec r p n quiet (r.readied s branch) s')
    (hown : ∀ w ∈ (r.readied s branch).wrappers, OwnedBy p.positive (outside p w)) :
    (Isolated s.calls → Isolated s'.calls) ∧ Owned p.positive n s' := by
  constructor
  · intro hiso
    obtain ⟨new, hnew, hnewiso⟩ := h.calls
    rw [hnew, (readied_rest s branch).1]
    exact isolated_append.2 ⟨hiso, hnewiso.mpr hown⟩
  · intro c hc
    obtain ⟨w, hw, rfl⟩ := List.mem_map.mp hc
    exact h.filled hown w hw

/-! ## Sync passes -/

/-- What a sync pass of a branch leaves. -/
structure SyncSpec (r : DiffusionRunner X E Q) (n : Nat) (quiet : Prop) (branch : CfgBranch X)
    (s s' : RunnerState X E) : Prop where
  ran : r.Ran n (r.tokens branch.embeds) quiet s s'
  isolated : Isolated s.calls → Isolated s'.calls
  owned : Owned branch.positive n s'

/-- The number of image tokens, conditioning included. -/
def condTokens (r : DiffusionRunner X E Q) (cond : Option X) : Nat :=
  match cond with
  | some cond => r.tokens cond
  | none => 0

theorem tokens_withCondLatents (hA : r.adapter.ShapeLaws) (x : X) (branch : CfgBranch X) :
    r.tokens (r.withCondLatents x branch) = r.tokens x + r.condTokens branch.condLatents := by
  unfold withCondLatents
  cases branch.condLatents with
  | none => rfl
  | some cond =>
    rw [tokens, hA.concatenate]
    simp only [List.map_cons, List.map_nil, List.sum_cons, List.sum_nil, Nat.add_zero]
    rfl

variable {t : Nat}

theorem runSyncPass_spec (hA : r.adapter.ShapeLaws) (hr : r.Placed) {x : X}
    {originalLatentTokens : Nat} (hfits : r.Fits s)
    (hsized : Sized n s) (hx : r.isFirstStage = true → r.tokens x = n) :
    Ends (Hears r.adapter quiet) (r.runSyncPass s t x branch n originalLatentTokens)
      (fun out => (r.isLastStage = true → ∃ noise, out.1 = some noise) ∧
        ∃ p : Pass X, p.mode = .caching ∧ p.positive = branch.positive ∧
          PassSpec r p n quiet
            ((s.setTextSeqLen (r.tokens branch.embeds)).setEncoderMask branch.mask) out.2)
      fun _ => False := by
  unfold runSyncPass
  dsimp only
  refine .bind ((stagePass_spec (n := n) hA hr (fits_set hfits _ _) ?_ ?_ ?_).imp ?_)
  · intro w hw
    have hc : w.kvCache ∈ caches s := by
      rw [← caches_set s (r.tokens branch.embeds) branch.mask]
      exact List.mem_map_of_mem hw
    refine ⟨?_, rfl, hsized _ hc⟩
    simp only [RunnerState.wrappers, RunnerState.setTextSeqLen, RunnerState.setEncoderMask,
      List.map_map, List.mem_append, List.mem_map] at hw
    rcases hw with ⟨w', -, rfl⟩ | ⟨w', -, rfl⟩ <;> rfl
  · intro hfirst
    simp only [hfirst, if_true]
    rw [(hA.embeddings _ _).1]
    exact hx hfirst
  · intro _ h
    have hfirst : r.isFirstStage = true := h.resolve_right Bool.noConfusion
    refine ⟨(r.adapter.computeEmbeddings x branch.embeds).2, by simp only [hfirst, if_true], ?_⟩
    rw [(hA.embeddings _ _).2]
    rfl
  · rintro ⟨x', e', s'⟩ ⟨-, hspec⟩
    dsimp only
    split
    next => exact .pure ⟨fun _ => ⟨_, rfl⟩, _, rfl, rfl, hspec⟩
    next hlast => exact .pure ⟨fun h => absurd h hlast, _, rfl, rfl, hspec⟩

theorem syncBranch_spec (hA : r.adapter.ShapeLaws) (hr : r.Placed) (hkept : r.Kept s)
    (hsized : Sized n s) {scaled : X}
    (hn : r.tokens scaled + r.condTokens branch.condLatents = n) :
    Ends (Hears r.adapter quiet) (r.syncBranch s t scaled branch)
      (fun out => (r.isLastStage = true → ∃ noise, out.1 = some noise) ∧
        r.SyncSpec n quiet branch s out.2)
      fun _ => False := by
  have hfits := fits_ensureWrappers hkept (r.tokens branch.embeds) branch.mask
  have hsized' : Sized n (r.ensureWrappers s (r.tokens branch.embeds) branch.mask) := by
    have h := sized_readied (r := r) hsized branch
    unfold Sized readied at h
    rwa [caches_set] at h
  have hspec : ∀ x, (r.isFirstStage = true → r.tokens x = n) →
      Ends (Hears r.adapter quiet) (r.runSyncPass
        (r.ensureWrappers s (r.tokens branch.embeds) branch.mask) t x branch n (r.tokens scaled))
        (fun out => (r.isLastStage = true → ∃ noise, out.1 = some noise) ∧
          r.SyncSpec n quiet branch s out.2) fun _ => False := by
    intro x hx
    refine (runSyncPass_spec hA hr hfits hsized' hx).imp ?_
    rintro ⟨noise, s'⟩ ⟨hnoise, p, hmode, hpos, hpass⟩
    have hown : ∀ w ∈ (r.readied s branch).wrappers, OwnedBy p.positive (outside p w) := by
      intro w _
      simp only [outside, hmode]
      exact fun e he => by cases he
    obtain ⟨hiso, howned⟩ := owned_of_pass hpass hown
    exact ⟨hnoise, .of_pass hpass, hiso, hpos ▸ howned⟩
  have hstep : r.isFirstStage = true → r.tokens (if r.isFirstStage = true
      then r.withCondLatents scaled branch else scaled) = n := by
    intro hfirst
    rw [if_pos hfirst, ← hn]
    exact tokens_withCondLatents hA scaled branch
  have himg : r.numImgTokens (r.tokens scaled) branch = n := by
    rw [← hn]
    unfold numImgTokens
    cases branch.condLatents <;> rfl
  unfold syncBranch
  dsimp only
  rw [himg]
  exact hspec _ hstep

/-! ## Async passes -/

/-- The patch is the whole cached image. -/
def Patch.Full (patch : Patch X) (n : Nat) : Prop := patch.start = 0 ∧ patch.stop = n

/-- A patch of the cached image, with its latents. -/
structure Patch.Fits (r : DiffusionRunner X E Q) (patch : Patch X) (n : Nat) : Prop where
  tokens : patch.start + r.tokens patch.latents = patch.stop
  stop_le : patch.stop ≤ n

/-- The text stream that a stage has kept from an earlier patch. -/
def HasText (r : DiffusionRunner X E Q) (len : Nat) (encoder : Option X) : Prop :=
  r.blocks.hasJointBlocks = true → ∃ e, encoder = some e ∧ r.tokens e = len

/-- What an async pass of a branch leaves. -/
structure AsyncSpec (r : DiffusionRunner X E Q) (n : Nat) (quiet : Prop) (branch : CfgBranch X)
    (patch : Patch X) (s s' : RunnerState X E) : Prop where
  ran : r.Ran n (r.tokens branch.embeds) quiet s s'
  owned : Owned branch.positive n s ∨ patch.Full n →
    (Isolated s.calls → Isolated s'.calls) ∧ Owned branch.positive n s'
  mixed : Owned (!branch.positive) n s → ¬ patch.Full n → ¬ Isolated s'.calls

variable {cache : ImagePatchKVCache E}

/-- What a patched pass reads from outside of its patch. -/
theorem outside_patched
    (hmode : p.mode = .patched) (hcache : w.kvCache = some cache) :
    outside p w = cache.take p.patchStart ++ cache.drop p.patchEnd := by
  simp only [outside, hmode, hcache, Option.getD_some]

theorem outside_of_owned
    (hmode : p.mode = .patched) (hcache : w.kvCache = some cache)
    (hown : OwnedBy positive cache) : OwnedBy positive (outside p w) := by
  rw [outside_patched hmode hcache]
  intro e he
  rcases List.mem_append.mp he with he | he
  · exact hown e (List.mem_of_mem_take he)
  · exact hown e (List.mem_of_mem_drop he)

theorem outside_full
    (hmode : p.mode = .patched) (hcache : w.kvCache = some cache) (hstart : p.patchStart = 0)
    (hstop : p.patchEnd = cache.length) : outside p w = [] := by
  rw [outside_patched hmode hcache, hstart, hstop, List.take_zero, List.drop_length,
    List.append_nil]

/-- Another branch's entries are not one's own. -/
theorem not_ownedBy_outside
    (hmode : p.mode = .patched) (hcache : w.kvCache = some cache)
    (hown : OwnedBy (!p.positive) cache) (hle : p.patchEnd ≤ cache.length)
    (hfull : ¬ (p.patchStart = 0 ∧ p.patchEnd = cache.length))
    (hrange : p.patchStart ≤ p.patchEnd) : ¬ OwnedBy p.positive (outside p w) := by
  intro h
  have hother := outside_of_owned hmode hcache hown
  have hlen : 0 < (outside p w).length := by
    rw [outside_patched hmode hcache, List.length_append, List.length_take, List.length_drop]
    omega
  obtain ⟨e, he⟩ := List.exists_mem_of_length_pos hlen
  have heq := (h e he).symm.trans (hother e he)
  cases hp : p.positive <;> rw [hp] at heq <;> cases heq

variable {encoder : Option X}

theorem runSinglePatchPass_spec (hA : r.adapter.ShapeLaws) (hr : r.Placed) {patch : Patch X}
    {x te rot : X} (hfits : r.Fits s)
    (hlen : ∀ w ∈ s.wrappers, w.textSeqLen = r.tokens branch.embeds) (hcached : Cached n s)
    (hx : patch.start + r.tokens x = patch.stop) (hstop : patch.stop ≤ n)
    (hencoder : patch.idx ≠ 0 → r.HasText (r.tokens branch.embeds) encoder) :
    Ends (Hears r.adapter quiet) (r.runSinglePatchPass s patch x branch te rot encoder)
      (fun out => (r.isLastStage = true → ∃ noise, out.1 = some noise) ∧
        r.HasText (r.tokens branch.embeds) out.2.1 ∧
        ∃ p : Pass X, p.mode = .patched ∧ p.positive = branch.positive ∧
          p.patchStart = patch.start ∧ p.patchEnd = patch.stop ∧
          PassSpec r p n quiet s out.2.2)
      fun _ => False := by
  unfold runSinglePatchPass
  dsimp only
  refine .bind ((stagePass_spec (n := n) hA hr hfits ?_ ?_ ?_).imp ?_)
  · intro w hw
    exact ⟨hlen w hw, hx, hstop, hcached _ (kvCache_mem_caches hw)⟩
  · intro hfirst
    simp only [hr.first hfirst, hfirst, Bool.and_true, if_true]
    rw [(hA.embeddings _ _).1]
    rfl
  · intro hjoint h
    by_cases hfirst : r.isFirstStage = true
    · refine ⟨(r.adapter.computeEmbeddings x branch.embeds).2, ?_, ?_⟩
      · simp only [hjoint, hfirst, Bool.and_true, if_true]
      · rw [(hA.embeddings _ _).2]
        rfl
    · obtain ⟨e, he, htokens⟩ :=
        hencoder (ne_of_beq_false (h.resolve_left hfirst)) hjoint
      refine ⟨e, ?_, htokens⟩
      simp only [hfirst, Bool.and_false, Bool.false_eq_true, if_false]
      exact he
  · rintro ⟨x', e', s'⟩ ⟨htext, hspec⟩
    dsimp only
    split
    next => exact .pure ⟨fun _ => ⟨_, rfl⟩, htext, _, rfl, rfl, rfl, rfl, hspec⟩
    next hlast => exact .pure ⟨fun h => absurd h hlast, htext, _, rfl, rfl, rfl, rfl, hspec⟩

theorem asyncBranch_spec (hA : r.adapter.ShapeLaws) (hr : r.Placed) (hkept : r.Kept s)
    {patch : Patch X} {x : X}
    (hlen : s.currentTextSeqLen = some (r.tokens branch.embeds)) (hcached : Cached n s)
    (hx : patch.start + r.tokens x = patch.stop) (hstop : patch.stop ≤ n)
    (hencoder : patch.idx ≠ 0 → r.HasText (r.tokens branch.embeds) encoder) :
    Ends (Hears r.adapter quiet) (r.asyncBranch s t patch x branch encoder)
      (fun out => (r.isLastStage = true → ∃ noise, out.1 = some noise) ∧
        r.HasText (r.tokens branch.embeds) out.2.1 ∧
        r.AsyncSpec n quiet branch patch s out.2.2)
      fun _ => False := by
  have hcaches := caches_readied_of_eq hlen
  have hcached' : Cached n (r.readied s branch) := fun c hc => hcached c (hcaches ▸ hc)
  refine (runSinglePatchPass_spec hA hr (fits_readied hkept branch)
    (readied_textSeqLen s branch) hcached' hx hstop hencoder).imp ?_
  rintro ⟨noise, e, s'⟩ ⟨hnoise, htext, p, hmode, hpos, hstart, hend, hpass⟩
  refine ⟨hnoise, htext, .of_pass hpass, ?_, ?_⟩
  · intro h
    rw [← hpos]
    refine owned_of_pass hpass fun w hw => ?_
    have hc : w.kvCache ∈ caches s := hcaches ▸ kvCache_mem_caches hw
    rcases h with h | ⟨h0, hn⟩
    · obtain ⟨cache, hcache, -, hown⟩ := h _ hc
      exact outside_of_owned hmode hcache (hpos ▸ hown)
    · obtain ⟨cache, hcache, hlength⟩ := hcached _ hc
      rw [outside_full hmode hcache (hstart.trans h0) (hend.trans (hn.trans hlength.symm))]
      exact fun e he => by cases he
  · intro hother hfull hiso
    -- some wrapper reads what the other branch wrote
    obtain ⟨w, hw⟩ := List.exists_mem_of_ne_nil _ ((fits_readied hkept branch).wrappers_ne_nil hr)
    obtain ⟨new, hnew, hnewiso⟩ := hpass.calls
    rw [hnew] at hiso
    have hown := hnewiso.mp (isolated_append.1 hiso).2 w hw
    obtain ⟨cache, hcache, hlength, hothers⟩ := hother _ (hcaches ▸ kvCache_mem_caches hw)
    refine not_ownedBy_outside hmode hcache (hpos ▸ hothers) ?_ ?_ ?_ hown
    · rw [hend, hlength]; exact hstop
    · rw [hstart, hend, hlength]; exact hfull
    · rw [hstart, hend]; omega

end DiffusionRunner

end Exo
