import Exo.Image.Patches
import Exo.Image.SingleNode

/-!
# CFG branches and the caches they share

There is one cache for each block, and on a pipeline without CFG ranks both branches use it. When
their texts have the same length, an async pass of one branch reads what the other one wrote,
unless a patch is the whole cached image; when the lengths differ, the wrappers are made anew for
each branch, and an async pass finds no cache.
-/

namespace Exo

open Lib

variable {X E Q : Type}

namespace DiffusionRunner

variable {r : DiffusionRunner X E Q} {n len : Nat} {s s' : RunnerState X E} {quiet : Prop}

/-! ## Results -/

/-- The results that `_combine_cfg_results` expects. -/
def Combinable (results : List Bool) : Prop :=
  (∃ positive, results = [positive]) ∨ results = [true, false]

theorem exchangeAndApplyGuidance_spec (hr : r.Placed) {noise : X} {positive : Bool}
    (hpar : r.topology.cfgParallel = true) (hlast : r.isLastStage = true) :
    Ends (Hears r.adapter quiet) (r.exchangeAndApplyGuidance s noise positive)
      (fun out => Heard quiet s out.2) fun _ => False := by
  obtain ⟨peer, hpeer⟩ := hr.peer hpar hlast
  unfold exchangeAndApplyGuidance
  refine .bind (.assertSome hpeer ?_)
  dsimp only
  split
  next => exact .bind (.send (.bind (.recvLike fun m hm => .pure (Heard.refl.heard hm))))
  next => exact .bind (.recvLike fun m hm => .bind (.send (.pure (Heard.refl.heard hm))))

variable {results : List (Bool × X)}

theorem combineCfgResults_spec (hr : r.Placed)
    (hlast : r.isLastStage = true) (h : Combinable (results.map Prod.fst)) :
    Ends (Hears r.adapter quiet) (r.combineCfgResults s results)
      (fun out => Heard quiet s out.2) fun _ => False := by
  rcases h with ⟨positive, h⟩ | h
  · obtain ⟨⟨b, noise⟩, rfl, -⟩ := List.map_eq_singleton_iff.mp h
    unfold combineCfgResults
    dsimp only
    split
    next hpar => exact exchangeAndApplyGuidance_spec hr (Bool.and_eq_true_iff.mp hpar).1 hlast
    next => exact .pure .refl
  · obtain ⟨⟨b, pos⟩, rest, rfl, hb, h⟩ := List.map_eq_cons_iff.mp h
    obtain ⟨⟨b', neg⟩, rest, rfl, hb', h⟩ := List.map_eq_cons_iff.mp h
    obtain rfl := List.map_eq_nil_iff.mp h
    obtain rfl : b = true := hb
    obtain rfl : b' = false := hb'
    exact .bind (.assertSome rfl (.bind (.assertSome rfl (.pure .refl))))

variable {branch : CfgBranch X}

theorem addResult_spec {noise : Option X}
    (h : r.isLastStage = true → ∃ x, noise = some x) :
    Ends (Hears r.adapter quiet) (r.addResult branch noise results)
      (fun out => r.isLastStage = true →
        out.map Prod.fst = results.map Prod.fst ++ [branch.positive])
      fun _ => False := by
  unfold addResult
  split
  next hlast =>
    obtain ⟨x, hx⟩ := h hlast
    exact .bind (.assertSome hx (.pure fun _ => List.map_append))
  next hlast => exact .pure fun h => absurd h hlast

/-! ## Sync steps -/

/-- The last pass was of this branch. -/
structure Recent (r : DiffusionRunner X E Q) (n : Nat) (branch : CfgBranch X)
    (s : RunnerState X E) : Prop where
  currentTextSeqLen : s.currentTextSeqLen = some (r.tokens branch.embeds)
  owned : Owned branch.positive n s

/-- What a sync step keeps. -/
structure SyncsSpec (r : DiffusionRunner X E Q) (n : Nat) (quiet : Prop)
    (s s' : RunnerState X E) : Prop where
  kept : r.Kept s'
  sized : Sized n s'
  cancelling : Cancels quiet s.cancelling s'.cancelling
  calls : s.calls <+: s'.calls
  isolated : Isolated s.calls → Isolated s'.calls

theorem SyncsSpec.refl (hkept : r.Kept s) (hsized : Sized n s) : r.SyncsSpec n quiet s s :=
  ⟨hkept, hsized, .refl _, List.prefix_rfl, id⟩

theorem SyncsSpec.trans {s₁ s₂ s₃ : RunnerState X E} (h : r.SyncsSpec n quiet s₁ s₂)
    (h' : r.SyncsSpec n quiet s₂ s₃) : r.SyncsSpec n quiet s₁ s₃ where
  kept := h'.kept
  sized := h'.sized
  cancelling := h.cancelling.trans h'.cancelling
  calls := h.calls.trans h'.calls
  isolated := h'.isolated ∘ h.isolated

theorem SyncSpec.syncsSpec (h : r.SyncSpec n quiet branch s s') :
    r.SyncsSpec n quiet s s' where
  kept := h.ran.kept
  sized := h.ran.cached.sized
  cancelling := h.ran.cancelling
  calls := h.ran.calls
  isolated := h.isolated

variable {s'' : RunnerState X E}

theorem SyncsSpec.heard (h : r.SyncsSpec n quiet s s')
    (hh : Heard quiet s' s'') : r.SyncsSpec n quiet s s'' := by
  obtain ⟨c, rfl, hc⟩ := hh
  exact ⟨fun hs => ⟨(h.kept hs).joint, (h.kept hs).single⟩, h.sized, h.cancelling.trans hc,
    h.calls, h.isolated⟩

theorem Recent.heard (h : r.Recent n branch s) (hh : Heard quiet s s') :
    r.Recent n branch s' := by
  obtain ⟨c, rfl, -⟩ := hh
  exact ⟨h.currentTextSeqLen, h.owned⟩

variable {t : Nat}

variable {branches : List (CfgBranch X)}

theorem syncBranches_spec (hA : r.adapter.ShapeLaws) (hr : r.Placed) {scaled : X}
    (hkept : r.Kept s)
    (hsized : Sized n s) (hn : ∀ b ∈ branches, r.tokens scaled + r.condTokens b.condLatents = n) :
    Ends (Hears r.adapter quiet) (r.syncBranches t scaled branches s results)
      (fun out => (r.isLastStage = true →
          out.1.map Prod.fst = results.map Prod.fst ++ branches.map CfgBranch.positive) ∧
        r.SyncsSpec n quiet s out.2 ∧
        ∀ b, branches.getLast? = some b ∨ branches = [] ∧ r.Recent n b s → r.Recent n b out.2)
      fun _ => False := by
  induction branches generalizing s results with
  | nil =>
    refine .pure ⟨fun _ => by simp, .refl hkept hsized, ?_⟩
    rintro b (h | ⟨-, h⟩)
    · cases h
    · exact h
  | cons branch branches ih =>
    obtain ⟨hn, hns⟩ := List.forall_mem_cons.mp hn
    refine .bind ((syncBranch_spec hA hr hkept hsized hn).imp ?_)
    rintro ⟨noise, s₁⟩ ⟨hnoise, hspec⟩
    refine .bind ((addResult_spec hnoise).imp fun results' hresults => ?_)
    refine (ih hspec.ran.kept hspec.ran.cached.sized hns).imp ?_
    rintro ⟨results'', s₂⟩ ⟨hall, hrest, hrecent⟩
    have hrecent₁ : r.Recent n branch s₁ := ⟨hspec.ran.currentTextSeqLen, hspec.owned⟩
    refine ⟨fun hlast => ?_, (hspec.syncsSpec).trans hrest, ?_⟩
    · rw [hall hlast, hresults hlast, List.map_cons, List.append_assoc, List.singleton_append]
    · rintro b (h | ⟨h, -⟩)
      · cases branches with
        | nil =>
          obtain rfl : branch = b := Option.some.inj h
          exact hrecent _ (.inr ⟨rfl, hrecent₁⟩)
        | cons b' branches => exact hrecent b (.inl h)
      · cases h

/-- The branches of a step, and which is the last. -/
theorem getCfgBranches_combinable (d : PromptData X) :
    Combinable ((r.getCfgBranches d).map CfgBranch.positive) := by
  unfold getCfgBranches
  split
  · exact .inl ⟨true, rfl⟩
  · split
    · exact .inl ⟨_, rfl⟩
    · exact .inr rfl

variable {d : PromptData X}

theorem condLatents_of_mem {b : CfgBranch X} (hb : b ∈ r.getCfgBranches d) :
    b.condLatents = d.conditioningLatents := by
  unfold getCfgBranches at hb
  split at hb
  · rw [List.mem_singleton.mp hb]; rfl
  · split at hb
    · rw [List.mem_singleton.mp hb]; rfl
    · rcases List.mem_cons.mp hb with rfl | hb
      · rfl
      · rw [List.mem_singleton.mp hb]; rfl

theorem getCfgBranches_ne_nil (d : PromptData X) : r.getCfgBranches d ≠ [] := by
  unfold getCfgBranches
  split
  · exact List.cons_ne_nil _ _
  · split <;> exact List.cons_ne_nil _ _

theorem syncPipelineStep_spec (hA : r.adapter.ShapeLaws) (hr : r.Placed) {latents : X}
    (hkept : r.Kept s) (hsized : Sized n s)
    (hn : r.tokens latents + r.condTokens d.conditioningLatents = n) :
    Ends (Hears r.adapter quiet) (r.syncPipelineStep t latents d s)
      (fun out => r.tokens out.1 = r.tokens latents ∧ r.SyncsSpec n quiet s out.2 ∧
        ∀ b, (r.getCfgBranches d).getLast? = some b → r.Recent n b out.2)
      fun _ => False := by
  have htokens : r.tokens (r.adapter.scaleModelInput latents t) = r.tokens latents := by
    rw [tokens, hA.scaleModelInput]; rfl
  unfold syncPipelineStep
  dsimp only
  refine .bind ((syncBranches_spec hA hr hkept hsized fun b hb => ?_).imp ?_)
  · rw [htokens, condLatents_of_mem hb]
    exact hn
  · rintro ⟨results, s₁⟩ ⟨hresults, hspec, hrecent⟩
    dsimp only
    split
    next hlast =>
      have hcomb : Combinable (results.map Prod.fst) := by
        rw [hresults hlast]
        exact getCfgBranches_combinable d
      refine .bind ((combineCfgResults_spec hr hlast hcomb).imp ?_)
      rintro ⟨noise, s₂⟩ hheard
      have hdone : r.SyncsSpec n quiet s s₂ ∧
          ∀ b, (r.getCfgBranches d).getLast? = some b → r.Recent n b s₂ :=
        ⟨hspec.heard hheard, fun b hb => (hrecent b (.inl hb)).heard hheard⟩
      dsimp only
      split
      next =>
        refine .pure ⟨?_, hdone⟩
        rw [tokens, hA.schedulerStep]
        rfl
      next =>
        refine .bind (.send (.pure ⟨?_, hdone⟩))
        rw [tokens, sent_shape hA, hA.schedulerStep]
        rfl
    next =>
      split
      next =>
        refine .recvLike fun m hm => ⟨congrArg Shape.tokens hm.1, ?_, fun b hb => ?_⟩
        · exact hspec.heard (Heard.refl.heard hm)
        · exact (hrecent b (.inl hb)).heard (Heard.refl.heard hm)
      next => exact .pure ⟨rfl, hspec, fun b hb => hrecent b (.inl hb)⟩

/-! ## Async steps -/

theorem Ran.heard (h : r.Ran n len quiet s s') (hh : Heard quiet s' s'') :
    r.Ran n len quiet s s'' := by
  obtain ⟨c, rfl, hc⟩ := hh
  exact ⟨⟨h.fits.joint, h.fits.single⟩, h.currentTextSeqLen, h.cancelling.trans hc, h.cached,
    h.calls⟩

/-- Ready for an async step. -/
theorem Ran.ready (h : r.Ran n len quiet s s') : r.Ran n len quiet s' s' :=
  ⟨h.fits, h.currentTextSeqLen, .refl _, h.cached, List.prefix_rfl⟩

/-- What async passes of `branches` leave: `full` says that each was of a whole image, `part` that
the first was not. -/
structure AsyncsSpec (r : DiffusionRunner X E Q) (n len : Nat) (quiet : Prop)
    (branches : List (CfgBranch X)) (full part : Prop) (s s' : RunnerState X E) : Prop where
  ran : r.Ran n len quiet s s'
  same : ∀ positive, (∀ b ∈ branches, b.positive = positive) → Owned positive n s →
    (Isolated s.calls → Isolated s'.calls) ∧ Owned positive n s'
  full : full → Isolated s.calls → Isolated s'.calls
  mixed : part → ∀ b ∈ branches.head?, Owned (!b.positive) n s → ¬ Isolated s'.calls

theorem AsyncsSpec.heard
    {full part : Prop} (h : r.AsyncsSpec n len quiet branches full part s s')
    (hh : Heard quiet s' s'') : r.AsyncsSpec n len quiet branches full part s s'' := by
  obtain ⟨c, rfl, hc⟩ := hh
  exact ⟨h.ran.heard ⟨c, rfl, hc⟩, h.same, h.full, h.mixed⟩

variable {encoder : Option X}

variable {patch : Patch X} {x : X}

theorem asyncBranches_spec (hA : r.adapter.ShapeLaws) (hr : r.Placed)
    (h : r.Ran n len quiet s s)
    (hlen : ∀ b ∈ branches, r.tokens b.embeds = len)
    (hx : patch.start + r.tokens x = patch.stop) (hstop : patch.stop ≤ n)
    (hencoder : patch.idx ≠ 0 → r.HasText len encoder) :
    Ends (Hears r.adapter quiet) (r.asyncBranches t patch x branches encoder s results)
      (fun out => (r.isLastStage = true →
          out.1.map Prod.fst = results.map Prod.fst ++ branches.map CfgBranch.positive) ∧
        (branches ≠ [] ∨ r.HasText len encoder → r.HasText len out.2.1) ∧
        r.AsyncsSpec n len quiet branches (patch.Full n) (¬ patch.Full n) s out.2.2)
      fun _ => False := by
  induction branches generalizing s encoder results with
  | nil =>
    refine .pure ⟨fun _ => by simp, fun h => h.resolve_left fun h => h rfl, h, ?_, ?_, ?_⟩
    · exact fun positive _ howned => ⟨id, howned⟩
    · exact fun _ => id
    · exact fun _ b hb => by cases hb
  | cons branch branches ih =>
    obtain ⟨rfl, hlens⟩ := List.forall_mem_cons.mp hlen
    refine .bind ((asyncBranch_spec hA hr h.kept h.currentTextSeqLen h.cached hx hstop
      hencoder).imp ?_)
    rintro ⟨noise, encoder₁, s₁⟩ ⟨hnoise, htext, hspec⟩
    refine .bind ((addResult_spec hnoise).imp fun results' hresults => ?_)
    refine (ih hspec.ran.ready hlens fun _ => htext).imp ?_
    rintro ⟨results'', encoder₂, s₂⟩ ⟨hall, htext₂, hrest⟩
    refine ⟨fun hlast => ?_, fun _ => htext₂ (.inr htext), hspec.ran.trans hrest.ran, ?_, ?_, ?_⟩
    · rw [hall hlast, hresults hlast, List.map_cons, List.append_assoc, List.singleton_append]
    · intro positive hpos howned
      obtain ⟨rfl, hposs⟩ := List.forall_mem_cons.mp hpos
      obtain ⟨hiso₁, howned₁⟩ := hspec.owned (.inl howned)
      obtain ⟨hiso₂, howned₂⟩ := hrest.same _ hposs howned₁
      exact ⟨hiso₂ ∘ hiso₁, howned₂⟩
    · exact fun hfull => hrest.full hfull ∘ (hspec.owned (.inr hfull)).1
    · intro hpart b hb howned hiso
      obtain rfl : branch = b := Option.some.inj hb
      exact hspec.mixed howned hpart (isolated_before hrest.ran.calls hiso)

variable {config : RuntimeConfig}

theorem finishPatch_spec (hA : r.adapter.ShapeLaws) (hr : r.Placed)
    (h : r.isLastStage = true → Combinable (results.map Prod.fst)) :
    Ends (Hears r.adapter quiet) (r.finishPatch t config patch results s)
      (fun out => r.tokens out.1 = r.tokens patch.latents ∧ Heard quiet s out.2)
      fun _ => False := by
  unfold finishPatch
  split
  next hlast =>
    refine .bind ((combineCfgResults_spec hr hlast (h hlast)).imp ?_)
    rintro ⟨noise, s₁⟩ hheard
    dsimp only
    split
    next =>
      refine .bind (.send (.pure ⟨?_, hheard⟩))
      rw [tokens, sent_shape hA, hA.schedulerStep]
      rfl
    next =>
      refine .pure ⟨?_, hheard⟩
      rw [tokens, hA.schedulerStep]
      rfl
  next => exact .pure ⟨rfl, .refl⟩

variable {isFirstAsyncStep : Bool}

theorem recvPatch_spec :
    Ends (Hears r.adapter quiet) (r.recvPatch s patch isFirstAsyncStep)
      (fun out => r.tokens out.1 = r.tokens patch.latents ∧ Heard quiet s out.2)
      fun _ => False := by
  unfold recvPatch
  split
  next => exact .recvLike fun m hm => ⟨congrArg Shape.tokens hm.1, Heard.refl.heard hm⟩
  next => exact .pure ⟨rfl, .refl⟩

variable {patches : List (Patch X)}

theorem asyncPatches_spec (hA : r.adapter.ShapeLaws) (hr : r.Placed)
    (h : r.Ran n len quiet s s)
    (hlen : ∀ b ∈ r.getCfgBranches d, r.tokens b.embeds = len)
    (hpatches : ∀ patch ∈ patches, patch.Fits r n)
    (hencoder : ∀ patch ∈ patches.head?, patch.idx ≠ 0 → r.HasText len encoder) :
    Ends (Hears r.adapter quiet) (r.asyncPatches t config d isFirstAsyncStep patches encoder s)
      (fun out => out.1.map r.tokens = patches.map (r.tokens ·.latents) ∧
        r.AsyncsSpec n len quiet (r.getCfgBranches d) (∀ patch ∈ patches, patch.Full n)
          (∃ patch ∈ patches.head?, ¬ patch.Full n) s out.2)
      fun _ => False := by
  induction patches generalizing s encoder with
  | nil =>
    refine .pure ⟨rfl, h, ?_, fun _ => id, ?_⟩
    · exact fun positive _ howned => ⟨id, howned⟩
    · rintro ⟨patch, hpatch, -⟩
      cases hpatch
  | cons patch patches ih =>
    obtain ⟨hfits, hpatches⟩ := List.forall_mem_cons.mp hpatches
    refine .bind ((recvPatch_spec).imp ?_)
    rintro ⟨x, s₀⟩ ⟨hx, hheard₀⟩
    have hx' : patch.start + r.tokens x = patch.stop := by rw [hx]; exact hfits.tokens
    refine .bind ((asyncBranches_spec hA hr (h.heard hheard₀).ready hlen hx' hfits.stop_le
      (hencoder patch rfl)).imp ?_)
    rintro ⟨results, encoder₁, s₁⟩ ⟨hresults, htext, hspec⟩
    have hcomb : r.isLastStage = true → Combinable (results.map Prod.fst) := by
      intro hlast
      rw [hresults hlast]
      exact getCfgBranches_combinable d
    refine .bind ((finishPatch_spec hA hr hcomb).imp ?_)
    rintro ⟨x', s₂⟩ ⟨hx', hheard₂⟩
    have hspec₂ := hspec.heard hheard₂
    refine .bind ((ih hspec₂.ran.ready hpatches
      fun _ _ _ => htext (.inl (getCfgBranches_ne_nil d))).imp ?_)
    rintro ⟨rest, s₃⟩ ⟨hrest, hspec₃⟩
    have hsame : s₀.calls = s.calls ∧ caches s₀ = caches s := by
      obtain ⟨c, rfl, -⟩ := hheard₀
      exact ⟨rfl, rfl⟩
    have howned₀ : ∀ positive, Owned positive n s → Owned positive n s₀ := fun positive howned =>
      (show ∀ c ∈ caches s₀, _ from hsame.2 ▸ howned)
    refine .pure ⟨?_, (h.heard hheard₀).trans (hspec₂.ran.trans hspec₃.ran), ?_, ?_, ?_⟩
    · rw [List.map_cons, List.map_cons, hrest, hx']
    · intro positive hpos howned
      obtain ⟨hiso₂, howned₂⟩ := hspec₂.same positive hpos (howned₀ positive howned)
      obtain ⟨hiso₃, howned₃⟩ := hspec₃.same positive hpos howned₂
      exact ⟨fun hiso => hiso₃ (hiso₂ (hsame.1 ▸ hiso)), howned₃⟩
    · intro hfull hiso
      obtain ⟨hfull, hfulls⟩ := List.forall_mem_cons.mp hfull
      exact hspec₃.full hfulls (hspec₂.full hfull (hsame.1 ▸ hiso))
    · rintro ⟨first, hfirst, hpart⟩ b hb howned hiso
      obtain rfl : patch = first := Option.some.inj hfirst
      exact hspec₂.mixed hpart b hb (howned₀ _ howned) (isolated_before hspec₃.ran.calls hiso)

/-! ## Patches of the latents -/

section Patches

variable {config : RuntimeConfig} {latents : X}

/-- The tokens of the latents of a generation. -/
def latentTokens (config : RuntimeConfig) : Nat := config.latentHeight * config.latentWidth

theorem createPatches_eq :
    r.createPatches latents config =
      (calculateTokenIndices (calculatePatchHeights config.latentHeight r.numPatches).1
        config.latentWidth).mapIdx fun idx range =>
          ⟨idx, r.adapter.slice latents range.1 (some range.2), range.1, range.2⟩ := rfl

/-- Each patch lies in the image. -/
theorem createPatches_fits (hA : r.adapter.ShapeLaws) (hr : r.Placed)
    (hlatents : r.tokens latents = latentTokens config) (hn : latentTokens config ≤ n) :
    ∀ patch ∈ r.createPatches latents config, patch.Fits r n := by
  intro patch hpatch
  rw [createPatches_eq, List.mem_mapIdx] at hpatch
  obtain ⟨i, hi, rfl⟩ := hpatch
  obtain ⟨hle, hstop⟩ := mem_tokenRanges (List.getElem_mem hi)
  rw [Nat.zero_add, sum_calculatePatchHeights config.latentHeight_pos hr.numPatches,
    Nat.mul_comm] at hstop
  have hshape := congrArg Shape.tokens (hA.slice latents
    ((calculateTokenIndices (calculatePatchHeights config.latentHeight r.numPatches).1
      config.latentWidth)[i]).1 (some ((calculateTokenIndices (calculatePatchHeights
        config.latentHeight r.numPatches).1 config.latentWidth)[i]).2))
  unfold tokens at hlatents
  unfold latentTokens at hlatents hn
  constructor
  · rw [tokens, hshape]
    dsimp only [Option.getD_some]
    rw [hlatents, Nat.min_eq_left hstop]
    omega
  · exact Nat.le_trans hstop hn

theorem createPatches_tokens (hA : r.adapter.ShapeLaws) (hr : r.Placed)
    (hlatents : r.tokens latents = latentTokens config) :
    ((r.createPatches latents config).map (r.tokens ·.latents)).sum = latentTokens config := by
  have hmap : (r.createPatches latents config).map (r.tokens ·.latents) =
      (calculateTokenIndices (calculatePatchHeights config.latentHeight r.numPatches).1
        config.latentWidth).map fun range => range.2 - range.1 := by
    have hfits := createPatches_fits hA hr hlatents (Nat.le_refl _)
    rw [createPatches_eq] at hfits ⊢
    refine List.ext_getElem (by simp) fun i hi hi' => ?_
    rw [List.getElem_map, List.getElem_map, List.getElem_mapIdx]
    have hpatch := (hfits _ (List.mem_mapIdx.mpr ⟨i, by simpa using hi, rfl⟩)).tokens
    exact Nat.eq_sub_of_add_eq' hpatch
  rw [hmap]
  exact (sum_tokenRanges _).trans (by
    rw [sum_calculatePatchHeights config.latentHeight_pos hr.numPatches, Nat.mul_comm]; rfl)

/-- One patch, and nothing of the cache beside it. -/
def WholeImage (r : DiffusionRunner X E Q) (config : RuntimeConfig) (cond : Option X) : Prop :=
  (calculatePatchHeights config.latentHeight r.numPatches).2 = 1 ∧ r.condTokens cond = 0

theorem createPatches_head (hr : r.Placed) (config : RuntimeConfig) (latents : X)
    (cond : Option X) (hn : latentTokens config + r.condTokens cond = n) :
    (∃ first ∈ (r.createPatches latents config).head?, first.idx = 0) ∧
      (r.WholeImage config cond → ∀ patch ∈ r.createPatches latents config, patch.Full n) ∧
      (¬ r.WholeImage config cond →
        ∃ patch ∈ (r.createPatches latents config).head?, ¬ patch.Full n) := by
  obtain ⟨first, rest, heights, hone, hmore⟩ :=
    head_calculatePatchHeights config.latentHeight_pos hr.numPatches
  rw [createPatches_eq, heights]
  simp only [calculateTokenIndices, tokenRanges, List.mapIdx_cons, List.head?_cons,
    Option.mem_some_iff, exists_eq_left', Nat.mul_zero, Nat.zero_add, Patch.Full, true_and]
  unfold latentTokens at hn
  constructor
  · rintro ⟨hpatches, hcond⟩
    obtain ⟨rfl, rfl⟩ := hone hpatches
    intro patch hpatch
    rw [tokenRanges, List.mapIdx_nil, List.mem_singleton] at hpatch
    rw [hpatch]
    exact ⟨rfl, by rw [← hn, hcond, Nat.mul_comm, Nat.add_zero]⟩
  · intro hwhole hstop
    have hle : config.latentWidth * config.latentHeight ≤ config.latentWidth * first := by
      rw [hstop, ← hn, Nat.mul_comm]
      exact Nat.le_add_right _ _
    have hheight : config.latentHeight ≤ first :=
      Nat.le_of_mul_le_mul_left hle config.latentWidth_pos
    have hpatches : (calculatePatchHeights config.latentHeight r.numPatches).2 = 1 := by
      refine Decidable.byContradiction fun hne => ?_
      have hlt := hmore hne
      omega
    refine hwhole ⟨hpatches, ?_⟩
    rw [(hone hpatches).1, Nat.mul_comm, ← hn] at hstop
    omega

end Patches

theorem asyncPipelineStep_spec (hA : r.adapter.ShapeLaws) (hr : r.Placed)
    {latents : X}
    (h : r.Ran n len quiet s s) (hlen : ∀ b ∈ r.getCfgBranches d, r.tokens b.embeds = len)
    (hlatents : r.tokens latents = latentTokens config)
    (hn : latentTokens config + r.condTokens d.conditioningLatents = n) :
    Ends (Hears r.adapter quiet) (r.asyncPipelineStep t config latents d isFirstAsyncStep s)
      (fun out => r.tokens out.1 = latentTokens config ∧
        r.AsyncsSpec n len quiet (r.getCfgBranches d)
          (r.WholeImage config d.conditioningLatents)
          (¬ r.WholeImage config d.conditioningLatents) s out.2)
      fun _ => False := by
  obtain ⟨⟨first, hfirst, hidx⟩, hwhole, hpart⟩ :=
    createPatches_head hr config latents d.conditioningLatents hn
  refine .bind ((asyncPatches_spec hA hr h hlen (createPatches_fits hA hr hlatents (by omega))
    fun patch hpatch hne => absurd ?_ hne).imp ?_)
  · rw [hfirst] at hpatch
    obtain rfl : first = patch := Option.some.inj hpatch
    exact hidx
  · rintro ⟨patchLatents, s'⟩ ⟨htokens, hspec⟩
    refine .pure ⟨?_, hspec.ran, hspec.same, hspec.full ∘ hwhole, hspec.mixed ∘ hpart⟩
    rw [← createPatches_tokens hA hr hlatents, ← htokens]
    cases patchLatents with
    | nil =>
      rw [Option.mem_def] at hfirst
      have hnil := congrArg List.length htokens
      rw [List.length_map, List.length_map, List.length_nil] at hnil
      rw [List.length_eq_zero_iff.mp hnil.symm] at hfirst
      cases hfirst
    | cons x xs => exact congrArg Shape.tokens (hA.concatenate x xs)

/-! ## An async pass without caches -/

variable {R : ArrayMsg X → ArrayMsg X → Prop}

/-- The rule for an assertion in a program that may fail. -/
theorem ends_assertSome {α : Type} {x : Option α}
    {e : AssertionError} {post : α → Prop} (h : ∀ a, x = some a → post a) :
    Ends R (assertSome x e) post fun _ => True := by
  cases x with
  | none => exact trivial
  | some a => exact h a rfl

variable {p : Pass X}

theorem attend_noCache {w : BlockWrapper X E} (hmode : p.mode = .patched)
    (hw : w.kvCache = none) (zero : E) (positive : Bool) (kv : List E) :
    (p.prepare w).attend zero positive kv = .error .noCache := by
  simp only [BlockWrapper.attend, BlockWrapper.cachePatchKv, Pass.prepare, BlockWrapper.setPatch,
    hmode, hw]

theorem jointBlocks_noCache (hmode : p.mode = .patched)
    (hne : s.jointBlockWrappers ≠ []) (hnone : ∀ w ∈ s.jointBlockWrappers, w.kvCache = none)
    (x e : X) : r.jointBlocks s p.prepare p.positive p.textEmbeddings p.rotaryEmbeddings x e =
      .error .noCache := by
  obtain ⟨w, ws, hws⟩ := List.exists_cons_of_ne_nil hne
  have hw : w.kvCache = none := hnone w (hws ▸ List.mem_cons_self)
  simp only [jointBlocks, hws, callJointBlocks, JointBlock.call, attend_noCache hmode hw]
  rfl

theorem singleBlocks_noCache (hmode : p.mode = .patched)
    (hne : s.singleBlockWrappers ≠ []) (hnone : ∀ w ∈ s.singleBlockWrappers, w.kvCache = none)
    (x : X) : r.singleBlocks s p.prepare p.positive p.textEmbeddings p.rotaryEmbeddings x =
      .error .noCache := by
  obtain ⟨w, ws, hws⟩ := List.exists_cons_of_ne_nil hne
  have hw : w.kvCache = none := hnone w (hws ▸ List.mem_cons_self)
  simp only [singleBlocks, hws, callSingleBlocks, SingleBlock.call, attend_noCache hmode hw]
  rfl

theorem recvStreams_heard
    :
    Ends R (r.recvStreams p s x encoder) (fun out => ∃ c, out.2.2 = { s with cancelling := c })
      fun _ => True := by
  unfold recvStreams
  split
  next => exact .pure ⟨s.cancelling, rfl⟩
  next =>
    refine .bind (ends_assertSome fun prev _ => .bind (.recv fun m _ => ?_))
    dsimp only
    split
    next =>
      refine .bind (.recv fun m' _ => .pure ⟨m'.sentinel || (m.sentinel || s.cancelling), ?_⟩)
      dsimp only
      rw [RunnerState.heard_eq, RunnerState.heard_eq]
    next => exact .pure ⟨_, RunnerState.heard_eq s _⟩

theorem jointStage_noCache
    (hmode : p.mode = .patched) (hfits : r.Fits s) (hnone : ∀ w ∈ s.wrappers, w.kvCache = none)
    (hjoint : r.blocks.hasJointBlocks = true) :
    Ends R (r.jointStage p s x encoder) (fun _ => False) fun _ => True := by
  unfold jointStage
  rw [if_pos hjoint]
  refine .bind ((recvStreams_heard).imp ?_)
  rintro ⟨x', encoder', s'⟩ ⟨c, rfl⟩
  have hne : s.jointBlockWrappers ≠ [] := by
    intro hnil
    have hlen := congrArg List.length hfits.joint
    rw [hnil, List.map_nil, List.length_nil, List.length_range'] at hlen
    simp only [AssignedBlocks.hasJointBlocks, decide_eq_true_eq] at hjoint
    omega
  refine .bind (ends_assertSome fun e _ => .bind (.compute_error
    (jointBlocks_noCache (s := { s with cancelling := c }) hmode hne
      (fun w hw => hnone w (List.mem_append_left _ hw)) _ _) trivial))

theorem recvConcatenated_heard :
    Ends R (r.recvConcatenated p s x) (fun out => ∃ c, out.2 = { s with cancelling := c })
      fun _ => True := by
  unfold recvConcatenated
  split
  next =>
    exact .bind (ends_assertSome fun prev _ => .recv fun m _ => ⟨_, RunnerState.heard_eq s _⟩)
  next => exact .pure ⟨s.cancelling, rfl⟩

theorem singleStage_noCache
    (hmode : p.mode = .patched) (hfits : r.Fits s) (hnone : ∀ w ∈ s.wrappers, w.kvCache = none)
    (hsingle : r.blocks.hasSingleBlocks = true) :
    Ends R (r.singleStage p s x) (fun _ => False) fun _ => True := by
  unfold singleStage
  rw [if_pos hsingle]
  refine .bind ((recvConcatenated_heard).imp ?_)
  rintro ⟨x', s'⟩ ⟨c, rfl⟩
  have hne : s.singleBlockWrappers ≠ [] := by
    intro hnil
    have hlen := congrArg List.length hfits.single
    rw [hnil, List.map_nil, List.length_nil, List.length_range'] at hlen
    simp only [AssignedBlocks.hasSingleBlocks, decide_eq_true_eq] at hsingle
    omega
  exact .bind (.compute_error
    (singleBlocks_noCache (s := { s with cancelling := c }) hmode hne
      (fun w hw => hnone w (List.mem_append_right _ hw)) _) trivial)

/-- A patched pass on wrappers without caches fails an assertion. -/
theorem stagePass_noCache (hr : r.Placed)
    (hfits : r.Fits s) (hmode : p.mode = .patched) (hnone : ∀ w ∈ s.wrappers, w.kvCache = none)
    :
    Ends R (r.stagePass p s x encoder) (fun _ => False) fun _ => True := by
  unfold stagePass
  by_cases hjoint : r.blocks.hasJointBlocks = true
  · exact .bind ((jointStage_noCache hmode hfits hnone hjoint).imp fun _ => False.elim)
  · have hsingle := hr.nonempty.resolve_left hjoint
    have howns : r.blocks.ownsConcatStage = false := by
      simp [AssignedBlocks.ownsConcatStage, hjoint]
    rw [jointStage, if_neg hjoint]
    refine .bind (.pure ?_)
    dsimp only
    rw [concatStage, howns, eq_false_of_ne_true hjoint]
    exact .bind (.pure (.bind ((singleStage_noCache hmode hfits hnone hsingle).imp
      fun _ => False.elim)))

/-- The first branch of a step finds no cache. -/
def Cacheless (r : DiffusionRunner X E Q) (d : PromptData X) (s : RunnerState X E) : Prop :=
  ∀ b ∈ (r.getCfgBranches d).head?, ∀ c ∈ caches (r.readied s b), c = none

theorem asyncBranch_noCache (hr : r.Placed) (hkept : r.Kept s)
    (hnone : ∀ c ∈ caches (r.readied s branch), c = none) :
    Ends R (r.asyncBranch s t patch x branch encoder) (fun _ => False) fun _ => True :=
  .bind ((stagePass_noCache hr (fits_readied hkept branch) rfl fun _ hw =>
    hnone _ (kvCache_mem_caches hw)).imp fun _ => False.elim)

theorem caches_readied_setCancelling (s : RunnerState X E) (c : Bool) (b : CfgBranch X) :
    caches (r.readied { s with cancelling := c } b) = caches (r.readied s b) := by
  unfold readied
  rw [caches_set, caches_set]
  unfold ensureWrappers
  dsimp only
  split <;> rfl

theorem asyncPatches_noCache (hr : r.Placed)
    (hkept : r.Kept s)
    (hne : patches ≠ []) (hnone : r.Cacheless d s) :
    Ends R (r.asyncPatches t config d isFirstAsyncStep patches encoder s) (fun _ => False)
      fun _ => True := by
  obtain ⟨patch, patches, rfl⟩ := List.exists_cons_of_ne_nil hne
  obtain ⟨b, bs, hbs⟩ := List.exists_cons_of_ne_nil (r.getCfgBranches_ne_nil d)
  have hb : ∀ c ∈ caches (r.readied s b), c = none := hnone b (by rw [hbs]; rfl)
  have hpass : ∀ s' : RunnerState X E, (∃ c, s' = { s with cancelling := c }) → ∀ x,
      Ends R (r.asyncBranches t patch x (r.getCfgBranches d) encoder s' []) (fun _ => False)
        fun _ => True := by
    rintro s' ⟨c, rfl⟩ x
    have hkept' : r.Kept { s with cancelling := c } :=
      fun hs => ⟨(hkept hs).joint, (hkept hs).single⟩
    rw [hbs]
    have hb' := (caches_readied_setCancelling (r := r) s c b).symm ▸ hb
    exact .bind ((asyncBranch_noCache hr hkept' hb').imp fun _ => False.elim)
  refine .bind ?_
  unfold recvPatch
  split
  next =>
    exact .recvLike fun m _ => .bind ((hpass _ ⟨_, RunnerState.heard_eq s _⟩ _).imp
      fun _ => False.elim)
  next => exact .pure (.bind ((hpass s ⟨s.cancelling, rfl⟩ _).imp fun _ => False.elim))

theorem asyncPipelineStep_noCache (hr : r.Placed)
    (hkept : r.Kept s) {latents : X}
    (hnone : r.Cacheless d s) :
    Ends R (r.asyncPipelineStep t config latents d isFirstAsyncStep s) (fun _ => False)
      fun _ => True := by
  obtain ⟨⟨first, hfirst, -⟩, -⟩ :=
    createPatches_head hr config latents none rfl
  have hne : r.createPatches latents config ≠ [] := by
    intro hnil
    rw [hnil] at hfirst
    cases hfirst
  exact .bind ((asyncPatches_noCache hr hkept hne hnone).imp fun _ => False.elim)

end DiffusionRunner

end Exo
