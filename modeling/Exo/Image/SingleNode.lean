import Exo.Image.BranchPass

/-!
# A single node

Without a group all wrappers stay in `caching` mode, and the caches are reset before each branch.
-/

namespace Exo

open Lib

variable {X E Q : Type}

namespace DiffusionRunner

variable {r : DiffusionRunner X E Q} {s s' : RunnerState X E}

/-- The wrappers of a runner that never ran a pass of a pipeline. -/
structure Alone (r : DiffusionRunner X E Q) (s : RunnerState X E) : Prop where
  kept : r.Kept s
  mode : ∀ w ∈ s.wrappers, w.setPatch .caching 0 0 = w
  textSeqLen : ∀ len, s.currentTextSeqLen = some len → ∀ w ∈ s.wrappers, w.textSeqLen = len

variable {f g : BlockWrapper X E → BlockWrapper X E}

variable {positive : Bool} {ws : List (BlockWrapper X E)}

theorem callJointBlocks_congr
    {te rot : X} (h : ∀ w ∈ ws, f w = g w) (x e : X) :
    r.callJointBlocks f positive te rot ws x e = r.callJointBlocks g positive te rot ws x e := by
  induction ws generalizing x e with
  | nil => rfl
  | cons w ws ih =>
    obtain ⟨hw, hws⟩ := List.forall_mem_cons.mp h
    simp only [callJointBlocks, hw, ih hws]

theorem callSingleBlocks_congr
    {te rot : X} (h : ∀ w ∈ ws, f w = g w) (x : X) :
    r.callSingleBlocks f positive te rot ws x = r.callSingleBlocks g positive te rot ws x := by
  induction ws generalizing x with
  | nil => rfl
  | cons w ws ih =>
    obtain ⟨hw, hws⟩ := List.forall_mem_cons.mp h
    simp only [callSingleBlocks, hw, ih hws]

theorem jointBlocks_congr (positive : Bool)
    (te rot x e : X) (h : ∀ w ∈ s.jointBlockWrappers, f w = g w) :
    r.jointBlocks s f positive te rot x e = r.jointBlocks s g positive te rot x e := by
  simp only [jointBlocks, callJointBlocks_congr h]

theorem singleBlocks_congr (positive : Bool)
    (te rot x : X) (h : ∀ w ∈ s.singleBlockWrappers, f w = g w) :
    r.singleBlocks s f positive te rot x = r.singleBlocks s g positive te rot x := by
  simp only [singleBlocks, callSingleBlocks_congr h]

/-- The wrappers of a forward pass. -/
def forwardState (r : DiffusionRunner X E Q) (s : RunnerState X E) (branch : CfgBranch X) :
    RunnerState X E :=
  if branch.mask.isSome then
    (r.ensureWrappers s (r.tokens branch.embeds) branch.mask).setEncoderMask branch.mask
  else r.ensureWrappers s (r.tokens branch.embeds) branch.mask

/-- Setting the mask changes nothing that matters here. -/
theorem Alone.setEncoderMask (h : r.Alone s) (mask : Option X) :
    r.Alone (s.setEncoderMask mask) := by
  refine ⟨fun hs => ⟨?_, (h.kept hs).single⟩, ?_, fun len hlen => ?_⟩
  · simp only [RunnerState.setEncoderMask, List.map_map]
    exact (h.kept hs).joint
  · intro w hw
    rcases List.mem_append.mp hw with hw | hw
    · obtain ⟨w', hw', rfl⟩ := List.mem_map.mp hw
      exact congrArg (·.setEncoderMask mask) (h.mode w' (List.mem_append_left _ hw'))
    · exact h.mode w (List.mem_append_right _ hw)
  · intro w hw
    rcases List.mem_append.mp hw with hw | hw
    · obtain ⟨w', hw', rfl⟩ := List.mem_map.mp hw
      exact h.textSeqLen len hlen w' (List.mem_append_left _ hw')
    · exact h.textSeqLen len hlen w (List.mem_append_right _ hw)

theorem Alone.ensureWrappers (h : r.Alone s) (len : Nat) (mask : Option X) :
    r.Alone (r.ensureWrappers s len mask) := by
  refine ⟨fun _ => fits_ensureWrappers h.kept len mask, ?_, ?_⟩
  · unfold DiffusionRunner.ensureWrappers
    split
    next => exact h.mode
    next =>
      intro w hw
      rcases List.mem_append.mp hw with hw | hw <;> obtain ⟨b, -, rfl⟩ := List.mem_map.mp hw <;> rfl
  · unfold DiffusionRunner.ensureWrappers
    split
    next => exact h.textSeqLen
    next =>
      intro len' hlen' w hw
      obtain rfl := Option.some.inj hlen'
      rcases List.mem_append.mp hw with hw | hw <;> obtain ⟨b, -, rfl⟩ := List.mem_map.mp hw <;> rfl

theorem Alone.resetAllCaches (h : r.Alone s) : r.Alone s.resetAllCaches := by
  have hmem : ∀ w ∈ s.resetAllCaches.wrappers, ∃ w' ∈ s.wrappers, w'.resetCache = w := by
    intro w hw
    simp only [RunnerState.wrappers, RunnerState.resetAllCaches, ← List.map_append] at hw
    exact List.mem_map.mp hw
  refine ⟨h.kept.resetAllCaches, fun w hw => ?_, fun len hlen w hw => ?_⟩
  · obtain ⟨w', hw', rfl⟩ := hmem w hw
    exact congrArg BlockWrapper.resetCache (h.mode w' hw')
  · obtain ⟨w', hw', rfl⟩ := hmem w hw
    exact h.textSeqLen len hlen w' hw'

theorem Alone.forwardState (h : r.Alone s) (branch : CfgBranch X) :
    r.Alone (r.forwardState s branch) := by
  unfold DiffusionRunner.forwardState
  split
  · exact (h.ensureWrappers _ _).setEncoderMask _
  · exact h.ensureWrappers _ _

theorem forwardState_rest (s : RunnerState X E) (branch : CfgBranch X) :
    (r.forwardState s branch).calls = s.calls ∧
      (r.forwardState s branch).cancelling = s.cancelling ∧
      (r.forwardState s branch).currentTextSeqLen = some (r.tokens branch.embeds) := by
  unfold forwardState
  split <;> exact readied_rest s branch

theorem caches_setEncoderMask (s : RunnerState X E) (mask : Option X) :
    caches (s.setEncoderMask mask) = caches s := by
  simp only [caches, RunnerState.wrappers, RunnerState.setEncoderMask, List.map_append,
    List.map_map]
  rfl

theorem forwardState_caches (branch : CfgBranch X) (h : ∀ c ∈ caches s, c = none) :
    ∀ c ∈ caches (r.forwardState s branch), c = none := by
  intro c hc
  refine caches_readied_of_none (r := r) branch h c ?_
  unfold readied
  rw [caches_set]
  unfold forwardState at hc
  split at hc
  · rwa [caches_setEncoderMask] at hc
  · exact hc

/-- What a forward pass on empty caches leaves. -/
structure ForwardSpec (r : DiffusionRunner X E Q) (s s' : RunnerState X E) : Prop where
  alone : r.Alone s'
  cancelling : s'.cancelling = s.cancelling
  isolated : Isolated s.calls → Isolated s'.calls

theorem forwardPass_spec (hA : r.adapter.ShapeLaws) (hr : r.Placed)
    (hfirst : r.isFirstStage = true) (h : r.Alone s) (hnone : ∀ c ∈ caches s, c = none) (t : Nat)
    (latents : X) (branch : CfgBranch X) :
    ∃ noise s', r.forwardPass s t latents branch = .ok (noise, s') ∧ r.ForwardSpec s s' := by
  have halone := h.forwardState branch
  obtain ⟨hcalls, hcancel, hlen⟩ := forwardState_rest (r := r) s branch
  have hcaches := forwardState_caches (r := r) branch hnone
  unfold forwardPass
  generalize hs : r.forwardState s branch = s₁ at *
  have hs' : (if branch.mask.isSome = true then
      (r.ensureWrappers s (r.tokens branch.embeds) branch.mask).setEncoderMask branch.mask
    else r.ensureWrappers s (r.tokens branch.embeds) branch.mask) = s₁ := hs
  simp only [hs']
  generalize r.withCondLatents (r.adapter.scaleModelInput latents t) branch = x
  obtain ⟨hx, he⟩ := hA.embeddings x branch.embeds
  generalize r.adapter.computeEmbeddings x branch.embeds = embedded at *
  generalize hte : r.adapter.computeTextEmbeddings t (pooledEmbeds branch) (some embedded.1) = te
  generalize hrot : r.adapter.computeRotaryEmbeddings branch.embeds branch.mask = rot
  -- the pass that a pipeline would make of it
  let p : Pass X := ⟨branch.positive, .caching, 0, 0, true, 0, r.tokens embedded.1,
    r.tokens branch.embeds, te, rot⟩
  have hready : ∀ w ∈ s₁.wrappers, w.textSeqLen = p.textSeqLen ∧ Ready p p.imgTokens w := by
    intro w hw
    refine ⟨halone.textSeqLen _ hlen w hw, rfl, fun cache hcache => ?_⟩
    rw [hcaches _ (kvCache_mem_caches hw)] at hcache
    cases hcache
  have hid : ∀ w ∈ s₁.wrappers, id w = p.prepare w := fun w hw => (halone.mode w hw).symm
  have hetokens : r.tokens embedded.2 = p.textSeqLen := by rw [tokens, he]; rfl
  obtain ⟨x', e', ws, calls, hjoint, hx', he', hjs⟩ := jointBlocks_spec (p := p) (s := s₁) hA
    (fun w hw => hready w (List.mem_append_left _ hw)) rfl hetokens
  have hjoint' := (jointBlocks_congr (r := r) branch.positive te rot embedded.1 embedded.2
    fun w hw => hid w (List.mem_append_left _ hw)).trans hjoint
  have hmerged : (r.adapter.shape (r.adapter.mergeStreams x' e')).tokens =
      p.textSeqLen + p.imgTokens := by
    rw [hA.mergeStreams, hx', he']
  obtain ⟨x'', ws', calls', hsingle, hss⟩ := singleBlocks_spec (p := p)
    (s := { s₁ with jointBlockWrappers := ws, calls := s₁.calls ++ calls }) hA
    (fun w hw => hready w (List.mem_append_right _ hw)) hmerged
  have hsingle' := (singleBlocks_congr (r := r)
    (s := { s₁ with jointBlockWrappers := ws, calls := s₁.calls ++ calls }) branch.positive te rot
    (r.adapter.mergeStreams x' e')
    fun w hw => hid w (List.mem_append_right _ hw)).trans hsingle
  have hfits := halone.kept (by rw [hlen]; rfl)
  have hne : ws.isEmpty = false := by
    have hlenj := congrArg List.length (hjs.blocks.trans hfits.joint)
    have hjb := hr.first hfirst
    simp only [AssignedBlocks.hasJointBlocks, decide_eq_true_eq] at hjb
    rw [List.length_map, List.length_range'] at hlenj
    rw [List.isEmpty_eq_false_iff, ← List.length_pos_iff]
    omega
  simp only [hjoint', bind, Except.bind, hne, Bool.false_eq_true, if_false, hsingle']
  refine ⟨_, _, rfl, ⟨fun _ => ?_, ?_, ?_⟩, hcancel, fun hiso => ?_⟩
  · exact ⟨hjs.blocks.trans hfits.joint, hss.blocks.trans hfits.single⟩
  · exact fun w hw => (List.mem_append.mp hw).elim (hjs.prepared w) (hss.prepared w)
  · intro len hlen' w hw
    obtain rfl : r.tokens branch.embeds = len := Option.some.inj (hlen.symm.trans hlen')
    exact (List.mem_append.mp hw).elim (hjs.textSeqLen w) (hss.textSeqLen w)
  · have hown : ∀ w : BlockWrapper X E, OwnedBy p.positive (outside p w) :=
      fun w e he => by cases he
    refine isolated_append.2 ⟨isolated_append.2 ⟨hcalls ▸ hiso, ?_⟩, ?_⟩
    · exact hjs.isolated.mpr fun w _ => hown w
    · exact hss.isolated.mpr fun w _ => hown w

theorem singleNodeBranches_spec (hA : r.adapter.ShapeLaws) (hr : r.Placed)
    (hfirst : r.isFirstStage = true) (h : r.Alone s) (t : Nat) (latents : X)
    (branches : List (CfgBranch X)) :
    ∃ results s', r.singleNodeBranches t latents branches s = .ok (results, s') ∧
      results.map Prod.fst = branches.map CfgBranch.positive ∧ r.ForwardSpec s s' := by
  induction branches generalizing s with
  | nil => exact ⟨[], s, rfl, rfl, h, rfl, id⟩
  | cons branch branches ih =>
    obtain ⟨noise, s₁, hpass, hspec⟩ := forwardPass_spec hA hr hfirst h.resetAllCaches
      (caches_resetAllCaches s) t latents branch
    obtain ⟨results, s₂, hrest, hpos, hspec₂⟩ := ih hspec.alone
    refine ⟨(branch.positive, noise) :: results, s₂, ?_, ?_, hspec₂.alone, ?_, ?_⟩
    · simp only [singleNodeBranches, hpass, bind, Except.bind, hrest]
      rfl
    · rw [List.map_cons, List.map_cons, hpos]
    · exact hspec₂.cancelling.trans hspec.cancelling
    · exact hspec₂.isolated ∘ hspec.isolated

end DiffusionRunner

end Exo
