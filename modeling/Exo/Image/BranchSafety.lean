import Exo.Image.BranchIsolation

/-!
# CFG branches over whole generations

The sync steps of a generation leave the caches to the last branch of a step. What the first
branch of the first async step finds there decides about the generation.
-/

namespace Exo

open Lib

variable {X E Q : Type}

open DiffusionRunner in
/-- What a runner is asked for. The latents are those of the config. -/
structure DiffusionRequest (A : ModelAdapter X E Q) where
  config : RuntimeConfig
  latents : X
  prompt : PromptData X
  numSyncSteps : Nat
  cancelChecker : Nat → Bool
  latents_tokens : (A.shape latents).tokens = latentTokens config

/-- The first step that a pipeline of more than one stage makes in patches. -/
def DiffusionRequest.firstAsync {A : ModelAdapter X E Q} (g : DiffusionRequest A) : Nat :=
  g.config.initTimeStep + g.numSyncSteps

namespace DiffusionRunner

variable {r : DiffusionRunner X E Q} {g : DiffusionRequest r.adapter} {s s' : RunnerState X E}
  {quiet : Prop} {t : Nat} {latents : X}

/-- The number of tokens in a cache. -/
def cachedTokens (r : DiffusionRunner X E Q) (g : DiffusionRequest r.adapter) : Nat :=
  latentTokens g.config + r.condTokens g.prompt.conditioningLatents

/-- The runner gets to the async steps, if nobody else cancels. -/
def ReachesAsync (r : DiffusionRunner X E Q) (g : DiffusionRequest r.adapter) : Prop :=
  r.group = true ∧ r.topology.pipelineWorldSize ≠ 1 ∧
    g.firstAsync < g.config.numInferenceSteps ∧
    (r.isFirstStage = true → ∀ u < g.firstAsync, g.cancelChecker u = false)

/-- There was a sync step, and there is one branch, or each patch is all that is cached. -/
def BranchesFit (r : DiffusionRunner X E Q) (g : DiffusionRequest r.adapter) : Prop :=
  0 < g.firstAsync ∧ (r.adapter.needsCfg = false ∨ r.topology.cfgParallel = true ∨
    r.tokens (g.prompt.embeds true) = r.tokens (g.prompt.embeds false) ∧
      r.WholeImage g.config g.prompt.conditioningLatents)

/-- What is safe: a runner that gets to the async steps has branches that fit. -/
def KeepsApart (r : DiffusionRunner X E Q) (g : DiffusionRequest r.adapter) : Prop :=
  r.ReachesAsync g → r.BranchesFit g

/-! ## The branches -/

/-- The branches of a step: one, or the positive and then the negative one. -/
theorem getCfgBranches_cases (r : DiffusionRunner X E Q) (d : PromptData X) :
    (∃ b, r.getCfgBranches d = [b] ∧
      (r.adapter.needsCfg = false ∨ r.topology.cfgParallel = true)) ∨
    r.getCfgBranches d = [d.getCfgBranchData true, d.getCfgBranchData false] ∧
      r.adapter.needsCfg = true ∧ r.topology.cfgParallel = false := by
  unfold getCfgBranches
  cases hcfg : r.adapter.needsCfg with
  | false => exact .inl ⟨_, rfl, .inl rfl⟩
  | true =>
    cases hpar : r.topology.cfgParallel with
    | true => exact .inl ⟨_, rfl, .inr rfl⟩
    | false => exact .inr ⟨rfl, rfl, rfl⟩

/-! ## Ready for async steps -/

/-- Before an async step: the caches are there for all branches. -/
structure AsyncReady (r : DiffusionRunner X E Q) (g : DiffusionRequest r.adapter) (quiet : Prop)
    (len : Nat) (s : RunnerState X E) : Prop where
  ran : r.Ran (r.cachedTokens g) len quiet s s
  lens : ∀ b ∈ r.getCfgBranches g.prompt, r.tokens b.embeds = len
  apart : r.BranchesFit g → r.WholeImage g.config g.prompt.conditioningLatents ∨
    ∃ positive, (∀ b ∈ r.getCfgBranches g.prompt, b.positive = positive) ∧
      Owned positive (r.cachedTokens g) s
  shared : ¬ r.BranchesFit g → ¬ Isolated s.calls ∨
    ¬ r.WholeImage g.config g.prompt.conditioningLatents ∧
      ∀ b ∈ (r.getCfgBranches g.prompt).head?, Owned (!b.positive) (r.cachedTokens g) s

/-- After the last sync step: the caches are there for all branches, or the first branch finds
none. -/
theorem asyncReady_or_cacheless (hpos : 0 < g.firstAsync) (hkept : r.Kept s)
    (hrecent : ∀ b, (r.getCfgBranches g.prompt).getLast? = some b →
      r.Recent (r.cachedTokens g) b s) :
    (∃ len, r.AsyncReady g quiet len s) ∨ ¬ r.BranchesFit g ∧ r.Cacheless g.prompt s := by
  have hran : ∀ b, r.Recent (r.cachedTokens g) b s →
      r.Ran (r.cachedTokens g) (r.tokens b.embeds) quiet s s := by
    intro b hb
    have hfits : r.Fits s := hkept (by rw [hb.currentTextSeqLen]; rfl)
    exact ⟨hfits, hb.currentTextSeqLen, .refl _, hb.owned.cached, List.prefix_rfl⟩
  rcases r.getCfgBranches_cases g.prompt with ⟨b, hbs, hone⟩ | ⟨hbs, hcfg, hpar⟩
  · have hb := hrecent b (by rw [hbs]; rfl)
    have hmem : ∀ b' ∈ r.getCfgBranches g.prompt, b' = b := by
      rw [hbs]
      exact fun b' => List.mem_singleton.mp
    have hfit : r.BranchesFit g := ⟨hpos, hone.imp_right .inl⟩
    refine .inl ⟨_, hran b hb, fun b' hb' => by rw [hmem b' hb'], fun _ => .inr
      ⟨b.positive, fun b' hb' => by rw [hmem b' hb'], hb.owned⟩, fun hnot => absurd hfit hnot⟩
  · have hb := hrecent (g.prompt.getCfgBranchData false) (by rw [hbs]; rfl)
    by_cases hlen : r.tokens (g.prompt.embeds true) = r.tokens (g.prompt.embeds false)
    · refine .inl ⟨_, hran _ hb, ?_, fun hfit => ?_, fun hnot => .inr ⟨?_, ?_⟩⟩
      · rw [hbs]
        intro b' hb'
        rcases List.mem_cons.mp hb' with rfl | hb'
        · exact hlen
        · rw [List.mem_singleton.mp hb']
      · rcases hfit.2 with h | h | h
        · rw [hcfg] at h; cases h
        · rw [hpar] at h; cases h
        · exact .inl h.2
      · exact fun hwhole => hnot ⟨hpos, .inr (.inr ⟨hlen, hwhole⟩)⟩
      · rw [hbs]
        intro b' hb'
        obtain rfl := Option.some.inj hb'
        exact hb.owned
    · refine .inr ⟨fun hfit => ?_, ?_⟩
      · rcases hfit.2 with h | h | h
        · rw [hcfg] at h; cases h
        · rw [hpar] at h; cases h
        · exact hlen h.1
      · -- the wrappers are for the length of the negative branch
        rw [Cacheless, hbs]
        intro b' hb'
        obtain rfl := Option.some.inj hb'
        refine caches_readied_of_ne ?_
        rw [hb.currentTextSeqLen]
        exact fun heq => hlen (Option.some.inj heq).symm

theorem AsyncReady.step {len : Nat} {full part : Prop} (h : r.AsyncReady g quiet len s)
    (hfull : r.WholeImage g.config g.prompt.conditioningLatents → full)
    (hpart : ¬ r.WholeImage g.config g.prompt.conditioningLatents → part)
    (hspec : r.AsyncsSpec (r.cachedTokens g) len quiet (r.getCfgBranches g.prompt) full part s s') :
    r.AsyncReady g quiet len s' ∧ (r.BranchesFit g → Isolated s.calls → Isolated s'.calls) ∧
      (¬ r.BranchesFit g → ¬ Isolated s'.calls) := by
  have hmixed : ¬ r.BranchesFit g → ¬ Isolated s'.calls := by
    intro hnot hiso
    rcases h.shared hnot with hbad | ⟨hnotwhole, hhead⟩
    · exact hbad (isolated_before hspec.ran.calls hiso)
    · obtain ⟨b, bs, hbs⟩ := List.exists_cons_of_ne_nil (r.getCfgBranches_ne_nil g.prompt)
      have hb : b ∈ (r.getCfgBranches g.prompt).head? := by rw [hbs]; rfl
      exact hspec.mixed (hpart hnotwhole) b hb (hhead b hb) hiso
  refine ⟨⟨hspec.ran.ready, h.lens, fun hfit => ?_, fun hnot => .inl (hmixed hnot)⟩, ?_, hmixed⟩
  · exact (h.apart hfit).imp_right fun ⟨positive, hpos, howned⟩ =>
      ⟨positive, hpos, (hspec.same positive hpos howned).2⟩
  · intro hfit
    rcases h.apart hfit with hwhole | ⟨positive, hpos, howned⟩
    · exact hspec.full (hfull hwhole)
    · exact (hspec.same positive hpos howned).1

/-! ## The loop -/

/-- Step `t` of a pipeline goes through all stages before the next one starts. -/
def Syncs (r : DiffusionRunner X E Q) (g : DiffusionRequest r.adapter) (t : Nat) : Prop :=
  r.topology.pipelineWorldSize = 1 ∨ t < g.firstAsync

/-- What holds of a pipeline before step `t`. -/
structure Going (r : DiffusionRunner X E Q) (g : DiffusionRequest r.adapter) (quiet : Prop)
    (t : Nat) (latents : X) (s : RunnerState X E) : Prop where
  kept : r.Kept s
  sized : Sized (r.cachedTokens g) s
  tokens : r.tokens latents = latentTokens g.config
  isolated : r.KeepsApart g → Isolated s.calls
  unasked : r.isFirstStage = true → ∀ u < t, g.cancelChecker u = false
  ready : ¬ r.Syncs g t → t < g.config.numInferenceSteps → r.ReachesAsync g ∧
    ((∃ len, r.AsyncReady g quiet len s) ∨ ¬ r.BranchesFit g ∧ r.Cacheless g.prompt s)
  calm : quiet → ¬ r.KeepsApart g → t ≤ g.firstAsync → s.cancelling = false
  mixed : quiet → ¬ r.KeepsApart g → g.firstAsync < t → ¬ Isolated s.calls

/-- What holds of a pipeline when it leaves the loop. -/
structure Left (r : DiffusionRunner X E Q) (g : DiffusionRequest r.adapter) (quiet : Prop)
    (s : RunnerState X E) : Prop where
  kept : r.Kept s
  isolated : r.KeepsApart g → Isolated s.calls
  mixed : quiet → ¬ r.KeepsApart g → ¬ Isolated s.calls

theorem checkCancellation_eq (s : RunnerState X E) (cancel : Bool) :
    r.checkCancellation s cancel =
      { s with cancelling := s.cancelling || (r.isFirstStage && cancel) } := by
  obtain ⟨c, js, ss, len, calls⟩ := s
  unfold checkCancellation
  cases c with
  | true => rfl
  | false => cases r.isFirstStage && cancel <;> rfl

theorem Kept.setCancelling (h : r.Kept s) (c : Bool) : r.Kept { s with cancelling := c } :=
  fun hs => ⟨(h hs).joint, (h hs).single⟩

theorem not_keepsApart (h : ¬ r.KeepsApart g) : r.ReachesAsync g ∧ ¬ r.BranchesFit g :=
  Classical.not_imp.mp h

/-- A step that does not end a generation was not to be cancelled. -/
theorem Going.unasked_succ (h : r.Going g quiet t latents s)
    (hcancel : Cancels quiet (s.cancelling || (r.isFirstStage && g.cancelChecker t)) s'.cancelling)
    (hgoes : s'.cancelling = false) :
    r.isFirstStage = true → ∀ u < t + 1, g.cancelChecker u = false := by
  intro hfirst u hu
  rcases Nat.lt_succ_iff_lt_or_eq.mp hu with hu | rfl
  · exact h.unasked hfirst u hu
  · by_contra hcheck
    have hstays := hcancel.stays (by
      rw [hfirst, eq_true_of_ne_false hcheck, Bool.and_true, Bool.or_true])
    rw [hgoes] at hstays
    cases hstays

theorem syncStep_going (hA : r.adapter.ShapeLaws) (hr : r.Placed) (hgroup : r.group = true)
    (h : r.Going g quiet t latents s) (hsync : r.Syncs g t) :
    Ends (Hears r.adapter quiet)
      (r.syncPipelineStep t latents g.prompt (r.checkCancellation s (g.cancelChecker t)))
      (fun out => (out.2.cancelling = true → r.Left g quiet out.2) ∧
        (out.2.cancelling = false → r.Going g quiet (t + 1) out.1 out.2))
      fun _ => False := by
  rw [checkCancellation_eq]
  have hn : r.tokens latents + r.condTokens g.prompt.conditioningLatents = r.cachedTokens g := by
    rw [h.tokens, cachedTokens]
  have hkept := h.kept.setCancelling (s.cancelling || (r.isFirstStage && g.cancelChecker t))
  refine (syncPipelineStep_spec hA hr hkept h.sized hn).imp ?_
  rintro ⟨latents', s'⟩ ⟨htokens, hspec, hrecent⟩
  have hiso : r.KeepsApart g → Isolated s'.calls := fun hok => hspec.isolated (h.isolated hok)
  -- a run that is to be shown mixed cannot be left before the async steps
  have hcalm : quiet → ¬ r.KeepsApart g → t < g.firstAsync ∧ s'.cancelling = false := by
    intro hq hbad
    obtain ⟨⟨-, hstages, -, hchecker⟩, -⟩ := not_keepsApart hbad
    have hlt : t < g.firstAsync := hsync.resolve_left hstages
    refine ⟨hlt, (hspec.cancelling.quiet hq).trans ?_⟩
    dsimp only
    rw [h.calm hq hbad (Nat.le_of_lt hlt), Bool.false_or]
    cases hfirst : r.isFirstStage with
    | false => rfl
    | true => exact hchecker hfirst t hlt
  refine ⟨fun hcancel => ⟨hspec.kept, hiso, fun hq hbad => ?_⟩, fun hcancel => ?_⟩
  · rw [(hcalm hq hbad).2] at hcancel
    cases hcancel
  · have hunasked := h.unasked_succ hspec.cancelling hcancel
    refine ⟨hspec.kept, hspec.sized, htokens.trans h.tokens, hiso, hunasked, ?_,
      fun hq hbad _ => (hcalm hq hbad).2, fun hq hbad hlt => ?_⟩
    · intro hasync ht'
      rw [Syncs, not_or] at hasync
      have hnow := hsync.resolve_left hasync.1
      refine ⟨⟨hgroup, hasync.1, by omega, fun hfirst u hu => hunasked hfirst u (by omega)⟩, ?_⟩
      exact asyncReady_or_cacheless (by omega) hspec.kept hrecent
    · have hnow := (hcalm hq hbad).1
      omega

theorem asyncStep_going (hA : r.adapter.ShapeLaws) (hr : r.Placed)
    (h : r.Going g quiet t latents s) (hasync : ¬ r.Syncs g t)
    (ht : t < g.config.numInferenceSteps) {isFirstAsyncStep : Bool} :
    Ends (Hears r.adapter quiet)
      (r.asyncPipelineStep t g.config latents g.prompt isFirstAsyncStep
        (r.checkCancellation s (g.cancelChecker t)))
      (fun out => (out.2.cancelling = true → r.Left g quiet out.2) ∧
        (out.2.cancelling = false → r.Going g quiet (t + 1) out.1 out.2))
      fun _ => ¬ r.KeepsApart g := by
  obtain ⟨hreaches, hready⟩ := h.ready hasync ht
  rw [checkCancellation_eq]
  rcases hready with ⟨len, hready⟩ | ⟨hnot, hnone⟩
  · have hready' : r.AsyncReady g quiet len
        { s with cancelling := s.cancelling || (r.isFirstStage && g.cancelChecker t) } :=
      ⟨⟨⟨hready.ran.fits.joint, hready.ran.fits.single⟩, hready.ran.currentTextSeqLen, .refl _,
        hready.ran.cached, List.prefix_rfl⟩, hready.lens, hready.apart, hready.shared⟩
    refine (asyncPipelineStep_spec hA hr hready'.ran hready.lens h.tokens rfl).mono
      (fun _ _ => id) ?_ fun _ => False.elim
    rintro ⟨latents', s'⟩ ⟨htokens, hspec⟩
    obtain ⟨hnext, hiso, hmixed⟩ := hready'.step id id hspec
    have hiso' : r.KeepsApart g → Isolated s'.calls :=
      fun hok => hiso (hok hreaches) (h.isolated hok)
    refine ⟨fun _ => ⟨hspec.ran.kept, hiso', fun _ hbad => hmixed (not_keepsApart hbad).2⟩,
      fun hcancel => ?_⟩
    rw [Syncs, not_or] at hasync
    refine ⟨hspec.ran.kept, hspec.ran.cached.sized, htokens, hiso',
      h.unasked_succ hspec.ran.cancelling hcancel, ?_, ?_,
      fun _ hbad _ => hmixed (not_keepsApart hbad).2⟩
    · exact fun _ _ => ⟨hreaches, .inl ⟨len, hnext⟩⟩
    · intro _ _ hle
      omega
  · refine (asyncPipelineStep_noCache hr (h.kept.setCancelling _) ?_).mono (fun _ _ => id)
      (fun _ => False.elim) fun _ _ hok => hnot (hok hreaches)
    intro b hb
    rw [caches_readied_setCancelling]
    exact hnone b hb

theorem diffusionStep_going (hA : r.adapter.ShapeLaws) (hr : r.Placed) (hgroup : r.group = true)
    (h : r.Going g quiet t latents s) (ht : t < g.config.numInferenceSteps) :
    Ends (Hears r.adapter quiet)
      (r.diffusionStep t g.config latents g.prompt g.numSyncSteps
        (r.checkCancellation s (g.cancelChecker t)))
      (fun out => (out.2.cancelling = true → r.Left g quiet out.2) ∧
        (out.2.cancelling = false → r.Going g quiet (t + 1) out.1 out.2))
      fun _ => ¬ r.KeepsApart g := by
  have hcond : (r.topology.pipelineWorldSize == 1 ||
      decide (t < g.config.initTimeStep + g.numSyncSteps)) = true ↔ r.Syncs g t := by
    rw [Bool.or_eq_true, beq_iff_eq, decide_eq_true_eq]
    rfl
  unfold diffusionStep
  rw [if_neg (by rw [hgroup]; exact Bool.noConfusion)]
  split
  next hsync =>
    exact (syncStep_going hA hr hgroup h (hcond.mp hsync)).mono (fun _ _ => id) (fun _ => id)
      fun _ => False.elim
  next hasync => exact asyncStep_going hA hr h (fun hsync => hasync (hcond.mpr hsync)) ht

variable {stepsLeft : Nat}

/-- **The run lemma** of a pipeline: by induction on the steps that are left. -/
theorem diffusionSteps_left (hA : r.adapter.ShapeLaws) (hr : r.Placed) (hgroup : r.group = true)
    (h : r.Going g quiet t latents s)
    (ht : t + stepsLeft = g.config.numInferenceSteps) :
    Ends (Hears r.adapter quiet)
      (r.diffusionSteps g.config g.prompt g.numSyncSteps g.cancelChecker stepsLeft t latents s)
      (fun e => r.Left g quiet e.state) fun _ => ¬ r.KeepsApart g := by
  induction stepsLeft generalizing t latents s with
  | zero =>
    refine .pure ⟨h.kept, h.isolated, fun hq hbad => h.mixed hq hbad ?_⟩
    obtain ⟨⟨-, -, hlt, -⟩, -⟩ := not_keepsApart hbad
    omega
  | succ stepsLeft ih =>
    unfold diffusionSteps
    dsimp only
    rw [if_neg (by rw [hgroup, Bool.not_true, Bool.and_false]; exact Bool.noConfusion)]
    refine .bind ((diffusionStep_going hA hr hgroup h (by omega)).imp ?_)
    rintro ⟨latents', s'⟩ ⟨hleft, hgoing⟩
    dsimp only
    split
    next hcancel => exact .pure (hleft hcancel)
    next hcancel => exact ih (hgoing (eq_false_of_ne_true hcancel)) (by omega)

/-- Without a group there are no async steps, and each branch starts with empty caches. -/
theorem diffusionSteps_alone (hA : r.adapter.ShapeLaws) (hr : r.Placed) (hgroup : r.group = false)
    (hfirst : r.isFirstStage = true) (hlast : r.isLastStage = true)
    (h : r.Alone s) (hiso : Isolated s.calls) :
    Ends (Hears r.adapter quiet)
      (r.diffusionSteps g.config g.prompt g.numSyncSteps g.cancelChecker stepsLeft t latents s)
      (fun e => r.Alone e.state ∧ Isolated e.state.calls) fun _ => False := by
  induction stepsLeft generalizing t latents s with
  | zero => exact .pure ⟨h, hiso⟩
  | succ stepsLeft ih =>
    unfold diffusionSteps
    rw [checkCancellation_eq]
    have halone : r.Alone
        { s with cancelling := s.cancelling || (r.isFirstStage && g.cancelChecker t) } :=
      ⟨h.kept.setCancelling _, h.mode, h.textSeqLen⟩
    generalize (s.cancelling || (r.isFirstStage && g.cancelChecker t)) = c at halone ⊢
    dsimp only
    split
    next => exact .pure ⟨halone, hiso⟩
    next =>
      refine .bind ?_
      unfold diffusionStep
      rw [if_pos (by rw [hgroup]; rfl)]
      obtain ⟨results, s₁, hrun, hpos, hspec⟩ := singleNodeBranches_spec hA hr hfirst halone t
        latents (r.getCfgBranches g.prompt)
      refine .bind (.compute ⟨_, hrun, ?_⟩)
      have hcomb : Combinable (results.map Prod.fst) := by
        rw [hpos]
        exact getCfgBranches_combinable _
      refine .bind ((combineCfgResults_spec hr hlast hcomb).imp ?_)
      rintro ⟨noise, s₂⟩ ⟨c', rfl, -⟩
      have halone₂ : r.Alone { s₁ with cancelling := c' } :=
        ⟨hspec.alone.kept.setCancelling _, hspec.alone.mode, hspec.alone.textSeqLen⟩
      refine .pure ?_
      dsimp only
      split
      next => exact .pure ⟨halone₂, hspec.isolated hiso⟩
      next => exact ih halone₂ (hspec.isolated hiso)

/-! ## A generation -/

variable {R : ArrayMsg X → ArrayMsg X → Prop}

theorem drainPatches_heard {patches : List (Patch X)} :
    Ends R (r.drainPatches patches s) (fun s' => ∃ c, s' = { s with cancelling := c })
      fun _ => False := by
  induction patches generalizing s with
  | nil => exact .pure ⟨s.cancelling, rfl⟩
  | cons patch patches ih =>
    refine .bind (.recvLike fun m _ => ?_)
    rw [RunnerState.heard_eq]
    refine ih.imp ?_
    rintro s' ⟨c, rfl⟩
    exact ⟨c, rfl⟩

theorem drain_heard {config : RuntimeConfig}
    {numSyncSteps : Nat} : Ends R (r.drain t config latents numSyncSteps s)
      (fun s' => ∃ c, s' = { s with cancelling := c }) fun _ => False := by
  unfold drain
  split
  · exact drainPatches_heard
  · exact .pure ⟨s.cancelling, rfl⟩

/-- `generate_image`, with a log of calls of its own. -/
def generate (r : DiffusionRunner X E Q) (g : DiffusionRequest r.adapter) (s : RunnerState X E) :
    RankProgram X (LoopEnd X E) :=
  r.generateImage g.config g.latents g.prompt g.numSyncSteps g.cancelChecker { s with calls := [] }

/-- What holds of a runner between generations. -/
structure Rested (r : DiffusionRunner X E Q) (s : RunnerState X E) : Prop where
  kept : r.Kept s
  alone : r.group = false → r.Alone s

theorem Going.zero (hgroup : r.group = true) (hkept : r.Kept s)
    (hnone : ∀ c ∈ caches s, c = none) (hcalls : s.calls = []) (hcancel : s.cancelling = false) :
    r.Going g quiet 0 g.latents s := by
  refine ⟨hkept, sized_of_none hnone, g.latents_tokens, fun _ => ?_, fun _ u hu => ?_,
    fun hasync hlt => ?_, fun _ _ _ => hcancel, fun _ _ hlt => ?_⟩
  · rw [hcalls]
    exact fun c hc => by cases hc
  · cases hu
  · rw [Syncs, not_or, Nat.not_lt, Nat.le_zero] at hasync
    have hreaches : r.ReachesAsync g :=
      ⟨hgroup, hasync.1, by omega, fun _ u hu => by omega⟩
    refine ⟨hreaches, .inr ⟨fun hfit => ?_, fun b _ => caches_readied_of_none b hnone⟩⟩
    have hpos := hfit.1
    omega
  · omega

/-- What a generation leaves. -/
structure Generated (r : DiffusionRunner X E Q) (g : DiffusionRequest r.adapter) (quiet : Prop)
    (s : RunnerState X E) : Prop where
  rested : r.Rested s
  isolated : r.KeepsApart g → Isolated s.calls
  mixed : quiet → ¬ r.KeepsApart g → ¬ Isolated s.calls

theorem Left.generated (hgroup : r.group = true) (h : r.Left g quiet s) : r.Generated g quiet s :=
  ⟨⟨h.kept, fun hnone => absurd (hgroup.symm.trans hnone) Bool.noConfusion⟩, h.isolated, h.mixed⟩

theorem Generated.setCancelling (h : r.Generated g quiet s) (c : Bool) :
    r.Generated g quiet { s with cancelling := c } :=
  ⟨⟨h.rested.kept.setCancelling c, fun hnone =>
    ⟨h.rested.kept.setCancelling c, (h.rested.alone hnone).mode,
      (h.rested.alone hnone).textSeqLen⟩⟩, h.isolated, h.mixed⟩

theorem generate_spec (hA : r.adapter.ShapeLaws) (hr : r.Placed) (quiet : Prop)
    (g : DiffusionRequest r.adapter)
    (hone : r.group = false → r.isFirstStage = true ∧ r.isLastStage = true) (h : r.Rested s) :
    Ends (Hears r.adapter quiet) (r.generate g s) (fun e => r.Generated g quiet e.state)
      fun _ => ¬ r.KeepsApart g := by
  have hloop : Ends (Hears r.adapter quiet)
      (r.diffusionSteps g.config g.prompt g.numSyncSteps g.cancelChecker
        g.config.numInferenceSteps 0 g.latents
        ({ s with calls := [], cancelling := false } : RunnerState X E).resetAllCaches)
      (fun e => r.Generated g quiet e.state) fun _ => ¬ r.KeepsApart g := by
    have hkept : r.Kept ({ s with calls := [], cancelling := false } : RunnerState X E) :=
      fun hs => ⟨(h.kept hs).joint, (h.kept hs).single⟩
    cases hgroup : r.group with
    | true =>
      exact (diffusionSteps_left hA hr hgroup (.zero hgroup hkept.resetAllCaches
        (caches_resetAllCaches _) rfl rfl) (Nat.zero_add _)).imp fun e he => he.generated hgroup
    | false =>
      have halone : r.Alone ({ s with calls := [], cancelling := false } : RunnerState X E) :=
        ⟨hkept, (h.alone hgroup).mode, (h.alone hgroup).textSeqLen⟩
      have hok : r.KeepsApart g := fun hreaches =>
        absurd (hreaches.1.symm.trans hgroup) Bool.noConfusion
      refine (diffusionSteps_alone hA hr hgroup (hone hgroup).1 (hone hgroup).2
        halone.resetAllCaches fun c hc => by cases hc).mono (fun _ _ => id) ?_ fun _ => False.elim
      exact fun e he => ⟨⟨he.1.kept, fun _ => he.1⟩, fun _ => he.2, fun _ hbad => absurd hok hbad⟩
  refine .bind (hloop.imp fun e he => ?_)
  cases ht : e.t with
  | none => exact .pure he
  | some t =>
    refine .bind (drain_heard.mono (fun _ _ => id) ?_ fun _ => False.elim)
    rintro s' ⟨c, rfl⟩
    exact .pure (he.setCancelling c)

/-- The states that a runner can have between generations, whatever the other ranks send. -/
inductive Reachable (r : DiffusionRunner X E Q) : RunnerState X E → Prop where
  | fresh : Reachable r {}
  | generated (g : DiffusionRequest r.adapter) {s : RunnerState X E} {e : LoopEnd X E}
      (h : Reachable r s)
      (he : (ExceptT.run (r.generate g s)).MayEnd (Hears r.adapter False) (.ok e)) :
      Reachable r e.state

theorem Rested.fresh : r.Rested {} where
  kept := fun h => by cases h
  alone := fun _ => {
    kept := fun h => by cases h
    mode := fun w hw => by cases hw
    textSeqLen := fun len hlen => by cases hlen }

/-- **The run lemma** for generations one after the other. -/
theorem Reachable.rested (hA : r.adapter.ShapeLaws) (hr : r.Placed)
    (hone : r.group = false → r.isFirstStage = true ∧ r.isLastStage = true) (h : r.Reachable s) :
    r.Rested s := by
  induction h with
  | fresh => exact .fresh
  | generated g _ he ih =>
    have hspec := generate_spec hA hr False g hone ih
    exact (Lib.Proc.EnsuresOn.mayEnd hspec he).rested

end DiffusionRunner

/-! ## Stages -/

theorem computeAssignedBlocks_nonempty {totalJoint startLayer endLayer : Nat}
    (h : startLayer < endLayer) :
    (computeAssignedBlocks totalJoint startLayer endLayer).hasJointBlocks = true ∨
      (computeAssignedBlocks totalJoint startLayer endLayer).hasSingleBlocks = true := by
  unfold computeAssignedBlocks AssignedBlocks.hasJointBlocks AssignedBlocks.hasSingleBlocks
  split
  · exact .inl (decide_eq_true h)
  · split
    · refine .inr (decide_eq_true ?_)
      dsimp only
      omega
    · refine .inl (decide_eq_true ?_)
      dsimp only
      omega

theorem computeAssignedBlocks_first {totalJoint endLayer : Nat} (hj : 0 < totalJoint)
    (h : 0 < endLayer) : (computeAssignedBlocks totalJoint 0 endLayer).hasJointBlocks = true := by
  unfold computeAssignedBlocks AssignedBlocks.hasJointBlocks
  split
  · exact decide_eq_true h
  · rw [if_neg (by omega)]
    exact decide_eq_true hj

/-- A stage of a model, as a placement makes it: it has blocks, and the first stage has the first
ones. -/
structure DiffusionStage (X E Q : Type) where
  adapter : ModelAdapter X E Q
  laws : adapter.ShapeLaws
  totalJoint : Nat
  totalSingle : Nat
  shard : Option StageShard
  numPatches : Option Nat
  totalJoint_pos : 0 < totalJoint
  nonempty : (initCfgTopology (totalJoint + totalSingle) shard).startLayer <
    (initCfgTopology (totalJoint + totalSingle) shard).endLayer
  first : (initCfgTopology (totalJoint + totalSingle) shard).isFirstStage = true →
    (initCfgTopology (totalJoint + totalSingle) shard).startLayer = 0

namespace DiffusionStage

variable (i : DiffusionStage X E Q)

def runner : DiffusionRunner X E Q :=
  .init i.adapter i.totalJoint i.totalSingle i.shard i.numPatches

theorem placed : i.runner.Placed where
  prev := by
    intro h
    cases hshard : i.shard with
    | none =>
      have hfirst : (initCfgTopology (i.totalJoint + i.totalSingle) i.shard).isFirstStage = false :=
        h
      rw [hshard] at hfirst
      cases hfirst
    | some m =>
      have hfirst : (initCfgTopology (i.totalJoint + i.totalSingle) i.shard).isFirstStage = false :=
        h
      simp only [runner, DiffusionRunner.init, hshard, initCfgTopology,
        CfgTopology.isFirstStage] at hfirst ⊢
      exact ⟨_, if_neg (by rw [hfirst]; exact Bool.noConfusion)⟩
  next := by
    intro h
    have hlast : (initCfgTopology (i.totalJoint + i.totalSingle) i.shard).isLastStage = false := h
    cases hshard : i.shard with
    | none =>
      rw [hshard] at hlast
      cases hlast
    | some m =>
      simp only [runner, DiffusionRunner.init, hshard, initCfgTopology,
        CfgTopology.isLastStage] at hlast ⊢
      exact ⟨_, if_neg (by rw [hlast]; exact Bool.noConfusion)⟩
  peer := by
    intro hpar h
    have hlast : (initCfgTopology (i.totalJoint + i.totalSingle) i.shard).isLastStage = true := h
    have hpar' : (initCfgTopology (i.totalJoint + i.totalSingle) i.shard).cfgParallel = true := hpar
    cases hshard : i.shard with
    | none =>
      rw [hshard] at hpar'
      cases hpar'
    | some m =>
      simp only [runner, DiffusionRunner.init, hshard, initCfgTopology,
        CfgTopology.isLastStage] at hlast hpar' ⊢
      exact ⟨_, if_pos (by rw [hlast, hpar']; rfl)⟩
  first := by
    intro h
    have hfirst : (initCfgTopology (i.totalJoint + i.totalSingle) i.shard).startLayer = 0 :=
      i.first h
    have hne := i.nonempty
    rw [hfirst] at hne
    have hblocks := computeAssignedBlocks_first i.totalJoint_pos hne
    simp only [runner, DiffusionRunner.init]
    rw [hfirst]
    exact hblocks
  nonempty := computeAssignedBlocks_nonempty i.nonempty
  alone := by
    intro h
    cases hshard : i.shard with
    | none => simp only [runner, DiffusionRunner.init, hshard, initCfgTopology]
    | some m => simp [runner, DiffusionRunner.init, hshard] at h
  numPatches := by
    simp only [runner, DiffusionRunner.init]
    split
    · exact Nat.succ_pos _
    · exact Nat.le_max_left 1 _

theorem alone (h : i.runner.group = false) :
    i.runner.isFirstStage = true ∧ i.runner.isLastStage = true := by
  cases hshard : i.shard with
  | none =>
    simp only [runner, DiffusionRunner.init, hshard, initCfgTopology, DiffusionRunner.isFirstStage,
      DiffusionRunner.isLastStage, CfgTopology.isFirstStage, CfgTopology.isLastStage]
    exact ⟨rfl, rfl⟩
  | some m => simp [runner, DiffusionRunner.init, hshard] at h

theorem rested {s : RunnerState X E} (h : i.runner.Reachable s) : i.runner.Rested s :=
  h.rested i.laws i.placed i.alone

/-- A run in which no rank is cancelled from outside mixes the branches or fails an assertion. -/
theorem not_apart {s : RunnerState X E} (h : i.runner.Reachable s) {g : DiffusionRequest i.adapter}
    (hbad : ¬ i.runner.KeepsApart g) :
    ¬ Ends (Hears i.adapter False) (i.runner.generate g s) (fun e => Isolated e.state.calls)
      fun _ => False := by
  intro hends
  have hmixed := DiffusionRunner.generate_spec i.laws i.placed True g i.alone (i.rested h)
  have hquiet := hends.mono (S := Hears i.adapter True)
    (fun w m hm => ⟨hm.1, fun hq => hq.elim⟩) (fun _ => id) fun _ => id
  refine not_ends_false (hears_total i.adapter True) ((hquiet.and hmixed).mono (fun _ _ => id)
    (fun e he => ?_) fun _ he => he.1)
  exact he.2.mixed trivial hbad he.1

/--
**Where CFG branches keep apart.** Whatever the other ranks send and whatever was generated
before, a generation has each branch read its own entries alone, and fails no assertion, exactly
when the runner never gets to the async steps, or had a sync step before them and has one branch,
or two of one length with patches that are each the whole of what is cached.
-/
theorem generate_isolated_iff {s : RunnerState X E} (h : i.runner.Reachable s)
    (g : DiffusionRequest i.adapter) :
    Ends (Hears i.adapter False) (i.runner.generate g s) (fun e => Isolated e.state.calls)
      (fun _ => False) ↔ i.runner.KeepsApart g := by
  refine ⟨fun hends => ?_, fun hok => ?_⟩
  · by_contra hbad
    exact i.not_apart h hbad hends
  · have hspec := DiffusionRunner.generate_spec i.laws i.placed False g i.alone (i.rested h)
    exact hspec.mono (fun _ _ => id) (fun e he => he.isolated hok) fun _ hbad => hbad hok

end DiffusionStage

/-! ## An example -/

/-- A model of which only the shapes are computed. -/
def shapeAdapter (needsCfg : Bool) : ModelAdapter Shape Unit Unit where
  needsCfg
  hiddenDim := 1
  shape := id
  empty := id
  nan := id
  slice x start stop := { x with tokens := min (stop.getD x.tokens) x.tokens - start }
  concatenate xs := match xs with
    | [] => ⟨0, 0, 0⟩
    | x :: xs => { x with tokens := ((x :: xs).map Shape.tokens).sum }
  zeroKv := ()
  jointBlock _ := {
    computeQkv := fun _ _ x e _ _ => ((), List.replicate (e.tokens + x.tokens) ())
    computeAttention := fun _ _ _ kv => ⟨1, kv.length, 1⟩
    applyOutput := fun _ _ _ x e _ => (e, x) }
  singleBlock _ := {
    computeQkv := fun _ _ x _ _ => ((), List.replicate x.tokens ())
    computeAttention := fun _ _ kv => ⟨1, kv.length, 1⟩
    applyOutput := fun _ _ _ x _ => x }
  computeEmbeddings x e := ({ x with dim := 1 }, { e with dim := 1 })
  computeTextEmbeddings _ pooled _ := pooled
  computeRotaryEmbeddings e _ := e
  mergeStreams x e := { x with tokens := e.tokens + x.tokens }
  applyGuidance noisePositive _ := noisePositive
  finalProjection x _ := x
  scaleModelInput x _ := x
  schedulerStep _ _ x := x

theorem shapeAdapter_laws (needsCfg : Bool) : (shapeAdapter needsCfg).ShapeLaws where
  empty _ := rfl
  nan _ := rfl
  slice _ _ _ := rfl
  concatenate _ _ := rfl
  embeddings _ _ := ⟨rfl, rfl⟩
  jointKv _ _ _ _ _ _ _ := List.length_replicate
  jointOutput _ _ _ _ _ _ _ := ⟨rfl, rfl⟩
  singleKv _ _ _ _ _ _ := List.length_replicate
  singleOutput _ _ _ _ _ _ := rfl
  mergeStreams _ _ := rfl
  scaleModelInput _ _ := rfl
  schedulerStep _ _ _ := rfl

/-- The first of three stages with a joint block each, of a model that needs CFG. -/
def firstOfThree : DiffusionStage Shape Unit Unit where
  adapter := shapeAdapter true
  laws := shapeAdapter_laws true
  totalJoint := 3
  totalSingle := 0
  shard := some { deviceRank := 0, worldSize := 3, startLayer := 0, endLayer := 1 }
  numPatches := none
  totalJoint_pos := by decide
  nonempty := by decide
  first := by decide

/-- Three rows of latents, with prompts of one token, for `numInferenceSteps` steps. -/
def threeRows (numInferenceSteps : Nat) : DiffusionRequest (shapeAdapter true) where
  config := {
    numInferenceSteps
    initTimeStep := 0
    latentHeight := 3
    latentWidth := 1
    latentHeight_pos := by decide
    latentWidth_pos := by decide }
  latents := ⟨1, 3, 1⟩
  prompt := {
    embeds := fun _ => ⟨1, 1, 1⟩
    mask := fun _ => none
    pooled := fun _ => none
    conditioningLatents := none }
  numSyncSteps := 1
  cancelChecker := fun _ => false
  latents_tokens := rfl

namespace DiffusionStage

/-- With one step only there is no async step. -/
theorem threeRows_isolated_iff :
    firstOfThree.runner.Reachable {} ∧
      (Ends (Hears (shapeAdapter true) False) (firstOfThree.runner.generate (threeRows 1) {})
        (fun e => Isolated e.state.calls) (fun _ => False) ↔
      firstOfThree.runner.KeepsApart (threeRows 1)) :=
  ⟨.fresh, firstOfThree.generate_isolated_iff .fresh (threeRows 1)⟩

/-- The second step makes patches of one row each, and both branches use one cache. -/
theorem threeRows_not_isolated :
    ¬ ∀ (i : DiffusionStage Shape Unit Unit) (s : RunnerState Shape Unit),
      i.adapter.needsCfg = true → i.runner.Reachable s →
      ∀ g : DiffusionRequest i.adapter, Ends (Hears i.adapter False) (i.runner.generate g s)
        (fun e => Isolated e.state.calls) fun _ => False := by
  intro h
  refine firstOfThree.not_apart (g := threeRows 2) .fresh (fun hok => ?_)
    (h firstOfThree {} rfl .fresh _)
  obtain ⟨-, hcfg | hpar | ⟨-, hpatches, -⟩⟩ :=
    hok ⟨rfl, by decide, by decide, fun _ u _ => rfl⟩
  · cases hcfg
  · cases hpar
  · exact absurd hpatches (by decide)

end DiffusionStage

end Exo
