import Exo.Image.BlockCalls

/-!
# One pass through a stage

Whatever the other stages send, a pass ends, and it calls each wrapper of the stage once. `Hears`
is all that is known of what they send: a received array has the shape of its buffer, and while
the others are quiet it is no sentinel.
-/

namespace Exo

open Lib

variable {X E Q : Type}

/-! ## Runners -/

/-- All wrappers of a runner. -/
def RunnerState.wrappers (s : RunnerState X E) : List (BlockWrapper X E) :=
  s.jointBlockWrappers ++ s.singleBlockWrappers

def Hears (A : ModelAdapter X E Q) (quiet : Prop) (wanted m : ArrayMsg X) : Prop :=
  A.shape m.data = A.shape wanted.data ∧ (quiet → m.sentinel = false)

theorem hears_total (A : ModelAdapter X E Q) (quiet : Prop) (wanted : ArrayMsg X) :
    ∃ m, Hears A quiet wanted m :=
  ⟨⟨wanted.data, false⟩, rfl, fun _ => rfl⟩

theorem RunnerState.heard_eq (s : RunnerState X E) (sentinel : Bool) :
    s.heard sentinel = { s with cancelling := sentinel || s.cancelling } := by
  cases sentinel <;> rfl

namespace DiffusionRunner

/-- A runner in its place: it knows its neighbours, and it has blocks; the first stage starts with
joint blocks. -/
structure Placed (r : DiffusionRunner X E Q) : Prop where
  prev : r.isFirstStage = false → ∃ k, r.topology.prevPipelineRank = some k
  next : r.isLastStage = false → ∃ k, r.topology.nextPipelineRank = some k
  peer : r.topology.cfgParallel = true → r.isLastStage = true →
    ∃ k, r.topology.cfgPeerRank = some k
  first : r.isFirstStage = true → r.blocks.hasJointBlocks = true
  nonempty : r.blocks.hasJointBlocks = true ∨ r.blocks.hasSingleBlocks = true
  alone : r.group = false → r.topology.cfgParallel = false
  numPatches : 0 < r.numPatches

/-- The wrappers are those of the runner's blocks. -/
structure Fits (r : DiffusionRunner X E Q) (s : RunnerState X E) : Prop where
  joint : s.jointBlockWrappers.map (·.block) =
    List.range' r.blocks.jointStart (r.blocks.jointEnd - r.blocks.jointStart)
  single : s.singleBlockWrappers.map (·.block) =
    List.range' (r.totalJoint + r.blocks.singleStart) (r.blocks.singleEnd - r.blocks.singleStart)

variable {r : DiffusionRunner X E Q} {p : Pass X} {n : Nat} {s : RunnerState X E} {quiet : Prop}

theorem Fits.joint_nil (h : r.Fits s) (hj : r.blocks.hasJointBlocks = false) :
    s.jointBlockWrappers = [] := by
  have hle : r.blocks.jointEnd - r.blocks.jointStart = 0 := by
    simp only [AssignedBlocks.hasJointBlocks, decide_eq_false_iff_not] at hj
    omega
  have hmap := h.joint
  rw [hle] at hmap
  exact List.map_eq_nil_iff.mp hmap

theorem Fits.single_nil (h : r.Fits s) (hs : r.blocks.hasSingleBlocks = false) :
    s.singleBlockWrappers = [] := by
  have hle : r.blocks.singleEnd - r.blocks.singleStart = 0 := by
    simp only [AssignedBlocks.hasSingleBlocks, decide_eq_false_iff_not] at hs
    omega
  have hmap := h.single
  rw [hle] at hmap
  exact List.map_eq_nil_iff.mp hmap

theorem Fits.wrappers_ne_nil (h : r.Fits s) (hr : r.Placed) : s.wrappers ≠ [] := by
  intro hnil
  obtain ⟨hj, hs⟩ := List.append_eq_nil_iff.mp hnil
  have hjoint := h.joint
  have hsingle := h.single
  rw [hj] at hjoint
  rw [hs] at hsingle
  have hjlen := congrArg List.length hjoint
  have hslen := congrArg List.length hsingle
  simp only [List.map_nil, List.length_nil, List.length_range'] at hjlen hslen
  rcases hr.nonempty with h | h
  · simp only [AssignedBlocks.hasJointBlocks, decide_eq_true_eq] at h
    omega
  · simp only [AssignedBlocks.hasSingleBlocks, decide_eq_true_eq] at h
    omega

/-! ## The parts of a pass -/

/-- The text stream before the joint blocks of a stage. -/
def TextReady (r : DiffusionRunner X E Q) (p : Pass X) (encoder : Option X) : Prop :=
  ∃ e, encoder = some e ∧ (r.adapter.shape e).tokens = p.textSeqLen

/-- `_cancelling` is only ever set, and not while the others are quiet. -/
structure Cancels (quiet : Prop) (c c' : Bool) : Prop where
  quiet : quiet → c' = c
  stays : c = true → c' = true

theorem Cancels.refl (c : Bool) : Cancels quiet c c := ⟨fun _ => rfl, id⟩

theorem Cancels.trans {c c' c'' : Bool} (h : Cancels quiet c c') (h' : Cancels quiet c' c'') :
    Cancels quiet c c'' :=
  ⟨fun hq => (h'.quiet hq).trans (h.quiet hq), fun hc => h'.stays (h.stays hc)⟩

/-- What a runner may do besides calling blocks. -/
def Heard (quiet : Prop) (s s' : RunnerState X E) : Prop :=
  ∃ c, s' = { s with cancelling := c } ∧ Cancels quiet s.cancelling c

theorem Heard.refl : Heard quiet s s := ⟨s.cancelling, rfl, .refl _⟩

theorem Heard.heard {A : ModelAdapter X E Q} {wanted m : ArrayMsg X} {s₀ : RunnerState X E}
    (h : Heard quiet s₀ s) (hm : Hears A quiet wanted m) :
    Heard quiet s₀ (s.heard m.sentinel) := by
  obtain ⟨c, rfl, hc⟩ := h
  refine ⟨m.sentinel || c, RunnerState.heard_eq _ _, hc.trans ⟨fun hq => ?_, fun h => ?_⟩⟩
  · rw [hm.2 hq, Bool.false_or]
  · rw [h, Bool.or_true]

variable {encoder : Option X}

variable {x : X}

theorem recvStreams_spec (hA : r.adapter.ShapeLaws) (hr : r.Placed)
    (hx : r.isFirstStage = true → (r.adapter.shape x).tokens = p.imgTokens)
    (he : r.isFirstStage = true ∨ p.withText = false → r.TextReady p encoder) :
    Ends (Hears r.adapter quiet) (r.recvStreams p s x encoder)
      (fun out => (r.adapter.shape out.1).tokens = p.imgTokens ∧ r.TextReady p out.2.1 ∧
        Heard quiet s out.2.2)
      fun _ => False := by
  unfold recvStreams
  split
  next hfirst => exact .pure ⟨hx hfirst, he (.inl hfirst), .refl⟩
  next hfirst =>
    obtain ⟨prev, hprev⟩ := hr.prev (eq_false_of_ne_true hfirst)
    refine .bind (.assertSome hprev (.bind (.recv fun m hm => ?_)))
    have htokens : (r.adapter.shape m.data).tokens = p.imgTokens := by
      rw [hm.1, hA.empty]
    dsimp only
    split
    next htext =>
      refine .bind (.recv fun m' hm' => .pure ⟨htokens, ⟨m'.data, rfl, ?_⟩, ?_⟩)
      · rw [hm'.1, hA.empty]
      · exact (Heard.refl.heard hm).heard hm'
    next htext =>
      exact .pure ⟨htokens, he (.inr (eq_false_of_ne_true htext)), Heard.refl.heard hm⟩

theorem jointBlocks_spec (hA : r.adapter.ShapeLaws)
    (hws : ∀ w ∈ s.jointBlockWrappers, w.textSeqLen = p.textSeqLen ∧ Ready p n w) {x e : X}
    (hx : (r.adapter.shape x).tokens = p.imgTokens)
    (he : (r.adapter.shape e).tokens = p.textSeqLen) :
    ∃ x' e' ws calls, r.jointBlocks s p.prepare p.positive p.textEmbeddings p.rotaryEmbeddings x e =
        .ok (x', e', { s with jointBlockWrappers := ws, calls := s.calls ++ calls }) ∧
      (r.adapter.shape x').tokens = p.imgTokens ∧ (r.adapter.shape e').tokens = p.textSeqLen ∧
      CallsSpec p n s.jointBlockWrappers ws calls := by
  obtain ⟨ws, x', e', calls, hcalls, hsx, hse, hspec⟩ := r.callJointBlocks_spec hA hws hx he
  refine ⟨x', e', ws, calls, ?_, hsx ▸ hx, hse ▸ he, hspec⟩
  simp only [jointBlocks, hcalls]
  rfl

theorem singleBlocks_spec (hA : r.adapter.ShapeLaws)
    (hws : ∀ w ∈ s.singleBlockWrappers, w.textSeqLen = p.textSeqLen ∧ Ready p n w)
    (hx : (r.adapter.shape x).tokens = p.textSeqLen + p.imgTokens) :
    ∃ x' ws calls, r.singleBlocks s p.prepare p.positive p.textEmbeddings p.rotaryEmbeddings x =
        .ok (x', { s with singleBlockWrappers := ws, calls := s.calls ++ calls }) ∧
      CallsSpec p n s.singleBlockWrappers ws calls := by
  obtain ⟨ws, x', calls, hcalls, -, hspec⟩ := r.callSingleBlocks_spec hA hws hx
  refine ⟨x', ws, calls, ?_, hspec⟩
  simp only [singleBlocks, hcalls]
  rfl

/-- What the joint blocks of a stage leave. -/
def JointSpec (p : Pass X) (n : Nat) (quiet : Prop) (s s' : RunnerState X E) : Prop :=
  ∃ ws calls c, CallsSpec p n s.jointBlockWrappers ws calls ∧ Cancels quiet s.cancelling c ∧
    s' = { s with cancelling := c, jointBlockWrappers := ws, calls := s.calls ++ calls }

theorem jointStage_spec (hA : r.adapter.ShapeLaws) (hr : r.Placed) (hfits : r.Fits s)
    (hws : ∀ w ∈ s.jointBlockWrappers, w.textSeqLen = p.textSeqLen ∧ Ready p n w)
    (hx : r.isFirstStage = true → (r.adapter.shape x).tokens = p.imgTokens)
    (he : r.blocks.hasJointBlocks = true → r.isFirstStage = true ∨ p.withText = false →
      r.TextReady p encoder) :
    Ends (Hears r.adapter quiet) (r.jointStage p s x encoder)
      (fun out => (r.blocks.hasJointBlocks = true →
          (r.adapter.shape out.1).tokens = p.imgTokens ∧ r.TextReady p out.2.1) ∧
        JointSpec p n quiet s out.2.2)
      fun _ => False := by
  unfold jointStage
  split
  next hjoint =>
    refine .bind ((recvStreams_spec hA hr hx (he hjoint)).imp ?_)
    rintro ⟨x', encoder', s'⟩ ⟨htokens, ⟨e, hsome, hetokens⟩, c, hs', hc⟩
    subst hs'
    obtain ⟨x'', e', ws, calls, hblocks, hx'', he'', hspec⟩ :=
      jointBlocks_spec (s := { s with cancelling := c }) hA hws htokens hetokens
    exact .bind (.assertSome hsome (.bind (.compute ⟨_, hblocks, .pure
      ⟨fun _ => ⟨hx'', e', rfl, he''⟩, ws, calls, c, hspec, hc, rfl⟩⟩)))
  next hjoint =>
    refine .pure ⟨fun h => absurd h hjoint, [], [], s.cancelling, ?_, .refl _, ?_⟩
    · rw [hfits.joint_nil (eq_false_of_ne_true hjoint)]
      exact .nil
    · have hnil := hfits.joint_nil (eq_false_of_ne_true hjoint)
      rw [List.append_nil, ← hnil]

theorem sent_shape (hA : r.adapter.ShapeLaws) (c : Bool) (x : X) :
    r.adapter.shape (if c then r.adapter.nan x else x) = r.adapter.shape x := by
  split
  · exact hA.nan x
  · rfl

theorem concatStage_spec (hA : r.adapter.ShapeLaws) (hr : r.Placed)
    (h : r.blocks.hasJointBlocks = true →
      (r.adapter.shape x).tokens = p.imgTokens ∧ r.TextReady p encoder) :
    Ends (Hears r.adapter quiet) (r.concatStage p s x encoder)
      (fun out => (r.blocks.hasJointBlocks = true → r.TextReady p out.2) ∧
        (r.blocks.ownsConcatStage = true → r.blocks.hasSingleBlocks = true →
          (r.adapter.shape out.1).tokens = p.textSeqLen + p.imgTokens))
      fun _ => False := by
  unfold concatStage
  split
  next howns =>
    have hjoint : r.blocks.hasJointBlocks = true := (Bool.and_eq_true_iff.mp howns).1
    obtain ⟨htokens, e, hsome, hetokens⟩ := h hjoint
    refine .bind (.assertSome hsome ?_)
    dsimp only
    split
    next =>
      refine .pure ⟨fun _ => ⟨e, hsome, hetokens⟩, fun _ _ => ?_⟩
      rw [hA.mergeStreams, hetokens, htokens]
    next hlast =>
      rw [Bool.or_eq_true, not_or] at hlast
      obtain ⟨next, hnext⟩ := hr.next (eq_false_of_ne_true hlast.2)
      exact .bind (.assertSome hnext (.bind (.send (.pure
        ⟨fun _ => ⟨e, hsome, hetokens⟩, fun _ hsingle => absurd hsingle hlast.1⟩))))
  next howns =>
    have hsingle : r.blocks.ownsConcatStage = true → r.blocks.hasSingleBlocks = true →
        ∀ y : X, (r.adapter.shape y).tokens = p.textSeqLen + p.imgTokens :=
      fun h => absurd h howns
    split
    next hlast =>
      obtain ⟨hjoint, hlast⟩ := Bool.and_eq_true_iff.mp hlast
      obtain ⟨-, e, hsome, hetokens⟩ := h hjoint
      obtain ⟨next, hnext⟩ := hr.next (Bool.not_eq_true' _ ▸ hlast)
      refine .bind (.assertSome hnext (.bind (.send ?_)))
      split
      next =>
        refine .bind (.assertSome hsome (.bind (.send (.pure
          ⟨fun _ => ⟨_, rfl, ?_⟩, fun h h' => hsingle h h' _⟩))))
        rw [sent_shape hA, hetokens]
      next => exact .pure ⟨fun _ => ⟨e, hsome, hetokens⟩, fun h h' => hsingle h h' _⟩
    next => exact .pure ⟨fun hjoint => (h hjoint).2, fun h h' => hsingle h h' _⟩

/-- What the single blocks of a stage leave. -/
def SingleSpec (p : Pass X) (n : Nat) (quiet : Prop) (s s' : RunnerState X E) : Prop :=
  ∃ ws calls c, CallsSpec p n s.singleBlockWrappers ws calls ∧ Cancels quiet s.cancelling c ∧
    s' = { s with cancelling := c, singleBlockWrappers := ws, calls := s.calls ++ calls }

theorem recvConcatenated_spec (hA : r.adapter.ShapeLaws) (hr : r.Placed)
    (hsingle : r.blocks.hasSingleBlocks = true)
    (hx : r.blocks.ownsConcatStage = true → r.blocks.hasSingleBlocks = true →
      (r.adapter.shape x).tokens = p.textSeqLen + p.imgTokens) :
    Ends (Hears r.adapter quiet) (r.recvConcatenated p s x)
      (fun out => (r.adapter.shape out.1).tokens = p.textSeqLen + p.imgTokens ∧
        Heard quiet s out.2) fun _ => False := by
  unfold recvConcatenated
  split
  next hfirst =>
    obtain ⟨-, hfirst⟩ := Bool.and_eq_true_iff.mp hfirst
    obtain ⟨prev, hprev⟩ := hr.prev (Bool.not_eq_true' _ ▸ hfirst)
    refine .bind (.assertSome hprev (.recv fun m hm => ⟨?_, Heard.refl.heard hm⟩))
    rw [hm.1, hA.empty]
  next hfirst =>
    -- the first stage has joint blocks, so with single blocks it concatenates itself
    have howns : r.blocks.ownsConcatStage = true := by
      cases howns : r.blocks.ownsConcatStage with
      | true => rfl
      | false =>
        have hfirst : r.isFirstStage = true := by simpa [howns] using hfirst
        simp [AssignedBlocks.ownsConcatStage, hr.first hfirst, hsingle] at howns
    exact .pure ⟨hx howns hsingle, .refl⟩

theorem singleStage_spec (hA : r.adapter.ShapeLaws) (hr : r.Placed) (hfits : r.Fits s)
    (hws : ∀ w ∈ s.singleBlockWrappers, w.textSeqLen = p.textSeqLen ∧ Ready p n w)
    (hx : r.blocks.ownsConcatStage = true → r.blocks.hasSingleBlocks = true →
      (r.adapter.shape x).tokens = p.textSeqLen + p.imgTokens) :
    Ends (Hears r.adapter quiet) (r.singleStage p s x) (fun out => SingleSpec p n quiet s out.2)
      fun _ => False := by
  unfold singleStage
  split
  next hsingle =>
    refine .bind ((recvConcatenated_spec hA hr hsingle hx).imp ?_)
    rintro ⟨x', s'⟩ ⟨htokens, c, hs', hc⟩
    subst hs'
    obtain ⟨x'', ws, calls, hblocks, hspec⟩ :=
      singleBlocks_spec (s := { s with cancelling := c }) hA hws htokens
    refine .bind (.compute ⟨_, hblocks, ?_⟩)
    dsimp only
    split
    next => exact .pure ⟨ws, calls, c, hspec, hc, rfl⟩
    next hlast =>
      obtain ⟨next, hnext⟩ := hr.next (eq_false_of_ne_true hlast)
      exact .bind (.assertSome hnext (.bind (.send (.pure ⟨ws, calls, c, hspec, hc, rfl⟩))))
  next hsingle =>
    have hnil := hfits.single_nil (eq_false_of_ne_true hsingle)
    refine .pure ⟨[], [], s.cancelling, ?_, .refl _, ?_⟩
    · rw [hnil]
      exact .nil
    · rw [List.append_nil, ← hnil]

/-! ## A whole pass -/

/-- What a pass leaves. -/
structure PassSpec (r : DiffusionRunner X E Q) (p : Pass X) (n : Nat) (quiet : Prop)
    (s s' : RunnerState X E) : Prop where
  fits : r.Fits s'
  currentTextSeqLen : s'.currentTextSeqLen = s.currentTextSeqLen
  cancelling : Cancels quiet s.cancelling s'.cancelling
  length : ∀ w ∈ s'.wrappers, ∃ cache, w.kvCache = some cache ∧ cache.length = n
  calls : ∃ new, s'.calls = s.calls ++ new ∧
    (Isolated new ↔ ∀ w ∈ s.wrappers, OwnedBy p.positive (outside p w))
  filled : (∀ w ∈ s.wrappers, OwnedBy p.positive (outside p w)) →
    ∀ w ∈ s'.wrappers, Filled p.positive n w

theorem PassSpec.of_stages {s₁ s₂ : RunnerState X E} (hfits : r.Fits s)
    (hj : JointSpec p n quiet s s₁) (hs : SingleSpec p n quiet s₁ s₂) :
    PassSpec r p n quiet s s₂ := by
  obtain ⟨js, jcalls, c, hjs, hc, rfl⟩ := hj
  obtain ⟨ss, scalls, c', hss, hc', rfl⟩ := hs
  exact {
    fits := ⟨hjs.blocks.trans hfits.joint, hss.blocks.trans hfits.single⟩
    currentTextSeqLen := rfl
    cancelling := hc.trans hc'
    length := fun w hw => (List.mem_append.mp hw).elim (hjs.length w) (hss.length w)
    calls := by
      refine ⟨jcalls ++ scalls, List.append_assoc .., ?_⟩
      rw [isolated_append, hjs.isolated, hss.isolated]
      exact List.forall_mem_append.symm
    filled := fun hown w hw => (List.mem_append.mp hw).elim
      (hjs.filled (fun w hw => hown w (List.mem_append_left _ hw)) w)
      (hss.filled (fun w hw => hown w (List.mem_append_right _ hw)) w) }

/-- **The pass lemma.** -/
theorem stagePass_spec (hA : r.adapter.ShapeLaws) (hr : r.Placed) (hfits : r.Fits s)
    (hws : ∀ w ∈ s.wrappers, w.textSeqLen = p.textSeqLen ∧ Ready p n w)
    (hx : r.isFirstStage = true → (r.adapter.shape x).tokens = p.imgTokens)
    (he : r.blocks.hasJointBlocks = true → r.isFirstStage = true ∨ p.withText = false →
      r.TextReady p encoder) :
    Ends (Hears r.adapter quiet) (r.stagePass p s x encoder)
      (fun out => (r.blocks.hasJointBlocks = true → r.TextReady p out.2.1) ∧
        PassSpec r p n quiet s out.2.2)
      fun _ => False := by
  refine .bind ((jointStage_spec hA hr hfits (fun w hw => hws w (List.mem_append_left _ hw))
    hx he).imp ?_)
  rintro ⟨x₁, e₁, s₁⟩ ⟨hready, hjoint⟩
  refine .bind ((concatStage_spec hA hr hready).imp ?_)
  rintro ⟨x₂, e₂⟩ ⟨htext, hconcat⟩
  have hfits₁ : r.Fits s₁ ∧ s₁.singleBlockWrappers = s.singleBlockWrappers := by
    obtain ⟨js, jcalls, c, hjs, -, rfl⟩ := hjoint
    exact ⟨⟨hjs.blocks.trans hfits.joint, hfits.single⟩, rfl⟩
  have hws₁ : ∀ w ∈ s₁.singleBlockWrappers, w.textSeqLen = p.textSeqLen ∧ Ready p n w := by
    rw [hfits₁.2]
    exact fun w hw => hws w (List.mem_append_right _ hw)
  refine .bind ((singleStage_spec hA hr hfits₁.1 hws₁ hconcat).imp ?_)
  · rintro ⟨x₃, s₃⟩ hsingle
    exact .pure ⟨htext, .of_stages hfits hjoint hsingle⟩

end DiffusionRunner

end Exo
