import Mathlib.Algebra.BigOperators.Group.Finset.Basic
import Mathlib.Algebra.Order.BigOperators.Group.Finset
import Exo.Lib.Sequence
import Exo.Worker.Prefill

/-!
# Pipeline prefill is safe exactly without a distributed callback

Without a callback every rank is a relay: receive a hidden state, send one. The
first rank never waits, so every rank gets what it waits for, and all of them end.

With a callback, the first rank is at a collective before it has sent anything. The
second rank is waiting for what the first has queued, so it never comes to the
collective, and neither goes on.
-/

namespace Exo

open Lib

/-- What is asked of the prefill of a group. -/
structure PrefillSafe (cfg : PrefillConfig) : Prop where
  /-- The ranks are never all stuck. -/
  progress : ∀ g, cfg.machine.Reachable g → ¬ g.Deadlocked cfg.size
  /-- They can be scheduled to the end from everywhere. -/
  completes : ∀ g, cfg.machine.Reachable g →
    ∃ as g', cfg.machine.run g as = some g' ∧ g'.Finished cfg.size
  /-- What a rank receives is what it waited for. -/
  matched : ∀ g, cfg.machine.Reachable g → ∀ p ∈ g.received, p.1 = p.2
  /-- If one rank is cancelled, all that end are, after the same call. -/
  together : ∀ g, cfg.machine.Reachable g → ∀ r < cfg.size, ∀ call,
    (g.procs r).result? = some (.cancelled call) →
    ∀ r' < cfg.size, ∀ a, (g.procs r').result? = some a → a = .cancelled call
  /-- At the end nothing is in flight. -/
  clean : ∀ g, cfg.machine.Reachable g → g.Finished cfg.size → ∀ i j, g.queues i j = []

/-! ## Relays -/

/-- A rank that receives and sends on, for every call. -/
def relay (n r : Nat) : List Hidden → Rank PrefillEnd
  | [] => .pure .complete
  | x :: xs =>
      let rest := if r ≠ n - 1 then .send ((r + 1) % n) x (relay n r xs) else relay n r xs
      if r ≠ 0 then .recv (r - 1) x fun _ => rest else rest

namespace PrefillConfig

variable (cfg : PrefillConfig)

/-- All calls of the model, in order. -/
def calls : List Hidden := cfg.realCalls ++ cfg.lastCalls

theorem tailLoop_eq_relay (r : Nat) (xs : List Hidden) :
    cfg.tailLoop r xs = relay cfg.size r xs := by
  induction xs with
  | nil => rfl
  | cons x xs ih =>
      rw [tailLoop, ih, relay]
      by_cases h0 : r ≠ 0 <;> by_cases hn : r ≠ cfg.size - 1 <;>
        simp [callModel, pipelineFirstLayer, pipelineLastLayer, flushPrefillSends, prefillFlags,
          h0, hn]

/-- Without a callback, the loop is a relay too. -/
theorem chunkLoop_eq_relay (r : Nat) (xs ys : List Hidden) :
    cfg.chunkLoop r xs [] none (cfg.tailLoop r ys) = relay cfg.size r (xs ++ ys) := by
  induction xs with
  | nil => exact cfg.tailLoop_eq_relay r ys
  | cons x xs ih =>
      rw [chunkLoop, List.cons_append, relay, ih]
      by_cases h0 : r ≠ 0 <;> by_cases hn : r ≠ cfg.size - 1 <;>
        simp [callModel, pipelineFirstLayer, pipelineLastLayer, flushPrefillSends, prefillFlags,
          h0, hn]

theorem prefill_eq_relay (h : cfg.callback = none) (r : Nat) :
    cfg.prefill r = .gather .barrier fun _ => relay cfg.size r cfg.calls := by
  rw [calls, ← cfg.chunkLoop_eq_relay r cfg.realCalls cfg.lastCalls]
  simp [prefill, mxBarrier, pipelineParallelPrefill, h]

end PrefillConfig

/-- Where a relay stands: how many hidden states it has received, and how many it has sent. -/
inductive At (n : Nat) (cs : List Hidden) (r : Nat) : Rank PrefillEnd → Nat → Nat → Prop where
  /-- Between two calls. The last rank counts what it would have sent. -/
  | ready (k : Nat) (hk : k ≤ cs.length) : At n cs r (relay n r (cs.drop k)) k k
  /-- A rank in the middle holds what it has received. -/
  | holding (k : Nat) (x : Hidden) (h0 : r ≠ 0) (hn : r ≠ n - 1) (hx : cs[k]? = some x) :
      At n cs r (.send ((r + 1) % n) x (relay n r (cs.drop (k + 1)))) (k + 1) k

namespace At

variable {n : Nat} {cs : List Hidden} {r got put : Nat} {p : Rank PrefillEnd}

theorem drop_eq_cons {k : Nat} {x : Hidden} {xs : List Hidden} (h : cs.drop k = x :: xs) :
    cs[k]? = some x ∧ xs = cs.drop (k + 1) := by
  refine ⟨?_, ?_⟩
  · rw [← List.head?_drop, h]; rfl
  · rw [← List.tail_drop, h]; rfl

/-- A rank counts nothing that it has not been called for. -/
theorem bound (h : At n cs r p got put) : put ≤ got ∧ got ≤ put + 1 ∧ got ≤ cs.length := by
  cases h with
  | ready k hk => exact ⟨Nat.le_refl _, Nat.le_succ _, hk⟩
  | holding k x h0 hn hx =>
      have := (List.getElem?_eq_some_iff.mp hx).1
      exact ⟨Nat.le_succ _, Nat.le_refl _, this⟩

/-- A relay never comes to a collective. -/
theorem offer_none (h : At n cs r p got put) : p.offer? = none := by
  cases h with
  | holding k x h0 hn hx => rfl
  | ready k hk =>
      cases hd : cs.drop got with
      | nil => rfl
      | cons x xs =>
          rw [relay]
          by_cases h0 : r ≠ 0
          · rw [if_pos h0]; rfl
          · by_cases hn : r ≠ n - 1
            · simp only [if_neg h0, if_pos hn]; rfl
            · -- a group of one rank, which relays nothing
              rw [if_neg h0, if_neg hn]
              clear hd
              induction xs with
              | nil => rfl
              | cons y ys ih => rw [relay, if_neg h0, if_neg hn]; exact ih

/-- The state after a send. -/
theorem send_inv (hn2 : 2 ≤ n) (hr : r < n) {dst : Nat} {m : Hidden} {next : Rank PrefillEnd}
    (h : At n cs r (.send dst m next) got put) :
    cs[put]? = some m ∧ dst = r + 1 ∧ r + 1 < n ∧ (r ≠ 0 → got = put + 1)
      ∧ At n cs r next (put + 1) (put + 1) := by
  generalize hp : (Proc.send dst m next : Rank PrefillEnd) = p at h
  cases h with
  | holding k x h0 hn hx =>
      cases hp
      have hlt : r + 1 < n := by omega
      exact ⟨hx, Nat.mod_eq_of_lt hlt, hlt, fun _ => rfl,
        .ready _ (List.getElem?_eq_some_iff.mp hx).1⟩
  | ready k hk =>
      cases hd : cs.drop got with
      | nil => rw [hd, relay] at hp; cases hp
      | cons x xs =>
          rw [hd, relay] at hp
          by_cases h0 : r ≠ 0
          · rw [if_pos h0] at hp; cases hp
          · have hn : r ≠ n - 1 := by omega
            simp only [if_neg h0, if_pos hn] at hp
            cases hp
            obtain ⟨hx, rfl⟩ := drop_eq_cons hd
            have hlt : r + 1 < n := by omega
            exact ⟨hx, Nat.mod_eq_of_lt hlt, hlt, fun h0' => absurd h0' h0,
              .ready _ (List.getElem?_eq_some_iff.mp hx).1⟩

/-- The state after a receive. -/
theorem recv_inv {src : Nat} {wanted : Hidden} {next : Hidden → Rank PrefillEnd}
    (h : At n cs r (.recv src wanted next) got put) :
    r ≠ 0 ∧ src = r - 1 ∧ cs[got]? = some wanted
      ∧ ∃ put', put ≤ put' ∧ (r ≠ n - 1 → put' = put) ∧ ∀ m, At n cs r (next m) (got + 1) put' := by
  generalize hp : (Proc.recv src wanted next : Rank PrefillEnd) = p at h
  cases h with
  | holding k x h0 hn hx => cases hp
  | ready k hk =>
      cases hd : cs.drop got with
      | nil => rw [hd, relay] at hp; cases hp
      | cons x xs =>
          rw [hd, relay] at hp
          obtain ⟨hx, rfl⟩ := drop_eq_cons hd
          by_cases h0 : r ≠ 0
          · by_cases hn : r ≠ n - 1
            · simp only [if_pos h0, if_pos hn] at hp
              cases hp
              exact ⟨h0, rfl, hx, got, Nat.le_refl _, fun _ => rfl,
                fun m => .holding got _ h0 hn hx⟩
            · simp only [if_pos h0, if_neg hn] at hp
              cases hp
              have hlt := (List.getElem?_eq_some_iff.mp hx).1
              exact ⟨h0, rfl, hx, got + 1, Nat.le_succ _, fun hn' => absurd hn' hn,
                fun m => .ready _ hlt⟩
          · by_cases hn : r ≠ n - 1
            · simp only [if_neg h0, if_pos hn] at hp; cases hp
            · simp only [if_neg h0, if_neg hn] at hp
              -- a group of one rank, which receives nothing
              exfalso
              clear hd hx
              generalize cs.drop (got + 1) = l at hp
              induction l with
              | nil => cases hp
              | cons y ys ih => rw [relay, if_neg h0, if_neg hn] at hp; exact ih hp

/-- A relay that has ended has received and sent everything. -/
theorem pure_inv (hn2 : 2 ≤ n) {a : PrefillEnd} (h : At n cs r (.pure a) got put) :
    a = .complete ∧ got = cs.length ∧ put = cs.length := by
  generalize hp : (Proc.pure a : Rank PrefillEnd) = p at h
  cases h with
  | holding k x h0 hn hx => cases hp
  | ready k hk =>
      cases hd : cs.drop got with
      | nil =>
          rw [hd, relay] at hp
          cases hp
          have := List.drop_eq_nil_iff.mp hd
          exact ⟨rfl, by omega, by omega⟩
      | cons x xs =>
          rw [hd, relay] at hp
          by_cases h0 : r ≠ 0
          · rw [if_pos h0] at hp; cases hp
          · have hn : r ≠ n - 1 := by omega
            simp only [if_neg h0, if_pos hn] at hp
            cases hp

end At

/-- The relays of a group, and what is in flight between them. -/
structure Flow (n : Nat) (cs : List Hidden) (g : Group Hidden Contribution PrefillEnd)
    (got put : Nat → Nat) : Prop where
  /-- Every rank is somewhere. -/
  procs : ∀ r < n, At n cs r (g.procs r) (got r) (put r)
  /-- Between neighbours is what one has sent and the other has not received. -/
  link : ∀ r, r + 1 < n → g.queues r (r + 1) = (cs.take (put r)).drop (got (r + 1))
    ∧ got (r + 1) ≤ put r
  /-- Nothing else is in flight. -/
  other : ∀ i j, j ≠ i + 1 ∨ n ≤ j → g.queues i j = []
  /-- Whatever was received was wanted. -/
  received : ∀ p ∈ g.received, p.1 = p.2

/-- What the ranks still have to receive and send. -/
def Flow.left (n len : Nat) (got put : Nat → Nat) : Nat :=
  ∑ r ∈ Finset.range n, (2 * len - got r - put r)

namespace Flow

variable {n : Nat} {cs : List Hidden} {g g' : Group Hidden Contribution PrefillEnd}
  {got put : Nat → Nat}

/-- One rank receives or sends, and less is left. -/
theorem left_lt (h : Flow n cs g got put) {r : Nat} (hr : r < n) {a b : Nat}
    (hroom : put r < cs.length) (hlt : got r + put r < a + b) :
    Flow.left n cs.length (Function.update got r a) (Function.update put r b)
      < Flow.left n cs.length got put := by
  refine Finset.sum_lt_sum ?_ ⟨r, Finset.mem_range.mpr hr, ?_⟩
  · intro i hi
    by_cases hir : i = r
    · subst hir
      simp only [Function.update_self]
      omega
    · simp only [Function.update_of_ne hir]
      exact Nat.le_refl _
  · have hb := (h.procs r hr).bound
    simp only [Function.update_self]
    omega

/-- **A rank sends what the next one will want.** -/
theorem send (hn2 : 2 ≤ n) (h : Flow n cs g got put) {i : Nat}
    (hs : g.step n (.send i) = some g') :
    ∃ got' put', Flow n cs g' got' put'
      ∧ Flow.left n cs.length got' put' < Flow.left n cs.length got put := by
  simp only [Group.step] at hs
  split at hs
  · rename_i dst m next hp
    split at hs
    · rename_i hi
      obtain rfl := Option.some.inj hs
      obtain ⟨hm, rfl, hi1, hgot, hat⟩ := (hp ▸ h.procs i hi).send_inv hn2 hi
      have hroom := (List.getElem?_eq_some_iff.mp hm).1
      have hb := (h.procs i hi).bound
      refine ⟨Function.update got i (put i + 1), Function.update put i (put i + 1),
        ⟨?_, ?_, ?_, h.received⟩, h.left_lt hi hroom (by omega)⟩
      · intro r hr
        rw [Group.procs_setQueue, Group.procs_setProc]
        by_cases hri : r = i
        · subst hri; simpa using hat
        · rw [if_neg hri, Function.update_of_ne hri, Function.update_of_ne hri]
          exact h.procs r hr
      · intro r hr
        obtain ⟨hq, hle⟩ := h.link r hr
        rw [Group.queues_setQueue]
        by_cases hri : r = i
        · -- the queue it sends into grows by the hidden state of the call
          subst hri
          have hne : r + 1 ≠ r := by omega
          rw [if_pos ⟨rfl, rfl⟩, Function.update_self, Function.update_of_ne hne, hq,
            take_succ_of_getElem? hm, List.drop_append_of_le_length]
          · exact ⟨rfl, by omega⟩
          · rw [List.length_take]; omega
        · rw [if_neg (by omega), Function.update_of_ne hri]
          by_cases hri1 : r + 1 = i
          · -- only the first rank counts a receive with its send, and nobody sends to it
            subst hri1
            rw [Function.update_self, ← hgot (by omega)]
            exact ⟨hq, hle⟩
          · rw [Function.update_of_ne hri1]; exact ⟨hq, hle⟩
      · intro k l hkl
        rw [Group.queues_setQueue, if_neg (by omega)]
        exact h.other k l hkl
    · cases hs
  · cases hs

/-- **A rank receives what it wants.** -/
theorem recv (h : Flow n cs g got put) {i : Nat} (hs : g.step n (.recv i) = some g') :
    ∃ got' put', Flow n cs g' got' put'
      ∧ Flow.left n cs.length got' put' < Flow.left n cs.length got put := by
  simp only [Group.step] at hs
  split at hs
  · rename_i src wanted next hp
    split at hs
    · rename_i m rest hq
      split at hs
      · rename_i hi
        obtain rfl := Option.some.inj hs
        obtain ⟨h0, rfl, hw, put', hle', hput', hat⟩ := (hp ▸ h.procs i hi).recv_inv
        have hlt := (List.getElem?_eq_some_iff.mp hw).1
        have hb := (h.procs i hi).bound
        have hi1 : i - 1 + 1 = i := by omega
        -- the head of the queue is the next thing its neighbour sent, which is what it wants
        obtain ⟨hlink, hle⟩ := h.link (i - 1) (by omega)
        rw [hi1] at hlink hle
        rw [hlink] at hq
        obtain ⟨hget, hrest⟩ := At.drop_eq_cons hq
        have hput : got i < put (i - 1) := by
          have := (List.getElem?_eq_some_iff.mp hget).1
          rw [List.length_take] at this
          omega
        have hwm : wanted = m := by
          rw [List.getElem?_take, if_pos hput, hw] at hget
          exact Option.some.inj hget
        refine ⟨Function.update got i (got i + 1), Function.update put i put',
          ⟨?_, ?_, ?_, ?_⟩, h.left_lt hi (by omega) (by omega)⟩
        · intro r hr
          show At n cs r (((g.setProc i (next m)).setQueue (i - 1) i rest).procs r) _ _
          rw [Group.procs_setQueue, Group.procs_setProc]
          by_cases hri : r = i
          · subst hri; simpa using hat m
          · rw [if_neg hri, Function.update_of_ne hri, Function.update_of_ne hri]
            exact h.procs r hr
        · intro r hr
          obtain ⟨hqr, hler⟩ := h.link r hr
          show ((g.setProc i (next m)).setQueue (i - 1) i rest).queues r (r + 1) = _ ∧ _
          rw [Group.queues_setQueue]
          by_cases hri : r + 1 = i
          · -- the queue it receives from loses its head
            subst hri
            have hne : r ≠ r + 1 := by omega
            rw [if_pos ⟨by omega, rfl⟩, Function.update_self, Function.update_of_ne hne, hrest]
            rw [Nat.add_sub_cancel] at hput ⊢
            exact ⟨rfl, hput⟩
          · rw [if_neg (by omega), Function.update_of_ne hri]
            by_cases hri' : r = i
            · subst hri'
              rw [Function.update_self, hput' (by omega)]
              exact ⟨hqr, hler⟩
            · rw [Function.update_of_ne hri']; exact ⟨hqr, hler⟩
        · intro k l hkl
          show ((g.setProc i (next m)).setQueue (i - 1) i rest).queues k l = []
          rw [Group.queues_setQueue, if_neg (by omega)]
          exact h.other k l hkl
        · intro p hp'
          rcases List.mem_append.mp hp' with hp' | hp'
          · exact h.received p hp'
          · rw [List.mem_singleton.mp hp']; exact hwm
      · cases hs
    · cases hs
  · cases hs

/-- **A step of a flow is a step towards its end.** -/
theorem step (hn2 : 2 ≤ n) (h : Flow n cs g got put) {a : Group.Action}
    (hs : g.step n a = some g') :
    ∃ got' put', Flow n cs g' got' put'
      ∧ Flow.left n cs.length got' put' < Flow.left n cs.length got put := by
  cases a with
  | send i => exact h.send hn2 hs
  | recv i => exact h.recv hs
  | gather =>
      rw [Group.step_gather_none (i := 0) (by omega) (h.procs 0 (by omega)).offer_none] at hs
      cases hs

/-- A relay that has ended, at the end of what it was called for. -/
theorem ended (hn2 : 2 ≤ n) (h : Flow n cs g got put) {r : Nat} (hr : r < n) {a : PrefillEnd}
    (ha : (g.procs r).result? = some a) :
    a = .complete ∧ got r = cs.length ∧ put r = cs.length := by
  cases hp : g.procs r with
  | pure b =>
      rw [hp] at ha
      obtain rfl := Option.some.inj ha
      exact (hp ▸ h.procs r hr).pure_inv hn2
  | send dst m next => rw [hp] at ha; cases ha
  | recv src wanted next => rw [hp] at ha; cases ha
  | gather v next => rw [hp] at ha; cases ha

/--
**Some rank can go on, unless all have ended.** The first one that has not ended can:
the one before it has sent everything.
-/
theorem enabled (hn2 : 2 ≤ n) (h : Flow n cs g got put) :
    g.Finished n ∨ ∃ a g', g.step n a = some g' := by
  by_contra hno
  rw [not_or] at hno
  obtain ⟨hnf, hstuck⟩ := hno
  have hall : ∀ r, r < n → ((g.procs r).result?).isSome := by
    intro r
    induction r with
    | zero =>
        intro hr
        cases hp : g.procs 0 with
        | pure b => rfl
        | send dst m next => exact absurd ⟨_, _, Group.step_send hr hp⟩ hstuck
        | recv src wanted next => exact absurd rfl (hp ▸ h.procs 0 hr).recv_inv.1
        | gather v next =>
            have := (h.procs 0 hr).offer_none
            rw [hp] at this; cases this
    | succ r ih =>
        intro hr
        cases hp : g.procs (r + 1) with
        | pure b => rfl
        | send dst m next => exact absurd ⟨_, _, Group.step_send hr hp⟩ hstuck
        | gather v next =>
            have := (h.procs (r + 1) hr).offer_none
            rw [hp] at this; cases this
        | recv src wanted next =>
            obtain ⟨-, hsrc, hw, -⟩ := (hp ▸ h.procs (r + 1) hr).recv_inv
            obtain ⟨a, ha⟩ := Option.isSome_iff_exists.mp (ih (by omega))
            obtain ⟨-, -, hput⟩ := h.ended hn2 (by omega) ha
            obtain ⟨hq, -⟩ := h.link r hr
            have hlt := (List.getElem?_eq_some_iff.mp hw).1
            rw [hput, List.take_length] at hq
            cases hcons : cs.drop (got (r + 1)) with
            | nil =>
                have := List.drop_eq_nil_iff.mp hcons
                omega
            | cons m rest =>
                have hq' : g.queues src (r + 1) = m :: rest := by
                  rw [hsrc, Nat.add_sub_cancel, hq, hcons]
                exact absurd ⟨_, _, Group.step_recv hr hp hq'⟩ hstuck
  exact hnf hall

/-- At the end nothing is in flight. -/
theorem clean (hn2 : 2 ≤ n) (h : Flow n cs g got put) (hf : g.Finished n) (i j : Nat) :
    g.queues i j = [] := by
  by_cases hij : j ≠ i + 1 ∨ n ≤ j
  · exact h.other i j hij
  · obtain rfl : j = i + 1 := by omega
    obtain ⟨hq, -⟩ := h.link i (by omega)
    obtain ⟨a, ha⟩ := Option.isSome_iff_exists.mp (hf (i + 1) (by omega))
    obtain ⟨-, hgot, -⟩ := h.ended hn2 (by omega) ha
    rw [hq, hgot, List.drop_eq_nil_iff, List.length_take]
    omega

end Flow

/-! ## Without a callback -/

namespace PrefillConfig

variable {cfg : PrefillConfig} {g : Group Hidden Contribution PrefillEnd}

/-- The first step is the barrier, and after it the ranks are relays. -/
theorem start_step (hnone : cfg.callback = none) {a : Group.Action}
    (hs : cfg.machine.step (Group.start cfg.prefill) a = some g) :
    Flow cfg.size cfg.calls g (fun _ => 0) fun _ => 0 := by
  have hp : ∀ i, (Group.start cfg.prefill).procs i
      = .gather .barrier fun _ => relay cfg.size i cfg.calls := cfg.prefill_eq_relay hnone
  cases a with
  | send i | recv i =>
      simp only [machine, Group.machine, Group.step, hp] at hs
      cases hs
  | gather =>
      simp only [machine, Group.machine, Group.step] at hs
      split at hs
      · obtain rfl := Option.some.inj hs
        refine ⟨?_, ?_, fun _ _ _ => rfl, by simp [Group.start]⟩
        · intro r _
          dsimp only
          rw [hp]
          exact .ready 0 (Nat.zero_le _)
        · intro r _
          exact ⟨by simp [Group.start], Nat.le_refl _⟩
      · cases hs

/-- The barrier can always be passed. -/
theorem start_enabled (hnone : cfg.callback = none) :
    ∃ g', cfg.machine.step (Group.start cfg.prefill) .gather = some g' := by
  have hgather : ∀ i < cfg.size, ∃ v next, (Group.start cfg.prefill).procs i = .gather v next :=
    fun i _ => ⟨_, _, cfg.prefill_eq_relay hnone i⟩
  obtain ⟨vs, hvs⟩ := Group.step_gather hgather
  exact ⟨_, hvs⟩

/-- A reachable state is the first one, or a flow. -/
theorem flow_reachable (hnone : cfg.callback = none) (h2 : 2 ≤ cfg.size)
    (h : cfg.machine.Reachable g) :
    g = Group.start cfg.prefill ∨ ∃ got put, Flow cfg.size cfg.calls g got put := by
  refine h.invariant (P := fun g => g = Group.start cfg.prefill
    ∨ ∃ got put, Flow cfg.size cfg.calls g got put) (.inl rfl) ?_
  rintro s a s' (rfl | ⟨got, put, hf⟩) hs
  · exact .inr ⟨_, _, start_step hnone hs⟩
  · obtain ⟨got', put', hf', -⟩ := hf.step h2 hs
    exact .inr ⟨got', put', hf'⟩

/-- A flow runs to its end. -/
theorem flow_completes (h2 : 2 ≤ cfg.size) {got put : Nat → Nat}
    (hf : Flow cfg.size cfg.calls g got put) :
    ∃ as g', cfg.machine.run g as = some g' ∧ g'.Finished cfg.size := by
  let rank (k : Nat) (g : Group Hidden Contribution PrefillEnd) : Prop :=
    ∃ got put, Flow cfg.size cfg.calls g got put
      ∧ Flow.left cfg.size cfg.calls.length got put = k
  have hrank : rank _ g := ⟨got, put, hf, rfl⟩
  refine Machine.completes ?_ hrank
  rintro k s ⟨got, put, hf, rfl⟩
  rcases hf.enabled h2 with hfin | ⟨a, s', hs⟩
  · exact .inl hfin
  · obtain ⟨got', put', hf', hlt⟩ := hf.step h2 hs
    exact .inr ⟨a, s', _, hs, hlt, got', put', hf', rfl⟩

theorem start_not_finished (h2 : 2 ≤ cfg.size) :
    ¬ (Group.start cfg.prefill).Finished cfg.size := by
  intro hf
  have := hf 0 (by omega)
  cases this

/-- **Without a callback, prefill is safe.** -/
theorem safe_of_none (hnone : cfg.callback = none) (h2 : 2 ≤ cfg.size) : PrefillSafe cfg := by
  refine ⟨?_, ?_, ?_, ?_, ?_⟩
  · rintro g hg ⟨hnf, hstuck⟩
    rcases flow_reachable hnone h2 hg with rfl | ⟨got, put, hf⟩
    · obtain ⟨g', hs⟩ := start_enabled hnone
      rw [show cfg.machine.step _ .gather = none from hstuck .gather] at hs
      cases hs
    · rcases hf.enabled h2 with hfin | ⟨a, g', hs⟩
      · exact hnf hfin
      · rw [hstuck a] at hs; cases hs
  · intro g hg
    rcases flow_reachable hnone h2 hg with rfl | ⟨got, put, hf⟩
    · obtain ⟨g', hs⟩ := start_enabled hnone
      obtain ⟨as, g'', hrun, hfin⟩ := flow_completes h2 (start_step hnone hs)
      exact ⟨.gather :: as, g'', by rw [Machine.run_cons hs, hrun], hfin⟩
    · exact flow_completes h2 hf
  · intro g hg p hp
    rcases flow_reachable hnone h2 hg with rfl | ⟨got, put, hf⟩
    · cases hp
    · exact hf.received p hp
  · intro g hg r hr call hcall r' hr' a ha
    rcases flow_reachable hnone h2 hg with rfl | ⟨got, put, hf⟩
    · cases hcall
    · have := (hf.ended h2 hr hcall).1
      cases this
  · intro g hg hfin i j
    rcases flow_reachable hnone h2 hg with rfl | ⟨got, put, hf⟩
    · exact absurd hfin (start_not_finished h2)
    · exact hf.clean h2 hfin i j

/-! ## With a callback -/

/-- There is a first chunk. -/
theorem realCalls_ne_nil (h : 2 ≤ cfg.total) : ∃ x xs, cfg.realCalls = x :: xs := by
  obtain ⟨k, hk⟩ : ∃ k, cfg.total - 1 = k + 1 := ⟨cfg.total - 2, by omega⟩
  rw [realCalls, hk, realChunkSizes, if_neg (by omega), List.zipIdx_cons, List.map_cons]
  exact ⟨_, _, rfl⟩

variable {taskId : TaskId}

/-- The first rank comes to a collective, with its send still queued. -/
theorem chunkLoop_first {x : Hidden} {xs : List Hidden} {a : Agreements}
    {k : Rank PrefillEnd} :
    ∃ v next, cfg.chunkLoop 0 (x :: xs) [] (some (taskId, a)) k = .gather v next := by
  by_cases hn : 0 ≠ cfg.size - 1 <;>
    exact ⟨_, _, by
      simp only [chunkLoop, callModel, pipelineFirstLayer, pipelineLastLayer, prefillFlags,
        Agreements.promptProgressCallback, Agreements.agreeOnCancellations, mxAny,
        ne_eq, not_true_eq_false, if_false, if_true, hn, Proc.pure_bind, Proc.bind_assoc,
        Proc.gather_bind]
      rfl⟩

/-- Every other rank waits for the one before it. -/
theorem chunkLoop_other {r : Nat} (h0 : r ≠ 0) (x : Hidden) (xs : List Hidden)
    (callback : Option (TaskId × Agreements)) (k : Rank PrefillEnd) :
    ∃ next, cfg.chunkLoop r (x :: xs) [] callback k = .recv (r - 1) x next := by
  rw [chunkLoop, callModel, pipelineFirstLayer, if_pos h0]
  exact ⟨_, rfl⟩

/-- **With a callback, every rank is stuck right after the barrier.** -/
theorem deadlocked_of_callback {as : Nat → Agreements}
    (hcb : cfg.callback = some (taskId, as)) (h2 : 2 ≤ cfg.size) (ht : 2 ≤ cfg.total) :
    ∃ g, cfg.machine.run (Group.start cfg.prefill) [.gather] = some g ∧ g.Deadlocked cfg.size := by
  obtain ⟨x, xs, hx⟩ := cfg.realCalls_ne_nil ht
  have hp : ∀ r, cfg.prefill r = .gather .barrier fun _ =>
      cfg.chunkLoop r (x :: xs) [] (some (taskId, as r)) (cfg.tailLoop r cfg.lastCalls) := by
    intro r
    simp [prefill, mxBarrier, pipelineParallelPrefill, hcb, hx]
  have hgather : ∀ i < cfg.size, ∃ v next, (Group.start cfg.prefill).procs i = .gather v next :=
    fun i _ => ⟨_, _, hp i⟩
  obtain ⟨vs, hvs⟩ := Group.step_gather hgather
  have hrun : cfg.machine.run (Group.start cfg.prefill) [.gather] = some _ := Machine.run_cons hvs
  refine ⟨_, hrun, ?_⟩
  have hproc : ∀ r, (cfg.prefill r).gathered vs
      = cfg.chunkLoop r (x :: xs) [] (some (taskId, as r)) (cfg.tailLoop r cfg.lastCalls) := by
    intro r
    rw [hp]; rfl
  obtain ⟨next, hnext⟩ := cfg.chunkLoop_other Nat.one_ne_zero x xs (some (taskId, as 1))
    (cfg.tailLoop 1 cfg.lastCalls)
  refine Group.deadlocked_of_stuck ?_ h2 ((hproc 1).trans hnext)
  intro r hr
  show (∃ v next, (cfg.prefill r).gathered vs = .gather v next) ∨ _
  rw [hproc r]
  by_cases h0 : r = 0
  · subst h0
    exact .inl cfg.chunkLoop_first
  · obtain ⟨next, hnext⟩ := cfg.chunkLoop_other h0 x xs (some (taskId, as r))
      (cfg.tailLoop r cfg.lastCalls)
    exact .inr ⟨_, _, next, (hproc r).trans hnext, rfl⟩

/-- **Prefill of a long prompt is safe exactly when there is no distributed callback.** -/
theorem prefill_safe_iff (cfg : PrefillConfig) (h2 : 2 ≤ cfg.size)
    (hstep : 4 ≤ cfg.prefillStepSize) (htotal : cfg.prefillStepSize ≤ cfg.total) :
    PrefillSafe cfg ↔ cfg.callback = none := by
  constructor
  · intro h
    cases hcb : cfg.callback with
    | none => rfl
    | some c =>
        obtain ⟨g, hrun, hdead⟩ := deadlocked_of_callback hcb h2 (by omega)
        exact absurd hdead (h.progress g (Machine.reachable_of_run hrun))
  · exact fun h => safe_of_none h h2

theorem prefill_safe_iff_twoRanks :
    PrefillSafe { size := 2, total := 4096 } ↔ (none : Option (TaskId × (Nat → Agreements))) = none :=
  prefill_safe_iff { size := 2, total := 4096 } (by decide) (by decide) (by decide)

/-- Two ranks, a prompt of 4096 tokens, and nothing to cancel. -/
theorem prefill_not_safe :
    ¬ PrefillSafe { size := 2, total := 4096, callback := some (5, fun _ => {}) } := by
  intro h
  let cfg : PrefillConfig := { size := 2, total := 4096, callback := some (5, fun _ => {}) }
  have hcb : cfg.callback = some (5, fun _ => {}) := rfl
  obtain ⟨g, hrun, hdead⟩ := deadlocked_of_callback hcb (by decide) (by decide)
  exact h.progress g (Machine.reachable_of_run hrun) hdead

end PrefillConfig

end Exo
