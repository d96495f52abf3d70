import Exo.Cluster.Planning
import Exo.Lib.Double
import Exo.Routing.EventRouter

/-!
# Waiting longer after every failure

The delay before an attempt doubles with every attempt, up to a cap. It is computed with doubles: the
power first, then the product, then the minimum. The product may be infinite, which the cap takes
care of; the power may not, it raises.

The worker's plan asks two backoffs, one by instance and one by model. The event router counts its
own requests for missing events.
-/

namespace Exo

namespace Backoff

open Lib

/-- A finite double. -/
structure Double where
  value : ℚ
  rounded : toDouble value = value
  finite : overflows value = false

/-- `2.0**attempts`. -/
def powerOfTwo (attempts : Nat) : Option ℚ :=
  if overflows (2 ^ attempts) then none else some (toDouble (2 ^ attempts))

/-- `min(cap, base * (2.0**attempts))`. A cap is less than infinity. -/
def delay (base cap : ℚ) (attempts : Nat) : Option ℚ :=
  (powerOfTwo attempts).map fun power =>
    if overflows (base * power) then cap else min cap (toDouble (base * power))

/-- `KeyedBackoff`, with a base that is not negative. -/
structure KeyedBackoff (K : Type) where
  base : Double
  cap : Double
  base_nonneg : 0 ≤ base.value
  numAttempts : Dict K Nat := .empty
  lastTime : Dict K ℚ := .empty

namespace KeyedBackoff

variable {K : Type} [DecidableEq K] (b : KeyedBackoff K)

def attempts (key : K) : Nat := (b.numAttempts.get? key).getD 0

/-- `none` is an `OverflowError`. -/
def shouldProceed (now : ℚ) (key : K) : Option Bool :=
  (delay b.base.value b.cap.value (b.attempts key)).map fun delay =>
    decide (delay ≤ toDouble (now - (b.lastTime.get? key).getD 0))

def recordAttempt (now : ℚ) (key : K) : KeyedBackoff K :=
  { b with
    lastTime := b.lastTime.set key now
    numAttempts := b.numAttempts.set key (b.attempts key + 1) }

def reset (key : K) : KeyedBackoff K :=
  { b with numAttempts := b.numAttempts.erase key, lastTime := b.lastTime.erase key }

end KeyedBackoff

end Backoff

namespace EventRouter

def nackBaseSeconds : ℚ := 1 / 2
def nackCapSeconds : ℚ := 10

/-- `_nack_request`, up to its sleep; `none` is an `OverflowError`. -/
def nackRequest (r : EventRouter) (id : Nat) : Option (ℚ × EventRouter) :=
  (Backoff.delay nackBaseSeconds nackCapSeconds r.nackAttempts).map fun delay =>
    (delay, r.nackEnter id)

end EventRouter

namespace Backoff

open Lib

/-! ## The delay -/

theorem overflows_two_pow (n : Nat) : overflows (2 ^ n) = decide (1024 ≤ n) := by
  rw [overflows, toDouble_two_pow, abs_of_pos (pow_pos two_pos n)]
  exact decide_eq_decide.mpr (pow_le_pow_iff_right₀ one_lt_two)

theorem powerOfTwo_eq (n : Nat) : powerOfTwo n = if 1024 ≤ n then none else some (2 ^ n) := by
  simp only [powerOfTwo, overflows_two_pow, decide_eq_true_eq, toDouble_two_pow]

/-- **The delay is exact, where there is one.** -/
theorem delay_eq {base : ℚ} (hbase : toDouble base = base) (hpos : 0 ≤ base) (cap : Double)
    (n : Nat) : delay base cap.value n =
      if 1024 ≤ n then none else some (min cap.value (base * 2 ^ n)) := by
  unfold delay
  rw [powerOfTwo_eq]
  split
  · rfl
  · rw [Option.map_some, toDouble_mul_two_pow hbase]
    congr 1
    split
    · -- an infinite product is above every finite cap
      rename_i hinf
      have hprod : (0 : ℚ) ≤ base * 2 ^ n := mul_nonneg hpos (pow_nonneg zero_le_two n)
      rw [overflows, toDouble_mul_two_pow hbase, decide_eq_true_eq, abs_of_nonneg hprod] at hinf
      have hcap := cap.finite
      rw [overflows, cap.rounded, decide_eq_false_iff_not, not_le] at hcap
      exact (min_eq_left ((le_abs_self cap.value).trans (hcap.le.trans hinf))).symm
    · rfl

theorem finite_of_small {q : ℚ} (h : |toDouble q| < 2 ^ 4) : overflows q = false := by
  refine decide_eq_false (not_le.mpr (h.trans_le ?_))
  exact pow_le_pow_right₀ one_le_two (by norm_num)

/-- `_nack_cap_seconds`. -/
def nackCap : Double where
  value := EventRouter.nackCapSeconds
  rounded := by exact_mod_cast toDouble_natCast (n := 10) (by norm_num)
  finite := by
    have hten : toDouble EventRouter.nackCapSeconds = 10 := by
      exact_mod_cast toDouble_natCast (n := 10) (by norm_num)
    refine finite_of_small ?_
    rw [hten]
    norm_num

theorem toDouble_half : toDouble (1 / 2) = 1 / 2 := by
  refine toDouble_eq_self (n := 2 ^ 52) ?_
  have hlog : Int.log 2 (1 / 2 : ℚ) = -1 := by
    have hpow : (1 / 2 : ℚ) = 2 ^ (-1 : ℤ) := by norm_num
    rw [hpow]
    exact Int.log_zpow one_lt_two (-1)
  have hexp : ulpExponent (1 / 2) = -53 := by
    rw [ulpExponent, abs_of_pos one_half_pos, hlog]
    rfl
  rw [hexp]
  norm_num

/-! ## The plan of a worker -/

/-- The delay of the worker's backoffs, in milliseconds. -/
theorem delay_worker (n : Nat) : delay (1 / 2) nackCap.value n =
    if Exo.KeyedBackoff.maxExponent ≤ n then none
    else some (((min Exo.KeyedBackoff.cap (Exo.KeyedBackoff.base * 2 ^ n) : Nat) : ℚ) / 1000) := by
  rw [delay_eq toDouble_half (by norm_num) nackCap n]
  refine ite_congr rfl (fun _ => rfl) fun _ => congrArg some ?_
  have hcap : nackCap.value = (Exo.KeyedBackoff.cap : ℚ) / 1000 := by
    norm_num [nackCap, EventRouter.nackCapSeconds, Exo.KeyedBackoff.cap]
  have hbase : (1 / 2 : ℚ) * 2 ^ n = ((Exo.KeyedBackoff.base * 2 ^ n : Nat) : ℚ) / 1000 := by
    rw [Nat.cast_mul, Nat.cast_pow, Nat.cast_ofNat, mul_div_right_comm]
    norm_num [Exo.KeyedBackoff.base]
  rw [hcap, hbase, Nat.cast_min, min_div_div_right (by norm_num)]

/-- The worker's backoffs raise where the power does, and else compare with this delay. -/
theorem shouldProceed_worker (b : Exo.KeyedBackoff) (now : Time) (key : Nat) :
    b.shouldProceed now key =
      match delay (1 / 2) nackCap.value (b.numAttempts key) with
      | none => .error .overflowError
      | some delay => .ok (decide (delay ≤ ((now - (b.lastTime.get? key).getD 0 : Nat) : ℚ) / 1000)) := by
  rw [delay_worker]
  unfold Exo.KeyedBackoff.shouldProceed
  split
  · rfl
  · refine congrArg Except.ok (decide_eq_decide.mpr ?_)
    rw [div_le_div_iff_of_pos_right (by norm_num), Nat.cast_le]

theorem firstAnswer_error {α β : Type} {f : α → Except PlanError (Option β)} {l : List α}
    {e : PlanError} (h : firstAnswer f l = .error e) : ∃ a ∈ l, f a = .error e := by
  induction l with
  | nil => cases h
  | cons a l ih =>
      rw [firstAnswer] at h
      split at h
      · obtain ⟨a', ha', he⟩ := ih h
        exact ⟨a', List.mem_cons_of_mem a ha', he⟩
      · exact ⟨a, List.mem_cons_self, h⟩

theorem allServe_ne_overflow (allRunners : Dict RunnerId RunnerStatus) (runnerIds : List RunnerId) :
    allServe allRunners runnerIds ≠ .error .overflowError := by
  induction runnerIds with
  | nil => exact fun h => by cases h
  | cons r runnerIds ih =>
      rw [allServe]
      split
      · exact fun h => by cases h
      · split
        · exact ih
        · exact fun h => by cases h

/-- A plan overflows only where it asks a backoff that is exhausted. -/
theorem exhausted_of_plan {p : PlanInput} (h : p.plan = .error .overflowError) :
    p.CreateOverflows ∨ ∃ modelId, p.downloadBackoff.Exhausted modelId := by
  obtain ⟨place, hplace, herror⟩ := firstAnswer_error h
  simp only [List.mem_cons, List.not_mem_nil, or_false] at hplace
  rcases hplace with rfl | rfl | rfl | rfl | rfl | rfl | rfl | rfl
  · cases herror
  · cases herror
  · exact .inl (PlanInput.raised_createRunner.1 ⟨_, herror⟩)
  · obtain ⟨i, runner, -, -, -, hexhausted⟩ :=
      PlanInput.raised_modelNeedsDownload.1 ⟨_, herror⟩
    exact .inr ⟨_, hexhausted⟩
  · -- the other places raise other errors
    obtain ⟨runner, -, he⟩ := firstAnswer_error herror
    dsimp only at he
    repeat' split at he
    all_goals cases he
  · cases herror
  · obtain ⟨runner, -, he⟩ := firstAnswer_error herror
    dsimp only at he
    repeat' split at he
    all_goals cases he
  · obtain ⟨task, -, he⟩ := firstAnswer_error herror
    split at he
    · cases he
    · obtain ⟨runner, -, he⟩ := firstAnswer_error he
      split at he
      · cases he
      · cases hserve : allServe p.allRunners runner.boundInstance.inst.runnerIds with
        | ok ready =>
            rw [hserve] at he
            cases he
        | error e =>
            rw [hserve] at he
            cases he
            exact absurd hserve (allServe_ne_overflow _ _)

/-! ## Any number of attempts -/

/-- After so many attempts the delay is what it should be, and ends nothing. -/
structure CappedAt (n : Nat) : Prop where
  keyed : ∀ (K : Type) [DecidableEq K] (b : KeyedBackoff K) (now : ℚ) (key : K),
    b.attempts key = n → b.shouldProceed now key =
      some (decide (min b.cap.value (b.base.value * 2 ^ n) ≤
        toDouble (now - (b.lastTime.get? key).getD 0)))
  nack : ∀ (r : EventRouter) (id : Nat), r.nackAttempts = n → r.nackRequest id =
    some (min EventRouter.nackCapSeconds (EventRouter.nackBaseSeconds * 2 ^ n), r.nackEnter id)
  monotone : ∀ base cap : Double, 0 ≤ base.value → ∀ m ≤ n, ∃ shorter longer,
    delay base.value cap.value m = some shorter ∧ delay base.value cap.value n = some longer ∧
      shorter ≤ longer
  /-- A worker that asked for no download more often goes on planning. -/
  plan : ∀ (sha256 : Base64Image → Base64ImageHash) (nodeIds : List NodeId) (s : Cluster),
    (Cluster.machine sha256 nodeIds).Reachable s → ∀ node w, s.workers.get? node = some w →
      (∀ modelId, w.downloadBackoff.numAttempts modelId ≤ n) →
        ∀ now taskId, (w.planInput now taskId).plan ≠ .error .overflowError

theorem nackRequest_eq (r : EventRouter) (id : Nat) : r.nackRequest id =
    if 1024 ≤ r.nackAttempts then none else
      some (min EventRouter.nackCapSeconds (EventRouter.nackBaseSeconds * 2 ^ r.nackAttempts),
        r.nackEnter id) := by
  unfold EventRouter.nackRequest
  rw [show EventRouter.nackCapSeconds = nackCap.value from rfl,
    show EventRouter.nackBaseSeconds = 1 / 2 from rfl,
    delay_eq toDouble_half (by norm_num) nackCap]
  split <;> rfl

/-- **The backoffs are total** up to 1023 attempts, and after no more. -/
theorem cappedAt_iff (n : Nat) : CappedAt n ↔ n < 1024 := by
  constructor
  · intro h
    by_contra hn
    have hrouter := h.nack { sessionId := ⟨0, 0⟩, nackAttempts := n } 0 rfl
    rw [nackRequest_eq, if_pos (not_lt.mp hn)] at hrouter
    cases hrouter
  · intro hn
    have hle : ∀ m ≤ n, ¬ 1024 ≤ m := fun m hm => by omega
    refine ⟨fun K _ b now key hattempts => ?_, fun r id hattempts => ?_,
      fun base cap hbase m hm => ?_, fun sha256 nodeIds s hs node w hw hfew now taskId hplan => ?_⟩
    · unfold KeyedBackoff.shouldProceed
      rw [hattempts, delay_eq b.base.rounded b.base_nonneg, if_neg (hle n le_rfl)]
      rfl
    · rw [nackRequest_eq, hattempts, if_neg (hle n le_rfl)]
    · rw [delay_eq base.rounded hbase, delay_eq base.rounded hbase, if_neg (hle m hm),
        if_neg (hle n le_rfl)]
      refine ⟨_, _, rfl, rfl, min_le_min_left _ (mul_le_mul_of_nonneg_left ?_ hbase)⟩
      exact pow_le_pow_right₀ one_le_two hm
    · rcases exhausted_of_plan hplan with hcreate | ⟨modelId, hexhausted⟩
      · exact Cluster.not_createOverflows (Cluster.retries_reachable hs hw) now taskId hcreate
      · have hmany : 1024 ≤ w.downloadBackoff.numAttempts modelId := hexhausted
        have := hfew modelId
        omega

/-- The power of two is no double after 1024 attempts. -/
theorem not_forall_cappedAt : ¬ ∀ n, CappedAt n := by
  intro h
  have hrouter := (h 1024).nack { sessionId := ⟨0, 0⟩, nackAttempts := 1024 } 0 rfl
  rw [nackRequest_eq, if_pos (by exact le_rfl)] at hrouter
  cases hrouter

end Backoff

end Exo
