import Exo.Api.LlamaRouter
import Exo.Lib.Sequence

/-!
# What the router counts and who holds a lease

Every lease that was not given back is counted in the runtime it is on, whether its request still
lives or not, and every waiting request is counted as waiting. So the counters are right at all
times; what goes wrong is that a request can end with its lease. Such a lease is never given back,
since nobody is left to do it.
-/

namespace Exo.Llama

open Lib (countP_set_add countP_set_eq sum_map_modify forall_take_iff_of_inv
  forall_mem_set_iff)

variable {cfg : Config} {s : Router}

/-- The request has a lease on the runtime at `i` that was not given back. -/
def Request.holdsAt (i : Nat) (r : Request) : Bool :=
  r.lease = some { runtime := i, released := false }

def Request.holds (r : Request) : Bool := r.lease.any fun lease => !lease.released

def Request.waits (r : Request) : Bool :=
  match r.phase with
  | .waiting _ => true
  | _ => false

/-- The lease of a request or stream that is still under way, which will give it back. -/
def Request.outstanding (r : Request) : Bool := r.holds && decide (r.phase ≠ .ended)

/-- The request is over and nobody gave back its lease. -/
def Request.kept (r : Request) : Bool := r.holds && decide (r.phase = .ended)

/-- The property the router is there for. -/
structure Accounted (cfg : Config) (s : Router) : Prop where
  within : ∀ runtime ∈ s.runtimes,
    0 ≤ runtime.activeRequests ∧
      runtime.activeRequests ≤ (runtime.replica.maxConcurrency : Int)
  sum : (s.runtimes.map Runtime.activeRequests).sum =
    (s.requests.countP Request.outstanding : Int)
  queue : s.requests.countP Request.waits ≤ cfg.maximumQueueSize
  none_kept : ∀ r ∈ s.requests, r.kept = false

/-- A lease is there from the end of the waiting on, and it is not given back before the end. -/
def Request.InOrder (n : Nat) (r : Request) : Prop :=
  match r.phase with
  | .waiting _ => r.lease = none
  | .ended => ∀ lease ∈ r.lease, lease.runtime < n
  | _ => ∃ i < n, r.lease = some { runtime := i, released := false }

structure Inv (cfg : Config) (s : Router) : Prop where
  /-- A runtime counts the leases on it that were not given back, kept ones too. -/
  active : ∀ i runtime, s.runtimes[i]? = some runtime →
    runtime.activeRequests = (s.requests.countP (Request.holdsAt i) : Int)
  within : ∀ runtime ∈ s.runtimes,
    runtime.activeRequests ≤ (runtime.replica.maxConcurrency : Int)
  sum : (s.runtimes.map Runtime.activeRequests).sum = (s.requests.countP Request.holds : Int)
  waiting : s.waitingRequests = (s.requests.countP Request.waits : Int)
  queue : s.waitingRequests ≤ (cfg.maximumQueueSize : Int)
  inOrder : ∀ r ∈ s.requests, r.InOrder s.runtimes.length

/-- What is counted is what is outstanding, and what was kept. -/
theorem holds_eq (l : List Request) :
    l.countP Request.holds = l.countP Request.outstanding + l.countP Request.kept := by
  induction l with
  | nil => rfl
  | cons r l ih =>
      simp only [List.countP_cons, ih, Request.outstanding, Request.kept]
      by_cases hr : r.phase = .ended <;> by_cases hh : r.holds = true <;> simp [hr, hh] <;> omega

/-- **The counters are right exactly if no lease was kept.** -/
theorem accounted_iff (h : Inv cfg s) : Accounted cfg s ↔ ∀ r ∈ s.requests, r.kept = false := by
  refine ⟨fun ha => ha.none_kept, fun hkept => ⟨fun runtime hr => ?_, ?_, ?_, hkept⟩⟩
  · obtain ⟨i, hi⟩ := List.mem_iff_getElem?.mp hr
    refine ⟨?_, h.within runtime hr⟩
    rw [h.active i runtime hi]
    exact Int.natCast_nonneg _
  · have hzero : s.requests.countP Request.kept = 0 := by
      rw [List.countP_eq_zero]
      intro r hr
      rw [hkept r hr]
      exact Bool.false_ne_true
    rw [h.sum, holds_eq, hzero, Nat.add_zero]
  · have hqueue := h.queue
    rw [h.waiting] at hqueue
    exact Int.ofNat_le.mp hqueue

/-! ## Requests that come -/

theorem inv_init (cfg : Config) (replicas : List Replica) : Inv cfg (Router.init replicas) where
  active i runtime hi := by
    obtain ⟨replica, -, rfl⟩ := List.mem_map.mp (List.mem_of_getElem? hi)
    rfl
  within runtime hr := by
    obtain ⟨replica, -, rfl⟩ := List.mem_map.mp hr
    exact Int.natCast_nonneg _
  sum := by
    rw [Router.init, List.map_map]
    exact List.sum_eq_zero fun n hn => by
      obtain ⟨replica, -, rfl⟩ := List.mem_map.mp hn
      rfl
  waiting := rfl
  queue := Int.natCast_nonneg _
  inOrder r hr := absurd hr List.not_mem_nil

variable {r : Request}

/-- A request that comes and gets no lease: it waits, or it is over. -/
theorem inv_arrive (h : Inv cfg s) {waiting : Int} (hl : r.lease = none)
    (horder : ∀ n, r.InOrder n) (hwaiting : waiting = s.waitingRequests + if r.waits then 1 else 0)
    (hroom : waiting ≤ cfg.maximumQueueSize) :
    Inv cfg { s with waitingRequests := waiting, requests := s.requests ++ [r] } := by
  have hat : ∀ i, r.holdsAt i = false := fun i => by simp [Request.holdsAt, hl]
  have hholds : r.holds = false := by simp [Request.holds, hl]
  refine ⟨fun i runtime hi => ?_, h.within, ?_, ?_, hroom, fun q hq => ?_⟩
  · simp [List.countP_append, hat, h.active i runtime hi]
  · simp [List.countP_append, hholds, h.sum]
  · cases hwaits : r.waits <;> simp [List.countP_append, hwaits, hwaiting, h.waiting]
  · rcases List.mem_append.mp hq with hq | hq
    · exact h.inOrder q hq
    · obtain rfl := List.mem_singleton.mp hq
      exact horder _

/-! ## Leases -/

theorem lend_getElem? (s : Router) (i j : Nat) :
    (s.lend i).runtimes[j]? = (s.runtimes[j]?).map fun runtime =>
      if i = j then { runtime with activeRequests := runtime.activeRequests + 1 } else runtime := by
  rw [Router.lend, List.getElem?_modify]
  rfl

variable {now : Int}

variable {i : Nat}

/-- A replica that is selected has room. -/
theorem select_room {model : String} (h : s.select model now = some i) :
    ∃ runtime, s.runtimes[i]? = some runtime ∧
      runtime.activeRequests < runtime.replica.maxConcurrency := by
  rw [Router.select, Option.map_eq_some_iff] at h
  obtain ⟨⟨runtime, j⟩, hmin, rfl⟩ := h
  have hmem := List.mem_filter.mp (List.argmin_mem hmin)
  refine ⟨runtime, List.mk_mem_zipIdx_iff_getElem?.mp hmem.1, ?_⟩
  have hcandidate := of_decide_eq_true hmem.2
  exact hcandidate.2.2

/-- What lending does to the counters, whatever it does to the requests. -/
structure Lent (i : Nat) (s s' : Router) : Prop where
  runtimes : s'.runtimes = (s.lend i).runtimes
  at_self : ∀ j, s'.requests.countP (Request.holdsAt j)
    = s.requests.countP (Request.holdsAt j) + if i = j then 1 else 0
  holds : s'.requests.countP Request.holds = s.requests.countP Request.holds + 1

variable {runtime : Runtime}

variable {s' : Router}

theorem Lent.inv (hl : Lent i s s') (h : Inv cfg s)
    (hi : s.runtimes[i]? = some runtime)
    (hroom : runtime.activeRequests < runtime.replica.maxConcurrency)
    (hwaiting : s'.waitingRequests = s'.requests.countP Request.waits)
    (hqueue : s'.waitingRequests ≤ cfg.maximumQueueSize)
    (hinOrder : ∀ r ∈ s'.requests, r.InOrder s.runtimes.length) : Inv cfg s' := by
  refine ⟨fun j runtime' hj => ?_, fun runtime' hr => ?_, ?_, hwaiting, hqueue, ?_⟩
  · rw [hl.runtimes, lend_getElem?, Option.map_eq_some_iff] at hj
    obtain ⟨before, hbefore, rfl⟩ := hj
    rw [hl.at_self j]
    by_cases hij : i = j
    · simp [hij, h.active j before hbefore]
    · simp [hij, h.active j before hbefore]
  · obtain ⟨j, hj⟩ := List.mem_iff_getElem?.mp hr
    rw [hl.runtimes, lend_getElem?, Option.map_eq_some_iff] at hj
    obtain ⟨before, hbefore, rfl⟩ := hj
    by_cases hij : i = j
    · subst hij
      rw [hi] at hbefore
      obtain rfl := Option.some.inj hbefore
      simp only [if_true]
      omega
    · simp only [if_neg hij]
      exact h.within before (List.mem_of_getElem? hbefore)
  · rw [hl.runtimes, hl.holds, Router.lend, sum_map_modify hi, h.sum]
    push_cast
    omega
  · have hlen : s'.runtimes.length = s.runtimes.length := by
      rw [hl.runtimes, Router.lend, List.length_modify]
    rw [hlen]
    exact hinOrder

/-- A request that goes on, or ends, with the lease that it has. -/
theorem inv_become (h : Inv cfg s) {id : Nat} {q r : Request} (hq : s.requests[id]? = some q)
    (hlease : r.lease = q.lease) (hwaits : r.waits = false)
    (hinOrder : r.InOrder s.runtimes.length) :
    Inv cfg { s.become id r with
      waitingRequests := s.waitingRequests - if q.waits then 1 else 0 } := by
  have hat : ∀ j, (s.requests.set id r).countP (Request.holdsAt j)
      = s.requests.countP (Request.holdsAt j) := fun j =>
    countP_set_eq hq (by simp only [Request.holdsAt, hlease])
  have hholds : (s.requests.set id r).countP Request.holds = s.requests.countP Request.holds :=
    countP_set_eq hq (by simp only [Request.holds, hlease])
  have hcount := countP_set_add (p := Request.waits) (a := r) hq
  rw [hwaits] at hcount
  have hwaiting := h.waiting
  have hqueue := h.queue
  refine ⟨fun j runtime hj => ?_, h.within, ?_, ?_, ?_, fun r' hr' => ?_⟩
  · rw [h.active j runtime hj]
    exact congrArg Nat.cast (hat j).symm
  · exact h.sum.trans (congrArg Nat.cast hholds.symm)
  · show s.waitingRequests - _ = (((s.requests.set id r).countP Request.waits : Nat) : Int)
    simp only [Bool.false_eq_true, if_false] at hcount
    split at hcount
    · simp_all
      omega
    · simp_all
  · show s.waitingRequests - _ ≤ _
    split <;> omega
  · rcases List.mem_or_eq_of_mem_set hr' with hr' | rfl
    · exact h.inOrder r' hr'
    · exact hinOrder

theorem afterAcquire_waits (r : Request) (i : Nat) (builds : Bool) :
    (afterAcquire r i builds).waits = false := by
  cases builds <;> rfl

theorem afterAcquire_inOrder (r : Request) {i n : Nat} (builds : Bool) (hi : i < n) :
    (afterAcquire r i builds).InOrder n := by
  cases builds with
  | true => exact ⟨i, hi, rfl⟩
  | false =>
      intro lease hlease
      obtain rfl := Option.some.inj hlease
      exact hi

theorem afterAcquire_holdsAt (r : Request) (i j : Nat) (builds : Bool) :
    (afterAcquire r i builds).holdsAt j = decide (i = j) := by
  simp [afterAcquire, Request.holdsAt]

/-- A request that gets a lease as it comes. -/
theorem inv_append_lent (h : Inv cfg s)
    (builds : Bool) (hi : s.runtimes[i]? = some runtime)
    (hroom : runtime.activeRequests < runtime.replica.maxConcurrency) :
    Inv cfg { s.lend i with requests := s.requests ++ [afterAcquire r i builds] } := by
  have hlt : i < s.runtimes.length := (List.getElem?_eq_some_iff.mp hi).1
  refine Lent.inv (i := i) (s := s) ⟨rfl, fun j => ?_, ?_⟩ h hi hroom ?_ h.queue fun q hq => ?_
  · simp [List.countP_append, afterAcquire_holdsAt, List.countP_cons]
  · simp [List.countP_append, afterAcquire, Request.holds]
  · simp [List.countP_append, afterAcquire_waits, Router.lend, h.waiting]
  · rcases List.mem_append.mp hq with hq | hq
    · exact h.inOrder q hq
    · obtain rfl := List.mem_singleton.mp hq
      exact afterAcquire_inOrder r builds hlt

variable {q : Request}

/-- A waiting request that gets a lease. -/
theorem inv_become_lent (h : Inv cfg s) {id i : Nat}
    (builds : Bool) (hq : s.requests[id]? = some q) (hw : q.waits = true) (hl : q.lease = none)
    (hi : s.runtimes[i]? = some runtime)
    (hroom : runtime.activeRequests < runtime.replica.maxConcurrency) :
    Inv cfg { (s.lend i).become id (afterAcquire q i builds) with
      waitingRequests := s.waitingRequests - 1 } := by
  have hlt : i < s.runtimes.length := (List.getElem?_eq_some_iff.mp hi).1
  have hcount := countP_set_add (p := Request.waits) (a := afterAcquire q i builds) hq
  rw [afterAcquire_waits, hw] at hcount
  have hwaiting := h.waiting
  have hqueue := h.queue
  refine Lent.inv (i := i) (s := s) ⟨rfl, fun j => ?_, ?_⟩ h hi hroom ?_ ?_ fun r hr => ?_
  · have hset := countP_set_add (p := Request.holdsAt j) (a := afterAcquire q i builds) hq
    have hnone : q.holdsAt j = false := by simp [Request.holdsAt, hl]
    rw [afterAcquire_holdsAt, hnone] at hset
    show (s.requests.set id (afterAcquire q i builds)).countP (Request.holdsAt j) = _
    simpa using hset
  · have hset := countP_set_add (p := Request.holds) (a := afterAcquire q i builds) hq
    have hnone : q.holds = false := by simp [Request.holds, hl]
    have hsome : (afterAcquire q i builds).holds = true := rfl
    rw [hsome, hnone] at hset
    show (s.requests.set id (afterAcquire q i builds)).countP Request.holds = _
    simpa using hset
  · show s.waitingRequests - 1
      = (((s.requests.set id (afterAcquire q i builds)).countP Request.waits : Nat) : Int)
    simp only [Bool.false_eq_true, if_false, if_true] at hcount
    omega
  · show s.waitingRequests - 1 ≤ _
    omega
  · rcases List.mem_or_eq_of_mem_set hr with hr | rfl
    · exact h.inOrder r hr
    · exact afterAcquire_inOrder q builds hlt

variable {failed : Bool}

theorem releaseRuntime_getElem? {i j : Nat}
    (h : (s.releaseRuntime cfg i failed now).runtimes[j]? = some runtime) :
    ∃ before, s.runtimes[j]? = some before ∧ runtime.replica = before.replica ∧
      runtime.activeRequests = before.activeRequests - if i = j then 1 else 0 := by
  rw [Router.releaseRuntime, List.getElem?_modify, Option.map_eq_map,
    Option.map_eq_some_iff] at h
  obtain ⟨before, hbefore, rfl⟩ := h
  refine ⟨before, hbefore, ?_⟩
  by_cases hij : i = j <;> cases failed <;> simp [hij]

theorem releaseRuntime_sum (hi : i < s.runtimes.length) :
    ((s.releaseRuntime cfg i failed now).runtimes.map Runtime.activeRequests).sum
      = (s.runtimes.map Runtime.activeRequests).sum - 1 := by
  rw [Router.releaseRuntime, sum_map_modify (List.getElem?_eq_getElem hi)]
  cases failed
  · simp only [Bool.false_eq_true, if_false]
    omega
  · simp only [if_true]
    omega

/-- A request that gives its lease back and ends. -/
theorem inv_release (h : Inv cfg s) {id i : Nat}
    (hq : s.requests[id]? = some q) (hw : q.waits = false) (hi : i < s.runtimes.length)
    (hl : q.lease = some { runtime := i, released := false }) :
    Inv cfg (s.release cfg id q failed now) := by
  let r : Request := { q with lease := some { runtime := i, released := true }, phase := .ended }
  have hrelease : s.release cfg id q failed now
      = (s.releaseRuntime cfg i failed now).become id r := by
    simp [Router.release, hl, r]
  have hat : ∀ j, (s.requests.set id r).countP (Request.holdsAt j) + (if i = j then 1 else 0)
      = s.requests.countP (Request.holdsAt j) := fun j => by
    have hset := countP_set_add (p := Request.holdsAt j) (a := r) hq
    simpa [Request.holdsAt, hl, r] using hset
  have hholds : (s.requests.set id r).countP Request.holds + 1
      = s.requests.countP Request.holds := by
    have hset := countP_set_add (p := Request.holds) (a := r) hq
    simpa [Request.holds, hl, r] using hset
  rw [hrelease]
  refine ⟨fun j runtime hj => ?_, fun runtime hr => ?_, ?_, ?_, h.queue, fun r' hr' => ?_⟩
  · obtain ⟨before, hbefore, -, hactive⟩ := releaseRuntime_getElem? hj
    have hbefore := h.active j before hbefore
    have hat := hat j
    show runtime.activeRequests = (((s.requests.set id r).countP (Request.holdsAt j) : Nat) : Int)
    split at hat
    · simp_all
      omega
    · simp_all
  · obtain ⟨j, hj⟩ := List.mem_iff_getElem?.mp hr
    obtain ⟨before, hbefore, hreplica, hactive⟩ := releaseRuntime_getElem? hj
    have hwithin := h.within before (List.mem_of_getElem? hbefore)
    rw [hreplica, hactive]
    split <;> omega
  · have hsum := h.sum
    show ((s.releaseRuntime cfg i failed now).runtimes.map Runtime.activeRequests).sum
      = (((s.requests.set id r).countP Request.holds : Nat) : Int)
    rw [releaseRuntime_sum hi]
    omega
  · exact h.waiting.trans (congrArg Nat.cast (countP_set_eq hq hw.symm).symm)
  · have hlength : (s.releaseRuntime cfg i failed now).runtimes.length = s.runtimes.length :=
      List.length_modify ..
    show r'.InOrder (s.releaseRuntime cfg i failed now).runtimes.length
    rw [hlength]
    rcases List.mem_or_eq_of_mem_set hr' with hr' | rfl
    · exact h.inOrder r' hr'
    · intro lease hlease
      obtain rfl := Option.some.inj hlease
      exact hi

/-! ## Steps -/

/-- How an await has to end for the request to end without its `lease.release`. -/
def Phase.loses : Phase → Outcome → Bool
  | .sending, outcome => outcome = .raises ∨ outcome = .cancelled
  | .reading _, outcome | .closing _, outcome | .finishing _, outcome =>
    outcome = .httpError ∨ outcome = .raises ∨ outcome = .cancelled
  | _, _ => false

/-- The step ends a request that has a lease, and nothing gives it back. -/
def Router.leaks (cfg : Config) (s : Router) : Event → Bool
  | .arrives model _ _ now builds =>
    !builds && decide (s.waitingRequests < cfg.maximumQueueSize) && (s.select model now).isSome
  | .wakes id now builds =>
    !builds && (s.requests[id]?).any fun r => r.waits && (s.select r.model now).isSome
  | .resumes id outcome _ => (s.requests[id]?).any fun r => r.phase.loses outcome
  | .drops id =>
    (s.requests[id]?).any fun r =>
      match r.phase with
      | .handedOver _ => true
      | _ => false
  | .starts _ | .continues _ | .closes _ => false

/-- What a step does, and whether a lease is lost with it. -/
inductive Change (cfg : Config) (s : Router) : Router → Bool → Prop where
  | same : Change cfg s s false
  | refused {r : Request} (hl : r.lease = none) (hp : r.phase = .ended) :
      Change cfg s { s with requests := s.requests ++ [r] } false
  | queued {r : Request} {deadline : Int} (hl : r.lease = none) (hp : r.phase = .waiting deadline)
      (hroom : s.waitingRequests < cfg.maximumQueueSize) :
      Change cfg s { s with
        waitingRequests := s.waitingRequests + 1
        requests := s.requests ++ [r] } false
  | lentNew {r : Request} {i : Nat} {runtime : Runtime} (builds : Bool)
      (hi : s.runtimes[i]? = some runtime)
      (hroom : runtime.activeRequests < runtime.replica.maxConcurrency) :
      Change cfg s { s.lend i with requests := s.requests ++ [afterAcquire r i builds] } !builds
  | lentWaiting {id i : Nat} {q : Request} {runtime : Runtime} (builds : Bool)
      (hq : s.requests[id]? = some q) (hw : q.waits = true)
      (hi : s.runtimes[i]? = some runtime)
      (hroom : runtime.activeRequests < runtime.replica.maxConcurrency) :
      Change cfg s { (s.lend i).become id (afterAcquire q i builds) with
        waitingRequests := s.waitingRequests - 1 } !builds
  | goesOn {id : Nat} {q : Request} {phase : Phase} (hq : s.requests[id]? = some q)
      (hstart : q.phase ≠ .ended) (hwaits : ∀ deadline, phase ≠ .waiting deadline)
      (hend : q.waits = true → phase = .ended) :
      Change cfg s { s.become id { q with phase } with
        waitingRequests := s.waitingRequests - if q.waits then 1 else 0 }
        (!q.waits && decide (phase = .ended))
  | released {id : Nat} {q : Request} {failed : Bool} {now : Int}
      (hq : s.requests[id]? = some q) (hstart : q.phase ≠ .ended) (hw : q.waits = false) :
      Change cfg s (s.release cfg id q failed now) false

variable {n : Nat}

/-- A request that is neither waiting nor over holds a lease. -/
theorem Request.InOrder.exists_lease (h : r.InOrder n)
    (hw : r.waits = false) (hp : r.phase ≠ .ended) :
    ∃ i < n, r.lease = some { runtime := i, released := false } := by
  cases hphase : r.phase with
  | waiting deadline => simp [Request.waits, hphase] at hw
  | ended => exact absurd hphase hp
  | sending | reading | closing | handedOver | streaming | yielding | finishing =>
      simpa [Request.InOrder, hphase] using h

theorem Request.InOrder.lease_eq_none (h : r.InOrder n)
    (hw : r.waits = true) : r.lease = none := by
  cases hphase : r.phase with
  | waiting deadline => simpa [Request.InOrder, hphase] using h
  | ended | sending | reading | closing | handedOver | streaming | yielding | finishing =>
      simp [Request.waits, hphase] at hw

variable {phase : Phase}

theorem Request.InOrder.become (h : q.InOrder n)
    (hp : q.phase ≠ .ended) (hwaits : ∀ deadline, phase ≠ .waiting deadline)
    (hend : q.waits = true → phase = .ended) : Request.InOrder n { q with phase } := by
  by_cases hw : q.waits = true
  · obtain rfl := hend hw
    intro lease hlease
    rw [show q.lease = none from h.lease_eq_none hw] at hlease
    cases hlease
  · obtain ⟨i, hi, hl⟩ := h.exists_lease (Bool.eq_false_iff.mpr hw) hp
    cases phase with
    | waiting deadline => exact absurd rfl (hwaits deadline)
    | ended =>
        intro lease hlease
        obtain rfl := Option.some.inj (hl.symm.trans hlease)
        exact hi
    | sending | reading | closing | handedOver | streaming | yielding | finishing =>
        exact ⟨i, hi, hl⟩

theorem Request.waits_eq_false (h : ∀ deadline, r.phase ≠ .waiting deadline) :
    r.waits = false := by
  cases hphase : r.phase with
  | waiting deadline => exact absurd hphase (h deadline)
  | ended | sending | reading | closing | handedOver | streaming | yielding | finishing =>
      simp [Request.waits, hphase]

theorem Change.inv {lost : Bool} (hc : Change cfg s s' lost) (h : Inv cfg s) :
    Inv cfg s' := by
  cases hc with
  | same => exact h
  | refused hl hp =>
      exact inv_arrive h hl (by simp [Request.InOrder, hp, hl]) (by simp [Request.waits, hp]) h.queue
  | queued hl hp hroom =>
      exact inv_arrive h hl (by simp [Request.InOrder, hp, hl]) (by simp [Request.waits, hp]) hroom
  | lentNew builds hi hroom => exact inv_append_lent h builds hi hroom
  | lentWaiting builds hq hw hi hroom =>
      have hl := (h.inOrder _ (List.mem_of_getElem? hq)).lease_eq_none hw
      exact inv_become_lent h builds hq hw hl hi hroom
  | goesOn hq hstart hwaits hend =>
      have hq' := h.inOrder _ (List.mem_of_getElem? hq)
      exact inv_become h hq rfl (Request.waits_eq_false hwaits) (hq'.become hstart hwaits hend)
  | released hq hstart hw =>
      obtain ⟨i, hi, hl⟩ := (h.inOrder _ (List.mem_of_getElem? hq)).exists_lease hw hstart
      exact inv_release h hq hw hi hl

/-- **A step ends with no lease kept exactly if none was kept before and it loses none.** -/
theorem Change.kept_iff {lost : Bool} (hc : Change cfg s s' lost) (h : Inv cfg s) :
    (∀ r ∈ s'.requests, r.kept = false) ↔
      (∀ r ∈ s.requests, r.kept = false) ∧ lost = false := by
  have hnone : ∀ {r : Request}, r.lease = none → r.kept = false := fun hl => by
    simp [Request.kept, Request.holds, hl]
  have hlive : ∀ {r : Request}, r.phase ≠ .ended → r.kept = false := fun hp => by
    simp [Request.kept, hp]
  have happend : ∀ r : Request, (∀ q ∈ s.requests ++ [r], q.kept = false) ↔
      (∀ q ∈ s.requests, q.kept = false) ∧ r.kept = false := fun r => by
    simp only [List.mem_append, List.mem_singleton, or_imp, forall_and, forall_eq]
  have hlent : ∀ (r : Request) (i : Nat) (builds : Bool),
      (afterAcquire r i builds).kept = false ↔ (!builds) = false := fun r i builds => by
    cases builds <;> simp [afterAcquire, Request.kept, Request.holds]
  cases hc with
  | same => simp
  | refused hl hp
  | queued hl hp hroom => exact (happend _).trans (and_congr_right' (by simp [hnone hl]))
  | lentNew builds hi hroom => exact (happend _).trans (and_congr_right' (hlent _ _ builds))
  | lentWaiting builds hq hw hi hroom =>
      have hl := (h.inOrder _ (List.mem_of_getElem? hq)).lease_eq_none hw
      exact (forall_mem_set_iff (P := fun r => r.kept = false) hq (hnone hl)).trans
        (and_congr_right' (hlent _ _ builds))
  | goesOn hq hstart hwaits hend =>
      refine (forall_mem_set_iff (P := fun r => r.kept = false) hq (hlive hstart)).trans
        (and_congr_right' ?_)
      have hq' := h.inOrder _ (List.mem_of_getElem? hq)
      rename_i q phase
      by_cases hw : q.waits = true
      · simp [Request.kept, Request.holds, hq'.lease_eq_none hw, hw]
      · obtain ⟨i, -, hl⟩ := hq'.exists_lease (Bool.eq_false_iff.mpr hw) hstart
        simp [Request.kept, Request.holds, hl, hw]
  | released hq hstart hw =>
      obtain ⟨i, -, hl⟩ := (h.inOrder _ (List.mem_of_getElem? hq)).exists_lease hw hstart
      simp only [Router.release, hl, Bool.false_eq_true, if_false]
      refine (forall_mem_set_iff (P := fun r => r.kept = false) hq (hlive hstart)).trans
        (and_congr_right' ?_)
      simp [Request.kept, Request.holds]

theorem Change.of_lost {lost lost' : Bool} (hc : Change cfg s s' lost)
    (h : lost' = lost) : Change cfg s s' lost' := h ▸ hc

/-- A request that is not waiting goes on, or ends, as it is. -/
theorem Change.moves {id : Nat} (hq : s.requests[id]? = some q)
    (hstart : q.phase ≠ .ended) (hw : q.waits = false)
    (hwaits : ∀ deadline, phase ≠ .waiting deadline) :
    Change cfg s (s.become id { q with phase }) (decide (phase = .ended)) := by
  have hc : Change cfg s _ _ := Change.goesOn hq hstart hwaits (by simp [hw])
  simpa [hw, Router.become] using hc

theorem nextPhase_ne_waiting (stream : Bool) (phase : Phase) (outcome : Outcome)
    (deadline : Int) : nextPhase stream phase outcome ≠ .waiting deadline := by
  cases phase <;> cases outcome <;> cases stream <;> simp [nextPhase]

variable {outcome : Outcome}

/-- Behind an await that does not release the lease, the request is over exactly if it loses it. -/
theorem nextPhase_eq_ended {stream : Bool}
    (ha : phase.accepts outcome = true) (hr : releases phase outcome = none) :
    decide (nextPhase stream phase outcome = .ended) = phase.loses outcome := by
  cases phase <;> cases outcome <;> cases stream <;>
    simp_all [nextPhase, Phase.loses, Phase.accepts, releases]

theorem loses_eq_false
    (h : releases phase outcome = some failed) : phase.loses outcome = false := by
  cases phase <;> cases outcome <;> simp_all [Phase.loses, releases]

theorem accepts_of_loses (h : phase.loses outcome = true) :
    phase.accepts outcome = true := by
  cases phase <;> cases outcome <;> simp_all [Phase.loses, Phase.accepts]

theorem resumes_change {id : Nat} (hq : s.requests[id]? = some q)
    (outcome : Outcome) (now : Int) :
    Change cfg s (s.step cfg (.resumes id outcome now)) (q.phase.loses outcome) := by
  -- what the step does to a request that is not waiting
  have hmoves : q.phase ≠ .ended → q.waits = false →
      s.step cfg (.resumes id outcome now) = (if q.phase.accepts outcome then
        (releases q.phase outcome).elim
          (s.become id { q with phase := nextPhase q.stream q.phase outcome })
          fun failed => s.release cfg id q failed now
      else s) →
      Change cfg s (s.step cfg (.resumes id outcome now)) (q.phase.loses outcome) := by
    intro hstart hw hstep
    rw [hstep]
    by_cases ha : q.phase.accepts outcome = true
    · rw [if_pos ha]
      cases hr : releases q.phase outcome with
      | some failed => exact (Change.released hq hstart hw).of_lost (loses_eq_false hr)
      | none =>
          have hc : Change cfg s _ _ := Change.moves hq hstart hw fun deadline =>
            nextPhase_ne_waiting q.stream q.phase outcome deadline
          exact hc.of_lost (nextPhase_eq_ended ha hr).symm
    · rw [if_neg ha]
      exact Change.same.of_lost (Bool.eq_false_iff.mpr fun hl => ha (accepts_of_loses hl))
  obtain ⟨model, stream, lease, phase⟩ := q
  cases phase with
  | waiting deadline =>
      simp only [Router.step, hq]
      by_cases hcancelled : outcome = .cancelled
      · rw [if_pos hcancelled]
        exact Change.goesOn hq (by simp) (by simp) fun _ => rfl
      · rw [if_neg hcancelled]
        exact .same
  | ended =>
      simp only [Router.step, hq]
      exact .same
  | sending | reading | closing | handedOver | streaming | yielding | finishing =>
      refine hmoves (by simp) rfl ?_
      simp only [Router.step, hq]
      cases releases _ outcome <;> rfl

theorem step_change (cfg : Config) (s : Router) (e : Event) :
    Change cfg s (s.step cfg e) (s.leaks cfg e) := by
  cases e with
  | arrives model stream started now builds =>
      simp only [Router.step]
      by_cases hfull : (cfg.maximumQueueSize : Int) ≤ s.waitingRequests
      · rw [if_pos hfull]
        exact (Change.refused rfl rfl).of_lost (by simp [Router.leaks, hfull])
      · rw [if_neg hfull]
        cases hselect : s.select model now with
        | some i =>
            obtain ⟨runtime, hi, hroom⟩ := select_room hselect
            exact (Change.lentNew builds hi hroom).of_lost
              (by simp [Router.leaks, hselect, Int.not_le.mp hfull])
        | none =>
            by_cases hlate : started + cfg.queueTimeout - now ≤ 0
            · simp only [if_pos hlate]
              exact (Change.refused rfl rfl).of_lost (by simp [Router.leaks, hselect])
            · simp only [if_neg hlate]
              exact (Change.queued rfl rfl (Int.not_le.mp hfull)).of_lost
                (by simp [Router.leaks, hselect])
  | wakes id now builds =>
      simp only [Router.step]
      cases hq : s.requests[id]? with
      | none => exact Change.same.of_lost (by simp [Router.leaks, hq])
      | some q =>
          obtain ⟨model, stream, lease, phase⟩ := q
          cases phase with
          | waiting deadline =>
              cases hselect : s.select model now with
              | some i =>
                  obtain ⟨runtime, hi, hroom⟩ := select_room hselect
                  have hc : Change cfg s _ _ := Change.lentWaiting builds hq rfl hi hroom
                  simpa [hselect] using hc.of_lost
                    (by simp [Router.leaks, hq, Request.waits, hselect])
              | none =>
                  have hlost : s.leaks cfg (.wakes id now builds) = false := by
                    simp [Router.leaks, hq, hselect]
                  by_cases hlate : deadline - now ≤ 0
                  · simp only [hselect, if_pos hlate]
                    exact (Change.goesOn hq (by simp) (by simp) fun _ => rfl).of_lost hlost
                  · simp only [hselect, if_neg hlate]
                    exact Change.same.of_lost hlost
          | ended | sending | reading | closing | handedOver | streaming | yielding
          | finishing =>
              exact Change.same.of_lost (by simp [Router.leaks, hq, Request.waits])
  | resumes id outcome now =>
      cases hq : s.requests[id]? with
      | none =>
          simp only [Router.step, hq]
          exact Change.same.of_lost (by simp [Router.leaks, hq])
      | some q => exact (resumes_change hq outcome now).of_lost (by simp [Router.leaks, hq])
  | starts id =>
      simp only [Router.step]
      cases hq : s.requests[id]? with
      | none => exact .same
      | some q =>
          obtain ⟨model, stream, lease, phase⟩ := q
          cases phase with
          | handedOver status => exact .moves hq (by simp) rfl (by simp)
          | waiting | ended | sending | reading | closing | streaming | yielding
          | finishing => exact .same
  | drops id =>
      simp only [Router.step]
      cases hq : s.requests[id]? with
      | none => exact Change.same.of_lost (by simp [Router.leaks, hq])
      | some q =>
          obtain ⟨model, stream, lease, phase⟩ := q
          cases phase with
          | handedOver status =>
              exact (Change.moves hq (by simp) rfl (by simp)).of_lost (by simp [Router.leaks, hq])
          | waiting | ended | sending | reading | closing | streaming | yielding
          | finishing => exact Change.same.of_lost (by simp [Router.leaks, hq])
  | continues id | closes id =>
      simp only [Router.step]
      cases hq : s.requests[id]? with
      | none => exact .same
      | some q =>
          obtain ⟨model, stream, lease, phase⟩ := q
          cases phase with
          | yielding failed => exact .moves hq (by simp) rfl (by simp)
          | waiting | ended | sending | reading | closing | handedOver | streaming
          | finishing => exact .same

/-! ## Runs -/

theorem run_append (cfg : Config) (replicas : List Replica) (events : List Event) (e : Event) :
    Router.run cfg replicas (events ++ [e]) = (Router.run cfg replicas events).step cfg e := by
  simp [Router.run]

/-- **Every lease is accounted for throughout a run exactly if no step of it ends a request behind
which nobody gives its lease back.** Those are the exceptions between the lease and the response
that are not an `httpx.HTTPError` of the `send`, the ones of `aread` and `aclose`, and a stream that
is dropped before it is read. -/
theorem run_accounted_iff (cfg : Config) (replicas : List Replica) (events : List Event) :
    (∀ k, Accounted cfg (Router.run cfg replicas (events.take k))) ↔
      ∀ k e, events[k]? = some e →
        (Router.run cfg replicas (events.take k)).leaks cfg e = false := by
  refine forall_take_iff_of_inv
    (I := fun es => Inv cfg (Router.run cfg replicas es) ∧
      ∀ r ∈ (Router.run cfg replicas es).requests, r.kept = false)
    (P := fun es => Accounted cfg (Router.run cfg replicas es))
    (G := fun es e => (Router.run cfg replicas es).leaks cfg e = false)
    ⟨inv_init cfg replicas, fun r hr => absurd hr List.not_mem_nil⟩ ?_ ?_ ?_
  · rintro k ⟨h, hkept⟩
    exact (accounted_iff h).mpr hkept
  · rintro k e - ⟨h, hkept⟩ hlost
    have hc := step_change cfg (Router.run cfg replicas (events.take k)) e
    rw [run_append]
    exact ⟨hc.inv h, (hc.kept_iff h).mpr ⟨hkept, hlost⟩⟩
  · rintro k e - ⟨h, -⟩ hlost haccounted
    have hc := step_change cfg (Router.run cfg replicas (events.take k)) e
    rw [run_append] at haccounted
    exact hlost ((hc.kept_iff h).mp haccounted.none_kept).2

/-- One request of the only replica is cancelled while it is sent upstream. The replica stays taken
for good. -/
theorem not_forall_accounted :
    ¬ ∀ (cfg : Config) (replicas : List Replica) (events : List Event) (k : Nat),
      Accounted cfg (Router.run cfg replicas (events.take k)) := by
  intro h
  let cfg : Config := { maximumQueueSize := 64, queueTimeout := 300, failureCooldown := 10 }
  let replica : Replica :=
    { replicaId := "a", models := ["m"], maxConcurrency := 1, positive := by decide }
  have hselect : (Router.init [replica]).select "m" 0 = some 0 := by
    simp [Router.select, Router.init, Runtime.candidate, replica]
  have hrequests : (Router.run cfg [replica]
      [.arrives "m" false 0 0 true, .resumes 0 .cancelled 1]).requests =
      [{ model := "m", stream := false, lease := some { runtime := 0, released := false }
         phase := .ended }] := by
    rw [Router.run, List.foldl_cons, List.foldl_cons, List.foldl_nil, Router.step, hselect]
    rfl
  have hkept := (h cfg [replica] [.arrives "m" false 0 0 true, .resumes 0 .cancelled 1] 2).none_kept
  rw [List.take_of_length_le (by simp), hrequests] at hkept
  exact absurd (hkept _ (List.mem_singleton_self _)) (by decide)

end Exo.Llama
