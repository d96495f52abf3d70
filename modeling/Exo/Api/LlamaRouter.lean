import Exo.Lib.Double
import Mathlib.Data.List.MinMax
import Mathlib.Data.Prod.Lex
import Mathlib.Data.String.Basic

/-!
# The router of the llama replicas

A request waits for a replica, holds a lease on it while it is forwarded, and gives the lease back
on some of the ways it can end. Requests are coroutines of one event loop: between two awaits a
request runs alone, and the lock of the condition is never held across an await, so that taking it
does not suspend. A step of the router is therefore one request going from one await to the next.

When a waiting request is woken is left open: a notification, its own timeout and the end of another
waiting request all do it, and it then looks again.
-/

namespace Exo.Llama

open Lib (toDouble)

structure Replica where
  replicaId : String
  /-- The models it serves. -/
  models : List String
  maxConcurrency : Nat
  positive : 0 < maxConcurrency

structure Config where
  maximumQueueSize : Nat
  queueTimeout : Int
  failureCooldown : Int

/-- `_ReplicaRuntime` -/
structure Runtime where
  replica : Replica
  activeRequests : Int := 0
  completedRequests : Nat := 0
  failedRequests : Nat := 0
  unavailableUntil : Int := 0

/-- `_ReplicaLease`, on the runtime at an index. -/
structure Lease where
  runtime : Nat
  released : Bool
deriving DecidableEq

/-- The await a request stands at. -/
inductive Phase where
  /-- `self._condition.wait()` in `_acquire`, with its deadline. -/
  | waiting (deadline : Int)
  /-- `self._client.send(request)` -/
  | sending
  /-- `upstream.aread()` -/
  | reading (status : Nat)
  /-- `upstream.aclose()` of a request that is not streamed. -/
  | closing (failed : Bool)
  /-- The `StreamingResponse` is returned, its generator has not begun. -/
  | handedOver (status : Nat)
  /-- The next chunk of `upstream.aiter_raw()`. -/
  | streaming (failed : Bool)
  /-- `yield chunk` -/
  | yielding (failed : Bool)
  /-- `upstream.aclose()` in the generator's `finally`. -/
  | finishing (failed : Bool)
  /-- Returned, raised, or dropped by whoever had it. -/
  | ended
deriving DecidableEq

structure Request where
  model : String
  stream : Bool
  lease : Option Lease
  phase : Phase

/-- The router and all requests there have been, in the order they came. -/
structure Router where
  runtimes : List Runtime
  waitingRequests : Int := 0
  requests : List Request := []

/-- How an await ends. -/
inductive Outcome where
  | returns (status : Nat)
  /-- The upstream has no more chunks. -/
  | stops
  /-- `httpx.HTTPError` -/
  | httpError
  /-- Any other exception. -/
  | raises
  | cancelled
deriving DecidableEq

inductive Event where
  /-- A request comes in. `builds` is whether its upstream request can be built. -/
  | arrives (model : String) (stream : Bool) (started now : Int) (builds : Bool)
  /-- A waiting request looks again. -/
  | wakes (id : Nat) (now : Int) (builds : Bool)
  /-- The await of a request ends. -/
  | resumes (id : Nat) (outcome : Outcome) (now : Int)
  /-- The generator of a response begins. -/
  | starts (id : Nat)
  /-- A response is dropped before its generator began. -/
  | drops (id : Nat)
  /-- The generator is asked for the next chunk. -/
  | continues (id : Nat)
  /-- The generator is closed at its `yield`. -/
  | closes (id : Nat)

/-! ## Leases -/

def Runtime.candidate (model : String) (now : Int) (runtime : Runtime) : Bool :=
  model ∈ runtime.replica.models ∧ runtime.unavailableUntil ≤ now ∧
    runtime.activeRequests < runtime.replica.maxConcurrency

/-- What the candidates are compared by. -/
def Runtime.key (runtime : Runtime) : ℚ ×ₗ ℕ ×ₗ String :=
  toLex (toDouble (runtime.activeRequests / runtime.replica.maxConcurrency),
    toLex (runtime.completedRequests, runtime.replica.replicaId))

/-- The index of the replica that is selected. -/
def Router.select (s : Router) (model : String) (now : Int) : Option Nat :=
  ((s.runtimes.zipIdx.filter fun entry => entry.1.candidate model now).argmin
    fun entry => entry.1.key).map Prod.snd

/-- `selected.active_requests += 1` -/
def Router.lend (s : Router) (i : Nat) : Router :=
  { s with
    runtimes := s.runtimes.modify i fun runtime =>
      { runtime with activeRequests := runtime.activeRequests + 1 } }

/-- `release_runtime` -/
def Router.releaseRuntime (cfg : Config) (s : Router) (i : Nat) (failed : Bool) (now : Int) :
    Router :=
  { s with
    runtimes := s.runtimes.modify i fun runtime =>
      if failed then
        { runtime with
          activeRequests := runtime.activeRequests - 1
          failedRequests := runtime.failedRequests + 1
          unavailableUntil := now + cfg.failureCooldown }
      else
        { runtime with
          activeRequests := runtime.activeRequests - 1
          completedRequests := runtime.completedRequests + 1 } }

/-- A request goes on as `r`. -/
def Router.become (s : Router) (id : Nat) (r : Request) : Router :=
  { s with requests := s.requests.set id r }

/-- `lease.release(failed=...)`, and the request ends. -/
def Router.release (cfg : Config) (s : Router) (id : Nat) (r : Request) (failed : Bool)
    (now : Int) : Router :=
  match r.lease with
  | some lease =>
    if lease.released then s.become id { r with phase := .ended }
    else
      (s.releaseRuntime cfg lease.runtime failed now).become id
        { r with lease := some { lease with released := true }, phase := .ended }
  | none => s.become id { r with phase := .ended }

/-- What a request with a lease does up to its first await: the upstream request is built. -/
def afterAcquire (r : Request) (i : Nat) (builds : Bool) : Request :=
  { r with
    lease := some { runtime := i, released := false }
    phase := if builds then .sending else .ended }

/-! ## Steps -/

/-- The phase behind an await that ended, unless the lease is released there. -/
def nextPhase (stream : Bool) : Phase → Outcome → Phase
  | .sending, .returns status => if stream then .handedOver status else .reading status
  | .reading status, .returns _ => .closing (500 ≤ status)
  | .streaming failed, .returns _ => .yielding failed
  | .streaming _, .httpError => .finishing true
  | .streaming failed, _ => .finishing failed
  | _, _ => .ended

/-- Whether the lease is released behind an await that ended, and as what. -/
def releases : Phase → Outcome → Option Bool
  | .sending, .httpError => some true
  | .closing failed, .returns _ => some failed
  | .finishing failed, .returns _ => some failed
  | _, _ => none

/-- The ways an await of the upstream can end. Only a stream of chunks stops. -/
def Phase.accepts : Phase → Outcome → Bool
  | .streaming _, _ => true
  | .sending, outcome | .reading _, outcome | .closing _, outcome | .finishing _, outcome =>
    outcome ≠ .stops
  | .waiting _, _ | .handedOver _, _ | .yielding _, _ | .ended, _ => false

def Router.step (cfg : Config) (s : Router) : Event → Router
  | .arrives model stream started now builds =>
    let r : Request := { model, stream, lease := none, phase := .ended }
    if (cfg.maximumQueueSize : Int) ≤ s.waitingRequests then
      -- LlamaQueueFullError
      { s with requests := s.requests ++ [r] }
    else
      match s.select model now with
      | some i =>
        { s.lend i with requests := s.requests ++ [afterAcquire r i builds] }
      | none =>
        if started + cfg.queueTimeout - now ≤ 0 then
          { s with requests := s.requests ++ [r] }
        else
          { s with
            waitingRequests := s.waitingRequests + 1
            requests := s.requests ++
              [{ r with phase := .waiting (started + cfg.queueTimeout) }] }
  | .wakes id now builds =>
    match s.requests[id]? with
    | some r =>
      match r.phase with
      | .waiting deadline =>
        match s.select r.model now with
        | some i =>
          { (s.lend i).become id (afterAcquire r i builds) with
            waitingRequests := s.waitingRequests - 1 }
        | none =>
          if deadline - now ≤ 0 then
            -- LlamaQueueTimeoutError
            { s.become id { r with phase := .ended } with
              waitingRequests := s.waitingRequests - 1 }
          else s
      | _ => s
    | none => s
  | .resumes id outcome now =>
    match s.requests[id]? with
    | some r =>
      match r.phase with
      | .waiting _ =>
        if outcome = .cancelled then
          { s.become id { r with phase := .ended } with waitingRequests := s.waitingRequests - 1 }
        else s
      | phase =>
        if phase.accepts outcome then
          match releases phase outcome with
          | some failed => s.release cfg id r failed now
          | none => s.become id { r with phase := nextPhase r.stream phase outcome }
        else s
    | none => s
  | .starts id =>
    match s.requests[id]? with
    | some r =>
      match r.phase with
      | .handedOver status => s.become id { r with phase := .streaming (500 ≤ status) }
      | _ => s
    | none => s
  | .drops id =>
    match s.requests[id]? with
    | some r =>
      match r.phase with
      | .handedOver _ => s.become id { r with phase := .ended }
      | _ => s
    | none => s
  | .continues id =>
    match s.requests[id]? with
    | some r =>
      match r.phase with
      | .yielding failed => s.become id { r with phase := .streaming failed }
      | _ => s
    | none => s
  | .closes id =>
    match s.requests[id]? with
    | some r =>
      match r.phase with
      | .yielding failed => s.become id { r with phase := .finishing failed }
      | _ => s
    | none => s

def Router.init (replicas : List Replica) : Router where
  runtimes := replicas.map fun replica => { replica }

def Router.run (cfg : Config) (replicas : List Replica) (events : List Event) : Router :=
  events.foldl (Router.step cfg) (Router.init replicas)

end Exo.Llama
