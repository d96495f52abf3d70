import Exo.Lib.Machine

/-!
# The compute slots of a session

A session has a file with its allocation and a bounded semaphore of that many slots. `compute_slot`
reads the count, looks the semaphore up under a lock, and holds a permit of it while its body runs.
`allocate` writes the count and forgets the semaphore, so that the next `compute_slot` makes a new one.
Permits of a forgotten semaphore are still held then. Calls run in threads; between two of the steps
below other threads may run.
-/

namespace Exo.Resources

open Lib (Machine)

/-- A `BoundedSemaphore`. -/
structure Semaphore where
  slots : Nat
  value : Nat
  deriving DecidableEq

/-- A call on the session. `allocate` has the count of its overrides, if they have one. -/
inductive Call where
  | get
  | allocate (computeSlots : Option Nat)
  | computeSlot
  deriving DecidableEq

/-- Where a call stands. -/
inductive Phase where
  /-- In front of `get`. -/
  | begun
  /-- In front of `path.write_text`. -/
  | writing (slots : Nat)
  /-- In front of `self._semaphores.pop`. -/
  | written (slots : Nat)
  /-- In front of `_semaphore`. -/
  | got (slots : Nat)
  /-- In `semaphore.acquire`. -/
  | waiting (semaphore : Nat)
  /-- In the body, with the number of counts that had been written when it entered. -/
  | holding (semaphore since : Nat)
  | ended
  deriving DecidableEq

structure Thread where
  call : Call
  phase : Phase := .begun
  acquired : Option Nat := none
  released : List Nat := []
  deriving DecidableEq

namespace Thread

def holds (k : Nat) (t : Thread) : Bool :=
  match t.phase with
  | .holding semaphore _ => semaphore = k
  | _ => false

def isHolding (t : Thread) : Bool :=
  match t.phase with
  | .holding .. => true
  | _ => false

end Thread

/-- The counts written to the file, the semaphores that were made, and the calls. -/
structure Manager where
  configs : List Nat := []
  /-- The entry of `_semaphores`. -/
  current : Option (Nat × Nat) := none
  semaphores : List Semaphore := []
  threads : List Thread := []
  deriving DecidableEq

namespace Manager

variable (s : Manager)

/-- The count in the file. -/
def configured : Option Nat := s.configs.getLast?

def setPhase (i : Nat) (t : Thread) (phase : Phase) : Manager :=
  { s with threads := s.threads.set i { t with phase } }

/-- `get`, and what `allocate` computes from the allocation there is. -/
def look (i : Nat) (t : Thread) : Manager :=
  match t.call, s.configured with
  | .get, some _ => s.setPhase i t .ended
  | .computeSlot, some slots => s.setPhase i t (.got slots)
  | .get, none | .computeSlot, none => s.setPhase i t (.writing 1)
  | .allocate computeSlots, configured =>
    s.setPhase i t (.writing (computeSlots.getD (configured.getD 1)))

/-- `path.write_text`. -/
def write (i : Nat) (t : Thread) (slots : Nat) : Manager :=
  setPhase { s with configs := s.configs ++ [slots] } i t (.written slots)

/-- The end of `allocate`. -/
def pop (i : Nat) (t : Thread) (slots : Nat) : Manager :=
  setPhase { s with current := none } i t
    (match t.call with
    | .computeSlot => .got slots
    | _ => .ended)

/-- A new semaphore takes the place of the one that is known. -/
def renew (slots : Nat) : Manager :=
  { s with
    current := some (slots, s.semaphores.length)
    semaphores := s.semaphores ++ [{ slots, value := slots }] }

/-- `_semaphore`. -/
def take (i : Nat) (t : Thread) (slots : Nat) : Manager :=
  match s.current with
  | some (count, k) =>
    if count = slots then s.setPhase i t (.waiting k)
    else (s.renew slots).setPhase i t (.waiting s.semaphores.length)
  | none => (s.renew slots).setPhase i t (.waiting s.semaphores.length)

/-- `semaphore.acquire`; it waits while there is no permit. -/
def acquire (i : Nat) (t : Thread) (k : Nat) : Option Manager :=
  match s.semaphores[k]? with
  | none => none
  | some semaphore =>
    if semaphore.value = 0 then none
    else some { s with
      semaphores := s.semaphores.set k { semaphore with value := semaphore.value - 1 }
      threads := s.threads.set i
        { t with phase := .holding k s.configs.length, acquired := some k } }

/-- `semaphore.release`, which raises when there are more permits than slots. -/
def release (i : Nat) (t : Thread) (k : Nat) : Option Manager :=
  match s.semaphores[k]? with
  | none => none
  | some semaphore =>
    if semaphore.slots ≤ semaphore.value then some (s.setPhase i t .ended)
    else some { s with
      semaphores := s.semaphores.set k { semaphore with value := semaphore.value + 1 }
      threads := s.threads.set i { t with phase := .ended, released := t.released ++ [k] } }

/-- The next step of a call. -/
def advance (i : Nat) (t : Thread) : Option Manager :=
  match t.phase with
  | .begun => some (s.look i t)
  | .writing slots => some (s.write i t slots)
  | .written slots => some (s.pop i t slots)
  | .got slots => some (s.take i t slots)
  | .waiting k => s.acquire i t k
  | .holding k _ => s.release i t k
  | .ended => none

/-- A call raises before it has a permit, at a timeout of `acquire` among others. -/
def raise (i : Nat) (t : Thread) : Option Manager :=
  match t.phase with
  | .holding .. | .ended => none
  | _ => some (s.setPhase i t .ended)

end Manager

inductive Action where
  | call (call : Call)
  | advance (thread : Nat)
  | raise (thread : Nat)
  deriving DecidableEq

/-- Counts are positive: `_positive_int` raises for others. -/
def step (s : Manager) : Action → Option Manager
  | .call call =>
    if call = .allocate (some 0) then none else some { s with threads := s.threads ++ [{ call }] }
  | .advance i => (s.threads[i]?).bind fun t => s.advance i t
  | .raise i => (s.threads[i]?).bind fun t => s.raise i t

def machine : Machine Manager Action := ⟨{}, step⟩

/-! ## The law -/

namespace Manager

variable (s : Manager)

/-- The permits of a semaphore that are held. -/
def held (k : Nat) : Nat := s.threads.countP (Thread.holds k)

/-- The holders of a slot. -/
def holders : Nat := s.threads.countP Thread.isHolding

/-- Some count written since the oldest holder entered, or the one that stood there then, is not
exceeded. -/
def Within : Prop :=
  ∀ t ∈ s.threads, ∀ k since, t.phase = .holding k since →
    (∀ t' ∈ s.threads, ∀ k' since', t'.phase = .holding k' since' → since ≤ since') →
      ∃ slots ∈ s.configs.drop (since - 1), s.holders ≤ slots

/-- Every call has released what it acquired when it has ended, once, and nothing before; and the
permits of a semaphore are free or held. -/
structure Accounted : Prop where
  released : ∀ t ∈ s.threads,
    t.released = if t.phase = .ended then t.acquired.toList else []
  holding : ∀ t ∈ s.threads, ∀ k since, t.phase = .holding k since → t.acquired = some k
  balanced : ∀ k semaphore, s.semaphores[k]? = some semaphore →
    semaphore.value + s.held k = semaphore.slots

/-- The semaphore in whose `acquire` a call is. -/
def awaited (i : Nat) : Option Nat :=
  (s.threads[i]?).bind fun t =>
    match t.phase with
    | .waiting k => some k
    | _ => none

/-- No permit of another semaphore is held, and this one has not more slots than are configured. -/
def Fits (k : Nat) : Prop :=
  (∀ t ∈ s.threads, t.isHolding = true → t.holds k = true)
    ∧ ∀ semaphore ∈ s.semaphores[k]?, ∃ slots ∈ s.configured, semaphore.slots ≤ slots

instance (k : Nat) : Decidable (s.Fits k) := inferInstanceAs (Decidable (_ ∧ _))

/-- A permit is acquired only of a semaphore that fits. -/
def Orderly : Action → Prop
  | .advance i => ∀ k ∈ s.awaited i, s.Fits k
  | _ => True

instance : ∀ a, Decidable (s.Orderly a)
  | .call _ | .raise _ => inferInstanceAs (Decidable True)
  | .advance i => inferInstanceAs (Decidable (∀ k ∈ s.awaited i, s.Fits k))

end Manager

end Exo.Resources
