import Mathlib.Logic.Function.Basic
import Exo.Lib.Machine

/-!
# Processes that send, receive and gather

A group of processes numbered from `0` to `size - 1`. A send puts a message at the
end of the queue from one process to another and goes on. A receive waits for the
head of a queue. A gather waits until every process of the group is at a gather;
then all of them go on with the list of all contributions.

A receive says which message it is meant for. Nothing depends on that; the history
`received` of a group records it next to the message that came.
-/

namespace Exo.Lib

universe u

/-- A process with messages `M` and contributions `V`. -/
inductive Proc (M V α : Type u) where
  | pure (a : α)
  | send (dst : Nat) (m : M) (next : Proc M V α)
  | recv (src : Nat) (wanted : M) (next : M → Proc M V α)
  | gather (v : V) (next : List V → Proc M V α)

namespace Proc

variable {M V α β γ : Type u}

def bind : Proc M V α → (α → Proc M V β) → Proc M V β
  | .pure a, f => f a
  | .send dst m next, f => .send dst m (bind next f)
  | .recv src wanted next, f => .recv src wanted fun m => bind (next m) f
  | .gather v next, f => .gather v fun vs => bind (next vs) f

instance : Monad (Proc M V) where
  pure := Proc.pure
  bind := Proc.bind

@[simp] theorem pure_bind (a : α) (f : α → Proc M V β) :
    ((Pure.pure a : Proc M V α) >>= f) = f a := rfl

@[simp] theorem send_bind (dst : Nat) (m : M) (next : Proc M V α) (f : α → Proc M V β) :
    (Proc.send dst m next >>= f) = .send dst m (next >>= f) := rfl

@[simp] theorem recv_bind (src : Nat) (wanted : M) (next : M → Proc M V α)
    (f : α → Proc M V β) :
    (Proc.recv src wanted next >>= f) = .recv src wanted fun m => next m >>= f := rfl

@[simp] theorem gather_bind (v : V) (next : List V → Proc M V α) (f : α → Proc M V β) :
    (Proc.gather v next >>= f) = .gather v fun vs => next vs >>= f := rfl

@[simp] theorem bind_assoc (p : Proc M V α) (f : α → Proc M V β) (g : β → Proc M V γ) :
    (p >>= f >>= g) = p >>= fun a => f a >>= g := by
  induction p with
  | pure a => rfl
  | send dst m next ih => simp [ih]
  | recv src wanted next ih => simp [ih]
  | gather v next ih => simp [ih]

/-- What a process contributes, if it is at a gather. -/
def offer? : Proc M V α → Option V
  | .gather v _ => some v
  | _ => none

/-- A process that has ended, and with what. -/
def result? : Proc M V α → Option α
  | .pure a => some a
  | _ => none

/-- A process at a gather, after it. -/
def gathered (vs : List V) : Proc M V α → Proc M V α
  | .gather _ next => next vs
  | p => p

/--
Run a process that only gathers to its end. The list says for one gather after the other
what the others contribute, before and after the process itself; a process that is alone
gathers its own contribution.
-/
def hear : Proc M V α → List (List V × List V) → Option α
  | .pure a, _ => some a
  | .gather v next, [] => (next [v]).hear []
  | .gather v next, (before, after) :: others => (next (before ++ v :: after)).hear others
  | _, _ => none

/-- Run processes that only gather to their end, the first one together with the others. -/
def togetherWith : Proc M V α → List (Proc M V α) → Option (List α)
  | .pure a, others => (others.mapM result?).map (a :: ·)
  | .gather v next, others =>
      (others.mapM offer?).bind fun vs =>
        (next (v :: vs)).togetherWith (others.map (gathered (v :: vs)))
  | _, _ => none

/-- Run a group of processes that only gather to its end. -/
def together : List (Proc M V α) → Option (List α)
  | [] => some []
  | p :: others => p.togetherWith others

section Together

variable {ι : Type u} (members : List ι)

theorem together_pure (f : ι → α) :
    together (members.map fun i => (.pure (f i) : Proc M V α)) = some (members.map f) := by
  have hresults : ∀ others : List ι,
      (others.map fun i => (.pure (f i) : Proc M V α)).mapM result? = some (others.map f) := by
    intro others
    induction others with
    | nil => rfl
    | cons i others ih => simp [List.mapM_cons, result?, ih]
  cases members with
  | nil => rfl
  | cons i others => simp [together, togetherWith, hresults]

/-- **The rule for a gather that all processes are at.** -/
theorem together_gather (v : ι → V) (next : ι → List V → Proc M V α) :
    together (members.map fun i => .gather (v i) (next i))
      = together (members.map fun i => next i (members.map v)) := by
  have hoffers : ∀ others : List ι,
      (others.map fun i => Proc.gather (v i) (next i)).mapM offer? = some (others.map v) := by
    intro others
    induction others with
    | nil => rfl
    | cons i others ih => simp [List.mapM_cons, offer?, ih]
  cases members with
  | nil => rfl
  | cons i others =>
      simp only [List.map_cons, together, togetherWith, hoffers, Option.bind_some, List.map_map]
      rfl

end Together

/-- A postcondition: it holds of the result, whatever the other processes do. -/
def Ensures (Q : α → Prop) : Proc M V α → Prop
  | .pure a => Q a
  | .send _ _ next => next.Ensures Q
  | .recv _ _ next => ∀ m, (next m).Ensures Q
  | .gather v next => ∀ vs, v ∈ vs → (next vs).Ensures Q

variable {p : Proc M V α}

theorem Ensures.mono {Q R : α → Prop} (h : p.Ensures Q) (hQ : ∀ a, Q a → R a) :
    p.Ensures R := by
  induction p with
  | pure a => exact hQ a h
  | send dst m next ih => exact ih h
  | recv src wanted next ih => exact fun m => ih m (h m)
  | gather v next ih => exact fun vs hv => ih vs (h vs hv)

variable {f : α → Proc M V β} {Q : β → Prop}

/-- **The rule for two processes one after the other.** -/
theorem Ensures.bind
    (h : p.Ensures fun a => (f a).Ensures Q) : (p >>= f).Ensures Q := by
  induction p with
  | pure a => exact h
  | send dst m next ih => exact ih h
  | recv src wanted next ih => exact fun m => ih m (h m)
  | gather v next ih => exact fun vs hv => ih vs (h vs hv)

/-- A postcondition that counts on the messages: what comes for `wanted` is `R wanted` to it. -/
def EnsuresOn (R : M → M → Prop) (Q : α → Prop) : Proc M V α → Prop
  | .pure a => Q a
  | .send _ _ next => next.EnsuresOn R Q
  | .recv _ wanted next => ∀ m, R wanted m → (next m).EnsuresOn R Q
  | .gather v next => ∀ vs, v ∈ vs → (next vs).EnsuresOn R Q

theorem EnsuresOn.mono {R S : M → M → Prop} {Q P : α → Prop}
    (h : p.EnsuresOn R Q) (hS : ∀ w m, S w m → R w m) (hQ : ∀ a, Q a → P a) :
    p.EnsuresOn S P := by
  induction p with
  | pure a => exact hQ a h
  | send dst m next ih => exact ih h
  | recv src wanted next ih => exact fun m hm => ih m (h m (hS _ _ hm))
  | gather v next ih => exact fun vs hv => ih vs (h vs hv)

variable {R : M → M → Prop}

theorem EnsuresOn.bind
    (h : p.EnsuresOn R fun a => (f a).EnsuresOn R Q) : (p >>= f).EnsuresOn R Q := by
  induction p with
  | pure a => exact h
  | send dst m next ih => exact ih h
  | recv src wanted next ih => exact fun m hm => ih m (h m hm)
  | gather v next ih => exact fun vs hv => ih vs (h vs hv)

theorem EnsuresOn.and {Q P : α → Prop}
    (h : p.EnsuresOn R Q) (h' : p.EnsuresOn R P) : p.EnsuresOn R fun a => Q a ∧ P a := by
  induction p with
  | pure a => exact ⟨h, h'⟩
  | send dst m next ih => exact ih h h'
  | recv src wanted next ih => exact fun m hm => ih m (h m hm) (h' m hm)
  | gather v next ih => exact fun vs hv => ih vs (h vs hv) (h' vs hv)

/-- With messages and contributions that are `R` to what they are meant for, a process may end with
`a`. -/
def MayEnd (R : M → M → Prop) (a : α) : Proc M V α → Prop
  | .pure b => b = a
  | .send _ _ next => next.MayEnd R a
  | .recv _ wanted next => ∃ m, R wanted m ∧ (next m).MayEnd R a
  | .gather v next => ∃ vs, v ∈ vs ∧ (next vs).MayEnd R a

theorem EnsuresOn.mayEnd {Q : α → Prop} {a : α}
    (h : p.EnsuresOn R Q) (ha : p.MayEnd R a) : Q a := by
  induction p with
  | pure b =>
      obtain rfl : b = a := ha
      exact h
  | send dst m next ih => exact ih h ha
  | recv src wanted next ih =>
      obtain ⟨m, hm, ha⟩ := ha
      exact ih m (h m hm) ha
  | gather v next ih =>
      obtain ⟨vs, hv, ha⟩ := ha
      exact ih vs (h vs hv) ha

/-- A process that can always hear something ends somehow. -/
theorem EnsuresOn.not_false (hR : ∀ w, ∃ m, R w m) :
    ¬ p.EnsuresOn R fun _ => False := by
  induction p with
  | pure a => exact id
  | send dst m next ih => exact ih
  | recv src wanted next ih =>
      obtain ⟨m, hm⟩ := hR wanted
      exact fun h => ih m (h m hm)
  | gather v next ih => exact fun h => ih [v] (h [v] (List.mem_singleton_self v))

theorem Ensures.hear {Q : α → Prop} (h : p.Ensures Q)
    {others : List (List V × List V)} {a : α} (ha : p.hear others = some a) : Q a := by
  induction p generalizing others with
  | pure b =>
      rw [Proc.hear] at ha
      exact Option.some.inj ha ▸ h
  | send dst m next ih => simp [Proc.hear] at ha
  | recv src wanted next ih => simp [Proc.hear] at ha
  | gather v next ih =>
      cases others with
      | nil => exact ih _ (h _ (List.mem_singleton_self v)) ha
      | cons o others =>
          obtain ⟨before, after⟩ := o
          exact ih _ (h _ (by simp)) ha

end Proc

/-- A group of processes and what is in flight between them. -/
structure Group (M V α : Type u) where
  procs : Nat → Proc M V α
  queues : Nat → Nat → List M
  /-- For every receive so far, what it was meant for and what came. -/
  received : List (M × M)

namespace Group

variable {M V α : Type u}

/-- Change process `i`. -/
def setProc (g : Group M V α) (i : Nat) (p : Proc M V α) : Group M V α :=
  { g with procs := Function.update g.procs i p }

/-- Change the queue from `i` to `j`. -/
def setQueue (g : Group M V α) (i j : Nat) (l : List M) : Group M V α :=
  { g with queues := Function.update g.queues i (Function.update (g.queues i) j l) }

inductive Action where
  | send (i : Nat)
  | recv (i : Nat)
  | gather
  deriving DecidableEq, Repr

def step (size : Nat) (g : Group M V α) : Action → Option (Group M V α)
  | .send i =>
      match g.procs i with
      | .send dst m next =>
          if i < size then some ((g.setProc i next).setQueue i dst (g.queues i dst ++ [m]))
          else none
      | _ => none
  | .recv i =>
      match g.procs i with
      | .recv src wanted next =>
          match g.queues src i with
          | m :: rest =>
              if i < size then
                some { (g.setProc i (next m)).setQueue src i rest with
                  received := g.received ++ [(wanted, m)] }
              else none
          | [] => none
      | _ => none
  | .gather =>
      if ∀ i ∈ List.range size, ((g.procs i).offer?).isSome then
        let vs := (List.range size).filterMap fun i => (g.procs i).offer?
        some { g with procs := fun i => (g.procs i).gathered vs }
      else none

/-- A group of `size` processes with nothing in flight. -/
def start (procs : Nat → Proc M V α) : Group M V α :=
  { procs := procs, queues := fun _ _ => [], received := [] }

def machine (size : Nat) (procs : Nat → Proc M V α) : Machine (Group M V α) Action :=
  ⟨start procs, step size⟩

/-- Every process of the group has ended. -/
def Finished (size : Nat) (g : Group M V α) : Prop :=
  ∀ i < size, ((g.procs i).result?).isSome

/-- Some process has not ended, and no process can go on. -/
def Deadlocked (size : Nat) (g : Group M V α) : Prop :=
  ¬ g.Finished size ∧ ∀ a, g.step size a = none

section Projections

variable (g : Group M V α) (i j k l : Nat) (p : Proc M V α) (ms : List M)

@[simp] theorem procs_setQueue : (g.setQueue i j ms).procs = g.procs := rfl
@[simp] theorem queues_setProc : (g.setProc i p).queues = g.queues := rfl
@[simp] theorem received_setProc : (g.setProc i p).received = g.received := rfl
@[simp] theorem received_setQueue : (g.setQueue i j ms).received = g.received := rfl

theorem procs_setProc : (g.setProc i p).procs j = if j = i then p else g.procs j := by
  simp [setProc, Function.update_apply]

theorem queues_setQueue :
    (g.setQueue i j ms).queues k l = if k = i ∧ l = j then ms else g.queues k l := by
  by_cases hk : k = i
  · subst hk
    by_cases hl : l = j
    · subst hl; simp [setQueue]
    · simp [setQueue, hl]
  · simp [setQueue, hk]

end Projections

variable {size : Nat} {g g' : Group M V α} {i : Nat}

theorem step_send {dst : Nat} {m : M} {next : Proc M V α} (hi : i < size)
    (hp : g.procs i = .send dst m next) :
    g.step size (.send i) = some ((g.setProc i next).setQueue i dst (g.queues i dst ++ [m])) := by
  simp [step, hp, hi]

theorem step_recv {src : Nat} {wanted m : M} {rest : List M} {next : M → Proc M V α}
    (hi : i < size) (hp : g.procs i = .recv src wanted next)
    (hq : g.queues src i = m :: rest) :
    g.step size (.recv i) = some { (g.setProc i (next m)).setQueue src i rest with
      received := g.received ++ [(wanted, m)] } := by
  simp [step, hp, hq, hi]

/-- Nobody goes past a gather while some process is not at one. -/
theorem step_gather_none (hi : i < size) (hp : (g.procs i).offer? = none) :
    g.step size .gather = none := by
  refine if_neg ?_
  intro h
  have := h i (List.mem_range.mpr hi)
  rw [hp] at this
  cases this

/-- When every process is at a gather, all of them go on. -/
theorem step_gather (h : ∀ i < size, ∃ v next, g.procs i = .gather v next) :
    ∃ vs, g.step size .gather = some { g with procs := fun i => (g.procs i).gathered vs } := by
  refine ⟨_, if_pos ?_⟩
  intro i hi
  obtain ⟨v, next, hp⟩ := h i (List.mem_range.mp hi)
  rw [hp]; rfl

/--
**The deadlock rule.** A process is stuck at a gather, because another one waits for
a message nobody can send: every process is at a gather or at an empty queue.
-/
theorem deadlocked_of_stuck
    (hstuck : ∀ i < size, (∃ v next, g.procs i = .gather v next)
      ∨ ∃ src wanted next, g.procs i = .recv src wanted next ∧ g.queues src i = [])
    (hwait : i < size) {src : Nat} {wanted : M} {next : M → Proc M V α}
    (hp : g.procs i = .recv src wanted next) : g.Deadlocked size := by
  refine ⟨?_, ?_⟩
  · intro hf
    have := hf i hwait
    rw [hp] at this
    cases this
  · intro a
    cases a with
    | send j =>
        by_cases hj : j < size
        · rcases hstuck j hj with ⟨v, next, hpj⟩ | ⟨src, wanted, next, hpj, -⟩
          · simp [step, hpj]
          · simp [step, hpj]
        · simp only [step]
          split <;> simp [hj]
    | recv j =>
        by_cases hj : j < size
        · rcases hstuck j hj with ⟨v, next, hpj⟩ | ⟨src, wanted, next, hpj, hq⟩
          · simp [step, hpj]
          · simp [step, hpj, hq]
        · simp only [step]
          split
          · split <;> simp [hj]
          · rfl
    | gather => exact step_gather_none hwait (by rw [hp]; rfl)

end Group

end Exo.Lib
