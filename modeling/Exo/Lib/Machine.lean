import Mathlib.Data.Option.Basic
import Mathlib.Algebra.GroupWithZero.Nat

/-!
# Machines and their runs

A machine is an initial state together with a partial step function: `step s a`
is `none` when the action `a` cannot be taken in `s`. Everything below is about
whole runs. An invariant is proved once for the initial state and once for a
step, and `Reachable.invariant` carries it to every state a run can reach.

Some results only hold of runs that keep out of trouble. `ReachableWhen ok` is
reachability along runs whose every step meets `ok` in the state it is taken in.
-/

namespace Exo.Lib

universe u v

/-- An initial state and a partial step function. -/
structure Machine (σ : Type u) (α : Type v) where
  init : σ
  step : σ → α → Option σ

namespace Machine

variable {σ : Type u} {α : Type v}

/-- Run a list of actions from a state. -/
def run (m : Machine σ α) : σ → List α → Option σ
  | s, [] => some s
  | s, a :: as => (m.step s a).bind fun s' => m.run s' as

/-- Run a list of actions, as long as each meets `ok` where it is taken. -/
def runWhen (m : Machine σ α) (ok : σ → α → Prop) [∀ s a, Decidable (ok s a)] :
    σ → List α → Option σ
  | s, [] => some s
  | s, a :: as => if ok s a then (m.step s a).bind fun s' => m.runWhen ok s' as else none

/-- The states that some run reaches. -/
inductive Reachable (m : Machine σ α) : σ → Prop where
  | init : Reachable m m.init
  | tail {s s' : σ} {a : α} : Reachable m s → m.step s a = some s' → Reachable m s'

/-- The states reached by runs whose every step meets `ok` where it is taken. -/
inductive ReachableWhen (m : Machine σ α) (ok : σ → α → Prop) : σ → Prop where
  | init : ReachableWhen m ok m.init
  | tail {s s' : σ} {a : α} :
      ReachableWhen m ok s → ok s a → m.step s a = some s' → ReachableWhen m ok s'

variable {m : Machine σ α} {ok : σ → α → Prop}

variable {as : List α}

variable {s s' : σ}

theorem run_cons {a : α} (h : m.step s a = some s') :
    m.run s (a :: as) = m.run s' as := by
  simp [run, h]

theorem run_append (s : σ) (as bs : List α) :
    m.run s (as ++ bs) = (m.run s as).bind fun s' => m.run s' bs := by
  induction as generalizing s with
  | nil => rfl
  | cons a as ih =>
      cases h : m.step s a with
      | none => simp [run, h]
      | some s' => simp [run, h, ih]

theorem run_snoc {s t : σ} {a : α} :
    m.run s (as ++ [a]) = some t ↔ ∃ v, m.run s as = some v ∧ m.step v a = some t := by
  rw [run_append, Option.bind_eq_some_iff]
  simp only [run, Option.bind_fun_some]

theorem Reachable.run (hs : m.Reachable s) (h : m.run s as = some s') :
    m.Reachable s' := by
  induction as generalizing s with
  | nil => exact Option.some.inj h ▸ hs
  | cons a as ih =>
      obtain ⟨t, ht, hr⟩ := Option.bind_eq_some_iff.mp h
      exact ih (hs.tail ht) hr

/-- A run can go on from the state to one with the property. -/
def CanReach (m : Machine σ α) (s : σ) (Q : σ → Prop) : Prop :=
  ∃ as s', m.run s as = some s' ∧ Q s'

namespace CanReach

variable {s s' : σ} {a : α} {Q Q' : σ → Prop}

theorem now (h : Q s) : m.CanReach s Q := ⟨[], s, rfl, h⟩

theorem step (hs : m.step s a = some s') (h : m.CanReach s' Q) : m.CanReach s Q := by
  obtain ⟨as, t, hrun, ht⟩ := h
  exact ⟨a :: as, t, by rw [run_cons hs, hrun], ht⟩

theorem trans (h : m.CanReach s Q) (hnext : ∀ t, Q t → m.CanReach t Q') : m.CanReach s Q' := by
  obtain ⟨as, t, hrun, ht⟩ := h
  obtain ⟨bs, u, hrun', hu⟩ := hnext t ht
  exact ⟨as ++ bs, u, by rw [run_append, hrun]; exact hrun', hu⟩

end CanReach

/-- **A run meets the guard when each of its steps does.** -/
theorem runWhen_eq_some [∀ s a, Decidable (ok s a)] :
    m.runWhen ok s as = some s' ↔ m.run s as = some s'
      ∧ ∀ k a t, as[k]? = some a → m.run s (as.take k) = some t → ok t a := by
  induction as generalizing s with
  | nil => simp [runWhen, run]
  | cons a as ih =>
      constructor
      · intro h
        rw [runWhen] at h
        split at h
        · rename_i hok
          obtain ⟨t, ht, h⟩ := Option.bind_eq_some_iff.mp h
          obtain ⟨hrun, hall⟩ := ih.mp h
          refine ⟨by rw [run_cons ht]; exact hrun, fun k b u hk hu => ?_⟩
          cases k with
          | zero =>
              obtain rfl := Option.some.inj hk
              obtain rfl := Option.some.inj hu
              exact hok
          | succ k =>
              rw [List.take_succ_cons, run_cons ht] at hu
              exact hall k b u (by simpa using hk) hu
        · cases h
      · intro ⟨hrun, hall⟩
        obtain ⟨t, ht, hrun⟩ := Option.bind_eq_some_iff.mp hrun
        rw [runWhen, if_pos (hall 0 a s rfl rfl), ht, Option.bind_some]
        refine ih.mpr ⟨hrun, fun k b u hk hu => ?_⟩
        exact hall (k + 1) b u (by simpa using hk)
          (by rw [List.take_succ_cons, run_cons ht]; exact hu)

variable {P : σ → Prop}

/--
**The exact guard.** When a step keeps a property exactly if it meets the guard, a run keeps it
throughout exactly if each of its steps does.
-/
theorem throughout_iff
    (hstep : ∀ s a s', P s → m.step s a = some s' → (P s' ↔ ok s a))
    (hs : P s) (h : m.run s as = some s') :
    (∀ k t, m.run s (as.take k) = some t → P t)
      ↔ ∀ k a t, as[k]? = some a → m.run s (as.take k) = some t → ok t a := by
  induction as generalizing s with
  | nil =>
      refine iff_of_true (fun k t ht => ?_) fun k a t hk => by cases hk
      rw [List.take_nil] at ht
      exact Option.some.inj ht ▸ hs
  | cons a as ih =>
      obtain ⟨t, ht, hrun⟩ := Option.bind_eq_some_iff.mp h
      have hfirst := hstep s a t hs ht
      constructor
      · intro hall
        have hP : P t := hall 1 t (run_cons ht)
        have htail := (ih hP hrun).mp fun k u hu =>
          hall (k + 1) u (by rw [List.take_succ_cons, run_cons ht]; exact hu)
        intro k b u hk hu
        cases k with
        | zero =>
            obtain rfl := Option.some.inj hk
            obtain rfl := Option.some.inj hu
            exact hfirst.mp hP
        | succ k =>
            rw [List.take_succ_cons, run_cons ht] at hu
            exact htail k b u (by simpa using hk) hu
      · intro hall
        have hP : P t := hfirst.mpr (hall 0 a s rfl rfl)
        have htail := (ih hP hrun).mpr fun k b u hk hu =>
          hall (k + 1) b u (by simpa using hk)
            (by rw [List.take_succ_cons, run_cons ht]; exact hu)
        intro k u hu
        cases k with
        | zero => exact Option.some.inj hu ▸ hs
        | succ k =>
            rw [List.take_succ_cons, run_cons ht] at hu
            exact htail k u hu

variable {s : σ}

/-- **Runs that no step ends.** When a step can be taken exactly if it meets the guard, a run can
exactly if each of its steps does. -/
theorem run_isSome_iff (hstep : ∀ s a, P s → ((m.step s a).isSome ↔ ok s a))
    (hP : ∀ s a s', P s → m.step s a = some s' → P s') (hs : P s) (as : List α) :
    (m.run s as).isSome
      ↔ ∀ k a t, as[k]? = some a → m.run s (as.take k) = some t → ok t a := by
  induction as generalizing s with
  | nil => exact iff_of_true rfl fun k a t hk => by cases hk
  | cons a as ih =>
      have hfirst := hstep s a hs
      constructor
      · intro h k b t hk ht
        obtain ⟨u, hu⟩ := Option.isSome_iff_exists.mp h
        obtain ⟨next, hnext, hrun⟩ := Option.bind_eq_some_iff.mp hu
        cases k with
        | zero =>
            obtain rfl := Option.some.inj hk
            obtain rfl := Option.some.inj ht
            exact hfirst.mp (by rw [hnext]; rfl)
        | succ k =>
            rw [List.take_succ_cons, run_cons hnext] at ht
            exact (ih (hP s a next hs hnext)).mp (by rw [hrun]; rfl) k b t (by simpa using hk) ht
      · intro hall
        obtain ⟨next, hnext⟩ := Option.isSome_iff_exists.mp (hfirst.mpr (hall 0 a s rfl rfl))
        rw [run_cons hnext]
        refine (ih (hP s a next hs hnext)).mpr fun k b t hk ht => ?_
        exact hall (k + 1) b t (by simpa using hk)
          (by rw [List.take_succ_cons, run_cons hnext]; exact ht)

/-- A run keeps what its steps keep. -/
theorem invariant_of_run (hstep : ∀ s a s', P s → m.step s a = some s' → P s')
    (hs : P s) (h : m.run s as = some s') : P s' := by
  induction as generalizing s with
  | nil => exact Option.some.inj h ▸ hs
  | cons a as ih =>
      obtain ⟨t, ht, hrun⟩ := Option.bind_eq_some_iff.mp h
      exact ih (hstep s a t hs ht) hrun

/-- The exact guard of a property of the states that meet an invariant. -/
theorem throughout_iff_of_invariant {B P : σ → Prop}
    (hB : ∀ s a s', B s → m.step s a = some s' → B s')
    (hP : ∀ s a s', B s → P s → m.step s a = some s' → (P s' ↔ ok s a))
    (hBs : B s) (hPs : P s) (h : m.run s as = some s') :
    (∀ k t, m.run s (as.take k) = some t → P t)
      ↔ ∀ k a t, as[k]? = some a → m.run s (as.take k) = some t → ok t a := by
  have hstep : ∀ s a s', B s ∧ P s → m.step s a = some s' → (B s' ∧ P s' ↔ ok s a) := by
    intro s a s' hs hs'
    rw [← hP s a s' hs.1 hs.2 hs']
    exact and_iff_right (hB s a s' hs.1 hs')
  rw [← throughout_iff (P := fun s => B s ∧ P s) hstep ⟨hBs, hPs⟩ h]
  constructor
  · exact fun hall k t ht => ⟨invariant_of_run hB hBs ht, hall k t ht⟩
  · exact fun hall k t ht => (hall k t ht).2

/-- A run has a property throughout exactly if it has a weaker one throughout that lets no step lose
the first. -/
theorem throughout_congr {P K : σ → Prop} (hPK : ∀ s, P s → K s)
    (hstep : ∀ s a s', P s → m.step s a = some s' → K s' → P s') (hs : P s)
    (as : List α) : (∀ k t, m.run s (as.take k) = some t → K t)
      ↔ ∀ k t, m.run s (as.take k) = some t → P t := by
  refine ⟨fun hall k => ?_, fun hall k t ht => hPK t (hall k t ht)⟩
  induction k with
  | zero => exact fun t ht => Option.some.inj ht ▸ hs
  | succ k ih =>
      intro t ht
      rcases Nat.lt_or_ge k as.length with hk | hk
      · have hK := hall (k + 1) t ht
        rw [List.take_succ_eq_append_getElem hk] at ht
        obtain ⟨u, hu, hstep'⟩ := run_snoc.1 ht
        exact hstep u _ t (ih u hu) hstep' hK
      · rw [List.take_of_length_le (Nat.le_succ_of_le hk), ← List.take_of_length_le hk] at ht
        exact ih t ht

/-- **Two machines in step.** Related states step to related states, or both do not step; so do the
runs from them. -/
theorem run_rel {τ : Type*} {m' : Machine τ α} {R : σ → τ → Prop} {ok : α → Prop}
    (hstep : ∀ s c a, R s c → ok a → Option.Rel R (m.step s a) (m'.step c a))
    (has : ∀ a ∈ as, ok a) {c : τ} (h : R s c) :
    Option.Rel R (m.run s as) (m'.run c as) := by
  induction as generalizing s c with
  | nil => exact .some h
  | cons a as ih =>
      have hrel := hstep s c a h (has a List.mem_cons_self)
      rw [run, run]
      generalize m.step s a = next, m'.step c a = next' at hrel
      cases hrel with
      | none => exact .none
      | some h' => exact ih (fun b hb => has b (List.mem_cons_of_mem a hb)) h'

/-- Whatever a run from the initial state ends in is reachable. -/
theorem reachable_of_run (h : m.run m.init as = some s) :
    m.Reachable s :=
  Reachable.init.run h

theorem ReachableWhen.run [∀ s a, Decidable (ok s a)]
    (hs : m.ReachableWhen ok s) (h : m.runWhen ok s as = some s') : m.ReachableWhen ok s' := by
  induction as generalizing s with
  | nil => exact Option.some.inj h ▸ hs
  | cons a as ih =>
      rw [runWhen] at h
      split at h
      · rename_i hok
        obtain ⟨t, ht, hr⟩ := Option.bind_eq_some_iff.mp h
        exact ih (hs.tail hok ht) hr
      · cases h

/-- Whatever a guarded run from the initial state ends in is reachable by guarded runs. -/
theorem reachableWhen_of_run [∀ s a, Decidable (ok s a)]
    (h : m.runWhen ok m.init as = some s) : m.ReachableWhen ok s :=
  ReachableWhen.init.run h

theorem ReachableWhen.reachable (h : m.ReachableWhen ok s) : m.Reachable s := by
  induction h with
  | init => exact .init
  | tail _ _ hs ih => exact ih.tail hs

/-- **The invariant rule.** -/
theorem Reachable.invariant (h0 : P m.init)
    (hstep : ∀ s a s', P s → m.step s a = some s' → P s') (h : m.Reachable s) : P s := by
  induction h with
  | init => exact h0
  | tail _ hs ih => exact hstep _ _ _ ih hs

/-- **The invariant rule for guarded runs.** -/
theorem ReachableWhen.invariant (h0 : P m.init)
    (hstep : ∀ s a s', P s → ok s a → m.step s a = some s' → P s')
    (h : m.ReachableWhen ok s) : P s := by
  induction h with
  | init => exact h0
  | tail _ hok hs ih => exact hstep _ _ _ ih hok hs

variable {rank : Nat → σ → Prop} {finished : σ → Prop}

/--
**The completion rule.** Every state with a rank either is finished or takes an allowed step
to a state of a smaller rank, so it can be run by allowed steps until it is finished.
-/
theorem completes_by {allowed : α → Prop}
    (hstep : ∀ n s, rank n s → finished s ∨
      ∃ a s' n', allowed a ∧ m.step s a = some s' ∧ n' < n ∧ rank n' s')
    {n : Nat} (h : rank n s) :
    ∃ as s', (∀ a ∈ as, allowed a) ∧ m.run s as = some s' ∧ finished s' := by
  induction n using Nat.strongRecOn generalizing s with
  | _ n ih =>
      rcases hstep n s h with hf | ⟨a, s', n', ha, hs, hlt, hr⟩
      · exact ⟨[], s, by simp, rfl, hf⟩
      · obtain ⟨as, t, has, hrun, ht⟩ := ih n' hlt hr
        refine ⟨a :: as, t, ?_, by rw [run_cons hs, hrun], ht⟩
        simpa using ⟨ha, has⟩

theorem completes
    (hstep : ∀ n s, rank n s → finished s ∨ ∃ a s' n', m.step s a = some s' ∧ n' < n ∧ rank n' s')
    {n : Nat} (h : rank n s) : ∃ as s', m.run s as = some s' ∧ finished s' := by
  have hstep' : ∀ n s, rank n s → finished s ∨
      ∃ a s' n', True ∧ m.step s a = some s' ∧ n' < n ∧ rank n' s' := fun n s hr =>
    (hstep n s hr).imp_right fun ⟨a, s', n', h⟩ => ⟨a, s', n', trivial, h⟩
  obtain ⟨as, s', -, hrun⟩ := completes_by hstep' h
  exact ⟨as, s', hrun⟩

end Machine

end Exo.Lib
