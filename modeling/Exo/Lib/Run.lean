import Exo.Lib.Machine

/-!
# Infinite runs

What must happen in the end. A predicate that holds until another one does, and that
cannot hold forever, leads to the other one; and leading to something composes.
-/

namespace Exo.Lib.Machine

universe u v

/-- An infinite run whose every step meets `ok` where it is taken. -/
structure Run {σ : Type u} {α : Type v} (m : Machine σ α) (ok : σ → α → Prop) where
  state : Nat → σ
  action : Nat → α
  init : state 0 = m.init
  meets : ∀ n, ok (state n) (action n)
  step : ∀ n, m.step (state n) (action n) = some (state (n + 1))

namespace Run

variable {σ : Type u} {α : Type v} {m : Machine σ α} {ok : σ → α → Prop}

theorem reachable (r : Run m ok) (n : Nat) : m.ReachableWhen ok (r.state n) := by
  induction n with
  | zero => rw [r.init]; exact .init
  | succ n ih => exact ih.tail (r.meets n) (r.step n)

/-- What a step preserves holds from some time on. -/
theorem stable (r : Run m ok) {P : σ → Prop} (hstep : ∀ n, P (r.state n) → P (r.state (n + 1)))
    {n k : Nat} (h : P (r.state n)) (hnk : n ≤ k) : P (r.state k) := by
  induction hnk with
  | refl => exact h
  | step _ ih => exact hstep _ ih

/-- Whenever `P` holds, `Q` holds then or later. -/
def LeadsTo (r : Run m ok) (P Q : σ → Prop) : Prop :=
  ∀ n, P (r.state n) → ∃ k, n ≤ k ∧ Q (r.state k)

variable {r : Run m ok} {P Q R : σ → Prop}

theorem LeadsTo.trans (hpq : r.LeadsTo P Q) (hqr : r.LeadsTo Q R) : r.LeadsTo P R := by
  intro n hn
  obtain ⟨k, hnk, hk⟩ := hpq n hn
  obtain ⟨l, hkl, hl⟩ := hqr k hk
  exact ⟨l, Nat.le_trans hnk hkl, hl⟩

theorem LeadsTo.or (hp : r.LeadsTo P R) (hq : r.LeadsTo Q R) :
    r.LeadsTo (fun s => P s ∨ Q s) R := by
  intro n hn
  rcases hn with hn | hn
  · exact hp n hn
  · exact hq n hn

/-- **The unless rule.** `P` holds until `Q` does, and does not hold forever. -/
theorem leadsTo_of_unless (hstep : ∀ n, P (r.state n) → P (r.state (n + 1)) ∨ Q (r.state (n + 1)))
    (hfair : ∀ n, P (r.state n) → ∃ k, n ≤ k ∧ ¬ P (r.state k)) : r.LeadsTo P Q := by
  intro n hn
  obtain ⟨k, hnk, hk⟩ := hfair n hn
  by_contra hnever
  refine hk ?_
  clear hk hfair
  induction hnk with
  | refl => exact hn
  | @step k hle ih =>
      exact (hstep k ih).resolve_right fun hq => hnever ⟨k + 1, Nat.le_succ_of_le hle, hq⟩

/-- **The rank rule.** What leads to a smaller rank or to `Q` leads to `Q`. -/
theorem leadsTo_of_rank {P : Nat → σ → Prop}
    (h : ∀ k, r.LeadsTo (P k) fun s => Q s ∨ ∃ j < k, P j s) (k : Nat) : r.LeadsTo (P k) Q := by
  induction k using Nat.strongRecOn with
  | _ k ih =>
      intro n hn
      obtain ⟨l, hnl, hl⟩ := h k n hn
      rcases hl with hq | ⟨j, hj, hp⟩
      · exact ⟨l, hnl, hq⟩
      · obtain ⟨i, hli, hi⟩ := ih j hj l hp
        exact ⟨i, Nat.le_trans hnl hli, hi⟩

end Run

end Exo.Lib.Machine
