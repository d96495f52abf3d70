import Exo.Lib.Machine

/-!
# What has to happen

A party of a machine has actions of its own, which nobody can keep from being taken in the end. A
property is inevitable when, whichever of these are taken, a state with the property is reached, and
until then one can always be taken.
-/

namespace Exo.Lib.Machine

universe u v

variable {σ : Type u} {α : Type v}

inductive Inevitable (m : Machine σ α) (own : σ → α → Prop) (Q : σ → Prop) : σ → Prop where
  | now {s : σ} : Q s → Inevitable m own Q s
  | later {s : σ} : (∃ a s', own s a ∧ m.step s a = some s') →
      (∀ a s', own s a → m.step s a = some s' → Inevitable m own Q s') → Inevitable m own Q s

variable {m : Machine σ α} {own : σ → α → Prop} {P Q : σ → Prop}

/-- **The rank rule.** The actions lead to the property or to a state of a smaller rank. -/
theorem inevitable_of_rank (rank : σ → Nat)
    (hcan : ∀ s, P s → ∃ a s', own s a ∧ m.step s a = some s')
    (hstep : ∀ s a s', P s → own s a → m.step s a = some s' → Q s' ∨ P s' ∧ rank s' < rank s)
    {s : σ} (h : P s) : m.Inevitable own Q s := by
  generalize hn : rank s = n
  induction n using Nat.strongRecOn generalizing s with
  | _ n ih =>
      refine .later (hcan s h) fun a s' ha hs => ?_
      rcases hstep s a s' h ha hs with hQ | ⟨hP, hlt⟩
      · exact .now hQ
      · exact ih _ (hn ▸ hlt) hP rfl

/-- What the actions keep, and the property is not, the property does not come of. -/
theorem not_inevitable (hQ : ∀ s, P s → ¬ Q s)
    (hstep : ∀ s a s', P s → own s a → m.step s a = some s' → P s') {s : σ} (h : P s) :
    ¬ m.Inevitable own Q s := by
  intro hin
  induction hin with
  | now hq => exact hQ _ h hq
  | later hcan _ ih =>
      obtain ⟨a, s', ha, hs⟩ := hcan
      exact ih a s' ha hs (hstep _ a s' h ha hs)

end Exo.Lib.Machine
