import Mathlib.Data.List.Range
import Exo.Lib.Dict

/-!
# Computations that can fail

Rules that take a successful computation in `Except` apart: a step and what comes after it, a
step for every element of a list, and a counted loop with its invariant.
-/

namespace Exo.Lib

universe u v

variable {ε : Type u} {α β σ : Type v}

variable {f : α → Except ε β}

variable {x : Except ε α}

/-- A computation that succeeded had a first step that did. -/
theorem bind_eq_ok {b : β} :
    (x >>= f) = .ok b ↔ ∃ a, x = .ok a ∧ f a = .ok b := by
  cases x with
  | error e =>
      constructor
      · intro h
        cases h
      · intro h
        obtain ⟨a, ha, -⟩ := h
        cases ha
  | ok a =>
      constructor
      · intro h
        exact ⟨a, rfl, h⟩
      · intro h
        obtain ⟨a', ha, hf⟩ := h
        cases ha
        exact hf

variable {l : List α}

/-- A step for every element, whose results are read off one by one. -/
theorem mapM_eq_ok {bs : List β} :
    l.mapM f = .ok bs ↔ List.Forall₂ (fun a b => f a = .ok b) l bs := by
  induction l generalizing bs with
  | nil =>
      rw [List.mapM_nil, List.forall₂_nil_left_iff]
      constructor
      · intro h
        exact (Except.ok.inj h).symm
      · intro h
        rw [h]
        rfl
  | cons a l ih =>
      rw [List.mapM_cons, bind_eq_ok, List.forall₂_cons_left_iff]
      constructor
      · intro h
        obtain ⟨b, hb, h⟩ := h
        obtain ⟨bs', hbs', h⟩ := bind_eq_ok.1 h
        exact ⟨b, bs', hb, ih.mp hbs', (Except.ok.inj h).symm⟩
      · intro h
        obtain ⟨b, bs', hb, hbs', rfl⟩ := h
        exact ⟨b, hb, bind_eq_ok.2 ⟨bs', ih.mpr hbs', rfl⟩⟩

theorem getElem?_of_mapM {bs : List β} (h : l.mapM f = .ok bs) :
    bs.length = l.length ∧ ∀ (i : Nat) a, l[i]? = some a → ∃ b, bs[i]? = some b ∧ f a = .ok b := by
  have hall := mapM_eq_ok.1 h
  refine ⟨hall.length_eq.symm, ?_⟩
  clear h
  induction hall with
  | nil => exact fun i a hi => by cases hi
  | cons hb _ ih =>
      intro i a hi
      cases i with
      | zero =>
          cases hi
          exact ⟨_, rfl, hb⟩
      | succ i => exact ih i a hi

section Fill

variable {κ ν : Type v} [DecidableEq κ]

/-- A dictionary filled with an entry for every element. -/
def fillM (key : α → κ) (value : α → Except ε ν) : List α → Dict κ ν → Except ε (Dict κ ν)
  | [], d => .ok d
  | a :: l, d => do
      let v ← value a
      fillM key value l (d.set (key a) v)

/-- Every element has its entry in the end, and no other key has changed. -/
theorem fillM_ok {key : α → κ} {value : α → Except ε ν} {d d' : Dict κ ν}
    (hnodup : (l.map key).Nodup) (h : fillM key value l d = .ok d') :
    (∀ k, k ∉ l.map key → d'.get? k = d.get? k)
      ∧ ∀ a ∈ l, ∃ v, value a = .ok v ∧ d'.get? (key a) = some v := by
  induction l generalizing d with
  | nil =>
      cases h
      exact ⟨fun _ _ => rfl, fun a ha => by cases ha⟩
  | cons a l ih =>
      obtain ⟨hnew, hnodup⟩ := List.nodup_cons.mp hnodup
      obtain ⟨v, hv, h⟩ := bind_eq_ok.1 h
      obtain ⟨hframe, hentries⟩ := ih hnodup h
      constructor
      · intro k hk
        rw [List.map_cons, List.mem_cons, not_or] at hk
        rw [hframe k hk.2, Dict.get?_set_ne _ _ hk.1]
      · intro b hb
        rcases List.mem_cons.mp hb with rfl | hb
        · exact ⟨v, hv, by rw [hframe _ hnew, Dict.get?_set_self]⟩
        · exact hentries b hb

end Fill

/-- **The loop rule.** What holds at first and after every round holds in the end. -/
theorem foldlM_range_ok {P : Nat → σ → Prop} {f : σ → Nat → Except ε σ} {n : Nat} {s s' : σ}
    (h0 : P 0 s) (hstep : ∀ i t t', i < n → P i t → f t i = .ok t' → P (i + 1) t')
    (h : (List.range n).foldlM f s = .ok s') : P n s' := by
  induction n generalizing s' with
  | zero =>
      cases h
      exact h0
  | succ n ih =>
      rw [List.range_succ, List.foldlM_append] at h
      obtain ⟨t, ht, hlast⟩ := bind_eq_ok.1 h
      rw [List.foldlM_cons] at hlast
      obtain ⟨t', ht', hend⟩ := bind_eq_ok.1 hlast
      cases hend
      have hbefore := ih (fun i t t' hi => hstep i t t' (by omega)) ht
      exact hstep n t _ (by omega) hbefore ht'

/-- The loop rule for a loop in which every round can be run. -/
theorem foldlM_range_exists {P : Nat → σ → Prop} {f : σ → Nat → Except ε σ} {n : Nat} {s : σ}
    (h0 : P 0 s) (hstep : ∀ i t, i < n → P i t → ∃ t', f t i = .ok t' ∧ P (i + 1) t') :
    ∃ s', (List.range n).foldlM f s = .ok s' ∧ P n s' := by
  induction n with
  | zero => exact ⟨s, rfl, h0⟩
  | succ n ih =>
      obtain ⟨t, ht, hbefore⟩ := ih fun i t hi => hstep i t (by omega)
      obtain ⟨t', ht', hlast⟩ := hstep n t (by omega) hbefore
      refine ⟨t', ?_, hlast⟩
      rw [List.range_succ, List.foldlM_append]
      exact bind_eq_ok.2 ⟨t, ht, bind_eq_ok.2 ⟨t', ht', rfl⟩⟩

/-! ## How a computation fails -/

/-- Every failure of the computation is one of these. -/
def FailsOnly (P : ε → Prop) (x : Except ε α) : Prop := ∀ e, x = .error e → P e

section FailsOnly

variable {P : ε → Prop}

theorem FailsOnly.ok (a : α) : FailsOnly P (.ok a) := fun e he => by cases he

theorem FailsOnly.error {e : ε} (h : P e) : FailsOnly P (.error e : Except ε α) := by
  intro e' he
  cases he
  exact h

theorem FailsOnly.bind (hx : FailsOnly P x)
    (hf : ∀ a, x = .ok a → FailsOnly P (f a)) : FailsOnly P (x >>= f) := by
  cases x with
  | error e =>
      intro e' he
      cases he
      exact hx e rfl
  | ok a => exact hf a rfl

theorem FailsOnly.mapM (hf : ∀ a, FailsOnly P (f a)) :
    FailsOnly P (l.mapM f) := by
  induction l with
  | nil => exact FailsOnly.ok []
  | cons a l ih =>
      rw [List.mapM_cons]
      exact (hf a).bind fun b _ => ih.bind fun bs _ => FailsOnly.ok (b :: bs)

theorem FailsOnly.foldlM {f : σ → α → Except ε σ} {s : σ}
    (hf : ∀ s a, FailsOnly P (f s a)) : FailsOnly P (l.foldlM f s) := by
  induction l generalizing s with
  | nil => exact FailsOnly.ok s
  | cons a l ih =>
      rw [List.foldlM_cons]
      exact (hf s a).bind fun s' _ => ih

theorem FailsOnly.fillM {κ ν : Type v} [DecidableEq κ] {key : α → κ} {value : α → Except ε ν}
    {d : Dict κ ν} (hvalue : ∀ a, FailsOnly P (value a)) :
    FailsOnly P (fillM key value l d) := by
  induction l generalizing d with
  | nil => exact FailsOnly.ok d
  | cons a l ih => exact (hvalue a).bind fun v _ => ih

end FailsOnly

end Exo.Lib
