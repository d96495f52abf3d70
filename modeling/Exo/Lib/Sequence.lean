import Mathlib.Data.List.Basic
import Mathlib.Algebra.GroupWithZero.Nat
import Mathlib.Algebra.Ring.Int.Defs

/-!
# Numbered sequences

A sequence with its positions attached, and how it grows when the next element
is read off a longer sequence.
-/

namespace Exo.Lib

universe u

variable {α : Type u}

/-- The elements of a list, each with its position. -/
def enumerate (l : List α) : List (Nat × α) := l.zipIdx.map Prod.swap

@[simp] theorem enumerate_length (l : List α) : (enumerate l).length = l.length := by
  simp [enumerate]

theorem enumerate_snoc (l : List α) (a : α) :
    enumerate (l ++ [a]) = enumerate l ++ [(l.length, a)] := by
  simp [enumerate, List.zipIdx_append]

@[simp] theorem map_snd_enumerate (l : List α) : (enumerate l).map Prod.snd = l := by
  simp [enumerate, Function.comp_def]

variable {l : List α}

variable {a : α}

theorem take_succ_of_getElem? {n : Nat} (h : l[n]? = some a) :
    l.take (n + 1) = l.take n ++ [a] := by
  rw [List.take_add_one, h]; rfl

variable {i : Nat}

/-- A prefix agrees with the whole wherever it is defined. -/
theorem getElem?_extended {l l' : List α} (hp : l <+: l')
    (h : l[i]? = some a) : l'[i]? = some a := by
  obtain ⟨t, rfl⟩ := hp
  rw [List.getElem?_append_left (List.getElem?_eq_some_iff.mp h).1, h]

/--
When a list that has a property keeps it under one more element exactly if the element meets a
guard, all that begins the list has the property exactly if all of its elements meet the guard.
-/
theorem forall_take_iff {P : List α → Prop} {ok : List α → α → Prop} (h0 : P [])
    (hstep : ∀ l a, P l → (P (l ++ [a]) ↔ ok l a)) (l : List α) :
    (∀ k, P (l.take k)) ↔ ∀ k a, l[k]? = some a → ok (l.take k) a := by
  constructor
  · intro h k a hk
    have hnext := h (k + 1)
    rw [take_succ_of_getElem? hk] at hnext
    exact (hstep _ a (h k)).mp hnext
  · intro h k
    induction k with
    | zero => simpa using h0
    | succ k ih =>
        cases hk : l[k]? with
        | none =>
            rw [List.getElem?_eq_none_iff] at hk
            rw [List.take_of_length_le (by omega)]
            rwa [List.take_of_length_le hk] at ih
        | some a =>
            rw [take_succ_of_getElem? hk]
            exact (hstep _ a ih).mpr (h k a hk)

/--
The same with an invariant: it gives the property, an element that meets its guard keeps it, and
one that does not loses the property at once.
-/
theorem forall_take_iff_of_inv {I P : List α → Prop} {G : List α → α → Prop}
    (h0 : I []) (hP : ∀ k, I (l.take k) → P (l.take k))
    (hkeep : ∀ k a, l[k]? = some a → I (l.take k) → G (l.take k) a → I (l.take k ++ [a]))
    (hlose : ∀ k a, l[k]? = some a → I (l.take k) → ¬ G (l.take k) a → ¬ P (l.take k ++ [a])) :
    (∀ k, P (l.take k)) ↔ ∀ k a, l[k]? = some a → G (l.take k) a := by
  -- along the guard the invariant holds of everything that begins the list
  have hinv : (∀ k a, l[k]? = some a → I (l.take k) → G (l.take k) a) →
      ∀ k, I (l.take k) := by
    intro hok k
    induction k with
    | zero => simpa using h0
    | succ k ih =>
        cases hk : l[k]? with
        | none =>
            rw [List.getElem?_eq_none_iff] at hk
            rw [List.take_of_length_le (by omega)]
            rwa [List.take_of_length_le hk] at ih
        | some a =>
            rw [take_succ_of_getElem? hk]
            exact hkeep k a hk ih (hok k a hk ih)
  constructor
  · intro h
    have hok : ∀ k a, l[k]? = some a → I (l.take k) → G (l.take k) a := by
      intro k a hk hI
      by_contra hbad
      have hnext := h (k + 1)
      rw [take_succ_of_getElem? hk] at hnext
      exact hlose k a hk hI hbad hnext
    exact fun k a hk => hok k a hk (hinv hok k)
  · exact fun h k => hP k (hinv (fun k a hk _ => h k a hk) k)

/-- Reading one more element of a sequence numbers it with the elements already read. -/
theorem enumerate_take_succ {n : Nat} (h : l[n]? = some a) :
    enumerate (l.take (n + 1)) = enumerate (l.take n) ++ [(n, a)] := by
  have hn : n < l.length := (List.getElem?_eq_some_iff.mp h).1
  rw [take_succ_of_getElem? h, enumerate_snoc, List.length_take, Nat.min_eq_left (by omega)]

theorem getElem?_enumerate (l : List α) (i : Nat) :
    (enumerate l)[i]? = l[i]?.map fun a => (i, a) := by
  simp [enumerate, List.getElem?_zipIdx, Function.comp_def]

theorem mem_enumerate :
    (i, a) ∈ enumerate l ↔ l[i]? = some a := by
  simp only [enumerate, List.mem_map, Prod.exists, Prod.swap_prod_mk, Prod.mk.injEq]
  constructor
  · rintro ⟨b, j, hmem, rfl, rfl⟩
    exact List.mk_mem_zipIdx_iff_getElem?.mp hmem
  · intro h
    exact ⟨a, i, List.mk_mem_zipIdx_iff_getElem?.mpr h, rfl, rfl⟩

variable {P : α → Prop}

theorem forall_mem_enumerate :
    (∀ p ∈ enumerate l, P p.2) ↔ ∀ a ∈ l, P a := by
  conv => rhs; rw [← map_snd_enumerate l]
  exact List.forall_mem_map.symm

theorem enumerate_take (l : List α) (n : Nat) : enumerate (l.take n) = (enumerate l).take n := by
  apply List.ext_getElem?
  intro i
  rw [getElem?_enumerate, List.getElem?_take, List.getElem?_take, getElem?_enumerate]
  split <;> simp

theorem enumerate_mono {l l' : List α} (h : l <+: l') : enumerate l <+: enumerate l' := by
  obtain ⟨n, rfl⟩ : ∃ n, l = l'.take n := ⟨l.length, (List.prefix_iff_eq_take.mp h)⟩
  rw [enumerate_take]
  exact List.take_prefix n _

/-! ## Reading a sequence after a change -/

variable {a b : α}

theorem getElem?_snoc_cases (h : (l ++ [a])[i]? = some b) :
    l[i]? = some b ∨ (i = l.length ∧ b = a) := by
  rcases Nat.lt_trichotomy i l.length with hlt | rfl | hgt
  · rw [List.getElem?_append_left hlt] at h; exact .inl h
  · simp at h; exact .inr ⟨rfl, h.symm⟩
  · rw [List.getElem?_append_right (by omega), List.getElem?_eq_none (by simp; omega)] at h
    cases h

theorem getElem?_set_cases {i j : Nat} (h : (l.set i a)[j]? = some b) :
    (j = i ∧ b = a) ∨ (j ≠ i ∧ l[j]? = some b) := by
  rw [List.getElem?_set] at h
  split at h
  · rename_i hij
    split at h
    · exact .inl ⟨hij.symm, (Option.some.inj h).symm⟩
    · cases h
  · rename_i hij
    exact .inr ⟨fun hji => hij hji.symm, h⟩

/-- What holds of every element when one of which it holds is replaced. -/
theorem forall_mem_set_iff (h : l[i]? = some b)
    (hb : P b) : (∀ x ∈ l.set i a, P x) ↔ (∀ x ∈ l, P x) ∧ P a := by
  obtain ⟨hi, -⟩ := List.getElem?_eq_some_iff.mp h
  refine ⟨fun hset => ⟨fun x hx => ?_, hset a (List.mem_set hi a)⟩, fun hall x hx => ?_⟩
  · obtain ⟨j, hj⟩ := List.mem_iff_getElem?.mp hx
    by_cases hij : i = j
    · subst hij
      rw [h] at hj
      exact Option.some.inj hj ▸ hb
    · refine hset x (List.mem_of_getElem? (i := j) ?_)
      rw [List.getElem?_set_ne hij]
      exact hj
  · rcases List.mem_or_eq_of_mem_set hx with hx | rfl
    · exact hall.1 x hx
    · exact hall.2

/-! ## Sums after a change -/

/-- How many elements there are of a kind when one of them is replaced. -/
theorem countP_set_add {p : α → Bool} (h : l[i]? = some b) :
    (l.set i a).countP p + (if p b then 1 else 0) = l.countP p + (if p a then 1 else 0) := by
  obtain ⟨hi, rfl⟩ := List.getElem?_eq_some_iff.mp h
  rw [List.countP_set hi]
  split
  · next hp =>
      have hpos : 0 < l.countP p := List.countP_pos_iff.mpr ⟨l[i], List.getElem_mem hi, hp⟩
      omega
  · omega

theorem countP_set_eq {p : α → Bool} (h : l[i]? = some b)
    (hab : p a = p b) : (l.set i a).countP p = l.countP p := by
  have hset := countP_set_add (p := p) (a := a) h
  rw [hab] at hset
  exact Nat.add_right_cancel hset

theorem sum_map_modify {f : α → Int} {g : α → α}
    (h : l[i]? = some a) : ((l.modify i g).map f).sum = (l.map f).sum - f a + f (g a) := by
  induction l generalizing i with
  | nil => cases h
  | cons b l ih =>
      cases i with
      | zero =>
          obtain rfl := Option.some.inj h
          simp only [List.modify_zero_cons, List.map_cons, List.sum_cons]
          omega
      | succ i =>
          have hrest := ih (i := i) h
          simp only [List.modify_succ_cons, List.map_cons, List.sum_cons, hrest]
          omega

theorem sum_set {l : List Nat} {i x y : Nat} (h : l[i]? = some y) :
    (l.set i x).sum + y = l.sum + x := by
  induction l generalizing i with
  | nil => cases h
  | cons a l ih =>
      cases i with
      | zero =>
          obtain rfl : a = y := Option.some.inj h
          simp only [List.set_cons_zero, List.sum_cons]
          omega
      | succ i =>
          have := ih (List.getElem?_cons_succ ▸ h)
          simp only [List.set_cons_succ, List.sum_cons]
          omega

theorem sum_modify {l : List Nat} {i y : Nat} {f : Nat → Nat} (h : l[i]? = some y) :
    (l.modify i f).sum + y = l.sum + f y := by
  induction l generalizing i with
  | nil => cases h
  | cons a l ih =>
      cases i with
      | zero =>
          obtain rfl : a = y := Option.some.inj h
          simp only [List.modify_zero_cons, List.sum_cons]
          omega
      | succ i =>
          have := ih (List.getElem?_cons_succ ▸ h)
          simp only [List.modify_succ_cons, List.sum_cons]
          omega

/-- A list up to and including the first element with the property. -/
def takeThrough (p : α → Bool) : List α → List α
  | [] => []
  | a :: l => if p a then [a] else a :: takeThrough p l

section TakeThrough

variable {p : α → Bool} {l : List α}

theorem takeThrough_eq_self (h : ∀ a ∈ l, p a = false) : takeThrough p l = l := by
  induction l with
  | nil => rfl
  | cons a l ih =>
      have ha : p a = false := h a List.mem_cons_self
      rw [takeThrough, if_neg (by simp [ha]), ih fun b hb => h b (List.mem_cons_of_mem _ hb)]

/-- Nothing after the first element with the property matters. -/
theorem takeThrough_append (h : ∃ a ∈ l, p a) (l' : List α) :
    takeThrough p (l ++ l') = takeThrough p l := by
  induction l with
  | nil => simp at h
  | cons a l ih =>
      by_cases ha : p a
      · simp [takeThrough, ha]
      · have hrest : ∃ b ∈ l, p b := by simpa [ha] using h
        simp [takeThrough, ha, ih hrest]

theorem takeThrough_eq_nil : takeThrough p l = [] ↔ l = [] := by
  cases l with
  | nil => exact Iff.rfl
  | cons a l =>
      rw [takeThrough]
      split <;> simp

theorem exists_takeThrough : (∃ a ∈ takeThrough p l, p a) ↔ ∃ a ∈ l, p a := by
  induction l with
  | nil => exact Iff.rfl
  | cons a l ih =>
      rw [takeThrough]
      by_cases ha : p a
      · simp [ha]
      · simpa [ha] using ih

/-- Lists that agree through the first element with the property agree after one more element. -/
theorem takeThrough_snoc_congr {l' : List α} (h : takeThrough p l = takeThrough p l') (a : α) :
    takeThrough p (l ++ [a]) = takeThrough p (l' ++ [a]) := by
  have hfound : (∃ b ∈ l, p b) ↔ ∃ b ∈ l', p b := by
    rw [← exists_takeThrough, h, exists_takeThrough]
  by_cases hl : ∃ b ∈ l, p b
  · rw [takeThrough_append hl, takeThrough_append (hfound.mp hl), h]
  · have hnone : ∀ l'' : List α, (¬ ∃ b ∈ l'', p b) → takeThrough p l'' = l'' := fun l'' h'' =>
      takeThrough_eq_self fun b hb => by
        by_contra hp
        exact h'' ⟨b, hb, by simpa using hp⟩
    rw [hnone l hl, hnone l' fun hl' => hl (hfound.mpr hl')] at h
    rw [h]

/-- What comes before the first element with the property, and that element. -/
theorem takeThrough_eq_take {k : Nat} (hk : l[k]? = some a) (ha : p a)
    (hbefore : ∀ b ∈ l.take k, p b = false) : takeThrough p l = l.take (k + 1) := by
  induction l generalizing k with
  | nil => cases hk
  | cons b l ih =>
      cases k with
      | zero =>
          obtain rfl := Option.some.inj hk
          simp [takeThrough, ha]
      | succ k =>
          rw [List.take_succ_cons] at hbefore
          have hb : p b = false := hbefore b List.mem_cons_self
          have hrest := ih (by simpa using hk) fun c hc => hbefore c (List.mem_cons_of_mem _ hc)
          simp [takeThrough, hb, hrest]

/-- What has none of the property comes before the first element that has it. -/
theorem take_prefix_takeThrough {k : Nat} (h : ∀ a ∈ l.take k, p a = false) :
    l.take k <+: takeThrough p l := by
  induction l generalizing k with
  | nil => simp
  | cons a l ih =>
      cases k with
      | zero => simp
      | succ k =>
          rw [List.take_succ_cons] at h ⊢
          have ha : p a = false := h a List.mem_cons_self
          rw [takeThrough, if_neg (by simp [ha])]
          exact (List.prefix_cons_inj a).mpr (ih fun b hb => h b (List.mem_cons_of_mem _ hb))

end TakeThrough

section Tags

universe w

variable {β : Type w}

/-- Lists that begin with what has a tag, and go on with what does not. -/
theorem append_inj_of_tag (tag : β → Nat) {xs xs' ys ys' : List β}
    (hxs : ∀ x ∈ xs, tag x = i) (hxs' : ∀ x ∈ xs', tag x = i)
    (hys : ∀ y ∈ ys, tag y ≠ i) (hys' : ∀ y ∈ ys', tag y ≠ i)
    (h : xs ++ ys = xs' ++ ys') : xs = xs' ∧ ys = ys' := by
  have hhead : ∀ {xs ys : List β}, (∀ x ∈ xs, tag x = i) → (∀ y ∈ ys, tag y ≠ i) →
      (xs ++ ys).filter (fun b => tag b = i) = xs := by
    intro xs ys hxs hys
    rw [List.filter_append, List.filter_eq_self.mpr fun x hx => by simp [hxs x hx],
      List.filter_eq_nil_iff.mpr fun y hy => by simp [hys y hy], List.append_nil]
  have heq : xs = xs' := by rw [← hhead hxs hys, h, hhead hxs' hys']
  subst heq
  exact ⟨rfl, List.append_cancel_left h⟩

/-- Lists put together from what has the tags of different elements. -/
theorem flatMap_inj_of_tags (tag : β → Nat) {l : List (Nat × α)} {f g : Nat × α → List β}
    (hl : (l.map Prod.fst).Nodup) (hf : ∀ p ∈ l, ∀ b ∈ f p, tag b = p.1)
    (hg : ∀ p ∈ l, ∀ b ∈ g p, tag b = p.1) :
    l.flatMap f = l.flatMap g ↔ ∀ p ∈ l, f p = g p := by
  refine ⟨fun h => ?_, fun h => List.flatMap_congr h⟩
  induction l with
  | nil => nofun
  | cons p l ih =>
      rw [List.map_cons, List.nodup_cons] at hl
      have hrest : ∀ {f : Nat × α → List β}, (∀ q ∈ p :: l, ∀ b ∈ f q, tag b = q.1) →
          ∀ b ∈ l.flatMap f, tag b ≠ p.1 := by
        intro f hf b hb htag
        obtain ⟨q, hq, hbq⟩ := List.mem_flatMap.mp hb
        rw [hf q (List.mem_cons_of_mem _ hq) b hbq] at htag
        exact hl.1 (List.mem_map.mpr ⟨q, hq, htag⟩)
      rw [List.flatMap_cons, List.flatMap_cons] at h
      obtain ⟨hhead, htail⟩ := append_inj_of_tag tag (hf p List.mem_cons_self)
        (hg p List.mem_cons_self) (hrest hf) (hrest hg) h
      intro q hq
      rcases List.mem_cons.mp hq with rfl | hq
      · exact hhead
      · exact ih hl.2 (fun r hr => hf r (List.mem_cons_of_mem _ hr))
          (fun r hr => hg r (List.mem_cons_of_mem _ hr)) htail q hq

theorem nodup_fst_enumerate (l : List α) : ((enumerate l).map Prod.fst).Nodup := by
  have hrange : (enumerate l).map Prod.fst = List.range' 0 l.length := by
    simp [enumerate, Function.comp_def, List.zipIdx_map_snd]
  rw [hrange]
  exact List.nodup_range'

end Tags

theorem nodup_eraseDups [BEq α] [LawfulBEq α] (l : List α) : l.eraseDups.Nodup := by
  match l with
  | [] => simp
  | a :: l =>
      rw [List.eraseDups_cons, List.nodup_cons]
      refine ⟨fun hmem => ?_, nodup_eraseDups _⟩
      -- what is left after an element does not have it
      have hleft := List.mem_filter.mp (List.mem_eraseDups.mp hmem)
      simp at hleft
termination_by l.length
decreasing_by exact Nat.lt_succ_of_le (List.length_filter_le _ _)

end Exo.Lib
