import Mathlib.Data.List.Infix

/-!
# Text between two markers

Two markers turn a state on and off. In each state only one of them is looked for; wherever it
begins it is taken out, and what is left is labelled with the state it stands in.

A reader that overlooks a marker takes out less: at least if the markers stand apart, so that the
occurrence of one never overlaps that of another.
-/

namespace Exo.Lib

universe u

/-- The marker that begins the marked part of a text and the one that ends it, if there are any. -/
structure Markers (α : Type u) where
  start : Option (List α)
  stop : Option (List α)
  start_ne_nil : start ≠ some []
  stop_ne_nil : stop ≠ some []

namespace Markers

variable {α : Type u} (m : Markers α)

/-- The marker that is looked for. -/
def due (inside : Bool) : Option (List α) := if inside then m.stop else m.start

/-- The length of the marker that is looked for. -/
def width (inside : Bool) : Nat := ((m.due inside).map List.length).getD 0

variable {m} {inside : Bool} {tag : List α}

theorem due_ne_nil (h : m.due inside = some tag) : tag ≠ [] := by
  rintro rfl
  unfold due at h
  split at h
  · exact m.stop_ne_nil h
  · exact m.start_ne_nil h

theorem width_eq (h : m.due inside = some tag) : m.width inside = tag.length := by
  rw [width, h]
  rfl

variable (m) [DecidableEq α]

/-- The marker that is looked for, where it begins the text. -/
def found (inside : Bool) (t : List α) : Option (List α) :=
  (m.due inside).filter (·.isPrefixOf t)

/-- The labels of a text whose first `skip` characters belong to a marker. -/
def labelFrom : Bool → Nat → List α → List (α × Bool)
  | _, _, [] => []
  | inside, skip + 1, _ :: t => labelFrom inside skip t
  | inside, 0, c :: t =>
    match m.found inside (c :: t) with
    | some tag => labelFrom (!inside) (tag.length - 1) t
    | none => (c, inside) :: labelFrom inside 0 t

/-- The text without the markers that were looked for, each character with its label. -/
def label (inside : Bool) (t : List α) : List (α × Bool) := m.labelFrom inside 0 t

/-- No marker that is looked for begins in the first text, which the second one follows. -/
def Clear (inside : Bool) : List α → List α → Prop
  | [], _ => True
  | c :: t, rest => m.found inside (c :: t ++ rest) = none ∧ Clear inside t rest

instance decidableClear (inside : Bool) : (t rest : List α) → Decidable (m.Clear inside t rest)
  | [], _ => isTrue trivial
  | c :: t, rest =>
    have := decidableClear inside t rest
    inferInstanceAs (Decidable (m.found inside (c :: t ++ rest) = none ∧ m.Clear inside t rest))

variable {m} {t rest : List α} {c : α}

theorem found_eq_some : m.found inside t = some tag ↔ m.due inside = some tag ∧ tag <+: t := by
  unfold found
  rw [Option.filter_eq_some_iff, List.isPrefixOf_iff_prefix]

theorem found_append (h : m.due inside = some tag) (t : List α) :
    m.found inside (tag ++ t) = some tag :=
  found_eq_some.2 ⟨h, List.prefix_append tag t⟩

@[simp] theorem label_nil : m.label inside [] = [] := rfl

theorem labelFrom_skip : ∀ (skipped t : List α),
    m.labelFrom inside skipped.length (skipped ++ t) = m.label inside t
  | [], _ => rfl
  | _ :: skipped, t => labelFrom_skip skipped t

theorem label_tag (h : m.due inside = some tag) (t : List α) :
    m.label inside (tag ++ t) = m.label (!inside) t := by
  obtain ⟨c, more, rfl⟩ := List.exists_cons_of_ne_nil (due_ne_nil h)
  have hfound := found_append h t
  rw [List.cons_append] at hfound
  rw [label, List.cons_append, labelFrom, hfound]
  exact labelFrom_skip more t

theorem label_cons (h : m.found inside (c :: t) = none) :
    m.label inside (c :: t) = (c, inside) :: m.label inside t := by
  rw [label, labelFrom, h]
  rfl

variable (m) in
/-- A text ends, begins with the marker that is looked for, or with a character of its own. -/
theorem label_induction {P : Bool → List α → Prop} (nil : ∀ inside, P inside [])
    (tag : ∀ inside tag t, m.due inside = some tag → P (!inside) t → P inside (tag ++ t))
    (cons : ∀ inside c t, m.found inside (c :: t) = none → P inside t → P inside (c :: t)) :
    ∀ inside t, P inside t := by
  intro inside t
  induction h : t.length using Nat.strongRecOn generalizing inside t with
  | _ n ih =>
      cases t with
      | nil => exact nil inside
      | cons c t =>
          cases hfound : m.found inside (c :: t) with
          | none => exact cons inside c t hfound (ih _ (by simp [← h]) inside t rfl)
          | some marker =>
              obtain ⟨hdue, rest, hrest⟩ := found_eq_some.1 hfound
              have hlength := congrArg List.length hrest
              have hpos := List.length_pos_iff.mpr (due_ne_nil hdue)
              rw [List.length_append] at hlength
              rw [← hrest]
              exact tag inside marker rest hdue (ih _ (by omega) (!inside) rest rfl)

/-! ## Text in which no marker begins -/

@[simp] theorem clear_nil : m.Clear inside [] rest := trivial

@[simp] theorem clear_cons :
    m.Clear inside (c :: t) rest ↔
      m.found inside (c :: t ++ rest) = none ∧ m.Clear inside t rest := Iff.rfl

theorem label_append_of_clear (h : m.Clear inside t rest) :
    m.label inside (t ++ rest) = t.map (·, inside) ++ m.label inside rest := by
  induction t with
  | nil => rfl
  | cons c t ih =>
      obtain ⟨hc, ht⟩ := h
      rw [List.cons_append] at hc
      rw [List.cons_append, label_cons hc, ih ht]
      rfl

/-- Where a text is not clear, a first marker begins. -/
theorem exists_marker (h : ¬ m.Clear inside t rest) :
    ∃ before tag after, m.due inside = some tag ∧ before.length < t.length ∧
      t ++ rest = before ++ tag ++ after ∧ m.Clear inside before (tag ++ after) := by
  induction t with
  | nil => exact absurd trivial h
  | cons c t ih =>
      cases hc : m.found inside (c :: t ++ rest) with
      | some tag =>
          obtain ⟨hdue, after, hafter⟩ := found_eq_some.1 hc
          exact ⟨[], tag, after, hdue, Nat.succ_pos _, hafter.symm, trivial⟩
      | none =>
          obtain ⟨before, tag, after, hdue, hlt, heq, hclear⟩ := ih fun ht => h ⟨hc, ht⟩
          have heq' : c :: t ++ rest = c :: before ++ tag ++ after := by
            rw [List.cons_append, heq]
            rfl
          refine ⟨c :: before, tag, after, hdue, Nat.succ_lt_succ hlt, heq', ?_, hclear⟩
          rw [List.append_assoc] at heq'
          rw [← heq']
          exact hc

theorem length_label_le : ∀ (inside : Bool) (t : List α), (m.label inside t).length ≤ t.length := by
  refine label_induction m ?_ ?_ ?_
  · exact fun _ => Nat.le_refl 0
  · intro inside tag t hdue ih
    rw [label_tag hdue, List.length_append]
    omega
  · intro inside c t hfound ih
    rw [label_cons hfound]
    exact Nat.succ_le_succ ih

/-- A text keeps its length only if nothing is taken out. -/
theorem clear_of_length (h : t.length ≤ (m.label inside t).length) : m.Clear inside t [] := by
  by_contra hnot
  obtain ⟨before, tag, after, hdue, -, heq, hclear⟩ := exists_marker hnot
  rw [List.append_nil, List.append_assoc] at heq
  have hpos := List.length_pos_iff.mpr (due_ne_nil hdue)
  have hle := @length_label_le α m _ (!inside) after
  rw [heq, label_append_of_clear hclear, label_tag hdue] at h
  simp only [List.length_append, List.length_map] at h
  omega

/-! ## Markers that stand apart -/

variable (m) in
/-- The first character of a marker stands nowhere else in a marker, and no marker begins the
other. -/
def Apart : Prop :=
  ∀ b b' : Bool, ∀ tag ∈ m.due b, ∀ tag' ∈ m.due b',
    (∀ c ∈ tag'.tail, tag.head? ≠ some c) ∧ (b ≠ b' → ¬ tag <+: tag')

variable {b : Bool}

/-- No marker begins with a character that another one has behind its first. -/
theorem Apart.clear_of_subset (h : m.Apart) (hdue : m.due b = some tag) (hs : t ⊆ tag.tail) :
    m.Clear inside t rest := by
  induction t with
  | nil => trivial
  | cons c t ih =>
      refine ⟨?_, ih (List.subset_of_cons_subset hs)⟩
      cases hfound : m.found inside (c :: t ++ rest) with
      | none => rfl
      | some other =>
          obtain ⟨hother, hp⟩ := found_eq_some.1 hfound
          have hhead : other.head? = some c := by
            obtain ⟨d, more, rfl⟩ := List.exists_cons_of_ne_nil (due_ne_nil hother)
            exact congrArg some (List.cons_prefix_cons.mp hp).1
          exact absurd hhead ((h inside b other hother tag hdue).1 c
            (hs List.mem_cons_self))

/-- Nor does the other marker begin in one. -/
theorem Apart.clear_other (h : m.Apart) (hdue : m.due inside = some tag) :
    m.Clear (!inside) tag rest := by
  have hne : inside ≠ !inside := by cases inside <;> decide
  obtain ⟨c, more, rfl⟩ := List.exists_cons_of_ne_nil (due_ne_nil hdue)
  refine ⟨?_, h.clear_of_subset hdue (List.Subset.refl more)⟩
  cases hfound : m.found (!inside) (c :: more ++ rest) with
  | none => rfl
  | some other =>
      obtain ⟨hother, hp⟩ := found_eq_some.1 hfound
      rcases List.prefix_or_prefix_of_prefix hp (List.prefix_append (c :: more) rest) with hp | hp
      · exact absurd hp ((h (!inside) inside other hother _ hdue).2 hne.symm)
      · exact absurd hp ((h inside (!inside) _ hdue other hother).2 hne)

/-- A text read in the wrong state keeps at most one marker less. -/
theorem Apart.length_label_not_le (h : m.Apart) : ∀ (inside : Bool) (t : List α),
    (m.label inside t).length ≤ m.width (!inside) + (m.label (!inside) t).length := by
  refine label_induction m ?_ ?_ ?_
  · intro inside
    exact Nat.zero_le _
  · intro inside tag t hdue _
    rw [label_tag hdue, label_append_of_clear (h.clear_other hdue), List.length_append]
    omega
  · intro inside c t hfound ih
    rw [label_cons hfound, List.length_cons]
    cases hother : m.found (!inside) (c :: t) with
    | none =>
        rw [label_cons hother, List.length_cons]
        omega
    | some tag =>
        -- the other state takes a marker out here, and both go on in the first state
        obtain ⟨hdue, rest, hrest⟩ := found_eq_some.1 hother
        have hclear : m.Clear (!!inside) tag rest := h.clear_other hdue
        rw [Bool.not_not] at hclear
        have hlabel : m.label inside (c :: t) = tag.map (·, inside) ++ m.label inside rest := by
          rw [← hrest, label_append_of_clear hclear]
        have hlength := congrArg List.length (label_cons hfound ▸ hlabel)
        rw [← hrest, label_tag hdue, Bool.not_not, width_eq hdue]
        simp only [List.length_cons, List.length_append, List.length_map] at hlength
        omega

/-- Text that is let pass unread is no shorter for it. -/
theorem Apart.length_label_append_le (h : m.Apart) (inside : Bool) (t rest : List α) :
    (m.label inside (t ++ rest)).length ≤ t.length + (m.label inside rest).length := by
  induction t with
  | nil =>
      rw [List.nil_append]
      omega
  | cons c t ih =>
      cases hfound : m.found inside (c :: t ++ rest) with
      | none =>
          rw [List.cons_append] at hfound ⊢
          rw [label_cons hfound]
          simp only [List.length_cons]
          omega
      | some tag =>
          obtain ⟨hdue, after, hafter⟩ := found_eq_some.1 hfound
          obtain ⟨d, more, rfl⟩ := List.exists_cons_of_ne_nil (due_ne_nil hdue)
          obtain ⟨rfl, htail⟩ := List.cons.inj hafter
          replace htail : more ++ after = t ++ rest := htail
          have hclear : m.Clear inside more after :=
            h.clear_of_subset hdue (List.Subset.refl more)
          have hother := h.length_label_not_le (!inside) after
          rw [Bool.not_not, width_eq hdue] at hother
          rw [← htail, label_append_of_clear hclear] at ih
          rw [← hafter, label_tag hdue]
          simp only [List.length_cons, List.length_append, List.length_map] at hother ih ⊢
          omega

theorem clear_append {u v : List α} :
    m.Clear inside (u ++ v) rest ↔ m.Clear inside u (v ++ rest) ∧ m.Clear inside v rest := by
  induction u with
  | nil => simp
  | cons c u ih => simp only [List.cons_append, clear_cons, ih, List.append_assoc, and_assoc]

/-- Who lets pass a marker and the other marker right behind it keeps both. -/
theorem Apart.length_label_missed (h : m.Apart) {tag' passed after : List α}
    (hdue : m.due inside = some tag) (hdue' : m.due (!inside) = some tag') (hpassed : passed ≠ [])
    (heq : passed ++ rest = tag ++ (tag' ++ after)) :
    (m.label inside after).length + tag.length + tag'.length
      ≤ passed.length + (m.label inside rest).length := by
  rw [← List.append_assoc] at heq
  rcases List.append_eq_append_iff.mp heq with ⟨w, hw, rfl⟩ | ⟨w, rfl, rfl⟩
  · -- what is left of the two is read as text
    obtain ⟨c, more, rfl⟩ := List.exists_cons_of_ne_nil (due_ne_nil hdue)
    obtain ⟨d, passed, rfl⟩ := List.exists_cons_of_ne_nil hpassed
    replace hw : more ++ tag' = passed ++ w := (List.cons.inj hw).2
    have hother : m.Clear (!!inside) tag' after := h.clear_other hdue'
    rw [Bool.not_not] at hother
    have hclear : m.Clear inside (more ++ tag') after :=
      clear_append.2 ⟨h.clear_of_subset hdue (List.Subset.refl more), hother⟩
    rw [hw, clear_append] at hclear
    have hlength := congrArg List.length hw
    rw [label_append_of_clear hclear.2]
    simp only [List.length_append, List.length_cons, List.length_map] at hlength ⊢
    omega
  · have hle := h.length_label_append_le inside w rest
    simp only [List.length_append] at hle ⊢
    omega

/-- What begins a marker is clear of the one that is looked for, unless it is that one. -/
theorem Apart.clear_of_prefix (h : m.Apart) (hdue : m.due b = some tag) (hp : t <+: tag)
    (hne : some t ≠ m.due inside) : m.Clear inside t [] := by
  cases t with
  | nil => trivial
  | cons c t =>
      obtain ⟨d, more, rfl⟩ := List.exists_cons_of_ne_nil (due_ne_nil hdue)
      obtain ⟨rfl, hmore⟩ := List.cons_prefix_cons.mp hp
      refine ⟨?_, h.clear_of_subset hdue hmore.subset⟩
      cases hfound : m.found inside (c :: t ++ []) with
      | none => rfl
      | some other =>
          obtain ⟨hother, hbegin⟩ := found_eq_some.1 hfound
          rw [List.append_nil] at hbegin
          by_cases hb : inside = b
          · subst hb
            rw [hdue] at hother
            obtain rfl := Option.some.inj hother
            exact absurd ((hp.eq_of_length_le hbegin.length_le) ▸ hdue.symm) hne
          · exact absurd (hbegin.trans hp) ((h inside b other hother _ hdue).2 hb)

end Markers

end Exo.Lib
