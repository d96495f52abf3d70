import Mathlib.Data.List.Infix

/-!
# Cutting a text at a marker

A text is cut in front of the first occurrence of a marker in it. More text behind does not move
the cut, and text in front that no occurrence begins in moves it by its length.
-/

namespace Exo.Lib

universe u

variable {α : Type u}

/-- No occurrence of the marker begins in the first text, which the second one follows. -/
def Free (marker t rest : List α) : Prop := ∀ s, s <:+ t → s ≠ [] → ¬ marker <+: s ++ rest

variable {marker t rest a b : List α} {c : α}

theorem free_nil : Free marker [] rest := fun _ hs hne => absurd (List.suffix_nil.mp hs) hne

theorem free_cons : Free marker (c :: t) rest ↔ ¬ marker <+: c :: t ++ rest ∧ Free marker t rest := by
  constructor
  · exact fun h => ⟨h _ (List.suffix_refl _) (List.cons_ne_nil c t),
      fun s hs => h s (hs.trans (List.suffix_cons c t))⟩
  · rintro ⟨hc, ht⟩ s hs hne
    rcases List.suffix_cons_iff.mp hs with rfl | hs
    · exact hc
    · exact ht s hs hne

/-- What follows an occurrence of the marker makes no difference. -/
theorem Free.append (h : Free marker a b) (hb : marker <+: b) (rest : List α) :
    Free marker a (b ++ rest) := by
  intro s hs hne hp
  rw [← List.append_assoc] at hp
  have hle := hb.length_le
  refine h s hs hne (List.prefix_of_prefix_length_le hp (List.prefix_append _ _) ?_)
  rw [List.length_append]
  omega

/-- In a text without the marker, an occurrence begins only if the end of the text begins one. -/
theorem free_of_not_infix (h : ¬ marker <:+: t)
    (hends : ∀ s, s <:+ t → s ≠ [] → s.length ≤ marker.length → ¬ s <+: marker) :
    Free marker t rest := by
  intro s hs hne hp
  rcases Nat.le_total marker.length s.length with hle | hle
  · have hin := List.prefix_of_prefix_length_le hp (List.prefix_append s rest) hle
    exact h (hin.isInfix.trans hs.isInfix)
  · exact hends s hs hne hle (List.prefix_of_prefix_length_le (List.prefix_append s rest) hp hle)

variable [DecidableEq α]

/-- What stands in front of the first occurrence of the marker, and the rest. -/
def cut (marker : List α) : List α → Option (List α × List α)
  | [] => if marker.isEmpty then some ([], []) else none
  | c :: t =>
    if marker.isPrefixOf (c :: t) then some ([], c :: t)
    else (cut marker t).map fun p => (c :: p.1, p.2)

/-- The text up to the end of the first occurrence of the marker, and the rest. -/
def cutBehind (marker t : List α) : Option (List α × List α) :=
  (cut marker t).map fun p => (p.1 ++ p.2.take marker.length, p.2.drop marker.length)

theorem cut_cons_of_isPrefix (h : marker <+: c :: t) : cut marker (c :: t) = some ([], c :: t) := by
  rw [cut, if_pos (List.isPrefixOf_iff_prefix.mpr h)]

theorem cut_cons (h : ¬ marker <+: c :: t) :
    cut marker (c :: t) = (cut marker t).map fun p => (c :: p.1, p.2) := by
  rw [cut, if_neg (fun hp => h (List.isPrefixOf_iff_prefix.mp hp))]

theorem cut_of_isPrefix (h : marker <+: t) : cut marker t = some ([], t) := by
  cases t with
  | nil =>
      rw [cut, if_pos (List.isEmpty_iff.mpr (List.prefix_nil.mp h))]
  | cons c t => exact cut_cons_of_isPrefix h

/-- Text in which no occurrence begins only moves the cut. -/
theorem cut_append_of_free (h : Free marker t rest) :
    cut marker (t ++ rest) = (cut marker rest).map fun p => (t ++ p.1, p.2) := by
  induction t with
  | nil => cases hcut : cut marker rest <;> simp [hcut]
  | cons c t ih =>
      obtain ⟨hc, ht⟩ := free_cons.1 h
      rw [List.cons_append] at hc ⊢
      rw [cut_cons hc, ih ht, Option.map_map]
      rfl

theorem cut_eq_some_iff :
    cut marker t = some (a, b) ↔ t = a ++ b ∧ marker <+: b ∧ Free marker a b := by
  constructor
  · intro h
    induction t generalizing a with
    | nil =>
        rw [cut] at h
        split at h
        · rename_i hempty
          cases h
          exact ⟨rfl, List.isEmpty_iff.mp hempty ▸ List.nil_prefix, free_nil⟩
        · cases h
    | cons c t ih =>
        by_cases hp : marker <+: c :: t
        · rw [cut_cons_of_isPrefix hp] at h
          cases h
          exact ⟨rfl, hp, free_nil⟩
        · rw [cut_cons hp] at h
          cases hcut : cut marker t with
          | none =>
              rw [hcut] at h
              cases h
          | some p =>
              rw [hcut] at h
              cases h
              obtain ⟨rfl, hb, hfree⟩ := ih hcut
              exact ⟨rfl, hb, free_cons.2 ⟨hp, hfree⟩⟩
  · rintro ⟨rfl, hb, hfree⟩
    rw [cut_append_of_free hfree, cut_of_isPrefix hb, Option.map_some, List.append_nil]

theorem cut_eq_none_iff : cut marker t = none ↔ ¬ marker <:+: t := by
  constructor
  · intro h hin
    obtain ⟨before, after, rfl⟩ := hin
    induction before with
    | nil => simp [cut_of_isPrefix (List.prefix_append marker after)] at h
    | cons c before ih =>
        by_cases hp : marker <+: c :: (before ++ marker ++ after)
        · rw [List.cons_append, List.cons_append, cut_cons_of_isPrefix hp] at h
          cases h
        · rw [List.cons_append, List.cons_append, cut_cons hp, Option.map_eq_none_iff] at h
          exact ih h
  · intro h
    cases hcut : cut marker t with
    | none => rfl
    | some p =>
        obtain ⟨a, b⟩ := p
        obtain ⟨rfl, ⟨after, rfl⟩, -⟩ := cut_eq_some_iff.1 hcut
        exact absurd ⟨a, after, List.append_assoc a marker after⟩ h

/-- More text behind does not move the cut. -/
theorem cut_append (h : cut marker t = some (a, b)) (rest : List α) :
    cut marker (t ++ rest) = some (a, b ++ rest) := by
  obtain ⟨rfl, hb, hfree⟩ := cut_eq_some_iff.1 h
  exact cut_eq_some_iff.2 ⟨List.append_assoc a b rest, hb.trans (List.prefix_append b rest),
    hfree.append hb rest⟩

theorem append_of_cutBehind (h : cutBehind marker t = some (a, b)) : t = a ++ b := by
  obtain ⟨⟨before, behind⟩, hcut, heq⟩ := Option.map_eq_some_iff.mp h
  obtain ⟨rfl, -, -⟩ := cut_eq_some_iff.1 hcut
  obtain ⟨rfl, rfl⟩ := Prod.mk.inj heq
  rw [List.append_assoc, List.take_append_drop]

theorem length_of_cutBehind (hne : marker ≠ []) (h : cutBehind marker t = some (a, b)) :
    b.length < t.length := by
  obtain ⟨⟨before, behind⟩, hcut, heq⟩ := Option.map_eq_some_iff.mp h
  obtain ⟨rfl, hb, -⟩ := cut_eq_some_iff.1 hcut
  obtain ⟨rfl, rfl⟩ := Prod.mk.inj heq
  have hle := hb.length_le
  have hpos := List.length_pos_iff.mpr hne
  simp only [List.length_drop, List.length_append] at hle ⊢
  omega

theorem cutBehind_append (h : cutBehind marker t = some (a, b)) (rest : List α) :
    cutBehind marker (t ++ rest) = some (a, b ++ rest) := by
  obtain ⟨⟨before, behind⟩, hcut, heq⟩ := Option.map_eq_some_iff.mp h
  have hle := (cut_eq_some_iff.1 hcut).2.1.length_le
  obtain ⟨rfl, rfl⟩ := Prod.mk.inj heq
  rw [cutBehind, cut_append hcut, Option.map_some, List.take_append_of_le_length hle,
    List.drop_append_of_le_length hle]

theorem prefix_of_cut (h : cut marker t = some (a, b)) : a <+: t := by
  obtain ⟨rfl, -, -⟩ := cut_eq_some_iff.1 h
  exact List.prefix_append a b

/-! ## The earliest of several markers -/

variable {markers : List (List α)}

/-- What stands in front of the earliest occurrence of any marker, or everything. -/
def cutAny (markers : List (List α)) : List α → List α
  | [] => []
  | c :: t => if markers.any (·.isPrefixOf (c :: t)) then [] else c :: cutAny markers t

/-- Without an occurrence nothing is cut off. -/
theorem cutAny_of_not_infix (h : ∀ marker ∈ markers, ¬ marker <:+: t) : cutAny markers t = t := by
  induction t with
  | nil => rfl
  | cons c t ih =>
      have hnone : ¬ markers.any (·.isPrefixOf (c :: t)) := by
        intro hany
        obtain ⟨marker, hmem, hp⟩ := List.any_eq_true.mp hany
        exact h marker hmem (List.isPrefixOf_iff_prefix.mp hp).isInfix
      rw [cutAny, if_neg hnone, ih fun marker hmem hin => h marker hmem (hin.trans
        (List.suffix_cons c t).isInfix)]

/-- The earliest occurrence of any marker is not behind the first one of this marker. -/
theorem length_cutAny_le (hmem : marker ∈ markers) (h : cut marker t = some (a, b)) :
    (cutAny markers t).length ≤ a.length := by
  induction t generalizing a with
  | nil => exact Nat.zero_le _
  | cons c t ih =>
      rw [cutAny]
      split
      · exact Nat.zero_le _
      · rename_i hnone
        have hp : ¬ marker <+: c :: t := fun hp =>
          hnone (List.any_eq_true.mpr ⟨marker, hmem, List.isPrefixOf_iff_prefix.mpr hp⟩)
        rw [cut_cons hp] at h
        obtain ⟨⟨a', b'⟩, hcut, heq⟩ := Option.map_eq_some_iff.mp h
        obtain ⟨rfl, rfl⟩ := Prod.mk.inj heq
        exact Nat.succ_le_succ (ih hcut)

end Exo.Lib
