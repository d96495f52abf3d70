import Exo.Lib.Cutting

/-!
# The occurrences of a marker in a text

From left to right, the occurrences of a marker that do not overlap are written several times each, or
cut out as pieces of their own. Characters may carry more than the marker is compared with, so that a
reader can tell where a piece comes from. As long as no occurrence is dropped, the pieces of a text with
repeated occurrences are the repeated pieces of the text.
-/

namespace Exo.Lib

universe u v

variable {α : Type u} {κ : Type v}

/-- Behind a text only its first characters matter, when the marker stands there. -/
theorem free_iff_of_starts {marker t rest : List κ} (h : marker <+: rest) :
    Free marker t rest ↔ Free marker t marker := by
  obtain ⟨behind, rfl⟩ := h
  constructor
  · intro hfree s hs hne hp
    refine hfree s hs hne ?_
    rw [← List.append_assoc]
    exact hp.trans (List.prefix_append _ behind)
  · exact fun hfree => hfree.append List.prefix_rfl behind

variable [DecidableEq κ] (key : α → κ) (marker : List κ)

/-- An occurrence of the marker begins here. -/
def begins (l : List α) : Bool := marker.isPrefixOf (l.map key)

/-- The `index`-th occurrence from here on is written `count index` times; the first `skip` characters
belong to an occurrence. -/
def repeatFrom (count : Nat → Nat) : (skip index : Nat) → List α → List α
  | _, _, [] => []
  | skip + 1, index, _ :: rest => repeatFrom count skip index rest
  | 0, index, c :: rest =>
    if begins key marker (c :: rest) then
      (List.replicate (count index) ((c :: rest).take marker.length)).flatten
        ++ repeatFrom count (marker.length - 1) (index + 1) rest
    else c :: repeatFrom count 0 index rest

/-- A text between occurrences, or an occurrence, by its first character. -/
inductive Piece (α : Type u) where
  | text (chars : List α)
  | occurrence (first : α)

/-- The text before an occurrence, unless there is none. -/
def flush : List α → List (Piece α)
  | [] => []
  | chars => [.text chars]

def piecesFrom : (skip : Nat) → (text : List α) → List α → List (Piece α)
  | _, text, [] => flush text
  | skip + 1, text, _ :: rest => piecesFrom skip text rest
  | 0, text, c :: rest =>
    if begins key marker (c :: rest) then
      flush text ++ .occurrence c :: piecesFrom (marker.length - 1) [] rest
    else piecesFrom 0 (text ++ [c]) rest

variable {key marker} {count : Nat → Nat} {index : Nat} {text t o rest : List α} {first : α}

theorem begins_iff {l : List α} : begins key marker l = true ↔ marker <+: l.map key :=
  List.isPrefixOf_iff_prefix

/-! ## Text without occurrences -/

theorem repeatFrom_free (h : Free marker (t.map key) (rest.map key)) :
    repeatFrom key marker count 0 index (t ++ rest) = t ++ repeatFrom key marker count 0 index rest := by
  induction t with
  | nil => rfl
  | cons c t ih =>
      rw [List.map_cons, free_cons] at h
      rw [List.cons_append, repeatFrom, if_neg, ih h.2, List.cons_append]
      rw [begins_iff, List.map_cons, List.map_append]
      exact h.1

theorem piecesFrom_free (h : Free marker (t.map key) (rest.map key)) :
    piecesFrom key marker 0 text (t ++ rest) = piecesFrom key marker 0 (text ++ t) rest := by
  induction t generalizing text with
  | nil => rw [List.nil_append, List.append_nil]
  | cons c t ih =>
      rw [List.map_cons, free_cons] at h
      rw [List.cons_append, piecesFrom, if_neg, ih h.2, List.append_assoc, List.singleton_append]
      rw [begins_iff, List.map_cons, List.map_append]
      exact h.1

/-! ## Occurrences -/

theorem repeatFrom_skip (t : List α) :
    repeatFrom key marker count t.length index (t ++ rest)
      = repeatFrom key marker count 0 index rest := by
  induction t with
  | nil => rfl
  | cons c t ih => exact ih

theorem piecesFrom_skip (t : List α) :
    piecesFrom key marker t.length text (t ++ rest) = piecesFrom key marker 0 text rest := by
  induction t with
  | nil => rfl
  | cons c t ih => exact ih

/-- An occurrence is written as often as it is counted. -/
theorem repeatFrom_occurrence (ho : (first :: o).map key = marker) :
    repeatFrom key marker count 0 index (first :: o ++ rest)
      = (List.replicate (count index) (first :: o)).flatten
        ++ repeatFrom key marker count 0 (index + 1) rest := by
  have hlength : marker.length = (first :: o).length := by rw [← ho, List.length_map]
  have hbegins : begins key marker (first :: o ++ rest) = true := by
    rw [begins_iff, List.map_append, ho]
    exact List.prefix_append _ _
  rw [List.cons_append] at hbegins ⊢
  rw [repeatFrom, if_pos hbegins, hlength, ← List.cons_append, List.take_left,
    List.length_cons, Nat.add_sub_cancel, repeatFrom_skip]

theorem piecesFrom_occurrence (ho : (first :: o).map key = marker) :
    piecesFrom key marker 0 text (first :: o ++ rest)
      = flush text ++ .occurrence first :: piecesFrom key marker 0 [] rest := by
  have hlength : marker.length = (first :: o).length := by rw [← ho, List.length_map]
  have hbegins : begins key marker (first :: o ++ rest) = true := by
    rw [begins_iff, List.map_append, ho]
    exact List.prefix_append _ _
  rw [List.cons_append] at hbegins ⊢
  rw [piecesFrom, if_pos hbegins, hlength, List.length_cons, Nat.add_sub_cancel, piecesFrom_skip]

/-- Repeated occurrences are as many pieces. -/
theorem piecesFrom_replicate (ho : (first :: o).map key = marker) (n : Nat) :
    piecesFrom key marker 0 [] ((List.replicate n (first :: o)).flatten ++ rest)
      = List.replicate n (.occurrence first) ++ piecesFrom key marker 0 [] rest := by
  induction n with
  | zero => rfl
  | succ n ih =>
      rw [List.replicate_succ, List.flatten_cons, List.append_assoc, piecesFrom_occurrence ho, ih]
      rfl

/-- The text before the first occurrence in a text. -/
theorem exists_first {behind : List κ} (h : ¬ Free marker (t.map key) behind) :
    ∃ v w, t = v ++ w ∧ w ≠ [] ∧ marker <+: w.map key ++ behind ∧ Free marker (v.map key) marker := by
  induction t with
  | nil => exact absurd free_nil h
  | cons c t ih =>
      by_cases hbegins : marker <+: (c :: t).map key ++ behind
      · exact ⟨[], c :: t, rfl, List.cons_ne_nil c t, hbegins, free_nil⟩
      · rw [List.map_cons, free_cons] at h
        have htail : ¬ Free marker (t.map key) behind := fun hfree => h ⟨hbegins, hfree⟩
        obtain ⟨v, w, rfl, hne, hw, hfree⟩ := ih htail
        refine ⟨c :: v, w, rfl, hne, hw, ?_⟩
        rw [List.map_cons, free_cons]
        refine ⟨fun hp => hbegins (hp.trans ?_), hfree⟩
        rw [List.map_cons, List.map_append, List.cons_append, List.cons_append, List.append_assoc,
          ← List.cons_append, ← List.cons_append]
        exact (List.prefix_append_right_inj _).mpr hw

/-! ## Characters with more to them -/

section Map

variable {β : Type u} {key' : β → κ} {f : α → β}

def Piece.map (f : α → β) : Piece α → Piece β
  | .text chars => .text (chars.map f)
  | .occurrence first => .occurrence (f first)

theorem begins_map (h : ∀ a, key' (f a) = key a) (l : List α) :
    begins key' marker (l.map f) = begins key marker l := by
  have hkey : key' ∘ f = key := funext h
  rw [begins, begins, List.map_map, hkey]

theorem map_repeatFrom (h : ∀ a, key' (f a) = key a) (skip index : Nat) (l : List α) :
    (repeatFrom key marker count skip index l).map f
      = repeatFrom key' marker count skip index (l.map f) := by
  induction l generalizing skip index with
  | nil => cases skip <;> rfl
  | cons c rest ih =>
      cases skip with
      | succ skip => exact ih skip index
      | zero =>
          rw [repeatFrom, List.map_cons, repeatFrom, ← List.map_cons, begins_map h, ← ih, ← ih]
          split
          · rw [List.map_append, List.map_flatten, List.map_replicate, List.map_take]
          · rw [List.map_cons]

theorem map_piecesFrom (h : ∀ a, key' (f a) = key a) (skip : Nat) (text l : List α) :
    (piecesFrom key marker skip text l).map (Piece.map f)
      = piecesFrom key' marker skip (text.map f) (l.map f) := by
  have hflush : ∀ text : List α, (flush text).map (Piece.map f) = flush (text.map f) :=
    fun text => by cases text <;> rfl
  induction l generalizing skip text with
  | nil => cases skip <;> exact hflush text
  | cons c rest ih =>
      cases skip with
      | succ skip => exact ih skip text
      | zero =>
          rw [piecesFrom, List.map_cons, piecesFrom, ← List.map_cons, begins_map h]
          split
          · rw [List.map_append, List.map_cons, ih, hflush]
            rfl
          · rw [ih, List.map_append]
            rfl

end Map

end Exo.Lib
