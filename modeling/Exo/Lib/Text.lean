import Mathlib.Data.List.Basic
import Mathlib.Data.List.DropRight
import Mathlib.Algebra.GroupWithZero.Nat

/-!
# Texts and their lines

A text is a list of code points as a program holds it in memory, surrogates included, so not
every text can be written to a file. A reader that asks a text for its lines does not cut it at
line feeds only: this file says where it does cut, and when a text made of lines is read back as
the lines it was made of.
-/

namespace Exo.Lib

/-- A code point, surrogates included. -/
abbrev CodePoint := Fin 0x110000

/-- What makes a numeral a code point. -/
instance neZero_codePoints : NeZero 0x110000 := ⟨by decide⟩

/-- What a program holds in memory as a string. -/
abbrev Text := List CodePoint

instance lawfulBEq_text : LawfulBEq Text := inferInstance

namespace CodePoint

def ofChar (c : Char) : CodePoint :=
  ⟨c.toNat, by
    have h : c.toNat < 0xD800 ∨ 0xDFFF < c.toNat ∧ c.toNat < 0x110000 := c.valid
    omega⟩

/-- Half of a pair. No encoder writes one alone. -/
def isSurrogate (c : CodePoint) : Bool := decide (0xD800 ≤ c.val ∧ c.val ≤ 0xDFFF)

/-- Where a text is cut when it is asked for its lines. -/
def isLineBreak (c : CodePoint) : Bool :=
  [0x0A, 0x0B, 0x0C, 0x0D, 0x1C, 0x1D, 0x1E, 0x85, 0x2028, 0x2029].contains c.val

/-- What is stripped from the two ends of a text. -/
def isSpace (c : CodePoint) : Bool :=
  decide (0x09 ≤ c.val ∧ c.val ≤ 0x0D) || decide (0x1C ≤ c.val ∧ c.val ≤ 0x20) ||
    decide (0x2000 ≤ c.val ∧ c.val ≤ 0x200A) ||
    [0x85, 0xA0, 0x1680, 0x2028, 0x2029, 0x202F, 0x205F, 0x3000].contains c.val

theorem isSurrogate_ofChar (c : Char) : (ofChar c).isSurrogate = false := by
  have h : c.toNat < 0xD800 ∨ 0xDFFF < c.toNat ∧ c.toNat < 0x110000 := c.valid
  exact decide_eq_false fun hs => by
    have hlo : 0xD800 ≤ c.toNat := hs.1
    have hhi : c.toNat ≤ 0xDFFF := hs.2
    omega

end CodePoint

namespace Text

def of (s : String) : Text := s.toList.map CodePoint.ofChar

/-- A text that can be encoded. -/
def Encodable (t : Text) : Prop := ∀ c ∈ t, CodePoint.isSurrogate c = false

instance (t : Text) : Decidable t.Encodable := List.decidableBAll _ t

/-- A text that stays in one piece when it is asked for its lines. -/
def OneLine (t : Text) : Prop := ∀ c ∈ t, CodePoint.isLineBreak c = false

instance (t : Text) : Decidable t.OneLine := List.decidableBAll _ t

/-- The lines of a text, without what ends them. -/
def lines : Text → List Text
  | [] => []
  | 0x0D :: 0x0A :: rest => [] :: lines rest
  | c :: rest =>
    if CodePoint.isLineBreak c then [] :: lines rest
    else
      match lines rest with
      | [] => [[c]]
      | line :: more => (c :: line) :: more

/-- What a text file says when it is read: every way to end a line is read as a line feed. -/
def universalNewlines : Text → Text
  | [] => []
  | 0x0D :: 0x0A :: rest => 0x0A :: universalNewlines rest
  | c :: rest => (if c = 0x0D then 0x0A else c) :: universalNewlines rest

/-- A text without the blanks at its two ends. -/
def strip (t : Text) : Text := (t.dropWhile CodePoint.isSpace).rdropWhile CodePoint.isSpace

@[simp] theorem encodable_append {a b : Text} :
    Encodable (a ++ b) ↔ Encodable a ∧ Encodable b := by
  simp [Encodable, or_imp, forall_and]

@[simp] theorem encodable_nil : Encodable [] := by simp [Encodable]

variable {c : CodePoint} {t : Text}

@[simp] theorem encodable_cons :
    Encodable (c :: t) ↔ CodePoint.isSurrogate c = false ∧ Encodable t := by
  simp [Encodable]

theorem encodable_of (s : String) : Encodable (of s) := by
  intro c hc
  obtain ⟨d, -, rfl⟩ := List.mem_map.mp hc
  exact CodePoint.isSurrogate_ofChar d

@[simp] theorem oneLine_nil : OneLine [] := by simp [OneLine]

@[simp] theorem oneLine_cons :
    OneLine (c :: t) ↔ CodePoint.isLineBreak c = false ∧ OneLine t := by
  simp [OneLine]

/-- A text that does not stay in one piece has a first place where it is cut. -/
theorem exists_break (h : ¬ OneLine t) :
    ∃ before c after, t = before ++ c :: after ∧ OneLine before ∧
      CodePoint.isLineBreak c = true := by
  induction t with
  | nil => exact absurd oneLine_nil h
  | cons c t ih =>
      by_cases hc : CodePoint.isLineBreak c = true
      · exact ⟨[], c, t, rfl, oneLine_nil, hc⟩
      · have hrest : ¬ OneLine t := fun ht => h (oneLine_cons.2 ⟨by simpa using hc, ht⟩)
        obtain ⟨before, d, after, rfl, hbefore, hd⟩ := ih hrest
        exact ⟨c :: before, d, after, rfl, oneLine_cons.2 ⟨by simpa using hc, hbefore⟩, hd⟩

/-! ## Lines -/

theorem lines_cons (hc : CodePoint.isLineBreak c = false) :
    lines (c :: t) =
      match lines t with
      | [] => [[c]]
      | line :: more => (c :: line) :: more := by
  have hret : c ≠ 0x0D := by rintro rfl; exact absurd hc (by decide)
  rw [lines.eq_def]
  split
  · next h => exact absurd h (List.cons_ne_nil _ _)
  · next h => exact absurd (List.cons.inj h).1 hret
  · next h =>
      obtain ⟨rfl, rfl⟩ := List.cons.inj h
      simp [hc]

theorem lines_feed (t : Text) : lines (0x0A :: t) = [] :: lines t := by
  rw [lines.eq_def]
  split
  · next h => exact absurd h (List.cons_ne_nil _ _)
  · next h => exact absurd (List.cons.inj h).1 (by decide)
  · next h =>
      obtain ⟨rfl, rfl⟩ := List.cons.inj h
      rw [if_pos (by decide)]

/-- At a line break the line so far is empty, whatever else the break takes with it. -/
theorem lines_break (t : Text) (hc : CodePoint.isLineBreak c = true) :
    ∃ more, lines (c :: t) = [] :: more := by
  rw [lines.eq_def]
  split
  · next h => exact absurd h (List.cons_ne_nil _ _)
  · exact ⟨_, rfl⟩
  · next h =>
      obtain ⟨rfl, rfl⟩ := List.cons.inj h
      exact ⟨_, by rw [if_pos hc]⟩

/-- What stands before a cut is one line, if nothing in it cuts. -/
theorem lines_append {t u line : Text} {more : List Text} (ht : OneLine t)
    (hu : lines u = line :: more) : lines (t ++ u) = (t ++ line) :: more := by
  induction t with
  | nil => exact hu
  | cons c t ih =>
      obtain ⟨hc, ht⟩ := oneLine_cons.1 ht
      rw [List.cons_append, lines_cons hc, ih ht]
      rfl

theorem lines_append_feed (ht : OneLine t) (u : Text) :
    lines (t ++ 0x0A :: u) = t :: lines u := by
  simpa using lines_append ht (lines_feed u)

/-- **Lines are read back** as they were written, one feed after each, if none is cut inside. -/
theorem lines_flatMap {ts : List Text} (h : ∀ t ∈ ts, OneLine t) :
    lines (ts.flatMap (· ++ [0x0A])) = ts := by
  induction ts with
  | nil => rfl
  | cons t ts ih =>
      have hmore : ∀ u ∈ ts, OneLine u := fun u hu => h u (List.mem_cons_of_mem _ hu)
      have hshape : (t :: ts).flatMap (· ++ [0x0A])
          = t ++ 0x0A :: ts.flatMap (· ++ [0x0A]) := by simp
      rw [hshape, lines_append_feed (h t List.mem_cons_self), ih hmore]

/-- The first of the written lines that is cut inside is read as the piece before the cut. -/
theorem lines_flatMap_break {before : Text} (ts us : List Text) (after : Text)
    (h : ∀ t ∈ ts, OneLine t) (hb : OneLine before) (hc : CodePoint.isLineBreak c = true) :
    ∃ more, lines ((ts ++ (before ++ c :: after) :: us).flatMap (· ++ [0x0A]))
      = ts ++ before :: more := by
  induction ts with
  | nil =>
      obtain ⟨more, hmore⟩ := lines_break (after ++ 0x0A :: us.flatMap (· ++ [0x0A])) hc
      refine ⟨more, ?_⟩
      have hshape : (([] : List Text) ++ (before ++ c :: after) :: us).flatMap (· ++ [0x0A])
          = before ++ c :: (after ++ 0x0A :: us.flatMap (· ++ [0x0A])) := by simp
      rw [hshape, lines_append hb hmore, List.append_nil, List.nil_append]
  | cons t ts ih =>
      obtain ⟨more, hmore⟩ := ih (fun u hu => h u (List.mem_cons_of_mem _ hu))
      refine ⟨more, ?_⟩
      have hshape : (t :: ts ++ (before ++ c :: after) :: us).flatMap (· ++ [0x0A])
          = t ++ 0x0A :: (ts ++ (before ++ c :: after) :: us).flatMap (· ++ [0x0A]) := by simp
      rw [hshape, lines_append_feed (h t List.mem_cons_self), hmore, List.cons_append]

/-! ## Files and blanks -/

/-- A text with no return in it is read from its file as it was written. -/
theorem universalNewlines_eq (h : (0x0D : CodePoint) ∉ t) :
    universalNewlines t = t := by
  induction t with
  | nil => rfl
  | cons c t ih =>
      have hc : c ≠ 0x0D := fun he => h (he ▸ List.mem_cons_self)
      have ht : (0x0D : CodePoint) ∉ t := fun hm => h (List.mem_cons_of_mem _ hm)
      rw [universalNewlines.eq_def]
      split
      · next he => exact absurd he (List.cons_ne_nil _ _)
      · next he => exact absurd (List.cons.inj he).1 hc
      · next he =>
          obtain ⟨rfl, rfl⟩ := List.cons.inj he
          rw [if_neg hc, ih ht]

/-- Reading a file loses its returns. -/
theorem return_notMem_universalNewlines (t : Text) :
    (0x0D : CodePoint) ∉ universalNewlines t := by
  fun_induction universalNewlines t with
  | case1 => exact List.not_mem_nil
  | case2 rest ih =>
      rw [List.mem_cons, not_or]
      exact ⟨by decide, ih⟩
  | case3 c rest _ ih =>
      rw [List.mem_cons, not_or]
      refine ⟨?_, ih⟩
      split
      · decide
      · rename_i hc
        exact fun he => hc he.symm

theorem mem_universalNewlines (h : c ∈ universalNewlines t) :
    c ∈ t ∨ c = 0x0A := by
  fun_induction universalNewlines t with
  | case1 => cases h
  | case2 rest ih =>
      rcases List.mem_cons.mp h with rfl | h
      · exact .inr rfl
      · exact (ih h).imp (fun hc => List.mem_cons_of_mem _ (List.mem_cons_of_mem _ hc)) id
  | case3 d rest _ ih =>
      rcases List.mem_cons.mp h with he | h
      · split at he
        · exact .inr he
        · exact .inl (he ▸ List.mem_cons_self)
      · exact (ih h).imp (List.mem_cons_of_mem _) id

theorem encodable_universalNewlines (h : Encodable t) :
    Encodable (universalNewlines t) := by
  intro c hc
  rcases mem_universalNewlines hc with hc | rfl
  · exact h c hc
  · decide

/-- What does not begin with a line feed is read apart from what comes before it. -/
theorem universalNewlines_append (t : Text) {u : Text} (hu : ∀ rest, u ≠ 0x0A :: rest) :
    universalNewlines (t ++ u) = universalNewlines t ++ universalNewlines u := by
  fun_induction universalNewlines t with
  | case1 => rfl
  | case2 rest ih => rw [List.cons_append, List.cons_append, universalNewlines, ih]; rfl
  | case3 c rest hnot ih =>
      rw [List.cons_append, universalNewlines, ih]
      · rfl
      · intro more hc hmore
        cases rest with
        | nil => exact hu _ hmore
        | cons d rest => exact hnot rest hc (by rw [(List.cons.inj hmore).1])

theorem getLast?_universalNewlines (h : t.getLast? = some 0x0A) :
    (universalNewlines t).getLast? = some 0x0A := by
  obtain ⟨front, rfl⟩ := List.getLast?_eq_some_iff.mp h
  clear h
  fun_induction universalNewlines front with
  | case1 => rfl
  | case2 rest ih =>
      rw [List.cons_append, List.cons_append, universalNewlines, List.getLast?_cons, ih]
      rfl
  | case3 c rest hnot ih =>
      cases rest with
      | nil =>
          by_cases hc : c = 0x0D
          · subst hc; rfl
          · rw [List.cons_append, List.nil_append, universalNewlines]
            · simp [universalNewlines]
            · exact fun _ he => absurd he hc
      | cons d rest =>
          rw [List.cons_append, universalNewlines, List.getLast?_cons, ih]
          · rfl
          · intro more hc hmore
            exact hnot rest hc (by rw [(List.cons.inj hmore).1])

/-- A text that begins with something begins with it when it is stripped. -/
theorem strip_cons (t : Text) (hc : CodePoint.isSpace c = false) :
    ∃ u, strip (c :: t) = c :: u := by
  have hneg : ¬ CodePoint.isSpace c = true := by simpa using hc
  rw [strip, List.dropWhile_cons_of_neg hneg]
  cases hr : (c :: t).rdropWhile CodePoint.isSpace with
  | nil => exact absurd (List.rdropWhile_eq_nil_iff.mp hr c List.mem_cons_self) hneg
  | cons d u =>
      have hbegins := List.rdropWhile_prefix CodePoint.isSpace (l := c :: t)
      rw [hr, List.cons_prefix_cons] at hbegins
      exact ⟨u, by rw [hbegins.1]⟩

theorem strip_ne_nil (hc : CodePoint.isSpace c = false) :
    strip (c :: t) ≠ [] := by
  obtain ⟨u, hu⟩ := strip_cons t hc
  rw [hu]
  exact List.cons_ne_nil _ _

/-- A text that begins and ends with something stays as it is. -/
theorem strip_eq_self {c d : CodePoint} (t : Text) (hc : CodePoint.isSpace c = false)
    (hd : CodePoint.isSpace d = false) : strip (c :: (t ++ [d])) = c :: (t ++ [d]) := by
  rw [strip, List.dropWhile_cons_of_neg (by simpa using hc), ← List.cons_append,
    List.rdropWhile_concat_neg _ _ _ (by simpa using hd)]

theorem strip_subset (t : Text) : t.strip ⊆ t := fun _ hc =>
  (List.dropWhile_suffix _).subset ((List.rdropWhile_prefix _ _).subset hc)

theorem length_strip_le (t : Text) : t.strip.length ≤ t.length :=
  (List.rdropWhile_prefix _ _).length_le.trans (List.dropWhile_suffix _).length_le

/-- Blanks at the end of a text are gone when it is stripped. -/
theorem strip_append_blank (t : Text) {u : Text} (hu : ∀ c ∈ u, CodePoint.isSpace c = true) :
    (t ++ u).strip = t.strip := by
  rw [strip, strip, List.dropWhile_append]
  split
  · rename_i hempty
    rw [List.isEmpty_iff.mp hempty, List.dropWhile_eq_nil_iff.mpr hu]
  · have hrev : ∀ c ∈ u.reverse, CodePoint.isSpace c = true := fun c hc =>
      hu c (List.mem_reverse.mp hc)
    rw [List.rdropWhile, List.reverse_append, List.dropWhile_append_of_pos hrev, List.rdropWhile]

/-- A text that is stripped stays as it is. -/
theorem strip_strip (t : Text) : t.strip.strip = t.strip := by
  cases hd : t.dropWhile CodePoint.isSpace with
  | nil =>
      have hnil : t.strip = [] := by rw [strip, hd]; rfl
      rw [hnil]
      rfl
  | cons c d =>
      have hc : ¬ CodePoint.isSpace c = true := by
        have hne : t.dropWhile CodePoint.isSpace ≠ [] := hd ▸ List.cons_ne_nil c d
        have hhead := List.head_dropWhile_not CodePoint.isSpace hne
        simpa [hd] using hhead
      have hs : t.strip = (c :: d).rdropWhile CodePoint.isSpace := by rw [strip, hd]
      cases hr : (c :: d).rdropWhile CodePoint.isSpace with
      | nil => rw [hs, hr]; rfl
      | cons e u =>
          have hbegins := List.rdropWhile_prefix CodePoint.isSpace (l := c :: d)
          rw [hr, List.cons_prefix_cons] at hbegins
          obtain ⟨rfl, -⟩ := hbegins
          rw [hs, hr, strip, List.dropWhile_cons_of_neg hc, ← hr]
          exact List.rdropWhile_idempotent _ _

end Text

end Exo.Lib
