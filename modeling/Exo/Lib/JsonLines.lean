import Exo.Lib.Json

/-!
# JSON texts on lines

A written value shows the code points of its strings as they are, except those below the blank. So
it is cut into lines exactly where one of its strings is, and a piece of it that ends at such a cut
ends inside a string, which no reader takes.
-/

namespace Exo.Lib

namespace Json

/-! ## Which code points are written -/

mutual

/-- The texts a value holds: its strings and its keys. -/
def texts : Json → List Text
  | .const _ => []
  | .num _ => []
  | .str s => [s]
  | .arr items => itemTexts items
  | .obj members => memberTexts members
termination_by structural j => j

def itemTexts : List Json → List Text
  | [] => []
  | j :: more => j.texts ++ itemTexts more
termination_by structural l => l

def memberTexts : List (Text × Json) → List Text
  | [] => []
  | m :: more => memberText m ++ memberTexts more
termination_by structural l => l

def memberText : Text × Json → List Text
  | (key, value) => key :: value.texts
termination_by structural m => m

end

/-- Nothing but printable ASCII. -/
def Printable (t : Text) : Bool := t.all fun d => decide (32 ≤ d.val) && decide (d.val < 127)

theorem printable_iff {t : Text} : Printable t = true ↔ ∀ d ∈ t, 32 ≤ d.val ∧ d.val < 127 := by
  simp [Printable]

section
variable {P : CodePoint → Prop} (hP : ∀ c : CodePoint, 32 ≤ c.val → c.val < 127 → P c)
include hP

theorem forall_mem_escape (c : CodePoint) : (∀ d ∈ escape c, P d) ↔ (32 ≤ c.val → P c) := by
  have hall : ∀ t : Text, Printable t = true → ∀ d ∈ t, P d := fun t ht d hd =>
    hP d (printable_iff.1 ht d hd).1 (printable_iff.1 ht d hd).2
  have hhex : ∀ d : Fin 16, 32 ≤ (hexDigit d).val ∧ (hexDigit d).val < 127 := by decide
  unfold escape
  split
  · next h => subst h; exact ⟨fun _ _ => hP _ (by decide) (by decide), fun _ => hall _ (by decide)⟩
  split
  · next h => subst h; exact ⟨fun _ _ => hP _ (by decide) (by decide), fun _ => hall _ (by decide)⟩
  split
  · next h => subst h; exact ⟨fun _ h => absurd h (by decide), fun _ => hall _ (by decide)⟩
  split
  · next h => subst h; exact ⟨fun _ h => absurd h (by decide), fun _ => hall _ (by decide)⟩
  split
  · next h => subst h; exact ⟨fun _ h => absurd h (by decide), fun _ => hall _ (by decide)⟩
  split
  · next h => subst h; exact ⟨fun _ h => absurd h (by decide), fun _ => hall _ (by decide)⟩
  split
  · next h => subst h; exact ⟨fun _ h => absurd h (by decide), fun _ => hall _ (by decide)⟩
  split
  · next hlt =>
      refine ⟨fun _ h => absurd h (by omega), fun _ => hall _ (printable_iff.2 ?_)⟩
      intro d hd
      simp only [List.mem_cons, List.not_mem_nil, or_false] at hd
      rcases hd with rfl | rfl | rfl | rfl | rfl | rfl
      · decide
      · decide
      · decide
      · decide
      · exact hhex _
      · exact hhex _
  · next hlt =>
      simp only [List.mem_singleton, forall_eq]
      exact ⟨fun h _ => h, fun h => h (by omega)⟩

theorem forall_mem_escaped (s : Text) :
    (∀ d ∈ escaped s, P d) ↔ ∀ c ∈ s, 32 ≤ c.val → P c := by
  simp only [escaped, List.mem_flatMap, forall_exists_index, and_imp]
  rw [forall_comm]
  refine forall_congr' fun c => ?_
  rw [← forall_mem_escape hP c]
  exact ⟨fun h hc d hd => h d hc hd, fun h d hc hd => h hc d hd⟩

theorem forall_mem_quoted (s : Text) : (∀ d ∈ quoted s, P d) ↔ ∀ c ∈ s, 32 ≤ c.val → P c := by
  rw [← forall_mem_escaped hP s]
  have hquote : P 34 := hP 34 (by decide) (by decide)
  simp only [quoted, List.mem_cons, List.mem_append, List.not_mem_nil, or_false, hquote,
    true_and, or_imp, forall_and, forall_eq, and_true]

theorem forall_mem_blanks (n : Nat) : ∀ d ∈ blanks n, P d := fun d hd => by
  rw [List.eq_of_mem_replicate hd]
  exact hP 32 (by decide) (by decide)

theorem forall_mem_joined (sp : Spacing) {close : CodePoint} (hclose : close = 93 ∨ close = 125)
    (ts : List Text) : (∀ d ∈ joined sp close ts, P d) ↔ ∀ t ∈ ts, ∀ d ∈ t, P d := by
  have hend : P close := by rcases hclose with rfl | rfl <;> exact hP _ (by decide) (by decide)
  have hcomma : P 44 := hP 44 (by decide) (by decide)
  induction ts with
  | nil => simpa [joined] using hend
  | cons t ts ih =>
      cases ts with
      | nil => simp [joined, or_imp, forall_and, hend]
      | cons u us =>
          rw [List.forall_mem_cons]
          refine Iff.trans ?_ (and_congr Iff.rfl ih)
          have hblank := forall_mem_blanks hP sp.comma
          simp only [joined, List.mem_append, List.mem_cons, or_imp, forall_and, forall_eq, hcomma,
            true_and]
          exact ⟨fun h => ⟨h.1, h.2.2⟩, fun h => ⟨h.1, hblank, h.2⟩⟩

omit hP in
theorem natText_printable (n : Nat) : ∀ d ∈ natText n, 32 ≤ d.val ∧ d.val < 127 := by
  intro d hd
  obtain ⟨e, -, rfl⟩ := List.mem_map.mp hd
  have := digitPoint_isDigit e
  omega

omit hP in
theorem number_printable (n : Number) : ∀ d ∈ n.text, 32 ≤ d.val ∧ d.val < 127 := by
  have hsign : ∀ b, ∀ d ∈ signText b, 32 ≤ d.val ∧ d.val < 127 := by
    intro b
    cases b <;> exact printable_iff.1 (by decide)
  have hdigit : ∀ e : Fin 10, 32 ≤ (digitPoint e).val ∧ (digitPoint e).val < 127 := by decide
  intro d hd
  simp only [Number.text, List.mem_append] at hd
  rcases hd with ((hd | hd) | hd) | hd
  · exact hsign _ d hd
  · exact natText_printable _ d hd
  · cases hf : n.fraction with
    | nil => rw [hf] at hd; exact absurd hd List.not_mem_nil
    | cons e es =>
        rw [hf, fractionText] at hd
        rcases List.mem_cons.mp hd with rfl | hd
        · decide
        · obtain ⟨e', -, rfl⟩ := List.mem_map.mp hd
          exact hdigit e'
  · cases he : n.exponent with
    | none => rw [he] at hd; exact absurd hd List.not_mem_nil
    | some e =>
        rw [he, exponentText, List.cons_append] at hd
        rcases List.mem_cons.mp hd with rfl | hd
        · decide
        · rcases List.mem_append.mp hd with hd | hd
          · exact hsign _ d hd
          · exact natText_printable _ d hd

end

mutual

variable {P : CodePoint → Prop}

/--
**Printable ASCII apart, a written value shows what its texts show**, and nothing of what they hold
below the blank.
-/
theorem forall_mem_dumps
    (hP : ∀ c : CodePoint, 32 ≤ c.val → c.val < 127 → P c) (sp : Spacing) : ∀ j : Json,
    (∀ d ∈ dumps sp j, P d) ↔ ∀ s ∈ j.texts, ∀ c ∈ s, 32 ≤ c.val → P c
  | .const c => by
      have hconst : ∀ d ∈ c.text, 32 ≤ d.val ∧ d.val < 127 := by
        rcases c with _ | (_ | _) | _ | (_ | _) <;> exact printable_iff.1 (by decide)
      rw [dumps, texts]
      exact ⟨fun _ s hs => absurd hs List.not_mem_nil,
        fun _ d hd => hP d (hconst d hd).1 (hconst d hd).2⟩
  | .num n => by
      rw [dumps, texts]
      exact ⟨fun _ s hs => absurd hs List.not_mem_nil,
        fun _ d hd => hP d (number_printable n d hd).1 (number_printable n d hd).2⟩
  | .str s => by
      rw [dumps, texts, forall_mem_quoted hP, List.forall_mem_singleton]
  | .arr items => by
      rw [dumps, texts, List.forall_mem_cons, forall_mem_joined hP sp (Or.inl rfl),
        forall_mem_dumpItems hP sp items, and_iff_right (hP 91 (by decide) (by decide))]
  | .obj members => by
      rw [dumps, texts, List.forall_mem_cons, forall_mem_joined hP sp (Or.inr rfl),
        forall_mem_dumpMembers hP sp members, and_iff_right (hP 123 (by decide) (by decide))]

theorem forall_mem_dumpItems
    (hP : ∀ c : CodePoint, 32 ≤ c.val → c.val < 127 → P c) (sp : Spacing) : ∀ l : List Json,
    (∀ t ∈ dumpItems sp l, ∀ d ∈ t, P d) ↔ ∀ s ∈ itemTexts l, ∀ c ∈ s, 32 ≤ c.val → P c
  | [] => by
      rw [dumpItems, itemTexts]
      exact ⟨fun _ s hs => absurd hs List.not_mem_nil, fun _ t ht => absurd ht List.not_mem_nil⟩
  | j :: more => by
      rw [dumpItems, itemTexts, List.forall_mem_cons, List.forall_mem_append,
        forall_mem_dumps hP sp j, forall_mem_dumpItems hP sp more]

theorem forall_mem_dumpMembers
    (hP : ∀ c : CodePoint, 32 ≤ c.val → c.val < 127 → P c) (sp : Spacing) : ∀ l : List (Text × Json),
    (∀ t ∈ dumpMembers sp l, ∀ d ∈ t, P d) ↔ ∀ s ∈ memberTexts l, ∀ c ∈ s, 32 ≤ c.val → P c
  | [] => by
      rw [dumpMembers, memberTexts]
      exact ⟨fun _ s hs => absurd hs List.not_mem_nil, fun _ t ht => absurd ht List.not_mem_nil⟩
  | m :: more => by
      rw [dumpMembers, memberTexts, List.forall_mem_cons, List.forall_mem_append,
        forall_mem_dumpMember hP sp m, forall_mem_dumpMembers hP sp more]

theorem forall_mem_dumpMember
    (hP : ∀ c : CodePoint, 32 ≤ c.val → c.val < 127 → P c) (sp : Spacing) : ∀ m : Text × Json,
    (∀ d ∈ dumpMember sp m, P d) ↔ ∀ s ∈ memberText m, ∀ c ∈ s, 32 ≤ c.val → P c
  | (key, j) => by
      rw [dumpMember, memberText, List.forall_mem_append, List.forall_mem_cons,
        List.forall_mem_cons, List.forall_mem_append, forall_mem_quoted hP, forall_mem_dumps hP sp j,
        and_iff_right (hP 58 (by decide) (by decide)), and_iff_right (forall_mem_blanks hP _)]

end

theorem dumps_printable (sp : Spacing) (j : Json) : ∀ d ∈ dumps sp j, 32 ≤ d.val :=
  (forall_mem_dumps (fun _ h _ => h) sp j).mpr fun _ _ _ _ h => h

/-! ## Texts that break off -/

/--
With `n` to bound how much is read, `t` is read when it is there as a whole and not when it breaks
off right before a code point beyond ASCII.
-/
structure Whole {α : Type} (n : Nat) (item : Text → Option (α × Text)) (t : Text) : Prop where
  begins : Begins t
  read : t.length ≤ n → ∃ a, ReadsAs item a t
  broken : ∀ before c after, t = before ++ c :: after → 127 ≤ c.val → before.length ≤ n →
    item before = none

variable {c : CodePoint}

theorem escape_high (hc : 127 ≤ c.val) : escape c = [c] := by
  unfold escape
  split_ifs with h h h h h h h h
  all_goals first | (subst h; exact absurd hc (by decide)) | omega | rfl

variable {before after : Text}

/-- A code point beyond ASCII is written as itself, alone. -/
theorem escape_cut {d c : CodePoint} (hc : 127 ≤ c.val)
    (h : escape d = before ++ c :: after) : before = [] := by
  by_cases hd : 127 ≤ d.val
  · rw [escape_high hd] at h
    cases before with
    | nil => rfl
    | cons b before =>
        have hnil := (List.cons.inj h).2
        exact absurd hnil.symm (by simp)
  · have hlow := (forall_mem_escape (P := fun c => c.val < 127) (fun _ _ h => h) d).mpr
      (fun _ => by omega)
    have hmem : c ∈ escape d := h ▸ List.mem_append_right _ List.mem_cons_self
    exact absurd (hlow c hmem) (by omega)

/-- What stands before a code point beyond ASCII in a string is the text of a string itself. -/
theorem escaped_cut {s t before after : Text} (hc : 127 ≤ c.val)
    (ht : ∀ d ∈ t, d.val < 127) (h : escaped s ++ t = before ++ c :: after) :
    ∃ s', before = escaped s' := by
  induction s generalizing before with
  | nil =>
      have hmem : c ∈ t := by
        rw [show t = before ++ c :: after from h]
        exact List.mem_append_right _ List.mem_cons_self
      exact absurd (ht c hmem) (by omega)
  | cons d s ih =>
      rw [escaped, List.flatMap_cons, List.append_assoc] at h
      rcases List.append_eq_append_iff.mp h with ⟨more, hbefore, hrest⟩ | ⟨more, hescape, hrest⟩
      · obtain ⟨s', rfl⟩ := ih hrest
        exact ⟨d :: s', by rw [hbefore, escaped, escaped, List.flatMap_cons]⟩
      · cases more with
        | nil =>
            rw [List.append_nil] at hescape
            exact ⟨[d], by rw [← hescape, escaped, List.flatMap_cons, List.flatMap_nil,
              List.append_nil]⟩
        | cons e more =>
            obtain ⟨rfl, rfl⟩ := List.cons.inj hrest
            have hsingle := escape_cut (c := c) hc hescape
            exact ⟨[], by rw [hsingle]; rfl⟩

/-- A string is broken off behind its opening quote. -/
theorem quoted_cut {s before after : Text} (hc : 127 ≤ c.val)
    (h : quoted s = before ++ c :: after) : ∃ s', before = 34 :: escaped s' := by
  cases before with
  | nil =>
      rw [← (List.cons.inj h).1] at hc
      exact absurd hc (by decide)
  | cons b before =>
      obtain ⟨rfl, hrest⟩ := List.cons.inj h
      obtain ⟨s', rfl⟩ := escaped_cut hc (t := [34])
        (fun d hd => by rw [List.mem_singleton.mp hd]; decide) hrest
      exact ⟨s', rfl⟩

/-- Where something in a text of two parts stands. -/
theorem append_cut {t u before after : Text} (h : t ++ u = before ++ c :: after) :
    (∃ more, before = t ++ more ∧ u = more ++ c :: after) ∨ ∃ rest, t = before ++ c :: rest := by
  rcases List.append_eq_append_iff.mp h with ⟨more, hbefore, hu⟩ | ⟨rest, ht, hrest⟩
  · exact Or.inl ⟨more, hbefore, hu⟩
  · cases rest with
    | nil =>
        rw [List.append_nil] at ht
        exact Or.inl ⟨[], by rw [ht, List.append_nil], hrest.symm⟩
    | cons d rest =>
        obtain ⟨rfl, -⟩ := List.cons.inj hrest
        exact Or.inr ⟨rest, ht⟩

variable {n : Nat}

/-- Blanks and the text of a value behind them, up to somewhere in that text. -/
theorem blanks_cut {t before after : Text} (ht : Begins t)
    (hc : 127 ≤ c.val) (h : blanks n ++ t = before ++ c :: after) :
    (skipBlanks before).length ≤ before.length ∧ t = skipBlanks before ++ c :: after := by
  refine ⟨List.length_dropWhile_le _ _, ?_⟩
  induction n generalizing before with
  | zero =>
      obtain ⟨d, rest, rfl, hd, -⟩ := ht
      cases before with
      | nil => exact h
      | cons b before =>
          obtain ⟨rfl, -⟩ := List.cons.inj h
          rw [skipBlanks_cons _ hd]
          exact h
  | succ n ih =>
      cases before with
      | nil =>
          rw [← (List.cons.inj h).1] at hc
          exact absurd hc (by decide)
      | cons b before =>
          obtain ⟨rfl, hrest⟩ := List.cons.inj h
          have hmore : t = skipBlanks before ++ c :: after := ih hrest
          exact hmore

variable {sp : Spacing}

/-- A row that breaks off inside one of its items is not read. -/
theorem scanSeparated_broken {α : Type} {item : Text → Option (α × Text)}
    {close : CodePoint} (hclose : close = 93 ∨ close = 125) {ts : List Text}
    (h : ∀ t ∈ ts, Whole n item t) (fuel : Nat)
    (hc : 127 ≤ c.val) (hn : before.length ≤ n) (hcut : joined sp close ts = before ++ c :: after) :
    scanSeparated item close fuel before = none := by
  have hend : ∀ {before after : Text}, [close] ≠ before ++ c :: after := by
    intro before after he
    have hmem : c ∈ [close] := he ▸ List.mem_append_right _ List.mem_cons_self
    rw [List.mem_singleton.mp hmem] at hc
    rcases hclose with rfl | rfl <;> exact absurd hc (by decide)
  have hcomma : (44 : CodePoint) ≠ close := by rcases hclose with rfl | rfl <;> decide
  induction ts generalizing fuel before with
  | nil => exact absurd hcut hend
  | cons t ts ih =>
      cases fuel with
      | zero => rfl
      | succ fuel =>
          have ht := h t List.mem_cons_self
          have hfirst : ∀ rest, t = before ++ c :: rest →
              scanSeparated item close (fuel + 1) before = none := by
            intro rest hrest
            rw [scanSeparated, ht.broken before c rest hrest hc hn]
          -- either the cut is in the first item, or that item is read and the cut is behind it
          cases ts with
          | nil =>
              rw [joined] at hcut
              rcases append_cut hcut with ⟨more, -, hmore⟩ | ⟨rest, hrest⟩
              · exact absurd hmore hend
              · exact hfirst rest hrest
          | cons u us =>
              rw [joined] at hcut
              rcases append_cut hcut with ⟨more, rfl, hmore⟩ | ⟨rest, hrest⟩
              · cases more with
                | nil =>
                    rw [← (List.cons.inj hmore).1] at hc
                    exact absurd hc (by decide)
                | cons d more =>
                    obtain ⟨rfl, hblanks⟩ := List.cons.inj hmore
                    rw [List.length_append, List.length_cons] at hn
                    obtain ⟨a, ha⟩ := ht.read (by omega)
                    have hus : ∀ v ∈ u :: us, Whole n item v := fun v hv =>
                      h v (List.mem_cons_of_mem _ hv)
                    have hbegin := joined_begins sp close us (hus u List.mem_cons_self).begins
                    obtain ⟨hlen, hafter⟩ := blanks_cut hbegin hc hblanks
                    have hnone := ih hus fuel (hlen.trans (by omega)) hafter
                    rw [scanSeparated, ha.read _ (numberEnds_comma _)]
                    simp only [skipBlanks_cons _ (by decide : isBlank 44 = false), if_neg hcomma,
                      if_true, hnone, Option.map_none]
              · exact hfirst rest hrest

theorem scanRow_broken {α : Type} {item : Text → Option (α × Text)}
    {close : CodePoint} (hclose : close = 93 ∨ close = 125) {ts : List Text}
    (h : ∀ t ∈ ts, Whole n item t) (fuel : Nat)
    (hc : 127 ≤ c.val) (hn : before.length ≤ n) (hcut : joined sp close ts = before ++ c :: after) :
    scanRow item close fuel before = none := by
  have hnone := scanSeparated_broken hclose h fuel hc hn hcut
  cases before with
  | nil => rfl
  | cons d before =>
      cases ts with
      | nil => exact absurd (List.cons.inj hcut).2 (by simp)
      | cons t ts =>
          obtain ⟨e, rest, he, hblank, h93, h125, -⟩ :=
            joined_begins sp close ts (h t List.mem_cons_self).begins
          rw [he] at hcut
          obtain ⟨rfl, -⟩ := List.cons.inj hcut
          have hopen : e ≠ close := by rcases hclose with rfl | rfl <;> assumption
          rw [scanRow, skipBlanks_cons _ hblank]
          simp only [if_neg hopen, hnone]

/-- A member that breaks off inside its key or inside its value is not read. -/
theorem scanMember_broken {value : Text → Option (Json × Text)} {j : Json}
    (key : Text) (h : Whole n value (dumps sp j))
    (hc : 127 ≤ c.val) (hn : before.length ≤ n)
    (hcut : dumpMember sp (key, j) = before ++ c :: after) : scanMember value before = none := by
  rw [dumpMember] at hcut
  rcases append_cut hcut with ⟨more, rfl, hmore⟩ | ⟨rest, hrest⟩
  · cases more with
    | nil =>
        rw [← (List.cons.inj hmore).1] at hc
        exact absurd hc (by decide)
    | cons d more =>
        obtain ⟨rfl, hblanks⟩ := List.cons.inj hmore
        obtain ⟨hlen, hafter⟩ := blanks_cut (dumps_begins sp j) hc hblanks
        rw [List.length_append, List.length_cons] at hn
        have hnone := h.broken _ c after hafter hc (hlen.trans (by omega))
        simp only [quoted, List.cons_append, List.append_assoc, List.nil_append, scanMember,
          scanString_quoted, skipBlanks_cons _ (by decide : isBlank 58 = false), hnone,
          Option.map_none]
  · obtain ⟨s, rfl⟩ := quoted_cut hc hrest
    rw [scanMember, scanString_broken]

mutual

theorem whole_dumps (sp : Spacing) : ∀ (j : Json) (n : Nat), Whole n (scanValue n) (dumps sp j)
  | j, 0 => ⟨dumps_begins sp j, fun hn => ⟨j, readsAs_dumps sp j hn⟩, fun _ _ _ _ _ _ => rfl⟩
  | .const c, n + 1 => by
      refine ⟨dumps_begins sp _, fun hn => ⟨_, readsAs_dumps sp _ hn⟩, ?_⟩
      intro before d after h hd _
      have hlow : ∀ d ∈ c.text, 32 ≤ d.val ∧ d.val < 127 := by
        rcases c with _ | (_ | _) | _ | (_ | _) <;> exact printable_iff.1 (by decide)
      rw [dumps] at h
      have := hlow d (h ▸ List.mem_append_right _ List.mem_cons_self)
      omega
  | .num k, n + 1 => by
      refine ⟨dumps_begins sp _, fun hn => ⟨_, readsAs_dumps sp _ hn⟩, ?_⟩
      intro before d after h hd _
      rw [dumps] at h
      have := number_printable k d (h ▸ List.mem_append_right _ List.mem_cons_self)
      omega
  | .str s, n + 1 => by
      refine ⟨dumps_begins sp _, fun hn => ⟨_, readsAs_dumps sp _ hn⟩, ?_⟩
      intro before d after h hd _
      obtain ⟨s', rfl⟩ := quoted_cut hd (by rw [← h, dumps])
      rw [scanValue, scanString_broken]
      rfl
  | .arr items, n + 1 => by
      refine ⟨dumps_begins sp _, fun hn => ⟨_, readsAs_dumps sp _ hn⟩, ?_⟩
      intro before d after h hd hn
      rw [dumps] at h
      cases before with
      | nil => rfl
      | cons b before =>
          obtain ⟨rfl, hrest⟩ := List.cons.inj h
          rw [scanValue, scanRow_broken (Or.inl rfl) (whole_dumpItems sp items n) n hd
            (by simpa using hn) hrest]
          rfl
  | .obj members, n + 1 => by
      refine ⟨dumps_begins sp _, fun hn => ⟨_, readsAs_dumps sp _ hn⟩, ?_⟩
      intro before d after h hd hn
      rw [dumps] at h
      cases before with
      | nil => rfl
      | cons b before =>
          obtain ⟨rfl, hrest⟩ := List.cons.inj h
          rw [scanValue, scanRow_broken (Or.inr rfl) (whole_dumpMembers sp members n) n hd
            (by simpa using hn) hrest]
          rfl

theorem whole_dumpItems (sp : Spacing) : ∀ (l : List Json) (n : Nat),
    ∀ t ∈ dumpItems sp l, Whole n (scanValue n) t
  | [], _ => fun _ ht => absurd ht List.not_mem_nil
  | j :: more, n => List.forall_mem_cons.mpr ⟨whole_dumps sp j n, whole_dumpItems sp more n⟩

theorem whole_dumpMembers (sp : Spacing) : ∀ (l : List (Text × Json)) (n : Nat),
    ∀ t ∈ dumpMembers sp l, Whole n (scanMember (scanValue n)) t
  | [], _ => fun _ ht => absurd ht List.not_mem_nil
  | m :: more, n =>
      List.forall_mem_cons.mpr ⟨whole_dumpMember sp m n, whole_dumpMembers sp more n⟩

theorem whole_dumpMember (sp : Spacing) : ∀ (m : Text × Json) (n : Nat),
    Whole n (scanMember (scanValue n)) (dumpMember sp m)
  | (key, j), n =>
      { begins := dumpMember_begins sp _
        read := fun hn => ⟨_, readsAs_dumpMember sp (key, j) hn⟩
        broken := fun _ _ _ hcut hc hn =>
          scanMember_broken key (whole_dumps sp j n) hc hn hcut }

end

/-- **A written value that breaks off** right before a code point beyond ASCII **is not read**. -/
theorem loads_broken {j : Json}
    (hc : 127 ≤ c.val) (h : dumps sp j = before ++ c :: after) : loads before = none := by
  have hnone := (whole_dumps sp j before.length).broken before c after h hc (Nat.le_refl _)
  have hskip : skipBlanks before = before := by
    obtain ⟨d, rest, hd, hblank, -⟩ := dumps_begins sp j
    cases before with
    | nil => rfl
    | cons b before =>
        rw [hd] at h
        obtain ⟨rfl, -⟩ := List.cons.inj h
        exact skipBlanks_cons _ hblank
  rw [loads, hskip, hnone]
  split <;> rfl

end Json

end Exo.Lib
