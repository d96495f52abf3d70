import Exo.Lib.Sequence
import Mathlib.Data.List.Infix

/-!
# Balancing the thinking tags of a prompt

A prompt can have the end of a thought without its beginning. One pass looks for both tags at once
and puts the missing beginning in front of the token at which it has recognised an end, which is
the last one of the end. So an end of several tokens is torn apart.

A token goes to the first of the two matchers that waits for it, and only a token that neither waits
for sets them back.
-/

namespace Exo.Mlx

open Lib (getElem?_snoc_cases)

/-- The tags of a tokenizer that has thinking. -/
structure ThinkTags where
  /-- `think_start_tokens` -/
  start : List Int
  /-- `think_end_tokens` -/
  stop : List Int
  start_ne_nil : start ≠ []
  stop_ne_nil : stop ≠ []

/-- The variables of the pass. -/
structure ThinkScan where
  result : List Int := []
  depth : Nat := 0
  /-- `accumulated_think_start_length` -/
  startLength : Nat := 0
  /-- `accumulated_think_end_length` -/
  endLength : Nat := 0

def ThinkScan.next (tags : ThinkTags) (s : ThinkScan) (token : Int) : ThinkScan :=
  if tags.start[s.startLength]? = some token then
    if s.startLength + 1 = tags.start.length then
      { s with depth := s.depth + 1, startLength := 0, result := s.result ++ [token] }
    else { s with startLength := s.startLength + 1, result := s.result ++ [token] }
  else if tags.stop[s.endLength]? = some token then
    if s.endLength + 1 = tags.stop.length then
      if s.depth = 0 then
        { s with endLength := 0, result := s.result ++ tags.start ++ [token] }
      else { s with depth := s.depth - 1, endLength := 0, result := s.result ++ [token] }
    else { s with endLength := s.endLength + 1, result := s.result ++ [token] }
  else { s with startLength := 0, endLength := 0, result := s.result ++ [token] }

def fixUnmatchedThinkEndTokens (tags : ThinkTags) (tokens : List Int) : List Int :=
  (tokens.foldl (ThinkScan.next tags) {}).result

/-! ## What the pass is for -/

/-- The tag stands in the list from a position on. -/
def OccursAt (tag l : List Int) (i : Nat) : Prop := tag <+: l.drop i

/-- The list with the tag put in front of the tokens that are marked. -/
def insertTags (tag : List Int) : List Int → List Bool → List Int
  | token :: tokens, mark :: marks =>
    (if mark then tag else []) ++ token :: insertTags tag tokens marks
  | tokens, _ => tokens

/-- Every end has a beginning in front of it that no other end has. -/
def Matched (tags : ThinkTags) (l : List Int) : Prop :=
  ∃ opener : Nat → Nat,
    (∀ i, OccursAt tags.stop l i →
      OccursAt tags.start l (opener i) ∧ opener i + tags.start.length ≤ i) ∧
    ∀ i j, OccursAt tags.stop l i → OccursAt tags.stop l j → i < j →
      opener i + tags.start.length ≤ opener j ∨ opener j + tags.start.length ≤ opener i

/-- What the pass is to make of a list. -/
structure Balanced (tags : ThinkTags) (tokens : List Int) : Prop where
  /-- Only whole beginnings are put in, and none in the middle of an end. -/
  inserted : ∃ marks : List Bool, marks.length = tokens.length ∧
    fixUnmatchedThinkEndTokens tags tokens = insertTags tags.start tokens marks ∧
    ∀ i, OccursAt tags.stop tokens i → ∀ j, i < j → j < i + tags.stop.length →
      marks[j]? = some false
  matched : Matched tags (fixUnmatchedThinkEndTokens tags tokens)
  idempotent : fixUnmatchedThinkEndTokens tags (fixUnmatchedThinkEndTokens tags tokens)
    = fixUnmatchedThinkEndTokens tags tokens

/-- Both tags are one token, and not the same. -/
def ThinkTags.Single (tags : ThinkTags) : Prop :=
  tags.start.length = 1 ∧ tags.stop.length = 1 ∧ tags.start ≠ tags.stop

variable {tags : ThinkTags}

theorem ThinkTags.start_pos (tags : ThinkTags) : 0 < tags.start.length :=
  List.length_pos_iff.mpr tags.start_ne_nil

theorem ThinkTags.stop_pos (tags : ThinkTags) : 0 < tags.stop.length :=
  List.length_pos_iff.mpr tags.stop_ne_nil

theorem OccursAt.getElem? {tag l : List Int} {i k : Nat} (h : OccursAt tag l i)
    (hk : k < tag.length) : l[i + k]? = tag[k]? := by
  obtain ⟨rest, hrest⟩ := h
  rw [← List.getElem?_drop, ← hrest, List.getElem?_append_left hk]

theorem occursAt_singleton {t : Int} {l : List Int} {i : Nat} :
    OccursAt [t] l i ↔ l[i]? = some t := by
  constructor
  · intro h
    exact (h.getElem? (k := 0) (Nat.zero_lt_one))
  · intro h
    obtain ⟨hlt, rfl⟩ := List.getElem?_eq_some_iff.mp h
    exact ⟨l.drop (i + 1), (List.drop_eq_getElem_cons hlt).symm⟩

/-! ## An end of several tokens -/

/-- The pass over the tokens of an end, up to the last one. Nothing is put in before, and it can be
recognised only by a matcher that has taken every token of it. -/
structure InEnd (tags : ThinkTags) (k : Nat) (s : ThinkScan) : Prop where
  result : s.result = tags.stop.take k
  endLength : s.endLength ≤ k
  fresh : s.endLength = k → s.depth = 0 ∧ s.startLength = 0 ∧
    (0 < k → tags.start[0]? ≠ tags.stop[0]?)

variable {s : ThinkScan}

theorem inEnd_step {k : Nat} (h : InEnd tags k s) (hk : k + 1 < tags.stop.length) :
    InEnd tags (k + 1) (s.next tags tags.stop[k]) := by
  have htake : s.result ++ [tags.stop[k]] = tags.stop.take (k + 1) := by
    rw [h.result, List.take_succ_eq_append_getElem]
  have hle := h.endLength
  have hfresh := h.fresh
  unfold ThinkScan.next
  split
  · split
    · exact ⟨htake, by simp only; omega, fun heq => by simp only at heq; omega⟩
    · exact ⟨htake, by simp only; omega, fun heq => by simp only at heq; omega⟩
  · rename_i hstart
    split
    · rw [if_neg (by omega)]
      refine ⟨htake, by simp only; omega, fun heq => ?_⟩
      obtain ⟨hdepth, hlength, hfirst⟩ := hfresh (by simp only at heq; omega)
      refine ⟨hdepth, hlength, fun _ => ?_⟩
      rcases Nat.eq_zero_or_pos k with rfl | hpos
      · rw [hlength] at hstart
        rw [List.getElem?_eq_getElem (l := tags.stop) (by omega)]
        exact hstart
      · exact hfirst hpos
    · exact ⟨htake, Nat.zero_le _, fun heq => by simp only at heq; omega⟩

theorem inEnd_foldl {k : Nat} (hk : k < tags.stop.length) :
    InEnd tags k ((tags.stop.take k).foldl (ThinkScan.next tags) {}) := by
  induction k with
  | zero => exact ⟨rfl, Nat.le_refl 0, fun _ => ⟨rfl, rfl, fun h => absurd h (Nat.lt_irrefl 0)⟩⟩
  | succ k ih =>
      rw [List.take_succ_eq_append_getElem (by omega), List.foldl_append]
      exact inEnd_step (ih (by omega)) hk

/-- An end alone comes out as it is, or with a beginning in the middle of it. -/
theorem fix_stop (h : 1 < tags.stop.length) :
    fixUnmatchedThinkEndTokens tags tags.stop = tags.stop ∨
      tags.start[0]? ≠ tags.stop[0]? ∧
        fixUnmatchedThinkEndTokens tags tags.stop = tags.stop.take (tags.stop.length - 1) ++
          tags.start ++ [tags.stop[tags.stop.length - 1]] := by
  have hlast : tags.stop = tags.stop.take (tags.stop.length - 1)
      ++ [tags.stop[tags.stop.length - 1]] := by
    rw [← List.take_succ_eq_append_getElem, List.take_of_length_le (by omega)]
  have hin : InEnd tags (tags.stop.length - 1) _ := inEnd_foldl (by omega)
  have hfix : fixUnmatchedThinkEndTokens tags tags.stop =
      (((tags.stop.take (tags.stop.length - 1)).foldl (ThinkScan.next tags) {}).next tags
        tags.stop[tags.stop.length - 1]).result := by
    unfold fixUnmatchedThinkEndTokens
    conv_lhs => rw [hlast, List.foldl_append, List.foldl_cons, List.foldl_nil]
  rw [hfix]
  generalize (tags.stop.take (tags.stop.length - 1)).foldl (ThinkScan.next tags) {} = s at hin
  have hsame : s.result ++ [tags.stop[tags.stop.length - 1]] = tags.stop := by
    rw [hin.result]
    exact hlast.symm
  have hle := hin.endLength
  unfold ThinkScan.next
  split
  · split <;> exact .inl hsame
  · split
    · split
      · obtain ⟨hdepth, -, hfirst⟩ := hin.fresh (by omega)
        rw [if_pos hdepth]
        exact .inr ⟨hfirst (by omega), by rw [← hin.result]⟩
      · exact .inl hsame
    · exact .inl hsame

theorem not_matched_of_occursAt_zero {l : List Int} (h : OccursAt tags.stop l 0) :
    ¬ Matched tags l := by
  rintro ⟨opener, hopener, -⟩
  have hbefore := (hopener 0 h).2
  have hpos := tags.start_pos
  omega

theorem occursAt_self (tag : List Int) : OccursAt tag tag 0 := List.prefix_refl tag

variable {marks : List Bool}

theorem insertTags_of_unmarked (tag : List Int) {tokens : List Int}
    (h : ∀ mark ∈ marks, mark = false) : insertTags tag tokens marks = tokens := by
  induction tokens generalizing marks with
  | nil => rfl
  | cons token tokens ih =>
      cases marks with
      | nil => rfl
      | cons mark marks =>
          obtain ⟨rfl, hmarks⟩ := List.forall_mem_cons.mp h
          rw [insertTags, if_neg Bool.false_ne_true, ih hmarks]
          rfl

theorem insertTags_head {tag tokens : List Int} (htag : tag ≠ [])
    (htokens : tokens ≠ []) (hmark : marks[0]? = some true) :
    (insertTags tag tokens marks)[0]? = tag[0]? := by
  obtain ⟨token, rest, rfl⟩ := List.exists_cons_of_ne_nil htokens
  cases marks with
  | nil => cases hmark
  | cons mark marks =>
      obtain rfl := Option.some.inj hmark
      rw [insertTags, if_pos rfl, List.getElem?_append_left (List.length_pos_iff.mpr htag)]

/-- **An end of several tokens is never balanced** where it stands alone. -/
theorem not_balanced_stop (h : 1 < tags.stop.length) : ¬ Balanced tags tags.stop := by
  intro hb
  rcases fix_stop h with hfix | ⟨hfirst, hfix⟩
  · have hmatched := hb.matched
    rw [hfix] at hmatched
    exact not_matched_of_occursAt_zero (occursAt_self tags.stop) hmatched
  · obtain ⟨marks, hlength, hmarks, hwhole⟩ := hb.inserted
    rw [hfix] at hmarks
    have hfalse : ∀ j, 0 < j → j < tags.stop.length → marks[j]? = some false := fun j hj hlt =>
      hwhole 0 (occursAt_self tags.stop) j hj (by omega)
    have hhead : marks[0]? = some marks[0] := List.getElem?_eq_getElem (by omega)
    cases hmark : marks[0] with
    | true =>
        -- the result would begin with the tag
        rw [hmark] at hhead
        have hzero := congrArg (·[0]?) hmarks
        simp only [insertTags_head tags.start_ne_nil tags.stop_ne_nil hhead] at hzero
        have htake : 0 < (tags.stop.take (tags.stop.length - 1)).length := by
          rw [List.length_take]
          omega
        rw [List.append_assoc, List.getElem?_append_left htake,
          List.getElem?_take_of_lt (by omega)] at hzero
        exact hfirst hzero.symm
    | false =>
        -- nothing would be put in
        have hnone : ∀ mark ∈ marks, mark = false := by
          intro mark hmem
          obtain ⟨j, hj⟩ := List.mem_iff_getElem?.mp hmem
          have hlt := (List.getElem?_eq_some_iff.mp hj).1
          rcases Nat.eq_zero_or_pos j with rfl | hpos
          · rw [hhead, hmark] at hj
            exact (Option.some.inj hj).symm
          · rw [hfalse j hpos (by omega)] at hj
            exact (Option.some.inj hj).symm
        rw [insertTags_of_unmarked _ hnone] at hmarks
        have hlen := congrArg List.length hmarks
        simp only [List.length_append, List.length_take, List.length_cons, List.length_nil] at hlen
        have := tags.start_pos
        omega

/-! ## A beginning that is interrupted -/

variable {n : Nat}

/-- The tokens of a beginning go to its matcher. -/
theorem foldl_start (hn : s.startLength + n < tags.start.length) :
    ((tags.start.drop s.startLength).take n).foldl (ThinkScan.next tags) s =
      { s with
        startLength := s.startLength + n
        result := s.result ++ (tags.start.drop s.startLength).take n } := by
  induction n with
  | zero => simp
  | succ n ih =>
      have hlt : n < (tags.start.drop s.startLength).length := by
        rw [List.length_drop]
        omega
      rw [List.take_succ_eq_append_getElem hlt, List.foldl_append, ih (by omega), List.foldl_cons,
        List.foldl_nil, ThinkScan.next, if_pos ?_, if_neg (by simp only; omega)]
      · simp [Nat.add_assoc]
      · rw [List.getElem_drop, List.getElem?_eq_getElem]

/-- A beginning that comes to its end is counted. -/
theorem foldl_start_rest (hs : s.startLength < tags.start.length) :
    (tags.start.drop s.startLength).foldl (ThinkScan.next tags) s =
      { s with
        depth := s.depth + 1
        startLength := 0
        result := s.result ++ tags.start.drop s.startLength } := by
  have hlast : tags.start.length - 1 - s.startLength < (tags.start.drop s.startLength).length := by
    rw [List.length_drop]
    omega
  have hsplit := List.take_succ_eq_append_getElem hlast
  rw [List.take_of_length_le (by rw [List.length_drop]; omega)] at hsplit
  conv_lhs => rw [hsplit, List.foldl_append, foldl_start (by omega), List.foldl_cons, List.foldl_nil]
  rw [ThinkScan.next, if_pos ?_, if_pos (by simp only; omega)]
  · rw [List.append_assoc, ← hsplit]
  · rw [List.getElem_drop, List.getElem?_eq_getElem]

theorem fix_take_start (hn : n ≤ tags.start.length) :
    fixUnmatchedThinkEndTokens tags (tags.start.take n) = tags.start.take n := by
  unfold fixUnmatchedThinkEndTokens
  rcases Nat.lt_or_eq_of_le hn with hlt | rfl
  · have hfold := @foldl_start tags {} n (by simpa using hlt)
    rw [List.drop_zero] at hfold
    rw [hfold]
    rfl
  · have hfold := @foldl_start_rest tags {} tags.start_pos
    rw [List.drop_zero] at hfold
    rw [List.take_length, hfold]
    rfl

variable {token : Int}

/-- A tag of one token that is part of the beginning is not seen in one. -/
theorem not_balanced_of_mem (hstop : tags.stop = [token])
    (hmem : token ∈ tags.start) : ∃ tokens, ¬ Balanced tags tokens := by
  obtain ⟨m, hm, htoken⟩ := List.getElem_of_mem hmem
  refine ⟨tags.start.take (m + 1), fun hb => ?_⟩
  have hmatched := hb.matched
  rw [fix_take_start hm] at hmatched
  obtain ⟨opener, hopener, -⟩ := hmatched
  have hat : OccursAt tags.stop (tags.start.take (m + 1)) m := by
    rw [hstop, occursAt_singleton, List.getElem?_take_of_lt (Nat.lt_succ_self m),
      List.getElem?_eq_getElem hm, htoken]
  have hbefore := (hopener m hat).2
  omega

theorem getElem?_between {l₁ l₂ : List Int} (h : l₁.length = n) :
    (l₁ ++ token :: l₂)[n]? = some token := by
  subst h
  rw [List.getElem?_append_right (Nat.le_refl _), Nat.sub_self]
  rfl

/-- Two ends, with room for only one beginning before the second. -/
theorem not_matched_of_ends {l : List Int} (hstop : tags.stop = [token])
    (hmem : token ∉ tags.start) (hlong : 1 < tags.start.length)
    (hfirst : l[tags.start.length + 1]? = some token)
    (hsecond : l[2 * tags.start.length + 1]? = some token) : ¬ Matched tags l := by
  rintro ⟨opener, hopener, hapart⟩
  rw [hstop] at hopener hapart
  obtain ⟨-, hle₁⟩ := hopener _ (occursAt_singleton.2 hfirst)
  obtain ⟨hstart₂, hle₂⟩ := hopener _ (occursAt_singleton.2 hsecond)
  have hdisjoint := hapart _ _ (occursAt_singleton.2 hfirst) (occursAt_singleton.2 hsecond)
    (by omega)
  -- the beginning of the second end does not contain the first one
  have hbefore : opener (2 * tags.start.length + 1) ≤ 1 := by
    by_contra hge
    have hin : tags.start.length + 1 - opener (2 * tags.start.length + 1) < tags.start.length := by
      omega
    have hat := hstart₂.getElem? hin
    rw [show opener (2 * tags.start.length + 1) + (tags.start.length + 1
        - opener (2 * tags.start.length + 1)) = tags.start.length + 1 by omega, hfirst] at hat
    exact hmem (List.mem_of_getElem? hat.symm)
  omega

/-- An end that comes in between does not set the other matcher back. -/
theorem not_balanced_of_not_mem (hstop : tags.stop = [token])
    (hmem : token ∉ tags.start) (hlong : 1 < tags.start.length) :
    ∃ tokens, ¬ Balanced tags tokens := by
  have hnot : ∀ i : Nat, tags.start[i]? ≠ some token := fun i h =>
    hmem (List.mem_of_getElem? h)
  have hhead : (tags.start.take 1).foldl (ThinkScan.next tags) {}
      = { startLength := 1, result := tags.start.take 1 } := by
    have hfold := @foldl_start tags {} 1 (by simpa using hlong)
    rw [List.drop_zero] at hfold
    exact hfold
  have hbetween : ThinkScan.next tags { startLength := 1, result := tags.start.take 1 } token
      = { startLength := 1, result := tags.start.take 1 ++ tags.start ++ [token] } := by
    rw [ThinkScan.next, if_neg (hnot _), if_pos (by simp [hstop]), if_pos (by simp [hstop]),
      if_pos rfl]
  have hfix : fixUnmatchedThinkEndTokens tags
      (tags.start.take 1 ++ token :: (tags.start.drop 1 ++ [token])) =
      tags.start.take 1 ++ tags.start ++ [token] ++ tags.start.drop 1 ++ [token] := by
    have hrest := @foldl_start_rest tags
      { startLength := 1, result := tags.start.take 1 ++ tags.start ++ [token] } hlong
    unfold fixUnmatchedThinkEndTokens
    rw [List.foldl_append, hhead, List.foldl_cons, hbetween, List.foldl_append, hrest,
      List.foldl_cons, List.foldl_nil, ThinkScan.next, if_neg (hnot _),
      if_pos (by simp [hstop]), if_pos (by simp [hstop]), if_neg (by simp)]
  refine ⟨tags.start.take 1 ++ token :: (tags.start.drop 1 ++ [token]), fun hb => ?_⟩
  have hmatched := hb.matched
  rw [hfix] at hmatched
  refine not_matched_of_ends hstop hmem hlong ?_ ?_ hmatched
  · have hlength : (tags.start.take 1 ++ tags.start).length = tags.start.length + 1 := by
      rw [List.length_append, List.length_take]
      omega
    rw [List.append_assoc _ _ [token], List.append_assoc _ [token]]
    exact getElem?_between hlength
  · refine getElem?_between ?_
    simp only [List.length_append, List.length_take, List.length_drop, List.length_singleton]
    omega

/-! ## Tags of one token -/

section Single

variable {start stop : Int}

/-- The pass for two tags of one token, from a depth on. -/
def balanceFrom (start stop : Int) : Nat → List Int → List Int
  | _, [] => []
  | depth, token :: tokens =>
    if token = start then token :: balanceFrom start stop (depth + 1) tokens
    else if token = stop then
      if depth = 0 then start :: token :: balanceFrom start stop 0 tokens
      else token :: balanceFrom start stop (depth - 1) tokens
    else token :: balanceFrom start stop depth tokens

theorem foldl_single (hstart : tags.start = [start]) (hstop : tags.stop = [stop])
    (tokens : List Int) (depth : Nat) (result : List Int) :
    (tokens.foldl (ThinkScan.next tags) { depth, result }).result
      = result ++ balanceFrom start stop depth tokens := by
  induction tokens generalizing depth result with
  | nil => simp [balanceFrom]
  | cons token tokens ih =>
      rw [List.foldl_cons, balanceFrom, ThinkScan.next, hstart, hstop]
      by_cases hs : token = start
      · simp [hs, ih]
      · by_cases he : token = stop
        · subst he
          by_cases hdepth : depth = 0
          · simp [hs, hdepth, ih, Ne.symm hs]
          · simp [hs, hdepth, ih, Ne.symm hs]
        · simp [hs, he, ih, Ne.symm hs, Ne.symm he]

theorem fix_single (hstart : tags.start = [start]) (hstop : tags.stop = [stop])
    (tokens : List Int) :
    fixUnmatchedThinkEndTokens tags tokens = balanceFrom start stop 0 tokens :=
  foldl_single hstart hstop tokens 0 []

theorem balanceFrom_marks (start stop : Int) (depth : Nat) (tokens : List Int) :
    ∃ marks : List Bool, marks.length = tokens.length ∧
      balanceFrom start stop depth tokens = insertTags [start] tokens marks := by
  induction tokens generalizing depth with
  | nil => exact ⟨[], rfl, rfl⟩
  | cons token tokens ih =>
      rw [balanceFrom]
      split
      · obtain ⟨marks, hlength, hmarks⟩ := ih (depth + 1)
        exact ⟨false :: marks, by simp [hlength], by rw [hmarks]; rfl⟩
      · split
        · split
          · obtain ⟨marks, hlength, hmarks⟩ := ih 0
            exact ⟨true :: marks, by simp [hlength], by rw [hmarks]; rfl⟩
          · obtain ⟨marks, hlength, hmarks⟩ := ih (depth - 1)
            exact ⟨false :: marks, by simp [hlength], by rw [hmarks]; rfl⟩
        · obtain ⟨marks, hlength, hmarks⟩ := ih depth
          exact ⟨false :: marks, by simp [hlength], by rw [hmarks]; rfl⟩

/-- What was put in is counted the next time. -/
theorem balanceFrom_idem (hne : start ≠ stop) (depth : Nat) (tokens : List Int) :
    balanceFrom start stop depth (balanceFrom start stop depth tokens)
      = balanceFrom start stop depth tokens := by
  induction tokens generalizing depth with
  | nil => rfl
  | cons token tokens ih =>
      conv_lhs => rw [balanceFrom.eq_def start stop depth (token :: tokens)]
      rw [balanceFrom.eq_def start stop depth (token :: tokens)]
      by_cases hs : token = start
      · simp [hs, balanceFrom, ih]
      · by_cases he : token = stop
        · by_cases hdepth : depth = 0
          · simp [he, hdepth, balanceFrom, ih, Ne.symm hne]
          · simp [he, hdepth, balanceFrom, ih, Ne.symm hne]
        · simp [hs, he, balanceFrom, ih]

/-- Every end has a beginning of its own, and `free` are beginnings that no end has. -/
structure Paired (start stop : Int) (l : List Int) (opener : Nat → Nat) (free : List Nat) :
    Prop where
  nodup : free.Nodup
  begins : ∀ x ∈ free, l[x]? = some start
  ends : ∀ i : Nat, l[i]? = some stop →
    l[opener i]? = some start ∧ opener i < i ∧ opener i ∉ free
  apart : ∀ i j : Nat, l[i]? = some stop → l[j]? = some stop → i < j → opener i ≠ opener j

variable {l : List Int} {opener : Nat → Nat} {free : List Nat}

theorem getElem?_grow {i : Nat} {t token : Int} (h : l[i]? = some t) :
    (l ++ [token])[i]? = some t := by
  rw [List.getElem?_append_left (List.getElem?_eq_some_iff.mp h).1, h]

theorem Paired.nil : Paired start stop [] id [] where
  nodup := List.nodup_nil
  begins x hx := absurd hx List.not_mem_nil
  ends i hi := by simp at hi
  apart i j hi := by simp at hi

theorem Paired.push (h : Paired start stop l opener free) (hne : token ≠ stop) :
    Paired start stop (l ++ [token]) opener free := by
  have hold : ∀ i : Nat, (l ++ [token])[i]? = some stop → l[i]? = some stop := by
    intro i hi
    rcases getElem?_snoc_cases hi with hi | ⟨-, heq⟩
    · exact hi
    · exact absurd heq.symm hne
  refine ⟨h.nodup, fun x hx => getElem?_grow (h.begins x hx), fun i hi => ?_, fun i j hi hj =>
    h.apart i j (hold i hi) (hold j hj)⟩
  obtain ⟨hstart, hlt, hfree⟩ := h.ends i (hold i hi)
  exact ⟨getElem?_grow hstart, hlt, hfree⟩

theorem Paired.lt_length (h : Paired start stop l opener free) {x : Nat} (hx : x ∈ free) :
    x < l.length := (List.getElem?_eq_some_iff.mp (h.begins x hx)).1

theorem Paired.push_start (h : Paired start stop l opener free) (hne : start ≠ stop) :
    Paired start stop (l ++ [start]) opener (l.length :: free) := by
  have hpush := h.push hne
  refine ⟨List.nodup_cons.mpr ⟨fun hmem => ?_, h.nodup⟩, fun x hx => ?_, fun i hi => ?_,
    hpush.apart⟩
  · exact absurd (h.lt_length hmem) (Nat.lt_irrefl _)
  · rcases List.mem_cons.mp hx with rfl | hx
    · simp
    · exact hpush.begins x hx
  · obtain ⟨hstart, hlt, hfree⟩ := hpush.ends i hi
    refine ⟨hstart, hlt, fun hmem => ?_⟩
    rcases List.mem_cons.mp hmem with heq | hmem
    · have hle := (List.getElem?_eq_some_iff.mp hi).1
      rw [List.length_append, List.length_singleton] at hle
      omega
    · exact hfree hmem

theorem Paired.push_stop {x : Nat} (h : Paired start stop l opener (x :: free)) :
    Paired start stop (l ++ [stop]) (Function.update opener l.length x) free := by
  obtain ⟨hx, hnodup⟩ := List.nodup_cons.mp h.nodup
  have hlt := h.lt_length List.mem_cons_self
  have hold : ∀ i : Nat, l[i]? = some stop → Function.update opener l.length x i = opener i := by
    intro i hi
    have := (List.getElem?_eq_some_iff.mp hi).1
    exact Function.update_of_ne (by omega) ..
  refine ⟨hnodup, fun y hy => getElem?_grow (h.begins y (List.mem_cons_of_mem _ hy)),
    fun i hi => ?_, fun i j hi hj hij => ?_⟩
  · rcases getElem?_snoc_cases hi with hi | ⟨rfl, -⟩
    · obtain ⟨hstart, hlt, hfree⟩ := h.ends i hi
      rw [hold i hi]
      exact ⟨getElem?_grow hstart, hlt, fun hmem => hfree (List.mem_cons_of_mem _ hmem)⟩
    · rw [Function.update_self]
      exact ⟨getElem?_grow (h.begins x List.mem_cons_self), hlt, hx⟩
  · rcases getElem?_snoc_cases hj with hj | ⟨rfl, -⟩
    · have hi : l[i]? = some stop := by
        rwa [List.getElem?_append_left (by have := (List.getElem?_eq_some_iff.mp hj).1; omega)]
          at hi
      rw [hold i hi, hold j hj]
      exact h.apart i j hi hj hij
    · have hi : l[i]? = some stop := by rwa [List.getElem?_append_left hij] at hi
      rw [hold i hi, Function.update_self]
      rintro rfl
      exact (h.ends i hi).2.2 List.mem_cons_self

/-- The pass keeps as many beginnings free as it counts. -/
theorem Paired.balanceFrom (hne : start ≠ stop) (tokens : List Int) {depth : Nat}
    (h : Paired start stop l opener free) (hdepth : free.length = depth) :
    ∃ opener free, Paired start stop (l ++ balanceFrom start stop depth tokens) opener free := by
  induction tokens generalizing l opener free depth with
  | nil => exact ⟨opener, free, by simpa [Exo.Mlx.balanceFrom] using h⟩
  | cons token tokens ih =>
      rw [Exo.Mlx.balanceFrom]
      split
      · rename_i hs
        subst hs
        have hnext := ih (h.push_start hne) (congrArg (· + 1) hdepth)
        simpa using hnext
      · split
        · rename_i he
          subst he
          split
          · rename_i hzero
            obtain rfl := List.length_eq_zero_iff.mp (hdepth.trans hzero)
            have hnext := ih (h.push_start hne).push_stop rfl
            simpa using hnext
          · cases free with
            | nil => exact absurd hdepth.symm (by assumption)
            | cons x free =>
                have hfree : free.length = depth - 1 := by
                  rw [List.length_cons] at hdepth
                  omega
                have hnext := ih h.push_stop hfree
                simpa using hnext
        · rename_i he
          have hnext := ih (h.push he) hdepth
          simpa using hnext

theorem Paired.matched (hstart : tags.start = [start]) (hstop : tags.stop = [stop])
    (h : Paired start stop l opener free) : Matched tags l := by
  refine ⟨opener, fun i hi => ?_, fun i j hi hj hij => ?_⟩
  · rw [hstop, occursAt_singleton] at hi
    obtain ⟨hopen, hlt, -⟩ := h.ends i hi
    rw [hstart]
    exact ⟨occursAt_singleton.2 hopen, hlt⟩
  · rw [hstop, occursAt_singleton] at hi hj
    have hne := h.apart i j hi hj hij
    rw [hstart, List.length_singleton]
    omega

theorem balanced_single (hstart : tags.start = [start]) (hstop : tags.stop = [stop])
    (hne : start ≠ stop) (tokens : List Int) : Balanced tags tokens := by
  have hfix := fix_single hstart hstop
  refine ⟨?_, ?_, ?_⟩
  · obtain ⟨marks, hlength, hmarks⟩ := balanceFrom_marks start stop 0 tokens
    refine ⟨marks, hlength, by rw [hfix, hmarks, hstart], fun i _ j hij hlt => ?_⟩
    rw [hstop, List.length_singleton] at hlt
    omega
  · obtain ⟨opener, free, hpaired⟩ := Paired.nil.balanceFrom hne tokens rfl
    rw [hfix]
    exact hpaired.matched hstart hstop
  · rw [hfix, hfix, balanceFrom_idem hne]

end Single

/-- **The thinking tags are balanced in every list of tokens exactly if each tag is one token, and
they differ.** -/
theorem balanced_iff (tags : ThinkTags) : (∀ tokens, Balanced tags tokens) ↔ tags.Single := by
  constructor
  · intro h
    have hstop : tags.stop.length = 1 := by
      have hpos := tags.stop_pos
      by_contra hlong
      exact not_balanced_stop (by omega) (h tags.stop)
    obtain ⟨stop, hstop'⟩ := List.length_eq_one_iff.mp hstop
    have hmem : stop ∉ tags.start := fun hmem => by
      obtain ⟨tokens, hnot⟩ := not_balanced_of_mem hstop' hmem
      exact hnot (h tokens)
    have hstart : tags.start.length = 1 := by
      have hpos := tags.start_pos
      by_contra hlong
      obtain ⟨tokens, hnot⟩ := not_balanced_of_not_mem hstop' hmem (by omega)
      exact hnot (h tokens)
    refine ⟨hstart, hstop, fun heq => hmem ?_⟩
    rw [heq, hstop']
    exact List.mem_singleton_self stop
  · rintro ⟨hstart, hstop, hne⟩ tokens
    obtain ⟨start, hstart⟩ := List.length_eq_one_iff.mp hstart
    obtain ⟨stop, hstop⟩ := List.length_eq_one_iff.mp hstop
    exact balanced_single hstart hstop (fun heq => hne (by rw [hstart, hstop, heq])) tokens

/-- An end of two tokens is torn apart by the beginning that is put in. -/
theorem not_forall_balanced : ¬ ∀ (tags : ThinkTags) (tokens : List Int), Balanced tags tokens := by
  intro h
  let tags : ThinkTags :=
    { start := [1], stop := [2, 3], start_ne_nil := nofun, stop_ne_nil := nofun }
  have hlong : 1 < tags.stop.length := by decide
  exact not_balanced_stop hlong (h tags tags.stop)

end Exo.Mlx
