import Exo.Lib.Dict

/-!
# Media regions of a prompt

An image occupies a run of placeholder tokens. The regions of a prompt are those runs, from
left to right, each with a hash of the image that fills it.
-/

namespace Exo

open Lib (Dict)

/-- `MediaRegion`. A region covers at least one position. -/
structure MediaRegion where
  contentHash : String
  startPos : Nat
  endPos : Nat
  nonempty : startPos < endPos
  deriving DecidableEq

/-- The region covers position `p`. -/
def MediaRegion.Covers (r : MediaRegion) (p : Nat) : Prop := r.startPos ≤ p ∧ p < r.endPos

/-- A region with the same start and the same content stands on the other side. -/
def MediaRegion.MatchedIn (r : MediaRegion) (others : List MediaRegion) : Prop :=
  ∃ r' ∈ others, r'.startPos = r.startPos ∧ r'.contentHash = r.contentHash

/-- The media regions of one prompt: sorted and disjoint. -/
structure MediaRegions where
  toList : List MediaRegion
  ordered : toList.Pairwise fun r r' => r.endPos ≤ r'.startPos
  deriving DecidableEq

namespace MediaRegions

/-- `media_regions or []`. -/
def empty : MediaRegions := ⟨[], List.Pairwise.nil⟩

/-- Later regions start strictly later. -/
theorem starts_increase (rs : MediaRegions) :
    rs.toList.Pairwise fun r r' => r.startPos < r'.startPos :=
  rs.ordered.imp fun {r r'} h => by have := r.nonempty; omega

variable {rs : MediaRegions}

/-- Two regions of one prompt that start at the same position are the same region. -/
theorem eq_of_startPos {r r' : MediaRegion} (hr : r ∈ rs.toList)
    (hr' : r' ∈ rs.toList) (h : r.startPos = r'.startPos) : r = r' := by
  have hp : rs.toList.Pairwise fun r r' => r.startPos = r'.startPos → r = r' :=
    (rs.starts_increase).imp fun hlt heq => absurd heq (Nat.ne_of_lt hlt)
  have hp' : rs.toList.Pairwise fun r r' => r'.startPos = r.startPos → r' = r :=
    (rs.starts_increase).imp fun hlt heq => absurd heq.symm (Nat.ne_of_lt hlt)
  exact List.Pairwise.forall_of_forall_of_flip (fun _ _ _ => rfl) hp hp' hr hr' h

/-- `{r.start_pos: r for r in query_regions}`. -/
def byStart (rs : MediaRegions) : Dict Nat MediaRegion :=
  rs.toList.foldl (fun d r => d.set r.startPos r) .empty

private theorem get?_foldl_set (s : Nat) : ∀ (l : List MediaRegion) (d : Dict Nat MediaRegion),
    (l.Pairwise fun r r' => r.startPos < r'.startPos) →
    (l.foldl (fun d r => d.set r.startPos r) d).get? s =
      (l.find? fun r => r.startPos = s).or (d.get? s) := by
  intro l
  induction l with
  | nil => intro d _; simp
  | cons r l ih =>
    intro d hp
    obtain ⟨hlater, hp⟩ := List.pairwise_cons.mp hp
    rw [List.foldl_cons, ih _ hp, Dict.get?_set]
    by_cases hs : r.startPos = s
    · -- no later region overwrites the binding of `r`
      have hnone : l.find? (fun r => decide (r.startPos = s)) = Option.none := by
        refine List.find?_eq_none.mpr fun r' hr' => ?_
        have := hlater r' hr'
        simp only [decide_eq_true_eq]
        omega
      simp [hs, hnone]
    · simp [hs, Ne.symm hs]

theorem get?_byStart (rs : MediaRegions) (s : Nat) :
    rs.byStart.get? s = rs.toList.find? fun r => r.startPos = s := by
  rw [byStart, get?_foldl_set s _ _ rs.starts_increase, Dict.get?_empty, Option.or_none]

theorem get?_byStart_eq_some {s : Nat} {r : MediaRegion} :
    rs.byStart.get? s = some r ↔ r ∈ rs.toList ∧ r.startPos = s := by
  rw [get?_byStart]
  constructor
  · intro h
    exact ⟨List.mem_of_find?_eq_some h, by simpa using List.find?_some h⟩
  · intro ⟨hr, hs⟩
    cases hfind : rs.toList.find? fun r => r.startPos = s with
    | none => exact absurd hs (by simpa using List.find?_eq_none.mp hfind r hr)
    | some r' =>
      have hs' : r'.startPos = s := by simpa using List.find?_some hfind
      rw [eq_of_startPos (List.mem_of_find?_eq_some hfind) hr (hs'.trans hs.symm)]

/-! ## The regions of a prompt -/

/-- The loop of `_find_media_regions` at position `pos`; `run` is `run_start` while `in_run`. -/
def findRuns (pos : Nat) : (run : Option { s // s < pos }) → List Bool → List MediaRegion
  | none, [] => []
  | some s, [] => [⟨"", s, pos, s.2⟩]
  | none, true :: pads => findRuns (pos + 1) (some ⟨pos, Nat.lt_succ_self pos⟩) pads
  | none, false :: pads => findRuns (pos + 1) none pads
  | some s, true :: pads => findRuns (pos + 1) (some ⟨s, Nat.lt_succ_of_lt s.2⟩) pads
  | some s, false :: pads => ⟨"", s, pos, s.2⟩ :: findRuns (pos + 1) none pads

/-- Runs are disjoint and from left to right, from the start of the open run on. -/
theorem findRuns_ordered : ∀ (pads : List Bool) (pos : Nat) (run : Option { s // s < pos }),
    (∀ r ∈ findRuns pos run pads, (run.map Subtype.val).getD pos ≤ r.startPos) ∧
    (findRuns pos run pads).Pairwise fun r r' => r.endPos ≤ r'.startPos := by
  intro pads
  induction pads with
  | nil =>
    intro pos run
    cases run <;> simp [findRuns]
  | cons pad pads ih =>
    intro pos run
    cases run with
    | none =>
      cases pad with
      | true => simpa [findRuns] using ih (pos + 1) (some ⟨pos, Nat.lt_succ_self pos⟩)
      | false =>
        obtain ⟨hstart, hp⟩ := ih (pos + 1) none
        refine ⟨fun r hr => ?_, by simpa [findRuns] using hp⟩
        have := hstart r (by simpa [findRuns] using hr)
        simp only [Option.map_none, Option.getD_none] at this ⊢
        omega
    | some s =>
      cases pad with
      | true => simpa [findRuns] using ih (pos + 1) (some ⟨s, Nat.lt_succ_of_lt s.2⟩)
      | false =>
        -- the run ends here; what follows starts to the right of it
        obtain ⟨hstart, hp⟩ := ih (pos + 1) none
        have hlater : ∀ r ∈ findRuns (pos + 1) none pads, pos + 1 ≤ r.startPos := by
          simpa using hstart
        constructor
        · intro r hr
          obtain rfl | hr := List.mem_cons.mp hr
          · exact Nat.le_refl s.1
          · have := hlater r hr
            have := s.2
            simp only [Option.map_some, Option.getD_some]
            omega
        · exact List.pairwise_cons.mpr ⟨fun r hr => Nat.le_of_succ_le (hlater r hr), hp⟩

/-- `_find_media_regions`; `hashes` are the digests of the decoded images. -/
def findMediaRegions {Token : Type} [DecidableEq Token] (promptTokens : List Token)
    (hashes : List String) (imageTokenId : Token) : MediaRegions where
  toList :=
    (findRuns 0 none (promptTokens.map fun t => decide (t = imageTokenId))).zipIdx.map fun q =>
      { q.1 with contentHash := hashes.getD q.2 "" }
  ordered := by
    have hp := (findRuns_ordered (promptTokens.map fun t => decide (t = imageTokenId)) 0 none).2
    rw [← List.zipIdx_map_fst 0 (findRuns 0 none _)] at hp
    exact List.pairwise_map.mpr (List.pairwise_map.mp hp)

example : (findMediaRegions [7, 0, 0, 5, 0] ["a", "b"] 0).toList.map
    (fun r => (r.contentHash, r.startPos, r.endPos)) = [("a", 1, 3), ("b", 4, 5)] := by decide

end MediaRegions

end Exo
