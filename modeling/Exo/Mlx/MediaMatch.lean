import Exo.Mlx.PrefixCache

/-!
# What media regions do to a prefix match

`_validate_media_match` cuts a match at the first position where both prompts start a region
and the contents differ. It looks at no other region: one that stands on one side only does not
cut the match, and a cached prompt without regions is not looked at in the first place.

So the length it returns is the least of the token match and those positions. From that it
follows when a match stays clear of every region that the other side does not match.
-/

namespace Exo

variable {Token A V : Type}

/-- A match of `n` tokens reaches no position of a region unmatched on the other side. -/
def MediaSafe (n : Nat) (cached query : MediaRegions) : Prop :=
  (∀ r ∈ cached.toList, ¬ r.MatchedIn query.toList → ∀ p, r.Covers p → n ≤ p) ∧
  (∀ r ∈ query.toList, ¬ r.MatchedIn cached.toList → ∀ p, r.Covers p → n ≤ p)

/-- Both prompts start a region at `s`, with different contents. -/
def Conflict (cached query : MediaRegions) (s : Nat) : Prop :=
  ∃ r ∈ cached.toList, ∃ q ∈ query.toList,
    r.startPos = s ∧ q.startPos = s ∧ q.contentHash ≠ r.contentHash

/-- No region on the other side starts where `r` does. -/
def MediaRegion.AloneAmong (r : MediaRegion) (others : List MediaRegion) : Prop :=
  ∀ r' ∈ others, r'.startPos ≠ r.startPos

/-- Every region that is alone begins after the shared tokens or after a conflict. -/
def Guarded (length : Nat) (cached query : MediaRegions) : Prop :=
  ∀ r, (r ∈ cached.toList ∧ r.AloneAmong query.toList ∨
      r ∈ query.toList ∧ r.AloneAmong cached.toList) →
    length ≤ r.startPos ∨ ∃ s ≤ r.startPos, Conflict cached query s

/-! ## The validated length -/

/-- A cached region that the loop cuts at. -/
private def CutAt (queryByStart : Nat → Option MediaRegion) (r : MediaRegion) : Prop :=
  ∃ q, queryByStart r.startPos = some q ∧ q.contentHash ≠ r.contentHash

private theorem validateLoop_spec (queryByStart : Nat → Option MediaRegion) (n : Nat) :
    ∀ l : List MediaRegion, (l.Pairwise fun r r' => r.startPos < r'.startPos) →
    let m := validateLoop queryByStart n l
    m ≤ n ∧ (∀ r ∈ l, CutAt queryByStart r → m ≤ r.startPos) ∧
      (m = n ∨ ∃ r ∈ l, CutAt queryByStart r ∧ r.startPos = m) := by
  intro l
  induction l with
  | nil => intro _; simp [validateLoop]
  | cons r l ih =>
    intro hp
    obtain ⟨hlater, hp⟩ := List.pairwise_cons.mp hp
    obtain ⟨hle, hcut, hleast⟩ := ih hp
    unfold validateLoop
    split
    · -- this region and all later ones start past the match
      rename_i hpast
      refine ⟨Nat.le_refl n, fun r' hr' _ => ?_, Or.inl rfl⟩
      obtain rfl | hr' := List.mem_cons.mp hr'
      · exact hpast
      · have := hlater r' hr'
        omega
    · rename_i hbefore
      have hskip : ¬ CutAt queryByStart r →
          let m := validateLoop queryByStart n l
          m ≤ n ∧ (∀ r' ∈ r :: l, CutAt queryByStart r' → m ≤ r'.startPos) ∧
            (m = n ∨ ∃ r' ∈ r :: l, CutAt queryByStart r' ∧ r'.startPos = m) := by
        intro hno
        refine ⟨hle, fun r' hr' hc => ?_, hleast.imp_right fun ⟨r', hr', hc⟩ =>
          ⟨r', List.mem_cons_of_mem r hr', hc⟩⟩
        obtain rfl | hr' := List.mem_cons.mp hr'
        · exact absurd hc hno
        · exact hcut r' hr' hc
      split
      · rename_i hnone
        exact hskip (by intro ⟨q, hq, _⟩; rw [hnone] at hq; cases hq)
      · rename_i q hsome
        split
        · rename_i hdiff
          refine ⟨by omega, fun r' hr' _ => ?_, Or.inr ⟨r, List.mem_cons_self, ⟨q, hsome, hdiff⟩, rfl⟩⟩
          obtain rfl | hr' := List.mem_cons.mp hr'
          · exact Nat.le_refl _
          · exact Nat.le_of_lt (hlater r' hr')
        · rename_i hsame
          refine hskip ?_
          intro ⟨q', hq', hne⟩
          rw [hsome] at hq'
          cases hq'
          exact hsame hne

private theorem cutAt_iff {cached query : MediaRegions} {r : MediaRegion} (hr : r ∈ cached.toList) :
    CutAt query.byStart.get? r ↔ Conflict cached query r.startPos := by
  constructor
  · intro ⟨q, hq, hne⟩
    obtain ⟨hq, hs⟩ := MediaRegions.get?_byStart_eq_some.mp hq
    exact ⟨r, hr, q, hq, rfl, hs, hne⟩
  · intro ⟨r', hr', q, hq, hr's, hqs, hne⟩
    obtain rfl := MediaRegions.eq_of_startPos hr' hr hr's
    exact ⟨q, MediaRegions.get?_byStart_eq_some.mpr ⟨hq, hqs⟩, hne⟩

/-- The validated length is the least of the match and the conflicts. -/
theorem validateMediaMatch_spec (n : Nat) (cached query : MediaRegions) :
    let m := validateMediaMatch n cached query
    m ≤ n ∧ (∀ s, Conflict cached query s → m ≤ s) ∧ (m = n ∨ Conflict cached query m) := by
  unfold validateMediaMatch
  split
  · rename_i hnil
    refine ⟨Nat.le_refl n, fun s hc => ?_, Or.inl rfl⟩
    obtain ⟨r, hr, _⟩ := hc
    rw [hnil] at hr
    cases hr
  · obtain ⟨hle, hcut, hleast⟩ :=
      validateLoop_spec query.byStart.get? n cached.toList cached.starts_increase
    refine ⟨hle, fun s hc => ?_, hleast.imp_right ?_⟩
    · obtain ⟨r, hr, q, hq, rfl, hqs, hne⟩ := hc
      exact hcut r hr ((cutAt_iff hr).mpr ⟨r, hr, q, hq, rfl, hqs, hne⟩)
    · rintro ⟨r, hr, hc, hs⟩
      rw [← hs]
      exact (cutAt_iff hr).mp hc

namespace PrefixEntry

variable [DecidableEq Token]

theorem matchLength_spec (e : PrefixEntry Token A V) (prompt : List Token)
    (query : MediaRegions) :
    let m := e.matchLength prompt query
    let n := getPrefixLength prompt e.prompt
    m ≤ n ∧ (∀ s, Conflict e.mediaRegions query s → m ≤ s) ∧
      (m = n ∨ Conflict e.mediaRegions query m) := by
  intro m n
  have hm : m = if 0 < n then validateMediaMatch n e.mediaRegions query else n := rfl
  rw [hm]
  split
  · exact validateMediaMatch_spec _ _ _
  · refine ⟨Nat.le_refl _, fun s _ => ?_, Or.inl rfl⟩
    omega

/-- What one entry serves is clear of unmatched regions exactly when lone regions are guarded. -/
theorem mediaSafe_matchLength_iff (e : PrefixEntry Token A V) (prompt : List Token)
    (query : MediaRegions) :
    MediaSafe (e.matchLength prompt query) e.mediaRegions query ↔
      Guarded (getPrefixLength prompt e.prompt) e.mediaRegions query := by
  obtain ⟨hle, hconflict, hleast⟩ := e.matchLength_spec prompt query
  constructor
  · intro ⟨hcached, hquery⟩ r hr
    -- a lone region is unmatched, and covers the position it starts at
    have hstart : r.Covers r.startPos := ⟨Nat.le_refl _, r.nonempty⟩
    have hbound : e.matchLength prompt query ≤ r.startPos := by
      obtain ⟨hmem, halone⟩ | ⟨hmem, halone⟩ := hr
      · exact hcached r hmem (fun ⟨r', hr', hs, _⟩ => halone r' hr' hs) _ hstart
      · exact hquery r hmem (fun ⟨r', hr', hs, _⟩ => halone r' hr' hs) _ hstart
    obtain heq | hc := hleast
    · exact Or.inl (heq ▸ hbound)
    · exact Or.inr ⟨_, hbound, hc⟩
  · intro hguard
    have hlone : ∀ r, (r ∈ e.mediaRegions.toList ∧ r.AloneAmong query.toList ∨
        r ∈ query.toList ∧ r.AloneAmong e.mediaRegions.toList) →
        e.matchLength prompt query ≤ r.startPos := by
      intro r hr
      obtain hfar | ⟨s, hs, hc⟩ := hguard r hr
      · exact Nat.le_trans hle hfar
      · exact Nat.le_trans (hconflict s hc) hs
    constructor
    · intro r hr hun p hp
      refine Nat.le_trans ?_ hp.1
      by_cases halone : r.AloneAmong query.toList
      · exact hlone r (Or.inl ⟨hr, halone⟩)
      · simp only [MediaRegion.AloneAmong, not_forall, ne_eq, not_not] at halone
        obtain ⟨q, hq, hs⟩ := halone
        exact hconflict _ ⟨r, hr, q, hq, rfl, hs, fun hh => hun ⟨q, hq, hs, hh⟩⟩
    · intro q hq hun p hp
      refine Nat.le_trans ?_ hp.1
      by_cases halone : q.AloneAmong e.mediaRegions.toList
      · exact hlone q (Or.inr ⟨hq, halone⟩)
      · simp only [MediaRegion.AloneAmong, not_forall, ne_eq, not_not] at halone
        obtain ⟨r, hr, hs⟩ := halone
        exact hconflict _ ⟨r, hr, q, hq, hs, rfl, fun hh => hun ⟨r, hr, hs, hh.symm⟩⟩

end PrefixEntry

/-! ## What a hit reuses -/

private theorem findNearestSnapshot_le (target : Nat) : ∀ (snaps : List (CacheSnapshot A V))
    (best : Option (CacheSnapshot A V)), (∀ b ∈ best, b.tokenCount ≤ target) →
    ∀ b ∈ snaps.foldl (fun best snap =>
      if snap.tokenCount ≤ target ∧ best.all (fun b => b.tokenCount < snap.tokenCount)
      then some snap else best) best, b.tokenCount ≤ target := by
  intro snaps
  induction snaps with
  | nil => intro best h; simpa using h
  | cons snap snaps ih =>
    intro best h
    rw [List.foldl_cons]
    refine ih _ ?_
    split
    · rename_i hsnap
      simpa using hsnap.1
    · exact h

/-- A snapshot is never taken from beyond the target. -/
theorem PrefixEntry.getSnapshot_le (lib : MlxLm A V) (e : PrefixEntry Token A V) (target : Nat) :
    (e.getSnapshot lib target).1 ≤ target := by
  unfold getSnapshot
  split
  · exact Nat.le_refl target
  · split
    · exact Nat.zero_le target
    · rename_i snap hsnap
      exact findNearestSnapshot_le target _ none (by simp) snap hsnap

namespace KVPrefixCache

variable [DecidableEq Token]

/-- The search ends with the length one of the entries serves. -/
theorem findBest_spec (prompt : List Token) (query : MediaRegions) :
    ∀ (entries : List (PrefixEntry Token A V)) (i : Nat) (best : Option Nat × Nat),
    let found := findBest prompt query i best entries
    (found.1 = best.1 ∧ found.2.1 = best.2 ∧ found.2.2 = false) ∨
      ∃ j e, entries[j]? = some e ∧ found.1 = some (i + j) ∧
        found.2.1 = e.matchLength prompt query ∧
        (found.2.2 = true → prompt.length - 1 ≤ found.2.1) := by
  intro entries
  induction entries with
  | nil => intro i best; exact Or.inl ⟨rfl, rfl, rfl⟩
  | cons e entries ih =>
    intro i best
    -- a later entry found at `j` stands at `j + 1` of the whole list
    have hlater : ∀ best', let found := findBest prompt query (i + 1) best' entries
        (found.1 = best'.1 ∧ found.2.1 = best'.2 ∧ found.2.2 = false) ∨
          ∃ j e', (e :: entries)[j]? = some e' ∧ found.1 = some (i + j) ∧
            found.2.1 = e'.matchLength prompt query ∧
            (found.2.2 = true → prompt.length - 1 ≤ found.2.1) := by
      intro best'
      refine (ih (i + 1) best').imp_right fun ⟨j, e', hj, hidx, h⟩ => ?_
      exact ⟨j + 1, e', by simpa using hj, by rw [hidx]; congr 1; omega, h⟩
    simp only [findBest]
    split
    · rename_i hexact
      exact Or.inr ⟨0, e, rfl, rfl, rfl, fun _ => hexact⟩
    · split
      · obtain ⟨h1, h2, h3⟩ | hfound := hlater (some i, e.matchLength prompt query)
        · exact Or.inr ⟨0, e, rfl, h1, h2, by simp [h3]⟩
        · exact Or.inr hfound
      · exact hlater best

omit [DecidableEq Token] in
theorem restorePoint_le (lib : MlxLm A V) (e : PrefixEntry Token A V)
    {maxLength bestLength : Nat} {isExact : Bool}
    (h : isExact = true → maxLength - 1 ≤ bestLength) :
    (restorePoint lib e maxLength bestLength isExact).1 ≤ bestLength := by
  refine Nat.le_trans (e.getSnapshot_le lib _) ?_
  split
  · exact Nat.le_refl bestLength
  · refine Nat.le_trans (Nat.min_le_right _ _) ?_
    split
    · rename_i hexact
      exact h hexact
    · exact Nat.le_refl bestLength

/-- A hit comes from one entry and reuses no more than the length that entry serves. -/
theorem getKvCache_spec (lib : MlxLm A V) (fresh : List (LayerCache A V))
    (kv : KVPrefixCache Token A V) (prompt : List Token) (query : MediaRegions) {i : Nat}
    (hi : (kv.getKvCache lib fresh prompt query).1.matchedIndex = some i) :
    ∃ e n snap, kv.entries[i]? = some e ∧ n ≤ e.matchLength prompt query ∧
      (kv.getKvCache lib fresh prompt query).1.cache = rollBack lib e n snap ∧
      (kv.getKvCache lib fresh prompt query).1.remaining = prompt.drop n := by
  have hfound := findBest_spec prompt query kv.entries 0 (none, 0)
  simp only [getKvCache] at hi ⊢
  generalize findBest prompt query 0 (none, 0) kv.entries = found at hi hfound ⊢
  obtain ⟨bestIndex, bestLength, isExact⟩ := found
  obtain ⟨rfl, -, -⟩ | ⟨j, e, hj, rfl, rfl, hexact⟩ := hfound
  · simp at hi
  · simp only [Nat.zero_add, Option.bind_some, hj, Option.map_some] at hi ⊢
    split at hi
    · cases hi
    · rename_i hsnap
      rw [if_neg hsnap]
      obtain rfl := Option.some.inj hi
      exact ⟨e, _, _, hj, restorePoint_le lib e hexact, rfl, rfl⟩

/--
**A match stays clear of unmatched media exactly when every one-sided region is guarded.**

For each entry this is about the length the search computes. What the hit then reuses is no
longer than that.
-/
theorem prefix_reuse_mediaSafe_iff (lib : MlxLm A V) (fresh : List (LayerCache A V))
    (kv : KVPrefixCache Token A V) (prompt : List Token) (query : MediaRegions) :
    (∀ e ∈ kv.entries, MediaSafe (e.matchLength prompt query) e.mediaRegions query ↔
      Guarded (getPrefixLength prompt e.prompt) e.mediaRegions query) ∧
    ∀ i, (kv.getKvCache lib fresh prompt query).1.matchedIndex = some i →
      ∃ e, kv.entries[i]? = some e ∧
        (Guarded (getPrefixLength prompt e.prompt) e.mediaRegions query →
          MediaSafe (prompt.length - (kv.getKvCache lib fresh prompt query).1.remaining.length)
            e.mediaRegions query) := by
  refine ⟨fun e _ => e.mediaSafe_matchLength_iff prompt query, fun i hi => ?_⟩
  obtain ⟨e, n, _, he, hn, _, hremaining⟩ := getKvCache_spec lib fresh kv prompt query hi
  refine ⟨e, he, fun hguard => ?_⟩
  have hsafe := (e.mediaSafe_matchLength_iff prompt query).mpr hguard
  have hreused : prompt.length -
      (kv.getKvCache lib fresh prompt query).1.remaining.length ≤ e.matchLength prompt query := by
    rw [hremaining, List.length_drop]
    omega
  exact ⟨fun r hr hun p hp => Nat.le_trans hreused (hsafe.1 r hr hun p hp),
    fun r hr hun p hp => Nat.le_trans hreused (hsafe.2 r hr hun p hp)⟩

/-- An entry stored without regions serves the placeholders of an image. -/
theorem prefix_reuse_not_mediaSafe :
    let kv : KVPrefixCache Nat Unit Unit := addKvCache 0 {} [5, 0, 0, 6] [] none .empty
    let query := MediaRegions.findMediaRegions [5, 0, 0, 6] ["image"] 0
    ¬ ∀ e ∈ kv.entries, MediaSafe (e.matchLength [5, 0, 0, 6] query) e.mediaRegions query := by
  intro kv query h
  obtain ⟨_, hquery⟩ := h ⟨[5, 0, 0, 6], [], none, .empty, 1⟩ (by decide)
  have himage : (⟨"image", 1, 3, by decide⟩ : MediaRegion) ∈ query.toList := by decide
  have hle : PrefixEntry.matchLength (A := Unit) (V := Unit) ⟨[5, 0, 0, 6], [], none, .empty, 1⟩
      [5, 0, 0, 6] query ≤ 1 :=
    hquery _ himage (fun ⟨_, hr', _⟩ => absurd hr' (List.not_mem_nil)) 1 ⟨by decide, by decide⟩
  exact absurd hle (by decide)

end KVPrefixCache

end Exo
