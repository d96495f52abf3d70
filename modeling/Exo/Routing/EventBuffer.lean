import Exo.Lib.Dict
import Exo.Lib.Sequence

/-!
# Resequencing buffers

`OrderedBuffer` takes numbered items in any order, with repeats, and releases
them in the order of their numbers. `MultiSourceBuffer` keeps one such buffer for
each source.

What a buffer is for is said by `OrderedBuffer.Tracks`: everything it stores is
the element of one sequence at that position. A buffer that tracks a sequence
never fails its assertion, and what it releases continues the sequence exactly
where it stopped.
-/

namespace Exo

open Lib

universe u v

/-- A buffer that resequences items to preserve their ordering. -/
structure OrderedBuffer (T : Type u) where
  store : Dict Nat T := .empty
  nextIdxToRelease : Nat := 0
  deriving DecidableEq

namespace OrderedBuffer

variable {T : Type u}

/-- Ingest an item. `none` is the failed assertion that equal indices carry equal items. -/
def ingest [DecidableEq T] (b : OrderedBuffer T) (idx : Nat) (t : T) : Option (OrderedBuffer T) :=
  if idx < b.nextIdxToRelease then
    some b
  else
    match b.store.get? idx with
    | some t' => if t' = t then some b else none
    | none => some { b with store := b.store.set idx t }

/-- The `while` loop of `drain_indexed`. A round pops one item, so `fuel` rounds are enough. -/
def drainLoop : Nat → OrderedBuffer T → List (Nat × T) × OrderedBuffer T
  | 0, b => ([], b)
  | fuel + 1, b =>
      match b.store.get? b.nextIdxToRelease with
      | none => ([], b)
      | some t =>
          let r := drainLoop fuel
            { store := b.store.erase b.nextIdxToRelease
              nextIdxToRelease := b.nextIdxToRelease + 1 }
          ((b.nextIdxToRelease, t) :: r.1, r.2)

/-- Drain all available items, with their indices. -/
def drainIndexed (b : OrderedBuffer T) : List (Nat × T) × OrderedBuffer T :=
  drainLoop b.store.entries.length b

/-- Drain all available items. -/
def drain (b : OrderedBuffer T) : List T × OrderedBuffer T :=
  (b.drainIndexed.1.map Prod.snd, b.drainIndexed.2)

/-- Everything in the buffer is the element of `seq` at its position. -/
structure Tracks (b : OrderedBuffer T) (seq : List T) : Prop where
  /-- The items released so far exist. -/
  released : b.nextIdxToRelease ≤ seq.length
  /-- A stored item is the one at its index. -/
  stored : ∀ i t, b.store.get? i = some t → seq[i]? = some t

theorem tracks_empty (seq : List T) : Tracks ({} : OrderedBuffer T) seq :=
  ⟨Nat.zero_le _, by simp⟩

variable {b : OrderedBuffer T}

/-- A longer sequence is tracked as well. -/
theorem Tracks.extend {seq seq' : List T} (h : b.Tracks seq)
    (hp : seq <+: seq') : b.Tracks seq' := by
  refine ⟨Nat.le_trans h.released hp.length_le, ?_⟩
  intro i t hs
  exact getElem?_extended hp (h.stored i t hs)

variable {seq : List T}

/-- **A tracking buffer accepts every true item, and goes on tracking.** -/
theorem Tracks.ingest [DecidableEq T] (h : b.Tracks seq) {idx : Nat} {t : T}
    (ht : seq[idx]? = some t) :
    ∃ b', b.ingest idx t = some b' ∧ b'.Tracks seq
      ∧ b'.nextIdxToRelease = b.nextIdxToRelease := by
  unfold OrderedBuffer.ingest
  by_cases hlt : idx < b.nextIdxToRelease
  · exact ⟨b, if_pos hlt, h, rfl⟩
  · rw [if_neg hlt]
    cases hs : b.store.get? idx with
    | some t' =>
        have htt : t' = t := by
          have := h.stored idx t' hs
          rw [ht] at this
          exact (Option.some.inj this).symm
        exact ⟨b, by simp [htt], h, rfl⟩
    | none =>
        refine ⟨_, rfl, ⟨h.released, ?_⟩, rfl⟩
        intro i u hu
        rw [Dict.get?_set] at hu
        split at hu
        · rename_i hi
          rw [hi, ← Option.some.inj hu]; exact ht
        · exact h.stored i u hu

/-- The loop releases the next elements of the sequence, one after the other. -/
theorem Tracks.drainLoop : ∀ (fuel : Nat) {b : OrderedBuffer T}, b.Tracks seq →
    (OrderedBuffer.drainLoop fuel b).2.Tracks seq
      ∧ enumerate (seq.take b.nextIdxToRelease) ++ (OrderedBuffer.drainLoop fuel b).1
          = enumerate (seq.take (OrderedBuffer.drainLoop fuel b).2.nextIdxToRelease)
  | 0, b, h => ⟨h, by simp [OrderedBuffer.drainLoop]⟩
  | fuel + 1, b, h => by
      rw [OrderedBuffer.drainLoop]
      cases hs : b.store.get? b.nextIdxToRelease with
      | none => exact ⟨h, by simp⟩
      | some t =>
          have ht := h.stored _ t hs
          have hstep : Tracks
              { store := b.store.erase b.nextIdxToRelease
                nextIdxToRelease := b.nextIdxToRelease + 1 } seq := by
            refine ⟨(List.getElem?_eq_some_iff.mp ht).1, ?_⟩
            intro i u hu
            rw [Dict.get?_erase] at hu
            split at hu
            · cases hu
            · exact h.stored i u hu
          obtain ⟨h1, h2⟩ := Tracks.drainLoop fuel hstep
          refine ⟨h1, ?_⟩
          rw [← h2, enumerate_take_succ ht, List.append_assoc]
          rfl

/-- **Draining continues the sequence where the last drain stopped.** -/
theorem Tracks.drainIndexed (h : b.Tracks seq) :
    b.drainIndexed.2.Tracks seq
      ∧ enumerate (seq.take b.nextIdxToRelease) ++ b.drainIndexed.1
          = enumerate (seq.take b.drainIndexed.2.nextIdxToRelease) :=
  h.drainLoop _

theorem Tracks.drain (h : b.Tracks seq) :
    b.drain.2.Tracks seq
      ∧ seq.take b.nextIdxToRelease ++ b.drain.1 = seq.take b.drain.2.nextIdxToRelease := by
  obtain ⟨h1, h2⟩ := h.drainIndexed
  refine ⟨h1, ?_⟩
  have := congrArg (List.map Prod.snd) h2
  rwa [List.map_append, map_snd_enumerate, map_snd_enumerate] at this

/-! ### What was ingested -/

/-- The item with this index was ingested. -/
def Has (b : OrderedBuffer T) (i : Nat) : Prop :=
  i < b.nextIdxToRelease ∨ (b.store.get? i).isSome

instance (b : OrderedBuffer T) (i : Nat) : Decidable (b.Has i) := inferInstanceAs (Decidable (_ ∨ _))

theorem Tracks.has (h : b.Tracks seq) {i : Nat}
    (hi : b.Has i) : i < seq.length := by
  rcases hi with hi | hi
  · exact Nat.lt_of_lt_of_le hi h.released
  · obtain ⟨t, ht⟩ := Option.isSome_iff_exists.mp hi
    exact (List.getElem?_eq_some_iff.mp (h.stored i t ht)).1

theorem has_ingest [DecidableEq T] {b b' : OrderedBuffer T} {idx : Nat} {t : T}
    (h : b.ingest idx t = some b') (i : Nat) : b'.Has i ↔ b.Has i ∨ i = idx := by
  unfold ingest at h
  split at h
  · rename_i hlt
    obtain rfl := Option.some.inj h
    refine ⟨.inl, ?_⟩
    rintro (hi | rfl)
    · exact hi
    · exact .inl hlt
  · split at h
    · rename_i t' ht'
      split at h
      · obtain rfl := Option.some.inj h
        refine ⟨.inl, ?_⟩
        rintro (hi | rfl)
        · exact hi
        · exact .inr (by rw [ht']; rfl)
      · cases h
    · obtain rfl := Option.some.inj h
      simp only [Has, Dict.get?_set]
      split
      · rename_i hi
        simp [hi]
      · rename_i hi
        simp [hi]

theorem has_drainLoop (fuel : Nat) (b : OrderedBuffer T) (i : Nat) :
    (drainLoop fuel b).2.Has i ↔ b.Has i := by
  induction fuel generalizing b with
  | zero => rfl
  | succ fuel ih =>
      rw [drainLoop]
      cases hs : b.store.get? b.nextIdxToRelease with
      | none => rfl
      | some t =>
          rw [ih]
          simp only [Has, Dict.get?_erase]
          by_cases hi : i = b.nextIdxToRelease
          · subst hi
            simp [hs]
          · rw [if_neg hi]
            have : i < b.nextIdxToRelease + 1 ↔ i < b.nextIdxToRelease := by omega
            rw [this]

theorem has_drainIndexed (b : OrderedBuffer T) (i : Nat) : b.drainIndexed.2.Has i ↔ b.Has i :=
  has_drainLoop _ b i

theorem le_drainLoop (fuel : Nat) (b : OrderedBuffer T) :
    b.nextIdxToRelease ≤ (drainLoop fuel b).2.nextIdxToRelease := by
  induction fuel generalizing b with
  | zero => exact Nat.le_refl _
  | succ fuel ih =>
      rw [drainLoop]
      split
      · exact Nat.le_refl _
      · have hrest := ih
          { store := b.store.erase b.nextIdxToRelease, nextIdxToRelease := b.nextIdxToRelease + 1 }
        exact Nat.le_trans (Nat.le_succ _) hrest

theorem le_drain (b : OrderedBuffer T) : b.nextIdxToRelease ≤ b.drain.2.nextIdxToRelease :=
  le_drainLoop _ b

/-- **A buffer that has the next item releases it.** -/
theorem lt_drain (h : b.Has b.nextIdxToRelease) :
    b.nextIdxToRelease < b.drain.2.nextIdxToRelease := by
  rcases h with h | h
  · exact absurd h (Nat.lt_irrefl _)
  · obtain ⟨t, ht⟩ := Option.isSome_iff_exists.mp h
    have hpos : b.store.entries.length ≠ 0 := by
      intro hnil
      have hmem := Dict.mem_entries.2 ht
      rw [List.length_eq_zero_iff.mp hnil] at hmem
      cases hmem
    obtain ⟨fuel, hfuel⟩ := Nat.exists_eq_succ_of_ne_zero hpos
    have hstep := le_drainLoop fuel
      { store := b.store.erase b.nextIdxToRelease, nextIdxToRelease := b.nextIdxToRelease + 1 }
    unfold drain drainIndexed
    rw [hfuel, drainLoop, ht]
    exact hstep

end OrderedBuffer

/-- A buffer that resequences the items of several sources. -/
structure MultiSourceBuffer (S : Type v) (T : Type u) where
  stores : Dict S (OrderedBuffer T) := .empty

namespace MultiSourceBuffer

variable {S : Type v} {T : Type u} [DecidableEq S]

def ingest [DecidableEq T] (m : MultiSourceBuffer S T) (idx : Nat) (t : T) (source : S) :
    Option (MultiSourceBuffer S T) :=
  let buffer := (m.stores.get? source).getD {}
  (buffer.ingest idx t).map fun b => { stores := m.stores.set source b }

/-- Drain every source in turn. -/
def drain (m : MultiSourceBuffer S T) : List T × MultiSourceBuffer S T :=
  (m.stores.entries.flatMap fun e => e.2.drain.1,
    { stores := m.stores.mapValues fun _ b => b.drain.2 })

/-- The index the buffer of a source releases next. -/
def next (m : MultiSourceBuffer S T) (source : S) : Nat :=
  ((m.stores.get? source).getD {}).nextIdxToRelease

/-- The buffer of each source tracks that source's sequence. -/
def Tracks (m : MultiSourceBuffer S T) (seq : S → List T) : Prop :=
  ∀ source, ((m.stores.get? source).getD {}).Tracks (seq source)

theorem tracks_empty (seq : S → List T) : Tracks ({} : MultiSourceBuffer S T) seq :=
  fun source => OrderedBuffer.tracks_empty (seq source)

variable {m : MultiSourceBuffer S T}

theorem Tracks.extend {seq seq' : S → List T} (h : m.Tracks seq)
    (hp : ∀ source, seq source <+: seq' source) : m.Tracks seq' :=
  fun source => (h source).extend (hp source)

variable {seq : S → List T}

/-- **A tracking buffer accepts every true item of every source.** -/
theorem Tracks.ingest [DecidableEq T]
    (h : m.Tracks seq) {idx : Nat} {t : T} {source : S} (ht : (seq source)[idx]? = some t) :
    ∃ m', m.ingest idx t source = some m' ∧ m'.Tracks seq ∧ ∀ s, m'.next s = m.next s := by
  obtain ⟨b, hb, htr, hnx⟩ := (h source).ingest ht
  refine ⟨{ stores := m.stores.set source b }, by simp [MultiSourceBuffer.ingest, hb], ?_, ?_⟩
  · intro s
    rw [Dict.get?_set]
    split
    · rename_i hs; subst hs; exact htr
    · exact h s
  · intro s
    unfold next
    rw [Dict.get?_set]
    split
    · rename_i hs; subst hs; exact hnx
    · rfl

theorem drain_store (m : MultiSourceBuffer S T) (source : S) :
    ((m.drain.2.stores.get? source).getD {}) = ((m.stores.get? source).getD {}).drain.2 := by
  rw [drain, Dict.get?_mapValues]
  cases m.stores.get? source <;> rfl

theorem Tracks.drain (h : m.Tracks seq) :
    m.drain.2.Tracks seq := by
  intro source
  rw [drain_store]
  exact (h source).drain.1

/--
**What is drained continues each source where it stopped.** `p` picks out the
items of one source: the drained items it keeps are the next ones of that source.
-/
theorem Tracks.drain_filter (h : m.Tracks seq)
    {p : T → Bool} {source : S} (hin : ∀ t ∈ seq source, p t)
    (hout : ∀ s, s ≠ source → ∀ t ∈ seq s, p t = false) :
    (seq source).take (m.next source) ++ m.drain.1.filter p
      = (seq source).take (m.drain.2.next source) := by
  have hpart : ∀ s (b : OrderedBuffer T), m.stores.get? s = some b → ∀ t ∈ b.drain.1, t ∈ seq s := by
    intro s b hb t ht
    have hs := h s
    rw [hb] at hs
    have hd := hs.drain.2
    have hmem : t ∈ (seq s).take b.drain.2.nextIdxToRelease :=
      hd ▸ List.mem_append_right _ ht
    exact List.mem_of_mem_take hmem
  have hflat : m.drain.1.filter p = (((m.stores.get? source).getD {}).drain.1).filter p := by
    rw [MultiSourceBuffer.drain, List.filter_flatMap, Dict.flatMap_entries _ _ source]
    · cases m.stores.get? source <;> rfl
    · intro e he hne
      rw [List.filter_eq_nil_iff]
      intro t ht
      have := hout e.1 hne t (hpart e.1 e.2 (Dict.mem_entries.1 he) t ht)
      simp [this]
  have hd := (h source).drain.2
  have hall : ∀ t ∈ ((m.stores.get? source).getD {}).drain.1, p t := by
    intro t ht
    exact hin t (List.mem_of_mem_take (hd ▸ List.mem_append_right _ ht))
  rw [hflat, List.filter_eq_self.mpr hall, next, next, drain_store]
  exact hd

end MultiSourceBuffer

end Exo
