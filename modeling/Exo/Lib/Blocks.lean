import Mathlib.Data.List.Basic

/-!
# Streams of blocks

A stream opens, fills and closes blocks, one at a time, and numbers them. `blockEvents` is what
such a stream looks like as a whole, `BlockScan` reads one event after the other. The two agree:
a scan goes through, and ends between two blocks, exactly on the streams of whole blocks.
-/

namespace Exo.Lib

universe u v

inductive BlockEvent (κ : Type u) (π : Type v) where
  | start (index : Int) (kind : κ)
  | delta (index : Int) (kind : κ) (payload : π)
  | stop (index : Int)
  deriving DecidableEq, Repr

/-- A block, with what its deltas carry. -/
structure Block (κ : Type u) (π : Type v) where
  kind : κ
  payloads : List π

variable {κ : Type u} {π : Type v}

/-- The events of one block. -/
def Block.events (b : Block κ π) (index : Int) : List (BlockEvent κ π) :=
  .start index b.kind :: (b.payloads.map (.delta index b.kind) ++ [.stop index])

/-- The events of blocks, numbered from `index` on. -/
def blockEvents (index : Int) : List (Block κ π) → List (BlockEvent κ π)
  | [] => []
  | b :: blocks => b.events index ++ blockEvents (index + 1) blocks

/-- Where a scan is: the block that is open or comes next, and the kind of the open one. -/
structure BlockScan (κ : Type u) where
  index : Int
  opened : Option κ := none
  deriving DecidableEq

namespace BlockScan

variable [DecidableEq κ]

/-- Reads an event; `none` is an event out of place. -/
def step (s : BlockScan κ) : BlockEvent κ π → Option (BlockScan κ)
  | .start i k => if s.opened = none ∧ i = s.index then some { s with opened := some k } else none
  | .delta i k _ => if s.opened = some k ∧ i = s.index then some s else none
  | .stop i => if s.opened.isSome ∧ i = s.index then some ⟨s.index + 1, none⟩ else none

def run (s : BlockScan κ) : List (BlockEvent κ π) → Option (BlockScan κ)
  | [] => some s
  | e :: events => (s.step e).bind fun s' => s'.run events

variable {i : Int} {k : κ}

theorem run_start (events : List (BlockEvent κ π)) :
    run ⟨i, none⟩ (.start i k :: events) = run ⟨i, some k⟩ events := by
  simp [run, step]

theorem run_deltas (payloads : List π) (events : List (BlockEvent κ π)) :
    run ⟨i, some k⟩ (payloads.map (.delta i k) ++ events) = run ⟨i, some k⟩ events := by
  induction payloads with
  | nil => rfl
  | cons p payloads ih => simpa [run, step] using ih

theorem run_stop (events : List (BlockEvent κ π)) :
    run ⟨i, some k⟩ (.stop i :: events) = run ⟨i + 1, none⟩ events := by
  simp [run, step]

theorem run_block (b : Block κ π) (events : List (BlockEvent κ π)) :
    run ⟨i, none⟩ (b.events i ++ events) = run ⟨i + 1, none⟩ events := by
  rw [Block.events, List.cons_append, run_start, List.append_assoc, run_deltas]
  exact run_stop events

/-- What a scan reads: whole blocks, after the rest of the block that is open. -/
theorem blocks_of_run : ∀ (events : List (BlockEvent κ π)) (i : Int),
    (∀ j, run ⟨i, none⟩ events = some ⟨j, none⟩ → ∃ blocks, events = blockEvents i blocks)
      ∧ ∀ k j, run ⟨i, some k⟩ events = some ⟨j, none⟩ →
        ∃ (payloads : List π) (blocks : List (Block κ π)),
          events = payloads.map (.delta i k) ++ .stop i :: blockEvents (i + 1) blocks := by
  intro events
  induction events with
  | nil => exact fun i => ⟨fun _ _ => ⟨[], rfl⟩, fun k j h => by cases h⟩
  | cons e events ih =>
      intro i
      constructor
      · intro j h
        cases e with
        | start i' k =>
            by_cases hi : i' = i
            · subst hi
              rw [run_start] at h
              obtain ⟨payloads, blocks, hrest⟩ := (ih i').2 k j h
              exact ⟨⟨k, payloads⟩ :: blocks, by simp [hrest, blockEvents, Block.events]⟩
            · simp [run, step, hi] at h
        | delta i' k p => simp [run, step] at h
        | stop i' => simp [run, step] at h
      · intro k j h
        cases e with
        | start i' k' => simp [run, step] at h
        | delta i' k' p =>
            by_cases hin : k = k' ∧ i' = i
            · obtain ⟨rfl, rfl⟩ := hin
              have hrun : run ⟨i', some k⟩ events = some ⟨j, none⟩ := by
                simpa [run, step] using h
              obtain ⟨payloads, blocks, hrest⟩ := (ih i').2 k j hrun
              exact ⟨p :: payloads, blocks, by rw [hrest]; rfl⟩
            · simp [run, step, hin] at h
        | stop i' =>
            by_cases hi : i' = i
            · subst hi
              rw [run_stop] at h
              obtain ⟨blocks, hrest⟩ := (ih (i' + 1)).1 j h
              exact ⟨[], blocks, by rw [hrest]; rfl⟩
            · simp [run, step, hi] at h

/-- **A scan goes through exactly on whole blocks.** -/
theorem run_eq_some_iff {events : List (BlockEvent κ π)} :
    (∃ j, run ⟨i, none⟩ events = some ⟨j, none⟩) ↔ ∃ blocks, events = blockEvents i blocks := by
  constructor
  · intro ⟨j, h⟩
    exact (blocks_of_run events i).1 j h
  · intro ⟨blocks, h⟩
    subst h
    induction blocks generalizing i with
    | nil => exact ⟨i, rfl⟩
    | cons b blocks ih =>
        obtain ⟨j, hj⟩ := ih (i := i + 1)
        exact ⟨j, by rw [blockEvents, run_block, hj]⟩

end BlockScan

end Exo.Lib
