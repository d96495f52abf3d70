import Mathlib.Data.List.Basic

/-!
# Frames one behind the other

A file that is only written at its end is a list of frames one behind the other. `offset` is where a
frame starts. `Holds` says that a file has the first frames whole, whatever stands behind them; it
survives everything that is written later.
-/

namespace Exo.Lib.Framing

universe u

variable {β : Type u} {frames : List (List β)} {frame bytes : List β} {i m : Nat}

/-- Where frame `i` starts. -/
def offset (frames : List (List β)) (i : Nat) : Nat := (frames.take i).flatten.length

/-- The bytes begin with the first `m` frames. -/
def Holds (bytes : List β) (frames : List (List β)) (m : Nat) : Prop :=
  (frames.take m).flatten <+: bytes

theorem take_succ_flatten (h : frames[i]? = some frame) :
    (frames.take (i + 1)).flatten = (frames.take i).flatten ++ frame := by
  rw [List.take_add_one, h, Option.toList_some, List.flatten_append, List.flatten_singleton]

theorem offset_succ (h : frames[i]? = some frame) :
    offset frames (i + 1) = offset frames i + frame.length := by
  rw [offset, offset, take_succ_flatten h, List.length_append]

/-- A frame stays where it is when frames are written behind it. -/
theorem offset_append (h : i ≤ frames.length) (more : List (List β)) :
    offset (frames ++ more) i = offset frames i := by
  rw [offset, offset, List.take_append_of_le_length h]

theorem Holds.trans (h : Holds bytes frames m) {bytes' : List β} (hgrown : bytes <+: bytes') :
    Holds bytes' frames m :=
  List.IsPrefix.trans h hgrown

theorem Holds.append (h : Holds bytes frames m) (hm : m ≤ frames.length)
    (more : List (List β)) : Holds bytes (frames ++ more) m := by
  rw [Holds, List.take_append_of_le_length hm]
  exact h

/-- A frame that is held stands at its offset. -/
theorem Holds.exists_append (h : Holds bytes frames m) (hi : i < m)
    (hframe : frames[i]? = some frame) :
    ∃ front rest, bytes = front ++ (frame ++ rest) ∧ front.length = offset frames i := by
  obtain ⟨tail, rfl⟩ := h
  obtain ⟨between, hbetween⟩ : frames.take (i + 1) <+: frames.take m :=
    List.take_prefix_take_left hi
  refine ⟨(frames.take i).flatten, between.flatten ++ tail, ?_, rfl⟩
  rw [← hbetween, List.flatten_append, take_succ_flatten hframe]
  simp only [List.append_assoc]

end Exo.Lib.Framing
