import Mathlib.Logic.Basic

/-!
# Generators

A generator reads a stream item by item. For each it yields some items of its own, and goes on or
leaves the loop. It may yield something behind the last item.
-/

namespace Exo.Lib

universe u v w

/-- A loop over a stream with variables in `σ`. -/
structure Generator (σ : Type u) (α : Type v) (β : Type w) where
  /-- What is yielded for an item, and the variables behind it; `none` where the loop is left. -/
  step : σ → α → List β × Option σ
  /-- What is yielded behind the last item. -/
  atEnd : σ → List β := fun _ => []

namespace Generator

variable {σ : Type u} {α : Type v} {β : Type w}

def output (g : Generator σ α β) : σ → List α → List β
  | s, [] => g.atEnd s
  | s, a :: as =>
    match g.step s a with
    | (bs, none) => bs
    | (bs, some s') => bs ++ g.output s' as

variable {g : Generator σ α β} {s s' : σ} {a : α} {bs : List β}

theorem output_cons (h : g.step s a = (bs, some s')) (as : List α) :
    g.output s (a :: as) = bs ++ g.output s' as := by
  rw [output, h]

theorem output_leave (h : g.step s a = (bs, none)) (as : List α) : g.output s (a :: as) = bs := by
  rw [output, h]

end Generator

end Exo.Lib
