import Mathlib.Data.List.Basic

/-!
# Answers in fragments

An answer is sent whole or in fragments. A client appends the fragments of the text and of the
thinking, collects the calls of tools, and takes the ending from the fragment that has one. A stream of
fragments agrees with a whole answer when exactly the last fragment has an ending and what the client
has then is the answer.
-/

namespace Exo.Lib

universe u v

variable {γ : Type u} {ε : Type v}

/-- How a stream ends. -/
inductive Finish (ε : Type v) where
  | failed
  | finished (ending : ε)
deriving DecidableEq

structure Fragment (γ : Type u) (ε : Type v) where
  text : Option String := none
  thinking : Option String := none
  toolCalls : List γ := []
  finish : Option (Finish ε) := none

structure Answer (γ : Type u) (ε : Type v) where
  text : String
  thinking : Option String
  toolCalls : List γ
  ending : ε

/-- What parts make together. No parts make nothing. -/
def joinParts : List String → Option String
  | [] => none
  | part :: parts => some (String.join (part :: parts))

namespace Fragment

/-- What a client has read. -/
def accumulate (fragments : List (Fragment γ ε)) (ending : ε) : Answer γ ε where
  text := String.join (fragments.filterMap (·.text))
  thinking := joinParts (fragments.filterMap (·.thinking))
  toolCalls := fragments.flatMap (·.toolCalls)
  ending := ending

/-- The last fragment ends the stream, no other one does, and the client has the answer; or there is
no answer, and the stream fails. -/
structure Agrees (fragments : List (Fragment γ ε)) (answer : Option (Answer γ ε)) : Prop where
  ends : ∃ before last finish, fragments = before ++ [last] ∧ (∀ f ∈ before, f.finish = none)
    ∧ last.finish = some finish
    ∧ match finish with
      | .failed => answer = none
      | .finished ending => answer = some (accumulate fragments ending)

variable {fragments before : List (Fragment γ ε)} {last : Fragment γ ε}
  {answer : Option (Answer γ ε)} {ending : ε}

/-- A stream that never ends agrees with nothing. -/
theorem not_agrees (h : ∀ f ∈ fragments, f.finish = none) : ¬ Agrees fragments answer := by
  intro hagrees
  obtain ⟨before, last, finish, rfl, -, hlast, -⟩ := hagrees.ends
  rw [h last (List.mem_append_right before (List.mem_singleton_self last))] at hlast
  cases hlast

theorem agrees_iff_of_finished (hbefore : ∀ f ∈ before, f.finish = none)
    (hlast : last.finish = some (.finished ending)) :
    Agrees (before ++ [last]) answer ↔ answer = some (accumulate (before ++ [last]) ending) := by
  constructor
  · intro h
    obtain ⟨before', last', finish, heq, -, hlast', hanswer⟩ := h.ends
    obtain ⟨rfl, hsingle⟩ := List.append_inj' heq rfl
    obtain rfl := List.head_eq_of_cons_eq hsingle
    obtain rfl := Option.some.inj (hlast.symm.trans hlast')
    exact hanswer
  · intro h
    exact ⟨before, last, _, rfl, hbefore, hlast, h⟩

theorem agrees_of_failed (hbefore : ∀ f ∈ before, f.finish = none)
    (hlast : last.finish = some .failed) : Agrees (before ++ [last]) (none : Option (Answer γ ε)) :=
  ⟨before, last, _, rfl, hbefore, hlast, rfl⟩

end Fragment

/-- Parts that come once more, in one piece, are without effect when they are empty. -/
theorem joinParts_append_joinParts (parts : List String) :
    joinParts (parts ++ (joinParts parts).toList) = joinParts parts ↔ String.join parts = "" := by
  cases parts with
  | nil => exact iff_of_true rfl String.join_nil
  | cons part parts =>
      have htwice : joinParts (part :: parts ++ (joinParts (part :: parts)).toList)
          = some (String.join (part :: parts) ++ String.join (part :: parts)) := by
        show some (String.join (part :: parts ++ [String.join (part :: parts)])) = _
        rw [String.join_append, String.join_cons (l := [])]
        simp
      rw [htwice, joinParts, Option.some_inj]
      constructor
      · intro h
        have hlength := congrArg String.length h
        rw [String.length_append] at hlength
        exact String.length_eq_zero_iff.mp (by omega)
      · intro h
        rw [h, String.append_empty]

end Exo.Lib
