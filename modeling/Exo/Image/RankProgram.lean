import Exo.Image.DiffusionRunner

/-!
# Rules for rank programs

`Ends R p Q F`: with messages that answer their receives as `R` says, `p` ends with a result in
`Q`, or with a failed assertion in `F`. One rule for each way a program is put together.
-/

namespace Exo

open Lib

variable {X E Q α β : Type}

def Ends (R : ArrayMsg X → ArrayMsg X → Prop) (p : RankProgram X α) (post : α → Prop)
    (fail : AssertionError → Prop) : Prop :=
  Proc.EnsuresOn R (fun | .ok a => post a | .error e => fail e) (ExceptT.run p)

variable {R S : ArrayMsg X → ArrayMsg X → Prop} {post post' : α → Prop}
  {fail fail' : AssertionError → Prop}

variable {p : RankProgram X α}

theorem Ends.mono (h : Ends R p post fail) (hS : ∀ w m, S w m → R w m)
    (hp : ∀ a, post a → post' a) (hf : ∀ e, fail e → fail' e) : Ends S p post' fail' := by
  refine Proc.EnsuresOn.mono h hS fun x hx => ?_
  cases x with
  | ok a => exact hp a hx
  | error e => exact hf e hx

/-- A weaker postcondition. -/
theorem Ends.imp (h : Ends R p post fail) (hp : ∀ a, post a → post' a) :
    Ends R p post' fail :=
  h.mono (fun _ _ => id) hp fun _ => id

theorem Ends.and (h : Ends R p post fail) (h' : Ends R p post' fail') :
    Ends R p (fun a => post a ∧ post' a) fun e => fail e ∧ fail' e := by
  refine Proc.EnsuresOn.mono (Proc.EnsuresOn.and h h') (fun _ _ => id) fun x hx => ?_
  cases x with
  | ok a => exact hx
  | error e => exact hx

/-- Every program ends somehow. -/
theorem not_ends_false (hR : ∀ w, ∃ m, R w m) :
    ¬ Ends R p (fun _ => False) fun _ => False := by
  intro h
  refine Proc.EnsuresOn.not_false hR (Proc.EnsuresOn.mono h (fun _ _ => id) fun x hx => ?_)
  cases x with
  | ok a => exact hx
  | error e => exact hx

/-- **The rule for two programs one after the other.** -/
theorem Ends.bind {f : α → RankProgram X β} {post : β → Prop}
    (h : Ends R p (fun a => Ends R (f a) post fail) fail) : Ends R (p >>= f) post fail := by
  refine Proc.EnsuresOn.bind (Proc.EnsuresOn.mono h (fun _ _ => id) fun x hx => ?_)
  cases x with
  | ok a => exact hx
  | error e => exact hx

theorem Ends.pure {a : α} (h : post a) : Ends R (Pure.pure a) post fail := h

variable {e : AssertionError}

theorem Ends.assertSome {x : Option α} {a : α} (hx : x = some a)
    (h : post a) : Ends R (Exo.assertSome x e) post fail := by
  subst hx
  exact h

variable {x : Except AssertionError α}

theorem Ends.compute (h : ∃ a, x = .ok a ∧ post a) :
    Ends R (Exo.compute x) post fail := by
  obtain ⟨a, rfl, ha⟩ := h
  exact ha

theorem Ends.compute_error (hx : x = .error e)
    (h : fail e) : Ends R (Exo.compute x) post fail := by
  subst hx
  exact h

variable {s : RunnerState X E}

variable {r : DiffusionRunner X E Q}

theorem Ends.send {data : X} {dst : Nat}
    {post : X → Prop} (h : post (if s.cancelling then r.adapter.nan data else data)) :
    Ends R (r.send s data dst) post fail := h

/-- What a receive leaves: only `_cancelling` may be set. -/
def RunnerState.heard (s : RunnerState X E) (sentinel : Bool) : RunnerState X E :=
  if sentinel then { s with cancelling := true } else s

variable {post : X × RunnerState X E → Prop}

theorem Ends.recvLike {buffer : X} {src : Nat}
    (h : ∀ m, R ⟨buffer, false⟩ m → post (m.data, s.heard m.sentinel)) :
    Ends R (s.recvLike buffer src) post fail := h

theorem Ends.recv {shape : Shape} {src : Nat}
    (h : ∀ m, R ⟨r.adapter.empty shape, false⟩ m → post (m.data, s.heard m.sentinel)) :
    Ends R (r.recv s shape src) post fail := h

end Exo
