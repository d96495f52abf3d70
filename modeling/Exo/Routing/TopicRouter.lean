import Exo.Lib.Machine
import Mathlib.Data.Finset.SDiff
import Mathlib.Data.Finset.Erase

/-!
# The router of one topic

Two tasks publish on a topic: `run` what this node sends, `_networking_recv` what comes from the
network. Each goes over a copy of `senders`, while receivers come and close and the other task
publishes. A sender has the name of its receiver. What was taken and published so far, and how much
when a receiver came, are ghosts.
-/

namespace Exo

open Lib (Machine)

inductive PublishPolicy where
  | never | minimal | always
  deriving DecidableEq

/-- The tasks that call `publish`. -/
inductive Publisher where
  | run | networkingRecv
  deriving DecidableEq

/-- Where such a task is; in `_send_out`, with whether it publishes after. -/
inductive PublisherPhase (α : Type) where
  | waiting
  | sendingOut (item : α) (publishes : Bool)
  | publishing (item : α) (copy toClear : Finset Nat)

structure Subscription (α : Type) where
  isOpen : Bool := true
  received : List (Publisher × α) := []
  /-- How much each task had begun to publish when the receiver came. -/
  since : Publisher → Nat

structure TopicRouter (α : Type) where
  publishPolicy : PublishPolicy
  senders : Finset Nat := ∅
  networkingSender : List α := []
  subscription : Nat → Option (Subscription α) := fun _ => none
  phase : Publisher → PublisherPhase α := fun _ => .waiting
  /-- What `run` has taken, with whether there were no senders. -/
  taken : List (α × Bool) := []
  began : Publisher → List α := fun _ => []

inductive TopicAction (α : Type) where
  /-- `Router.receiver` -/
  | receiver (i : Nat)
  | close (i : Nat)
  /-- `run` has its next item. -/
  | next (item : α)
  | sentOut
  /-- `publish_bytes`, once the bytes are read -/
  | publishBytes (item : α)
  | sendTo (p : Publisher) (i : Nat)
  | clear (p : Publisher)

variable {α : Type}

namespace PublishPolicy

/-- An item goes out to the network. -/
@[grind =] def goesOut (policy : PublishPolicy) (t : α × Bool) : Bool :=
  policy = .always ∨ policy = .minimal ∧ t.2

/-- An item is published on this node. -/
@[grind =] def publishes (policy : PublishPolicy) (t : α × Bool) : Bool :=
  ¬ (t.2 ∧ policy = .minimal)

end PublishPolicy

namespace TopicRouter

/-- `publish` makes its copy. -/
def publish (r : TopicRouter α) (p : Publisher) (item : α) : TopicRouter α :=
  { r with
    phase := Function.update r.phase p (.publishing item r.senders ∅)
    began := Function.update r.began p (r.began p ++ [item]) }

/-- `run` with its next item. -/
def take (r : TopicRouter α) (item : α) : TopicRouter α :=
  if r.senders = ∅ ∧ r.publishPolicy = .minimal then
    { r with phase := Function.update r.phase .run (.sendingOut item false) }
  else if r.publishPolicy = .always then
    { r with phase := Function.update r.phase .run (.sendingOut item true) }
  else r.publish .run item

/-- `sender.send(item)` in the loop of `publish`. -/
def sendTo (r : TopicRouter α) (p : Publisher) (i : Nat) (item : α) (copy toClear : Finset Nat)
    (s : Subscription α) : TopicRouter α :=
  if s.isOpen then
    { r with
      phase := Function.update r.phase p (.publishing item (copy.erase i) toClear)
      subscription := Function.update r.subscription i
        (some { s with received := s.received ++ [(p, item)] }) }
  else
    { r with
      phase := Function.update r.phase p (.publishing item (copy.erase i) (insert i toClear)) }

def step (r : TopicRouter α) : TopicAction α → Option (TopicRouter α)
  | .receiver i =>
      if (r.subscription i).isSome then none
      else some { r with
        senders := insert i r.senders
        subscription := Function.update r.subscription i
          (some { since := fun p => (r.began p).length }) }
  | .close i => (r.subscription i).map fun s =>
      { r with
        subscription := Function.update r.subscription i (some { s with isOpen := false }) }
  | .next item =>
      match r.phase .run with
      | .waiting => some
          ({ r with taken := r.taken ++ [(item, decide (r.senders = ∅))] }.take item)
      | _ => none
  | .sentOut =>
      match r.phase .run with
      | .sendingOut item publishes =>
          let r := { r with networkingSender := r.networkingSender ++ [item] }
          some (if publishes then r.publish .run item
            else { r with phase := Function.update r.phase .run .waiting })
      | _ => none
  | .publishBytes item =>
      match r.phase .networkingRecv with
      | .waiting => some (r.publish .networkingRecv item)
      | _ => none
  | .sendTo p i =>
      match r.phase p with
      | .publishing item copy toClear =>
          if i ∈ copy then (r.subscription i).map (r.sendTo p i item copy toClear) else none
      | _ => none
  | .clear p =>
      match r.phase p with
      | .publishing _ copy toClear =>
          if copy = ∅ then some { r with
            senders := r.senders \ toClear
            phase := Function.update r.phase p .waiting }
          else none
      | _ => none

def machine (α : Type) (publishPolicy : PublishPolicy) :
    Machine (TopicRouter α) (TopicAction α) where
  init := { publishPolicy }
  step := step

/-! ## What comes of what is sent -/

/-- What a receiver got from one of the tasks. -/
def gotFrom (s : Subscription α) (p : Publisher) : List α :=
  (s.received.filter (·.1 = p)).map Prod.snd

/-- What a task has yet to give to a receiver. -/
@[grind =] def pending (i : Nat) : PublisherPhase α → List α
  | .publishing item copy _ => if i ∈ copy then [item] else []
  | _ => []

@[grind =] def goingOut : PublisherPhase α → List α
  | .sendingOut item _ => [item]
  | _ => []

@[grind =] def toPublish : PublisherPhase α → List α
  | .sendingOut item true => [item]
  | _ => []

@[grind =] def clearing : PublisherPhase α → Finset Nat
  | .publishing _ _ toClear => toClear
  | _ => ∅

/-- What one of the tasks gives to a receiver. -/
structure Gives (p : Publisher) (i : Nat) (s : Subscription α) (phase : PublisherPhase α)
    (began : List α) : Prop where
  since : s.since p ≤ began.length
  /-- Nothing but what was published since it came, in order and once. -/
  only : gotFrom s p <+: began.drop (s.since p)
  /-- While it is open, all of that but what is on its way. -/
  all : s.isOpen = true → gotFrom s p ++ pending i phase = began.drop (s.since p)

/-- What `run` does with what this node sends. -/
structure Routes (r : TopicRouter α) : Prop where
  goesOut : r.networkingSender ++ goingOut (r.phase .run)
    = (r.taken.filter r.publishPolicy.goesOut).map Prod.fst
  publishes : r.began .run ++ toPublish (r.phase .run)
    = (r.taken.filter r.publishPolicy.publishes).map Prod.fst

/-- What holds of the receivers and the loops. -/
structure Inv (r : TopicRouter α) : Prop where
  gives : ∀ p i s, r.subscription i = some s → Gives p i s (r.phase p) (r.began p)
  kept : ∀ i s, r.subscription i = some s → s.isOpen = true → i ∈ r.senders
  notCleared : ∀ p i s, r.subscription i = some s → s.isOpen = true → i ∉ clearing (r.phase p)
  /-- A name that is free is nowhere in use. -/
  free : ∀ i, r.subscription i = none → i ∉ r.senders
    ∧ ∀ p, pending i (r.phase p) = [] ∧ i ∉ clearing (r.phase p)

variable {r r' : TopicRouter α} {p : Publisher} {item : α} {a : TopicAction α}

/-- A task that begins to publish owes the item to every open receiver. -/
theorem Inv.publish (h : r.Inv) (hp : ∀ i, pending i (r.phase p) = []) (item : α) :
    (r.publish p item).Inv := by
  obtain ⟨hgives, hkept, hclear, hfree⟩ := h
  refine ⟨?_, hkept, ?_, ?_⟩
  · intro q i s hs
    obtain ⟨hsince, honly, hall⟩ := hgives q i s hs
    have hmem := hkept i s hs
    refine ⟨?_, ?_, ?_⟩ <;> simp only [TopicRouter.publish, Function.update_apply]
    · grind
    · grind [List.IsPrefix]
    · grind
  · simp only [TopicRouter.publish, Function.update_apply]
    grind
  · simp only [TopicRouter.publish, Function.update_apply]
    grind

/-- A task that owes nothing may go where it owes nothing. -/
theorem Inv.goes (h : r.Inv) {phase : PublisherPhase α} (hp : ∀ i, pending i (r.phase p) = [])
    (hp' : ∀ i, pending i phase = []) (hclear' : clearing phase = ∅) :
    Inv { r with phase := Function.update r.phase p phase } := by
  obtain ⟨hgives, hkept, hclear, hfree⟩ := h
  refine ⟨?_, hkept, ?_, ?_⟩
  · intro q i s hs
    obtain ⟨hsince, honly, hall⟩ := hgives q i s hs
    refine ⟨hsince, honly, ?_⟩
    simp only [Function.update_apply]
    grind
  · simp only [Function.update_apply]
    grind
  · simp only [Function.update_apply]
    grind

theorem Inv.sendTo (h : r.Inv) {i : Nat} {s : Subscription α} {copy toClear : Finset Nat}
    (hphase : r.phase p = .publishing item copy toClear) (hi : i ∈ copy)
    (hs : r.subscription i = some s) : (r.sendTo p i item copy toClear s).Inv := by
  obtain ⟨hgives, hkept, hclear, hfree⟩ := h
  unfold TopicRouter.sendTo
  split
  · rename_i hopen
    refine ⟨?_, ?_, ?_, ?_⟩ <;> simp only [Function.update_apply]
    · intro q j t ht
      obtain ⟨hsince, honly, hall⟩ := hgives q i s hs
      by_cases hj : j = i
      · rw [if_pos hj] at ht
        obtain rfl := Option.some.inj ht
        -- it gets the item from this task, and nothing from the other
        have hgot : gotFrom { s with received := s.received ++ [(p, item)] } q
            = gotFrom s q ++ if p = q then [item] else [] := by
          by_cases hq : p = q <;> simp [gotFrom, hq]
        refine ⟨hsince, ?_, ?_⟩ <;> grind [List.IsPrefix]
      · rw [if_neg hj] at ht
        obtain ⟨hsince, honly, hall⟩ := hgives q j t ht
        refine ⟨hsince, honly, ?_⟩
        grind
    · grind
    · grind
    · grind
  · refine ⟨?_, hkept, ?_, ?_⟩ <;> simp only [Function.update_apply]
    · intro q j t ht
      obtain ⟨hsince, honly, hall⟩ := hgives q j t ht
      refine ⟨hsince, honly, ?_⟩
      grind
    · grind
    · grind

/-- What one action does to the receivers, and to what goes out. -/
theorem Inv.step (h : r.Inv) (hr : r.Routes) (hs : r.step a = some r') : r'.Inv ∧ r'.Routes := by
  obtain ⟨hout, hpublish⟩ := hr
  cases a with
  | receiver i =>
      simp only [TopicRouter.step] at hs
      split at hs
      · cases hs
      · rename_i hnone
        obtain rfl := Option.some.inj hs
        have hnone : r.subscription i = none := by simpa using hnone
        obtain ⟨hgives, hkept, hclear, hfree⟩ := h
        refine ⟨⟨?_, ?_, ?_, ?_⟩, hout, hpublish⟩ <;> simp only [Function.update_apply]
        · intro q j t ht
          split at ht
          · -- there is nothing that the new receiver missed
            obtain rfl := Option.some.inj ht
            refine ⟨Nat.le_refl _, List.nil_prefix, ?_⟩
            grind [gotFrom]
          · exact hgives q j t ht
        · grind
        · grind
        · grind
  | close i =>
      obtain ⟨s, hi, rfl⟩ := Option.map_eq_some_iff.mp hs
      obtain ⟨hgives, hkept, hclear, hfree⟩ := h
      refine ⟨⟨?_, ?_, ?_, ?_⟩, hout, hpublish⟩ <;> simp only [Function.update_apply]
      · intro q j t ht
        split at ht
        · obtain rfl := Option.some.inj ht
          obtain ⟨hsince, honly, -⟩ := hgives q i s hi
          exact ⟨hsince, honly, by intro hopen; cases hopen⟩
        · exact hgives q j t ht
      · grind
      · grind
      · grind
  | next it =>
      simp only [TopicRouter.step] at hs
      split at hs
      · rename_i hwaiting
        obtain rfl := Option.some.inj hs
        have hp : ∀ i, pending i (r.phase .run) = [] := by simp [hwaiting, pending]
        have h' : Inv { r with taken := r.taken ++ [(it, decide (r.senders = ∅))] } :=
          ⟨h.gives, h.kept, h.notCleared, h.free⟩
        rw [hwaiting] at hout hpublish
        -- the three ways of an item
        unfold take
        split
        · refine ⟨h'.goes hp (fun _ => rfl) rfl, ?_, ?_⟩ <;> grind [Function.update_apply]
        · split
          · refine ⟨h'.goes hp (fun _ => rfl) rfl, ?_, ?_⟩ <;> grind [Function.update_apply]
          · refine ⟨h'.publish hp it, ?_, ?_⟩ <;> simp only [TopicRouter.publish] <;>
              grind [Function.update_apply]
      · cases hs
  | sentOut =>
      simp only [TopicRouter.step] at hs
      split at hs
      · rename_i it publishes hsending
        obtain rfl := Option.some.inj hs
        have hp : ∀ i, pending i (r.phase .run) = [] := by simp [hsending, pending]
        have h' : Inv { r with networkingSender := r.networkingSender ++ [it] } :=
          ⟨h.gives, h.kept, h.notCleared, h.free⟩
        rw [hsending] at hout hpublish
        split
        · refine ⟨h'.publish hp it, ?_, ?_⟩ <;> simp only [TopicRouter.publish] <;>
            grind [Function.update_apply]
        · refine ⟨h'.goes hp (fun _ => rfl) rfl, ?_, ?_⟩ <;>
            grind [Function.update_apply]
      · cases hs
  | publishBytes item =>
      simp only [TopicRouter.step] at hs
      split at hs
      · rename_i hwaiting
        obtain rfl := Option.some.inj hs
        exact ⟨h.publish (by simp [hwaiting, pending]) item, hout, hpublish⟩
      · cases hs
  | sendTo p i =>
      simp only [TopicRouter.step] at hs
      split at hs
      · rename_i it copy toClear hphase
        split at hs
        · rename_i hi
          obtain ⟨s, hsub, rfl⟩ := Option.map_eq_some_iff.mp hs
          refine ⟨h.sendTo hphase hi hsub, ?_⟩
          unfold TopicRouter.sendTo
          split
          all_goals refine ⟨?_, ?_⟩ <;> grind [Function.update_apply]
        · cases hs
      · cases hs
  | clear p =>
      simp only [TopicRouter.step] at hs
      split at hs
      · rename_i it copy toClear hphase
        split at hs
        · rename_i hempty
          obtain rfl := Option.some.inj hs
          -- what is cleared is closed
          have hcleared : ∀ i s, r.subscription i = some s → s.isOpen = true → i ∉ toClear := by
            intro i s hsub hopen
            have := h.notCleared p i s hsub hopen
            rwa [hphase] at this
          have h' : Inv { r with senders := r.senders \ toClear } := by
            obtain ⟨hgives, hkept, hclear, hfree⟩ := h
            refine ⟨hgives, ?_, hclear, ?_⟩ <;> grind
          refine ⟨h'.goes (by simp [hphase, hempty, pending]) (fun _ => rfl) rfl, ?_, ?_⟩ <;>
            grind [Function.update_apply]
        · cases hs
      · cases hs

/-- **A topic delivers.** Whatever comes between, an open receiver gets everything that is published
since it came, once and in the order of each task; and only what this node sends goes out. -/
theorem topic_delivers {publishPolicy : PublishPolicy}
    (h : (machine α publishPolicy).Reachable r) :
    r.Routes ∧ ∀ p i s, r.subscription i = some s → Gives p i s (r.phase p) (r.began p) := by
  have hinit : (machine α publishPolicy).init.Inv := by
    refine ⟨?_, ?_, ?_, ?_⟩ <;> simp [machine, pending, clearing]
  obtain ⟨hinv, hroutes⟩ := h.invariant (P := fun r => r.Inv ∧ r.Routes) ⟨hinit, rfl, rfl⟩
    fun _ _ _ h => h.1.step h.2
  exact ⟨hroutes, hinv.gives⟩

/-- Both tasks publish at once, and one of two receivers closes before it is served. -/
def overlappingActions : List (TopicAction Nat) :=
  [.receiver 0, .receiver 1, .next 5, .sentOut, .publishBytes 6, .sendTo .networkingRecv 1,
    .close 0, .sendTo .run 1, .sendTo .run 0, .clear .run]

theorem topic_delivers_overlapping :
    ∃ r, (machine Nat .always).run (machine Nat .always).init overlappingActions = some r
      ∧ r.networkingSender = [5] ∧ r.senders = {1}
      ∧ (r.subscription 1).map Subscription.received = some [(.networkingRecv, 6), (.run, 5)]
      ∧ r.Routes ∧ ∀ p i s, r.subscription i = some s → Gives p i s (r.phase p) (r.began p) := by
  have hrun : (machine Nat .always).run (machine Nat .always).init overlappingActions
      = some _ := rfl
  exact ⟨_, hrun, rfl, rfl, rfl, topic_delivers (Machine.Reachable.run .init hrun)⟩

end TopicRouter

end Exo
