import Mathlib.Order.Defs.Unbundled
import Exo.Election.Model

/-!
# Campaigns that saw the same candidates elect the same session

Every node takes the maximum of its own list, so the nodes agree when the maximum depends on
nothing but the set of messages in the list. `__lt__` looks at the clock, the seniority, the
number of commands and the proposing node, and at nothing else: two messages that it cannot tell
apart were sent by one node for one round.
-/

namespace Exo

namespace ElectionMessage

variable {a b : ElectionMessage}

/-- What `__lt__` cannot tell apart agrees on every field it looks at. -/
theorem not_lt_iff :
    a.lt b = false ∧ b.lt a = false ↔
      a.clock = b.clock ∧ a.seniority = b.seniority ∧ a.commandsSeen = b.commandsSeen
        ∧ a.proposedSession.masterNodeId = b.proposedSession.masterNodeId := by
  constructor
  · intro h
    obtain ⟨hab, hba⟩ := h
    -- one field after another: where two differ, one of the messages beats the other
    have hclock : a.clock = b.clock := by
      by_contra hne
      have hne' : b.clock ≠ a.clock := fun h => hne h.symm
      simp only [lt, if_pos hne, if_pos hne', decide_eq_false_iff_not] at hab hba
      omega
    have hseniority : a.seniority = b.seniority := by
      by_contra hne
      have hne' : b.seniority ≠ a.seniority := fun h => hne h.symm
      simp only [lt, hclock, ne_eq, not_true_eq_false, if_false, hne, hne', not_false_eq_true,
        if_true, decide_eq_false_iff_not] at hab hba
      omega
    have hcommands : a.commandsSeen = b.commandsSeen := by
      by_contra hne
      have hne' : b.commandsSeen ≠ a.commandsSeen := fun h => hne h.symm
      simp only [lt, hclock, hseniority, ne_eq, not_true_eq_false, if_false, hne, hne',
        not_false_eq_true, if_true, decide_eq_false_iff_not] at hab hba
      omega
    simp only [lt, hclock, hseniority, hcommands, ne_eq, not_true_eq_false, if_false,
      decide_eq_false_iff_not] at hab hba
    exact ⟨hclock, hseniority, hcommands,
      Nat.le_antisymm (Nat.le_of_not_lt hba) (Nat.le_of_not_lt hab)⟩
  · intro h
    obtain ⟨hclock, hseniority, hcommands, hnode⟩ := h
    simp [lt, hclock, hseniority, hcommands, hnode]

/-- `__lt__` is a strict weak order. -/
instance isStrictWeakOrder :
    IsStrictWeakOrder ElectionMessage fun a b => a.lt b = true where
  irrefl a := by simp [lt_irrefl]
  trans a b c hab hbc := lt_trans hab hbc
  incomp_trans a b c hab hbc := by
    simp only [Bool.not_eq_true] at *
    obtain ⟨h1, h2, h3, h4⟩ := not_lt_iff.1 hab
    obtain ⟨h1', h2', h3', h4'⟩ := not_lt_iff.1 hbc
    exact not_lt_iff.2 ⟨h1.trans h1', h2.trans h2', h3.trans h3', h4.trans h4'⟩

/-- In one round, the higher seniority wins. -/
theorem lt_of_seniority_lt (hclock : a.clock = b.clock) (h : a.seniority < b.seniority) :
    a.lt b = true := by
  have hne : a.seniority ≠ b.seniority := by omega
  simp only [lt, hclock, ne_eq, not_true_eq_false, if_false, hne, not_false_eq_true, if_true,
    decide_eq_true_eq]
  exact h

end ElectionMessage

/-- No proposing node sent two different messages for one round. -/
def OneMessageEach (candidates : List ElectionMessage) : Prop :=
  ∀ a ∈ candidates, ∀ b ∈ candidates, a.clock = b.clock →
    a.proposedSession.masterNodeId = b.proposedSession.masterNodeId → a = b

instance (candidates : List ElectionMessage) : Decidable (OneMessageEach candidates) :=
  inferInstanceAs (Decidable (∀ a ∈ candidates, ∀ b ∈ candidates, _ → _ → _))

/-- **The maximum is the set's**: the order of a list and its repetitions do not matter. -/
theorem maxCandidate_congr {l l' : List ElectionMessage} {m m' : ElectionMessage}
    (hsame : ∀ a, a ∈ l ↔ a ∈ l') (hone : OneMessageEach l) (h : maxCandidate l = some m)
    (h' : maxCandidate l' = some m') : m = m' := by
  have hm : m ∈ l := maxCandidate_mem h
  have hm' : m' ∈ l := (hsame m').mpr (maxCandidate_mem h')
  -- neither beats the other
  have hlt : m.lt m' = false := maxCandidate_not_lt h hm'
  have hlt' : m'.lt m = false := maxCandidate_not_lt h' ((hsame m).mp hm)
  obtain ⟨hclock, -, -, hnode⟩ := ElectionMessage.not_lt_iff.1 ⟨hlt, hlt'⟩
  exact hone m hm m' hm' hclock hnode

namespace Election

/-- The campaign goes past its last checkpoint and elects a message. -/
structure Elects (e : Election) (i : Nat) (c : Campaign) (m : ElectionMessage) (e' : Election) :
    Prop where
  campaign : e.campaigns[i]? = some c
  stage : c.stage = .checkpoint
  step : e.resume i = some e'
  /-- The session of the node is the elected one from now on. -/
  session : e'.currentSession = m.proposedSession
  /-- And it is the one that the campaign is about to send. -/
  outcome : ∃ o, e'.campaigns[i]? = some { c with stage := .electing o }
    ∧ o.result.sessionId = m.proposedSession ∧ o.queue = c.candidates

/-- What the step past the checkpoint does: it elects the maximum of the list. -/
theorem elects_of_resume {e e' : Election} {i : Nat} {c : Campaign}
    (hc : e.campaigns[i]? = some c) (hst : c.stage = .checkpoint) (h : e.resume i = some e') :
    ∃ m, maxCandidate c.candidates = some m ∧ Elects e i c m e' := by
  have hres := h
  simp only [resume, hc, hst] at hres
  split at hres
  · cases hres
  · obtain ⟨m, hm, rfl⟩ := Option.map_eq_some_iff.mp hres
    have hi : i < e.campaigns.length := (List.getElem?_eq_some_iff.mp hc).1
    exact ⟨m, hm, hc, hst, h, rfl, _, List.getElem?_set_self hi, rfl, rfl⟩

/-- The message is a maximum of the list, and no candidate for master loses to a mere member. -/
structure Wins (m : ElectionMessage) (candidates : List ElectionMessage) : Prop where
  mem : m ∈ candidates
  maximum : ∀ a ∈ candidates, m.lt a = false
  /-- In one round, seniority 0 and more beats seniority -1, which is not elected then. -/
  seniority : ∀ a ∈ candidates, ∀ b ∈ candidates, a.clock = b.clock → 0 ≤ a.seniority →
    b.seniority = -1 → b.lt a = true ∧ b ≠ m

theorem wins_of_max {candidates : List ElectionMessage} {m : ElectionMessage}
    (h : maxCandidate candidates = some m) : Wins m candidates where
  mem := maxCandidate_mem h
  maximum a ha := maxCandidate_not_lt h ha
  seniority a ha b _ hclock hpos hneg := by
    have hlt : b.lt a = true := ElectionMessage.lt_of_seniority_lt hclock.symm (by omega)
    refine ⟨hlt, ?_⟩
    intro hbm
    have := maxCandidate_not_lt h ha
    rw [← hbm, hlt] at this
    cases this

/-- **Campaigns with the same set of candidates elect the same message.** -/
theorem campaigns_agree {e₁ e₂ e₁' e₂' : Election} {i j : Nat} {c₁ c₂ : Campaign}
    (hc₁ : e₁.campaigns[i]? = some c₁) (hc₂ : e₂.campaigns[j]? = some c₂)
    (hst₁ : c₁.stage = .checkpoint) (hst₂ : c₂.stage = .checkpoint)
    (hsame : ∀ m, m ∈ c₁.candidates ↔ m ∈ c₂.candidates) (hone : OneMessageEach c₁.candidates)
    (h₁ : e₁.resume i = some e₁') (h₂ : e₂.resume j = some e₂') :
    IsStrictWeakOrder ElectionMessage (fun a b => a.lt b = true)
      ∧ ∃ m, Elects e₁ i c₁ m e₁' ∧ Elects e₂ j c₂ m e₂' ∧ Wins m c₁.candidates
          ∧ Wins m c₂.candidates := by
  obtain ⟨m₁, hmax₁, hel₁⟩ := elects_of_resume hc₁ hst₁ h₁
  obtain ⟨m₂, hmax₂, hel₂⟩ := elects_of_resume hc₂ hst₂ h₂
  have hm : m₁ = m₂ := maxCandidate_congr hsame hone hmax₁ hmax₂
  subst hm
  exact ⟨inferInstance, m₁, hel₁, hel₂, wins_of_max hmax₁, wins_of_max hmax₂⟩

/-- A node has met the other one, whose status came twice, and is at its last checkpoint. -/
def metTwice (status : ElectionMessage) : List Action :=
  [.resume 0, .resume 0, .resume 0, .resume 0, .resume 0, .connection, .message status, .start 1,
    .resume 1, .message status, .resume 1, .resume 1, .resume 1]

theorem campaigns_agree_metTwice :
    ∃ e₁ e₂ e₁' e₂' c₁ c₂ m,
      (machine { nodeId := 1 }).run (init { nodeId := 1 }) (metTwice ⟨1, 1, ⟨2, 0⟩, 0⟩) = some e₁
      ∧ (machine { nodeId := 2 }).run (init { nodeId := 2 }) (metTwice ⟨1, 1, ⟨1, 0⟩, 0⟩) = some e₂
      ∧ c₁.candidates ≠ c₂.candidates ∧ Elects e₁ 1 c₁ m e₁' ∧ Elects e₂ 1 c₂ m e₂' := by
  have hrun₁ : (((machine { nodeId := 1 }).run (init { nodeId := 1 })
      (metTwice ⟨1, 1, ⟨2, 0⟩, 0⟩)).bind fun e => (e.resume 1).bind fun _ => e.campaigns[1]?)
      = some ⟨1, [⟨1, 1, ⟨2, 0⟩, 0⟩, ⟨1, 1, ⟨1, 0⟩, 0⟩, ⟨1, 1, ⟨2, 0⟩, 0⟩], 1,
          some ⟨1, 1, ⟨1, 0⟩, 0⟩, .checkpoint, false, false⟩ := by decide
  have hrun₂ : (((machine { nodeId := 2 }).run (init { nodeId := 2 })
      (metTwice ⟨1, 1, ⟨1, 0⟩, 0⟩)).bind fun e => (e.resume 1).bind fun _ => e.campaigns[1]?)
      = some ⟨1, [⟨1, 1, ⟨1, 0⟩, 0⟩, ⟨1, 1, ⟨2, 0⟩, 0⟩, ⟨1, 1, ⟨1, 0⟩, 0⟩], 1,
          some ⟨1, 1, ⟨2, 0⟩, 0⟩, .checkpoint, false, false⟩ := by decide
  obtain ⟨e₁, he₁, hrest₁⟩ := Option.bind_eq_some_iff.mp hrun₁
  obtain ⟨e₁', hr₁, hc₁⟩ := Option.bind_eq_some_iff.mp hrest₁
  obtain ⟨e₂, he₂, hrest₂⟩ := Option.bind_eq_some_iff.mp hrun₂
  obtain ⟨e₂', hr₂, hc₂⟩ := Option.bind_eq_some_iff.mp hrest₂
  obtain ⟨-, m, hel₁, hel₂, -, -⟩ := campaigns_agree hc₁ hc₂ rfl rfl (by simp [or_comm])
    (by decide) hr₁ hr₂
  exact ⟨e₁, e₂, e₁', e₂', _, _, m, he₁, he₂, by decide, hel₁, hel₂⟩

end Election

end Exo
