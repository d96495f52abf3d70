import Mathlib.Data.List.Dedup
import Exo.Election.Agreement
import Exo.Election.Candidates

/-!
# What a win makes of the seniority

A node that wins takes the length of its list for its new seniority, if that is more. The list has
one entry for each status that came in, and every campaign broadcasts its own twice.
-/

namespace Exo.Election

open Lib

/-- The other nodes whose status for clock `r` was received. -/
def participants (e : Election) (r : Int) : List NodeId :=
  ((e.received.filter fun p =>
    decide (p.2.clock = r ∧ p.2.proposedSession.masterNodeId ≠ e.nodeId)).map
      fun p => p.2.proposedSession.masterNodeId).dedup

/-- The clock that the node wins, as a candidate, when its campaign elects it. -/
def wonRound (e : Election) : Action → Option Int
  | .resume i =>
      match e.campaigns[i]? with
      | some c =>
          match maxCandidate c.candidates with
          | some m =>
              if c.stage = .checkpoint ∧ e.nodeId = m.proposedSession.masterNodeId
                ∧ 0 ≤ e.seniority then some m.clock else none
          | none => none
      | none => none
  | _ => none

/-- A round that was won: the seniority before and after, and how many took part. -/
structure Win where
  before : Int
  size : Nat
  after : Int
  deriving DecidableEq, Repr

/-- An election, and the rounds that its node has won. -/
structure Tallied where
  election : Election
  wins : List Win := []

namespace Tallied

def step (t : Tallied) (a : Action) : Option Tallied :=
  (t.election.step a).map fun e =>
    { election := e
      wins := t.wins ++ (t.election.wonRound a).toList.map fun r =>
        ⟨t.election.seniority, (t.election.participants r).length + 1, e.seniority⟩ }

def machine (cfg : Config) : Machine Tallied Action := ⟨⟨init cfg, []⟩, step⟩

/-- **Seniority counts participants.** -/
structure Counts (cfg : Config) (t : Tallied) : Prop where
  /-- A win made it the number of those who took part, if that was more. -/
  wins : ∀ w ∈ t.wins, w.after = max w.before w.size
  /-- It is at most the initial one, or the size of a round that was won. -/
  bounded : t.election.seniority ≤ (create cfg).seniority ∨
    ∃ w ∈ t.wins, t.election.seniority ≤ w.size

end Tallied

/-- A campaign that wins has heard as many statuses as there are nodes that sent one for the round,
or neither is enough to matter. -/
def CountsOnce (e : Election) (a : Action) : Prop :=
  ∀ r ∈ e.wonRound a, ∀ c ∈ a.campaign.bind (e.campaigns[·]?),
    (heard e.nodeId e.received c.round).length = (e.participants r).length ∨
      ((heard e.nodeId e.received c.round).length < e.seniority
        ∧ (e.participants r).length < e.seniority)

instance (e : Election) (a : Action) : Decidable (CountsOnce e a) :=
  inferInstanceAs (Decidable (∀ r ∈ _, ∀ c ∈ _, _ ∨ _))

variable {e e' : Election} {i : Nat} {c : Campaign} {m : ElectionMessage} {a : Action} {r : Int}

/-- A step wins when it elects the node itself, a candidate. -/
theorem wonRound_eq_some (hs : e.step a = some e') :
    e.wonRound a = some r ↔ ∃ i c m, a = .resume i ∧ ElectsNext e i c m ∧ e' = e.elect i c m
      ∧ e.nodeId = m.proposedSession.masterNodeId ∧ 0 ≤ e.seniority ∧ m.clock = r := by
  constructor
  · intro h
    cases a with
    | resume i =>
        unfold wonRound at h
        dsimp only at h
        split at h
        · rename_i c hc
          split at h
          · rename_i m hm
            split at h
            · rename_i hwon
              obtain rfl := Option.some.inj h
              simp only [step, resume, hc, hwon.1] at hs
              split at hs
              · cases hs
              · rename_i hcalled
                rw [hm] at hs
                exact ⟨i, c, m, rfl, ⟨hc, hwon.1, by simpa using hcalled, hm⟩,
                  (Option.some.inj hs).symm, hwon.2.1, hwon.2.2, rfl⟩
            · cases h
          · cases h
        · cases h
    | _ => cases h
  · rintro ⟨i, c, m, rfl, hn, -, hid, hsen, rfl⟩
    simp only [wonRound, hn.campaign, hn.maximum]
    rw [if_pos ⟨hn.stage, hid, hsen⟩]

/-- Only a win changes the seniority. -/
theorem seniority_of_wonRound_eq_none (hs : e.step a = some e') (h : e.wonRound a = none) :
    e'.seniority = e.seniority := by
  rcases step_cases hs with hn | ⟨i, c, m, rfl, hn, rfl⟩
  · exact hn.seniority
  · refine if_neg fun hwon => ?_
    rw [(wonRound_eq_some hs).mpr ⟨i, c, m, rfl, hn, rfl, hwon.1, hwon.2, rfl⟩] at h
    cases h

/-- **A win counts the statuses that were heard**, and the node's own. -/
theorem RoundInv.seniority_elect (h : RoundInv e) (hn : ElectsNext e i c m)
    (hid : e.nodeId = m.proposedSession.masterNodeId) (hsen : 0 ≤ e.seniority) :
    (e.elect i c m).seniority
      = max e.seniority ((heard e.nodeId e.received c.round).length + 1) := by
  obtain ⟨own, -, -, hperm⟩ := h.joined hn
  have hlen : c.candidates.length = (heard e.nodeId e.received c.round).length + 1 := by
    rw [hperm.length_eq, List.length_cons]
  rw [elect]
  dsimp only
  rw [if_pos ⟨hid, hsen⟩, hlen]
  push_cast
  rfl

namespace Tallied

variable {cfg : Config} {t t' : Tallied}

/-- **One step**: what the wins say stays true exactly if a campaign that wins counts right. -/
theorem counts_step (hround : RoundInv t.election) (h : Counts cfg t)
    (hs : t.step a = some t') : Counts cfg t' ↔ CountsOnce t.election a := by
  obtain ⟨e', he, rfl⟩ := Option.map_eq_some_iff.mp hs
  cases hwon : t.election.wonRound a with
  | none =>
      refine iff_of_true ⟨?_, ?_⟩ fun r hr => by rw [hwon] at hr; cases hr
      · simpa using h.wins
      · rw [seniority_of_wonRound_eq_none he hwon]
        simpa using h.bounded
  | some r =>
      obtain ⟨i, c, m, rfl, hn, rfl, hid, hsen, hr⟩ := (wonRound_eq_some he).mp hwon
      have hafter := hround.seniority_elect hn hid hsen
      have honce : CountsOnce t.election (.resume i) ↔ (t.election.elect i c m).seniority
          = max t.election.seniority (((t.election.participants r).length + 1 : Nat) : Int) := by
        rw [hafter]
        constructor
        · intro hok
          have := hok r hwon c hn.campaign
          omega
        · intro heq rj hrj cj hcj
          obtain rfl := Option.some.inj (hcj.symm.trans hn.campaign)
          obtain rfl := Option.some.inj (hrj.symm.trans hwon)
          omega
      rw [honce]
      constructor
      · intro hc
        exact hc.wins _ (List.mem_append_right _ (List.mem_singleton.mpr rfl))
      · intro heq
        refine ⟨?_, ?_⟩
        · intro w hw
          rcases List.mem_append.mp hw with hw | hw
          · exact h.wins w hw
          · obtain rfl := List.mem_singleton.mp hw
            exact heq
        · -- the seniority is the old one, or the size of the round that is won now
          dsimp only
          rw [heq]
          rcases max_choice t.election.seniority
            (((t.election.participants r).length + 1 : Nat) : Int) with hmax | hmax
          · rw [hmax]
            refine h.bounded.imp id ?_
            rintro ⟨w, hw, hle⟩
            exact ⟨w, List.mem_append_left _ hw, hle⟩
          · rw [hmax]
            exact .inr ⟨_, List.mem_append_right _ (List.mem_singleton.mpr rfl), le_rfl⟩

theorem counts_init (cfg : Config) : Counts cfg (machine cfg).init :=
  ⟨by rintro w ⟨⟩, .inl le_rfl⟩

/-- **Seniority counts participants throughout a run** exactly if every campaign that wins has heard
each of them once, or too few to matter. -/
theorem seniority_counts_iff {t : Tallied} {as : List Action}
    (h : (machine cfg).run (machine cfg).init as = some t) :
    (∀ k t, (machine cfg).run (machine cfg).init (as.take k) = some t → Counts cfg t)
      ↔ ∀ k a t, as[k]? = some a → (machine cfg).run (machine cfg).init (as.take k) = some t →
        CountsOnce t.election a := by
  refine Machine.throughout_iff_of_invariant (B := fun t => RoundInv t.election) ?_ ?_
    (roundInv_init cfg) (counts_init cfg) h
  · intro t a t' hround hs
    obtain ⟨e', he, rfl⟩ := Option.map_eq_some_iff.mp hs
    exact roundInv_step hround he
  · exact fun t a t' hround hcounts hs => counts_step hround hcounts hs

/-- Node 1 has won alone, and then the round in which it meets node 2. -/
def metOnce : List Action :=
  [.resume 0, .resume 0, .resume 0, .resume 0, .resume 0, .connection,
    .message ⟨1, 0, ⟨2, 0⟩, 0⟩, .start 1, .resume 1, .resume 1, .resume 1, .resume 1, .resume 1]

theorem seniority_counts_metOnce : ∃ t,
    (machine { nodeId := 1 }).run (machine { nodeId := 1 }).init metOnce = some t
      ∧ t.wins = [⟨0, 1, 1⟩, ⟨1, 2, 2⟩] ∧ Counts { nodeId := 1 } t := by
  have hrun : ((machine { nodeId := 1 }).runWhen (fun t a => CountsOnce t.election a)
      (machine { nodeId := 1 }).init metOnce).map wins = some [⟨0, 1, 1⟩, ⟨1, 2, 2⟩] := by decide
  obtain ⟨t, ht, hwins⟩ := Option.map_eq_some_iff.mp hrun
  obtain ⟨ht, hok⟩ := Machine.runWhen_eq_some.mp ht
  exact ⟨t, ht, hwins, (seniority_counts_iff ht).mpr hok metOnce.length t
    (by rw [List.take_length]; exact ht)⟩

/-- A status that comes twice, as it is sent, counts for two nodes. -/
theorem not_forall_counts : ¬ ∀ cfg as t,
    (machine cfg).run (machine cfg).init as = some t → Counts cfg t := by
  intro hall
  have hrun : ((machine { nodeId := 1 }).run (machine { nodeId := 1 }).init
      (metTwice ⟨1, 0, ⟨2, 0⟩, 0⟩ ++ [.resume 1])).map wins
      = some [⟨0, 1, 1⟩, ⟨1, 2, 3⟩] := by decide
  obtain ⟨t, ht, hwins⟩ := Option.map_eq_some_iff.mp hrun
  have h := (hall _ _ t ht).wins ⟨1, 2, 3⟩ (by rw [hwins]; decide)
  exact absurd h (by decide)

end Tallied

end Exo.Election
