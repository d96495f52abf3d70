import Exo.Election.Model
import Exo.Lib.Sequence

/-!
# Campaigns are exclusive, when they start one at a time

A campaign that starts cancels the scope it sees and waits on the event it sees.
Both belong to the campaign before it, as long as that one is past its own wait.
When a campaign starts while another one is still waiting, both wait on the same
event and neither cancels the other, and from then on nothing is exclusive.

`CampaignInv` holds in every run in which no campaign starts while another waits.
-/

namespace Exo.Election

open Lib

/-- No campaign is waiting for an old one. -/
def NoneWaiting (e : Election) : Prop := ∀ c ∈ e.campaigns, c.stage.isWaiting = false

instance (e : Election) : Decidable e.NoneWaiting := inferInstanceAs (Decidable (∀ c ∈ _, _))

/-- What ties the campaigns to the scope and the event the election refers to. -/
structure CampaignInv (e : Election) : Prop where
  /-- The campaign that is running owns both. -/
  running : ∀ (i : Nat) (c : Campaign), e.campaigns[i]? = some c → c.stage.running →
    e.campaignDone = some i ∧ e.campaignCancelScope = some i
  /-- A waiting campaign waits on the event that is still the current one. -/
  waiting : ∀ (i : Nat) (c : Campaign) d, e.campaigns[i]? = some c → c.stage = .waiting d → e.campaignDone = some d
  /-- At most one campaign waits. -/
  alone : ∀ (i j : Nat) (c c' : Campaign), e.campaigns[i]? = some c → e.campaigns[j]? = some c' →
    c.stage.isWaiting → c'.stage.isWaiting → i = j
  /-- A superseded campaign is finished or cancelled. -/
  superseded : ∀ (i : Nat) (c : Campaign), e.campaigns[i]? = some c → c.superseded →
    c.stage = .finished ∨ (c.stage.running ∧ c.cancelCalled)

variable {e e' : Election} {i : Nat} {c c' : Campaign}

/-- At most one campaign runs. -/
theorem CampaignInv.one (h : CampaignInv e) {j : Nat} (hc : e.campaigns[i]? = some c)
    (hc' : e.campaigns[j]? = some c') (hr : c.stage.running) (hr' : c'.stage.running) : i = j := by
  have hi := (h.running i c hc hr).1
  have hj := (h.running j c' hc' hr').1
  rw [hi] at hj
  exact Option.some.inj hj

/-- A campaign that has not started, or that waits, is not superseded. -/
theorem CampaignInv.not_superseded (h : CampaignInv e) (hc : e.campaigns[i]? = some c)
    (hr : c.stage.running = false) (hf : c.stage ≠ .finished) : c.superseded = false := by
  by_contra hs
  rcases h.superseded i c hc (by simpa using hs) with hfin | ⟨hrun, -⟩
  · exact hf hfin
  · rw [hr] at hrun; cases hrun

/-! ## One step -/

/-- A change that keeps every campaign's stage, the scope and the event. -/
theorem CampaignInv.congr (h : CampaignInv e)
    (hc : ∀ (j : Nat) (cj : Campaign), e'.campaigns[j]? = some cj → ∃ bj, e.campaigns[j]? = some bj
      ∧ cj.stage = bj.stage ∧ cj.superseded = bj.superseded ∧ cj.cancelCalled = bj.cancelCalled)
    (hd : e'.campaignDone = e.campaignDone)
    (hs : e'.campaignCancelScope = e.campaignCancelScope) : CampaignInv e' := by
  refine ⟨?_, ?_, ?_, ?_⟩
  · intro j cj hj hr
    obtain ⟨bj, hbj, hst, -⟩ := hc j cj hj
    rw [hd, hs]
    exact h.running j bj hbj (hst ▸ hr)
  · intro j cj d hj hw
    obtain ⟨bj, hbj, hst, -⟩ := hc j cj hj
    rw [hd]
    exact h.waiting j bj d hbj (hst ▸ hw)
  · intro j k cj ck hj hk hwj hwk
    obtain ⟨bj, hbj, hstj, -⟩ := hc j cj hj
    obtain ⟨bk, hbk, hstk, -⟩ := hc k ck hk
    exact h.alone j k bj bk hbj hbk (hstj ▸ hwj) (hstk ▸ hwk)
  · intro j cj hj hsj
    obtain ⟨bj, hbj, hst, hsup, hcan⟩ := hc j cj hj
    rw [hst, hcan]
    exact h.superseded j bj hbj (hsup ▸ hsj)

/-- A running campaign goes from one `await` to the next. -/
theorem CampaignInv.advance (h : CampaignInv e) (hc : e.campaigns[i]? = some c)
    (hr : c.stage.running) (hcs : e'.campaigns = e.campaigns.set i c') (hr' : c'.stage.running)
    (hsup : c'.superseded = c.superseded) (hcan : c'.cancelCalled = c.cancelCalled)
    (hd : e'.campaignDone = e.campaignDone)
    (hs : e'.campaignCancelScope = e.campaignCancelScope) : CampaignInv e' := by
  have hnw : c'.stage.isWaiting = false := by
    cases hst : c'.stage <;> rw [hst] at hr' <;> simp_all [Stage.running, Stage.isWaiting]
  refine ⟨?_, ?_, ?_, ?_⟩
  · intro j cj hj hrj
    rw [hcs] at hj
    rw [hd, hs]
    rcases getElem?_set_cases hj with ⟨rfl, rfl⟩ | ⟨-, hj⟩
    · exact h.running j c hc hr
    · exact h.running j cj hj hrj
  · intro j cj d hj hw
    rw [hcs] at hj
    rw [hd]
    rcases getElem?_set_cases hj with ⟨rfl, rfl⟩ | ⟨-, hj⟩
    · rw [hw] at hnw; cases hnw
    · exact h.waiting j cj d hj hw
  · intro j k cj ck hj hk hwj hwk
    rw [hcs] at hj hk
    rcases getElem?_set_cases hj with ⟨rfl, rfl⟩ | ⟨-, hj⟩
    · rw [hnw] at hwj; cases hwj
    · rcases getElem?_set_cases hk with ⟨rfl, rfl⟩ | ⟨-, hk⟩
      · rw [hnw] at hwk; cases hwk
      · exact h.alone j k cj ck hj hk hwj hwk
  · intro j cj hj hsj
    rw [hcs] at hj
    rcases getElem?_set_cases hj with ⟨rfl, rfl⟩ | ⟨-, hj⟩
    · rw [hsup] at hsj
      rcases h.superseded j c hc hsj with hf | ⟨-, hcc⟩
      · rw [hf] at hr; cases hr
      · exact .inr ⟨hr', by rw [hcan]; exact hcc⟩
    · exact h.superseded j cj hj hsj

/-- The `finally` block of the running campaign. -/
theorem CampaignInv.finish (h : CampaignInv e) (hc : e.campaigns[i]? = some c)
    (hr : c.stage.running) : CampaignInv (e.finish i c) := by
  -- no other campaign runs, so giving the scope up takes it from nobody
  have hother : ∀ (j : Nat) (cj : Campaign), j ≠ i → e.campaigns[j]? = some cj → cj.stage.running = false := by
    intro j cj hji hj
    by_contra hrj
    exact hji (h.one hj hc (by simpa using hrj) hr)
  refine ⟨?_, ?_, ?_, ?_⟩
  · intro j cj hj hrj
    rcases getElem?_set_cases hj with ⟨rfl, rfl⟩ | ⟨hji, hj⟩
    · cases hrj
    · rw [hother j cj hji hj] at hrj; cases hrj
  · intro j cj d hj hw
    rcases getElem?_set_cases hj with ⟨rfl, rfl⟩ | ⟨hji, hj⟩
    · cases hw
    · exact h.waiting j cj d hj hw
  · intro j k cj ck hj hk hwj hwk
    rcases getElem?_set_cases hj with ⟨rfl, rfl⟩ | ⟨-, hj⟩
    · cases hwj
    · rcases getElem?_set_cases hk with ⟨rfl, rfl⟩ | ⟨-, hk⟩
      · cases hwk
      · exact h.alone j k cj ck hj hk hwj hwk
  · intro j cj hj hsj
    rcases getElem?_set_cases hj with ⟨rfl, rfl⟩ | ⟨-, hj⟩
    · exact .inl rfl
    · exact h.superseded j cj hj hsj

/-- A campaign goes past the wait, when no other one runs or waits. -/
theorem CampaignInv.enter (hsup : c.superseded = false)
    (hother : ∀ (j : Nat) (cj : Campaign), j ≠ i → e.campaigns[j]? = some cj →
      cj.stage.running = false ∧ cj.stage.isWaiting = false
        ∧ (cj.superseded → cj.stage = .finished)) :
    CampaignInv (e.enter i c) := by
  refine ⟨?_, ?_, ?_, ?_⟩
  · intro j cj hj hrj
    rcases getElem?_set_cases hj with ⟨rfl, rfl⟩ | ⟨hji, hj⟩
    · exact ⟨rfl, rfl⟩
    · rw [(hother j cj hji hj).1] at hrj; cases hrj
  · intro j cj d hj hw
    rcases getElem?_set_cases hj with ⟨rfl, rfl⟩ | ⟨hji, hj⟩
    · cases hw
    · have := (hother j cj hji hj).2.1
      rw [hw] at this; cases this
  · intro j k cj ck hj hk hwj hwk
    rcases getElem?_set_cases hj with ⟨rfl, rfl⟩ | ⟨hji, hj⟩
    · cases hwj
    · rw [(hother j cj hji hj).2.1] at hwj; cases hwj
  · intro j cj hj hsj
    rcases getElem?_set_cases hj with ⟨rfl, rfl⟩ | ⟨hji, hj⟩
    · rw [show ({ c with
          candidates := c.candidates ++ [e.electionStatus c.clock]
          status := some (e.electionStatus c.clock)
          stage := .sending } : Campaign).superseded = c.superseded from rfl, hsup] at hsj
      cases hsj
    · exact .inl ((hother j cj hji hj).2.2 hsj)

/-- **Starting a campaign while none waits.** The one that runs is the one it cancels. -/
theorem CampaignInv.begin (h : CampaignInv e) (hnone : e.NoneWaiting)
    (hb : e.begin i = some e') : CampaignInv e' := by
  unfold Election.begin at hb
  split at hb
  · rename_i c hc
    split at hb
    · rename_i hst
      have hsup : c.superseded = false :=
        h.not_superseded hc (by rw [hst]; rfl) (by rw [hst]; exact Stage.noConfusion)
      have hmap : ∀ (j : Nat) cj,
          (e.campaigns.mapIdx (Campaign.overtaken e.campaignCancelScope))[j]? = some cj →
          ∃ bj, e.campaigns[j]? = some bj
            ∧ cj = Campaign.overtaken e.campaignCancelScope j bj := by
        intro j cj hj
        rw [List.getElem?_mapIdx] at hj
        obtain ⟨bj, hbj, rfl⟩ := Option.map_eq_some_iff.mp hj
        exact ⟨bj, hbj, rfl⟩
      have hstage : ∀ j bj, (Campaign.overtaken e.campaignCancelScope j bj).stage = bj.stage := by
        intro j bj
        unfold Campaign.overtaken
        split <;> rfl
      -- whoever is superseded now was running, and then it is the one whose scope is cancelled
      have hover : ∀ (j : Nat) bj, e.campaigns[j]? = some bj →
          (Campaign.overtaken e.campaignCancelScope j bj).superseded →
          bj.stage = .finished
            ∨ (bj.stage.running ∧ (Campaign.overtaken e.campaignCancelScope j bj).cancelCalled) := by
        intro j bj hbj hs
        unfold Campaign.overtaken at hs ⊢
        split at hs
        · rename_i hsp
          rw [if_pos hsp]
          exact h.superseded j bj hbj hs
        · rename_i hsp
          rw [if_neg hsp]
          have hnw := hnone bj (List.mem_of_getElem? hbj)
          by_cases hrun : bj.stage.running
          · right
            refine ⟨hrun, ?_⟩
            simp [(h.running j bj hbj hrun).2]
          · left
            cases hbs : bj.stage <;> simp_all [Stage.running, Stage.isWaiting]
      split at hb
      · -- no campaign has ever run
        rename_i hdone
        obtain rfl := Option.some.inj hb
        refine CampaignInv.enter hsup ?_
        intro j cj hji hj
        obtain ⟨bj, hbj, rfl⟩ := hmap j cj hj
        have hnr : bj.stage.running = false := by
          by_contra hr
          have := (h.running j bj hbj (by simpa using hr)).1
          rw [hdone] at this; cases this
        rw [hstage]
        refine ⟨hnr, hnone bj (List.mem_of_getElem? hbj), ?_⟩
        intro hs
        rcases hover j bj hbj hs with hf | ⟨hr, -⟩
        · exact hf
        · rw [hnr] at hr; cases hr
      · rename_i d hdone
        obtain rfl := Option.some.inj hb
        have hnw : ∀ (j : Nat) bj, e.campaigns[j]? = some bj →
            (Campaign.overtaken e.campaignCancelScope j bj).stage.isWaiting = false := by
          intro j bj hbj
          rw [hstage]
          exact hnone bj (List.mem_of_getElem? hbj)
        refine ⟨?_, ?_, ?_, ?_⟩
        · intro j cj hj hrj
          rcases getElem?_set_cases hj with ⟨rfl, rfl⟩ | ⟨hji, hj⟩
          · cases hrj
          · obtain ⟨bj, hbj, rfl⟩ := hmap j cj hj
            rw [hstage] at hrj
            exact h.running j bj hbj hrj
        · intro j cj d' hj hw
          rcases getElem?_set_cases hj with ⟨rfl, rfl⟩ | ⟨hji, hj⟩
          · cases hw; exact hdone
          · obtain ⟨bj, hbj, rfl⟩ := hmap j cj hj
            have := hnw j bj hbj
            rw [hw] at this; cases this
        · intro j k cj ck hj hk hwj hwk
          rcases getElem?_set_cases hj with ⟨rfl, rfl⟩ | ⟨hji, hj⟩
          · rcases getElem?_set_cases hk with ⟨rfl, rfl⟩ | ⟨hki, hk⟩
            · rfl
            · obtain ⟨bk, hbk, rfl⟩ := hmap k ck hk
              rw [hnw k bk hbk] at hwk; cases hwk
          · obtain ⟨bj, hbj, rfl⟩ := hmap j cj hj
            rw [hnw j bj hbj] at hwj; cases hwj
        · intro j cj hj hsj
          rcases getElem?_set_cases hj with ⟨rfl, rfl⟩ | ⟨hji, hj⟩
          · rw [show ({ c with clock := e.clock, stage := .waiting d } : Campaign).superseded
              = c.superseded from rfl, hsup] at hsj
            cases hsj
          · obtain ⟨bj, hbj, rfl⟩ := hmap j cj hj
            rw [hstage]
            exact hover j bj hbj hsj
    · cases hb
  · cases hb

/-- A new campaign that has not started. -/
theorem CampaignInv.spawn (h : CampaignInv e) (candidates : List ElectionMessage) :
    CampaignInv (e.spawn candidates) := by
  refine ⟨?_, ?_, ?_, ?_⟩
  · intro j cj hj hrj
    rcases getElem?_snoc_cases hj with hj | ⟨-, rfl⟩
    · exact h.running j cj hj hrj
    · cases hrj
  · intro j cj d hj hw
    rcases getElem?_snoc_cases hj with hj | ⟨-, rfl⟩
    · exact h.waiting j cj d hj hw
    · cases hw
  · intro j k cj ck hj hk hwj hwk
    rcases getElem?_snoc_cases hj with hj | ⟨-, rfl⟩
    · rcases getElem?_snoc_cases hk with hk | ⟨-, rfl⟩
      · exact h.alone j k cj ck hj hk hwj hwk
      · cases hwk
    · cases hwj
  · intro j cj hj hsj
    rcases getElem?_snoc_cases hj with hj | ⟨-, rfl⟩
    · exact h.superseded j cj hj hsj
    · cases hsj

/-- An incoming message starts a campaign, or joins the list of the current one. -/
theorem CampaignInv.receive (h : CampaignInv e) (m : ElectionMessage) :
    CampaignInv (e.receive m) := by
  unfold Election.receive
  split
  · exact h
  · split
    · refine CampaignInv.spawn ?_ _
      exact h.congr (fun j cj hj => ⟨cj, hj, rfl, rfl, rfl⟩) rfl rfl
    · split
      · exact h
      · refine h.congr ?_ rfl rfl
        intro j cj hj
        rw [List.getElem?_modify] at hj
        obtain ⟨bj, hbj, rfl⟩ := Option.map_eq_some_iff.mp hj
        refine ⟨bj, hbj, ?_⟩
        split <;> exact ⟨rfl, rfl, rfl⟩

/-- **A campaign goes on from the `await` it is suspended at.** -/
theorem CampaignInv.resume (h : CampaignInv e) (hr : e.resume i = some e') : CampaignInv e' := by
  unfold Election.resume at hr
  split at hr
  · cases hr
  · rename_i c hc
    split at hr
    · -- the event is set, so the campaign it belongs to no longer runs
      rename_i d hst
      split at hr
      · rename_i hdone
        obtain rfl := Option.some.inj hr
        have hcd := h.waiting i c d hc hst
        obtain ⟨cd, hcd', hfin⟩ := isDone_iff.1 hdone
        refine CampaignInv.enter
          (h.not_superseded hc (by rw [hst]; rfl) (by rw [hst]; exact Stage.noConfusion)) ?_
        intro j cj hji hj
        have hnr : cj.stage.running = false := by
          by_contra hrj
          have hjd := (h.running j cj hj (by simpa using hrj)).1
          rw [hcd] at hjd
          obtain rfl := Option.some.inj hjd
          rw [hcd'] at hj
          obtain rfl := Option.some.inj hj
          rw [hfin] at hrj
          exact hrj rfl
        refine ⟨hnr, ?_, ?_⟩
        · by_contra hw
          exact hji (h.alone j i cj c hj hc (by simpa using hw) (by rw [hst]; rfl))
        · intro hs
          rcases h.superseded j cj hj hs with hf | ⟨hrj, -⟩
          · exact hf
          · rw [hnr] at hrj; cases hrj
      · cases hr
    · rename_i hst
      split at hr
      · cases hr
      · obtain rfl := Option.some.inj hr
        exact h.advance hc (by rw [hst]; rfl) rfl rfl rfl rfl rfl rfl
    · rename_i hst
      obtain rfl := Option.some.inj hr
      exact h.advance hc (by rw [hst]; rfl) rfl rfl rfl rfl rfl rfl
    · rename_i hst
      split at hr
      · cases hr
      · obtain rfl := Option.some.inj hr
        exact h.advance hc (by rw [hst]; rfl) rfl rfl rfl rfl rfl rfl
    · rename_i hst
      split at hr
      · cases hr
      · obtain ⟨m, hm, rfl⟩ := Option.map_eq_some_iff.mp hr
        exact h.advance hc (by rw [hst]; rfl) rfl rfl rfl rfl rfl rfl
    · rename_i outcome hst
      split at hr
      · cases hr
      · obtain rfl := Option.some.inj hr
        have h' : CampaignInv { e with emitted := e.emitted ++ [outcome] } :=
          h.congr (fun j cj hj => ⟨cj, hj, rfl, rfl, rfl⟩) rfl rfl
        exact h'.finish hc (by rw [hst]; rfl)
    · cases hr
    · cases hr

theorem CampaignInv.cancelled (h : CampaignInv e) (hs : e.cancelled i = some e') :
    CampaignInv e' := by
  unfold Election.cancelled at hs
  split at hs
  · cases hs
  · rename_i c hc
    split at hs
    · rename_i hr
      obtain rfl := Option.some.inj hs
      exact h.finish hc hr.1
    · cases hs

/-- No campaign starts while another one is waiting. -/
def OneAtATime (e : Election) : Action → Prop
  | .start _ => e.NoneWaiting
  | _ => True

/-- **Every step keeps the campaigns in line, if a campaign only starts when none waits.** -/
theorem campaignInv_step (h : CampaignInv e) {a : Action}
    (hok : OneAtATime e a) (hs : e.step a = some e') : CampaignInv e' := by
  cases a <;> simp only [step] at hs
  case message m =>
    obtain rfl := Option.some.inj hs
    exact (h.receive m).congr (fun j cj hj => ⟨cj, hj, rfl, rfl, rfl⟩) rfl rfl
  case connection =>
    obtain rfl := Option.some.inj hs
    refine CampaignInv.spawn ?_ _
    exact h.congr (fun j cj hj => ⟨cj, hj, rfl, rfl, rfl⟩) rfl rfl
  case command =>
    obtain rfl := Option.some.inj hs
    exact h.congr (fun j cj hj => ⟨cj, hj, rfl, rfl, rfl⟩) rfl rfl
  case start i => exact h.begin hok hs
  case resume i => exact h.resume hs
  case cancelled i => exact h.cancelled hs

theorem campaignInv_init (cfg : Config) : CampaignInv (init cfg) := by
  have h0 : CampaignInv ((create cfg).spawn []) := by
    refine CampaignInv.spawn ⟨?_, ?_, ?_, ?_⟩ []
    all_goals simp [create]
  have hnone : ((create cfg).spawn []).NoneWaiting := by
    intro c hc
    simp only [create, Election.spawn, List.nil_append, List.mem_singleton] at hc
    rw [hc]; rfl
  exact h0.begin (i := 0) hnone rfl

/-! ## Superseded campaigns -/

/-- A step of campaign `i` that adds no status, elects nobody and emits nothing. -/
structure Inert (e e' : Election) (i : Nat) : Prop where
  candidates : e'.campaigns[i]?.map Campaign.candidates = e.campaigns[i]?.map Campaign.candidates
  seniority : e'.seniority = e.seniority
  currentSession : e'.currentSession = e.currentSession
  emitted : e'.emitted = e.emitted

/-- **A superseded campaign does nothing any more.** -/
theorem CampaignInv.inert (h : CampaignInv e) (hc : e.campaigns[i]? = some c)
    (hsup : c.superseded) {a : Action} (ha : a.campaign = some i) (hs : e.step a = some e') :
    Inert e e' i := by
  have hlt : i < e.campaigns.length := (List.getElem?_eq_some_iff.mp hc).1
  have hset : ∀ c' : Campaign, c'.candidates = c.candidates →
      (e.campaigns.set i c')[i]?.map Campaign.candidates
        = e.campaigns[i]?.map Campaign.candidates := by
    intro c' hc'
    rw [List.getElem?_set_self hlt, hc]
    simp [hc']
  rcases h.superseded i c hc hsup with hfin | ⟨hrun, hcan⟩
  · -- a finished campaign takes no step at all
    cases a <;> simp only [Action.campaign, Option.some.injEq, reduceCtorEq] at ha
    · subst ha
      simp [step, Election.resume, hc, hfin] at hs
    · subst ha
      simp [step, Election.cancelled, hc, hfin, Stage.running] at hs
  · cases a <;> simp only [Action.campaign, Option.some.injEq, reduceCtorEq] at ha
    · -- a cancelled one can only wake from its sleep
      subst ha
      simp only [step, Election.resume, hc, hcan, if_true] at hs
      split at hs
      all_goals first
        | cases hs; done
        | rename_i hst; rw [hst] at hrun; cases hrun; done
        | obtain rfl := Option.some.inj hs; exact ⟨hset _ rfl, rfl, rfl, rfl⟩
    · subst ha
      simp only [step, Election.cancelled, hc] at hs
      rw [if_pos ⟨hrun, hcan⟩] at hs
      obtain rfl := Option.some.inj hs
      exact ⟨hset _ rfl, rfl, rfl, rfl⟩

end Exo.Election
