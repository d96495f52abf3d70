import Exo.Node

/-!
# The role of a node is consistent

A node that is master proposes the session it runs, so it is never elected master
of another session: by the time a campaign elects, the session is still the one it
made its proposal in, because no other campaign ran in between. This is where
the node relies on campaigns being exclusive.
-/

namespace Exo

open Lib

/-- Past the wait, and before the election. -/
def Stage.campaigning : Stage → Bool
  | .sending | .sleeping | .resending | .checkpoint => true
  | _ => false

/-- In the send of a result that changes the session. -/
def Stage.handingOver : Stage → Bool
  | .electing o => o.result.isNewMaster
  | _ => false

/-- How a campaign fits the current session, and the session the node is in. -/
structure Campaign.Fits (nodeId : NodeId) (session router : SessionId) (c : Campaign) : Prop where
  /-- A result in its send has set the session, and compares it with the node's. -/
  electing : ∀ o, c.stage = .electing o → o.result.sessionId = session
    ∧ o.result.isNewMaster = decide (session ≠ router)
    ∧ (session.masterNodeId = nodeId → router.masterNodeId = nodeId → session = router)
  /-- A result that changes the session is not lost. -/
  kept : ∀ o, c.stage = .electing o → o.result.isNewMaster → c.cancelCalled = false
  /-- A master proposes the session it runs. -/
  own : c.stage.campaigning → ∀ m ∈ c.candidates, m.proposedSession.masterNodeId = nodeId →
    session.masterNodeId = nodeId → m.proposedSession = session
  /-- Before the wait is over, the list has no own status. -/
  others : c.stage = .spawned ∨ c.stage.isWaiting → ∀ m ∈ c.candidates,
    m.proposedSession.masterNodeId ≠ nodeId

variable {nodeId : NodeId}

/-- A campaign that does not run fits every session. -/
theorem Campaign.Fits.idle {session router session' router' : SessionId}
    {c : Campaign} (h : c.Fits nodeId session router) (hr : c.stage.running = false) :
    c.Fits nodeId session' router' := by
  refine ⟨?_, ?_, ?_, h.others⟩
  · intro o ho; rw [ho] at hr; cases hr
  · intro o ho; rw [ho] at hr; cases hr
  · intro hcam
    cases hst : c.stage <;> rw [hst] at hr hcam <;> simp_all [Stage.running, Stage.campaigning]

/-- A change that keeps the stage, and cancels no result that changes the session. -/
theorem Campaign.Fits.congr {session router : SessionId} {b c : Campaign}
    (h : b.Fits nodeId session router) (hst : c.stage = b.stage)
    (hcand : ∀ m ∈ c.candidates, m ∈ b.candidates ∨ m.proposedSession.masterNodeId ≠ nodeId)
    (hcan : ∀ o, b.stage = .electing o → o.result.isNewMaster → c.cancelCalled = b.cancelCalled) :
    c.Fits nodeId session router := by
  refine ⟨?_, ?_, ?_, ?_⟩
  · intro o ho; exact h.electing o (hst ▸ ho)
  · intro o ho hnew
    rw [hst] at ho
    rw [hcan o ho hnew]
    exact h.kept o ho hnew
  · intro hcam m hm hown
    rcases hcand m hm with hm | hm
    · exact h.own (hst ▸ hcam) m hm hown
    · exact absurd hown hm
  · intro hw m hm
    rcases hcand m hm with hm | hm
    · exact h.others (hst ▸ hw) m hm
    · exact hm

namespace Election

/-- The node that has processed everything emitted so far. -/
def node (e : Election) (args : Node.Args) : Node :=
  (Node.create e.nodeId args).after (e.emitted.map Outcome.result)

/-- What ties the election to the node that follows it. -/
structure RoleInv (args : Node.Args) (e : Election) : Prop where
  /-- The node is settled. -/
  settled : (e.node args).Settled
  /-- The node is this node. -/
  nodeId : (e.node args).nodeId = e.nodeId
  /-- The node is in the current session, or is about to be told of it. -/
  session : (e.node args).eventRouter = e.currentSession
    ∨ ∃ (i : Nat) (c : Campaign) (o : Outcome), e.campaigns[i]? = some c
      ∧ c.stage = .electing o ∧ o.result.isNewMaster
  /-- Every campaign fits. -/
  fits : ∀ (i : Nat) (c : Campaign), e.campaigns[i]? = some c →
    c.Fits e.nodeId e.currentSession (e.node args).eventRouter
  /-- The node was consistent after every result. -/
  past : ∀ rs r, rs ++ [r] <+: e.emitted.map Outcome.result →
    ((Node.create e.nodeId args).after (rs ++ [r])).Consistent r

variable {args : Node.Args} {e e' : Election} {i : Nat} {c c' : Campaign}

/-- A step of the campaigns that elects nobody and emits nothing. -/
theorem RoleInv.congr (h : RoleInv args e)
    (hfits : ∀ (j : Nat) (cj : Campaign), e'.campaigns[j]? = some cj →
      cj.Fits e.nodeId e.currentSession (e.node args).eventRouter)
    (hkeep : ∀ (j : Nat) (bj : Campaign) o, e.campaigns[j]? = some bj → bj.stage = .electing o →
      o.result.isNewMaster → ∃ cj, e'.campaigns[j]? = some cj ∧ cj.stage = .electing o)
    (hid : e'.nodeId = e.nodeId) (hs : e'.currentSession = e.currentSession)
    (hem : e'.emitted = e.emitted) : RoleInv args e' := by
  have hn : e'.node args = e.node args := by rw [node, node, hid, hem]
  refine ⟨?_, ?_, ?_, ?_, ?_⟩
  · rw [hn]; exact h.settled
  · rw [hn, hid]; exact h.nodeId
  · rw [hn, hs]
    rcases h.session with hsame | ⟨j, bj, o, hj, hst, hnew⟩
    · exact .inl hsame
    · obtain ⟨cj, hcj, hcst⟩ := hkeep j bj o hj hst hnew
      exact .inr ⟨j, cj, o, hcj, hcst, hnew⟩
  · rw [hn, hs, hid]; exact hfits
  · rw [hem, hid]; exact h.past

/-- One campaign moves on, and elects nobody. -/
theorem RoleInv.set (h : RoleInv args e) (hc : e.campaigns[i]? = some c)
    (hcs : e'.campaigns = e.campaigns.set i c')
    (hfit : c'.Fits e.nodeId e.currentSession (e.node args).eventRouter)
    (hnot : ∀ o, c.stage = .electing o → o.result.isNewMaster = false)
    (hid : e'.nodeId = e.nodeId) (hs : e'.currentSession = e.currentSession)
    (hem : e'.emitted = e.emitted) : RoleInv args e' := by
  refine h.congr ?_ ?_ hid hs hem
  · intro j cj hj
    rw [hcs] at hj
    rcases getElem?_set_cases hj with ⟨rfl, rfl⟩ | ⟨-, hj⟩
    · exact hfit
    · exact h.fits j cj hj
  · intro j bj o hj hst hnew
    have hji : j ≠ i := by
      rintro rfl
      rw [hc] at hj
      obtain rfl := Option.some.inj hj
      rw [hnot o hst] at hnew
      cases hnew
    refine ⟨bj, ?_, hst⟩
    rw [hcs, List.getElem?_set_ne (Ne.symm hji)]
    exact hj

theorem RoleInv.spawn (h : RoleInv args e) {candidates : List ElectionMessage}
    (hc : ∀ m ∈ candidates, m.proposedSession.masterNodeId ≠ e.nodeId) :
    RoleInv args (e.spawn candidates) := by
  refine h.congr ?_ ?_ rfl rfl rfl
  · intro j cj hj
    rcases getElem?_snoc_cases hj with hj | ⟨-, rfl⟩
    · exact h.fits j cj hj
    · refine ⟨by rintro o ⟨⟩, by rintro o ⟨⟩, by rintro ⟨⟩, fun _ => hc⟩
  · intro j bj o hj hst hnew
    refine ⟨bj, ?_, hst⟩
    rw [Election.spawn, List.getElem?_append_left (List.getElem?_eq_some_iff.mp hj).1]
    exact hj

theorem RoleInv.receive (h : RoleInv args e) (m : ElectionMessage) :
    RoleInv args (e.receive m) := by
  unfold Election.receive
  split
  · exact h
  · rename_i hown
    split
    · have h' : RoleInv args { e with clock := m.clock } :=
        h.congr h.fits (fun j bj o hj hst _ => ⟨bj, hj, hst⟩) rfl rfl rfl
      refine h'.spawn ?_
      intro m' hm'
      rw [List.mem_singleton.mp hm']
      exact hown
    · split
      · exact h
      · refine h.congr ?_ ?_ rfl rfl rfl
        · intro j cj hj
          rw [List.getElem?_modify] at hj
          obtain ⟨bj, hbj, rfl⟩ := Option.map_eq_some_iff.mp hj
          split
          · refine (h.fits j bj hbj).congr rfl ?_ (fun _ _ _ => rfl)
            intro m' hm'
            rcases List.mem_append.mp hm' with hm' | hm'
            · exact .inl hm'
            · rw [List.mem_singleton.mp hm']; exact .inr hown
          · exact h.fits j bj hbj
        · intro j bj o hj hst hnew
          rw [List.getElem?_modify, hj]
          refine ⟨_, rfl, ?_⟩
          split <;> exact hst

/-- The own status proposes the current session, if this node is its master. -/
theorem RoleInv.enter (h : RoleInv args e) (hc : e.campaigns[i]? = some c)
    (hst : c.stage = .spawned ∨ c.stage.isWaiting) {clock : Int} :
    RoleInv args (e.enter i { c with clock := clock }) := by
  refine h.set hc rfl ⟨by rintro o ⟨⟩, by rintro o ⟨⟩, ?_, ?_⟩ ?_ rfl rfl rfl
  · intro _ m hm hown hses
    rcases List.mem_append.mp hm with hm | hm
    · exact absurd hown ((h.fits i c hc).others hst m hm)
    · rw [List.mem_singleton.mp hm, Election.electionStatus]
      exact if_pos hses
  · rintro (hs | hs) <;> cases hs
  · intro o ho
    rcases hst with hst | hst
    · rw [hst] at ho; cases ho
    · rw [ho] at hst; cases hst

/-- No campaign is in the send of a result that changes the session. -/
def NoneHandingOver (e : Election) : Prop := ∀ c ∈ e.campaigns, c.stage.handingOver = false

instance (e : Election) : Decidable e.NoneHandingOver := inferInstanceAs (Decidable (∀ c ∈ _, _))

theorem NoneHandingOver.not_new (h : e.NoneHandingOver) (hc : e.campaigns[i]? = some c)
    {o : Outcome} (ho : c.stage = .electing o) : o.result.isNewMaster = false := by
  have := h c (List.mem_of_getElem? hc)
  rwa [ho] at this

/-- **Starting a campaign loses no result that changes the session.** -/
theorem RoleInv.begin (h : RoleInv args e) (hnone : e.NoneHandingOver)
    (hb : e.begin i = some e') : RoleInv args e' := by
  unfold Election.begin at hb
  split at hb
  · rename_i c hc
    split at hb
    · rename_i hst
      have h' : RoleInv args { e with
          campaigns := e.campaigns.mapIdx (Campaign.overtaken e.campaignCancelScope) } := by
        refine h.congr ?_ ?_ rfl rfl rfl
        · intro j cj hj
          rw [List.getElem?_mapIdx] at hj
          obtain ⟨bj, hbj, rfl⟩ := Option.map_eq_some_iff.mp hj
          unfold Campaign.overtaken
          split
          · exact h.fits j bj hbj
          · refine (h.fits j bj hbj).congr rfl (fun m hm => .inl hm) ?_
            intro o ho hnew
            rw [hnone.not_new hbj ho] at hnew
            cases hnew
        · intro j bj o hj hbst hnew
          rw [hnone.not_new hj hbst] at hnew
          cases hnew
      have hc' : (e.campaigns.mapIdx (Campaign.overtaken e.campaignCancelScope))[i]? = some c := by
        rw [List.getElem?_mapIdx, hc, Option.map_some, Campaign.overtaken, if_pos hst]
      split at hb
      · obtain rfl := Option.some.inj hb
        exact h'.enter hc' (.inl hst)
      · obtain rfl := Option.some.inj hb
        refine h'.set hc' rfl ⟨by rintro o ⟨⟩, by rintro o ⟨⟩, by rintro ⟨⟩, ?_⟩ ?_ rfl rfl rfl
        · intro _
          exact (h.fits i c hc).others (.inl hst)
        · intro o ho
          rw [hst] at ho; cases ho
    · cases hb
  · cases hb

/-- **An election changes the session, and the node is the only one still to learn it.** -/
theorem RoleInv.elect (h : RoleInv args e) (hcamp : CampaignInv e)
    (hc : e.campaigns[i]? = some c) (hst : c.stage = .checkpoint) (hcan : c.cancelCalled = false)
    {m : ElectionMessage} (hm : m ∈ c.candidates) : RoleInv args (e.elect i c m) := by
  have hrun : c.stage.running := by rw [hst]; rfl
  -- nobody else runs, so nobody else is in the send of a result
  have hidle : ∀ (j : Nat) (cj : Campaign), j ≠ i → e.campaigns[j]? = some cj →
      cj.stage.running = false := by
    intro j cj hji hj
    by_contra hrj
    exact hji (hcamp.one hj hc (by simpa using hrj) hrun)
  have hrouter : (e.node args).eventRouter = e.currentSession := by
    rcases h.session with hs | ⟨j, cj, o, hj, hcj, -⟩
    · exact hs
    · by_cases hji : j = i
      · subst hji
        rw [hc] at hj
        obtain rfl := Option.some.inj hj
        rw [hst] at hcj; cases hcj
      · have := hidle j cj hji hj
        rw [hcj] at this; cases this
  have hnode : (e.elect i c m).node args = e.node args := rfl
  have hget : (e.elect i c m).campaigns[i]? = some { c with
      stage := .electing
        { result :=
            { sessionId := m.proposedSession
              wonClock := m.clock
              isNewMaster := m.proposedSession ≠ e.currentSession }
          queue := c.candidates
          receivedBefore := e.received.length } } :=
    List.getElem?_set_self (List.getElem?_eq_some_iff.mp hc).1
  refine ⟨h.settled, h.nodeId, ?_, ?_, h.past⟩
  · by_cases hnew : m.proposedSession = e.currentSession
    · left
      rw [hnode, hrouter]
      exact hnew.symm
    · exact .inr ⟨i, _, _, hget, rfl, by simpa using hnew⟩
  · intro j cj hj
    rcases getElem?_set_cases hj with ⟨rfl, rfl⟩ | ⟨hji, hj⟩
    · refine ⟨?_, fun _ _ _ => hcan, by rintro ⟨⟩, ?_⟩
      · rintro o ⟨⟩
        rw [hnode, hrouter]
        exact ⟨rfl, rfl, (h.fits j c hc).own (by rw [hst]; rfl) m hm⟩
      · rintro (hs | hs) <;> cases hs
    · exact (h.fits j cj hj).idle (hidle j cj hji hj)

/-- **A result that gets through leaves the node consistent.** -/
theorem RoleInv.emit (h : RoleInv args e) (hcamp : CampaignInv e)
    (hc : e.campaigns[i]? = some c) {o : Outcome} (hst : c.stage = .electing o) :
    RoleInv args ({ e with emitted := e.emitted ++ [o] }.finish i c) := by
  obtain ⟨hses, hnew, hown⟩ := (h.fits i c hc).electing o hst
  have hnode : ({ e with emitted := e.emitted ++ [o] }.finish i c).node args
      = (e.node args).electLoop o.result := by
    simp [node, Election.finish, Node.after]
  obtain ⟨hset, hrouter⟩ : ((e.node args).electLoop o.result).Settled ∧ _ := h.settled.electLoop
    (by rw [hses]; exact hnew) (by rw [hses, h.nodeId]; exact hown)
  have hidle : ∀ (j : Nat) (cj : Campaign), j ≠ i → e.campaigns[j]? = some cj →
      cj.stage.running = false := by
    intro j cj hji hj
    by_contra hrj
    exact hji (hcamp.one hj hc (by simpa using hrj) (by rw [hst]; rfl))
  refine ⟨?_, ?_, ?_, ?_, ?_⟩
  · rw [hnode]; exact hset
  · rw [hnode, Node.electLoop_nodeId]; exact h.nodeId
  · left
    rw [hnode, hrouter]
    exact hses
  · intro j cj hj
    rcases getElem?_set_cases hj with ⟨rfl, rfl⟩ | ⟨hji, hj⟩
    · refine ⟨by rintro o ⟨⟩, by rintro o ⟨⟩, by rintro ⟨⟩, ?_⟩
      rintro (hs | hs) <;> cases hs
    · exact (h.fits j cj hj).idle (hidle j cj hji hj)
  · intro rs r hp
    have hp : rs ++ [r] <+: e.emitted.map Outcome.result ++ [o.result] := by
      simpa [Election.finish] using hp
    rcases List.prefix_concat_iff.mp hp with heq | hp
    · obtain ⟨rfl, hr⟩ := List.append_inj' heq rfl
      obtain rfl := List.cons.inj hr |>.1
      have hafter : (Node.create e.nodeId args).after (e.emitted.map Outcome.result ++ [o.result])
          = (e.node args).electLoop o.result := by
        simp [node, Node.after]
      show ((Node.create e.nodeId args).after _).Consistent o.result
      rw [hafter]
      exact hset.consistent hrouter
    · exact h.past rs r hp

theorem RoleInv.resume (h : RoleInv args e) (hcamp : CampaignInv e)
    (hr : e.resume i = some e') : RoleInv args e' := by
  unfold Election.resume at hr
  split at hr
  · cases hr
  · rename_i c hc
    -- between two awaits before the election, nothing that has to fit changes
    have hmove : ∀ (stage : Stage) (e₁ : Election), c.stage.campaigning → stage.campaigning →
        e₁.campaigns = e.campaigns.set i { c with stage := stage } → e₁.nodeId = e.nodeId →
        e₁.currentSession = e.currentSession → e₁.emitted = e.emitted → RoleInv args e₁ := by
      intro stage e₁ hcam hcam' hcs hid hs hem
      refine h.set hc hcs ⟨?_, ?_, fun _ => (h.fits i c hc).own hcam, ?_⟩ ?_ hid hs hem
      · rintro o rfl; cases hcam'
      · rintro o rfl; cases hcam'
      · rintro (hst | hst)
        · rw [show stage = .spawned from hst] at hcam'; cases hcam'
        · cases stage <;> simp_all [Stage.campaigning, Stage.isWaiting]
      · intro o ho
        rw [ho] at hcam; cases hcam
    split at hr
    · rename_i d hst
      split at hr
      · obtain rfl := Option.some.inj hr
        exact h.enter hc (.inr (by rw [hst]; rfl))
      · cases hr
    · rename_i hst
      split at hr
      · cases hr
      · obtain rfl := Option.some.inj hr
        exact hmove .sleeping _ (by rw [hst]; rfl) rfl rfl rfl rfl rfl
    · rename_i hst
      obtain rfl := Option.some.inj hr
      exact hmove .resending _ (by rw [hst]; rfl) rfl rfl rfl rfl rfl
    · rename_i hst
      split at hr
      · cases hr
      · obtain rfl := Option.some.inj hr
        exact hmove .checkpoint _ (by rw [hst]; rfl) rfl rfl rfl rfl rfl
    · rename_i hst
      split at hr
      · cases hr
      · rename_i hcan
        obtain ⟨m, hm, rfl⟩ := Option.map_eq_some_iff.mp hr
        exact h.elect hcamp hc hst (by simpa using hcan) (maxCandidate_mem hm)
    · rename_i o hst
      split at hr
      · cases hr
      · obtain rfl := Option.some.inj hr
        exact h.emit hcamp hc hst
    · cases hr
    · cases hr

/-- A cancelled campaign has no result that changes the session. -/
theorem RoleInv.cancelled (h : RoleInv args e) (hs : e.cancelled i = some e') :
    RoleInv args e' := by
  unfold Election.cancelled at hs
  split at hs
  · cases hs
  · rename_i c hc
    split at hs
    · rename_i hr
      obtain rfl := Option.some.inj hs
      refine h.set hc rfl ⟨by rintro o ⟨⟩, by rintro o ⟨⟩, by rintro ⟨⟩, ?_⟩ ?_ rfl rfl rfl
      · rintro (hst | hst) <;> cases hst
      · intro o ho
        by_contra hnew
        have := (h.fits i c hc).kept o ho (by simpa using hnew)
        rw [hr.2] at this; cases this
    · cases hs

/-- Campaigns start one at a time, and never while a result that changes the session is sent. -/
def Undisturbed (e : Election) : Action → Prop
  | .start _ => e.NoneWaiting ∧ e.NoneHandingOver
  | _ => True

instance (e : Election) : (a : Action) → Decidable (Undisturbed e a)
  | .start _ => inferInstanceAs (Decidable (e.NoneWaiting ∧ e.NoneHandingOver))
  | .message _ | .connection | .command | .resume _ | .cancelled _ => .isTrue trivial

theorem roleInv_step (h : RoleInv args e) (hcamp : CampaignInv e) {a : Action}
    (hok : Undisturbed e a) (hs : e.step a = some e') : RoleInv args e' := by
  have hsame : ∀ (j : Nat) (bj : Campaign) o, e.campaigns[j]? = some bj →
      bj.stage = .electing o → o.result.isNewMaster →
      ∃ cj, e.campaigns[j]? = some cj ∧ cj.stage = .electing o :=
    fun j bj o hj hst _ => ⟨bj, hj, hst⟩
  cases a <;> simp only [step] at hs
  case message m =>
    obtain rfl := Option.some.inj hs
    have h' := h.receive m
    exact h'.congr h'.fits (fun j bj o hj hst _ => ⟨bj, hj, hst⟩) rfl rfl rfl
  case connection =>
    obtain rfl := Option.some.inj hs
    have h' : RoleInv args { e with clock := e.clock + 1 } := h.congr h.fits hsame rfl rfl rfl
    exact h'.spawn (by simp)
  case command =>
    obtain rfl := Option.some.inj hs
    exact h.congr h.fits hsame rfl rfl rfl
  case start i => exact h.begin hok.2 hs
  case resume i => exact h.resume hcamp hs
  case cancelled i => exact h.cancelled hs

theorem roleInv_init (cfg : Config) (args : Node.Args) : RoleInv args (init cfg) := by
  have h0 : RoleInv args ((create cfg).spawn []) := by
    refine RoleInv.spawn ⟨?_, rfl, .inl rfl, ?_, ?_⟩ (by simp)
    · simp [Node.Settled, node, Node.after, Node.create, create]
    · intro i c hc
      simp [create] at hc
    · intro rs r hp
      simp [create] at hp
  refine h0.begin (i := 0) ?_ rfl
  intro c hc
  simp only [create, Election.spawn, List.nil_append, List.mem_singleton] at hc
  rw [hc]; rfl

/-- **The role of the node is consistent after every result of an undisturbed election.** -/
theorem role_consistent {cfg : Config} (args : Node.Args) {e : Election}
    (h : (machine cfg).ReachableWhen Undisturbed e) {rs : List ElectionResult}
    {r : ElectionResult} (hp : rs ++ [r] <+: e.emitted.map Outcome.result) :
    ((Node.create e.nodeId args).after (rs ++ [r])).Consistent r := by
  have hboth : CampaignInv e ∧ RoleInv args e := by
    refine h.invariant (P := fun e => CampaignInv e ∧ RoleInv args e)
      ⟨campaignInv_init cfg, roleInv_init cfg args⟩ ?_
    intro e a e' he hok hs
    have hone : OneAtATime e a := by
      cases a <;> first | exact hok.1 | trivial
    exact ⟨campaignInv_step he.1 hone hs, roleInv_step he.2 he.1 hok hs⟩
  exact hboth.2.past rs r hp

/-- Node 1 wins alone, then loses to node 2. -/
def handover : List Action :=
  [.resume 0, .resume 0, .resume 0, .resume 0, .resume 0, .message ⟨1, 5, ⟨2, 1⟩, 0⟩, .start 1,
    .resume 1, .resume 1, .resume 1, .resume 1, .resume 1, .resume 1]

theorem role_consistent_handover :
    ∃ e, (machine { nodeId := 1 }).ReachableWhen Undisturbed e
      ∧ e.emitted.map Outcome.result = [⟨⟨1, 0⟩, 0, false⟩] ++ [⟨⟨2, 1⟩, 1, true⟩]
      ∧ ((Node.create e.nodeId {}).after ([⟨⟨1, 0⟩, 0, false⟩] ++ [⟨⟨2, 1⟩, 1, true⟩])).Consistent
        ⟨⟨2, 1⟩, 1, true⟩ := by
  have hrun : ((machine { nodeId := 1 }).runWhen Undisturbed (init { nodeId := 1 }) handover).map
      (fun e => e.emitted.map Outcome.result)
      = some ([⟨⟨1, 0⟩, 0, false⟩] ++ [⟨⟨2, 1⟩, 1, true⟩]) := by decide
  obtain ⟨e, he, hres⟩ := Option.map_eq_some_iff.mp hrun
  have hreach := Machine.reachableWhen_of_run he
  exact ⟨e, hreach, hres, role_consistent {} hreach (hres ▸ List.prefix_rfl)⟩

/--
Node 2 is master. Two rounds start while a third is being cancelled, neither sees
the other, and node 1 wins both with a proposal of its own for each.
-/
def promotedTwice : List Action :=
  handover ++ [.connection, .start 2, .resume 2, .message ⟨3, 0, ⟨3, 3⟩, 0⟩, .start 3,
    .message ⟨4, 0, ⟨3, 4⟩, 0⟩, .start 4, .cancelled 2,
    .resume 3, .resume 4, .resume 3, .resume 3, .resume 3, .resume 3, .resume 3,
    .resume 4, .resume 4, .resume 4, .resume 4, .resume 4]

theorem role_not_consistent :
    ∃ e, (machine { nodeId := 1 }).run (init { nodeId := 1 }) promotedTwice = some e
      ∧ e.emitted.map Outcome.result = [⟨⟨1, 0⟩, 0, false⟩, ⟨⟨2, 1⟩, 1, true⟩, ⟨⟨1, 3⟩, 3, true⟩]
        ++ [⟨⟨1, 4⟩, 4, true⟩]
      ∧ (e.node {}).master = some ⟨1, 3⟩ ∧ (e.node {}).eventRouter = ⟨1, 4⟩
      ∧ ¬ (e.node {}).Consistent ⟨⟨1, 4⟩, 4, true⟩ := by
  have hrun : ((machine { nodeId := 1 }).run (init { nodeId := 1 }) promotedTwice).map
      (fun e => (e.emitted.map Outcome.result, (e.node {}).master, (e.node {}).eventRouter))
      = some ([⟨⟨1, 0⟩, 0, false⟩, ⟨⟨2, 1⟩, 1, true⟩, ⟨⟨1, 3⟩, 3, true⟩]
        ++ [⟨⟨1, 4⟩, 4, true⟩], some ⟨1, 3⟩, ⟨1, 4⟩) := by decide
  obtain ⟨e, he, hsees⟩ := Option.map_eq_some_iff.mp hrun
  obtain ⟨hres, hrest⟩ := Prod.mk.inj hsees
  obtain ⟨hmaster, hrouter⟩ := Prod.mk.inj hrest
  refine ⟨e, he, hres, hmaster, hrouter, ?_⟩
  intro hcon
  have := hcon.session _ hmaster
  rw [hrouter] at this
  cases this

end Election

end Exo
