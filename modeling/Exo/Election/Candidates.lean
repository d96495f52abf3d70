import Exo.Election.Campaigns

/-!
# What a result was elected from

A list of candidates belongs to the clock at which it was made. Messages join it
while that clock is the current one, and its campaign adds one status of its own,
for the clock it read when it started. The two clocks agree unless the clock moved
on before the campaign ran for the first time.
-/

namespace Exo

open Lib
open scoped List

/-- The messages of clock `r` from other nodes that came in while `r` was the current clock. -/
def heard (nodeId : NodeId) (received : List (Int × ElectionMessage)) (r : Int) :
    List ElectionMessage :=
  (received.filter fun p =>
    decide (p.1 = r ∧ p.2.clock = r ∧ p.2.proposedSession.masterNodeId ≠ nodeId)).map Prod.snd

/-- One own status for `clock`, and the messages heard in `round`. -/
def Joined (nodeId : NodeId) (received : List (Int × ElectionMessage)) (round clock : Int)
    (candidates : List ElectionMessage) : Prop :=
  ∃ own : ElectionMessage, own.proposedSession.masterNodeId = nodeId ∧ own.clock = clock
    ∧ candidates.Perm (own :: heard nodeId received round)

/-- A result is the maximum of the list it should have been taken from. -/
structure Outcome.IsMaximum (nodeId : NodeId) (received : List (Int × ElectionMessage))
    (o : Outcome) : Prop where
  /-- The election took place at some point of what was received. -/
  before : o.receivedBefore ≤ received.length
  /-- The list held one own status for the winning clock, and what was heard in it. -/
  queue : Joined nodeId (received.take o.receivedBefore) o.result.wonClock o.result.wonClock
    o.queue
  /-- The result is a message of the list that no other beats. -/
  elected : ∃ m ∈ o.queue, m.proposedSession = o.result.sessionId ∧ m.clock = o.result.wonClock
    ∧ ∀ a ∈ o.queue, m.lt a = false

/-- A list holds what it should at the stage its campaign is at. -/
def Campaign.Holds (nodeId : NodeId) (received : List (Int × ElectionMessage)) (c : Campaign) :
    Prop :=
  if c.stage = .spawned ∨ c.stage.isWaiting then c.candidates = heard nodeId received c.round
  else Joined nodeId received c.round c.clock c.candidates

section Received

variable {nodeId : NodeId} {received : List (Int × ElectionMessage)} {k r : Int}
  {m : ElectionMessage}

/-- A message that does not count for `r`. -/
theorem heard_snoc_of_not
    (h : ¬(k = r ∧ m.clock = r ∧ m.proposedSession.masterNodeId ≠ nodeId)) :
    heard nodeId (received ++ [(k, m)]) r = heard nodeId received r := by
  rw [heard, List.filter_append, List.filter_cons_of_neg (by simpa using h)]
  simp [heard]

/-- A message that does. -/
theorem heard_snoc_of
    (h : k = r ∧ m.clock = r ∧ m.proposedSession.masterNodeId ≠ nodeId) :
    heard nodeId (received ++ [(k, m)]) r = heard nodeId received r ++ [m] := by
  rw [heard, List.filter_append, List.filter_cons_of_pos (by simpa using h)]
  simp [heard]

/-- Nothing was heard in a round that has not come yet. -/
theorem heard_eq_nil (h : ∀ p ∈ received, p.1 < r) : heard nodeId received r = [] := by
  rw [heard, List.filter_eq_nil_iff.mpr]
  · rfl
  · intro p hp
    have := h p hp
    simp
    omega

theorem Campaign.Holds.congr {c : Campaign} {received' : List (Int × ElectionMessage)}
    (h : c.Holds nodeId received)
    (he : heard nodeId received' c.round = heard nodeId received c.round) :
    c.Holds nodeId received' := by
  unfold Campaign.Holds Joined at *
  rwa [he]

theorem Outcome.IsMaximum.extend {o : Outcome} (h : o.IsMaximum nodeId received)
    (t : List (Int × ElectionMessage)) : o.IsMaximum nodeId (received ++ t) where
  before := by
    rw [List.length_append]
    exact Nat.le_trans h.before (Nat.le_add_right _ _)
  queue := by rw [List.take_append_of_le_length h.before]; exact h.queue
  elected := h.elected

end Received

namespace Election

/-- What ties the lists of the campaigns to the clock and to what was received. -/
structure RoundInv (e : Election) : Prop where
  /-- The newest campaign has the list that is `_candidates`. -/
  newest : e.candidates + 1 = e.campaigns.length
  /-- Its round is the current clock. -/
  current : ∀ c : Campaign, e.campaigns[e.candidates]? = some c → c.round = e.clock
  /-- Rounds grow. -/
  rounds : ∀ (i j : Nat) (c c' : Campaign), i < j → e.campaigns[i]? = some c →
    e.campaigns[j]? = some c' → c.round < c'.round
  /-- Nothing was received in the future. -/
  past : ∀ p ∈ e.received, p.1 ≤ e.clock
  /-- Every list holds what it should. -/
  holds : ∀ (i : Nat) (c : Campaign), e.campaigns[i]? = some c → c.Holds e.nodeId e.received

/-- What the lists of the campaigns hold. -/
structure ListInv (e : Election) : Prop where
  /-- The newest campaign has the list that is `_candidates`. -/
  newest : e.candidates + 1 = e.campaigns.length
  /-- Its round is the current clock. -/
  current : ∀ c : Campaign, e.campaigns[e.candidates]? = some c → c.round = e.clock
  /-- Rounds grow. -/
  rounds : ∀ (i j : Nat) (c c' : Campaign), i < j → e.campaigns[i]? = some c →
    e.campaigns[j]? = some c' → c.round < c'.round
  /-- Nothing was received in the future. -/
  past : ∀ p ∈ e.received, p.1 ≤ e.clock
  /-- Every list holds what it should. -/
  holds : ∀ (i : Nat) (c : Campaign), e.campaigns[i]? = some c → c.Holds e.nodeId e.received
  /-- What is about to be emitted is a maximum. -/
  electing : ∀ (i : Nat) (c : Campaign) o, e.campaigns[i]? = some c → c.stage = .electing o →
    o.IsMaximum e.nodeId e.received
  /-- So is everything emitted. -/
  emitted : ∀ o ∈ e.emitted, o.IsMaximum e.nodeId e.received

theorem ListInv.round {e : Election} (h : ListInv e) : RoundInv e :=
  ⟨h.newest, h.current, h.rounds, h.past, h.holds⟩

variable {e e' : Election} {i : Nat} {c c' : Campaign}

/-! ## The lists -/

theorem RoundInv.round_lt (h : RoundInv e) (hc : e.campaigns[i]? = some c) (hi : i ≠ e.candidates) :
    c.round < e.clock := by
  have hlt : i < e.campaigns.length := (List.getElem?_eq_some_iff.mp hc).1
  have hnew := h.newest
  have hcur : e.candidates < e.campaigns.length := by omega
  have hget := List.getElem?_eq_getElem hcur
  rw [← h.current _ hget]
  exact h.rounds i e.candidates c _ (by omega) hc hget

/-- A change that keeps every list, and the clocks and stages of every campaign. -/
theorem RoundInv.congr (h : RoundInv e) (hl : e'.campaigns.length = e.campaigns.length)
    (hc : ∀ (j : Nat) (cj : Campaign), e'.campaigns[j]? = some cj → ∃ bj, e.campaigns[j]? = some bj
      ∧ cj.stage = bj.stage ∧ cj.round = bj.round ∧ cj.clock = bj.clock
      ∧ cj.candidates = bj.candidates)
    (hcur : e'.candidates = e.candidates) (hclock : e'.clock = e.clock)
    (hid : e'.nodeId = e.nodeId) (hrec : e'.received = e.received) : RoundInv e' := by
  refine ⟨?_, ?_, ?_, ?_, ?_⟩
  · rw [hcur, hl]; exact h.newest
  · intro c hcc
    rw [hcur] at hcc
    obtain ⟨b, hb, -, hr, -⟩ := hc _ c hcc
    rw [hr, hclock]
    exact h.current b hb
  · intro i j ci cj hij hi hj
    obtain ⟨bi, hbi, -, hri, -⟩ := hc i ci hi
    obtain ⟨bj, hbj, -, hrj, -⟩ := hc j cj hj
    rw [hri, hrj]
    exact h.rounds i j bi bj hij hbi hbj
  · rw [hrec, hclock]; exact h.past
  · intro j cj hj
    obtain ⟨bj, hbj, hst, hr, hck, hcand⟩ := hc j cj hj
    have := h.holds j bj hbj
    rw [hid, hrec]
    unfold Campaign.Holds at *
    rwa [hst, hr, hck, hcand]

/-- One campaign moves on, and its list with it. -/
theorem RoundInv.set (h : RoundInv e) (hc : e.campaigns[i]? = some c)
    (hcs : e'.campaigns = e.campaigns.set i c') (hround : c'.round = c.round)
    (hholds : c'.Holds e.nodeId e.received) (hcur : e'.candidates = e.candidates)
    (hclock : e'.clock = e.clock) (hid : e'.nodeId = e.nodeId)
    (hrec : e'.received = e.received) : RoundInv e' := by
  have hround' : ∀ (j : Nat) (cj : Campaign), (e.campaigns.set i c')[j]? = some cj →
      ∃ bj, e.campaigns[j]? = some bj ∧ cj.round = bj.round := by
    intro j cj hj
    rcases getElem?_set_cases hj with ⟨rfl, rfl⟩ | ⟨-, hj⟩
    · exact ⟨c, hc, hround⟩
    · exact ⟨cj, hj, rfl⟩
  refine ⟨?_, ?_, ?_, ?_, ?_⟩
  · rw [hcur, hcs, List.length_set]; exact h.newest
  · intro ck hk
    rw [hcs, hcur] at hk
    obtain ⟨bk, hbk, hr⟩ := hround' _ ck hk
    rw [hr, hclock]
    exact h.current bk hbk
  · intro j k cj ck hjk hj hk
    rw [hcs] at hj hk
    obtain ⟨bj, hbj, hrj⟩ := hround' j cj hj
    obtain ⟨bk, hbk, hrk⟩ := hround' k ck hk
    rw [hrj, hrk]
    exact h.rounds j k bj bk hjk hbj hbk
  · rw [hrec, hclock]; exact h.past
  · intro j cj hj
    rw [hcs] at hj
    rw [hid, hrec]
    rcases getElem?_set_cases hj with ⟨rfl, rfl⟩ | ⟨-, hj⟩
    · exact hholds
    · exact h.holds j cj hj

/-- The clock moves on, and a list is made for the new clock. -/
theorem RoundInv.spawn (h : RoundInv e) {clock : Int} (hlt : e.clock < clock)
    {received : List (Int × ElectionMessage)} {candidates : List ElectionMessage}
    (hcand : candidates = heard e.nodeId received clock)
    (hsame : ∀ r ≤ e.clock, heard e.nodeId received r = heard e.nodeId e.received r)
    (hpast : ∀ p ∈ received, p.1 ≤ clock) :
    RoundInv { { e with clock := clock }.spawn candidates with received := received } := by
  have hbound : ∀ (j : Nat) (cj : Campaign), e.campaigns[j]? = some cj → cj.round ≤ e.clock := by
    intro j cj hj
    by_cases hji : j = e.candidates
    · subst hji; exact (h.current cj hj).le
    · exact (h.round_lt hj hji).le
  refine ⟨?_, ?_, ?_, hpast, ?_⟩
  · simp [Election.spawn]
  · intro ck hk
    rcases getElem?_snoc_cases hk with hk | ⟨-, rfl⟩
    · have : e.campaigns.length < e.campaigns.length := (List.getElem?_eq_some_iff.mp hk).1
      omega
    · rfl
  · intro j k cj ck hjk hj hk
    rcases getElem?_snoc_cases hj with hj | ⟨hjl, rfl⟩
    · rcases getElem?_snoc_cases hk with hk | ⟨-, rfl⟩
      · exact h.rounds j k cj ck hjk hj hk
      · exact lt_of_le_of_lt (hbound j cj hj) hlt
    · have hjl : j = e.campaigns.length := hjl
      have hk' := (List.getElem?_eq_some_iff.mp hk).1
      simp only [Election.spawn, List.length_append, List.length_singleton] at hk'
      omega
  · intro j cj hj
    rcases getElem?_snoc_cases hj with hj | ⟨-, rfl⟩
    · exact (h.holds j cj hj).congr (hsame _ (hbound j cj hj))
    · exact hcand

variable {m : ElectionMessage}

/-- More is received, and the lists that should hold it do. -/
theorem RoundInv.join (h : RoundInv e)
    (hown : m.proposedSession.masterNodeId ≠ e.nodeId) (hm : m.clock = e.clock) :
    RoundInv { e with
      campaigns := e.campaigns.modify e.candidates fun c =>
        { c with candidates := c.candidates ++ [m] }
      received := e.received ++ [(e.clock, m)] } := by
  have hget : ∀ (j : Nat) (cj : Campaign), (e.campaigns.modify e.candidates fun c =>
      { c with candidates := c.candidates ++ [m] })[j]? = some cj →
      ∃ bj, e.campaigns[j]? = some bj ∧ cj.stage = bj.stage ∧ cj.round = bj.round
        ∧ cj.clock = bj.clock
        ∧ cj.candidates = if e.candidates = j then bj.candidates ++ [m] else bj.candidates := by
    intro j cj hj
    rw [List.getElem?_modify] at hj
    obtain ⟨bj, hbj, rfl⟩ := Option.map_eq_some_iff.mp hj
    refine ⟨bj, hbj, ?_⟩
    split <;> simp
  refine ⟨?_, ?_, ?_, ?_, ?_⟩
  · simp only [List.length_modify]; exact h.newest
  · intro ck hk
    obtain ⟨bk, hbk, -, hr, -⟩ := hget _ ck hk
    rw [hr]
    exact h.current bk hbk
  · intro j k cj ck hjk hj hk
    obtain ⟨bj, hbj, -, hrj, -⟩ := hget j cj hj
    obtain ⟨bk, hbk, -, hrk, -⟩ := hget k ck hk
    rw [hrj, hrk]
    exact h.rounds j k bj bk hjk hbj hbk
  · intro p hp
    rcases List.mem_append.mp hp with hp | hp
    · exact h.past p hp
    · rw [List.mem_singleton.mp hp]
  · intro j cj hj
    obtain ⟨bj, hbj, hst, hr, hck, hcand⟩ := hget j cj hj
    have hb := h.holds j bj hbj
    unfold Campaign.Holds Joined at hb ⊢
    rw [hst, hr, hck, hcand]
    by_cases hji : e.candidates = j
    · -- the list of the current clock takes the message in
      subst hji
      have hround := h.current bj hbj
      rw [if_pos rfl, heard_snoc_of ⟨hround.symm, hm.trans hround.symm, hown⟩]
      split
      · rename_i hs
        rw [if_pos hs] at hb
        rw [hb]
      · rename_i hs
        rw [if_neg hs] at hb
        obtain ⟨own, h1, h2, h3⟩ := hb
        exact ⟨own, h1, h2, h3.append_right [m]⟩
    · have hround := h.round_lt hbj (fun hh => hji hh.symm)
      rw [if_neg hji, heard_snoc_of_not (by omega)]
      exact hb

/-- A message that joins no list. -/
theorem RoundInv.ignore (h : RoundInv e)
    (hm : m.proposedSession.masterNodeId = e.nodeId ∨ m.clock < e.clock) :
    RoundInv { e with received := e.received ++ [(e.clock, m)] } := by
  have hsame : ∀ r, heard e.nodeId (e.received ++ [(e.clock, m)]) r
      = heard e.nodeId e.received r := by
    intro r
    refine heard_snoc_of_not ?_
    rintro ⟨h1, h2, h3⟩
    rcases hm with hm | hm
    · exact h3 hm
    · omega
  refine ⟨h.newest, h.current, h.rounds, ?_, ?_⟩
  · intro p hp
    rcases List.mem_append.mp hp with hp | hp
    · exact h.past p hp
    · rw [List.mem_singleton.mp hp]
  · intro j cj hj
    exact (h.holds j cj hj).congr (hsame _)

/-- **An incoming message joins the list of its clock, and no other.** -/
theorem RoundInv.receive (h : RoundInv e) (m : ElectionMessage) :
    RoundInv { e.receive m with received := e.received ++ [((e.receive m).clock, m)] } := by
  unfold Election.receive
  split
  · rename_i hown
    exact h.ignore (.inl hown)
  · rename_i hown
    split
    · rename_i hgt
      have hpast : ∀ p ∈ e.received, p.1 < m.clock := by
        intro p hp
        have := h.past p hp
        omega
      refine h.spawn hgt ?_ ?_ ?_
      · -- nothing of the new clock was heard before the message that brings it
        have hn : heard e.nodeId e.received m.clock = [] := heard_eq_nil hpast
        show [m] = heard e.nodeId (e.received ++ [(m.clock, m)]) m.clock
        rw [heard_snoc_of ⟨rfl, rfl, hown⟩, hn]
        rfl
      · intro r hr
        refine heard_snoc_of_not ?_
        simp only [Election.spawn]
        omega
      · intro p hp
        rcases List.mem_append.mp hp with hp | hp
        · exact (hpast p hp).le
        · rw [List.mem_singleton.mp hp]; rfl
    · split
      · rename_i hlt
        exact h.ignore (.inr hlt)
      · rename_i hngt hnlt
        exact h.join hown (by omega)

theorem RoundInv.connect (h : RoundInv e) : RoundInv e.connect := by
  have hpast : ∀ p ∈ e.received, p.1 < e.clock + 1 := by
    intro p hp
    have := h.past p hp
    omega
  refine @RoundInv.spawn _ h (e.clock + 1) (by omega) e.received _ ?_ ?_ ?_
  · exact (heard_eq_nil hpast).symm
  · exact fun r hr => rfl
  · exact fun p hp => (hpast p hp).le

/-- The campaign that goes past the wait adds one status. -/
theorem RoundInv.enter (h : RoundInv e) (hc : e.campaigns[i]? = some c)
    (hst : c.stage = .spawned ∨ c.stage.isWaiting) {clock : Int} :
    RoundInv (e.enter i { c with clock := clock }) := by
  refine h.set hc rfl rfl ?_ rfl rfl rfl rfl
  · have hb := h.holds i c hc
    unfold Campaign.Holds at hb ⊢
    rw [if_pos hst] at hb
    rw [if_neg (by simp [Stage.isWaiting])]
    refine ⟨e.electionStatus clock, ?_, rfl, ?_⟩
    · unfold Election.electionStatus
      dsimp only
      split
      · assumption
      · rfl
    · rw [← hb]
      exact List.perm_append_singleton _ _

theorem RoundInv.begin (h : RoundInv e) (hb : e.begin i = some e') : RoundInv e' := by
  unfold Election.begin at hb
  split at hb
  · rename_i c hc
    split at hb
    · rename_i hst
      have h' : RoundInv { e with
          campaigns := e.campaigns.mapIdx (Campaign.overtaken e.campaignCancelScope) } := by
        refine h.congr (by simp) ?_ rfl rfl rfl rfl
        intro j cj hj
        rw [List.getElem?_mapIdx] at hj
        obtain ⟨bj, hbj, rfl⟩ := Option.map_eq_some_iff.mp hj
        refine ⟨bj, hbj, ?_⟩
        unfold Campaign.overtaken
        split <;> exact ⟨rfl, rfl, rfl, rfl⟩
      have hc' : (e.campaigns.mapIdx (Campaign.overtaken e.campaignCancelScope))[i]? = some c := by
        rw [List.getElem?_mapIdx, hc, Option.map_some, Campaign.overtaken, if_pos hst]
      split at hb
      · obtain rfl := Option.some.inj hb
        exact h'.enter hc' (.inl hst)
      · rename_i d _
        obtain rfl := Option.some.inj hb
        refine h'.set hc' rfl rfl ?_ rfl rfl rfl rfl
        · have hh := h'.holds i c hc'
          unfold Campaign.Holds at hh ⊢
          rw [if_pos (.inl hst)] at hh
          rw [if_pos (.inr rfl)]
          exact hh
    · cases hb
  · cases hb

/-- A campaign past its wait moves on without touching its list. -/
theorem RoundInv.advance (h : RoundInv e) (hc : e.campaigns[i]? = some c) (hr : c.stage.running)
    {stage : Stage} (hcs : e'.campaigns = e.campaigns.set i { c with stage := stage })
    (hst : stage.running ∨ stage = .finished)
    (hcur : e'.candidates = e.candidates) (hclock : e'.clock = e.clock)
    (hid : e'.nodeId = e.nodeId) (hrec : e'.received = e.received) : RoundInv e' := by
  refine h.set hc hcs rfl ?_ hcur hclock hid hrec
  have hb := h.holds i c hc
  unfold Campaign.Holds at hb ⊢
  rw [if_neg] at hb
  · rw [if_neg]
    · exact hb
    · rcases hst with hst | rfl
      · rintro (rfl | hw)
        · cases hst
        · cases stage <;> simp_all [Stage.running, Stage.isWaiting]
      · simp [Stage.isWaiting]
  · rintro (hs | hw)
    · rw [hs] at hr; cases hr
    · cases hcst : c.stage <;> rw [hcst] at hr hw <;> simp_all [Stage.running, Stage.isWaiting]

theorem RoundInv.resume (h : RoundInv e) (hr : e.resume i = some e') : RoundInv e' := by
  unfold Election.resume at hr
  split at hr
  · cases hr
  · rename_i c hc
    split at hr
    · rename_i d hst
      split at hr
      · obtain rfl := Option.some.inj hr
        exact h.enter hc (.inr (by rw [hst]; rfl))
      · cases hr
    · rename_i hst
      split at hr
      · cases hr
      · obtain rfl := Option.some.inj hr
        exact h.advance hc (by rw [hst]; rfl) rfl (.inl rfl) rfl rfl rfl rfl
    · rename_i hst
      obtain rfl := Option.some.inj hr
      exact h.advance hc (by rw [hst]; rfl) rfl (.inl rfl) rfl rfl rfl rfl
    · rename_i hst
      split at hr
      · cases hr
      · obtain rfl := Option.some.inj hr
        exact h.advance hc (by rw [hst]; rfl) rfl (.inl rfl) rfl rfl rfl rfl
    · rename_i hst
      split at hr
      · cases hr
      · obtain ⟨m, -, rfl⟩ := Option.map_eq_some_iff.mp hr
        exact h.advance hc (by rw [hst]; rfl) rfl (.inl rfl) rfl rfl rfl rfl
    · rename_i outcome hst
      split at hr
      · cases hr
      · obtain rfl := Option.some.inj hr
        exact h.advance hc (by rw [hst]; rfl) rfl (.inr rfl) rfl rfl rfl rfl
    · cases hr
    · cases hr

theorem RoundInv.cancelled (h : RoundInv e) (hs : e.cancelled i = some e') : RoundInv e' := by
  unfold Election.cancelled at hs
  split at hs
  · cases hs
  · rename_i c hc
    split at hs
    · rename_i hr
      obtain rfl := Option.some.inj hs
      exact h.advance hc hr.1 rfl (.inr rfl) rfl rfl rfl rfl
    · cases hs

variable {a : Action}

/-- **Every step keeps the lists.** -/
theorem roundInv_step (h : RoundInv e) (hs : e.step a = some e') : RoundInv e' := by
  cases a <;> simp only [step] at hs
  case message m =>
    obtain rfl := Option.some.inj hs
    exact h.receive m
  case connection =>
    obtain rfl := Option.some.inj hs
    exact h.connect
  case command =>
    obtain rfl := Option.some.inj hs
    exact h.congr rfl (fun j cj hj => ⟨cj, hj, rfl, rfl, rfl, rfl⟩) rfl rfl rfl rfl
  case start i => exact h.begin hs
  case resume i => exact h.resume hs
  case cancelled i => exact h.cancelled hs

theorem roundInv_init (cfg : Config) : RoundInv (init cfg) := by
  have h0 : RoundInv ((create cfg).spawn []) := by
    refine ⟨rfl, ?_, ?_, ?_, ?_⟩
    · rintro c ⟨⟩; rfl
    · intro i j c c' hij hi hj
      have hj' := (List.getElem?_eq_some_iff.mp hj).1
      simp only [create, Election.spawn, List.nil_append, List.length_singleton] at hj'
      omega
    · simp [create, Election.spawn]
    · intro i c hc
      rcases getElem?_snoc_cases (l := []) hc with hc | ⟨-, rfl⟩
      · simp at hc
      · exact rfl
  exact h0.begin (i := 0) rfl

/-! ## What is elected -/

/-- A campaign at its last checkpoint, with the message it is about to elect. -/
structure ElectsNext (e : Election) (i : Nat) (c : Campaign) (m : ElectionMessage) : Prop where
  campaign : e.campaigns[i]? = some c
  stage : c.stage = .checkpoint
  called : c.cancelCalled = false
  maximum : maxCandidate c.candidates = some m

/-- A step that elects nobody: what is elected and emitted after it was elected before. -/
structure ElectsNobody (e e' : Election) : Prop where
  nodeId : e'.nodeId = e.nodeId
  seniority : e'.seniority = e.seniority
  received : e.received <+: e'.received
  electing : ∀ (j : Nat) (cj : Campaign) o, e'.campaigns[j]? = some cj → cj.stage = .electing o →
    ∃ bj, e.campaigns[j]? = some bj ∧ bj.stage = .electing o
  emitted : ∀ o ∈ e'.emitted, o ∈ e.emitted ∨ ∃ (j : Nat) (bj : Campaign),
    e.campaigns[j]? = some bj ∧ bj.stage = .electing o

/-- Campaigns are changed but for their stages, and new ones have not started. -/
theorem ElectsNobody.of_stages (hid : e'.nodeId = e.nodeId) (hsen : e'.seniority = e.seniority)
    (hrec : e.received <+: e'.received) (hem : e'.emitted = e.emitted)
    (hc : ∀ (j : Nat) (cj : Campaign), e'.campaigns[j]? = some cj → cj.stage = .spawned ∨
      ∃ bj, e.campaigns[j]? = some bj ∧ cj.stage = bj.stage) : ElectsNobody e e' where
  nodeId := hid
  seniority := hsen
  received := hrec
  electing := by
    intro j cj o hj ho
    rcases hc j cj hj with hst | ⟨bj, hbj, hst⟩
    · rw [hst] at ho
      cases ho
    · exact ⟨bj, hbj, hst ▸ ho⟩
  emitted o ho := .inl (hem ▸ ho)

/-- One campaign moves on to a stage at which it elects nobody. -/
theorem ElectsNobody.of_set (hc : e.campaigns[i]? = some c) (hid : e'.nodeId = e.nodeId)
    (hsen : e'.seniority = e.seniority) (hrec : e'.received = e.received)
    (hcs : e'.campaigns = e.campaigns.set i c') (hst : ∀ o, c'.stage ≠ .electing o)
    (hem : ∀ o ∈ e'.emitted, o ∈ e.emitted ∨ c.stage = .electing o) : ElectsNobody e e' where
  nodeId := hid
  seniority := hsen
  received := hrec ▸ List.prefix_refl _
  electing := by
    intro j cj o hj ho
    rw [hcs] at hj
    rcases getElem?_set_cases hj with ⟨rfl, rfl⟩ | ⟨-, hj⟩
    · exact absurd ho (hst o)
    · exact ⟨cj, hj, ho⟩
  emitted o ho := (hem o ho).imp id fun hel => ⟨i, c, hc, hel⟩

theorem electsNobody_message (e : Election) (m : ElectionMessage) :
    ElectsNobody e { e.receive m with received := e.received ++ [((e.receive m).clock, m)] } := by
  unfold Election.receive
  split
  · exact .of_stages rfl rfl (List.prefix_append _ _) rfl fun j cj hj => .inr ⟨cj, hj, rfl⟩
  · split
    · refine .of_stages rfl rfl (List.prefix_append _ _) rfl fun j cj hj => ?_
      rcases getElem?_snoc_cases hj with hj | ⟨-, rfl⟩
      · exact .inr ⟨cj, hj, rfl⟩
      · exact .inl rfl
    · split
      · exact .of_stages rfl rfl (List.prefix_append _ _) rfl fun j cj hj => .inr ⟨cj, hj, rfl⟩
      · refine .of_stages rfl rfl (List.prefix_append _ _) rfl fun j cj hj => .inr ?_
        rw [List.getElem?_modify] at hj
        obtain ⟨bj, hbj, rfl⟩ := Option.map_eq_some_iff.mp hj
        refine ⟨bj, hbj, ?_⟩
        split <;> rfl

theorem electsNobody_connect (e : Election) : ElectsNobody e e.connect := by
  refine .of_stages rfl rfl (List.prefix_refl _) rfl fun j cj hj => ?_
  rcases getElem?_snoc_cases hj with hj | ⟨-, rfl⟩
  · exact .inr ⟨cj, hj, rfl⟩
  · exact .inl rfl

theorem electsNobody_begin (hb : e.begin i = some e') : ElectsNobody e e' := by
  unfold Election.begin at hb
  split at hb
  · rename_i c hc
    split at hb
    · -- the others keep their stages, and the one that starts has not elected anybody
      have hset : ∀ {c' : Campaign}, (∀ o, c'.stage ≠ .electing o) → ∀ (j : Nat) cj o,
          ((e.campaigns.mapIdx (Campaign.overtaken e.campaignCancelScope)).set i c')[j]? = some cj →
          cj.stage = .electing o → ∃ bj, e.campaigns[j]? = some bj ∧ bj.stage = .electing o := by
        intro c' hst j cj o hj ho
        rcases getElem?_set_cases hj with ⟨rfl, rfl⟩ | ⟨-, hj⟩
        · exact absurd ho (hst o)
        · rw [List.getElem?_mapIdx] at hj
          obtain ⟨bj, hbj, rfl⟩ := Option.map_eq_some_iff.mp hj
          refine ⟨bj, hbj, ?_⟩
          rw [← ho, Campaign.overtaken]
          split <;> rfl
      split at hb
      all_goals
        obtain rfl := Option.some.inj hb
        exact ⟨rfl, rfl, List.prefix_refl _, hset (by rintro o ⟨⟩), fun o ho => .inl ho⟩
    · cases hb
  · cases hb

theorem electsNobody_cancelled (hs : e.cancelled i = some e') : ElectsNobody e e' := by
  unfold Election.cancelled at hs
  split at hs
  · cases hs
  · rename_i c hc
    split at hs
    · obtain rfl := Option.some.inj hs
      exact .of_set hc rfl rfl rfl rfl (by rintro o ⟨⟩) fun o ho => .inl ho
    · cases hs

theorem resume_cases (hr : e.resume i = some e') : ElectsNobody e e' ∨
    ∃ c m, ElectsNext e i c m ∧ e' = e.elect i c m := by
  unfold Election.resume at hr
  split at hr
  · cases hr
  · rename_i c hc
    split at hr
    · split at hr
      · obtain rfl := Option.some.inj hr
        exact .inl (.of_set hc rfl rfl rfl rfl (by rintro o ⟨⟩) fun o ho => .inl ho)
      · cases hr
    · split at hr
      · cases hr
      · obtain rfl := Option.some.inj hr
        exact .inl (.of_set hc rfl rfl rfl rfl (by rintro o ⟨⟩) fun o ho => .inl ho)
    · obtain rfl := Option.some.inj hr
      exact .inl (.of_set hc rfl rfl rfl rfl (by rintro o ⟨⟩) fun o ho => .inl ho)
    · split at hr
      · cases hr
      · obtain rfl := Option.some.inj hr
        exact .inl (.of_set hc rfl rfl rfl rfl (by rintro o ⟨⟩) fun o ho => .inl ho)
    · rename_i hst
      split at hr
      · cases hr
      · rename_i hcalled
        obtain ⟨m, hm, rfl⟩ := Option.map_eq_some_iff.mp hr
        exact .inr ⟨c, m, ⟨hc, hst, by simpa using hcalled, hm⟩, rfl⟩
    · rename_i hst
      split at hr
      · cases hr
      · obtain rfl := Option.some.inj hr
        refine .inl (.of_set hc rfl rfl rfl rfl (by rintro o ⟨⟩) fun o ho => ?_)
        rcases List.mem_append.mp ho with ho | ho
        · exact .inl ho
        · rw [List.mem_singleton.mp ho]
          exact .inr hst
    · cases hr
    · cases hr

/-- **What a step can elect**: the maximum of the list of a campaign at its last checkpoint. -/
theorem step_cases (hs : e.step a = some e') : ElectsNobody e e' ∨
    ∃ i c m, a = .resume i ∧ ElectsNext e i c m ∧ e' = e.elect i c m := by
  cases a <;> simp only [step] at hs
  case message m =>
    obtain rfl := Option.some.inj hs
    exact .inl (electsNobody_message e m)
  case connection =>
    obtain rfl := Option.some.inj hs
    exact .inl (electsNobody_connect e)
  case command =>
    obtain rfl := Option.some.inj hs
    exact .inl (.of_stages rfl rfl (List.prefix_refl _) rfl fun j cj hj => .inr ⟨cj, hj, rfl⟩)
  case start i => exact .inl (electsNobody_begin hs)
  case resume i =>
    rcases resume_cases hs with h | ⟨c, m, h, rfl⟩
    · exact .inl h
    · exact .inr ⟨i, c, m, rfl, h, rfl⟩
  case cancelled i => exact .inl (electsNobody_cancelled hs)

/-- At the last checkpoint, the list holds one own status and what was heard in its round. -/
theorem RoundInv.joined (h : RoundInv e) (hn : ElectsNext e i c m) :
    Joined e.nodeId e.received c.round c.clock c.candidates := by
  have hb := h.holds i c hn.campaign
  unfold Campaign.Holds at hb
  rwa [if_neg (by rw [hn.stage]; simp [Stage.isWaiting])] at hb

/-- **An election takes the maximum of the list it should.** -/
theorem RoundInv.isMaximum (h : RoundInv e) (hn : ElectsNext e i c m)
    (hclock : c.clock = c.round) {o : Outcome} (hsession : o.result.sessionId = m.proposedSession)
    (hwon : o.result.wonClock = m.clock) (hqueue : o.queue = c.candidates)
    (hbefore : o.receivedBefore = e.received.length) : o.IsMaximum e.nodeId e.received := by
  obtain ⟨own, hid, hown, hperm⟩ := h.joined hn
  -- every message of the list is of the campaign's clock, so the winner is
  have hall : ∀ a ∈ c.candidates, a.clock = c.round := by
    intro a ha
    rcases List.mem_cons.mp (hperm.mem_iff.mp ha) with rfl | ha
    · rw [hown, hclock]
    · obtain ⟨p, hp, rfl⟩ := List.mem_map.mp ha
      have := of_decide_eq_true (List.mem_filter.mp hp).2
      exact this.2.1
  have hmem := maxCandidate_mem hn.maximum
  refine ⟨hbefore.le, ?_, ⟨m, hqueue ▸ hmem, hsession.symm, hwon.symm, ?_⟩⟩
  · rw [hbefore, List.take_length, hwon, hqueue, hall m hmem]
    exact ⟨own, hid, hown.trans hclock, hperm⟩
  · rw [hqueue]
    exact fun a ha => maxCandidate_not_lt hn.maximum ha

/-- No campaign elects for another clock than its list was made for. -/
def InItsRound (e : Election) : Action → Prop
  | .resume i => ∀ c ∈ e.campaigns[i]?, c.stage = .checkpoint → c.clock = c.round
  | _ => True

/-- A step that elects nobody keeps what was elected. -/
theorem ListInv.electsNobody (h : ListInv e) (hn : ElectsNobody e e') (hround : RoundInv e') :
    ListInv e' := by
  obtain ⟨t, ht⟩ := hn.received
  have hmax : ∀ o : Outcome, o.IsMaximum e.nodeId e.received →
      o.IsMaximum e'.nodeId e'.received := by
    rw [hn.nodeId, ← ht]
    exact fun o ho => ho.extend t
  refine ⟨hround.newest, hround.current, hround.rounds, hround.past, hround.holds, ?_, ?_⟩
  · intro j cj o hj ho
    obtain ⟨bj, hbj, hst⟩ := hn.electing j cj o hj ho
    exact hmax o (h.electing j bj o hbj hst)
  · intro o ho
    rcases hn.emitted o ho with ho | ⟨j, bj, hbj, hst⟩
    · exact hmax o (h.emitted o ho)
    · exact hmax o (h.electing j bj o hbj hst)

/-- **Every step keeps the lists, if campaigns elect in their own round.** -/
theorem listInv_step (h : ListInv e) (hok : InItsRound e a)
    (hs : e.step a = some e') : ListInv e' := by
  have hround := roundInv_step h.round hs
  rcases step_cases hs with hn | ⟨i, c, m, rfl, hn, rfl⟩
  · exact h.electsNobody hn hround
  · refine ⟨hround.newest, hround.current, hround.rounds, hround.past, hround.holds, ?_, h.emitted⟩
    intro j cj o hj ho
    rcases getElem?_set_cases hj with ⟨rfl, rfl⟩ | ⟨-, hj⟩
    · obtain rfl := Stage.electing.inj ho
      exact h.round.isMaximum hn (hok c hn.campaign hn.stage) rfl rfl rfl rfl
    · exact h.electing j cj o hj ho

theorem listInv_init (cfg : Config) : ListInv (init cfg) := by
  have hround := roundInv_init cfg
  refine ⟨hround.newest, hround.current, hround.rounds, hround.past, hround.holds, ?_, ?_⟩
  · intro j cj o hj ho
    rcases getElem?_set_cases (l := [_]) hj with ⟨rfl, rfl⟩ | ⟨-, hj⟩
    · cases ho
    · cases j <;> cases hj
      cases ho
  · rintro o ⟨⟩

/-! ## The three promises -/

/-- Campaigns of one election keep out of each other's way. -/
structure Exclusive (e : Election) : Prop where
  /-- At most one is past the wait for the old one and not yet finished. -/
  one : ∀ (i j : Nat) (c c' : Campaign), e.campaigns[i]? = some c → e.campaigns[j]? = some c' →
    c.stage.running → c'.stage.running → i = j
  /-- A superseded one adds no status, elects nobody and emits nothing. -/
  superseded : ∀ (i : Nat) (c : Campaign), e.campaigns[i]? = some c → c.superseded →
    ∀ a e', a.campaign = some i → e.step a = some e' → Inert e e' i
  /-- Every result is the maximum of one own status and what was heard in its clock. -/
  maximum : ∀ o ∈ e.emitted, o.IsMaximum e.nodeId e.received

/-- Campaigns start one at a time and elect in their own round. -/
def Orderly (e : Election) (a : Action) : Prop := OneAtATime e a ∧ InItsRound e a

instance (e : Election) : (a : Action) → Decidable (Orderly e a)
  | .start _ => inferInstanceAs (Decidable (e.NoneWaiting ∧ True))
  | .resume i => inferInstanceAs (Decidable (True ∧ ∀ c ∈ e.campaigns[i]?, _ → _))
  | .message _ | .connection | .command | .cancelled _ => .isTrue ⟨trivial, trivial⟩

/-- **In orderly runs, campaigns are exclusive.** -/
theorem campaigns_exclusive {cfg : Config} {e : Election}
    (h : (machine cfg).ReachableWhen Orderly e) : Exclusive e := by
  have hboth : CampaignInv e ∧ ListInv e :=
    h.invariant (P := fun e => CampaignInv e ∧ ListInv e)
      ⟨campaignInv_init cfg, listInv_init cfg⟩
      fun _ _ _ he hok hs => ⟨campaignInv_step he.1 hok.1 hs, listInv_step he.2 hok.2 hs⟩
  obtain ⟨hcamp, hlist⟩ := hboth
  exact
    { one := fun i j c c' hc hc' hr hr' => hcamp.one hc hc' hr hr'
      superseded := fun i c hc hsup a e' ha hs => hcamp.inert hc hsup ha hs
      maximum := hlist.emitted }

/-- Node 1 has won alone, and joins the round that a message of node 2 starts. -/
def oneRound : List Action :=
  [.resume 0, .resume 0, .resume 0, .resume 0, .resume 0, .message ⟨1, 0, ⟨2, 1⟩, 0⟩, .start 1,
    .resume 1, .resume 1, .resume 1, .resume 1, .resume 1, .resume 1]

theorem campaigns_exclusive_oneRound :
    ∃ e, (machine { nodeId := 1 }).ReachableWhen Orderly e
      ∧ e.emitted.map Outcome.result = [⟨⟨1, 0⟩, 0, false⟩, ⟨⟨1, 0⟩, 1, false⟩]
      ∧ Exclusive e := by
  have hrun : ((machine { nodeId := 1 }).runWhen Orderly (init { nodeId := 1 }) oneRound).map
      (fun e => e.emitted.map Outcome.result)
      = some [⟨⟨1, 0⟩, 0, false⟩, ⟨⟨1, 0⟩, 1, false⟩] := by decide
  obtain ⟨e, he, hres⟩ := Option.map_eq_some_iff.mp hrun
  have hreach := Machine.reachableWhen_of_run he
  exact ⟨e, hreach, hres, campaigns_exclusive hreach⟩

/--
Two rounds start while a campaign is being cancelled. The second does not see the
first, which is neither cancelled nor waited for.
-/
def overlapping : List Action :=
  [.resume 0, .resume 0, .message ⟨1, 0, ⟨2, 1⟩, 0⟩, .start 1, .message ⟨2, 0, ⟨2, 2⟩, 0⟩, .start 2,
    .cancelled 0, .resume 1, .resume 2]

theorem campaigns_not_exclusive :
    ∃ e, (machine { nodeId := 1 }).run (init { nodeId := 1 }) overlapping = some e
      ∧ e.campaigns.map (fun c => (c.stage, c.superseded, c.cancelCalled))
        = [(.finished, true, true), (.sending, true, false), (.sending, false, false)]
      ∧ ¬ Exclusive e := by
  have hrun : ((machine { nodeId := 1 }).run (init { nodeId := 1 }) overlapping).map
      (fun e => e.campaigns.map fun c => (c.stage, c.superseded, c.cancelCalled))
      = some [(.finished, true, true), (.sending, true, false), (.sending, false, false)] := by
    decide
  obtain ⟨e, he, hstages⟩ := Option.map_eq_some_iff.mp hrun
  refine ⟨e, he, hstages, ?_⟩
  intro hex
  have hget : ∀ i : Nat, e.campaigns[i]?.map (fun c => (c.stage, c.superseded, c.cancelCalled))
      = [(.finished, true, true), (.sending, true, false),
          (.sending, false, false)][i]? := by
    intro i
    rw [← hstages, List.getElem?_map]
  obtain ⟨c, hc, hst⟩ := Option.map_eq_some_iff.mp (hget 1)
  obtain ⟨c', hc', hst'⟩ := Option.map_eq_some_iff.mp (hget 2)
  have hone := hex.one 1 2 c c' hc hc' (by rw [(Prod.mk.inj hst).1]; rfl)
    (by rw [(Prod.mk.inj hst').1]; rfl)
  omega

end Election

end Exo
