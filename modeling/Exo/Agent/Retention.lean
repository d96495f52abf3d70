import Exo.Agent.StoreRoundTrip
import Exo.Lib.Machine

/-!
# Turns that wait, and messages that are removed

A chat turn puts its two messages into the session when it is accepted, and is worked on later. A
session with too many messages loses its oldest ones when one is put into it, whoever they belong
to. The worker that comes to a turn looks for the user's message and writes into the assistant's.

The turns are run over anything that lists, appends and updates messages: over the list that a
session is meant to be here, and over its files at the end. They wait in the order in which they
were accepted, and any of them may be the next: they are put into their queue only afterwards. Ids
are random, and taken to be new.
-/

namespace Exo.Agent

open Lib
open scoped List

/-! ## Stores of messages -/

/-- What the turns use of a store. The `Bool` is false when the call raises. -/
structure MessageStore (σ : Type) where
  listMessages : Clock → σ → σ × Option (List Message)
  appendMessage : Clock → σ → Message → σ × Bool
  updateMessage : Clock → σ → Text → Text → Option Text → σ × Bool

/-- The files of a session. -/
def sessionFiles (maxMessages : Int) : MessageStore Session where
  listMessages := listMessages
  appendMessage := appendMessage maxMessages
  updateMessage := updateMessage

/-- `retained_count` -/
def retainedCount (maxMessages : Int) : Nat := (max 1 (maxMessages - 1)).toNat

/-- The messages after `compact_session`. -/
def compacted (maxMessages : Int) (clock : Clock) (ms : List Message) : List Message :=
  if (ms.length : Int) ≤ maxMessages then ms
  else
    removalNotice clock (ms.length - retainedCount maxMessages) ::
      ms.drop (ms.length - retainedCount maxMessages)

/-- A session as the messages it lists. -/
def messageList (maxMessages : Int) : MessageStore (List Message) where
  listMessages _ ms := (ms, some ms)
  appendMessage clock ms m := (compacted maxMessages clock (ms ++ [m]), true)
  updateMessage _ ms messageId content reasoning :=
    (replaceFirst messageId content reasoning ms, decide (∃ m ∈ ms, m.messageId = messageId))

/-! ## Turns -/

/-- What is left of a `PreparedChatTurn` here. -/
structure PreparedTurn where
  userMessageId : Text
  assistantMessageId : Text
  /-- The worker has begun with it. -/
  started : Bool := false
deriving DecidableEq

structure ChatState (σ : Type) where
  store : σ
  /-- The turns that were accepted and are not done, oldest first. -/
  pending : List PreparedTurn := []
  /-- The turns whose job ended in an error of the store. -/
  failed : List PreparedTurn := []

inductive ChatAction where
  /-- `prepare_chat_turn` -/
  | prepare (clock clock' : Clock) (user assistant : Message)
  /-- `append_message` for a request that waits for its answer. -/
  | append (clock : Clock) (m : Message)
  /-- `stream_prepared_turn` collects the messages up to the user's. -/
  | start (clock : Clock) (i : Nat)
  /-- `persist()` -/
  | persist (clock : Clock) (i : Nat) (content : Text) (reasoning : Option Text)
  /-- The last `persist()` of a turn. -/
  | finish (clock : Clock) (i : Nat) (content : Text) (reasoning : Option Text)

namespace ChatState

variable {σ : Type} (st : MessageStore σ) (s : ChatState σ)

/-- The messages that are listed. -/
def messages : List Message := (st.listMessages ⟨[], fun _ => []⟩ s.store).2.getD []

def ids : List Text := (s.messages st).map (·.messageId)

/-- The ids of the messages of all turns that wait, in order. -/
def pendingIds : List Text :=
  s.pending.flatMap fun turn => [turn.userMessageId, turn.assistantMessageId]

/-- Ids that are made up are not there yet. -/
def Fresh (newIds : List Text) : Prop :=
  newIds.Nodup ∧ ∀ id ∈ newIds, id ∉ s.ids st ∧ id ∉ s.pendingIds

instance (newIds : List Text) : Decidable (s.Fresh st newIds) :=
  inferInstanceAs (Decidable (_ ∧ _))

/-- The job of a turn ends with an error. -/
def fail (i : Nat) (turn : PreparedTurn) : ChatState σ :=
  { s with pending := s.pending.eraseIdx i, failed := s.failed ++ [turn] }

end ChatState

section Steps

variable {σ : Type} (st : MessageStore σ)

def chatStep (s : ChatState σ) : ChatAction → Option (ChatState σ)
  | .prepare clock clock' user assistant =>
    if s.Fresh st [user.messageId, clock.newId 0, assistant.messageId, clock'.newId 0] then
      let first := st.appendMessage clock s.store user
      let second := st.appendMessage clock' first.1 assistant
      -- a call that raises accepts no turn, and what was written stays
      if first.2 then
        if second.2 then
          some { s with
            store := second.1
            pending := s.pending ++ [⟨user.messageId, assistant.messageId, false⟩] }
        else some { s with store := second.1 }
      else some { s with store := first.1 }
    else none
  | .append clock m =>
    if s.Fresh st [m.messageId, clock.newId 0] then
      some { s with store := (st.appendMessage clock s.store m).1 }
    else none
  | .start clock i =>
    (s.pending[i]?.filter (!·.started)).map fun turn =>
      let listed := st.listMessages clock s.store
      let s := { s with store := listed.1 }
      if turn.userMessageId ∈ (listed.2.getD []).map (·.messageId) then
        { s with pending := s.pending.set i { turn with started := true } }
      else s.fail i turn
  | .persist clock i content reasoning =>
    (s.pending[i]?.filter (·.started)).map fun turn =>
      let updated := st.updateMessage clock s.store turn.assistantMessageId content reasoning
      let s := { s with store := updated.1 }
      if updated.2 then s else s.fail i turn
  | .finish clock i content reasoning =>
    (s.pending[i]?.filter (·.started)).map fun turn =>
      let updated := st.updateMessage clock s.store turn.assistantMessageId content reasoning
      let s := { s with store := updated.1 }
      if updated.2 then { s with pending := s.pending.eraseIdx i } else s.fail i turn

def chatMachine (store : σ) : Machine (ChatState σ) ChatAction where
  init := { store }
  step := chatStep st

/-- The messages of every turn that waits are there, and the store failed no turn. -/
structure ChatState.Kept (s : ChatState σ) : Prop where
  messages : ∀ id ∈ s.pendingIds, id ∈ s.ids st
  failed : s.failed = []

/-- How many messages there are from the user's message of the oldest turn that waits on. -/
def ChatState.sinceOldest (s : ChatState σ) : Nat :=
  match s.pending with
  | [] => 0
  | turn :: _ => (s.ids st).length - (s.ids st).idxOf turn.userMessageId

/-- A message is put into the session only where there is room for it, or where what is retained
goes back to the oldest turn that waits. -/
def Room (maxMessages : Int) (s : ChatState σ) : ChatAction → Prop
  | .prepare .. => ((s.messages st).length + 2 : Int) ≤ maxMessages ∨
      s.sinceOldest st + 2 ≤ retainedCount maxMessages
  | .append .. => ((s.messages st).length + 1 : Int) ≤ maxMessages ∨
      s.sinceOldest st + 1 ≤ retainedCount maxMessages
  | _ => True

instance (maxMessages : Int) (s : ChatState σ) (a : ChatAction) :
    Decidable (Room st maxMessages s a) := by
  cases a <;> unfold Room <;> infer_instance

/-- In every state of the run the messages of the turns that wait are there, no turn has failed, and
what a turn ends with is listed. -/
structure Persisted (store : σ) (actions : List ChatAction) : Prop where
  kept : ∀ k s, (chatMachine st store).run { store } (actions.take k) = some s → s.Kept st
  listed : ∀ k clock i content reasoning,
    actions[k]? = some (.finish clock i content reasoning) →
    ∀ s, (chatMachine st store).run { store } (actions.take k) = some s →
      ∀ turn ∈ s.pending[i]?, ∀ s' ∈ chatStep st s (.finish clock i content reasoning),
        ∃ m ∈ s'.messages st, m.messageId = turn.assistantMessageId ∧ m.content = content ∧
          m.reasoning = reasoning

end Steps

/-! ## Ids and what is left of them -/

section Ids

variable {ids pending : List Text} {a id : Text} {d : Nat}

/-- How many ids there are from the first one that waits on. -/
def sinceFirst (pending ids : List Text) : Nat :=
  match pending with
  | [] => 0
  | a :: _ => ids.length - ids.idxOf a

theorem mem_drop_iff (hnd : ids.Nodup) (ha : a ∈ ids) : a ∈ ids.drop d ↔ d ≤ ids.idxOf a := by
  have hlt := List.idxOf_lt_length_of_mem ha
  constructor
  · intro hmem
    obtain ⟨j, hj, heq⟩ := List.getElem_of_mem hmem
    rw [List.getElem_drop] at heq
    rw [← heq, hnd.idxOf_getElem]
    omega
  · intro hle
    refine List.mem_drop_iff_getElem.mpr ⟨ids.idxOf a - d, by omega, ?_⟩
    simp only [Nat.add_sub_cancel' hle]
    exact List.getElem_idxOf hlt

theorem idxOf_drop (ha : a ∈ ids) (h : d ≤ ids.idxOf a) :
    (ids.drop d).idxOf a = ids.idxOf a - d := by
  have hlt := List.idxOf_lt_length_of_mem ha
  have htake : a ∉ ids.take d := by
    intro hmem
    have hlt := List.idxOf_lt_length_of_mem hmem
    have heq : ids.idxOf a = (ids.take d).idxOf a := by
      conv_lhs => rw [← List.take_append_drop d ids]
      exact List.idxOf_append_of_mem hmem
    rw [List.length_take] at hlt
    omega
  have heq : ids.idxOf a = d + (ids.drop d).idxOf a := by
    conv_lhs => rw [← List.take_append_drop d ids]
    rw [List.idxOf_append_of_notMem htake, List.length_take]
    omega
  omega

/-- What waits is still there behind the first `d` ids exactly if its first one is. -/
theorem sublist_drop_iff (hnd : ids.Nodup) (h : (a :: pending) <+ ids) :
    (a :: pending) <+ ids.drop d ↔ d ≤ ids.idxOf a := by
  have ha := h.subset List.mem_cons_self
  rw [← mem_drop_iff hnd ha]
  refine ⟨fun hs => hs.subset List.mem_cons_self, fun hmem => ?_⟩
  obtain ⟨front, back, rfl, hfront, hback⟩ := List.cons_sublist_iff.mp h
  rw [mem_drop_iff hnd ha, List.idxOf_append_of_mem hfront] at hmem
  have hlt := List.idxOf_lt_length_of_mem hfront
  rw [List.drop_append_of_le_length (by omega)]
  refine List.cons_sublist_iff.mpr ⟨front.drop d, back, rfl, ?_, hback⟩
  exact (mem_drop_iff (List.nodup_append.mp hnd).1 hfront).mpr hmem

theorem sinceFirst_snoc (hs : pending <+ ids) (hid : id ∉ ids) :
    sinceFirst (pending ++ [id]) (ids ++ [id]) = sinceFirst pending ids + 1 := by
  cases pending with
  | nil =>
      simp only [sinceFirst, List.nil_append, List.length_append, List.length_singleton]
      rw [List.idxOf_append_of_notMem hid, List.idxOf_cons_self]
      omega
  | cons a pending =>
      have ha := hs.subset List.mem_cons_self
      have hlt := List.idxOf_lt_length_of_mem ha
      simp only [sinceFirst, List.cons_append, List.length_append, List.length_singleton]
      rw [List.idxOf_append_of_mem ha]
      omega

theorem sinceFirst_append (hs : pending <+ ids) :
    sinceFirst pending (ids ++ [id]) ≤ sinceFirst pending ids + 1 ∧
      (pending ≠ [] → sinceFirst pending (ids ++ [id]) = sinceFirst pending ids + 1) := by
  cases pending with
  | nil => exact ⟨Nat.zero_le _, fun h => absurd rfl h⟩
  | cons a pending =>
      have ha := hs.subset List.mem_cons_self
      have hlt := List.idxOf_lt_length_of_mem ha
      simp only [sinceFirst, List.length_append, List.length_singleton]
      rw [List.idxOf_append_of_mem ha]
      exact ⟨by omega, fun _ => by omega⟩

/-- The ids after a compaction whose notice has the id `notice`. -/
def compactedIds (maxMessages : Int) (notice : Text) (ids : List Text) : List Text :=
  if (ids.length : Int) ≤ maxMessages then ids
  else notice :: ids.drop (ids.length - retainedCount maxMessages)

variable {maxMessages : Int} {notice : Text}

theorem retainedCount_pos (maxMessages : Int) : 0 < retainedCount maxMessages := by
  unfold retainedCount
  omega

/-- What waits is kept exactly if there is room, or its first one is among what is retained. If not,
that one is gone. -/
theorem sublist_compactedIds_iff (hnd : ids.Nodup) (hs : pending <+ ids)
    (hnotice : notice ∉ pending) : pending <+ compactedIds maxMessages notice ids ↔
      (ids.length : Int) ≤ maxMessages ∨ sinceFirst pending ids ≤ retainedCount maxMessages := by
  unfold compactedIds
  split
  · rename_i hroom
    exact iff_of_true hs (.inl hroom)
  · rename_i hroom
    rw [or_iff_right hroom]
    cases pending with
    | nil => exact iff_of_true (List.nil_sublist _) (Nat.zero_le _)
    | cons a pending =>
        have hne : notice ≠ a := fun h => hnotice (h ▸ List.mem_cons_self)
        have hcons : (a :: pending) <+
            notice :: ids.drop (ids.length - retainedCount maxMessages) ↔
              (a :: pending) <+ ids.drop (ids.length - retainedCount maxMessages) := by
          refine ⟨fun h => ?_, fun h => h.cons notice⟩
          cases h with
          | cons _ h => exact h
          | cons_cons _ h => exact absurd rfl hne
        rw [hcons, sublist_drop_iff hnd hs, sinceFirst]
        omega

theorem not_mem_compactedIds (hnd : ids.Nodup) (hs : (a :: pending) <+ ids)
    (hnotice : notice ∉ a :: pending)
    (h : ¬ (a :: pending) <+ compactedIds maxMessages notice ids) :
    a ∉ compactedIds maxMessages notice ids := by
  have hlost := (sublist_compactedIds_iff hnd hs hnotice).not.mp h
  obtain ⟨hroom, hfar⟩ := not_or.mp hlost
  rw [compactedIds, if_neg hroom, List.mem_cons, not_or]
  refine ⟨fun heq => hnotice (heq ▸ List.mem_cons_self), ?_⟩
  rw [mem_drop_iff hnd (hs.subset List.mem_cons_self)]
  rw [sinceFirst] at hfar
  omega

theorem nodup_compactedIds (hnd : ids.Nodup) (hnotice : notice ∉ ids) :
    (compactedIds maxMessages notice ids).Nodup := by
  unfold compactedIds
  split
  · exact hnd
  · exact List.nodup_cons.mpr ⟨fun h => hnotice (List.mem_of_mem_drop h),
      hnd.sublist (List.drop_sublist _ _)⟩

theorem mem_of_mem_compactedIds (h : id ∈ compactedIds maxMessages notice ids) :
    id = notice ∨ id ∈ ids := by
  unfold compactedIds at h
  split at h
  · exact .inr h
  · rcases List.mem_cons.mp h with rfl | h
    · exact .inl rfl
    · exact .inr (List.mem_of_mem_drop h)

/-- As long as what waits is kept, as many ids are behind its first one. -/
theorem sinceFirst_compactedIds (hnd : ids.Nodup) (hs : pending <+ ids)
    (hnotice : notice ∉ pending) (h : pending <+ compactedIds maxMessages notice ids) :
    sinceFirst pending (compactedIds maxMessages notice ids) = sinceFirst pending ids := by
  have hkept := (sublist_compactedIds_iff hnd hs hnotice).mp h
  unfold compactedIds
  split
  · rfl
  · rename_i hroom
    have hle := hkept.resolve_left hroom
    cases pending with
    | nil => rfl
    | cons a pending =>
        have ha := hs.subset List.mem_cons_self
        have hlt := List.idxOf_lt_length_of_mem ha
        have hne : notice ≠ a := fun h => hnotice (h ▸ List.mem_cons_self)
        simp only [sinceFirst] at hle ⊢
        rw [List.idxOf_cons_ne _ hne, idxOf_drop ha (by omega), List.length_cons,
          List.length_drop]
        omega

/-! ### One more, and two more -/

variable {notice' user assistant : Text}

theorem nodup_snoc (hnd : ids.Nodup) (hid : id ∉ ids) : (ids ++ [id]).Nodup :=
  List.nodup_append.mpr ⟨hnd, List.nodup_singleton _, fun _ hx _ hy he =>
    hid (List.mem_singleton.mp hy ▸ he ▸ hx)⟩

variable (maxMessages) in
theorem sublist_snoc_iff (hnd : ids.Nodup) (hs : pending <+ ids) (hid : id ∉ ids)
    (hnotice : notice ∉ ids) : pending <+ compactedIds maxMessages notice (ids ++ [id]) ↔
      (ids.length + 1 : Int) ≤ maxMessages ∨
        sinceFirst pending ids + 1 ≤ retainedCount maxMessages := by
  rw [sublist_compactedIds_iff (nodup_snoc hnd hid) (hs.trans (List.sublist_append_left _ _))
    fun h => hnotice (hs.subset h)]
  have hlen : ((ids ++ [id]).length : Int) = ids.length + 1 := by simp
  rw [hlen]
  cases hp : pending with
  | nil =>
      have hpos := retainedCount_pos maxMessages
      exact iff_of_true (.inr (Nat.zero_le _)) (.inr hpos)
  | cons a pending => rw [← hp, (sinceFirst_append hs).2 (by simp [hp])]

variable (maxMessages notice) in
theorem length_compactedIds (hpos : 0 < ids.length) :
    (compactedIds maxMessages notice ids).length
      = if (ids.length : Int) ≤ maxMessages then ids.length else retainedCount maxMessages + 1 := by
  unfold compactedIds retainedCount
  split
  · rfl
  · rw [List.length_cons, List.length_drop]
    omega

/-- What waits is not all there after a compaction that does not leave it in place. -/
theorem exists_lost (hnd : ids.Nodup) (hs : pending <+ ids) (hnotice : notice ∉ pending)
    (h : ¬ pending <+ compactedIds maxMessages notice ids) :
    ∃ id ∈ pending, id ∉ compactedIds maxMessages notice ids := by
  cases pending with
  | nil => exact absurd (List.nil_sublist _) h
  | cons a pending => exact ⟨a, List.mem_cons_self, not_mem_compactedIds hnd hs hnotice h⟩

/-- The ids after both messages of a turn were put into the session. -/
def preparedIds (maxMessages : Int) (user notice assistant notice' : Text) (ids : List Text) :
    List Text :=
  compactedIds maxMessages notice'
    (compactedIds maxMessages notice (ids ++ [user]) ++ [assistant])

theorem mem_of_mem_appended (h : a ∈ compactedIds maxMessages notice (ids ++ [id])) :
    a = notice ∨ a ∈ ids ∨ a = id := by
  rcases mem_of_mem_compactedIds h with rfl | h
  · exact .inl rfl
  · exact .inr (by simpa using h)

theorem nodup_appended (hnd : ids.Nodup) (hid : id ∉ ids) (hnotice : notice ∉ ids)
    (hne : id ≠ notice) : (compactedIds maxMessages notice (ids ++ [id])).Nodup := by
  refine nodup_compactedIds (nodup_snoc hnd hid) fun h => ?_
  rcases List.mem_append.mp h with h | h
  · exact hnotice h
  · exact hne (List.mem_singleton.mp h).symm

/-- Four ids that are made up one after the other. -/
structure NewIds (user notice assistant notice' : Text) (ids : List Text) : Prop where
  nodup : [user, notice, assistant, notice'].Nodup
  new : ∀ id ∈ [user, notice, assistant, notice'], id ∉ ids

namespace NewIds

variable (h : NewIds user notice assistant notice' ids)
include h

theorem user_not_mem : user ∉ ids := h.new _ (by simp)

theorem notice_not_mem : notice ∉ ids := h.new _ (by simp)

theorem user_ne : user ≠ notice ∧ user ≠ assistant ∧ user ≠ notice' := by
  have hnd := h.nodup
  simp only [List.nodup_cons, List.mem_cons, List.not_mem_nil, or_false, not_or] at hnd
  exact hnd.1

/-- The second message and its notice are new after the first as well. -/
theorem not_mem_appended (hid : id ∈ [assistant, notice']) :
    id ∉ compactedIds maxMessages notice (ids ++ [user]) := by
  have hnd := h.nodup
  simp only [List.nodup_cons, List.mem_cons, List.not_mem_nil, or_false, not_or] at hnd hid
  intro hmem
  have hids : id ∉ ids := h.new id (by simp; tauto)
  rcases mem_of_mem_appended hmem with rfl | hmem | rfl
  · rcases hid with rfl | rfl
    · exact hnd.2.1.1 rfl
    · exact hnd.2.1.2 rfl
  · exact hids hmem
  · rcases hid with rfl | rfl
    · exact hnd.1.2.1 rfl
    · exact hnd.1.2.2 rfl

theorem assistant_ne : assistant ≠ notice' := by
  have hnd := h.nodup
  simp only [List.nodup_cons, List.mem_cons, List.not_mem_nil, or_false, not_or] at hnd
  exact hnd.2.2.1

theorem nodup_appended (hnd : ids.Nodup) :
    (compactedIds maxMessages notice (ids ++ [user])).Nodup :=
  Agent.nodup_appended hnd h.user_not_mem h.notice_not_mem h.user_ne.1

theorem nodup_preparedIds (hnd : ids.Nodup) :
    (preparedIds maxMessages user notice assistant notice' ids).Nodup :=
  Agent.nodup_appended (h.nodup_appended hnd) (h.not_mem_appended (by simp))
    (h.not_mem_appended (by simp)) h.assistant_ne

/-- What the first message took away does not come back with the second. -/
theorem lost_preparedIds (hs : pending <+ ids) (hid : id ∈ pending ++ [user])
    (hlost : id ∉ compactedIds maxMessages notice (ids ++ [user])) :
    id ∉ preparedIds maxMessages user notice assistant notice' ids := by
  have hmem : id ∈ ids ∨ id = user := by
    rcases List.mem_append.mp hid with hid | hid
    · exact .inl (hs.subset hid)
    · exact .inr (List.mem_singleton.mp hid)
  intro hprepared
  rcases mem_of_mem_appended hprepared with rfl | hback | rfl
  · rcases hmem with hmem | rfl
    · exact h.new _ (by simp) hmem
    · exact h.user_ne.2.2 rfl
  · exact hlost hback
  · rcases hmem with hmem | rfl
    · exact h.new _ (by simp) hmem
    · exact h.user_ne.2.1 rfl

theorem notice_not_mem_user (hs : pending <+ ids) : notice ∉ pending ++ [user] := by
  intro hmem
  rcases List.mem_append.mp hmem with hmem | hmem
  · exact h.notice_not_mem (hs.subset hmem)
  · exact h.user_ne.1 (List.mem_singleton.mp hmem).symm

theorem notice'_not_mem (hkept : pending ++ [user] <+
    compactedIds maxMessages notice (ids ++ [user])) :
    notice' ∉ (pending ++ [user]) ++ [assistant] := by
  intro hmem
  rcases List.mem_append.mp hmem with hmem | hmem
  · exact h.not_mem_appended (by simp) (hkept.subset hmem)
  · exact h.assistant_ne (List.mem_singleton.mp hmem).symm

theorem sublist_user_iff (hnd : ids.Nodup) (hs : pending <+ ids) :
    pending ++ [user] <+ compactedIds maxMessages notice (ids ++ [user]) ↔
      (ids.length + 1 : Int) ≤ maxMessages ∨
        sinceFirst pending ids + 1 ≤ retainedCount maxMessages := by
  rw [sublist_compactedIds_iff (nodup_snoc hnd h.user_not_mem) (hs.append (List.Sublist.refl _))
    (h.notice_not_mem_user hs), sinceFirst_snoc hs h.user_not_mem]
  simp

/-- The second message of the turn, after the first one left what waits in place. -/
theorem sublist_assistant_iff (hnd : ids.Nodup) (hs : pending <+ ids)
    (hkept : pending ++ [user] <+ compactedIds maxMessages notice (ids ++ [user])) :
    (pending ++ [user]) ++ [assistant] <+
        preparedIds maxMessages user notice assistant notice' ids ↔
      (ids.length + 2 : Int) ≤ maxMessages ∨
        sinceFirst pending ids + 2 ≤ retainedCount maxMessages := by
  have hassistant : assistant ∉ compactedIds maxMessages notice (ids ++ [user]) :=
    h.not_mem_appended (by simp)
  have hsince : sinceFirst (pending ++ [user]) (compactedIds maxMessages notice (ids ++ [user]))
      = sinceFirst pending ids + 1 := by
    rw [sinceFirst_compactedIds (nodup_snoc hnd h.user_not_mem)
      (hs.append (List.Sublist.refl _)) (h.notice_not_mem_user hs) hkept,
      sinceFirst_snoc hs h.user_not_mem]
  have hlen := length_compactedIds maxMessages notice
    (show 0 < (ids ++ [user]).length by simp)
  have hfirst := (h.sublist_user_iff hnd hs).mp hkept
  rw [preparedIds, sublist_compactedIds_iff (nodup_snoc (h.nodup_appended hnd) hassistant)
    (hkept.append (List.Sublist.refl _)) (h.notice'_not_mem hkept),
    sinceFirst_snoc hkept hassistant, hsince]
  simp only [List.length_append, List.length_singleton, hlen, retainedCount]
  simp only [retainedCount] at hfirst
  split <;> omega

variable (maxMessages) in
/-- Both messages of a turn that is accepted, and those of the turns before it, are kept exactly if
there is room for two more, or the oldest is among what is retained with them. -/
theorem sublist_preparedIds_iff (hnd : ids.Nodup) (hs : pending <+ ids) :
    pending ++ [user, assistant] <+
        preparedIds maxMessages user notice assistant notice' ids ↔
      (ids.length + 2 : Int) ≤ maxMessages ∨
        sinceFirst pending ids + 2 ≤ retainedCount maxMessages := by
  have hsplit : pending ++ [user, assistant] = (pending ++ [user]) ++ [assistant] := by simp
  by_cases hkept : pending ++ [user] <+ compactedIds maxMessages notice (ids ++ [user])
  · rw [hsplit, h.sublist_assistant_iff hnd hs hkept]
  · obtain ⟨id, hid, hlost⟩ := exists_lost (nodup_snoc hnd h.user_not_mem)
      (hs.append (List.Sublist.refl _)) (h.notice_not_mem_user hs) hkept
    refine iff_of_false (fun hall => ?_) fun hroom => ?_
    · refine h.lost_preparedIds hs hid hlost (hall.subset ?_)
      rw [hsplit]
      exact List.mem_append_left _ hid
    · rw [h.sublist_user_iff hnd hs] at hkept
      omega

theorem exists_lost_prepared (hnd : ids.Nodup) (hs : pending <+ ids)
    (hlost : ¬ pending ++ [user, assistant] <+
      preparedIds maxMessages user notice assistant notice' ids) :
    ∃ id ∈ pending ++ [user, assistant],
      id ∉ preparedIds maxMessages user notice assistant notice' ids := by
  have hsplit : pending ++ [user, assistant] = (pending ++ [user]) ++ [assistant] := by simp
  rw [hsplit] at hlost ⊢
  by_cases hkept : pending ++ [user] <+ compactedIds maxMessages notice (ids ++ [user])
  · have hassistant : assistant ∉ compactedIds maxMessages notice (ids ++ [user]) :=
      h.not_mem_appended (by simp)
    exact exists_lost (nodup_snoc (h.nodup_appended hnd) hassistant)
      (hkept.append (List.Sublist.refl _)) (h.notice'_not_mem hkept) hlost
  · obtain ⟨id, hid, hgone⟩ := exists_lost (nodup_snoc hnd h.user_not_mem)
      (hs.append (List.Sublist.refl _)) (h.notice_not_mem_user hs) hkept
    exact ⟨id, List.mem_append_left _ hid, h.lost_preparedIds hs hid hgone⟩

end NewIds

end Ids

end Exo.Agent
