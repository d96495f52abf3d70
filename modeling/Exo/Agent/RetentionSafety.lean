import Exo.Agent.Retention

/-!
# A turn that waits is kept as long as there is room

What waits is a part of what is listed, in the same order. So a message that is put into the session
leaves all of it in place exactly if it leaves the first one there, and that is a matter of two
lengths. The files of a session do what the list of its messages does, as long as every text can be
stored, so what holds of the runs over the list holds of the runs over the files.
-/

namespace Exo.Agent

open Lib
open scoped List

/-! ## Over the list of messages -/

variable {maxMessages : Int} {s s' : ChatState (List Message)} {a : ChatAction}

/-- The turns that wait are in the session, in order, and none has failed. -/
structure Waiting (s : ChatState (List Message)) : Prop where
  nodup : (s.store.map (·.messageId)).Nodup
  order : s.pendingIds <+ s.store.map (·.messageId)
  failed : s.failed = []

theorem map_compacted (clock : Clock) (ms : List Message) :
    (compacted maxMessages clock ms).map (·.messageId)
      = compactedIds maxMessages (clock.newId 0) (ms.map (·.messageId)) := by
  unfold compacted compactedIds
  rw [List.length_map]
  split
  · rfl
  · rw [List.map_cons, List.map_drop]
    rfl

theorem map_replaceFirst (messageId content : Text) (reasoning : Option Text)
    (ms : List Message) :
    (replaceFirst messageId content reasoning ms).map (·.messageId) = ms.map (·.messageId) := by
  induction ms with
  | nil => rfl
  | cons m ms ih =>
      rw [replaceFirst]
      split
      · rfl
      · rw [List.map_cons, List.map_cons, ih]

theorem mem_replaceFirst {messageId : Text} (content : Text) (reasoning : Option Text)
    {ms : List Message} (h : ∃ m ∈ ms, m.messageId = messageId) :
    ∃ m ∈ replaceFirst messageId content reasoning ms,
      m.messageId = messageId ∧ m.content = content ∧ m.reasoning = reasoning := by
  induction ms with
  | nil =>
      obtain ⟨m, hm, -⟩ := h
      exact absurd hm List.not_mem_nil
  | cons m ms ih =>
      rw [replaceFirst]
      split
      · rename_i hid
        exact ⟨_, List.mem_cons_self, hid, rfl, rfl⟩
      · rename_i hid
        obtain ⟨n, hn, hnid⟩ := h
        have hrest : ∃ m ∈ ms, m.messageId = messageId :=
          ⟨n, (List.mem_cons.mp hn).resolve_left fun he => hid (he ▸ hnid), hnid⟩
        obtain ⟨m', hm', hspec⟩ := ih hrest
        exact ⟨m', List.mem_cons_of_mem m hm', hspec⟩

theorem sinceOldest_eq (s : ChatState (List Message)) :
    s.sinceOldest (messageList maxMessages)
      = sinceFirst s.pendingIds (s.store.map (·.messageId)) := by
  unfold ChatState.sinceOldest ChatState.pendingIds
  cases s.pending with
  | nil => rfl
  | cons turn pending => rfl

theorem Waiting.kept (h : Waiting s) : s.Kept (messageList maxMessages) :=
  ⟨fun _ hid => h.order.subset hid, h.failed⟩

/-! ### The steps -/

theorem prepare_spec {clock clock' : Clock} {user assistant : Message}
    (hs : chatStep (messageList maxMessages) s (.prepare clock clock' user assistant) = some s') :
    (NewIds user.messageId (clock.newId 0) assistant.messageId (clock'.newId 0)
      (s.store.map (·.messageId))) ∧ s'.failed = s.failed ∧
    s'.pendingIds = s.pendingIds ++ [user.messageId, assistant.messageId] ∧
    s'.store.map (·.messageId) = preparedIds maxMessages user.messageId (clock.newId 0)
      assistant.messageId (clock'.newId 0) (s.store.map (·.messageId)) := by
  simp only [chatStep, messageList, if_true, Option.ite_none_right_eq_some,
    Option.some.injEq] at hs
  obtain ⟨hfresh, rfl⟩ := hs
  refine ⟨⟨hfresh.1, fun id hid => (hfresh.2 id hid).1⟩, rfl, by simp [ChatState.pendingIds], ?_⟩
  simp only [preparedIds, map_compacted, List.map_append, List.map_cons, List.map_nil]

variable {clock : Clock}

theorem append_spec {m : Message}
    (hs : chatStep (messageList maxMessages) s (.append clock m) = some s') :
    (m.messageId ≠ clock.newId 0 ∧ m.messageId ∉ s.store.map (·.messageId) ∧
      clock.newId 0 ∉ s.store.map (·.messageId)) ∧ s'.failed = s.failed ∧
    s'.pendingIds = s.pendingIds ∧ s'.store.map (·.messageId)
      = compactedIds maxMessages (clock.newId 0) (s.store.map (·.messageId) ++ [m.messageId]) := by
  rw [chatStep, Option.ite_none_right_eq_some] at hs
  obtain ⟨hfresh, hs⟩ := hs
  obtain rfl := Option.some.inj hs
  have hne : m.messageId ≠ clock.newId 0 := by
    have hnd := hfresh.1
    simpa using hnd
  refine ⟨⟨hne, (hfresh.2 _ (by simp)).1, (hfresh.2 _ (by simp)).1⟩, rfl, rfl, ?_⟩
  simp only [messageList, map_compacted, List.map_append, List.map_cons, List.map_nil]

variable {i : Nat}

theorem pendingIds_set {turn turn' : PreparedTurn} (hi : s.pending[i]? = some turn)
    (huser : turn'.userMessageId = turn.userMessageId)
    (hassistant : turn'.assistantMessageId = turn.assistantMessageId) :
    { s with pending := s.pending.set i turn' }.pendingIds = s.pendingIds := by
  obtain ⟨hlt, rfl⟩ := List.getElem?_eq_some_iff.mp hi
  have hlen : i < (s.pending.map fun turn =>
      [turn.userMessageId, turn.assistantMessageId]).length := by rwa [List.length_map]
  simp only [ChatState.pendingIds, List.flatMap_def, List.map_set, huser, hassistant]
  conv_rhs => rw [← List.set_getElem_self hlen, List.getElem_map]

theorem mem_pendingIds {turn : PreparedTurn} (hi : s.pending[i]? = some turn) :
    turn.userMessageId ∈ s.pendingIds ∧ turn.assistantMessageId ∈ s.pendingIds := by
  have hmem := List.mem_of_getElem? hi
  exact ⟨List.mem_flatMap.mpr ⟨turn, hmem, by simp⟩, List.mem_flatMap.mpr ⟨turn, hmem, by simp⟩⟩

/-- A turn that waits is found when the worker comes to it. -/
theorem Waiting.start (h : Waiting s)
    (hs : chatStep (messageList maxMessages) s (.start clock i) = some s') : Waiting s' := by
  obtain ⟨turn, hturn, rfl⟩ := Option.map_eq_some_iff.mp hs
  obtain ⟨hi, -⟩ := Option.filter_eq_some_iff.mp hturn
  have hfound : turn.userMessageId ∈
      (((messageList maxMessages).listMessages clock s.store).2.getD []).map (·.messageId) :=
    h.order.subset (mem_pendingIds hi).1
  dsimp only
  rw [if_pos hfound]
  have hset : { s with pending := s.pending.set i { turn with started := true } }.pendingIds
      = s.pendingIds := pendingIds_set hi rfl rfl
  exact ⟨h.nodup, hset.symm ▸ h.order, h.failed⟩

/-- What its worker writes is found as well. -/
theorem Waiting.updated (h : Waiting s) {turn : PreparedTurn}
    (hi : s.pending[i]? = some turn) (clock : Clock) (content : Text) (reasoning : Option Text) :
    ((messageList maxMessages).updateMessage clock s.store turn.assistantMessageId content
      reasoning).2 = true :=
  decide_eq_true (List.mem_map.mp (h.order.subset (mem_pendingIds hi).2))

variable {reasoning : Option Text}

theorem Waiting.persist (h : Waiting s) {content : Text}
    (hs : chatStep (messageList maxMessages) s (.persist clock i content reasoning) = some s') :
    Waiting s' := by
  obtain ⟨turn, hturn, rfl⟩ := Option.map_eq_some_iff.mp hs
  obtain ⟨hi, -⟩ := Option.filter_eq_some_iff.mp hturn
  dsimp only
  rw [if_pos (h.updated hi clock content reasoning)]
  exact ⟨(map_replaceFirst ..).symm ▸ h.nodup, (map_replaceFirst ..).symm ▸ h.order, h.failed⟩

/-- What a turn ends with is listed. -/
theorem Waiting.finish (h : Waiting s) {content : Text}
    (hs : chatStep (messageList maxMessages) s (.finish clock i content reasoning) = some s') :
    Waiting s' ∧ ∀ turn ∈ s.pending[i]?, ∃ m ∈ s'.store,
      m.messageId = turn.assistantMessageId ∧ m.content = content ∧ m.reasoning = reasoning := by
  obtain ⟨turn, hturn, rfl⟩ := Option.map_eq_some_iff.mp hs
  obtain ⟨hi, -⟩ := Option.filter_eq_some_iff.mp hturn
  dsimp only
  rw [if_pos (h.updated hi clock content reasoning)]
  refine ⟨⟨(map_replaceFirst ..).symm ▸ h.nodup, ?_, h.failed⟩, fun turn' hturn' => ?_⟩
  · refine List.Sublist.trans ?_ ((map_replaceFirst ..).symm ▸ h.order)
    exact List.Sublist.flatMap (List.eraseIdx_sublist s.pending i) _
  · obtain rfl := Option.some.inj (hi.symm.trans hturn')
    exact mem_replaceFirst content reasoning
      (List.mem_map.mp (h.order.subset (mem_pendingIds hi).2))

/-- **One step.** What waits stays in place exactly where there is room. -/
theorem waiting_step_iff (h : Waiting s)
    (hs : chatStep (messageList maxMessages) s a = some s') :
    Waiting s' ↔ Room (messageList maxMessages) maxMessages s a := by
  cases a with
  | prepare clock clock' user assistant =>
      obtain ⟨hnew, hfailed, hpending, hids⟩ := prepare_spec hs
      have hiff := hnew.sublist_preparedIds_iff maxMessages h.nodup h.order
      rw [Room, sinceOldest_eq]
      rw [List.length_map] at hiff
      refine Iff.trans ⟨fun hw => ?_, fun hroom => ?_⟩ hiff
      · rw [← hpending, ← hids]
        exact hw.order
      · exact ⟨hids ▸ hnew.nodup_preparedIds h.nodup, by rwa [hpending, hids],
          hfailed.trans h.failed⟩
  | append clock m =>
      obtain ⟨⟨hne, hid, hnotice⟩, hfailed, hpending, hids⟩ := append_spec hs
      have hiff := sublist_snoc_iff maxMessages h.nodup h.order hid hnotice
      rw [Room, sinceOldest_eq]
      rw [List.length_map] at hiff
      refine Iff.trans ⟨fun hw => ?_, fun hroom => ?_⟩ hiff
      · rw [← hpending, ← hids]
        exact hw.order
      · exact ⟨hids ▸ nodup_appended h.nodup hid hnotice hne, by rwa [hpending, hids],
          hfailed.trans h.failed⟩
  | start clock i => exact iff_of_true (h.start hs) trivial
  | persist clock i content reasoning => exact iff_of_true (h.persist hs) trivial
  | finish clock i content reasoning => exact iff_of_true (h.finish hs).1 trivial

/-- Where it does not stay in place, something of it is gone. -/
theorem waiting_of_kept (h : Waiting s)
    (hs : chatStep (messageList maxMessages) s a = some s')
    (hkept : s'.Kept (messageList maxMessages)) : Waiting s' := by
  by_contra hlost
  have hroom := (waiting_step_iff h hs).not.mp hlost
  cases a with
  | prepare clock clock' user assistant =>
      obtain ⟨hnew, -, hpending, hids⟩ := prepare_spec hs
      have hiff := hnew.sublist_preparedIds_iff maxMessages h.nodup h.order
      rw [Room, sinceOldest_eq] at hroom
      rw [List.length_map] at hiff
      obtain ⟨id, hid, hgone⟩ := hnew.exists_lost_prepared h.nodup h.order (hiff.not.mpr hroom)
      exact hgone (hids ▸ hkept.messages id (hpending ▸ hid))
  | append clock m =>
      obtain ⟨⟨hne, hid, hnotice⟩, -, hpending, hids⟩ := append_spec hs
      have hiff := sublist_snoc_iff maxMessages h.nodup h.order hid hnotice
      rw [Room, sinceOldest_eq] at hroom
      rw [List.length_map] at hiff
      obtain ⟨id, hid, hgone⟩ := exists_lost (nodup_snoc h.nodup hid)
        (h.order.trans (List.sublist_append_left _ _)) (fun hm => hnotice (h.order.subset hm))
        (hiff.not.mpr hroom)
      exact hgone (hids ▸ hkept.messages id (hpending ▸ hid))
  | start clock i => exact hroom trivial
  | persist clock i content reasoning => exact hroom trivial
  | finish clock i content reasoning => exact hroom trivial

/-! ### Runs -/

variable {ms : List Message} {actions : List ChatAction}

/-- In a run that keeps the messages of the turns that wait everything else follows. -/
theorem persisted_of_waiting
    (h : ∀ k s, (chatMachine (messageList maxMessages) ms).run { store := ms } (actions.take k)
      = some s → Waiting s) : Persisted (messageList maxMessages) ms actions where
  kept k s hrun := (h k s hrun).kept
  listed k _ _ _ _ _ s hrun turn hturn _ hs' := ((h k s hrun).finish hs').2 turn hturn

/-- **Over the list of messages** every turn that is accepted is persisted exactly if there is room
whenever a message is put into it. -/
theorem persisted_list_iff (hnd : (ms.map (·.messageId)).Nodup) {last : ChatState (List Message)}
    (hrun : (chatMachine (messageList maxMessages) ms).run { store := ms } actions = some last) :
    Persisted (messageList maxMessages) ms actions ↔
      ∀ k a s, actions[k]? = some a →
        (chatMachine (messageList maxMessages) ms).run { store := ms } (actions.take k) = some s →
        Room (messageList maxMessages) maxMessages s a := by
  have hinit : Waiting { store := ms } := ⟨hnd, List.nil_sublist _, rfl⟩
  have hroom := Machine.throughout_iff (m := chatMachine (messageList maxMessages) ms)
    (fun s a s' h hs => waiting_step_iff h hs) hinit hrun
  have hkept := Machine.throughout_congr (m := chatMachine (messageList maxMessages) ms)
    (K := fun s => s.Kept (messageList maxMessages)) (fun s h => h.kept)
    (fun s a s' h hs => waiting_of_kept h hs) hinit actions
  rw [← hroom, ← hkept]
  exact ⟨fun h => h.kept, fun h => persisted_of_waiting (hkept.mp h)⟩

end Exo.Agent
