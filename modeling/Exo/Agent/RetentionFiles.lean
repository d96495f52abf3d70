import Exo.Agent.RetentionSafety

/-!
# The files of a session do what the list of its messages does

As long as every text can be stored, a compaction included: the notice it leaves is stored like any
other message. So a run of turns over the files of a session goes step by step with the run over
the list, and what is kept there is kept here.
-/

namespace Exo.Agent

open Lib

variable {maxMessages : Int}

def Clock.Storable (clock : Clock) : Prop :=
  Agent.Storable clock.nowIso ∧ Agent.Storable (clock.newId 0)

/-- What an action puts into the session can be stored. -/
def ChatAction.Storable : ChatAction → Prop
  | .prepare clock clock' user assistant =>
    user.Storable ∧ clock.Storable ∧ assistant.Storable ∧ clock'.Storable
  | .append clock m => m.Storable ∧ clock.Storable
  | .start _ _ => True
  | .persist _ _ content reasoning => Agent.Storable content ∧ ∀ t ∈ reasoning, Agent.Storable t
  | .finish _ _ content reasoning => Agent.Storable content ∧ ∀ t ∈ reasoning, Agent.Storable t

/-! ## The calls -/

/-- The session holds these messages, and its title can be written. -/
structure Stores (s : Session) (ms : List Message) : Prop where
  holds : Holds s ms
  title : s.title.Encodable

variable {s : Session} {ms : List Message}

theorem storable_of_printable {t : Text} (h : ∀ c ∈ t, 32 ≤ c.val ∧ c.val < 127) :
    Agent.Storable t := by
  intro c hc
  have hprintable := h c hc
  refine ⟨decide_eq_false fun hs => ?_, ?_, ?_, ?_⟩ <;> omega

/-- A text of printable characters of ASCII can be stored. -/
theorem storable_of {cs : List Char}
    (h : cs.all (fun c => 32 ≤ c.toNat && c.toNat < 127) = true) :
    Agent.Storable (Text.of (String.ofList cs)) := by
  refine storable_of_printable fun c hc => ?_
  rw [Text.of, String.toList_ofList] at hc
  obtain ⟨d, hd, rfl⟩ := List.mem_map.mp hc
  have hrange := List.all_eq_true.mp h d hd
  rw [Bool.and_eq_true, decide_eq_true_iff, decide_eq_true_iff] at hrange
  exact hrange

variable {clock : Clock}

theorem removalNotice_storable (h : clock.Storable) (removed : Nat) :
    (removalNotice clock removed).Storable := by
  have hcontent : Agent.Storable (removalNotice clock removed).content := by
    intro c hc
    rcases List.mem_append.mp hc with hc | hc
    · exact storable_of_printable (Json.natText_printable removed) c hc
    · exact storable_of (by decide) c hc
  have hrole : Agent.Storable (Text.of "system") := storable_of (by decide)
  intro t ht
  simp only [Message.texts, List.mem_append, List.mem_cons, List.not_mem_nil, or_false] at ht
  rcases ht with ((rfl | rfl) | ht) | rfl | rfl
  · exact hrole
  · exact hcontent
  · cases ht
  · exact h.1
  · exact h.2

variable (maxMessages) in
theorem compacted_storable (h : clock.Storable) (hms : ∀ m ∈ ms, m.Storable) :
    ∀ m ∈ compacted maxMessages clock ms, m.Storable := by
  intro m hm
  unfold compacted at hm
  split at hm
  · exact hms m hm
  · rcases List.mem_cons.mp hm with rfl | hm
    · exact removalNotice_storable h _
    · exact hms m (List.mem_of_mem_drop hm)

theorem encodable_chatEntry {m : Message} (h : m.Storable) : Text.Encodable (chatEntry m) := by
  have htexts := (encodable_record m).mp ((storable_iff m).mp h).1
  simp only [chatEntry, Text.encodable_append, Text.encodable_of, and_true, true_and]
  exact ⟨⟨htexts _ (by simp [Message.texts]), htexts _ (by simp [Message.texts])⟩,
    htexts _ (by simp [Message.texts])⟩

theorem Stores.list (h : Stores s ms) (clock : Clock) :
    Stores (listMessages clock s).1 ms ∧ (listMessages clock s).2 = some ms := by
  rw [list_holds clock h.holds]
  exact ⟨⟨⟨h.holds.storable, .inl rfl⟩, h.title⟩, rfl⟩

/-- What can be stored is written, to the records and to the chat. -/
theorem Stores.write (h : Stores s ms) {ms' : List Message} (hms' : ∀ m ∈ ms', m.Storable) :
    (writeMessages s ms').2 = true ∧
      Stores (rebuildChat (writeMessages s ms').1 ms').1 ms' ∧
      (rebuildChat (writeMessages s ms').1 ms').2 = true := by
  have hfile : Text.Encodable (jsonl ms') :=
    (encodable_jsonl ms').mpr fun m hm => ((storable_iff m).mp (hms' m hm)).1
  have hchat : Text.Encodable (Text.of "# " ++ s.title ++ Text.of "\n\n" ++
      ms'.flatMap chatEntry) := by
    simp only [Text.encodable_append, Text.encodable_of, h.title, true_and]
    intro c hc
    obtain ⟨m, hm, hc⟩ := List.mem_flatMap.mp hc
    exact encodable_chatEntry (hms' m hm) c hc
  simp only [writeMessages, rebuildChat, writeText, if_pos hfile, if_pos hchat]
  exact ⟨trivial, ⟨⟨hms', .inl rfl⟩, h.title⟩, trivial⟩

/-- A compaction leaves what it is meant to leave. -/
theorem Stores.compact (h : Stores s ms) (hclock : clock.Storable) :
    Stores (compactSession maxMessages clock s).1 (compacted maxMessages clock ms) ∧
      (compactSession maxMessages clock s).2 = true := by
  obtain ⟨hlisted, hms⟩ := h.list clock
  rw [compactSession]
  simp only [hms]
  by_cases hroom : (ms.length : Int) ≤ maxMessages
  · rw [if_pos hroom, compacted, if_pos hroom]
    exact ⟨hlisted, rfl⟩
  · have hcompacted := compacted_storable maxMessages hclock h.holds.storable
    rw [compacted, if_neg hroom] at hcompacted ⊢
    obtain ⟨hdone, hstores, hrebuilt⟩ := hlisted.write hcompacted
    rw [if_neg hroom]
    simp only [retainedCount] at hdone hstores hrebuilt ⊢
    rw [if_pos hdone]
    exact ⟨hstores, hrebuilt⟩

variable (maxMessages) in
theorem Stores.append (h : Stores s ms) {m : Message} (hm : m.Storable)
    (hclock : clock.Storable) :
    Stores (appendMessage maxMessages clock s m).1 (compacted maxMessages clock (ms ++ [m])) ∧
      (appendMessage maxMessages clock s m).2 = true := by
  have hrecord : Text.Encodable (dumpsLine m) :=
    (encodable_dumpsLine m).mpr ((storable_iff m).mp hm).1
  have hfile : jsonl ms ++ dumpsLine m = jsonl (ms ++ [m]) := by simp [jsonl]
  have hstorable : ∀ n ∈ ms ++ [m], n.Storable := by
    intro n hn
    rcases List.mem_append.mp hn with hn | hn
    · exact h.holds.storable n hn
    · exact List.mem_singleton.mp hn ▸ hm
  have hwritten : Stores { s with
      chat := s.chat ++ chatEntry m
      messages := some (jsonl (ms ++ [m])) } (ms ++ [m]) := ⟨⟨hstorable, .inl rfl⟩, h.title⟩
  simp only [appendMessage, migrate_holds clock h.holds, appendText, if_pos (encodable_chatEntry hm),
    if_pos hrecord, Option.getD_some, if_true, hfile]
  exact hwritten.compact hclock

theorem Stores.update (h : Stores s ms) (clock : Clock) (messageId : Text) {content : Text}
    {reasoning : Option Text}
    (hok : Agent.Storable content ∧ ∀ t ∈ reasoning, Agent.Storable t) :
    Stores (updateMessage clock s messageId content reasoning).1
        (replaceFirst messageId content reasoning ms) ∧
      (updateMessage clock s messageId content reasoning).2
        = decide (∃ m ∈ ms, m.messageId = messageId) := by
  have hheld : Holds (updateMessage clock s messageId content reasoning).1
      (replaceFirst messageId content reasoning ms) := update_holds h.holds fun _ => hok
  have hreplaced := hheld.storable
  obtain ⟨hlisted, hms⟩ := h.list clock
  rw [updateMessage]
  simp only [hms]
  by_cases hid : ∃ m ∈ ms, m.messageId = messageId
  · obtain ⟨hdone, hstores, hrebuilt⟩ := hlisted.write hreplaced
    rw [if_pos hid, if_pos hdone, decide_eq_true hid]
    exact ⟨hstores, hrebuilt⟩
  · rw [if_neg hid, decide_eq_false hid, replaceFirst_absent hid]
    exact ⟨hlisted, rfl⟩

/-! ## The turns -/

/-- The files of a session show the messages of another state, and all else is the same. -/
structure Shows (s : ChatState Session) (c : ChatState (List Message)) : Prop where
  stores : Stores s.store c.store
  pending : s.pending = c.pending
  failed : s.failed = c.failed

namespace Shows

theorem ite {p q : Prop} [Decidable p] [Decidable q] {s s' : ChatState Session}
    {c c' : ChatState (List Message)} (hpq : p ↔ q) (h : Shows s c) (h' : Shows s' c') :
    Shows (if p then s else s') (if q then c else c') := by
  by_cases hq : q
  · rwa [if_pos (hpq.mpr hq), if_pos hq]
  · rwa [if_neg (hpq.not.mpr hq), if_neg hq]

variable {s : ChatState Session} {c : ChatState (List Message)} (h : Shows s c)
include h

theorem messages : s.messages (sessionFiles maxMessages) = c.messages (messageList maxMessages) := by
  rw [ChatState.messages, sessionFiles, (h.stores.list _).2]
  rfl

theorem ids : s.ids (sessionFiles maxMessages) = c.ids (messageList maxMessages) := by
  rw [ChatState.ids, h.messages]
  rfl

theorem pendingIds : s.pendingIds = c.pendingIds := by
  rw [ChatState.pendingIds, h.pending]
  rfl

theorem fresh_iff (newIds : List Text) : s.Fresh (sessionFiles maxMessages) newIds ↔
    c.Fresh (messageList maxMessages) newIds := by
  rw [ChatState.Fresh, ChatState.Fresh, h.ids, h.pendingIds]

theorem kept_iff : s.Kept (sessionFiles maxMessages) ↔ c.Kept (messageList maxMessages) := by
  have hmessages : (∀ id ∈ s.pendingIds, id ∈ s.ids (sessionFiles maxMessages)) ↔
      ∀ id ∈ c.pendingIds, id ∈ c.ids (messageList maxMessages) := by rw [h.ids, h.pendingIds]
  exact ⟨fun hk => ⟨hmessages.mp hk.messages, h.failed ▸ hk.failed⟩,
    fun hk => ⟨hmessages.mpr hk.messages, h.failed.symm ▸ hk.failed⟩⟩

theorem room_iff (a : ChatAction) : Room (sessionFiles maxMessages) maxMessages s a ↔
    Room (messageList maxMessages) maxMessages c a := by
  have hsince : s.sinceOldest (sessionFiles maxMessages)
      = c.sinceOldest (messageList maxMessages) := by
    rw [ChatState.sinceOldest, ChatState.sinceOldest, h.pending, h.ids]
  cases a <;> simp only [Room, h.messages, hsince]

theorem fail (i : Nat) (turn : PreparedTurn) : Shows (s.fail i turn) (c.fail i turn) where
  stores := h.stores
  pending := by rw [ChatState.fail, ChatState.fail, h.pending]
  failed := by rw [ChatState.fail, ChatState.fail, h.failed]

/-- What the work on a turn makes of the two states, where the turn is there in both. -/
theorem work {i : Nat} {p : PreparedTurn → Bool}
    {f : PreparedTurn → ChatState Session} {g : PreparedTurn → ChatState (List Message)}
    (hwork : ∀ turn, Shows (f turn) (g turn)) :
    Option.Rel Shows ((s.pending[i]?.filter p).map f) ((c.pending[i]?.filter p).map g) := by
  rw [h.pending]
  cases c.pending[i]?.filter p with
  | none => exact .none
  | some turn => exact .some (hwork turn)

/-- **A step over the files is a step over the list.** -/
theorem step {a : ChatAction} (ha : a.Storable) :
    Option.Rel Shows (chatStep (sessionFiles maxMessages) s a)
      (chatStep (messageList maxMessages) c a) := by
  cases a with
  | prepare clock clock' user assistant =>
      obtain ⟨huser, hclock, hassistant, hclock'⟩ := ha
      rw [chatStep, chatStep]
      by_cases hfresh : c.Fresh (messageList maxMessages)
          [user.messageId, clock.newId 0, assistant.messageId, clock'.newId 0]
      · obtain ⟨hfirst, hdone⟩ := h.stores.append maxMessages huser hclock
        obtain ⟨hsecond, hdone'⟩ := hfirst.append maxMessages hassistant hclock'
        rw [if_pos ((h.fresh_iff _).mpr hfresh), if_pos hfresh]
        simp only [sessionFiles, messageList, if_pos hdone, if_pos hdone', if_true, h.pending]
        exact .some ⟨hsecond, rfl, h.failed⟩
      · rw [if_neg ((h.fresh_iff _).not.mpr hfresh), if_neg hfresh]
        exact .none
  | append clock m =>
      rw [chatStep, chatStep]
      by_cases hfresh : c.Fresh (messageList maxMessages) [m.messageId, clock.newId 0]
      · rw [if_pos ((h.fresh_iff _).mpr hfresh), if_pos hfresh]
        exact .some ⟨(h.stores.append _ ha.1 ha.2).1, h.pending, h.failed⟩
      · rw [if_neg ((h.fresh_iff _).not.mpr hfresh), if_neg hfresh]
        exact .none
  | start clock i =>
      refine h.work fun turn => ?_
      obtain ⟨hlisted, hms⟩ := h.stores.list clock
      have hshows : Shows { s with store := (listMessages clock s.store).1 } c :=
        ⟨hlisted, h.pending, h.failed⟩
      refine .ite ?_ ⟨hlisted, by rw [h.pending], h.failed⟩ (hshows.fail i turn)
      simp only [sessionFiles, messageList, hms, Option.getD_some]
  | persist clock i content reasoning | finish clock i content reasoning =>
      refine h.work fun turn => ?_
      obtain ⟨hstores, hfound⟩ := h.stores.update clock turn.assistantMessageId ha
      have hshows : Shows
          { s with store :=
            (updateMessage clock s.store turn.assistantMessageId content reasoning).1 }
          { c with store := replaceFirst turn.assistantMessageId content reasoning c.store } :=
        ⟨hstores, h.pending, h.failed⟩
      refine .ite ?_ ⟨hstores, by rw [h.pending], h.failed⟩ (hshows.fail i turn)
      simp only [sessionFiles, messageList, hfound]

end Shows

/-! ## Runs -/

variable {session : Session} {actions : List ChatAction}

variable (maxMessages) in
/-- A run over the files shows a run over the list, at each of its steps. -/
theorem shows_run (h : Stores session ms) (hactions : ∀ a ∈ actions, a.Storable) (k : Nat) :
    Option.Rel Shows
      ((chatMachine (sessionFiles maxMessages) session).run { store := session } (actions.take k))
      ((chatMachine (messageList maxMessages) ms).run { store := ms } (actions.take k)) := by
  refine Machine.run_rel (fun s c a hs (ha : ChatAction.Storable a) => hs.step ha)
    (fun a ha => hactions a (List.mem_of_mem_take ha)) ⟨h, rfl, rfl⟩

theorem exists_of_rel {α β : Type} {R : α → β → Prop} {x : Option α} {y : Option β}
    (h : Option.Rel R x y) {a : α} (ha : x = some a) : ∃ b, y = some b ∧ R a b := by
  subst ha
  cases h with
  | some hR => exact ⟨_, rfl, hR⟩

theorem exists_of_rel' {α β : Type} {R : α → β → Prop} {x : Option α} {y : Option β}
    (h : Option.Rel R x y) {b : β} (hb : y = some b) : ∃ a, x = some a ∧ R a b := by
  subst hb
  cases h with
  | some hR => exact ⟨_, rfl, hR⟩

/-- The files persist what the list persists. -/
theorem persisted_files_iff (h : Stores session ms) (hactions : ∀ a ∈ actions, a.Storable) :
    Persisted (sessionFiles maxMessages) session actions ↔
      Persisted (messageList maxMessages) ms actions := by
  constructor
  · refine fun hp => ⟨fun k c hc => ?_, fun k clock i content reasoning hk c hc turn hturn c' hc' => ?_⟩
    · obtain ⟨s, hs, hshows⟩ := exists_of_rel' (shows_run maxMessages h hactions k) hc
      exact hshows.kept_iff.1 (hp.kept k s hs)
    · obtain ⟨s, hs, hshows⟩ := exists_of_rel' (shows_run maxMessages h hactions k) hc
      obtain ⟨s', hs', hshows'⟩ := exists_of_rel'
        (hshows.step (hactions _ (List.mem_of_getElem? hk))) hc'
      have hlisted := hp.listed k clock i content reasoning hk s hs turn (hshows.pending ▸ hturn)
        s' hs'
      rwa [hshows'.messages] at hlisted
  · refine fun hp => ⟨fun k s hs => ?_, fun k clock i content reasoning hk s hs turn hturn s' hs' => ?_⟩
    · obtain ⟨c, hc, hshows⟩ := exists_of_rel (shows_run maxMessages h hactions k) hs
      exact hshows.kept_iff.2 (hp.kept k c hc)
    · obtain ⟨c, hc, hshows⟩ := exists_of_rel (shows_run maxMessages h hactions k) hs
      obtain ⟨c', hc', hshows'⟩ := exists_of_rel
        (hshows.step (hactions _ (List.mem_of_getElem? hk))) hs'
      have hlisted := hp.listed k clock i content reasoning hk c hc turn (hshows.pending ▸ hturn)
        c' hc'
      rwa [hshows'.messages]

/-- **Every accepted turn is persisted** exactly if, whenever a message is put into the session,
either the session has room for it or what a compaction retains goes back to the user's message of
the oldest turn that waits. -/
theorem persisted_iff (h : Stores session ms) (hnd : (ms.map (·.messageId)).Nodup)
    (hactions : ∀ a ∈ actions, a.Storable) {last : ChatState Session}
    (hrun : (chatMachine (sessionFiles maxMessages) session).run { store := session } actions
      = some last) :
    Persisted (sessionFiles maxMessages) session actions ↔
      ∀ k a s, actions[k]? = some a →
        (chatMachine (sessionFiles maxMessages) session).run { store := session }
          (actions.take k) = some s →
        Room (sessionFiles maxMessages) maxMessages s a := by
  have hall := shows_run maxMessages h hactions actions.length
  rw [List.take_length] at hall
  obtain ⟨c, hc, -⟩ := exists_of_rel hall hrun
  rw [persisted_files_iff h hactions, persisted_list_iff hnd hc]
  constructor
  · intro hroom k a s hk hs
    obtain ⟨c, hc, hshows⟩ := exists_of_rel (shows_run maxMessages h hactions k) hs
    exact (hshows.room_iff a).mpr (hroom k a c hk hc)
  · intro hroom k a c hk hc
    obtain ⟨s, hs, hshows⟩ := exists_of_rel' (shows_run maxMessages h hactions k) hc
    exact (hshows.room_iff a).mp (hroom k a s hk hs)

/-- What a user asks, or what is there for the answer. -/
def asked (role messageId : String) : Message where
  role := Text.of role
  content := []
  reasoning := none
  createdAt := Text.of "2026-01-01"
  messageId := Text.of messageId

def clockOf (noticeId : String) : Clock := ⟨Text.of "2026-01-01", fun _ => Text.of noticeId⟩

def question (u n a n' : String) : ChatAction :=
  .prepare (clockOf n) (clockOf n') (asked "user" u) (asked "assistant" a)

theorem asked_storable (role messageId : String) (hrole : Agent.Storable (Text.of role))
    (hid : Agent.Storable (Text.of messageId)) : (asked role messageId).Storable := by
  have hdate : Agent.Storable (Text.of "2026-01-01") := storable_of (by decide)
  intro t ht
  simp only [Message.texts, asked, Option.toList_none, List.append_nil, List.mem_append,
    List.mem_cons, List.not_mem_nil, or_false] at ht
  rcases ht with (rfl | rfl) | rfl | rfl
  · exact hrole
  · exact fun c hc => absurd hc List.not_mem_nil
  · exact hdate
  · exact hid

theorem question_storable {u n a n' : String} (hu : Agent.Storable (Text.of u))
    (hn : Agent.Storable (Text.of n)) (ha : Agent.Storable (Text.of a))
    (hn' : Agent.Storable (Text.of n')) : (question u n a n').Storable := by
  have hdate : Agent.Storable (Text.of "2026-01-01") := storable_of (by decide)
  exact ⟨asked_storable _ _ (by decide) hu, ⟨hdate, hn⟩, asked_storable _ _ (by decide) ha,
    ⟨hdate, hn'⟩⟩

theorem notes_stores : Stores notes [] where
  holds := createSession_holds createSession_notes (by decide)
  title := Text.encodable_of "notes"

theorem persisted_iff_question :
    Persisted (sessionFiles 100) notes [question "u" "n" "a" "m"] ↔
      ∀ k a s, [question "u" "n" "a" "m"][k]? = some a →
        (chatMachine (sessionFiles 100) notes).run { store := notes }
          ([question "u" "n" "a" "m"].take k) = some s →
        Room (sessionFiles 100) 100 s a := by
  have hactions : ∀ a ∈ [question "u" "n" "a" "m"], a.Storable := by
    intro a ha
    rw [List.mem_singleton.mp ha]
    exact question_storable (by decide) (by decide) (by decide) (by decide)
  obtain ⟨last, hlast, -⟩ := exists_of_rel' (shows_run 100 notes_stores hactions 1)
    (b := { store := [asked "user" "u", asked "assistant" "a"],
            pending := [⟨Text.of "u", Text.of "a", false⟩] }) (by rfl)
  exact persisted_iff notes_stores List.nodup_nil hactions hlast

/-- A session for two messages, and two turns: the second one takes the first one's away. -/
theorem not_forall_persisted :
    ¬ ∀ (maxMessages : Int) (session : Session) (ms : List Message) (actions : List ChatAction),
      Stores session ms → (ms.map (·.messageId)).Nodup → (∀ a ∈ actions, a.Storable) →
      Persisted (sessionFiles maxMessages) session actions := by
  intro h
  have hactions : ∀ a ∈ [question "u" "n" "a" "m", question "v" "o" "b" "p"], a.Storable := by
    intro a ha
    rcases List.mem_cons.mp ha with rfl | ha
    · exact question_storable (by decide) (by decide) (by decide) (by decide)
    · rw [List.mem_singleton.mp ha]
      exact question_storable (by decide) (by decide) (by decide) (by decide)
  have hp := (persisted_files_iff notes_stores hactions).mp
    (h 2 notes [] _ notes_stores List.nodup_nil hactions)
  have hkept := hp.kept 2
    { store := [removalNotice (clockOf "p") 2, asked "assistant" "b"],
      pending := [⟨Text.of "u", Text.of "a", false⟩, ⟨Text.of "v", Text.of "b", false⟩] } (by rfl)
  exact absurd (hkept.messages (Text.of "u") (by decide)) (by decide)

end Exo.Agent
