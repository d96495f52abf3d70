import Exo.Agent.Migration
import Exo.Agent.RetentionFiles

/-!
# What is left of a session, and what its notice says of the rest

A compaction counts what it removes itself. The notice of the one before is among that, and what
that notice stood for is not, so from the second compaction on every notice says the same. A title
that looks like messages has them in the session before the first append.
-/

namespace Exo.Agent

open Lib
open scoped List

/-! ## The promise -/

/-- A message for a session, with the time and the ids that its call is given. -/
structure Append where
  clock : Clock
  message : Message

/-- A session and what has been put into it. -/
structure Appended where
  session : Session
  /-- The messages whose `append_message` returned. -/
  messages : List Message := []
  /-- After one of them the session did not list what it did before and the message. -/
  removed : Bool := false

def Appended.append (maxMessages : Int) (a : Appended) (p : Append) : Appended :=
  let done := appendMessage maxMessages p.clock a.session p.message
  if done.2 then
    { session := done.1
      messages := a.messages ++ [p.message]
      removed := a.removed || decide ((listMessages p.clock done.1).2
        ≠ (listMessages p.clock a.session).2.map (· ++ [p.message])) }
  else { a with session := done.1 }

def appended (maxMessages : Int) (s : Session) (appends : List Append) : Appended :=
  appends.foldl (Appended.append maxMessages) { session := s }

/-- The retention policy: no more messages than allowed, and once one was removed a notice of how
many are gone, and the newest messages behind it. -/
def Appended.Retained (maxMessages : Int) (a : Appended) : Prop :=
  ∃ ms, (∀ clock, (listMessages clock a.session).2 = some ms) ∧ (ms.length : Int) ≤ maxMessages ∧
    (a.removed = true → ∃ clock newest, newest = a.messages.rtake (maxMessages - 1).toNat ∧
      ms = removalNotice clock (a.messages.length - newest.length) :: newest)

/-- The policy holds after each append that returns. -/
def KeepsPolicy (maxMessages : Int) (s : Session) (appends : List Append) : Prop :=
  ∀ k (p : Append), appends[k]? = some p →
    (appendMessage maxMessages p.clock (appended maxMessages s (appends.take k)).session
      p.message).2 = true →
    (appended maxMessages s (appends.take (k + 1))).Retained maxMessages

/-! ## The condition -/

/-- Times and ids are plain texts. -/
def Clock.Plain (clock : Clock) : Prop :=
  Agent.Storable clock.nowIso ∧ ∀ i, Agent.Storable (clock.newId i)

instance (m : Message) : Decidable m.Storable := List.decidableBAll _ _

/-- A message whose record is written, and cut when it is read. -/
def Message.Cut (m : Message) : Prop := Text.Encodable (record m) ∧ ¬ m.Storable

instance (m : Message) : Decidable m.Cut := inferInstanceAs (Decidable (_ ∧ _))

/-- The messages that can be stored, up to the first one that makes the session unreadable. -/
def storable (appends : List Append) : List Message :=
  ((appends.map (·.message)).takeWhile fun m => decide (¬ m.Cut)).filter fun m =>
    decide m.Storable

/-- What looks like a message in the chat of a new session. -/
def titled (s : Session) : List (Text × Text × Text) :=
  reread (parse true (Text.universalNewlines s.chat))

def TitleStorable (s : Session) : Prop :=
  ∀ found ∈ titled s, Agent.Storable found.1 ∧ Agent.Storable found.2.1 ∧
    Agent.Storable found.2.2

variable {maxMessages : Int} {clock : Clock} {s : Session} {ms : List Message} {m : Message}

/-! ## Sessions that are read -/

theorem migrate_migrated (clock : Clock) (s : Session) :
    migrateMessages clock (migrateMessages clock s).1 = ((migrateMessages clock s).1, true) := by
  cases h : s.messages with
  | none => simp only [migrateMessages, h]
  | some file => simp only [migrateMessages, h]

/-- With the call's first look at the records the session has these messages. -/
structure Opens (clock : Clock) (s : Session) (ms : List Message) : Prop where
  stores : Stores (migrateMessages clock s).1 ms
  returns : (migrateMessages clock s).2 = true

theorem Stores.opens (h : Stores s ms) (clock : Clock) : Opens clock s ms := by
  have hmigrated := migrate_holds clock h.holds
  refine ⟨?_, by rw [hmigrated]⟩
  rw [hmigrated]
  exact ⟨⟨h.holds.storable, .inl rfl⟩, h.title⟩

theorem append_migrated (h : (migrateMessages clock s).2 = true) (m : Message) :
    appendMessage maxMessages clock (migrateMessages clock s).1 m
      = appendMessage maxMessages clock s m := by
  simp only [appendMessage, migrate_migrated, h]

theorem Opens.listed (h : Opens clock s ms) : (listMessages clock s).2 = some ms := by
  have hlisted := (h.stores.list clock).2
  simpa only [listMessages, migrate_migrated, h.returns] using hlisted

variable (maxMessages) in
theorem Opens.append (h : Opens clock s ms) (hm : m.Storable) (hclock : clock.Plain) :
    Stores (appendMessage maxMessages clock s m).1 (compacted maxMessages clock (ms ++ [m])) ∧
      (appendMessage maxMessages clock s m).2 = true := by
  rw [← append_migrated h.returns]
  exact h.stores.append maxMessages hm ⟨hclock.1, hclock.2 0⟩

/-- The session has a record that is cut when it is read. -/
def Broken (s : Session) : Prop :=
  ∃ ms, s.messages = some (jsonl ms) ∧ ∃ m ∈ ms, ¬ Text.OneLine (record m)

theorem readMessages_cut (clock : Clock) (h : ∃ m ∈ ms, ¬ Text.OneLine (record m)) :
    readMessages clock (jsonl ms) = none := by
  have hfirst : ∃ before m after, ms = before ++ m :: after ∧
      (∀ n ∈ before, Text.OneLine (record n)) ∧ ¬ Text.OneLine (record m) := by
    induction ms with
    | nil =>
        obtain ⟨m, hm, -⟩ := h
        exact absurd hm List.not_mem_nil
    | cons n ms ih =>
        by_cases hn : Text.OneLine (record n)
        · obtain ⟨m, hm, hcut⟩ := h
          have hmem : m ∈ ms := (List.mem_cons.mp hm).resolve_left fun he => hcut (he ▸ hn)
          obtain ⟨before, m', after, rfl, hbefore, hm'⟩ := ih ⟨m, hmem, hcut⟩
          exact ⟨n :: before, m', after, rfl, List.forall_mem_cons.mpr ⟨hn, hbefore⟩, hm'⟩
        · exact ⟨[], n, ms, rfl, fun _ hx => absurd hx List.not_mem_nil, hn⟩
  obtain ⟨before, m, after, rfl, hbefore, hm⟩ := hfirst
  exact readMessages_broken clock before after hbefore hm

theorem compact_broken (h : Broken s) : compactSession maxMessages clock s = (s, false) := by
  obtain ⟨ms, hfile, hcut⟩ := h
  have hlist : listMessages clock s = (s, none) := by
    simp [listMessages, migrateMessages, hfile, readMessages_cut clock hcut]
  rw [compactSession, hlist]

variable (maxMessages clock m) in
/-- **From a cut record on no append returns.** -/
theorem Broken.append (h : Broken s) : Broken (appendMessage maxMessages clock s m).1 ∧
    (appendMessage maxMessages clock s m).2 = false := by
  obtain ⟨ms, hfile, n, hn, hcut⟩ := h
  have hmigrated : migrateMessages clock s = (s, true) := by simp [migrateMessages, hfile]
  simp only [appendMessage, hmigrated, if_true, appendText, hfile, Option.getD_some]
  by_cases hchat : Text.Encodable (chatEntry m)
  · simp only [if_pos hchat, if_true]
    by_cases hrecord : Text.Encodable (dumpsLine m)
    · have hjoin : jsonl ms ++ dumpsLine m = jsonl (ms ++ [m]) := by simp [jsonl]
      have hbroken : Broken { s with
          chat := s.chat ++ chatEntry m, messages := some (jsonl ms ++ dumpsLine m) } :=
        ⟨ms ++ [m], congrArg some hjoin, n, List.mem_append_left _ hn, hcut⟩
      simp only [if_pos hrecord, if_true, compact_broken hbroken]
      exact ⟨hbroken, trivial⟩
    · simp only [if_neg hrecord, Bool.false_eq_true, if_false]
      exact ⟨⟨ms, rfl, n, hn, hcut⟩, trivial⟩
  · simp only [if_neg hchat, Bool.false_eq_true, if_false]
    exact ⟨⟨ms, rfl, n, hn, hcut⟩, trivial⟩

variable (maxMessages clock) in
/-- What cannot be written is refused, and the records stay as they are. -/
theorem Stores.refuse (h : Stores s ms) (hm : ¬ Text.Encodable (record m)) :
    Stores (appendMessage maxMessages clock s m).1 ms ∧
      (appendMessage maxMessages clock s m).2 = false := by
  have hrecord : ¬ Text.Encodable (dumpsLine m) := fun he => hm ((encodable_dumpsLine m).mp he)
  simp only [appendMessage, migrate_holds clock h.holds, appendText, if_true, Option.getD_some,
    if_neg hrecord]
  by_cases hchat : Text.Encodable (chatEntry m)
  · simp only [if_pos hchat, if_true, Bool.false_eq_true, if_false]
    exact ⟨⟨⟨h.holds.storable, .inl rfl⟩, h.title⟩, trivial⟩
  · simp only [if_neg hchat, Bool.false_eq_true, if_false]
    exact ⟨⟨⟨h.holds.storable, .inl rfl⟩, h.title⟩, trivial⟩

variable (maxMessages clock) in
/-- What is written and cut breaks the session. -/
theorem Stores.break (h : Stores s ms) (hm : m.Cut) :
    Broken (appendMessage maxMessages clock s m).1 ∧
      (appendMessage maxMessages clock s m).2 = false := by
  have hrecord : Text.Encodable (dumpsLine m) := (encodable_dumpsLine m).mpr hm.1
  have hchat : Text.Encodable (chatEntry m) := by
    have htexts := (encodable_record m).mp hm.1
    simp only [chatEntry, Text.encodable_append, Text.encodable_of, and_true, true_and]
    exact ⟨⟨htexts _ (by simp [Message.texts]), htexts _ (by simp [Message.texts])⟩,
      htexts _ (by simp [Message.texts])⟩
  have hjoin : jsonl ms ++ dumpsLine m = jsonl (ms ++ [m]) := by simp [jsonl]
  have hbroken : Broken { s with
      chat := s.chat ++ chatEntry m, messages := some (jsonl ms ++ dumpsLine m) } :=
    ⟨ms ++ [m], congrArg some hjoin, m, by simp,
      fun hl => hm.2 ((storable_iff m).mpr ⟨hm.1, hl⟩)⟩
  simp only [appendMessage, migrate_holds clock h.holds, appendText, if_true, Option.getD_some,
    if_pos hrecord, if_pos hchat, compact_broken hbroken]
  exact ⟨hbroken, trivial⟩

/-! ## What is left after some appends -/

/-- What a session lists that listed `ps` before `ms` was put into it: once there is too much, a
notice and the newest messages. Only the first notice can count more than two. -/
def remaining (maxMessages : Int) (clock : Clock) (ps ms : List Message) : List Message :=
  if ms = [] ∨ (ps.length + ms.length : Int) ≤ maxMessages then ps ++ ms
  else
    removalNotice clock (if ms.length = 1 then (ps.length + 2 - maxMessages).toNat else 2) ::
      (ps ++ ms).rtake (maxMessages - 1).toNat

variable {ps : List Message} {clock' : Clock}

theorem rtake_eq_drop {α : Type} (l : List α) (n : Nat) : l.rtake n = l.drop (l.length - n) := rfl

theorem length_rtake {α : Type} (l : List α) (n : Nat) : (l.rtake n).length = min n l.length := by
  rw [rtake_eq_drop, List.length_drop]
  omega

/-- The newest ones of a list and one more. -/
theorem rtake_snoc {α : Type} (l : List α) (a : α) {n : Nat} (hn : n ≤ l.length) (hpos : 0 < n) :
    (l.rtake n ++ [a]).drop 1 = (l ++ [a]).rtake n := by
  have hlen : l.length + 1 - n = l.length - n + 1 := by omega
  rw [rtake_eq_drop, rtake_eq_drop, List.drop_append_of_le_length (by rw [List.length_drop]; omega),
    List.drop_drop, List.length_append, List.length_singleton, hlen,
    List.drop_append_of_le_length (by omega)]

theorem retainedCount_eq (hmax : 2 ≤ maxMessages) :
    retainedCount maxMessages = (maxMessages - 1).toNat := by
  unfold retainedCount
  omega

/-- A session that is full loses its first message and the one behind it. -/
theorem compacted_full (hmax : 2 ≤ maxMessages) (clock : Clock) (first m : Message)
    (hms : (maxMessages - 1).toNat ≤ ms.length) :
    compacted maxMessages clock (first :: (ms.rtake (maxMessages - 1).toNat ++ [m]))
      = removalNotice clock 2 :: (ms ++ [m]).rtake (maxMessages - 1).toNat := by
  have hretained := retainedCount_eq hmax
  have hlen : (first :: (ms.rtake (maxMessages - 1).toNat ++ [m])).length
      = (maxMessages - 1).toNat + 2 := by
    rw [List.length_cons, List.length_append, List.length_singleton, length_rtake,
      Nat.min_eq_left hms]
  have hover : ¬ ((first :: (ms.rtake (maxMessages - 1).toNat ++ [m])).length : Int)
      ≤ maxMessages := by omega
  rw [compacted, if_neg hover, hlen, hretained, Nat.add_sub_cancel_left,
    ← rtake_snoc ms m hms (by omega)]
  rfl

/-- **One more append** leaves what is left after one more message. -/
theorem compacted_remaining (hmax : 2 ≤ maxMessages) (clock clock' : Clock)
    (ps ms : List Message) (m : Message) : ∃ clock'',
      compacted maxMessages clock (remaining maxMessages clock' ps ms ++ [m])
        = remaining maxMessages clock'' ps (ms ++ [m]) := by
  have hretained := retainedCount_eq hmax
  have hlen : (ms ++ [m]).length = ms.length + 1 := by simp
  have hne' : ms ++ [m] ≠ [] := List.append_ne_nil_of_right_ne_nil _ (List.cons_ne_nil _ _)
  have hall : (ps ++ (ms ++ [m])).length = ps.length + ms.length + 1 := by
    rw [List.length_append, hlen, Nat.add_assoc]
  by_cases hroom : ms = [] ∨ (ps.length + ms.length : Int) ≤ maxMessages
  · rw [remaining, if_pos hroom, compacted, List.append_assoc]
    by_cases hfits : ((ps ++ (ms ++ [m])).length : Int) ≤ maxMessages
    · exact ⟨clock, by rw [if_pos hfits, remaining, if_pos (.inr (by omega))]⟩
    · have hfull : ¬ (ms ++ [m] = [] ∨ (ps.length + (ms ++ [m]).length : Int) ≤ maxMessages) := by
        rintro (he | he)
        · exact hne' he
        · omega
      have hcount : ps.length + ms.length + 1 - (maxMessages - 1).toNat
          = if (ms ++ [m]).length = 1 then (ps.length + 2 - maxMessages).toNat else 2 := by
        have hroom' : ms.length = 0 ∨ (ps.length + ms.length : Int) ≤ maxMessages :=
          hroom.imp_left List.length_eq_zero_iff.mpr
        rw [hlen]
        split <;> omega
      refine ⟨clock, ?_⟩
      rw [if_neg hfits, remaining, if_neg hfull, ← hcount, rtake_eq_drop, hretained, hall]
  · obtain ⟨hne, hover⟩ := not_or.mp hroom
    have hpos := List.length_pos_iff.mpr hne
    have hfull : ¬ (ms ++ [m] = [] ∨ (ps.length + (ms ++ [m]).length : Int) ≤ maxMessages) := by
      rintro (he | he)
      · exact hne' he
      · omega
    have hlong : (maxMessages - 1).toNat ≤ (ps ++ ms).length := by
      rw [List.length_append]
      omega
    -- the notice of the compaction before goes with the oldest message
    refine ⟨clock, ?_⟩
    rw [remaining, if_neg hroom, remaining, if_neg hfull, List.cons_append,
      compacted_full hmax clock _ m hlong, List.append_assoc, if_neg (by omega)]

theorem removalNotice_injective {n n' : Nat}
    (h : removalNotice clock n = removalNotice clock' n') : n = n' := by
  have hcontent : Json.natText n = Json.natText n' :=
    List.append_cancel_right (congrArg Message.content h)
  have hnone : Json.NoDigit [] := nofun
  have hread := Json.scanWhole_natText n hnone
  rw [hcontent, Json.scanWhole_natText n' hnone] at hread
  simpa using hread.symm

/-! ## Runs of appends -/

theorem appended_snoc (maxMessages : Int) (s : Session) (appends : List Append) (p : Append) :
    appended maxMessages s (appends ++ [p])
      = (appended maxMessages s appends).append maxMessages p := by
  rw [appended, appended, List.foldl_append, List.foldl_cons, List.foldl_nil]

/-- A session that can be read, with `n` messages from its title and those that were put into it. -/
structure Sound (maxMessages : Int) (n : Nat) (a : Appended) : Prop where
  opens : ∀ clock : Clock, clock.Plain → ∃ ps clock', ps.length = n ∧
    Opens clock a.session (remaining maxMessages clock' ps a.messages)
  stores : a.messages ≠ [] → ∃ ps clock', ps.length = n ∧
    Stores a.session (remaining maxMessages clock' ps a.messages)
  removed : a.removed
    = decide (¬ (a.messages = [] ∨ (n + a.messages.length : Int) ≤ maxMessages))

variable {a : Appended} {n : Nat} {p : Append}

/-- A message that can be stored is put into the session. -/
theorem Sound.append (h : Sound maxMessages n a) (hmax : 2 ≤ maxMessages)
    (hclock : p.clock.Plain) (hm : p.message.Storable) :
    Sound maxMessages n (a.append maxMessages p) ∧
      (a.append maxMessages p).messages = a.messages ++ [p.message] ∧
      (appendMessage maxMessages p.clock a.session p.message).2 = true := by
  obtain ⟨ps, clock', rfl, hopens⟩ := h.opens p.clock hclock
  obtain ⟨hstores, hreturns⟩ := hopens.append maxMessages hm hclock
  obtain ⟨clock'', hremaining⟩ :=
    compacted_remaining hmax p.clock clock' ps a.messages p.message
  rw [hremaining] at hstores
  have hnew : (listMessages p.clock (appendMessage maxMessages p.clock a.session p.message).1).2
      = some (remaining maxMessages clock'' ps (a.messages ++ [p.message])) :=
    (hstores.list p.clock).2
  have hlen : (a.messages ++ [p.message]).length = a.messages.length + 1 := by simp
  have hne : a.messages ++ [p.message] ≠ [] :=
    List.append_ne_nil_of_right_ne_nil _ (List.cons_ne_nil _ _)
  rw [Appended.append, if_pos hreturns]
  refine ⟨⟨fun clock _ => ⟨ps, clock'', rfl, hstores.opens clock⟩,
    fun _ => ⟨ps, clock'', rfl, hstores⟩, ?_⟩, rfl, hreturns⟩
  simp only [h.removed, hnew, hopens.listed, Option.map_some, ← Bool.decide_or, decide_eq_decide]
  -- only a compaction leaves other messages than the ones before and the new one
  by_cases hfits : (ps.length + (a.messages ++ [p.message]).length : Int) ≤ maxMessages
  · have hbefore : (ps.length + a.messages.length : Int) ≤ maxMessages := by omega
    refine iff_of_false ?_ fun hnot => hnot (.inr hfits)
    rw [remaining, remaining, if_pos (.inr hfits), if_pos (.inr hbefore)]
    simp [hbefore]
  · have hfull : ¬ (a.messages ++ [p.message] = [] ∨
        (ps.length + (a.messages ++ [p.message]).length : Int) ≤ maxMessages) := by
      rintro (he | he)
      · exact hne he
      · exact hfits he
    refine iff_of_true ?_ hfull
    by_cases hroom : a.messages = [] ∨ (ps.length + a.messages.length : Int) ≤ maxMessages
    · refine .inr fun he => ?_
      have hlength := congrArg List.length (Option.some.inj he)
      rw [remaining, remaining, if_neg hfull, if_pos hroom] at hlength
      simp only [List.length_cons, List.length_append, List.length_nil, length_rtake] at hlength
      omega
    · exact .inl hroom

/-- One that cannot be written is refused. -/
theorem Sound.refuse (h : Sound maxMessages n a) (hclock : p.clock.Plain)
    (hm : ¬ Text.Encodable (record p.message)) :
    Sound maxMessages n (a.append maxMessages p) ∧
      (a.append maxMessages p).messages = a.messages ∧
      (appendMessage maxMessages p.clock a.session p.message).2 = false := by
  obtain ⟨ps, clock', rfl, hopens⟩ := h.opens p.clock hclock
  obtain ⟨hstores, hreturns⟩ := hopens.stores.refuse maxMessages p.clock hm
  rw [append_migrated hopens.returns] at hstores hreturns
  rw [Appended.append, if_neg (by rw [hreturns]; exact Bool.false_ne_true)]
  exact ⟨⟨fun clock _ => ⟨ps, clock', rfl, hstores.opens clock⟩,
    fun _ => ⟨ps, clock', rfl, hstores⟩, h.removed⟩, rfl, hreturns⟩

/-- One that is cut breaks the session. -/
theorem Sound.break (h : Sound maxMessages n a) (hclock : p.clock.Plain) (hm : p.message.Cut) :
    Broken (a.append maxMessages p).session ∧
      (a.append maxMessages p).messages = a.messages ∧
      (appendMessage maxMessages p.clock a.session p.message).2 = false := by
  obtain ⟨ps, clock', rfl, hopens⟩ := h.opens p.clock hclock
  obtain ⟨hbroken, hreturns⟩ := hopens.stores.break maxMessages p.clock hm
  rw [append_migrated hopens.returns] at hbroken hreturns
  rw [Appended.append, if_neg (by rw [hreturns]; exact Bool.false_ne_true)]
  exact ⟨hbroken, rfl, hreturns⟩

variable (maxMessages) in
theorem Broken.appended (h : Broken a.session) (p : Append) :
    Broken (a.append maxMessages p).session ∧ (a.append maxMessages p).messages = a.messages ∧
      (appendMessage maxMessages p.clock a.session p.message).2 = false := by
  obtain ⟨hbroken, hreturns⟩ := h.append maxMessages p.clock p.message
  rw [Appended.append, if_neg (by rw [hreturns]; exact Bool.false_ne_true)]
  exact ⟨hbroken, rfl, hreturns⟩

/-- **The policy holds as long as nothing was removed, and after the first removal of two.** -/
theorem Sound.retained_iff (h : Sound maxMessages n a) (hmax : 2 ≤ maxMessages)
    (hne : a.messages ≠ []) : a.Retained maxMessages ↔
      (n + a.messages.length : Int) ≤ maxMessages ∨
        (a.messages.length : Int) = maxMessages + 1 := by
  obtain ⟨ps, clock', rfl, hstores⟩ := h.stores hne
  have hpos := List.length_pos_iff.mpr hne
  have hlisted : ∀ clock, (listMessages clock a.session).2
      = some (remaining maxMessages clock' ps a.messages) := fun clock => (hstores.list clock).2
  by_cases hfits : (ps.length + a.messages.length : Int) ≤ maxMessages
  · refine iff_of_true ⟨_, hlisted, ?_, fun hremoved => ?_⟩ (.inl hfits)
    · rw [remaining, if_pos (.inr hfits), List.length_append]
      omega
    · rw [h.removed, decide_eq_true_iff] at hremoved
      exact absurd (.inr hfits) hremoved
  · have hfull : ¬ (a.messages = [] ∨ (ps.length + a.messages.length : Int) ≤ maxMessages) :=
      not_or.mpr ⟨hne, hfits⟩
    have hremoved : a.removed = true := by rw [h.removed, decide_eq_true hfull]
    rw [or_iff_right hfits]
    constructor
    · rintro ⟨ms, hms, -, hnotice⟩
      obtain ⟨clock, newest, hnewest, rfl⟩ := hnotice hremoved
      have heq := Option.some.inj ((hms clock).symm.trans (hlisted clock))
      rw [remaining, if_neg hfull, List.cons.injEq] at heq
      have hcount := removalNotice_injective heq.1
      have hlength := congrArg List.length heq.2
      have hnewest' := congrArg List.length hnewest
      simp only [length_rtake, List.length_append] at hlength hnewest'
      split at hcount <;> omega
    · intro hlen
      have hlong : (maxMessages - 1).toNat ≤ a.messages.length := by omega
      have hnewest : (ps ++ a.messages).rtake (maxMessages - 1).toNat
          = a.messages.rtake (maxMessages - 1).toNat := by
        rw [rtake_eq_drop, rtake_eq_drop, List.length_append, List.drop_append,
          List.drop_eq_nil_of_le (by omega), List.nil_append]
        congr 1
        omega
      have hcount : a.messages.length - (a.messages.rtake (maxMessages - 1).toNat).length = 2 := by
        rw [length_rtake]
        omega
      have heq : remaining maxMessages clock' ps a.messages = removalNotice clock'
          (a.messages.length - (a.messages.rtake (maxMessages - 1).toNat).length) ::
            a.messages.rtake (maxMessages - 1).toNat := by
        rw [remaining, if_neg hfull, if_neg (by omega), hnewest, hcount]
      refine ⟨_, hlisted, ?_, fun _ => ⟨clock', _, rfl, heq⟩⟩
      rw [heq, List.length_cons, length_rtake]
      omega

/-! ## A new session -/

variable {title : Text} {appends : List Append}

theorem createSession_eq (hs : createSession title = some s) :
    s = { title, chat := chatTitle title, messages := none } ∧ title.Encodable := by
  unfold createSession at hs
  split at hs
  · rename_i htitle
    exact ⟨(Option.some.inj hs).symm, htitle⟩
  · cases hs

/-- What a new session is made of when it is first looked at. -/
theorem createSession_migrates (hs : createSession title = some s) (hclock : clock.Plain) :
    migrateMessages clock s = ({ s with
      messages := some (jsonl (chatMessages clock (Text.universalNewlines s.chat))) }, true) := by
  obtain ⟨rfl, htitle⟩ := createSession_eq hs
  refine migrateMessages_chat (fun i c hc => (hclock.2 i c hc).1) rfl ?_
  simp only [chatTitle, Text.encodable_append, Text.encodable_of, htitle, and_true]

variable (clock) in
/-- The message that a heading of the title is made into. -/
theorem mem_chatMessages_iff (s : Session) (P : Text × Text × Text → Prop) :
    (∀ found ∈ titled s, P found) ↔
      ∀ m ∈ chatMessages clock (Text.universalNewlines s.chat), P m.shown := by
  rw [titled, ← chatMessages_shown clock, List.forall_mem_map]

theorem chatMessages_storable_iff (hclock : clock.Plain) (s : Session) : TitleStorable s ↔
    ∀ m ∈ chatMessages clock (Text.universalNewlines s.chat), m.Storable := by
  rw [TitleStorable, mem_chatMessages_iff clock]
  refine forall₂_congr fun m hm => ?_
  obtain ⟨i, hi, rfl⟩ := List.mem_mapIdx.mp hm
  simp [Message.Storable, Message.texts, Message.shown, hclock.2 i]
  tauto

theorem sound_createSession (hs : createSession title = some s) (h : TitleStorable s) :
    Sound maxMessages (titled s).length { session := s } := by
  refine ⟨fun clock hclock => ?_, fun hne => absurd rfl hne, by simp⟩
  have hmigrated := createSession_migrates hs hclock
  have hlen : (chatMessages clock (Text.universalNewlines s.chat)).length = (titled s).length := by
    rw [titled, ← chatMessages_shown clock, List.length_map]
  refine ⟨_, clock, hlen, ⟨?_, by rw [hmigrated]⟩⟩
  rw [hmigrated, remaining, if_pos (.inl rfl), List.append_nil]
  exact ⟨⟨(chatMessages_storable_iff hclock s).mp h, .inl rfl⟩,
    (createSession_eq hs).1 ▸ (createSession_eq hs).2⟩

/-- A title that cannot be stored breaks the session with the first look at it. -/
theorem broken_createSession (hs : createSession title = some s) (h : ¬ TitleStorable s)
    (hclock : clock.Plain) : Broken (migrateMessages clock s).1 := by
  rw [createSession_migrates hs hclock]
  rw [chatMessages_storable_iff hclock] at h
  obtain ⟨m, hm, hcut⟩ : ∃ m ∈ chatMessages clock (Text.universalNewlines s.chat),
      ¬ m.Storable := by simpa using h
  refine ⟨_, rfl, m, hm, fun hline => hcut ((storable_iff m).mpr ⟨?_, hline⟩)⟩
  obtain ⟨rfl, htitle⟩ := createSession_eq hs
  refine (encodable_jsonl _).mp (encodable_chatMessages (fun i c hc => (hclock.2 i c hc).1)
    (Text.encodable_universalNewlines ?_)) m hm
  simp only [chatTitle, Text.encodable_append, Text.encodable_of, htitle, and_true]

/-! ## All appends -/

theorem storable_snoc (appends : List Append) (p : Append) : storable (appends ++ [p])
    = if (∃ q ∈ appends, q.message.Cut) ∨ ¬ p.message.Storable then storable appends
      else storable appends ++ [p.message] := by
  have hall : (∀ q ∈ appends, ¬ q.message.Cut) ↔ ∀ m ∈ appends.map (·.message),
      decide (¬ m.Cut) = true := by simp
  rw [storable, List.map_append, List.takeWhile_append]
  by_cases hcut : ∃ q ∈ appends, q.message.Cut
  · have hshort : ((appends.map (·.message)).takeWhile fun m => decide (¬ m.Cut)).length
        ≠ (appends.map (·.message)).length := by
      intro hlen
      have heq := (List.takeWhile_prefix _).eq_of_length hlen
      obtain ⟨q, hq, hqcut⟩ := hcut
      exact hall.mpr (List.takeWhile_eq_self_iff.mp heq) q hq hqcut
    rw [if_neg hshort, if_pos (.inl hcut)]
    rfl
  · have hnone : ∀ q ∈ appends, ¬ q.message.Cut := fun q hq hqcut => hcut ⟨q, hq, hqcut⟩
    have hself := List.takeWhile_eq_self_iff.mpr (hall.mp hnone)
    rw [if_pos (congrArg List.length hself), storable, hself, List.filter_append]
    by_cases hm : p.message.Storable
    · have hnotcut : ¬ p.message.Cut := fun h => h.2 hm
      simp [hm, hnotcut, hcut]
    · rw [if_pos (.inr hm)]
      by_cases hpcut : p.message.Cut <;> simp [hm, hpcut]

/-- **What a run of appends leaves**: a session that can be read, up to the first message that is
cut. -/
theorem run_sound (hmax : 2 ≤ maxMessages) (hs : createSession title = some s)
    (htitle : TitleStorable s) (hclocks : ∀ p ∈ appends, p.clock.Plain) :
    (appended maxMessages s appends).messages = storable appends ∧
      ((∃ q ∈ appends, q.message.Cut) → Broken (appended maxMessages s appends).session) ∧
      ((¬ ∃ q ∈ appends, q.message.Cut) →
        Sound maxMessages (titled s).length (appended maxMessages s appends)) := by
  induction appends using List.reverseRecOn with
  | nil =>
      refine ⟨rfl, ?_, fun _ => sound_createSession hs htitle⟩
      rintro ⟨q, hq, -⟩
      exact absurd hq List.not_mem_nil
  | append_singleton appends p ih =>
      obtain ⟨hmessages, hbroken, hsound⟩ := ih fun q hq => hclocks q (List.mem_append_left _ hq)
      have hclock : p.clock.Plain := hclocks p (by simp)
      have hsplit : (∃ q ∈ appends ++ [p], q.message.Cut) ↔
          (∃ q ∈ appends, q.message.Cut) ∨ p.message.Cut := by
        simp [or_and_right, exists_or]
      rw [appended_snoc, storable_snoc, hsplit]
      by_cases hcut : ∃ q ∈ appends, q.message.Cut
      · obtain ⟨hbroken', hsame, -⟩ := (hbroken hcut).appended maxMessages p
        rw [if_pos (.inl hcut)]
        exact ⟨hsame.trans hmessages, fun _ => hbroken', fun hnot => absurd (.inl hcut) hnot⟩
      · have hopen := hsound hcut
        by_cases hm : p.message.Storable
        · obtain ⟨hopen', hsnoc, -⟩ := hopen.append hmax hclock hm
          have hnotcut : ¬ p.message.Cut := fun h => h.2 hm
          rw [if_neg (not_or.mpr ⟨hcut, not_not.mpr hm⟩), ← hmessages]
          exact ⟨hsnoc, fun h => absurd h (not_or.mpr ⟨hcut, hnotcut⟩), fun _ => hopen'⟩
        · rw [if_pos (.inr hm)]
          by_cases henc : Text.Encodable (record p.message)
          · have hpcut : p.message.Cut := ⟨henc, hm⟩
            obtain ⟨hbroken', hsame, -⟩ := hopen.break hclock hpcut
            exact ⟨hsame.trans hmessages, fun _ => hbroken', fun h => absurd (.inr hpcut) h⟩
          · have hnotcut : ¬ p.message.Cut := fun h => henc h.1
            obtain ⟨hopen', hsame, -⟩ := hopen.refuse hclock henc
            exact ⟨hsame.trans hmessages, fun h => absurd h (not_or.mpr ⟨hcut, hnotcut⟩),
              fun _ => hopen'⟩

theorem keepsPolicy_snoc (appends : List Append) (p : Append) :
    KeepsPolicy maxMessages s (appends ++ [p]) ↔ KeepsPolicy maxMessages s appends ∧
      ((appendMessage maxMessages p.clock (appended maxMessages s appends).session
          p.message).2 = true →
        (appended maxMessages s (appends ++ [p])).Retained maxMessages) := by
  have htake : ∀ {k}, k ≤ appends.length → (appends ++ [p]).take k = appends.take k :=
    fun hk => List.take_append_of_le_length hk
  have hlast : (appends ++ [p]).take (appends.length + 1) = appends ++ [p] := by simp
  constructor
  · refine fun h => ⟨fun k q hk hreturns => ?_, fun hreturns => ?_⟩
    · have hlt := (List.getElem?_eq_some_iff.mp hk).1
      rw [← htake (Nat.le_of_lt hlt)] at hreturns
      rw [← htake hlt]
      exact h k q (by rw [List.getElem?_append_left hlt, hk]) hreturns
    · rw [← hlast]
      refine h appends.length p (by simp) ?_
      rwa [htake (Nat.le_refl _), List.take_length]
  · rintro ⟨h, hp⟩ k q hk hreturns
    rcases Nat.lt_trichotomy k appends.length with hlt | rfl | hgt
    · rw [List.getElem?_append_left hlt] at hk
      rw [htake (Nat.le_of_lt hlt)] at hreturns
      rw [htake hlt]
      exact h k q hk hreturns
    · obtain rfl : p = q := by simpa using hk
      rw [htake (Nat.le_refl _), List.take_length] at hreturns
      rw [hlast]
      exact hp hreturns
    · rw [List.getElem?_eq_none (by simp; omega)] at hk
      cases hk

/-- How many messages of the title and how many others the policy gets by with. -/
def Fits (maxMessages : Int) (n k : Nat) : Prop :=
  k = 0 ∨ (n + k : Int) ≤ maxMessages ∨ n = 0 ∧ (k : Int) ≤ maxMessages + 1

theorem fits_succ_iff {n k : Nat} (hmax : 2 ≤ maxMessages) : Fits maxMessages n (k + 1) ↔
    Fits maxMessages n k ∧ ((n + (k + 1) : Int) ≤ maxMessages ∨ (k + 1 : Int) = maxMessages + 1) := by
  unfold Fits
  omega

theorem keepsPolicy_of_titleStorable (hmax : 2 ≤ maxMessages)
    (hs : createSession title = some s) (htitle : TitleStorable s)
    (hclocks : ∀ p ∈ appends, p.clock.Plain) : KeepsPolicy maxMessages s appends ↔
      Fits maxMessages (titled s).length (storable appends).length := by
  induction appends using List.reverseRecOn with
  | nil => exact iff_of_true (fun k p hk => by simp at hk) (.inl rfl)
  | append_singleton appends p ih =>
      have hbefore : ∀ q ∈ appends, q.clock.Plain := fun q hq =>
        hclocks q (List.mem_append_left _ hq)
      have hclock : p.clock.Plain := hclocks p (by simp)
      obtain ⟨hmessages, hbroken, hsound⟩ := run_sound hmax hs htitle hbefore
      rw [keepsPolicy_snoc, ih hbefore, storable_snoc]
      by_cases hstored : (∃ q ∈ appends, q.message.Cut) ∨ ¬ p.message.Storable
      · rw [if_pos hstored]
        refine and_iff_left fun hreturns => ?_
        -- an append after a cut, or of what cannot be stored, does not return
        have hfails : (appendMessage maxMessages p.clock (appended maxMessages s appends).session
            p.message).2 = false := by
          by_cases hcut : ∃ q ∈ appends, q.message.Cut
          · exact ((hbroken hcut).append maxMessages p.clock p.message).2
          · have hm := hstored.resolve_left hcut
            by_cases henc : Text.Encodable (record p.message)
            · exact ((hsound hcut).break hclock ⟨henc, hm⟩).2.2
            · exact ((hsound hcut).refuse hclock henc).2.2
        rw [hfails] at hreturns
        cases hreturns
      · obtain ⟨hcut, hm⟩ := not_or.mp hstored
        obtain ⟨hopen, hsnoc, hreturns⟩ := (hsound hcut).append hmax hclock (not_not.mp hm)
        have hne : ((appended maxMessages s appends).append maxMessages p).messages ≠ [] := by
          rw [hsnoc]
          exact List.append_ne_nil_of_right_ne_nil _ (List.cons_ne_nil _ _)
        have hretained := hopen.retained_iff hmax hne
        rw [hsnoc, hmessages, List.length_append, List.length_singleton] at hretained
        rw [if_neg hstored, List.length_append, List.length_singleton, fits_succ_iff hmax,
          appended_snoc, hretained]
        push_cast
        exact and_congr_right' ⟨fun h => h hreturns, fun h _ => h⟩

/-- Whenever the session is looked at, it is broken. -/
def Doomed (s : Session) : Prop :=
  ∀ clock : Clock, clock.Plain →
    (migrateMessages clock s).2 = true ∧ Broken (migrateMessages clock s).1

theorem Broken.doomed (h : Broken s) : Doomed s := by
  intro clock _
  obtain ⟨ms, hfile, hcut⟩ := h
  have hmigrated : migrateMessages clock s = (s, true) := by simp [migrateMessages, hfile]
  rw [hmigrated]
  exact ⟨rfl, ms, hfile, hcut⟩

theorem Doomed.append (h : Doomed a.session) (hclock : p.clock.Plain) :
    Doomed (a.append maxMessages p).session ∧
      (appendMessage maxMessages p.clock a.session p.message).2 = false := by
  obtain ⟨hreturns, hbroken⟩ := h p.clock hclock
  obtain ⟨hbroken', hfails⟩ := hbroken.append maxMessages p.clock p.message
  rw [append_migrated hreturns] at hbroken' hfails
  rw [Appended.append, if_neg (by rw [hfails]; exact Bool.false_ne_true)]
  exact ⟨hbroken'.doomed, hfails⟩

/-- With a title that cannot be stored no append returns. -/
theorem keepsPolicy_of_not_titleStorable (hs : createSession title = some s)
    (htitle : ¬ TitleStorable s) (hclocks : ∀ p ∈ appends, p.clock.Plain) :
    KeepsPolicy maxMessages s appends := by
  have hdoomed : ∀ appends : List Append, (∀ p ∈ appends, p.clock.Plain) →
      Doomed (appended maxMessages s appends).session := by
    intro appends hclocks
    induction appends using List.reverseRecOn with
    | nil =>
        intro clock hclock
        have hmigrated := congrArg Prod.snd (createSession_migrates hs hclock)
        exact ⟨hmigrated, broken_createSession hs htitle hclock⟩
    | append_singleton appends p ih =>
        rw [appended_snoc]
        exact ((ih fun q hq => hclocks q (List.mem_append_left _ hq)).append
          (hclocks p (by simp))).1
  intro k p hk hreturns
  have hbefore := hdoomed (appends.take k) fun q hq => hclocks q (List.mem_of_mem_take hq)
  rw [(hbefore.append (hclocks p (List.mem_of_getElem? hk))).2] at hreturns
  cases hreturns

/--
**The retention policy is kept** exactly as long as at most one message more than allowed has been
stored, and none more, those in the title included, if the title looks like messages. If these
cannot be stored, no append returns.
-/
theorem keepsPolicy_iff (hmax : 2 ≤ maxMessages) (hs : createSession title = some s)
    (hclocks : ∀ p ∈ appends, p.clock.Plain) : KeepsPolicy maxMessages s appends ↔
      ¬ TitleStorable s ∨ (storable appends).length = 0 ∨
        ((titled s).length + (storable appends).length : Int) ≤ maxMessages ∨
        (titled s).length = 0 ∧ ((storable appends).length : Int) ≤ maxMessages + 1 := by
  by_cases htitle : TitleStorable s
  · rw [or_iff_right (not_not.mpr htitle)]
    exact keepsPolicy_of_titleStorable hmax hs htitle hclocks
  · exact iff_of_true (keepsPolicy_of_not_titleStorable hs htitle hclocks) (.inl htitle)

/-- Where all messages can be stored, all of them count. -/
theorem storable_eq_map (h : ∀ p ∈ appends, p.message.Storable) :
    storable appends = appends.map (·.message) := by
  have hall : ∀ m ∈ appends.map (·.message), m.Storable := List.forall_mem_map.mpr h
  have hwhole : (appends.map (·.message)).takeWhile (fun m => decide (¬ m.Cut))
      = appends.map (·.message) :=
    List.takeWhile_eq_self_iff.mpr fun m hm => decide_eq_true fun hcut => hcut.2 (hall m hm)
  rw [storable, hwhole]
  exact List.filter_eq_self.mpr fun m hm => decide_eq_true (hall m hm)

/-- The same question, asked over and over. -/
def asks (k : Nat) : List Append := List.replicate k ⟨⟨[], fun _ => []⟩, asked "user" "u"⟩

theorem asks_plain {k : Nat} : ∀ p ∈ asks k, p.clock.Plain := by
  intro p hp
  obtain rfl := List.eq_of_mem_replicate hp
  exact ⟨nofun, fun _ => nofun⟩

theorem keepsPolicy_asks : KeepsPolicy 2 notes (asks 3) ↔
    ¬ TitleStorable notes ∨ (storable (asks 3)).length = 0 ∨
      ((titled notes).length + (storable (asks 3)).length : Int) ≤ 2 ∨
      (titled notes).length = 0 ∧ ((storable (asks 3)).length : Int) ≤ 2 + 1 :=
  keepsPolicy_iff (by decide) createSession_notes asks_plain

/-- After the fourth message the notice stands for three and says two. -/
theorem not_forall_keepsPolicy :
    ¬ ∀ (maxMessages : Int) (title : Text) (s : Session) (appends : List Append),
      2 ≤ maxMessages → createSession title = some s → (∀ p ∈ appends, p.clock.Plain) →
      (∀ p ∈ appends, p.message.Storable) → KeepsPolicy maxMessages s appends := by
  intro h
  have hstorable : ∀ p ∈ asks 4, p.message.Storable := by
    intro p hp
    obtain rfl := List.eq_of_mem_replicate hp
    exact asked_storable _ _ (by decide) (by decide)
  have hkept := h 2 _ notes (asks 4) (by decide) createSession_notes asks_plain hstorable
  have hnone : titled notes = [] := by decide
  have htitle : TitleStorable notes := fun found hfound => by
    rw [hnone] at hfound
    cases hfound
  have hfour : (storable (asks 4)).length = 4 := by rw [storable_eq_map hstorable]; rfl
  rw [keepsPolicy_of_titleStorable (by decide) createSession_notes htitle asks_plain, hnone, hfour,
    Fits] at hkept
  simp at hkept

end Exo.Agent
