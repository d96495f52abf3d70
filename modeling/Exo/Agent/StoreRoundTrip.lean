import Exo.Agent.Store
import Exo.Lib.Sequence

/-!
# When the store returns what was put into it

A record is written on one line, as the reader of records understands a line, exactly if none of
its texts holds one of the three line ends beyond ASCII. Everything below the blank is escaped, but
those are not. A record with one of them is read up to it, which is not JSON, and from then on no
call on the session returns.
-/

namespace Exo.Agent

open Lib

/-- A text that can be written to a file and stays on its line there. -/
def Storable (t : Text) : Prop :=
  ∀ c ∈ t, CodePoint.isSurrogate c = false ∧ c.val ≠ 0x85 ∧ c.val ≠ 0x2028 ∧ c.val ≠ 0x2029

instance (t : Text) : Decidable (Storable t) := List.decidableBAll _ t

def Message.texts (m : Message) : List Text :=
  [m.role, m.content] ++ m.reasoning.toList ++ [m.createdAt, m.messageId]

def Message.Storable (m : Message) : Prop := ∀ t ∈ m.texts, Agent.Storable t

/-- The messages that were put into a session, after one more call. -/
def Call.written (ms : List Message) : Call → List Message
  | .append _ m => ms ++ [m]
  | .update _ messageId content reasoning => replaceFirst messageId content reasoning ms
  | .list _ => ms

def written (calls : List Call) : List Message := calls.foldl Call.written []

def Call.isAppend : Call → Bool
  | .append _ _ => true
  | _ => false

/-- What a call puts into a session that holds `ms` can be stored. -/
def Call.Storable (ms : List Message) : Call → Prop
  | .append _ m => m.Storable
  | .update _ messageId content reasoning => (∃ m ∈ ms, m.messageId = messageId) →
      Agent.Storable content ∧ ∀ t ∈ reasoning, Agent.Storable t
  | .list _ => True

/-- Nothing in a chat looks like a message. -/
def NoMessages (chat : Text) : Prop :=
  findAll (Text.universalNewlines chat).length true (Text.universalNewlines chat) = []

instance (chat : Text) : Decidable (NoMessages chat) := inferInstanceAs (Decidable (_ = _))

/-! ## Records -/

def record (m : Message) : Text := Json.dumps ⟨1, 1⟩ m.toDict

theorem jsonl_eq (ms : List Message) : jsonl ms = (ms.map record).flatMap (· ++ [0x0A]) := by
  rw [List.flatMap_map]
  rfl

theorem fromDict_toDict (clock : Clock) (i : Nat) (m : Message) :
    Message.fromDict clock i m.toDict = some m := by
  obtain ⟨role, content, reasoning, createdAt, messageId⟩ := m
  cases reasoning <;> rfl

theorem toDict_texts (m : Message) (P : Text → Prop) (hkeys : P (Text.of "role") ∧
    P (Text.of "content") ∧ P (Text.of "reasoning") ∧ P (Text.of "created_at") ∧
    P (Text.of "message_id")) :
    (∀ t ∈ m.toDict.texts, P t) ↔ ∀ t ∈ m.texts, P t := by
  obtain ⟨role, content, reasoning, createdAt, messageId⟩ := m
  obtain ⟨hrole, hcontent, hreasoning, hcreated, hid⟩ := hkeys
  cases reasoning <;>
    simp [Message.toDict, Message.texts, Json.texts, Json.memberTexts, Json.memberText,
      optionalText, hrole, hcontent, hreasoning, hcreated, hid]

theorem isLineBreak_iff {c : CodePoint} (hc : 32 ≤ c.val) :
    CodePoint.isLineBreak c = false ↔ c.val ≠ 0x85 ∧ c.val ≠ 0x2028 ∧ c.val ≠ 0x2029 := by
  simp only [CodePoint.isLineBreak, List.contains_eq_mem, decide_eq_false_iff_not, List.mem_cons,
    List.not_mem_nil, or_false]
  omega

/-- A record can be written exactly if each of its texts can. -/
theorem encodable_record (m : Message) :
    Text.Encodable (record m) ↔ ∀ t ∈ m.texts, Text.Encodable t := by
  have hascii : ∀ c : CodePoint, 32 ≤ c.val → c.val < 127 → CodePoint.isSurrogate c = false :=
    fun c _ hc => decide_eq_false fun h => by omega
  have hlow : ∀ t : Text, (∀ c ∈ t, 32 ≤ c.val → CodePoint.isSurrogate c = false) ↔
      Text.Encodable t := fun t => forall₂_congr fun c _ => by
    refine ⟨fun h => ?_, fun h _ => h⟩
    by_cases hc : 32 ≤ c.val
    · exact h hc
    · exact decide_eq_false fun hs => by omega
  refine (Json.forall_mem_dumps hascii ⟨1, 1⟩ m.toDict).trans ?_
  simp only [hlow]
  exact toDict_texts m _ ⟨Text.encodable_of _, Text.encodable_of _, Text.encodable_of _,
    Text.encodable_of _, Text.encodable_of _⟩

/-- A record stays on its line exactly if none of its texts has a line end beyond ASCII. -/
theorem oneLine_record (m : Message) : Text.OneLine (record m) ↔
    ∀ t ∈ m.texts, ∀ c ∈ t, c.val ≠ 0x85 ∧ c.val ≠ 0x2028 ∧ c.val ≠ 0x2029 := by
  have hascii : ∀ c : CodePoint, 32 ≤ c.val → c.val < 127 → CodePoint.isLineBreak c = false :=
    fun c h hc => (isLineBreak_iff h).mpr (by omega)
  have hlow : ∀ t : Text, (∀ c ∈ t, 32 ≤ c.val → CodePoint.isLineBreak c = false) ↔
      ∀ c ∈ t, c.val ≠ 0x85 ∧ c.val ≠ 0x2028 ∧ c.val ≠ 0x2029 := fun t =>
    forall₂_congr fun c _ => by
      refine ⟨fun h => ?_, fun h hc => (isLineBreak_iff hc).mpr h⟩
      by_cases hc : 32 ≤ c.val
      · exact (isLineBreak_iff hc).mp (h hc)
      · omega
  have hkey : ∀ s : String, s.toList.all (·.toNat < 127) = true → ∀ c ∈ Text.of s,
      c.val ≠ 0x85 ∧ c.val ≠ 0x2028 ∧ c.val ≠ 0x2029 := by
    intro s hs c hc
    obtain ⟨d, hd, rfl⟩ := List.mem_map.mp hc
    have := of_decide_eq_true (List.all_eq_true.mp hs d hd)
    simp only [CodePoint.ofChar]
    omega
  refine (Json.forall_mem_dumps hascii ⟨1, 1⟩ m.toDict).trans ?_
  simp only [hlow]
  exact toDict_texts m _ ⟨hkey _ (by decide), hkey _ (by decide), hkey _ (by decide),
    hkey _ (by decide), hkey _ (by decide)⟩

theorem storable_iff (m : Message) :
    m.Storable ↔ Text.Encodable (record m) ∧ Text.OneLine (record m) := by
  rw [encodable_record, oneLine_record, ← forall₂_and]
  exact forall₂_congr fun t _ => forall₂_and

theorem encodable_dumpsLine (m : Message) :
    Text.Encodable (dumpsLine m) ↔ Text.Encodable (record m) := by
  have hfeed : CodePoint.isSurrogate 0x0A = false := by decide
  rw [dumpsLine, Text.encodable_append, Text.encodable_cons, and_iff_left ⟨hfeed, by simp⟩]
  rfl

theorem encodable_jsonl (ms : List Message) :
    Text.Encodable (jsonl ms) ↔ ∀ m ∈ ms, Text.Encodable (record m) := by
  induction ms with
  | nil => simp [jsonl]
  | cons m ms ih =>
      rw [jsonl, List.flatMap_cons, Text.encodable_append, encodable_dumpsLine,
        List.forall_mem_cons]
      exact and_congr Iff.rfl ih

theorem record_cons (m : Message) : ∃ rest, record m = 123 :: rest := ⟨_, rfl⟩

/-- The file is read as it was written: no record holds a return. -/
theorem universalNewlines_jsonl (ms : List Message) :
    Text.universalNewlines (jsonl ms) = jsonl ms := by
  apply Text.universalNewlines_eq
  intro h
  obtain ⟨m, -, hm⟩ := List.mem_flatMap.mp h
  rcases List.mem_append.mp hm with hm | hm
  · exact absurd (Json.dumps_printable ⟨1, 1⟩ m.toDict _ hm) (by decide)
  · exact absurd (List.mem_singleton.mp hm) (by decide)

/-! ## Reading the file -/

theorem readLines_record (clock : Clock) (i : Nat) (m : Message) (more : List Text) :
    readLines clock i (record m :: more) = (readLines clock (i + 1) more).map (m :: ·) := by
  obtain ⟨rest, hrest⟩ := record_cons m
  have hline : Text.strip (record m) ≠ [] := by
    rw [hrest]
    exact Text.strip_ne_nil (by decide)
  have hread : Json.loads (record m) = some m.toDict := Json.loads_dumps _ _
  rw [readLines, if_neg hline, hread]
  simp only [Option.bind_eq_bind, Option.bind_some, fromDict_toDict]
  cases readLines clock (i + 1) more <;> rfl

variable {ms : List Message}

/-- **Records that stay on their lines are read back.** -/
theorem readMessages_jsonl (clock : Clock)
    (h : ∀ m ∈ ms, Text.OneLine (record m)) : readMessages clock (jsonl ms) = some ms := by
  have hlines : (jsonl ms).lines = ms.map record := by
    rw [jsonl_eq]
    exact Text.lines_flatMap (List.forall_mem_map.mpr h)
  rw [readMessages, universalNewlines_jsonl, hlines]
  generalize 0 = i
  clear h hlines
  induction ms generalizing i with
  | nil => rfl
  | cons m ms ih => rw [List.map_cons, readLines_record, ih]; rfl

variable {m : Message}

/-- What a record is read as up to where it is cut: a line that is no JSON. -/
theorem readLines_broken (clock : Clock) (i : Nat) {before after : Text}
    {c : CodePoint} (h : record m = before ++ c :: after) (hc : CodePoint.isLineBreak c = true)
    (more : List Text) : readLines clock i (before :: more) = none := by
  have hmem : c ∈ record m := h ▸ List.mem_append_right _ List.mem_cons_self
  have hlow := Json.dumps_printable ⟨1, 1⟩ m.toDict c hmem
  have hhigh : 127 ≤ c.val := by
    by_contra hlt
    have hplain := (isLineBreak_iff hlow).mpr (by omega)
    rw [hplain] at hc
    exact Bool.false_ne_true hc
  have hnone : Json.loads before = none := Json.loads_broken hhigh h
  obtain ⟨rest, hrest⟩ := record_cons m
  cases before with
  | nil =>
      rw [hrest] at h
      rw [← (List.cons.inj h).1] at hhigh
      exact absurd hhigh (by decide)
  | cons b before =>
      rw [hrest] at h
      obtain ⟨rfl, -⟩ := List.cons.inj h
      rw [readLines, if_neg (Text.strip_ne_nil (by decide)), hnone]
      rfl

/-- **One record that does not stay on its line** and nothing is read any more. -/
theorem readMessages_broken (clock : Clock) (ms ms' : List Message)
    (h : ∀ m ∈ ms, Text.OneLine (record m)) (hm : ¬ Text.OneLine (record m)) :
    readMessages clock (jsonl (ms ++ m :: ms')) = none := by
  obtain ⟨before, c, after, hcut, hbefore, hc⟩ := Text.exists_break hm
  obtain ⟨more, hmore⟩ := Text.lines_flatMap_break (ms.map record) (ms'.map record) after
    (List.forall_mem_map.mpr h) hbefore hc
  have hlines : (jsonl (ms ++ m :: ms')).lines = ms.map record ++ before :: more := by
    rw [jsonl_eq, List.map_append, List.map_cons, hcut, hmore]
  rw [readMessages, universalNewlines_jsonl, hlines]
  generalize 0 = i
  clear h hlines hmore
  induction ms generalizing i with
  | nil => exact readLines_broken clock i hcut hc more
  | cons n ms ih => rw [List.map_cons, List.cons_append, readLines_record, ih]; rfl

/-- A file with a record in it is never read as no messages. -/
theorem readMessages_ne_nil (clock : Clock) (m : Message) (ms : List Message) :
    readMessages clock (jsonl (m :: ms)) ≠ some [] := by
  by_cases hm : Text.OneLine (record m)
  · have hlines : (jsonl (m :: ms)).lines = record m :: (jsonl ms).lines := by
      have hshape : jsonl (m :: ms) = record m ++ 0x0A :: jsonl ms := by
        simp [jsonl, dumpsLine, record]
      rw [hshape, Text.lines_append_feed hm]
    rw [readMessages, universalNewlines_jsonl, hlines, readLines_record]
    cases readLines clock (0 + 1) (jsonl ms).lines <;> simp
  · have hnone := readMessages_broken clock [] ms (fun n hn => absurd hn List.not_mem_nil) hm
    rw [List.nil_append] at hnone
    rw [hnone]
    exact nofun

/-! ## Sessions -/

/-- The session holds these messages, all of which can be stored. -/
structure Holds (s : Session) (ms : List Message) : Prop where
  storable : ∀ m ∈ ms, m.Storable
  /-- The file has them, or there is no file yet and the chat has nothing to put into it. -/
  file : s.messages = some (jsonl ms) ∨ s.messages = none ∧ ms = [] ∧ NoMessages s.chat

theorem jsonl_nil : jsonl [] = [] := rfl

variable {s : Session}

theorem migrate_holds (clock : Clock) (h : Holds s ms) :
    migrateMessages clock s = ({ s with messages := some (jsonl ms) }, true) := by
  rcases h.file with hfile | ⟨hfile, rfl, hchat⟩
  · simp only [migrateMessages, hfile]
    rw [← hfile]
  · have hnone : chatMessages clock (Text.universalNewlines s.chat) = [] := by
      rw [chatMessages, show findAll _ _ _ = [] from hchat]
      rfl
    simp only [migrateMessages, hfile, hnone, jsonl_nil, writeText]
    rw [if_pos Text.encodable_nil]

/-- **A session is listed** as what it holds. -/
theorem list_holds (clock : Clock) (h : Holds s ms) :
    listMessages clock s = ({ s with messages := some (jsonl ms) }, some ms) := by
  have hread := readMessages_jsonl clock fun m hm => ((storable_iff m).mp (h.storable m hm)).2
  rw [listMessages, migrate_holds clock h]
  simp only [if_true, Option.getD_some, hread]

/-- What is listed of a session that has a file depends on the file only. -/
theorem listMessages_file (clock : Clock) {file : Text}
    (h : s.messages = some file) : (listMessages clock s).2 = readMessages clock file := by
  simp [listMessages, migrateMessages, h]

variable {clock : Clock}

variable {maxMessages : Int}

/-- A compaction below the limit leaves the file alone, whether it can be read or not. -/
theorem compact_messages {file : Text}
    (hfile : s.messages = some file)
    (h : ∀ ms, readMessages clock file = some ms → (ms.length : Int) ≤ maxMessages) :
    (compactSession maxMessages clock s).1.messages = some file := by
  have hlist : listMessages clock s = (s, readMessages clock file) := by
    simp [listMessages, migrateMessages, hfile]
  rw [compactSession, hlist]
  cases hread : readMessages clock file with
  | none => exact hfile
  | some ms =>
      simp only
      rw [if_pos (h ms hread)]
      exact hfile

/-- The file after a message was put at its end, if the write went through. -/
theorem append_messages
    (h : Holds s ms) (hm : Text.Encodable (record m))
    (hlimit : (ms.length + 1 : Int) ≤ maxMessages) :
    (appendMessage maxMessages clock s m).1.messages = some (jsonl (ms ++ [m])) := by
  have hchat : Text.Encodable (chatEntry m) := by
    have htexts := (encodable_record m).mp hm
    simp only [chatEntry, Text.encodable_append, Text.encodable_of, and_true, true_and]
    exact ⟨⟨htexts _ (by simp [Message.texts]), htexts _ (by simp [Message.texts])⟩,
      htexts _ (by simp [Message.texts])⟩
  have hfile : jsonl ms ++ dumpsLine m = jsonl (ms ++ [m]) := by simp [jsonl]
  simp only [appendMessage, migrate_holds clock h, appendText, if_pos hchat,
    if_pos ((encodable_dumpsLine m).mpr hm), Option.getD_some, if_true, hfile]
  refine compact_messages rfl fun ms' hms' => ?_
  by_cases hline : Text.OneLine (record m)
  · have hlines : ∀ n ∈ ms ++ [m], Text.OneLine (record n) := by
      intro n hn
      rcases List.mem_append.mp hn with hn | hn
      · exact ((storable_iff n).mp (h.storable n hn)).2
      · rwa [List.mem_singleton.mp hn]
    rw [readMessages_jsonl clock hlines] at hms'
    rw [← Option.some.inj hms', List.length_append]
    simpa using hlimit
  · rw [readMessages_broken clock ms [] (fun n hn =>
      ((storable_iff n).mp (h.storable n hn)).2) hline] at hms'
    cases hms'

theorem append_holds
    (h : Holds s ms) (hm : m.Storable)
    (hlimit : (ms.length + 1 : Int) ≤ maxMessages) :
    Holds (appendMessage maxMessages clock s m).1 (ms ++ [m]) := by
  refine ⟨fun n hn => ?_, Or.inl (append_messages h ((storable_iff m).mp hm).1 hlimit)⟩
  rcases List.mem_append.mp hn with hn | hn
  · exact h.storable n hn
  · rwa [List.mem_singleton.mp hn]

/-- A message that cannot be written is not there, one that is cut takes all others with it. -/
theorem append_lost
    (h : Holds s ms) (hm : ¬ m.Storable)
    (hlimit : (ms.length + 1 : Int) ≤ maxMessages) (clock' : Clock) :
    (listMessages clock' (appendMessage maxMessages clock s m).1).2 ≠ some (ms ++ [m]) := by
  by_cases henc : Text.Encodable (record m)
  · have hline : ¬ Text.OneLine (record m) := fun hl => hm ((storable_iff m).mpr ⟨henc, hl⟩)
    rw [listMessages_file clock' (append_messages h henc hlimit), readMessages_broken clock' ms []
      (fun n hn => ((storable_iff n).mp (h.storable n hn)).2) hline]
    exact nofun
  · have hfile : (appendMessage maxMessages clock s m).1.messages = some (jsonl ms) := by
      simp only [appendMessage, migrate_holds clock h, appendText]
      by_cases hchat : Text.Encodable (chatEntry m)
      · simp only [if_pos hchat, if_neg (fun he => henc ((encodable_dumpsLine m).mp he)),
          Option.getD_some, if_true, Bool.false_eq_true, if_false]
      · simp only [if_neg hchat, if_true, Bool.false_eq_true, if_false]
    rw [listMessages_file clock' hfile,
      readMessages_jsonl clock' fun n hn => ((storable_iff n).mp (h.storable n hn)).2]
    intro he
    have hlen := congrArg List.length (Option.some.inj he)
    simp at hlen

/-- The message that is replaced, and the ones around it. -/
theorem replaceFirst_eq {messageId : Text} (content : Text) (reasoning : Option Text)
    (h : ∃ m ∈ ms, m.messageId = messageId) :
    ∃ before m after, ms = before ++ m :: after ∧
      replaceFirst messageId content reasoning ms
        = before ++ { m with content, reasoning } :: after := by
  induction ms with
  | nil =>
      obtain ⟨m, hm, -⟩ := h
      exact absurd hm List.not_mem_nil
  | cons m ms ih =>
      by_cases hid : m.messageId = messageId
      · exact ⟨[], m, ms, rfl, by rw [replaceFirst, if_pos hid]; rfl⟩
      · obtain ⟨n, hn, hnid⟩ := h
        have hmem : n ∈ ms := (List.mem_cons.mp hn).resolve_left fun he => hid (he ▸ hnid)
        obtain ⟨before, m', after, rfl, hreplaced⟩ := ih ⟨n, hmem, hnid⟩
        exact ⟨m :: before, m', after, rfl, by rw [replaceFirst, if_neg hid, hreplaced]; rfl⟩

variable {messageId content : Text} {reasoning : Option Text}

theorem replaceFirst_absent
    (h : ¬ ∃ m ∈ ms, m.messageId = messageId) :
    replaceFirst messageId content reasoning ms = ms := by
  induction ms with
  | nil => rfl
  | cons m ms ih =>
      have hid : m.messageId ≠ messageId := fun he => h ⟨m, List.mem_cons_self, he⟩
      rw [replaceFirst, if_neg hid, ih fun ⟨n, hn, he⟩ => h ⟨n, List.mem_cons_of_mem _ hn, he⟩]

/-- The file after a message was replaced. -/
theorem update_messages (h : Holds s ms)
    (hid : ∃ m ∈ ms, m.messageId = messageId) :
    (updateMessage clock s messageId content reasoning).1.messages
      = some (writeText (jsonl (replaceFirst messageId content reasoning ms))).1 := by
  simp only [updateMessage, list_holds clock h, if_pos hid, writeMessages]
  split <;> rfl

/-- With a new content and a new reasoning a stored message is storable exactly if these are. -/
theorem replaced_storable {content : Text}
    (h : m.Storable) : Message.Storable { m with content, reasoning } ↔
      Agent.Storable content ∧ ∀ t ∈ reasoning, Agent.Storable t := by
  have hrole : Agent.Storable m.role := h _ (by simp [Message.texts])
  have hcreated : Agent.Storable m.createdAt := h _ (by simp [Message.texts])
  have hid : Agent.Storable m.messageId := h _ (by simp [Message.texts])
  simp [Message.Storable, Message.texts, hrole, hcreated, hid, or_imp, forall_and]

theorem update_holds (h : Holds s ms)
    (hok : (∃ m ∈ ms, m.messageId = messageId) →
      Agent.Storable content ∧ ∀ t ∈ reasoning, Agent.Storable t) :
    Holds (updateMessage clock s messageId content reasoning).1
      (replaceFirst messageId content reasoning ms) := by
  by_cases hid : ∃ m ∈ ms, m.messageId = messageId
  · have hstored : ∀ n ∈ replaceFirst messageId content reasoning ms, n.Storable := by
      obtain ⟨before, m, after, rfl, hreplaced⟩ := replaceFirst_eq content reasoning hid
      rw [hreplaced]
      intro n hn
      rcases List.mem_append.mp hn with hn | hn
      · exact h.storable n (List.mem_append_left _ hn)
      rcases List.mem_cons.mp hn with rfl | hn
      · exact (replaced_storable (h.storable m (by simp))).mpr (hok hid)
      · exact h.storable n (by simp [hn])
    refine ⟨hstored, Or.inl ?_⟩
    have henc := (encodable_jsonl (replaceFirst messageId content reasoning ms)).mpr fun n hn =>
      ((storable_iff n).mp (hstored n hn)).1
    rw [update_messages h hid, writeText, if_pos henc]
  · rw [replaceFirst_absent hid]
    simp only [updateMessage, list_holds clock h, if_neg hid]
    exact ⟨h.storable, Or.inl rfl⟩

/-- A text that cannot be written empties the file, one that is cut makes it unreadable. -/
theorem update_lost (h : Holds s ms)
    (hid : ∃ m ∈ ms, m.messageId = messageId)
    (hbad : ¬ (Agent.Storable content ∧ ∀ t ∈ reasoning, Agent.Storable t)) (clock' : Clock) :
    (listMessages clock' (updateMessage clock s messageId content reasoning).1).2
      ≠ some (replaceFirst messageId content reasoning ms) := by
  rw [listMessages_file clock' (update_messages h hid)]
  obtain ⟨before, m, after, rfl, hreplaced⟩ := replaceFirst_eq content reasoning hid
  rw [hreplaced]
  have hm : ¬ Message.Storable { m with content, reasoning } := fun hs =>
    hbad ((replaced_storable (h.storable m (by simp))).mp hs)
  by_cases henc : Text.Encodable (jsonl (before ++ { m with content, reasoning } :: after))
  · have hline : ¬ Text.OneLine (record { m with content, reasoning }) := fun hl =>
      hm ((storable_iff _).mpr ⟨(encodable_jsonl _).mp henc _ (by simp), hl⟩)
    have hbefore : ∀ n ∈ before, Text.OneLine (record n) := fun n hn =>
      ((storable_iff n).mp (h.storable n (List.mem_append_left _ hn))).2
    rw [writeText, if_pos henc, readMessages_broken clock' before after hbefore hline]
    exact nofun
  · rw [writeText, if_neg henc, ← jsonl_nil,
      readMessages_jsonl clock' fun n hn => absurd hn List.not_mem_nil]
    intro he
    exact absurd (Option.some.inj he).symm (by simp)

/-! ## Runs -/

variable {maxMessages : Int}

/-- A session that was just made holds nothing, if nothing in its title looks like a message. -/
theorem createSession_holds {title : Text} (hs : createSession title = some s)
    (h : NoMessages s.chat) : Holds s [] := by
  unfold createSession at hs
  split at hs
  · obtain rfl := Option.some.inj hs
    exact ⟨fun m hm => absurd hm List.not_mem_nil, Or.inr ⟨rfl, rfl, h⟩⟩
  · cases hs

/-- What looks like a message in the title of a new session is listed, or nothing can be. -/
theorem createSession_lists {title : Text} (hs : createSession title = some s)
    (clock : Clock) (h : ¬ NoMessages s.chat) : (listMessages clock s).2 ≠ some [] := by
  have hfile : s.messages = none := by
    unfold createSession at hs
    split at hs
    · obtain rfl := Option.some.inj hs
      rfl
    · cases hs
  have hsome : chatMessages clock (Text.universalNewlines s.chat) ≠ [] := by
    intro he
    rw [chatMessages, List.mapIdx_eq_nil_iff] at he
    exact h he
  obtain ⟨m, ms, hms⟩ := List.exists_cons_of_ne_nil hsome
  simp only [listMessages, migrateMessages, hfile, hms, Option.getD_some, writeText]
  by_cases henc : Text.Encodable (jsonl (m :: ms))
  · simp only [if_pos henc, if_true]
    exact readMessages_ne_nil clock m ms
  · simp only [if_neg henc, Bool.false_eq_true, if_false]
    exact nofun

theorem perform_snoc (s : Session) (calls : List Call) (call : Call) :
    perform maxMessages s (calls ++ [call])
      = call.perform maxMessages (perform maxMessages s calls) := by
  rw [perform, perform, List.foldl_append, List.foldl_cons, List.foldl_nil]

theorem written_snoc (calls : List Call) (call : Call) :
    written (calls ++ [call]) = call.written (written calls) := by
  rw [written, written, List.foldl_append, List.foldl_cons, List.foldl_nil]

theorem replaceFirst_length (messageId content : Text) (reasoning : Option Text)
    (ms : List Message) : (replaceFirst messageId content reasoning ms).length = ms.length := by
  induction ms with
  | nil => rfl
  | cons m ms ih =>
      rw [replaceFirst]
      split
      · rfl
      · rw [List.length_cons, List.length_cons, ih]

theorem written_length (calls : List Call) :
    (written calls).length = calls.countP Call.isAppend := by
  induction calls using List.reverseRecOn with
  | nil => rfl
  | append_singleton calls call ih =>
      rw [written_snoc, List.countP_append, ← ih]
      cases call with
      | append clock m => simp [Call.written, Call.isAppend]
      | update clock messageId content reasoning =>
          simp [Call.written, Call.isAppend, replaceFirst_length]
      | list clock => simp [Call.written, Call.isAppend]

/-- A call that can be stored keeps what the session holds. -/
theorem perform_holds (h : Holds s ms) {call : Call}
    (hlimit : ((call.written ms).length : Int) ≤ maxMessages) (hok : call.Storable ms) :
    Holds (call.perform maxMessages s) (call.written ms) := by
  cases call with
  | append clock m => exact append_holds h hok (by simpa [Call.written] using hlimit)
  | update clock messageId content reasoning => exact update_holds h hok
  | list clock =>
      simp only [Call.perform, Call.written, list_holds clock h]
      exact ⟨h.storable, Or.inl rfl⟩

/-- A call that cannot be stored shows at once. -/
theorem perform_lost (h : Holds s ms) {call : Call}
    (hlimit : ((call.written ms).length : Int) ≤ maxMessages) (hbad : ¬ call.Storable ms)
    (clock : Clock) :
    (listMessages clock (call.perform maxMessages s)).2 ≠ some (call.written ms) := by
  cases call with
  | append clock' m => exact append_lost h hbad (by simpa [Call.written] using hlimit) clock
  | update clock' messageId content reasoning =>
      obtain ⟨hid, hbad⟩ := Classical.not_imp.mp hbad
      exact update_lost h hid hbad clock
  | list clock' => exact absurd trivial hbad

theorem countP_take_le {α : Type} (p : α → Bool) (l : List α) (k : Nat) :
    (l.take k).countP p ≤ l.countP p := List.Sublist.countP_le (List.take_sublist k l)

/--
**What is listed is what was put in**, whatever calls were made on a new session that stay below
the limit, exactly if its title holds nothing that looks like a message and nothing that was put in
holds a lone surrogate or one of the line ends U+0085, U+2028 and U+2029.
-/
theorem listMessages_written_iff {title : Text} {s : Session} {calls : List Call}
    (hs : createSession title = some s)
    (hlimit : (calls.countP Call.isAppend : Int) ≤ maxMessages) :
    (∀ k clock, (listMessages clock (perform maxMessages s (calls.take k))).2
      = some (written (calls.take k))) ↔
    NoMessages s.chat ∧
      ∀ k (call : Call), calls[k]? = some call → call.Storable (written (calls.take k)) := by
  have hbelow : ∀ k (call : Call), calls[k]? = some call →
      ((call.written (written (calls.take k))).length : Int) ≤ maxMessages := by
    intro k call hk
    rw [← written_snoc, ← take_succ_of_getElem? hk, written_length]
    have := countP_take_le Call.isAppend calls (k + 1)
    omega
  have hcalls : NoMessages s.chat →
      ((∀ k, ∀ clock, (listMessages clock (perform maxMessages s (calls.take k))).2
        = some (written (calls.take k))) ↔
      ∀ k (call : Call), calls[k]? = some call →
        call.Storable (written (calls.take k))) := by
    intro htitle
    refine forall_take_iff_of_inv
      (I := fun done => Holds (perform maxMessages s done) (written done))
      (P := fun done => ∀ clock, (listMessages clock (perform maxMessages s done)).2
        = some (written done))
      (G := fun done => Call.Storable (written done)) (createSession_holds hs htitle) ?_ ?_ ?_
    · exact fun k hk clock => by rw [list_holds clock hk]
    · intro k call hk hholds hok
      rw [perform_snoc, written_snoc]
      exact perform_holds hholds (hbelow k call hk) hok
    · intro k call hk hholds hbad hlisted
      rw [perform_snoc, written_snoc] at hlisted
      exact perform_lost hholds (hbelow k call hk) hbad ⟨[], fun _ => []⟩ (hlisted _)
  constructor
  · intro h
    have htitle : NoMessages s.chat := by
      by_contra hbad
      exact createSession_lists hs ⟨[], fun _ => []⟩ hbad (h 0 _)
    exact ⟨htitle, (hcalls htitle).mp h⟩
  · exact fun ⟨htitle, hok⟩ => (hcalls htitle).mpr hok

def notes : Session :=
  { title := Text.of "notes", chat := Text.of "# notes\n\n", messages := none }

theorem createSession_notes : createSession (Text.of "notes") = some notes := by
  rw [createSession, if_pos (Text.encodable_of _)]
  rfl

/-- What a user says about a text that has one line end of its own. -/
def pasted : Message where
  role := Text.of "user"
  content := Text.of "first" ++ 0x2028 :: Text.of "second"
  reasoning := none
  createdAt := Text.of "2026-01-01T00:00:00+00:00"
  messageId := Text.of "msg_0"

theorem listMessages_written_notes :
    (∀ k clock, (listMessages clock (perform 100 notes
        ([Call.append ⟨[], fun _ => []⟩ pasted].take k))).2
      = some (written ([Call.append ⟨[], fun _ => []⟩ pasted].take k))) ↔
    NoMessages notes.chat ∧
      ∀ k (call : Call), [Call.append ⟨[], fun _ => []⟩ pasted][k]? = some call →
        call.Storable (written ([Call.append ⟨[], fun _ => []⟩ pasted].take k)) :=
  listMessages_written_iff createSession_notes (by decide)

/-- One pasted line separator, and the session cannot be listed any more. -/
theorem not_forall_listMessages_written :
    ¬ ∀ (maxMessages : Int) (title : Text) (s : Session) (calls : List Call),
      createSession title = some s → (calls.countP Call.isAppend : Int) ≤ maxMessages →
      ∀ clock, (listMessages clock (perform maxMessages s calls)).2 = some (written calls) := by
  intro h
  have hlisted := h 100 _ notes [.append ⟨[], fun _ => []⟩ pasted] createSession_notes (by decide)
    ⟨[], fun _ => []⟩
  have hholds : Holds notes [] := createSession_holds createSession_notes (by decide)
  have hbad : ¬ pasted.Storable := by
    intro hs
    have hcontent : ¬ Agent.Storable pasted.content := by decide
    exact hcontent (hs _ (by simp [Message.texts]))
  have hlost : (listMessages ⟨[], fun _ => []⟩
      (appendMessage 100 ⟨[], fun _ => []⟩ notes pasted).1).2 ≠ some ([] ++ [pasted]) :=
    append_lost hholds hbad (by decide) _
  rw [perform, List.foldl_cons, List.foldl_nil, Call.perform, written, List.foldl_cons,
    List.foldl_nil, Call.written] at hlisted
  exact hlost hlisted

end Exo.Agent
