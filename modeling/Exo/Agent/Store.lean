import Exo.Lib.JsonLines

/-!
# The agent's store of messages

A session keeps its messages in a file of records, one to a line, and in a chat in Markdown for a
reader. A session that has no such file yet gets one from its chat. Files are texts: what is
written has to be encodable, or the write raises, and a write over an old file has emptied it by
then. What is read has its line ends translated.

Not modelled: the repository the store commits to, `session.json` (written and read back, of which
only the title is used here), and records of another hand, whose fields need not be strings.
-/

namespace Exo.Agent

open Lib

/-- The source's `Message`. -/
structure Message where
  role : Text
  content : Text
  reasoning : Option Text
  createdAt : Text
  messageId : Text
deriving DecidableEq

/-- What a call takes from outside: the time, and the ids it makes up. -/
structure Clock where
  nowIso : Text
  newId : Nat → Text

def optionalText : Option Text → Json
  | none => .const .null
  | some t => .str t

def Message.toDict (m : Message) : Json :=
  .obj [(Text.of "role", .str m.role), (Text.of "content", .str m.content),
    (Text.of "reasoning", optionalText m.reasoning), (Text.of "created_at", .str m.createdAt),
    (Text.of "message_id", .str m.messageId)]

def textOf : Json → Option Text
  | .str t => some t
  | _ => none

def optionalTextOf : Option Json → Option (Option Text)
  | none => some none
  | some (.const .null) => some none
  | some j => (textOf j).map some

/--
`Message.from_dict`: a role and a content there must be, for the rest there is a default. The id is
the `i`-th that is made up, if it is.
-/
def Message.fromDict (clock : Clock) (i : Nat) (data : Json) : Option Message := do
  let role ← textOf (← data.get? (Text.of "role"))
  let content ← textOf (← data.get? (Text.of "content"))
  let reasoning ← optionalTextOf (data.get? (Text.of "reasoning"))
  let createdAt ← textOf ((data.get? (Text.of "created_at")).getD (.str clock.nowIso))
  let messageId ← textOf ((data.get? (Text.of "message_id")).getD (.str (clock.newId i)))
  pure { role, content, reasoning, createdAt, messageId }

/-! ## Files -/

/-- The files of a session, and its title. -/
structure Session where
  title : Text
  /-- `chat.md` -/
  chat : Text
  /-- `messages.jsonl`, once it exists. -/
  messages : Option Text

/-- A file after a write over it, and whether the write returned. -/
def writeText (t : Text) : Text × Bool := if t.Encodable then (t, true) else ([], false)

/-- A file after a write at its end, and whether the write returned. -/
def appendText (file t : Text) : Text × Bool :=
  if t.Encodable then (file ++ t, true) else (file, false)

def dumpsLine (m : Message) : Text := Json.dumps ⟨1, 1⟩ m.toDict ++ [0x0A]

def jsonl (ms : List Message) : Text := ms.flatMap dumpsLine

/-- A record to a line, blank lines left out. -/
def readLines (clock : Clock) : Nat → List Text → Option (List Message)
  | _, [] => some []
  | i, line :: more =>
    if line.strip = [] then readLines clock i more
    else do
      let m ← Json.loads line >>= Message.fromDict clock i
      let ms ← readLines clock (i + 1) more
      pure (m :: ms)

def readMessages (clock : Clock) (file : Text) : Option (List Message) :=
  readLines clock 0 (Text.universalNewlines file).lines

/-! ## Sessions from before the records -/

def roles : List Text :=
  [Text.of "system", Text.of "user", Text.of "assistant", Text.of "tool"]

/-- The heading of a message at the start of a line: its role, its time and the text below. -/
def matchHeading (t : Text) : Option (Text × Text × Text) :=
  roles.findSome? fun role =>
    let lead := Text.of "## " ++ role ++ Text.of " - "
    if lead.isPrefixOf t then
      let line := t.drop lead.length
      match line.takeWhile (· ≠ 0x0A), line.dropWhile (· ≠ 0x0A) with
      | c :: createdAt, 0x0A :: 0x0A :: body => some (role, c :: createdAt, body)
      | _, _ => none
    else none

/-- A text up to the next heading of any kind, and the text from there. -/
def untilHeading (atStart : Bool) : Text → Text × Text
  | [] => ([], [])
  | c :: rest =>
    if atStart && (Text.of "## ").isPrefixOf (c :: rest) then ([], c :: rest)
    else (c :: (untilHeading (c = 0x0A) rest).1, (untilHeading (c = 0x0A) rest).2)

/-- `pattern.findall`: role, time and content of every message in a chat. -/
def findAll : Nat → Bool → Text → List (Text × Text × Text)
  | 0, _, _ => []
  | _ + 1, _, [] => []
  | n + 1, atStart, c :: rest =>
    match if atStart then matchHeading (c :: rest) else none with
    | some (role, createdAt, body) =>
      (role, createdAt, (untilHeading true body).1) :: findAll n true (untilHeading true body).2
    | none => findAll n (c = 0x0A) rest

/-- The messages a chat shows. -/
def chatMessages (clock : Clock) (chat : Text) : List Message :=
  (findAll chat.length true chat).mapIdx fun i (role, createdAt, content) =>
    { role, content := content.strip, reasoning := none, createdAt, messageId := clock.newId i }

/-- `_migrate_messages` -/
def migrateMessages (clock : Clock) (s : Session) : Session × Bool :=
  match s.messages with
  | some _ => (s, true)
  | none =>
    let file := writeText (jsonl (chatMessages clock (Text.universalNewlines s.chat)))
    ({ s with messages := some file.1 }, file.2)

/-! ## The calls -/

/-- `create_session`: a title that cannot be written makes no session. -/
def createSession (title : Text) : Option Session :=
  if title.Encodable then
    some { title, chat := Text.of "# " ++ title ++ Text.of "\n\n", messages := none }
  else none

/-- `list_messages`. Listing may leave a session with a file it did not have. -/
def listMessages (clock : Clock) (s : Session) : Session × Option (List Message) :=
  let migrated := migrateMessages clock s
  (migrated.1, if migrated.2 then readMessages clock (migrated.1.messages.getD []) else none)

def chatEntry (m : Message) : Text :=
  Text.of "## " ++ m.role ++ Text.of " - " ++ m.createdAt ++ Text.of "\n\n" ++ m.content ++
    Text.of "\n\n"

/-- `_write_messages` -/
def writeMessages (s : Session) (ms : List Message) : Session × Bool :=
  let file := writeText (jsonl ms)
  ({ s with messages := some file.1 }, file.2)

/-- `_rebuild_chat_markdown` -/
def rebuildChat (s : Session) (ms : List Message) : Session × Bool :=
  let file := writeText (Text.of "# " ++ s.title ++ Text.of "\n\n" ++ ms.flatMap chatEntry)
  ({ s with chat := file.1 }, file.2)

def removalNotice (clock : Clock) (removed : Nat) : Message where
  role := Text.of "system"
  content := Json.natText removed ++
    Text.of " older messages were removed by the retention policy."
  reasoning := none
  createdAt := clock.nowIso
  messageId := clock.newId 0

/-- `compact_session` -/
def compactSession (maxMessages : Int) (clock : Clock) (s : Session) : Session × Bool :=
  let (s, listed) := listMessages clock s
  match listed with
  | none => (s, false)
  | some ms =>
    if (ms.length : Int) ≤ maxMessages then (s, true)
    else
      let retained := (max 1 (maxMessages - 1)).toNat
      let compacted := removalNotice clock (ms.length - retained) ::
        ms.drop (ms.length - retained)
      let (s, done) := writeMessages s compacted
      if done then rebuildChat s compacted else (s, false)

/-- `append_message` -/
def appendMessage (maxMessages : Int) (clock : Clock) (s : Session) (m : Message) :
    Session × Bool :=
  let (s, migrated) := migrateMessages clock s
  if migrated then
    let chat := appendText s.chat (chatEntry m)
    let s := { s with chat := chat.1 }
    if chat.2 then
      let file := appendText (s.messages.getD []) (dumpsLine m)
      let s := { s with messages := some file.1 }
      if file.2 then compactSession maxMessages clock s else (s, false)
    else (s, false)
  else (s, false)

/-- The first message of that id gets a new content and a new reasoning. -/
def replaceFirst (messageId content : Text) (reasoning : Option Text) :
    List Message → List Message
  | [] => []
  | m :: ms =>
    if m.messageId = messageId then { m with content, reasoning } :: ms
    else m :: replaceFirst messageId content reasoning ms

/-- `update_message`: a message that is not there is an error. -/
def updateMessage (clock : Clock) (s : Session) (messageId content : Text)
    (reasoning : Option Text) : Session × Bool :=
  let (s, listed) := listMessages clock s
  match listed with
  | none => (s, false)
  | some ms =>
    if ∃ m ∈ ms, m.messageId = messageId then
      let ms := replaceFirst messageId content reasoning ms
      let (s, done) := writeMessages s ms
      if done then rebuildChat s ms else (s, false)
    else (s, false)

/-- A call on a session. Which of them raise shows in what is listed, not here. -/
inductive Call where
  | append (clock : Clock) (m : Message)
  | update (clock : Clock) (messageId content : Text) (reasoning : Option Text)
  | list (clock : Clock)

def Call.perform (maxMessages : Int) (s : Session) : Call → Session
  | .append clock m => (appendMessage maxMessages clock s m).1
  | .update clock messageId content reasoning =>
    (updateMessage clock s messageId content reasoning).1
  | .list clock => (listMessages clock s).1

def perform (maxMessages : Int) (s : Session) (calls : List Call) : Session :=
  calls.foldl (Call.perform maxMessages) s

end Exo.Agent
