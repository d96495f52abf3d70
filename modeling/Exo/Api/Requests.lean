import Exo.Lib.Fallible
import Exo.Lib.Sequence

/-!
# The request adapters of the API

Requests of four APIs become one kind of task. Its `input` has a message for each turn, its
`chat_template_messages` are the messages that the chat template of a model is given, and its
`images` are kept apart: in a message, a part `image` holds the place of one.

Such a part says nothing but its type. Here it records the block of the request it was made from,
and so do an image and an input message; the adapters never read that. Of a request there is what
these lists are made of: sampling parameters, tools and the thinking mode are left out.
-/

namespace Exo

open Exo.Lib

/-! ## Tasks -/

inductive MessageRole where
  | system
  | user
  | assistant
  | developer
  | tool
  | function
  deriving DecidableEq, Repr

/-- Where in a request a block stands, or one inside of a tool result. -/
structure BlockPosition where
  message : Nat
  block : Nat
  inner : Option Nat := none
  deriving DecidableEq, Repr

structure InputMessage where
  role : MessageRole
  content : String
  /-- The message of the request; an input without turns gets a message that has none. -/
  origin : Option Nat
  deriving DecidableEq, Repr

/-- A `Base64Image`. -/
structure RequestImage where
  data : String
  origin : BlockPosition
  deriving DecidableEq, Repr

inductive ContentPart where
  | text (text : String)
  /-- A client that formats messages itself makes parts of no block. -/
  | image (origin : Option BlockPosition)
  deriving DecidableEq, Repr

inductive TemplateContent where
  | text (text : String)
  | parts (parts : List ContentPart)
  deriving DecidableEq, Repr

structure TemplateToolCall where
  id : Option String
  index : Option Int := none
  name : String
  arguments : String
  deriving DecidableEq, Repr

/-- One of the `chat_template_messages`. -/
structure TemplateMessage (Value : Type) where
  role : MessageRole
  content : TemplateContent
  reasoningContent : Option String := none
  thinking : Option String := none
  toolCalls : Option (List TemplateToolCall) := none
  toolCallId : Option String := none
  name : Option String := none
  toolName : Option String := none
  functionCall : Option Value := none

structure TextGenerationTaskParams (Value : Type) where
  input : List InputMessage
  instructions : Option String
  chatTemplateMessages : Option (List (TemplateMessage Value))
  images : List RequestImage

/-- What a conversion raises. -/
inductive ConversionError where
  /-- An image that cannot be fetched. -/
  | fetch (url : String)
  | assertion
  | type
  deriving DecidableEq, Repr

/-- What the adapters are given: the values of a JSON object, and what URLs answer. -/
structure RequestLibrary (Value : Type) where
  /-- `fetch_image_url`, when it comes to a block; `none` when it raises. -/
  fetchImageUrl : BlockPosition → String → Option String
  jsonDumps : Value → String
  ofString : String → Value
  ofList : List Value → Value
  ofDict : List (String × Value) → Value

/-- The lists that an adapter fills while it goes through the messages. -/
structure Conversion (Value : Type) where
  instructions : Option String := none
  inputMessages : List InputMessage := []
  chatTemplateMessages : List (TemplateMessage Value) := []
  images : List RequestImage := []

section Adapters

variable {Value : Type} (lib : RequestLibrary Value)

/-- An input without messages gets an empty one; an empty template is none. -/
def Conversion.params (s : Conversion Value) : TextGenerationTaskParams Value where
  input := if s.inputMessages.isEmpty then [⟨.user, "", none⟩] else s.inputMessages
  instructions := s.instructions.filter (· ≠ "")
  chatTemplateMessages := if s.chatTemplateMessages.isEmpty then none else s.chatTemplateMessages
  images := s.images

/-! ## Chat completions -/

inductive ChatContentPart where
  | text (text : String)
  /-- The `url` of its `image_url`. -/
  | imageUrl (url : Option String)
  deriving DecidableEq, Repr

inductive ChatContent where
  | text (text : String)
  | part (part : ChatContentPart)
  | parts (parts : List ChatContentPart)
  deriving DecidableEq, Repr

structure ChatCompletionMessage (Value : Type) where
  role : MessageRole
  content : Option ChatContent := none
  reasoningContent : Option String := none
  name : Option String := none
  toolCalls : Option (List TemplateToolCall) := none
  toolCallId : Option String := none
  functionCall : Option Value := none

structure ChatCompletionRequest (Value : Type) where
  messages : List (ChatCompletionMessage Value)

/-- What `data:[^;]+;base64,(.+)` finds at the start of a URL; else all of it. -/
def extractBase64FromDataUrl (url : String) : String :=
  let rest := url.toList.drop "data:".toList.length
  let tail := rest.dropWhile (· ≠ ';')
  let data := (tail.drop ";base64,".toList.length).takeWhile (· ≠ '\n')
  if "data:".toList.isPrefixOf url.toList ∧ rest.takeWhile (· ≠ ';') ≠ []
      ∧ ";base64,".toList.isPrefixOf tail ∧ data ≠ [] then
    String.ofList data
  else url

/-- `url.startswith(("http://", "https://"))`. -/
def isWebUrl (url : String) : Bool :=
  "http://".toList.isPrefixOf url.toList || "https://".toList.isPrefixOf url.toList

/-- The image of a URL; no image is made of an empty one. -/
def readImageUrl (position : BlockPosition) (url : String) :
    Except ConversionError (List RequestImage) :=
  if url = "" then .ok []
  else if isWebUrl url then
    match lib.fetchImageUrl position url with
    | some data => .ok [⟨data, position⟩]
    | none => .error (.fetch url)
  else .ok [⟨extractBase64FromDataUrl url, position⟩]

/-- What a part of message `i` adds to the images. -/
def ChatContentPart.readImages (i j : Nat) :
    ChatContentPart → Except ConversionError (List RequestImage)
  | .text _ => .ok []
  | .imageUrl url => readImageUrl lib ⟨i, j, none⟩ (url.getD "")

/-- What a message adds to the images. -/
def ChatContent.readImages (i : Nat) : ChatContent → Except ConversionError (List RequestImage)
  | .text _ => .ok []
  | .part p => p.readImages lib i 0
  | .parts ps => do
      let found ← (enumerate ps).mapM fun p => p.2.readImages lib i p.1
      return found.flatten

def ChatContentPart.text? : ChatContentPart → Option String
  | .text t => some t
  | .imageUrl _ => none

/-- The content, normalized to a string. -/
def ChatContent.content : ChatContent → String
  | .text t => t
  | .part p => p.text?.getD ""
  | .parts ps => "\n".intercalate (ps.filterMap (·.text?))

def ChatContentPart.multimodal (i j : Nat) : ChatContentPart → ContentPart
  | .text t => .text t
  | .imageUrl _ => .image (some ⟨i, j, none⟩)

/-- A system message adds to the instructions. -/
def addInstructions (instructions : Option String) (content : String) : Option String :=
  match instructions with
  | none => content
  | some instructions => instructions ++ "\n" ++ content

/-- What a message adds to the images. -/
def ChatCompletionMessage.readImages (i : Nat) (msg : ChatCompletionMessage Value) :
    Except ConversionError (List RequestImage) :=
  match msg.content with
  | none => .ok []
  | some content => content.readImages lib i

/-- A message is added to the lists, when its images are read. -/
def ChatCompletionMessage.add (s : Conversion Value) (i : Nat)
    (msg : ChatCompletionMessage Value) (images : List RequestImage) :
    Except ConversionError (Conversion Value) :=
  let content := (msg.content.map (·.content)).getD ""
  let s := { s with images := s.images ++ images }
  if msg.role = .system then
    .ok { s with
      instructions := addInstructions s.instructions content
      chatTemplateMessages :=
        s.chatTemplateMessages ++ [{ role := .system, content := .text content }] }
  else if msg.content.isNone ∧ msg.reasoningContent.isNone ∧ msg.toolCalls.isNone then .ok s
  else
    let entries : List InputMessage :=
      if msg.role = .user ∨ msg.role = .assistant ∨ msg.role = .developer then
        [⟨msg.role, content, some i⟩]
      else []
    let s := { s with inputMessages := s.inputMessages ++ entries }
    if images.isEmpty then
      .ok { s with
        chatTemplateMessages := s.chatTemplateMessages ++ [{
          role := msg.role
          content := .text content
          reasoningContent := msg.reasoningContent
          name := msg.name
          toolCalls := msg.toolCalls
          toolCallId := msg.toolCallId
          functionCall := msg.functionCall }] }
    else
      match msg.content with
      | some (.parts parts) =>
          .ok { s with
            chatTemplateMessages := s.chatTemplateMessages ++ [{
              role := msg.role
              content := .parts ((enumerate parts).map fun p => p.2.multimodal i p.1)
              reasoningContent := msg.reasoningContent }] }
      | _ => .error .assertion

/-- A message in the loop of `chat_request_to_text_generation`. -/
def ChatCompletionMessage.convert (s : Conversion Value) (i : Nat)
    (msg : ChatCompletionMessage Value) : Except ConversionError (Conversion Value) := do
  let images ← msg.readImages lib i
  msg.add s i images

def chatRequestToTextGeneration (request : ChatCompletionRequest Value) :
    Except ConversionError (TextGenerationTaskParams Value) := do
  let s ← (enumerate request.messages).foldlM (fun s p => p.2.convert lib s p.1) {}
  return s.params

/-! ## Claude -/

inductive ClaudeRole where
  | system
  | user
  | assistant
  deriving DecidableEq, Repr

def ClaudeRole.toRole : ClaudeRole → MessageRole
  | .system => .system
  | .user => .user
  | .assistant => .assistant

inductive ClaudeImageSourceType where
  | base64
  | url
  deriving DecidableEq, Repr

structure ClaudeImageSource where
  type : ClaudeImageSourceType
  data : Option String := none
  url : Option String := none
  deriving DecidableEq, Repr

inductive ClaudeToolResultPart where
  | text (text : String)
  | image (source : ClaudeImageSource)
  deriving DecidableEq, Repr

inductive ClaudeToolResultContent where
  | text (text : String)
  | blocks (blocks : List ClaudeToolResultPart)
  deriving DecidableEq, Repr

structure ClaudeToolResultBlock where
  toolUseId : String
  content : Option ClaudeToolResultContent := none
  deriving DecidableEq, Repr

inductive ClaudeInputContentBlock (Value : Type) where
  | text (text : String)
  | image (source : ClaudeImageSource)
  | thinking (thinking : String)
  | toolUse (id name : String) (input : Value)
  | toolResult (result : ClaudeToolResultBlock)

inductive ClaudeContent (Value : Type) where
  | text (text : String)
  | blocks (blocks : List (ClaudeInputContentBlock Value))

structure ClaudeMessage (Value : Type) where
  role : ClaudeRole
  content : ClaudeContent Value

inductive ClaudeSystem where
  | text (text : String)
  | blocks (blocks : List String)
  deriving DecidableEq, Repr

structure ClaudeMessagesRequest (Value : Type) where
  messages : List (ClaudeMessage Value)
  system : Option ClaudeSystem := none

def ClaudeToolResultPart.text? : ClaudeToolResultPart → Option String
  | .text t => some t
  | .image _ => none

/-- `_extract_tool_result_text`. -/
def ClaudeToolResultBlock.text (block : ClaudeToolResultBlock) : String :=
  match block.content with
  | none => ""
  | some (.text text) => text
  | some (.blocks blocks) => String.join (blocks.filterMap (·.text?))

/-- A line without its volatile header; a line that was all header goes with its newline. -/
def stripVolatileHeader (line newline : List Char) : List Char :=
  if "x-anthropic-".toList.isPrefixOf line ∧ ';' ∈ line then
    let rest := (line.reverse.takeWhile (· ≠ ';')).reverse
    if rest = [] then [] else rest ++ newline
  else line ++ newline

/-- Each line but the last ends in a newline. -/
def stripLines : List (List Char) → List Char
  | [] => []
  | [line] => stripVolatileHeader line []
  | line :: lines => stripVolatileHeader line ['\n'] ++ stripLines lines

/-- `^x-anthropic-[^\n]*;\n?` is replaced by nothing. -/
def stripVolatileHeaders (text : String) : String :=
  String.ofList (stripLines (text.toList.splitOn '\n'))

/-- An image that cannot be fetched is passed over. -/
def handleImageBlock (position : BlockPosition) (source : ClaudeImageSource) :
    Option RequestImage :=
  match source.type with
  | .base64 => (source.data.filter (· ≠ "")).map (⟨·, position⟩)
  | .url => ((source.url.filter (· ≠ "")).bind (lib.fetchImageUrl position)).map (⟨·, position⟩)

/-- What a block adds to the images. -/
def ClaudeInputContentBlock.images (i j : Nat) :
    ClaudeInputContentBlock Value → List RequestImage
  | .image source => (handleImageBlock lib ⟨i, j, none⟩ source).toList
  | .toolResult ⟨_, some (.blocks blocks)⟩ => (enumerate blocks).flatMap fun p =>
      match p.2 with
      | .text _ => []
      | .image source => (handleImageBlock lib ⟨i, j, some p.1⟩ source).toList
  | _ => []

def ClaudeInputContentBlock.text? : ClaudeInputContentBlock Value → Option String
  | .text t => some t
  | _ => none

def ClaudeInputContentBlock.thinking? : ClaudeInputContentBlock Value → Option String
  | .thinking t => some t
  | _ => none

def ClaudeInputContentBlock.toolCall? : ClaudeInputContentBlock Value → Option TemplateToolCall
  | .toolUse id name input => some { id, name, arguments := lib.jsonDumps input }
  | _ => none

def ClaudeInputContentBlock.toolResult? :
    ClaudeInputContentBlock Value → Option ClaudeToolResultBlock
  | .toolResult result => some result
  | _ => none

def ClaudeInputContentBlock.multimodal? (i j : Nat) :
    ClaudeInputContentBlock Value → Option ContentPart
  | .text t => some (.text t)
  | .image _ => some (.image (some ⟨i, j, none⟩))
  | _ => none

/-- The messages that blocks become. -/
def claudeTemplateMessages (i : Nat) (role : ClaudeRole)
    (blocks : List (ClaudeInputContentBlock Value)) : List (TemplateMessage Value) :=
  let content := String.join (blocks.filterMap (·.text?))
  let reasoningContent := some (String.join (blocks.filterMap (·.thinking?)))
    |>.filter (· ≠ "")
  let toolCalls := blocks.filterMap (·.toolCall? lib)
  let toolResults := blocks.filterMap (·.toolResult?)
  let images := (enumerate blocks).flatMap fun p => p.2.images lib i p.1
  if ¬ toolCalls.isEmpty then
    [{ role := .assistant, content := .text content, toolCalls, reasoningContent }]
  else if ¬ toolResults.isEmpty then
    toolResults.map fun tr =>
      { role := .tool, content := .text tr.text, toolCallId := tr.toolUseId }
  else if ¬ images.isEmpty then
    [{ role := role.toRole
       content := .parts ((enumerate blocks).filterMap fun p => p.2.multimodal? i p.1)
       reasoningContent }]
  else [{ role := role.toRole, content := .text content, reasoningContent }]

/-- A message in the loop of `claude_request_to_text_generation`. -/
def ClaudeMessage.convert (s : Conversion Value) (i : Nat) (msg : ClaudeMessage Value) :
    Conversion Value :=
  match msg.content with
  | .text text =>
      { s with
        inputMessages := s.inputMessages ++ [⟨msg.role.toRole, text, some i⟩]
        chatTemplateMessages :=
          s.chatTemplateMessages ++ [{ role := msg.role.toRole, content := .text text }] }
  | .blocks blocks =>
      let content := String.join (blocks.filterMap (·.text?))
      let entries : List InputMessage :=
        if msg.role = .user ∨ msg.role = .assistant then [⟨msg.role.toRole, content, some i⟩]
        else []
      { s with
        inputMessages := s.inputMessages ++ entries
        images := s.images ++ (enumerate blocks).flatMap fun p => p.2.images lib i p.1
        chatTemplateMessages :=
          s.chatTemplateMessages ++ claudeTemplateMessages lib i msg.role blocks }

/-- `if request.system`. -/
def ClaudeMessagesRequest.systemText (request : ClaudeMessagesRequest Value) : Option String :=
  match request.system with
  | none => none
  | some (.text text) => if text = "" then none else stripVolatileHeaders text
  | some (.blocks blocks) =>
      if blocks.isEmpty then none else stripVolatileHeaders (String.join blocks)

def claudeRequestToTextGeneration (request : ClaudeMessagesRequest Value) :
    TextGenerationTaskParams Value :=
  let s : Conversion Value := {
    instructions := request.systemText
    chatTemplateMessages :=
      (request.systemText.map fun text => { role := .system, content := .text text }).toList }
  ((enumerate request.messages).foldl (fun s p => p.2.convert lib s p.1) s).params

/-! ## Responses -/

inductive ResponseRole where
  | user
  | assistant
  | system
  | developer
  deriving DecidableEq, Repr

def ResponseRole.toRole : ResponseRole → MessageRole
  | .user => .user
  | .assistant => .assistant
  | .system => .system
  | .developer => .developer

inductive ResponseContentPart where
  | inputText (text : String)
  | inputImage (imageUrl : Option String)
  | outputText (text : String)
  deriving DecidableEq, Repr

inductive ResponseContent where
  | text (text : String)
  | parts (parts : List ResponseContentPart)
  deriving DecidableEq, Repr

/-- What `entry.get(key, "")` gives. -/
inductive EntryText where
  | text (text : String)
  | missing
  /-- A value that is no string, and can not be joined to one. -/
  | other
  deriving DecidableEq, Repr

inductive ResponseInputItem (Value : Type) where
  | message (role : ResponseRole) (content : ResponseContent)
  | functionCall (callId name arguments : String)
  | mcpCall (callId name arguments : String)
  | customToolCall (callId name arguments : String)
  | localShellCall (callId : String) (action : Value)
  | shellCall (callId : String) (action : Value)
  | computerCall (callId : String) (action : Value)
  | applyPatchCall (callId patch : String)
  | webSearchCall (callId query : String)
  | fileSearchCall (callId : String) (queries : List String)
  | codeInterpreterCall (callId code : String)
  | imageGenerationCall (callId prompt : String)
  | toolSearchCall (callId query : String)
  | functionCallOutput (callId output : String)
  | localShellCallOutput (callId output : String)
  | shellCallOutput (callId output : String)
  | applyPatchCallOutput (callId output : String)
  | computerCallOutput (callId : String) (output : String ⊕ Value)
  | customToolCallOutput (callId output : String)
  | toolSearchOutput (callId output : String)
  | reasoning (content summary : Option (List EntryText))
  | compaction (summary : String)
  | mcpListTools (serverLabel : String) (names : List EntryText)
  | mcpApprovalRequest (callId name arguments : String)
  | mcpApprovalResponse (approvalRequestId : String) (approve : Bool) (reason : String)
  | itemReference

inductive ResponsesInput (Value : Type) where
  | text (text : String)
  | items (items : List (ResponseInputItem Value))

structure ResponsesRequest (Value : Type) where
  input : ResponsesInput Value
  instructions : Option String := none
  /-- Messages that the client has formatted itself. -/
  chatTemplateMessages : Option (List (TemplateMessage Value)) := none

def ResponseContentPart.text? : ResponseContentPart → Option String
  | .inputText text | .outputText text => some text
  | .inputImage _ => none

/-- `_extract_content`. -/
def ResponseContent.extract : ResponseContent → String
  | .text t => t
  | .parts ps => String.join (ps.filterMap (·.text?))

/-- `part.image_url`, if that is a string that says something. -/
def ResponseContentPart.readImages (i j : Nat) :
    ResponseContentPart → Except ConversionError (List RequestImage)
  | .inputImage imageUrl => readImageUrl lib ⟨i, j, none⟩ (imageUrl.getD "")
  | _ => .ok []

def ResponseContent.readImages (i : Nat) :
    ResponseContent → Except ConversionError (List RequestImage)
  | .text _ => .ok []
  | .parts ps => do
      let found ← (enumerate ps).mapM fun p => p.2.readImages lib i p.1
      return found.flatten

def ResponseContentPart.multimodal (i j : Nat) : ResponseContentPart → ContentPart
  | .inputText text | .outputText text => .text text
  | .inputImage _ => .image (some ⟨i, j, none⟩)

/-- The multimodal content; a string has no parts. -/
def ResponseContent.multimodal (i : Nat) : ResponseContent → List ContentPart
  | .text _ => []
  | .parts ps => (enumerate ps).map fun p => p.2.multimodal i p.1

/-- `_append_tool_call`. -/
def appendToolCall (messages : List (TemplateMessage Value)) (toolCall : TemplateToolCall) :
    List (TemplateMessage Value) :=
  let appended : List (TemplateMessage Value) :=
    messages ++ [{ role := .assistant, content := .text "", toolCalls := some [toolCall] }]
  match messages.getLast? with
  | none => appended
  | some prev =>
      match prev.role, prev.content with
      | .assistant, .text _ =>
          messages.dropLast ++ [{ prev with toolCalls := prev.toolCalls.getD [] ++ [toolCall] }]
      | _, _ => appended

/-- A string that can be joined. -/
def EntryText.string : EntryText → Except ConversionError String
  | .text t => .ok t
  | .missing => .ok ""
  | .other => .error .type

/-- `separator.join(entry.get(key, "") for entry in entries)`. -/
def joinEntries (separator : String) (entries : List EntryText) :
    Except ConversionError String := do
  let texts ← entries.mapM (·.string)
  return separator.intercalate texts

/-- The lists of the adapter and `has_images`, which stays set until a message is made of it. -/
structure ResponsesConversion (Value : Type) extends Conversion Value where
  hasImages : Bool := false

/-- A message is added to the template. -/
def ResponsesConversion.say (s : ResponsesConversion Value) (message : TemplateMessage Value) :
    ResponsesConversion Value :=
  { s with chatTemplateMessages := s.chatTemplateMessages ++ [message] }

/-- A tool call is added to the template. -/
def ResponsesConversion.call (s : ResponsesConversion Value) (id name arguments : String) :
    ResponsesConversion Value :=
  { s with
    chatTemplateMessages := appendToolCall s.chatTemplateMessages { id, name, arguments } }

/-- The output of a tool is added to the template. -/
def ResponsesConversion.output (s : ResponsesConversion Value) (id output : String) :
    ResponsesConversion Value :=
  s.say { role := .tool, content := .text output, toolCallId := id }

/-- A message is added to the lists, when its images are read. -/
def ResponsesConversion.addMessage (s : ResponsesConversion Value) (i : Nat)
    (role : ResponseRole) (content : ResponseContent) (images : List RequestImage) :
    ResponsesConversion Value :=
  let hasImages := s.hasImages || !images.isEmpty
  let entries : List InputMessage :=
    if role = .system then [] else [⟨role.toRole, content.extract, some i⟩]
  let s := { s with
    images := s.images ++ images
    inputMessages := s.inputMessages ++ entries }
  if role = .system then
    { s.say { role := .system, content := .text content.extract } with hasImages }
  else if hasImages then
    { s.say { role := role.toRole, content := .parts (content.multimodal i) } with
      hasImages := false }
  else { s.say { role := role.toRole, content := .text content.extract } with hasImages }

/-- `case ResponseInputMessage()`. -/
def ResponsesConversion.message (s : ResponsesConversion Value) (i : Nat) (role : ResponseRole)
    (content : ResponseContent) : Except ConversionError (ResponsesConversion Value) := do
  let images ← content.readImages lib i
  return s.addMessage i role content images

/-- The text of a reasoning: its content, else its summary. -/
def reasoningText (content summary : Option (List EntryText)) : Except ConversionError String :=
  if content.any (¬ ·.isEmpty) then joinEntries "" (content.getD [])
  else if summary.any (¬ ·.isEmpty) then joinEntries "" (summary.getD [])
  else .ok ""

/-- An item in the loop of `responses_request_to_text_generation`. -/
def ResponsesConversion.item (s : ResponsesConversion Value) (i : Nat) :
    ResponseInputItem Value → Except ConversionError (ResponsesConversion Value)
  | .message role content => s.message lib i role content
  | .functionCall callId name arguments | .mcpCall callId name arguments
  | .customToolCall callId name arguments | .mcpApprovalRequest callId name arguments =>
      .ok (s.call callId name arguments)
  | .localShellCall callId action =>
      .ok (s.call callId "local_shell_call" (lib.jsonDumps action))
  | .shellCall callId action => .ok (s.call callId "shell_call" (lib.jsonDumps action))
  | .computerCall callId action => .ok (s.call callId "computer_call" (lib.jsonDumps action))
  | .applyPatchCall callId patch => .ok (s.call callId "apply_patch"
      (lib.jsonDumps (lib.ofDict [("patch", lib.ofString patch)])))
  | .webSearchCall callId query => .ok (s.call callId "web_search_call"
      (lib.jsonDumps (lib.ofDict [("query", lib.ofString query)])))
  | .fileSearchCall callId queries => .ok (s.call callId "file_search_call"
      (lib.jsonDumps (lib.ofDict [("queries", lib.ofList (queries.map lib.ofString))])))
  | .codeInterpreterCall callId code => .ok (s.call callId "code_interpreter_call"
      (lib.jsonDumps (lib.ofDict [("code", lib.ofString code)])))
  | .imageGenerationCall callId prompt => .ok (s.call callId "image_generation_call"
      (lib.jsonDumps (lib.ofDict [("prompt", lib.ofString prompt)])))
  | .toolSearchCall callId query => .ok (s.call callId "tool_search_call"
      (lib.jsonDumps (lib.ofDict [("query", lib.ofString query)])))
  | .functionCallOutput callId output | .localShellCallOutput callId output
  | .shellCallOutput callId output | .applyPatchCallOutput callId output
  | .customToolCallOutput callId output | .toolSearchOutput callId output
  | .computerCallOutput callId (.inl output) => .ok (s.output callId output)
  | .computerCallOutput callId (.inr output) => .ok (s.output callId (lib.jsonDumps output))
  | .reasoning content summary => do
      let text ← reasoningText content summary
      return if text = "" then s else s.say { role := .assistant, content := .text text }
  | .compaction summary =>
      .ok (if summary = "" then s else s.say { role := .system, content := .text summary })
  | .mcpListTools serverLabel names => do
      let toolsDesc ← joinEntries ", " names
      return if toolsDesc = "" then s else s.say {
        role := .system
        content := .text ("Available MCP tools (" ++ serverLabel ++ "): " ++ toolsDesc) }
  | .mcpApprovalResponse approvalRequestId approve reason =>
      .ok (s.output approvalRequestId ((if approve then "Approved" else "Denied")
        ++ if reason = "" then "" else ": " ++ reason))
  | .itemReference => .ok s

/-- A part of a message that the client has formatted. -/
def ContentPart.asGiven : ContentPart → ContentPart
  | .text t => .text t
  | .image _ => .image none

def TemplateMessage.asGiven (message : TemplateMessage Value) : TemplateMessage Value :=
  { message with
    content := match message.content with
      | .text text => .text text
      | .parts parts => .parts (parts.map (·.asGiven)) }

/-- The lists of a request; a plain string is the message of a user. -/
def ResponsesRequest.convert (request : ResponsesRequest Value) :
    Except ConversionError (Conversion Value) :=
  match request.input with
  | .text text => .ok { inputMessages := [⟨.user, text, some 0⟩] }
  | .items items => do
      let s : ResponsesConversion Value := {
        chatTemplateMessages := (request.instructions.map fun text =>
          { role := .system, content := .text text }).toList }
      let s ← (enumerate items).foldlM (fun s p => s.item lib p.1 p.2) s
      return s.toConversion

def responsesRequestToTextGeneration (request : ResponsesRequest Value) :
    Except ConversionError (TextGenerationTaskParams Value) := do
  let s ← request.convert lib
  let params := { s with instructions := request.instructions }.params
  return { params with
    chatTemplateMessages := params.chatTemplateMessages.or
      (request.chatTemplateMessages.map fun messages => messages.map (·.asGiven)) }

/-! ## Ollama -/

inductive OllamaRole where
  | system
  | user
  | assistant
  | tool
  deriving DecidableEq, Repr

def OllamaRole.toRole : OllamaRole → MessageRole
  | .system => .system
  | .user => .user
  | .assistant => .assistant
  | .tool => .tool

structure OllamaToolCall (Value : Type) where
  id : Option String := none
  index : Option Int := none
  name : String
  arguments : String ⊕ Value

structure OllamaMessage (Value : Type) where
  role : OllamaRole
  content : Option String := none
  thinking : Option String := none
  toolCalls : Option (List (OllamaToolCall Value)) := none
  name : Option String := none
  toolName : Option String := none
  images : Option (List String) := none

structure OllamaChatRequest (Value : Type) where
  messages : List (OllamaMessage Value)

structure OllamaConversion (Value : Type) extends Conversion Value where
  toolMessageIndex : Nat := 0

def OllamaToolCall.dump (tc : OllamaToolCall Value) : TemplateToolCall where
  id := tc.id
  index := tc.index
  name := tc.name
  arguments := match tc.arguments with
    | .inl arguments => arguments
    | .inr arguments => lib.jsonDumps arguments

/-- The images of a message, each under its number. -/
def OllamaMessage.readImages (msg : OllamaMessage Value) (i : Nat) : List RequestImage :=
  (enumerate (msg.images.getD [])).map fun p => ⟨p.2, i, p.1, none⟩

/-- `multimodal`: the images come first. -/
def OllamaMessage.multimodal (msg : OllamaMessage Value) (i : Nat) : List ContentPart :=
  (enumerate (msg.images.getD [])).map (fun p => .image (some ⟨i, p.1, none⟩))
    ++ if msg.content.getD "" = "" then [] else [.text (msg.content.getD "")]

/-- A message in the loop of `ollama_request_to_text_generation`. -/
def OllamaMessage.convert (s : OllamaConversion Value) (i : Nat) (msg : OllamaMessage Value) :
    OllamaConversion Value :=
  let content := msg.content.getD ""
  let entry : InputMessage := ⟨msg.role.toRole, content, some i⟩
  let images := msg.readImages i
  let s := { s with images := s.images ++ images }
  if msg.role = .system then
    { s with
      instructions := addInstructions s.instructions content
      chatTemplateMessages :=
        s.chatTemplateMessages ++ [{ role := .system, content := .text content }] }
  else
    let entries : List InputMessage :=
      if (msg.role = .user ∨ msg.role = .assistant)
          ∧ (msg.content.isSome ∨ msg.thinking.isSome ∨ msg.toolCalls.any (¬ ·.isEmpty)) then
        [entry]
      else []
    let s := { s with inputMessages := s.inputMessages ++ entries }
    if ¬ images.isEmpty then
      let again : List InputMessage :=
        if msg.role = .user ∨ msg.role = .assistant then [entry] else []
      { s with
        chatTemplateMessages := s.chatTemplateMessages
          ++ [{ role := msg.role.toRole, content := .parts (msg.multimodal i) }]
        inputMessages := s.inputMessages ++ again }
    else
      let toolMessageIndex :=
        if msg.role = .tool then s.toolMessageIndex + 1 else s.toolMessageIndex
      let toolCallId := ((msg.toolName.filter (· ≠ "")).or (msg.name.filter (· ≠ ""))).getD
        ("tool_" ++ toString toolMessageIndex)
      { s with
        toolMessageIndex
        chatTemplateMessages := s.chatTemplateMessages ++ [{
          role := msg.role.toRole
          content := .text content
          thinking := msg.thinking
          toolCalls := msg.toolCalls.map fun tcs => tcs.map (·.dump lib)
          name := msg.name
          toolCallId := if msg.role = .tool then some toolCallId else none
          toolName := if msg.role = .tool then msg.toolName else none }] }

def ollamaRequestToTextGeneration (request : OllamaChatRequest Value) :
    TextGenerationTaskParams Value :=
  let s : OllamaConversion Value := {}
  ((enumerate request.messages).foldl (fun s p => p.2.convert lib s p.1) s).toConversion.params

/-! ## Any of the four -/

inductive ApiRequest (Value : Type) where
  | chat (request : ChatCompletionRequest Value)
  | claude (request : ClaudeMessagesRequest Value)
  | responses (request : ResponsesRequest Value)
  | ollama (request : OllamaChatRequest Value)

/-- The adapter of a request. -/
def ApiRequest.toTextGeneration :
    ApiRequest Value → Except ConversionError (TextGenerationTaskParams Value)
  | .chat request => chatRequestToTextGeneration lib request
  | .claude request => .ok (claudeRequestToTextGeneration lib request)
  | .responses request => responsesRequestToTextGeneration lib request
  | .ollama request => .ok (ollamaRequestToTextGeneration lib request)

end Adapters

end Exo
