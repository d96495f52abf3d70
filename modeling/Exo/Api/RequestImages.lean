import Mathlib.Data.Option.Basic
import Exo.Api.Requests

/-!
# Images and their places

The adapters collect the images of a request in one pass over its blocks, and make the parts that
hold their places in another. The two agree when, in each message, both passes come to the same
blocks. Each adapter has its own messages for which they do not.
-/

namespace Exo

open Exo.Lib

variable {Value : Type} {lib : RequestLibrary Value}

/-! ## What is promised -/

def ContentPart.place? : ContentPart → Option (Option BlockPosition)
  | .text _ => none
  | .image origin => some origin

def TemplateContent.places : TemplateContent → List (Option BlockPosition)
  | .text _ => []
  | .parts ps => ps.filterMap (·.place?)

/-- The blocks that the parts `image` of the messages were made from. -/
def places (messages : List (TemplateMessage Value)) : List (Option BlockPosition) :=
  messages.flatMap (·.content.places)

/--
There is a part for each image, made from the same block. A conversion may raise, but not because
of an assertion of its own.
-/
def AlignedImages : Except ConversionError (TextGenerationTaskParams Value) → Prop
  | .ok params => places (params.chatTemplateMessages.getD [])
      = params.images.map fun image => some image.origin
  | .error e => e ≠ .assertion

theorem places_append (ms ms' : List (TemplateMessage Value)) :
    places (ms ++ ms') = places ms ++ places ms' :=
  List.flatMap_append

variable (s : Conversion Value)

theorem places_params :
    places (s.params.chatTemplateMessages.getD []) = places s.chatTemplateMessages := by
  unfold Conversion.params
  cases s.chatTemplateMessages <;> rfl

/-! ## When it is kept -/

/-- Whether an image is read, if there is one. -/
def answers (lib : RequestLibrary Value) (position : BlockPosition) (url : String) : Bool :=
  url = "" || !isWebUrl url || (lib.fetchImageUrl position url).isSome

section Parts

variable {α : Type}

/-- The positions of the parts of message `i` that are so. -/
def positions (i : Nat) (q : Nat × α → Bool) (parts : List α) : List BlockPosition :=
  ((enumerate parts).filter q).map fun p => ⟨i, p.1, none⟩

/-- Either no part has an image, or each part that is one has. -/
def AllOrNone (isImage hasImage : Nat × α → Bool) (parts : List α) : Prop :=
  (∃ p ∈ enumerate parts, hasImage p) → ∀ p ∈ enumerate parts, isImage p → hasImage p

end Parts

/-- The URL of an image part; a text has none. -/
def ChatContentPart.url : ChatContentPart → String
  | .text _ => ""
  | .imageUrl url => url.getD ""

def ChatContentPart.isImage : ChatContentPart → Bool
  | .text _ => false
  | .imageUrl _ => true

def ChatContent.partList : ChatContent → List ChatContentPart
  | .text _ => []
  | .part p => [p]
  | .parts ps => ps

def ChatCompletionMessage.parts (msg : ChatCompletionMessage Value) : List ChatContentPart :=
  (msg.content.map (·.partList)).getD []

/-- All images of the message are fetched. -/
def ChatCompletionMessage.fetched (lib : RequestLibrary Value) (i : Nat)
    (msg : ChatCompletionMessage Value) : Bool :=
  (enumerate msg.parts).all fun p => answers lib ⟨i, p.1, none⟩ p.2.url

/-- The content is one image, not a list. -/
def ChatCompletionMessage.loneImage (msg : ChatCompletionMessage Value) : Bool :=
  match msg.content with
  | some (.part p) => p.url ≠ "" ∧ msg.role ≠ .system
  | _ => false

/-- A message with images is not the system's, and all parts that are images have an URL. -/
def ChatCompletionMessage.ImagesInPlace (msg : ChatCompletionMessage Value) : Prop :=
  (msg.role = .system → ∀ part ∈ msg.parts, part.url = "")
    ∧ AllOrNone (·.2.isImage) (·.2.url ≠ "") msg.parts

/--
Before a fetch fails there is no lone image; if none fails, the images of each message are in
place.
-/
structure ChatCompletionRequest.ImagesInPlace (lib : RequestLibrary Value)
    (request : ChatCompletionRequest Value) : Prop where
  lone : ∀ p ∈ (enumerate request.messages).takeWhile fun p => p.2.fetched lib p.1,
    p.2.loneImage = false
  messages : (∀ p ∈ enumerate request.messages, p.2.fetched lib p.1) →
    ∀ msg ∈ request.messages, msg.ImagesInPlace

def ClaudeInputContentBlock.isImage : ClaudeInputContentBlock Value → Bool
  | .image _ => true
  | _ => false

/-- A tool is called, or has a result. -/
def ClaudeInputContentBlock.isTool : ClaudeInputContentBlock Value → Bool
  | .toolUse .. | .toolResult _ => true
  | _ => false

def ClaudeMessage.blocks (msg : ClaudeMessage Value) : List (ClaudeInputContentBlock Value) :=
  match msg.content with
  | .text _ => []
  | .blocks bs => bs

/--
A message with images has nothing to do with tools, and its images are all read: what is meant for
a tool's message has no place, and what cannot be fetched has one.
-/
def ClaudeMessage.ImagesInPlace (lib : RequestLibrary Value) (i : Nat)
    (msg : ClaudeMessage Value) : Prop :=
  ((∃ block ∈ msg.blocks, block.isTool) →
      ∀ p ∈ enumerate msg.blocks, p.2.images lib i p.1 = [])
    ∧ AllOrNone (·.2.isImage) (fun p => !(p.2.images lib i p.1).isEmpty) msg.blocks

def ResponseContentPart.url : ResponseContentPart → String
  | .inputImage imageUrl => imageUrl.getD ""
  | _ => ""

def ResponseContentPart.isImage : ResponseContentPart → Bool
  | .inputImage _ => true
  | _ => false

def ResponseContent.partList : ResponseContent → List ResponseContentPart
  | .text _ => []
  | .parts ps => ps

def EntryText.textD : EntryText → String
  | .text t => t
  | _ => ""

/-- What entries add up to, if all are strings. -/
def joinD (separator : String) (entries : List EntryText) : String :=
  separator.intercalate (entries.map (·.textD))

/-- The entries that a reasoning is read from. -/
def reasoningEntries (content summary : Option (List EntryText)) : List EntryText :=
  if content.any (¬ ·.isEmpty) then content.getD [] else summary.getD []

/-- No fetch of an image fails, and what is joined are strings. -/
def ResponseInputItem.readable (lib : RequestLibrary Value) (i : Nat) :
    ResponseInputItem Value → Bool
  | .message _ content =>
      (enumerate content.partList).all fun p => answers lib ⟨i, p.1, none⟩ p.2.url
  | .reasoning content summary => .other ∉ reasoningEntries content summary
  | .mcpListTools _ names => .other ∉ names
  | _ => true

/-- As in a chat message. -/
def ResponseInputItem.ImagesInPlace : ResponseInputItem Value → Prop
  | .message role content =>
      (role = .system → ∀ part ∈ content.partList, part.url = "")
        ∧ AllOrNone (·.2.isImage) (·.2.url ≠ "") content.partList
  | _ => True

/-- Whether an item says something to the template. -/
def ResponseInputItem.speaks : ResponseInputItem Value → Bool
  | .itemReference => false
  | .compaction summary => summary ≠ ""
  | .reasoning content summary => joinD "" (reasoningEntries content summary) ≠ ""
  | .mcpListTools _ names => joinD ", " names ≠ ""
  | _ => true

def ResponsesRequest.items (request : ResponsesRequest Value) : List (ResponseInputItem Value) :=
  match request.input with
  | .text _ => []
  | .items is => is

/-- The messages for the template come from the input. -/
def ResponsesRequest.speaks (request : ResponsesRequest Value) : Bool :=
  match request.input with
  | .text _ => false
  | .items is => request.instructions.isSome || is.any (·.speaks)

/--
If nothing fails, the images of each item are in place; messages that the client has formatted
have no images of their own.
-/
def ResponsesRequest.ImagesInPlace (lib : RequestLibrary Value)
    (request : ResponsesRequest Value) : Prop :=
  (∀ p ∈ enumerate request.items, p.2.readable lib p.1) →
    (∀ item ∈ request.items, item.ImagesInPlace)
      ∧ (request.speaks = false → places (request.chatTemplateMessages.getD []) = [])

/-- The system has no images. -/
def OllamaMessage.ImagesInPlace (msg : OllamaMessage Value) : Prop :=
  msg.role = .system → msg.images.getD [] = []

def ApiRequest.ImagesInPlace (lib : RequestLibrary Value) : ApiRequest Value → Prop
  | .chat request => request.ImagesInPlace lib
  | .claude request => ∀ p ∈ enumerate request.messages, p.2.ImagesInPlace lib p.1
  | .responses request => request.ImagesInPlace lib
  | .ollama request => ∀ msg ∈ request.messages, msg.ImagesInPlace

/-! ## Parts and their positions -/

section Parts

variable {α : Type} {i : Nat} {q q' : Nat × α → Bool} {parts : List α}

theorem message_of_mem_positions {position : BlockPosition}
    (h : position ∈ positions i q parts) : position.message = i := by
  obtain ⟨p, -, rfl⟩ := List.mem_map.mp h
  rfl

theorem positions_eq_nil : positions i q parts = [] ↔ ∀ p ∈ enumerate parts, q p = false := by
  rw [positions, List.map_eq_nil_iff, List.filter_eq_nil_iff]
  simp

/-- What gets no places has to have no images. -/
theorem nil_eq_positions_iff {url : α → String} {isImage : Nat × α → Bool} {system : Prop}
    (hsystem : system) : [] = positions i (fun p => url p.2 ≠ "") parts
      ↔ (system → ∀ part ∈ parts, url part = "") ∧ AllOrNone isImage (url ·.2 ≠ "") parts := by
  rw [eq_comm, positions_eq_nil]
  constructor
  · intro hnone
    refine ⟨fun _ part hpart => ?_, fun ⟨p, hp, hurl⟩ => ?_⟩
    · obtain ⟨j, hj⟩ := List.mem_iff_getElem?.mp hpart
      simpa using hnone (j, part) (mem_enumerate.2 hj)
    · exact absurd (hnone p hp) (by simpa using hurl)
  · intro h p hp
    simpa using h.1 hsystem p.2 (List.mem_of_getElem? (mem_enumerate.1 hp))

/-- The parts that have an image are all that are one. -/
theorem positions_eq_iff (hq : ∀ p ∈ enumerate parts, q' p → q p) :
    positions i q parts = positions i q' parts ↔ ∀ p ∈ enumerate parts, q p → q' p := by
  have hsub : ((enumerate parts).filter q).filter q' = (enumerate parts).filter q' := by
    rw [List.filter_filter]
    refine List.filter_congr fun p hp => ?_
    cases hp' : q' p with
    | false => rfl
    | true => rw [hq p hp hp', Bool.true_and]
  constructor
  · intro h p hp hqp
    have hlength : (((enumerate parts).filter q).filter q').length
        = ((enumerate parts).filter q).length := by
      rw [hsub]
      simpa [positions] using (congrArg List.length h).symm
    exact List.length_filter_eq_length_iff.mp hlength p (List.mem_filter.mpr ⟨hp, hqp⟩)
  · intro h
    refine congrArg (List.map _) (List.filter_congr fun p hp => ?_)
    rw [Bool.eq_iff_iff]
    exact ⟨h p hp, hq p hp⟩

/-- Parts hold places when one of them has an image: then each that is one should. -/
theorem shown_eq_found (hq : ∀ p ∈ enumerate parts, q' p → q p) :
    (if positions i q' parts = [] then [] else positions i q parts) = positions i q' parts
      ↔ AllOrNone q q' parts := by
  split
  · rename_i hnone
    rw [hnone]
    refine iff_of_true rfl fun ⟨p, hp, hqp⟩ => ?_
    rw [positions_eq_nil.1 hnone p hp] at hqp
    cases hqp
  · rename_i hsome
    rw [positions_eq_iff hq]
    refine ⟨fun h _ => h, fun h => h ?_⟩
    by_contra hno
    refine hsome (positions_eq_nil.2 fun p hp => ?_)
    by_contra hqp
    exact hno ⟨p, hp, by simpa using hqp⟩

end Parts

/-! ## Reading the images of a content -/

theorem readImageUrl_empty (lib : RequestLibrary Value) (position : BlockPosition) :
    readImageUrl lib position "" = .ok [] := if_pos rfl

theorem readImageUrl_cases (lib : RequestLibrary Value) (position : BlockPosition)
    (url : String) :
    (answers lib position url = true ∧ ∃ images, readImageUrl lib position url = .ok images
        ∧ images.map (·.origin) = if url = "" then [] else [position])
      ∨ answers lib position url = false
        ∧ readImageUrl lib position url = .error (.fetch url) := by
  unfold readImageUrl answers
  by_cases hempty : url = ""
  · exact .inl ⟨by simp [hempty], [], by rw [if_pos hempty], by simp [hempty]⟩
  · cases hweb : isWebUrl url with
    | false => exact .inl ⟨by simp, _, by rw [if_neg hempty, if_neg nofun], by simp [hempty]⟩
    | true =>
        cases hfetch : lib.fetchImageUrl position url with
        | none => exact .inr ⟨by simp [hempty], by rw [if_neg hempty, if_pos rfl]⟩
        | some data =>
            exact .inl ⟨by simp, _, by rw [if_neg hempty, if_pos rfl], by simp [hempty]⟩

/-- The images of parts, each read from the URL of its part. -/
theorem readUrls_cases {α : Type} (lib : RequestLibrary Value) (i : Nat) (url : α → String)
    (l : List (Nat × α)) :
    ((∀ p ∈ l, answers lib ⟨i, p.1, none⟩ (url p.2)) ∧ ∃ found,
        l.mapM (fun p => readImageUrl lib ⟨i, p.1, none⟩ (url p.2)) = .ok found
        ∧ found.flatten.map (·.origin)
          = (l.filter fun p => url p.2 ≠ "").map fun p => (⟨i, p.1, none⟩ : BlockPosition))
      ∨ (∃ p ∈ l, answers lib ⟨i, p.1, none⟩ (url p.2) = false) ∧ ∃ failed,
        l.mapM (fun p => readImageUrl lib ⟨i, p.1, none⟩ (url p.2)) = .error (.fetch failed) := by
  induction l with
  | nil => exact .inl ⟨nofun, [], rfl, rfl⟩
  | cons p l ih =>
      rw [List.mapM_cons]
      rcases readImageUrl_cases lib ⟨i, p.1, none⟩ (url p.2) with
        ⟨hanswers, images, hread, horigin⟩ | ⟨hno, hread⟩
      · rcases ih with ⟨hall, found, hfound, horigins⟩ | ⟨⟨p', hp', hno⟩, failed, hfailed⟩
        · refine .inl ⟨fun r hr => ?_, images :: found, by rw [hread, hfound]; rfl, ?_⟩
          · rcases List.mem_cons.mp hr with rfl | hr
            · exact hanswers
            · exact hall r hr
          · rw [List.flatten_cons, List.map_append, horigin, horigins, List.filter_cons]
            by_cases hempty : url p.2 = "" <;> simp [hempty]
        · exact .inr ⟨⟨p', List.mem_cons_of_mem _ hp', hno⟩, failed, by rw [hread, hfailed]; rfl⟩
      · exact .inr ⟨⟨p, List.mem_cons_self, hno⟩, _, by rw [hread]; rfl⟩

/-- What a step adds to the images and to the places. -/
def Adds (s s' : Conversion Value) (found : List BlockPosition)
    (shown : List (Option BlockPosition)) : Prop :=
  s'.images.map (·.origin) = s.images.map (·.origin) ++ found
    ∧ places s'.chatTemplateMessages = places s.chatTemplateMessages ++ shown

theorem Adds.nil : Adds s s [] [] :=
  ⟨(List.append_nil _).symm, (List.append_nil _).symm⟩

theorem Adds.append {s s' s'' : Conversion Value} {found found' : List BlockPosition}
    {shown shown' : List (Option BlockPosition)} (h : Adds s s' found shown)
    (h' : Adds s' s'' found' shown') : Adds s s'' (found ++ found') (shown ++ shown') :=
  ⟨by rw [h'.1, h.1, List.append_assoc], by rw [h'.2, h.2, List.append_assoc]⟩

variable {images : List RequestImage}

/-- Images and messages are put at the end of the lists. -/
theorem adds_of_eq {s s' : Conversion Value}
    {messages : List (TemplateMessage Value)} {found : List BlockPosition}
    {shown : List (Option BlockPosition)} (himages : s'.images = s.images ++ images)
    (hmessages : s'.chatTemplateMessages = s.chatTemplateMessages ++ messages)
    (hfound : images.map (·.origin) = found) (hshown : places messages = shown) :
    Adds s s' found shown :=
  ⟨by rw [himages, List.map_append, hfound], by rw [hmessages, places_append, hshown]⟩

/-! ## Chat completions -/

section Chat

theorem ChatContentPart.readImages_eq (i j : Nat) (part : ChatContentPart) :
    part.readImages lib i j = readImageUrl lib ⟨i, j, none⟩ part.url := by
  cases part with
  | text t => exact (readImageUrl_empty lib _).symm
  | imageUrl url => rfl

/-- The positions whose images are collected. -/
def ChatCompletionMessage.found (i : Nat) (msg : ChatCompletionMessage Value) :
    List BlockPosition :=
  positions i (·.2.url ≠ "") msg.parts

/-- The positions that get a place. -/
def ChatCompletionMessage.shown (i : Nat) (msg : ChatCompletionMessage Value) :
    List BlockPosition :=
  if msg.role = .system then []
  else if msg.found i = [] then []
  else positions i (·.2.isImage) msg.parts

theorem ChatContent.readImages_cases (lib : RequestLibrary Value) (i : Nat)
    (content : ChatContent) :
    ((∀ p ∈ enumerate content.partList, answers lib ⟨i, p.1, none⟩ p.2.url) ∧ ∃ images,
        content.readImages lib i = .ok images
        ∧ images.map (·.origin) = positions i (·.2.url ≠ "") content.partList)
      ∨ (∃ p ∈ enumerate content.partList, answers lib ⟨i, p.1, none⟩ p.2.url = false)
        ∧ ∃ url, content.readImages lib i = .error (.fetch url) := by
  cases content with
  | text t => exact .inl ⟨nofun, [], rfl, rfl⟩
  | part p =>
      rw [ChatContent.readImages, ChatContentPart.readImages_eq]
      rcases readImageUrl_cases lib ⟨i, 0, none⟩ p.url with
        ⟨hanswers, images, hread, horigin⟩ | ⟨hno, hread⟩
      · refine .inl ⟨fun r hr => ?_, images, hread, ?_⟩
        · rw [List.mem_singleton.mp hr]
          exact hanswers
        · rw [horigin]
          by_cases hempty : p.url = "" <;>
            simp [positions, ChatContent.partList, enumerate, hempty]
      · exact .inr ⟨⟨(0, p), List.mem_singleton_self _, hno⟩, _, hread⟩
  | parts ps =>
      have hread : ChatContent.readImages lib i (.parts ps) = do
          let found ← (enumerate ps).mapM fun p => readImageUrl lib ⟨i, p.1, none⟩ p.2.url
          return found.flatten := by
        simp only [ChatContent.readImages, ChatContentPart.readImages_eq]
      rcases readUrls_cases lib i ChatContentPart.url (enumerate ps) with
        ⟨hall, found, hfound, horigins⟩ | ⟨hno, failed, hfailed⟩
      · exact .inl ⟨hall, found.flatten, by rw [hread, hfound]; rfl, horigins⟩
      · exact .inr ⟨hno, failed, by rw [hread, hfailed]; rfl⟩

theorem ChatCompletionMessage.readImages_cases (lib : RequestLibrary Value) (i : Nat)
    (msg : ChatCompletionMessage Value) :
    (msg.fetched lib i = true ∧ ∃ images, msg.readImages lib i = .ok images
        ∧ images.map (·.origin) = msg.found i)
      ∨ msg.fetched lib i = false ∧ ∃ url, msg.readImages lib i = .error (.fetch url) := by
  unfold fetched readImages found parts
  cases msg.content with
  | none => exact .inl ⟨rfl, [], rfl, rfl⟩
  | some content =>
      rcases content.readImages_cases lib i with
        ⟨hall, images, hread, horigin⟩ | ⟨⟨p, hp, hno⟩, url, hread⟩
      · exact .inl ⟨List.all_eq_true.mpr hall, images, hread, horigin⟩
      · exact .inr ⟨List.all_eq_false.mpr ⟨p, hp, by simp [hno]⟩, url, hread⟩

theorem places_multimodal (i : Nat) (ps : List ChatContentPart) :
    ((enumerate ps).map fun p => p.2.multimodal i p.1).filterMap (·.place?)
      = (positions i (·.2.isImage) ps).map some := by
  unfold positions
  induction enumerate ps with
  | nil => rfl
  | cons p l ih =>
      obtain ⟨j, part⟩ := p
      cases part with
      | text t => exact ih
      | imageUrl url => exact congrArg (some ⟨i, j, none⟩ :: ·) ih

/-- A list of parts keeps its images apart from its texts; one image alone is refused. -/
theorem ChatCompletionMessage.add_cases (i : Nat)
    (msg : ChatCompletionMessage Value)
    (horigin : images.map (·.origin) = msg.found i) :
    (msg.loneImage = true ∧ msg.add s i images = .error .assertion)
      ∨ msg.loneImage = false ∧ ∃ s', msg.add s i images = .ok s'
        ∧ Adds s s' (msg.found i) ((msg.shown i).map some) := by
  unfold ChatCompletionMessage.add ChatCompletionMessage.shown
  by_cases hsystem : msg.role = .system
  · rw [if_pos hsystem, if_pos hsystem]
    refine .inr ⟨?_, _, rfl, adds_of_eq rfl rfl horigin rfl⟩
    unfold loneImage
    split
    · simp [hsystem]
    · rfl
  · rw [if_neg hsystem, if_neg hsystem]
    by_cases hnone : msg.found i = []
    · -- no image: a message of text, if any
      have himages : images = [] := by
        rw [hnone] at horigin
        exact List.map_eq_nil_iff.mp horigin
      have hlone : msg.loneImage = false := by
        unfold loneImage
        split
        · rename_i p hp
          have hparts : msg.parts = [p] := by rw [parts, hp]; rfl
          have hurl := positions_eq_nil.1 hnone (0, p) (by rw [hparts]; exact List.mem_cons_self)
          simp at hurl
          simp [hurl]
        · rfl
      rw [if_pos hnone, hnone, himages]
      refine .inr ⟨hlone, ?_⟩
      split
      · exact ⟨_, rfl, adds_of_eq rfl (List.append_nil _).symm rfl rfl⟩
      · exact ⟨_, rfl, adds_of_eq rfl rfl rfl rfl⟩
    · have himages : images.isEmpty = false := by
        rw [List.isEmpty_eq_false_iff]
        rintro rfl
        exact hnone horigin.symm
      rw [if_neg hnone]
      cases hcontent : msg.content with
      | none => exact absurd (by rw [found, parts, hcontent]; rfl) hnone
      | some content =>
          cases content with
          | text t => exact absurd (by rw [found, parts, hcontent]; rfl) hnone
          | part p =>
              refine .inl ⟨?_, ?_⟩
              · have hurl : p.url ≠ "" := by
                  intro hempty
                  refine hnone (positions_eq_nil.2 fun q hq => ?_)
                  rw [parts, hcontent] at hq
                  rw [List.mem_singleton.mp hq]
                  simp [hempty]
                unfold loneImage
                rw [hcontent]
                simp [hurl, hsystem]
              · simp [himages]
          | parts ps =>
              refine .inr ⟨?_, ?_⟩
              · unfold loneImage
                rw [hcontent]
              · simp only [Option.isNone_some, Bool.false_eq_true, false_and, if_false, himages]
                refine ⟨_, rfl, adds_of_eq rfl rfl horigin ?_⟩
                have hparts : msg.parts = ps := by rw [parts, hcontent]; rfl
                rw [hparts, places, List.flatMap_singleton]
                exact places_multimodal i ps

/-- What a message does to the images and to the places. -/
theorem ChatCompletionMessage.convert_cases (lib : RequestLibrary Value)
    (s : Conversion Value) (i : Nat) (msg : ChatCompletionMessage Value) :
    (msg.fetched lib i = false ∧ ∃ url, msg.convert lib s i = .error (.fetch url))
      ∨ (msg.fetched lib i = true ∧ msg.loneImage = true
        ∧ msg.convert lib s i = .error .assertion)
      ∨ msg.fetched lib i = true ∧ msg.loneImage = false ∧ ∃ s', msg.convert lib s i = .ok s'
        ∧ Adds s s' (msg.found i) ((msg.shown i).map some) := by
  rcases msg.readImages_cases lib i with
    ⟨hfetched, images, hread, horigin⟩ | ⟨hno, url, hread⟩
  · have hconvert : msg.convert lib s i = msg.add s i images := by
      rw [ChatCompletionMessage.convert, hread]
      rfl
    rw [hconvert]
    rcases msg.add_cases s i horigin with ⟨hlone, hadd⟩ | ⟨hlone, hadd⟩
    · exact .inr (.inl ⟨hfetched, hlone, hadd⟩)
    · exact .inr (.inr ⟨hfetched, hlone, hadd⟩)
  · refine .inl ⟨hno, url, ?_⟩
    rw [ChatCompletionMessage.convert, hread]
    rfl

/-- The images of a message get places, and nothing else does. -/
theorem ChatCompletionMessage.shown_eq_found_iff (i : Nat) (msg : ChatCompletionMessage Value) :
    msg.shown i = msg.found i ↔ msg.ImagesInPlace := by
  unfold shown ImagesInPlace
  by_cases hsystem : msg.role = .system
  · rw [if_pos hsystem, found]
    exact nil_eq_positions_iff hsystem
  · rw [if_neg hsystem, found]
    refine (shown_eq_found fun p _ hurl => ?_).trans
      ⟨fun h => ⟨fun hs => absurd hs hsystem, h⟩, fun h => h.2⟩
    cases hpart : p.2 with
    | text t => simp [ChatContentPart.url, hpart] at hurl
    | imageUrl url => rfl

variable {msg : ChatCompletionMessage Value}

theorem ChatCompletionMessage.message_of_mem_found {i : Nat}
    {position : BlockPosition} (h : position ∈ msg.found i) : position.message = i :=
  message_of_mem_positions h

theorem ChatCompletionMessage.message_of_mem_shown {i : Nat}
    {position : BlockPosition} (h : position ∈ msg.shown i) : position.message = i := by
  unfold shown at h
  split at h
  · cases h
  · split at h
    · cases h
    · exact message_of_mem_positions h

/-- A run over messages. -/
theorem chatLoop_cases (lib : RequestLibrary Value) (s : Conversion Value)
    (l : List (Nat × ChatCompletionMessage Value)) :
    (∃ s', l.foldlM (fun s p => p.2.convert lib s p.1) s = .ok s'
        ∧ (∀ p ∈ l, p.2.fetched lib p.1 = true ∧ p.2.loneImage = false)
        ∧ Adds s s' (l.flatMap fun p => p.2.found p.1)
          ((l.flatMap fun p => p.2.shown p.1).map some))
      ∨ (l.foldlM (fun s p => p.2.convert lib s p.1) s = .error .assertion
        ∧ ∃ p ∈ l.takeWhile fun p => p.2.fetched lib p.1, p.2.loneImage = true)
      ∨ (∃ url, l.foldlM (fun s p => p.2.convert lib s p.1) s = .error (.fetch url))
        ∧ (∀ p ∈ l.takeWhile fun p => p.2.fetched lib p.1, p.2.loneImage = false)
        ∧ ∃ p ∈ l, p.2.fetched lib p.1 = false := by
  induction l generalizing s with
  | nil => exact .inl ⟨s, rfl, fun p hp => absurd hp List.not_mem_nil, Adds.nil s⟩
  | cons p l ih =>
      rw [List.foldlM_cons]
      rcases p.2.convert_cases lib s p.1 with
        ⟨hno, url, hstep⟩ | ⟨hfetched, hlone, hstep⟩ | ⟨hfetched, hlone, t, hstep, hadds⟩
      · refine .inr (.inr ⟨⟨url, by rw [hstep]; rfl⟩, ?_, p, List.mem_cons_self, hno⟩)
        rw [List.takeWhile_cons, hno, if_neg Bool.false_ne_true]
        exact fun q hq => absurd hq List.not_mem_nil
      · refine .inr (.inl ⟨by rw [hstep]; rfl, p, ?_, hlone⟩)
        rw [List.takeWhile_cons, hfetched, if_pos rfl]
        exact List.mem_cons_self
      · rw [hstep, List.takeWhile_cons, hfetched, if_pos rfl]
        rcases ih t with ⟨s', hrun, hall, hrest⟩ | ⟨hrun, q, hq, hq'⟩ |
          ⟨⟨url, hrun⟩, hall, q, hq, hq'⟩
        · refine .inl ⟨s', hrun, fun q hq => ?_, ?_⟩
          · rcases List.mem_cons.mp hq with rfl | hq
            · exact ⟨hfetched, hlone⟩
            · exact hall q hq
          · rw [List.flatMap_cons, List.flatMap_cons, List.map_append]
            exact hadds.append hrest
        · exact .inr (.inl ⟨hrun, q, List.mem_cons_of_mem _ hq, hq'⟩)
        · refine .inr (.inr ⟨⟨url, hrun⟩, fun r hr => ?_, q, List.mem_cons_of_mem _ hq, hq'⟩)
          rcases List.mem_cons.mp hr with rfl | hr
          · exact hlone
          · exact hall r hr

/-- A run of steps that cannot fail. -/
theorem adds_foldl {σ α : Type} (view : σ → Conversion Value) {f : σ → Nat × α → σ}
    {found shown : Nat × α → List BlockPosition}
    (hstep : ∀ s p, Adds (view s) (view (f s p)) (found p) ((shown p).map some)) (s : σ)
    (l : List (Nat × α)) :
    Adds (view s) (view (l.foldl f s)) (l.flatMap found) ((l.flatMap shown).map some) := by
  induction l generalizing s with
  | nil => exact Adds.nil _
  | cons p l ih =>
      rw [List.flatMap_cons, List.flatMap_cons, List.map_append]
      exact (hstep s p).append (ih (f s p))

/-- When what was added to nothing is aligned. -/
theorem aligned_params_iff {s : Conversion Value} {found shown : List BlockPosition}
    (h : Adds {} s found (shown.map some)) : AlignedImages (.ok s.params) ↔ shown = found := by
  have himages : s.params.images.map (fun image => some image.origin) = found.map some := by
    rw [← h.1.trans (List.nil_append _), List.map_map]
    rfl
  rw [AlignedImages, places_params, himages, h.2.trans (List.nil_append _)]
  exact (List.map_injective_iff.mpr (Option.some_injective _)).eq_iff

theorem ChatCompletionRequest.isAligned_iff (request : ChatCompletionRequest Value) :
    AlignedImages (chatRequestToTextGeneration lib request) ↔ request.ImagesInPlace lib := by
  unfold chatRequestToTextGeneration
  rcases chatLoop_cases lib {} (enumerate request.messages) with
    ⟨s', hrun, hall, hadds⟩ | ⟨hrun, p, hp, hlone⟩ | ⟨⟨url, hrun⟩, hlone, p, hp, hno⟩
  · rw [hrun]
    refine (aligned_params_iff hadds).trans ((flatMap_inj_of_tags BlockPosition.message
      (nodup_fst_enumerate _)
      (fun p _ b hb => ChatCompletionMessage.message_of_mem_shown hb)
      (fun p _ b hb => ChatCompletionMessage.message_of_mem_found hb)).trans ?_)
    simp only [ChatCompletionMessage.shown_eq_found_iff]
    constructor
    · intro h
      exact ⟨fun p hp => (hall p (List.takeWhile_subset _ hp)).2,
        fun _ => forall_mem_enumerate.1 h⟩
    · exact fun h => forall_mem_enumerate.2 (h.messages fun q hq => (hall q hq).1)
  · rw [hrun]
    refine iff_of_false (fun h => h rfl) fun h => ?_
    rw [h.lone p hp] at hlone
    cases hlone
  · rw [hrun]
    refine iff_of_true nofun ⟨hlone, fun hall => ?_⟩
    rw [hall p hp] at hno
    cases hno

end Chat

/-! ## Claude -/

section Claude

/-- The positions whose images are collected. -/
def ClaudeMessage.found (lib : RequestLibrary Value) (i : Nat) (msg : ClaudeMessage Value) :
    List BlockPosition :=
  ((enumerate msg.blocks).flatMap fun p => p.2.images lib i p.1).map (·.origin)

/-- The positions that get a place. -/
def ClaudeMessage.shown (lib : RequestLibrary Value) (i : Nat) (msg : ClaudeMessage Value) :
    List BlockPosition :=
  if msg.blocks.any (·.isTool) then []
  else if msg.found lib i = [] then []
  else positions i (·.2.isImage) msg.blocks

variable {position : BlockPosition}

variable {image : RequestImage}

theorem handleImageBlock_origin {source : ClaudeImageSource}
    (h : image ∈ handleImageBlock lib position source) :
    image.origin = position := by
  unfold handleImageBlock at h
  split at h <;>
  · obtain ⟨data, -, rfl⟩ := Option.map_eq_some_iff.mp h
    rfl

variable {block : ClaudeInputContentBlock Value}

theorem ClaudeInputContentBlock.message_of_mem_images {i j : Nat}
    (h : image ∈ block.images lib i j) : image.origin.message = i := by
  unfold images at h
  split at h
  · rw [handleImageBlock_origin (Option.mem_toList.mp h)]
  · obtain ⟨p, -, hp⟩ := List.mem_flatMap.mp h
    split at hp
    · cases hp
    · rw [handleImageBlock_origin (Option.mem_toList.mp hp)]
  · cases h

/-- Where no tool is concerned, a block has the image of its own position or none. -/
theorem ClaudeInputContentBlock.origin_images (i j : Nat)
    (htool : block.isTool = false) :
    (block.images lib i j).map (·.origin)
      = if (block.images lib i j).isEmpty then [] else [⟨i, j, none⟩] := by
  cases block with
  | image source =>
      have himages : (ClaudeInputContentBlock.image source).images lib i j
          = (handleImageBlock lib ⟨i, j, none⟩ source).toList := rfl
      rw [himages]
      cases hread : handleImageBlock lib ⟨i, j, none⟩ source with
      | none => rfl
      | some read =>
          rw [Option.toList_some, List.map_singleton, handleImageBlock_origin hread]
          rfl
  | toolResult result => cases htool
  | _ => rfl

variable {msg : ClaudeMessage Value}

/-- Without tools, the images are those of the image blocks that are read. -/
theorem ClaudeMessage.found_eq (i : Nat)
    (htool : msg.blocks.any (·.isTool) = false) :
    msg.found lib i = positions i (fun p => !(p.2.images lib i p.1).isEmpty) msg.blocks := by
  have hall : ∀ p ∈ enumerate msg.blocks, p.2.isTool = false := fun p hp => by
    simpa using List.any_eq_false.mp htool p.2 (List.mem_of_getElem? (mem_enumerate.1 hp))
  unfold found positions
  generalize enumerate msg.blocks = l at hall
  induction l with
  | nil => rfl
  | cons p l ih =>
      rw [List.flatMap_cons, List.map_append, ih fun q hq => hall q (List.mem_cons_of_mem _ hq),
        ClaudeInputContentBlock.origin_images i p.1 (hall p List.mem_cons_self),
        List.filter_cons]
      cases (p.2.images lib i p.1).isEmpty <;> rfl

theorem ClaudeInputContentBlock.isTool_iff (lib : RequestLibrary Value)
    (block : ClaudeInputContentBlock Value) :
    block.isTool = ((block.toolCall? lib).isSome || block.toolResult?.isSome) := by
  cases block <;> rfl

theorem any_isTool_iff (lib : RequestLibrary Value)
    (blocks : List (ClaudeInputContentBlock Value)) :
    blocks.any (·.isTool) = (!(blocks.filterMap (·.toolCall? lib)).isEmpty
      || !(blocks.filterMap (·.toolResult?)).isEmpty) := by
  induction blocks with
  | nil => rfl
  | cons block blocks ih =>
      rw [List.any_cons, ih, block.isTool_iff lib, List.filterMap_cons,
        List.filterMap_cons]
      cases block.toolCall? lib <;> cases block.toolResult? <;> simp

theorem places_claudeMultimodal (i : Nat) (blocks : List (ClaudeInputContentBlock Value)) :
    ((enumerate blocks).filterMap fun p => p.2.multimodal? i p.1).filterMap (·.place?)
      = (positions i (·.2.isImage) blocks).map some := by
  unfold positions
  induction enumerate blocks with
  | nil => rfl
  | cons p l ih =>
      obtain ⟨j, block⟩ := p
      cases block with
      | image source => exact congrArg (some ⟨i, j, none⟩ :: ·) ih
      | _ => exact ih

/-- Only the messages of neither a call nor a result have places. -/
theorem places_claudeTemplateMessages (i : Nat) (msg : ClaudeMessage Value)
    {blocks : List (ClaudeInputContentBlock Value)} (hblocks : msg.blocks = blocks) :
    places (claudeTemplateMessages lib i msg.role blocks) = (msg.shown lib i).map some := by
  subst hblocks
  have htools := any_isTool_iff lib msg.blocks
  unfold claudeTemplateMessages ClaudeMessage.shown
  dsimp only
  rw [htools]
  cases (msg.blocks.filterMap (·.toolCall? lib)).isEmpty with
  | false => rfl
  | true =>
      cases hresults : (msg.blocks.filterMap (·.toolResult?)).isEmpty with
      | false =>
          simp only [Bool.not_true, Bool.not_false, Bool.false_or, not_true, if_false, if_true,
            Bool.false_eq_true, not_false_eq_true]
          induction msg.blocks.filterMap (·.toolResult?) with
          | nil => rfl
          | cons tr trs ih => exact ih
      | true =>
          have hfound : msg.found lib i = []
              ↔ ((enumerate msg.blocks).flatMap fun p => p.2.images lib i p.1).isEmpty := by
            rw [ClaudeMessage.found, List.map_eq_nil_iff, List.isEmpty_iff]
          simp only [hfound, Bool.not_true, Bool.or_self, not_true, if_false, Bool.false_eq_true]
          cases ((enumerate msg.blocks).flatMap fun p => p.2.images lib i p.1).isEmpty with
          | true => rfl
          | false =>
              simp only [Bool.false_eq_true, not_false_eq_true, if_true, if_false]
              rw [places, List.flatMap_singleton]
              exact places_claudeMultimodal i msg.blocks

theorem ClaudeMessage.adds_convert (lib : RequestLibrary Value) (s : Conversion Value) (i : Nat)
    (msg : ClaudeMessage Value) :
    Adds s (msg.convert lib s i) (msg.found lib i) ((msg.shown lib i).map some) := by
  cases hcontent : msg.content with
  | text t =>
      have hblocks : msg.blocks = [] := by rw [blocks, hcontent]
      have hshown : msg.shown lib i = [] := by
        rw [shown, found, hblocks]
        rfl
      rw [hshown, found, hblocks, convert, hcontent]
      exact adds_of_eq (List.append_nil _).symm rfl rfl rfl
  | blocks bs =>
      have hblocks : msg.blocks = bs := by rw [ClaudeMessage.blocks, hcontent]
      rw [← places_claudeTemplateMessages i msg hblocks, found, hblocks, convert, hcontent]
      exact adds_of_eq rfl rfl rfl rfl

theorem ClaudeMessage.shown_eq_found_iff (i : Nat) (msg : ClaudeMessage Value) :
    msg.shown lib i = msg.found lib i ↔ msg.ImagesInPlace lib i := by
  unfold shown ImagesInPlace
  cases htool : msg.blocks.any (·.isTool) with
  | true =>
      have hnone : msg.found lib i = []
          ↔ ∀ p ∈ enumerate msg.blocks, p.2.images lib i p.1 = [] := by
        rw [found, List.map_eq_nil_iff, List.flatMap_eq_nil_iff]
      rw [if_pos rfl, eq_comm, hnone]
      refine ⟨fun h => ⟨fun _ => h, fun ⟨p, hp, hread⟩ => ?_⟩, fun h => h.1 ?_⟩
      · simp [h p hp] at hread
      · exact List.any_eq_true.mp htool
  | false =>
      rw [if_neg nofun, found_eq i htool]
      refine (shown_eq_found fun p hp hread => ?_).trans
        ⟨fun h => ⟨fun ⟨block, hblock, hb⟩ => ?_, h⟩, fun h => h.2⟩
      · have hno := List.any_eq_false.mp htool p.2 (List.mem_of_getElem? (mem_enumerate.1 hp))
        cases hblock : p.2 with
        | image source => rfl
        | toolResult result =>
            rw [hblock] at hno
            exact absurd rfl hno
        | _ =>
            rw [hblock] at hread
            cases hread
      · exact absurd hb (List.any_eq_false.mp htool block hblock)

theorem ClaudeMessage.message_of_mem_found {i : Nat}
    (h : position ∈ msg.found lib i) : position.message = i := by
  obtain ⟨image, himage, rfl⟩ := List.mem_map.mp h
  obtain ⟨p, -, hp⟩ := List.mem_flatMap.mp himage
  exact ClaudeInputContentBlock.message_of_mem_images hp

theorem ClaudeMessage.message_of_mem_shown {i : Nat}
    (h : position ∈ msg.shown lib i) : position.message = i := by
  unfold shown at h
  split at h
  · cases h
  · split at h
    · cases h
    · exact message_of_mem_positions h

theorem ClaudeMessagesRequest.isAligned_iff (request : ClaudeMessagesRequest Value) :
    AlignedImages (.ok (claudeRequestToTextGeneration lib request))
      ↔ ∀ p ∈ enumerate request.messages, p.2.ImagesInPlace lib p.1 := by
  have hsystem : Adds ({} : Conversion Value) {
      instructions := request.systemText
      chatTemplateMessages := (request.systemText.map fun text =>
        { role := .system, content := .text text }).toList } [] [] := by
    cases request.systemText <;> exact ⟨rfl, rfl⟩
  have hadds := hsystem.append (adds_foldl id (f := fun s p => p.2.convert lib s p.1)
    (fun s p => p.2.adds_convert lib s p.1) _ (enumerate request.messages))
  refine (aligned_params_iff hadds).trans ((flatMap_inj_of_tags BlockPosition.message
      (nodup_fst_enumerate _)
    (fun p _ b hb => ClaudeMessage.message_of_mem_shown hb)
    (fun p _ b hb => ClaudeMessage.message_of_mem_found hb)).trans ?_)
  simp only [ClaudeMessage.shown_eq_found_iff]

end Claude

/-! ## Ollama -/

section Ollama

/-- The positions of all images. -/
def OllamaMessage.found (i : Nat) (msg : OllamaMessage Value) : List BlockPosition :=
  positions i (fun _ => true) (msg.images.getD [])

/-- The positions that get a place. -/
def OllamaMessage.shown (i : Nat) (msg : OllamaMessage Value) : List BlockPosition :=
  if msg.role = .system then [] else msg.found i

theorem OllamaMessage.origin_readImages (i : Nat) (msg : OllamaMessage Value) :
    (msg.readImages i).map (·.origin) = msg.found i := by
  simp [readImages, found, positions, Function.comp_def]

theorem OllamaMessage.places_multimodal (i : Nat) (msg : OllamaMessage Value) :
    (msg.multimodal i).filterMap (·.place?) = (msg.found i).map some := by
  have htext : ∀ content : String,
      (if content = "" then [] else [ContentPart.text content]).filterMap (·.place?) = [] := by
    intro content
    split <;> rfl
  rw [multimodal, List.filterMap_append, htext, List.append_nil]
  simp [found, positions, Function.comp_def, ContentPart.place?]

theorem OllamaMessage.adds_convert (lib : RequestLibrary Value) (s : OllamaConversion Value)
    (i : Nat) (msg : OllamaMessage Value) :
    Adds s.toConversion (msg.convert lib s i).toConversion (msg.found i)
      ((msg.shown i).map some) := by
  unfold OllamaMessage.convert shown
  dsimp only
  by_cases hsystem : msg.role = .system
  · rw [if_pos hsystem, if_pos hsystem]
    exact adds_of_eq rfl rfl (msg.origin_readImages i) rfl
  · rw [if_neg hsystem, if_neg hsystem]
    split
    · refine adds_of_eq rfl rfl (msg.origin_readImages i) ?_
      rw [places, List.flatMap_singleton]
      exact msg.places_multimodal i
    · rename_i hnone
      refine adds_of_eq rfl rfl (msg.origin_readImages i) ?_
      have himages : msg.readImages i = [] := by simpa using hnone
      have hempty : msg.found i = [] := by
        rw [← msg.origin_readImages i, himages]
        rfl
      rw [hempty]
      rfl

theorem OllamaMessage.shown_eq_found_iff (i : Nat) (msg : OllamaMessage Value) :
    msg.shown i = msg.found i ↔ msg.ImagesInPlace := by
  unfold shown ImagesInPlace
  by_cases hsystem : msg.role = .system
  · rw [if_pos hsystem, eq_comm, found, positions_eq_nil]
    cases msg.images.getD [] with
    | nil => exact iff_of_true nofun fun _ => rfl
    | cons data images =>
        refine iff_of_false (fun h => ?_) fun h => nomatch h hsystem
        cases h (0, data) (mem_enumerate.2 rfl)
  · rw [if_neg hsystem]
    exact iff_of_true rfl fun hs => absurd hs hsystem

theorem OllamaMessage.message_of_mem_found {i : Nat} {msg : OllamaMessage Value}
    {position : BlockPosition} (h : position ∈ msg.found i) : position.message = i :=
  message_of_mem_positions h

theorem OllamaMessage.message_of_mem_shown {i : Nat} {msg : OllamaMessage Value}
    {position : BlockPosition} (h : position ∈ msg.shown i) : position.message = i := by
  unfold shown at h
  split at h
  · cases h
  · exact message_of_mem_found h

theorem OllamaChatRequest.isAligned_iff (request : OllamaChatRequest Value) :
    AlignedImages (.ok (ollamaRequestToTextGeneration lib request))
      ↔ ∀ msg ∈ request.messages, msg.ImagesInPlace := by
  have hadds := adds_foldl OllamaConversion.toConversion (f := fun s p => p.2.convert lib s p.1)
    (fun s p => p.2.adds_convert lib s p.1) {} (enumerate request.messages)
  refine (aligned_params_iff hadds).trans ((flatMap_inj_of_tags BlockPosition.message
      (nodup_fst_enumerate _)
    (fun p _ b hb => OllamaMessage.message_of_mem_shown hb)
    (fun p _ b hb => OllamaMessage.message_of_mem_found hb)).trans ?_)
  simp only [OllamaMessage.shown_eq_found_iff]
  exact forall_mem_enumerate

end Ollama

/-! ## Responses -/

section Responses

theorem joinEntries_cases (separator : String) (entries : List EntryText) :
    (.other ∉ entries ∧ joinEntries separator entries = .ok (joinD separator entries))
      ∨ .other ∈ entries ∧ joinEntries separator entries = .error .type := by
  suffices h : (.other ∉ entries ∧ entries.mapM (·.string) = .ok (entries.map (·.textD)))
      ∨ .other ∈ entries ∧ entries.mapM (·.string) = .error .type by
    unfold joinEntries
    rcases h with ⟨hno, hread⟩ | ⟨hother, hread⟩
    · exact .inl ⟨hno, by rw [hread]; rfl⟩
    · exact .inr ⟨hother, by rw [hread]; rfl⟩
  induction entries with
  | nil => exact .inl ⟨List.not_mem_nil, rfl⟩
  | cons entry entries ih =>
      rw [List.mapM_cons]
      cases entry with
      | other => exact .inr ⟨List.mem_cons_self, rfl⟩
      | _ =>
          rcases ih with ⟨hno, hread⟩ | ⟨hother, hread⟩
          · exact .inl ⟨by simpa using hno, by rw [hread]; rfl⟩
          · exact .inr ⟨List.mem_cons_of_mem _ hother, by rw [hread]; rfl⟩

theorem reasoningText_cases (content summary : Option (List EntryText)) :
    (.other ∉ reasoningEntries content summary
        ∧ reasoningText content summary = .ok (joinD "" (reasoningEntries content summary)))
      ∨ .other ∈ reasoningEntries content summary
        ∧ reasoningText content summary = .error .type := by
  unfold reasoningText reasoningEntries
  split
  · exact joinEntries_cases _ _
  · split
    · exact joinEntries_cases _ _
    · rename_i hnone
      have hempty : summary.getD [] = [] := by
        cases summary with
        | none => rfl
        | some entries => simpa using hnone
      rw [hempty]
      exact .inl ⟨List.not_mem_nil, rfl⟩

theorem places_appendToolCall (messages : List (TemplateMessage Value))
    (toolCall : TemplateToolCall) :
    places (appendToolCall messages toolCall) = places messages := by
  have happended : ∀ prev : TemplateMessage Value, prev.content = .text "" →
      places (messages ++ [prev]) = places messages := by
    intro prev hprev
    simp [places, hprev, TemplateContent.places]
  unfold appendToolCall
  dsimp only
  split
  · exact happended _ rfl
  · rename_i prev hprev
    split
    · rename_i hrole hcontent
      have hsplit : messages = messages.dropLast ++ [prev] :=
        (List.dropLast_append_getLast? prev hprev).symm
      conv => rhs; rw [hsplit]
      rw [places_append, places_append]
      rfl
    · exact happended _ rfl

theorem appendToolCall_ne_nil (messages : List (TemplateMessage Value))
    (toolCall : TemplateToolCall) : appendToolCall messages toolCall ≠ [] := by
  unfold appendToolCall
  dsimp only
  split
  · simp
  · split <;> simp

theorem ResponseContent.readImages_cases (lib : RequestLibrary Value) (i : Nat)
    (content : ResponseContent) :
    ((enumerate content.partList).all (fun p => answers lib ⟨i, p.1, none⟩ p.2.url) = true
        ∧ ∃ images, content.readImages lib i = .ok images
          ∧ images.map (·.origin) = positions i (·.2.url ≠ "") content.partList)
      ∨ (enumerate content.partList).all (fun p => answers lib ⟨i, p.1, none⟩ p.2.url) = false
        ∧ ∃ url, content.readImages lib i = .error (.fetch url) := by
  cases content with
  | text t => exact .inl ⟨rfl, [], rfl, rfl⟩
  | parts ps =>
      have hpart : ∀ (j : Nat) (part : ResponseContentPart),
          part.readImages lib i j = readImageUrl lib ⟨i, j, none⟩ part.url := by
        intro j part
        cases part with
        | inputImage imageUrl => rfl
        | _ => exact (readImageUrl_empty lib _).symm
      have hread : ResponseContent.readImages lib i (.parts ps) = do
          let found ← (enumerate ps).mapM fun p => readImageUrl lib ⟨i, p.1, none⟩ p.2.url
          return found.flatten := by
        simp only [ResponseContent.readImages, hpart]
      rcases readUrls_cases lib i ResponseContentPart.url (enumerate ps) with
        ⟨hall, found, hfound, horigins⟩ | ⟨⟨p, hp, hno⟩, failed, hfailed⟩
      · exact .inl ⟨List.all_eq_true.mpr hall, found.flatten, by rw [hread, hfound]; rfl, horigins⟩
      · exact .inr ⟨List.all_eq_false.mpr ⟨p, hp, by simp [hno]⟩, failed,
          by rw [hread, hfailed]; rfl⟩

/-- The positions whose images are collected. -/
def ResponseInputItem.found (i : Nat) : ResponseInputItem Value → List BlockPosition
  | .message _ content => positions i (·.2.url ≠ "") content.partList
  | _ => []

/-- The positions that get a place, when images of an item before may still want theirs. -/
def ResponseInputItem.shown (carried : Bool) (i : Nat) :
    ResponseInputItem Value → List BlockPosition
  | .message role content =>
      if role = .system then []
      else if carried = false ∧ positions i (·.2.url ≠ "") content.partList = [] then []
      else positions i (·.2.isImage) content.partList
  | _ => []

/-- Whether images still want their places after the item. -/
def ResponseInputItem.carries (carried : Bool) (i : Nat) : ResponseInputItem Value → Bool
  | .message role content =>
      if role = .system then
        carried || !(positions i (·.2.url ≠ "") content.partList).isEmpty
      else false
  | _ => carried

/-- What an item does, if it can be read. -/
structure ResponsesConversion.Goes (s s' : ResponsesConversion Value) (i : Nat)
    (item : ResponseInputItem Value) : Prop where
  adds : Adds s.toConversion s'.toConversion (item.found i)
    ((item.shown s.hasImages i).map some)
  carries : s'.hasImages = item.carries s.hasImages i
  speaks : s'.chatTemplateMessages = [] ↔ s.chatTemplateMessages = [] ∧ item.speaks = false

theorem ResponsesConversion.places_multimodal (i : Nat) (content : ResponseContent) :
    (content.multimodal i).filterMap (·.place?)
      = (positions i (·.2.isImage) content.partList).map some := by
  cases content with
  | text t => rfl
  | parts ps =>
      unfold ResponseContent.multimodal ResponseContent.partList positions
      dsimp only
      induction enumerate ps with
      | nil => rfl
      | cons p l ih =>
          obtain ⟨j, part⟩ := p
          cases part with
          | inputImage imageUrl => exact congrArg (some ⟨i, j, none⟩ :: ·) ih
          | _ => exact ih

theorem ResponsesConversion.goes_addMessage (s : ResponsesConversion Value) (i : Nat)
    (role : ResponseRole) (content : ResponseContent)
    (horigin : images.map (·.origin) = positions i (·.2.url ≠ "") content.partList) :
    s.Goes (s.addMessage i role content images) i (.message role content) := by
  have hempty : images.isEmpty = (positions i (·.2.url ≠ "") content.partList).isEmpty := by
    rw [← horigin, List.isEmpty_map]
  have hspeaks : ∀ message : TemplateMessage Value, s.chatTemplateMessages ++ [message] = []
      ↔ s.chatTemplateMessages = []
        ∧ (ResponseInputItem.message role content : ResponseInputItem Value).speaks = false := by
    intro message
    simp [ResponseInputItem.speaks]
  let item : ResponseInputItem Value := .message role content
  by_cases hsystem : role = .system
  · have hadd : s.addMessage i role content images = _ := if_pos hsystem
    have hshown : item.shown s.hasImages i = [] := if_pos hsystem
    have hcarries : item.carries s.hasImages i = (s.hasImages || !images.isEmpty) :=
      (if_pos hsystem).trans (by rw [hempty])
    rw [hadd]
    refine ⟨?_, hcarries.symm, hspeaks _⟩
    rw [hshown]
    exact adds_of_eq rfl rfl horigin rfl
  · have hadd : s.addMessage i role content images = _ := if_neg hsystem
    have hcarries : item.carries s.hasImages i = false := if_neg hsystem
    rw [hadd]
    cases hwanted : s.hasImages || !images.isEmpty with
    | true =>
        have hsome : ¬ (s.hasImages = false
            ∧ positions i (·.2.url ≠ "") content.partList = []) := by
          rintro ⟨hno, hnil⟩
          rw [hempty, hnil, hno] at hwanted
          cases hwanted
        have hshown : item.shown s.hasImages i = positions i (·.2.isImage) content.partList :=
          (if_neg hsystem).trans (if_neg hsome)
        rw [if_pos rfl]
        refine ⟨?_, hcarries.symm, hspeaks _⟩
        rw [hshown]
        refine adds_of_eq rfl rfl horigin ?_
        rw [places, List.flatMap_singleton]
        exact places_multimodal i content
    | false =>
        obtain ⟨hno, hnil⟩ := Bool.or_eq_false_iff.mp hwanted
        have hnil : positions i (·.2.url ≠ "") content.partList = [] := by
          rw [hempty] at hnil
          simpa using hnil
        have hshown : item.shown s.hasImages i = [] :=
          (if_neg hsystem).trans (if_pos ⟨hno, hnil⟩)
        rw [if_neg nofun]
        refine ⟨?_, hcarries.symm, hspeaks _⟩
        rw [hshown]
        exact adds_of_eq rfl rfl horigin rfl

def ResponseInputItem.isMessage : ResponseInputItem Value → Bool
  | .message .. => true
  | _ => false

variable {item : ResponseInputItem Value}

/-- Items that are no messages have neither images nor places. -/
theorem ResponsesConversion.goes_of_eq {s s' : ResponsesConversion Value} {i : Nat}
    (hitem : item.isMessage = false)
    (himages : s'.images = s.images)
    (hplaces : places s'.chatTemplateMessages = places s.chatTemplateMessages)
    (hflag : s'.hasImages = s.hasImages)
    (hspeaks : s'.chatTemplateMessages = [] ↔ s.chatTemplateMessages = [] ∧ item.speaks = false) :
    s.Goes s' i item := by
  have hnone : item.found i = [] ∧ item.shown s.hasImages i = []
      ∧ item.carries s.hasImages i = s.hasImages := by
    cases item with
    | message => cases hitem
    | _ => exact ⟨rfl, rfl, rfl⟩
  obtain ⟨hfound, hshown, hcarries⟩ := hnone
  refine ⟨?_, hflag.trans hcarries.symm, hspeaks⟩
  rw [hfound, hshown]
  exact ⟨by rw [himages, List.append_nil], by rw [hplaces, List.map_nil, List.append_nil]⟩

theorem ResponsesConversion.goes_call (s : ResponsesConversion Value) (i : Nat)
    (hitem : item.isMessage = false)
    (hspeaks : item.speaks = true) (id name arguments : String) :
    s.Goes (s.call id name arguments) i item := by
  refine goes_of_eq hitem rfl (places_appendToolCall _ _) rfl ?_
  rw [hspeaks]
  exact iff_of_false (appendToolCall_ne_nil _ _) nofun

theorem ResponsesConversion.goes_say (s : ResponsesConversion Value) (i : Nat)
    (hitem : item.isMessage = false)
    (hspeaks : item.speaks = true) {message : TemplateMessage Value} {text : String}
    (htext : message.content = .text text) : s.Goes (s.say message) i item := by
  refine goes_of_eq hitem rfl ?_ rfl ?_
  · rw [ResponsesConversion.say, places_append, places, places, List.flatMap_singleton, htext]
    exact List.append_nil _
  · rw [hspeaks]
    exact iff_of_false (by simp [ResponsesConversion.say]) nofun

/-- An item that says nothing. -/
theorem ResponsesConversion.goes_self (s : ResponsesConversion Value) (i : Nat)
    (hitem : item.isMessage = false)
    (hspeaks : item.speaks = false) : s.Goes s i item :=
  goes_of_eq hitem rfl rfl rfl (by rw [hspeaks]; simp)

/-- An item that says what it has, when that is not empty. -/
theorem ResponsesConversion.goes_text (s : ResponsesConversion Value) (i : Nat)
    (hitem : item.isMessage = false) {said text : String} {message : TemplateMessage Value}
    (hspeaks : item.speaks = decide (said ≠ "")) (htext : message.content = .text text) :
    s.Goes (if said = "" then s else s.say message) i item := by
  split
  · rename_i hempty
    exact s.goes_self i hitem (by simp [hspeaks, hempty])
  · rename_i hsome
    exact s.goes_say i hitem (by simp [hspeaks, hsome]) htext

/-- What an item does. -/
theorem ResponsesConversion.item_cases (lib : RequestLibrary Value)
    (s : ResponsesConversion Value) (i : Nat) (item : ResponseInputItem Value) :
    (item.readable lib i = true ∧ ∃ s', s.item lib i item = .ok s' ∧ s.Goes s' i item)
      ∨ item.readable lib i = false ∧ ∃ e, s.item lib i item = .error e ∧ e ≠ .assertion := by
  cases item with
  | message role content =>
      rcases content.readImages_cases lib i with
        ⟨hall, images, hread, horigin⟩ | ⟨hno, url, hread⟩
      · refine .inl ⟨hall, _, ?_, s.goes_addMessage i role content horigin⟩
        rw [ResponsesConversion.item, ResponsesConversion.message, hread]
        rfl
      · refine .inr ⟨hno, .fetch url, ?_, nofun⟩
        rw [ResponsesConversion.item, ResponsesConversion.message, hread]
        rfl
  | reasoning content summary =>
      rcases reasoningText_cases content summary with ⟨hno, hread⟩ | ⟨hother, hread⟩
      · refine .inl ⟨by simpa [ResponseInputItem.readable] using hno, _,
          by rw [ResponsesConversion.item, hread]; rfl, s.goes_text i rfl rfl rfl⟩
      · refine .inr ⟨by simpa [ResponseInputItem.readable] using hother, .type, ?_, nofun⟩
        rw [ResponsesConversion.item, hread]
        rfl
  | mcpListTools serverLabel names =>
      rcases joinEntries_cases ", " names with ⟨hno, hread⟩ | ⟨hother, hread⟩
      · refine .inl ⟨by simpa [ResponseInputItem.readable] using hno, _,
          by rw [ResponsesConversion.item, hread]; rfl, s.goes_text i rfl rfl rfl⟩
      · refine .inr ⟨by simpa [ResponseInputItem.readable] using hother, .type, ?_, nofun⟩
        rw [ResponsesConversion.item, hread]
        rfl
  | compaction summary => exact .inl ⟨rfl, _, rfl, s.goes_text i rfl rfl rfl⟩
  | itemReference => exact .inl ⟨rfl, s, rfl, s.goes_self i rfl rfl⟩
  | computerCallOutput callId output =>
      cases output <;> exact .inl ⟨rfl, _, rfl, s.goes_say i rfl rfl rfl⟩
  | functionCallOutput | localShellCallOutput | shellCallOutput | applyPatchCallOutput
  | customToolCallOutput | toolSearchOutput | mcpApprovalResponse =>
      exact .inl ⟨rfl, _, rfl, s.goes_say i rfl rfl rfl⟩
  | _ => exact .inl ⟨rfl, _, rfl, s.goes_call i rfl rfl _ _ _⟩

/-- The positions that get places, one item after the other. -/
def shownFrom (carried : Bool) : List (Nat × ResponseInputItem Value) → List BlockPosition
  | [] => []
  | p :: l => p.2.shown carried p.1 ++ shownFrom (p.2.carries carried p.1) l

variable {position : BlockPosition}

theorem ResponseInputItem.message_of_mem_found {i : Nat}
    (h : position ∈ item.found i) : position.message = i := by
  cases item with
  | message role content => exact message_of_mem_positions h
  | _ => cases h

theorem ResponseInputItem.message_of_mem_shown {carried : Bool} {i : Nat}
    (h : position ∈ item.shown carried i) : position.message = i := by
  cases item with
  | message role content =>
      unfold shown at h
      dsimp only at h
      by_cases hsystem : role = .system
      · rw [if_pos hsystem] at h
        cases h
      · rw [if_neg hsystem] at h
        split at h
        · cases h
        · exact message_of_mem_positions h
  | _ => cases h

variable {l : List (Nat × ResponseInputItem Value)}

theorem message_of_mem_shownFrom {carried : Bool}
    (h : position ∈ shownFrom carried l) :
    position.message ∈ l.map Prod.fst := by
  induction l generalizing carried with
  | nil => cases h
  | cons p l ih =>
      rcases List.mem_append.mp h with h | h
      · rw [ResponseInputItem.message_of_mem_shown h]
        exact List.mem_cons_self
      · exact List.mem_cons_of_mem _ (ih h)

/-- When no image is carried, an item shows what it should or carries one to the next. -/
theorem ResponseInputItem.shown_eq_found_iff (i : Nat) (item : ResponseInputItem Value) :
    item.shown false i = item.found i
      ↔ item.ImagesInPlace := by
  cases item with
  | message role content =>
      unfold shown found ImagesInPlace
      dsimp only
      by_cases hsystem : role = .system
      · rw [if_pos hsystem]
        exact nil_eq_positions_iff hsystem
      · simp only [if_neg hsystem, true_and]
        refine (shown_eq_found fun p _ hurl => ?_).trans
          ⟨fun h => ⟨fun hs => absurd hs hsystem, h⟩, fun h => h.2⟩
        cases hpart : p.2 with
        | inputImage url => rfl
        | _ => simp [ResponseContentPart.url, hpart] at hurl
  | _ => exact iff_of_true rfl trivial

/-- An item in place carries no image to the next. -/
theorem ResponseInputItem.carries_of_shown {i : Nat}
    (h : item.shown false i = item.found i) : item.carries false i = false := by
  cases item with
  | message role content =>
      by_cases hsystem : role = .system
      · have hshown : ([] : List BlockPosition) = positions i (·.2.url ≠ "") content.partList :=
          (if_pos hsystem).symm.trans h
        exact (if_pos hsystem).trans (by rw [← hshown]; rfl)
      · exact if_neg hsystem
  | _ => rfl

theorem shownFrom_eq_found_iff
    (hl : (l.map Prod.fst).Nodup) :
    shownFrom false l = (l.flatMap fun p => p.2.found p.1) ↔ ∀ p ∈ l, p.2.ImagesInPlace := by
  induction l with
  | nil => exact iff_of_true rfl nofun
  | cons p l ih =>
      rw [List.map_cons, List.nodup_cons] at hl
      rw [shownFrom, List.flatMap_cons, List.forall_mem_cons,
        ← ResponseInputItem.shown_eq_found_iff p.1 p.2]
      constructor
      · intro h
        -- what comes later has other numbers, so the item agrees by itself
        obtain ⟨hhead, htail⟩ := append_inj_of_tag BlockPosition.message (i := p.1)
          (fun b hb => ResponseInputItem.message_of_mem_shown hb)
          (fun b hb => ResponseInputItem.message_of_mem_found hb)
          (fun b hb htag => hl.1 (htag ▸ message_of_mem_shownFrom hb))
          (fun b hb htag => by
            obtain ⟨q, hq, hbq⟩ := List.mem_flatMap.mp hb
            rw [ResponseInputItem.message_of_mem_found hbq] at htag
            exact hl.1 (List.mem_map.mpr ⟨q, hq, htag⟩)) h
        rw [ResponseInputItem.carries_of_shown hhead] at htail
        exact ⟨hhead, (ih hl.2).mp htail⟩
      · rintro ⟨hhead, htail⟩
        rw [hhead, ResponseInputItem.carries_of_shown hhead, (ih hl.2).mpr htail]

/-- A run over items. -/
theorem responsesLoop_cases (lib : RequestLibrary Value) (s : ResponsesConversion Value)
    (l : List (Nat × ResponseInputItem Value)) :
    ((∀ p ∈ l, p.2.readable lib p.1 = true) ∧ ∃ s',
        l.foldlM (fun s p => s.item lib p.1 p.2) s = .ok s'
        ∧ Adds s.toConversion s'.toConversion (l.flatMap fun p => p.2.found p.1)
          ((shownFrom s.hasImages l).map some)
        ∧ (s'.chatTemplateMessages = []
          ↔ s.chatTemplateMessages = [] ∧ ∀ p ∈ l, p.2.speaks = false))
      ∨ (∃ p ∈ l, p.2.readable lib p.1 = false) ∧ ∃ e,
        l.foldlM (fun s p => s.item lib p.1 p.2) s = .error e ∧ e ≠ .assertion := by
  induction l generalizing s with
  | nil => exact .inl ⟨nofun, s, rfl, Adds.nil _, by simp⟩
  | cons p l ih =>
      rw [List.foldlM_cons]
      rcases s.item_cases lib p.1 p.2 with ⟨hread, t, hstep, hgoes⟩ | ⟨hno, e, hstep, he⟩
      · rw [hstep]
        rcases ih t with ⟨hall, s', hrun, hadds, hspeaks⟩ | ⟨⟨q, hq, hno⟩, e, hrun, he⟩
        · refine .inl ⟨List.forall_mem_cons.mpr ⟨hread, hall⟩, s', hrun, ?_, ?_⟩
          · rw [hgoes.carries] at hadds
            rw [List.flatMap_cons, shownFrom, List.map_append]
            exact hgoes.adds.append hadds
          · rw [hspeaks, hgoes.speaks, List.forall_mem_cons, and_assoc]
        · exact .inr ⟨⟨q, List.mem_cons_of_mem _ hq, hno⟩, e, hrun, he⟩
      · rw [hstep]
        exact .inr ⟨⟨p, List.mem_cons_self, hno⟩, e, rfl, he⟩

/-- Parts of the client's own stand for no block. -/
theorem places_asGiven (messages : List (TemplateMessage Value)) :
    places (messages.map (·.asGiven)) = [] ↔ places messages = [] := by
  unfold places
  rw [List.flatMap_eq_nil_iff, List.flatMap_eq_nil_iff, List.forall_mem_map]
  refine forall₂_congr fun message _ => ?_
  unfold TemplateMessage.asGiven
  cases message.content with
  | text t => exact Iff.rfl
  | parts ps =>
      simp only [TemplateContent.places, List.filterMap_eq_nil_iff, List.forall_mem_map]
      refine forall₂_congr fun part _ => ?_
      cases part <;> simp [ContentPart.asGiven, ContentPart.place?]

/-- An item without a message for the template has no image. -/
theorem ResponseInputItem.of_silent (h : item.speaks = false)
    (i : Nat) : item.found i = [] ∧ item.ImagesInPlace := by
  cases item with
  | message role content => cases h
  | _ => exact ⟨rfl, trivial⟩

/-- What the template is when the input made none. -/
theorem aligned_given_iff {s : Conversion Value} (himages : s.images = [])
    (htemplate : s.chatTemplateMessages = []) (given : Option (List (TemplateMessage Value))) :
    AlignedImages (.ok { s.params with
      chatTemplateMessages := s.params.chatTemplateMessages.or
        (given.map fun messages => messages.map (·.asGiven)) })
      ↔ places (given.getD []) = [] := by
  have hnone : s.params.chatTemplateMessages = none := by
    rw [Conversion.params, htemplate]
    rfl
  have hparams : s.params.images = [] := himages
  rw [AlignedImages, hnone, hparams, Option.none_or]
  cases given with
  | none => exact Iff.rfl
  | some messages => exact places_asGiven messages

/-- What the template is when the input made one. -/
theorem or_given_eq {s : Conversion Value} (htemplate : s.chatTemplateMessages ≠ [])
    (given : Option (List (TemplateMessage Value))) :
    s.params.chatTemplateMessages.or given = s.params.chatTemplateMessages := by
  rw [Conversion.params]
  cases hmessages : s.chatTemplateMessages with
  | nil => exact absurd hmessages htemplate
  | cons message messages => rfl

variable {instructions : Option String}

theorem ResponsesRequest.speaks_eq_false {is : List (ResponseInputItem Value)}
    {g : Option (List (TemplateMessage Value))} :
    (⟨.items is, instructions, g⟩ : ResponsesRequest Value).speaks = false
      ↔ instructions = none ∧ ∀ p ∈ enumerate is, p.2.speaks = false := by
  rw [ResponsesRequest.speaks, Bool.or_eq_false_iff, List.any_eq_false]
  refine and_congr (by simp) (Iff.trans ?_
    (forall_mem_enumerate (P := fun item : ResponseInputItem Value => item.speaks = false)).symm)
  simp

/-- The messages before the first item. -/
def ResponsesRequest.start (instructions : Option String) : ResponsesConversion Value where
  chatTemplateMessages := (instructions.map fun text =>
    { role := .system, content := .text text }).toList

theorem ResponsesRequest.start_eq_nil :
    (ResponsesRequest.start instructions : ResponsesConversion Value).chatTemplateMessages = []
      ↔ instructions = none := by
  cases instructions <;> simp [ResponsesRequest.start]

theorem ResponsesRequest.isAligned_iff (request : ResponsesRequest Value) :
    AlignedImages (responsesRequestToTextGeneration lib request) ↔ request.ImagesInPlace lib := by
  obtain ⟨input, instructions, given⟩ := request
  cases input with
  | text t =>
      refine (aligned_given_iff (s := { inputMessages := [⟨.user, t, some 0⟩], instructions })
        rfl rfl given).trans ⟨fun h _ => ⟨nofun, fun _ => h⟩, fun h => (h nofun).2 rfl⟩
  | items is =>
      have hs : Adds {} (ResponsesRequest.start instructions
          : ResponsesConversion Value).toConversion [] [] := by
        cases instructions <;> exact ⟨rfl, rfl⟩
      unfold responsesRequestToTextGeneration ResponsesRequest.convert
      dsimp only
      rcases responsesLoop_cases lib (ResponsesRequest.start instructions) (enumerate is) with
        ⟨hall, s', hrun, hadds, hspeaks⟩ | ⟨⟨p, hp, hno⟩, e, hrun, he⟩
      · rw [ResponsesRequest.start] at hrun
        rw [hrun]
        have hadds := hs.append hadds
        rw [List.nil_append, List.nil_append] at hadds
        rw [ResponsesRequest.start_eq_nil, ← ResponsesRequest.speaks_eq_false (g := given)]
          at hspeaks
        let s'' : Conversion Value := { s'.toConversion with instructions }
        by_cases htemplate : s'.chatTemplateMessages = []
        · -- no item says anything, and the messages are the client's
          have hsilent := (ResponsesRequest.speaks_eq_false.1 (hspeaks.mp htemplate)).2
          have hfound : ((enumerate is).flatMap fun p => p.2.found p.1) = [] :=
            List.flatMap_eq_nil_iff.mpr fun p hp =>
              (ResponseInputItem.of_silent (hsilent p hp) p.1).1
          have himages : s''.images = [] := by
            have horigins := hadds.1
            rw [hfound] at horigins
            exact List.map_eq_nil_iff.mp horigins
          refine (aligned_given_iff (s := s'') himages htemplate given).trans
            ⟨fun h _ => ⟨forall_mem_enumerate.1 fun p hp => ?_, fun _ => h⟩,
              fun h => (h hall).2 (hspeaks.mp htemplate)⟩
          exact (ResponseInputItem.of_silent (hsilent p hp) p.1).2
        · have hsame : { s''.params with
              chatTemplateMessages := s''.params.chatTemplateMessages.or
                (given.map fun messages => messages.map (·.asGiven)) } = s''.params := by
            rw [or_given_eq (s := s'') htemplate]
          refine (Iff.of_eq (congrArg (fun p => AlignedImages (.ok p)) hsame)).trans
            ((aligned_params_iff (s := s'') hadds).trans
              ((shownFrom_eq_found_iff (nodup_fst_enumerate is)).trans ?_))
          exact ⟨fun h _ => ⟨forall_mem_enumerate.1 h, fun hsilent =>
            absurd (hspeaks.mpr hsilent) htemplate⟩, fun h => forall_mem_enumerate.2 (h hall).1⟩
      · rw [ResponsesRequest.start] at hrun
        rw [hrun]
        refine iff_of_true he fun hall => ?_
        rw [hall p hp] at hno
        cases hno

end Responses

/-! ## Any of the four -/

/--
**Each image has its place exactly when every message is in place**, whatever the requests and
whatever their URLs answer.
-/
theorem ApiRequest.aligned_iff (lib : RequestLibrary Value) (request : ApiRequest Value) :
    AlignedImages (request.toTextGeneration lib) ↔ request.ImagesInPlace lib := by
  cases request with
  | chat request => exact request.isAligned_iff
  | claude request => exact request.isAligned_iff
  | responses request => exact request.isAligned_iff
  | ollama request => exact request.isAligned_iff

/-- Of two images one cannot be read: both get places, the other's is the first. -/
theorem ApiRequest.not_forall_aligned : ¬ ∀ (lib : RequestLibrary Unit)
    (request : ApiRequest Unit), AlignedImages (request.toTextGeneration lib) := by
  intro h
  let lib : RequestLibrary Unit :=
    ⟨fun _ _ => none, fun _ => "", fun _ => (), fun _ => (), fun _ => ()⟩
  let unread : ClaudeImageSource := { type := .url, url := "" }
  let read : ClaudeImageSource := { type := .base64, data := "AAAA" }
  have hplaces : places _ = List.map _ _ :=
    h lib (.claude { messages := [⟨.user, .blocks [.image unread, .image read]⟩] })
  exact absurd hplaces (by decide)

end Exo
