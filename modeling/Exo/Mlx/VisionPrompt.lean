import Exo.Lib.Machine
import Exo.Lib.Occurrences
import Exo.Lib.Text
import Exo.Mlx.MediaRegions
import Exo.Mlx.VisionPrefill

/-!
# The prompt of a vision model

`VisionProcessor.process` encodes the images, or takes their features from a cache under a hash of all
their pixels; writes every image token of the rendered template as often as its image has features;
and gives the features to the image tokens of the encoded prompt, one after the other. Media regions
are the runs of image tokens.

To say what a token stands for, characters and tokens carry a mark: the first character of the
placeholder of an image, and the tokens that come of it, are marked with the image. The code sees no
marks.
-/

namespace Exo.Vision

open Lib

/-- An image as it is decoded, with the bytes of `tobytes`. -/
structure Image where
  width : Nat
  height : Nat
  pixels : List (Fin 256)
  size : pixels.length = 3 * width * height
  deriving DecidableEq

/-- What the vision models, their tokenizers and `hashlib` do. -/
structure Pipeline (Token F : Type) where
  imageToken : Text
  imageTokenId : Token
  /-- `encode_prompt` -/
  encode : Text → List Token
  /-- How a text between special tokens is encoded. -/
  encodeText : Text → List Token
  think : Option (ThinkTokens Token)
  /-- `encode_images`: the features of each image. -/
  encodeImages : List Image → List (List F)
  sha256 : List (Fin 256) → String

variable {Token F : Type}

/-- A text without image tokens, or one image token. -/
def Pipeline.pieceTokens (v : Pipeline Token F) {α : Type} (key : α → CodePoint) :
    Piece α → List Token
  | .text chars => v.encodeText (chars.map key)
  | .occurrence _ => [v.imageTokenId]

/-- What is documented of them: the image token is a special token of its own that a tokenizer splits
off from left to right, and none of the tokens of thinking; there are features for each image, in
order. `sha256` is taken for injective. -/
structure Pipeline.Documented (v : Pipeline Token F) : Prop where
  imageToken_ne_nil : v.imageToken ≠ []
  encode : ∀ prompt, v.encode prompt
    = (piecesFrom id v.imageToken 0 [] prompt).flatMap (v.pieceTokens id)
  encodeText : ∀ t, v.imageTokenId ∉ v.encodeText t
  think : ∀ think, v.think = some think →
    v.imageTokenId ∉ think.thinkStart ∧ v.imageTokenId ∉ think.thinkEnd
  encodeImages : ∀ images, (v.encodeImages images).length = images.length
  sha256 : Function.Injective v.sha256

/-! ## The feature cache -/

/-- What is cached, with the images it was computed from. -/
structure CachedFeatures (F : Type) where
  images : List Image
  perImage : List (List F)

abbrev FeatureCache (F : Type) := Dict String (CachedFeatures F)

/-- The newest 32 are kept: the oldest are deleted while there are more. -/
def evict (cache : FeatureCache F) : FeatureCache F where
  entries := cache.entries.drop (cache.entries.length - 32)
  nodup := cache.nodup.sublist ((List.drop_sublist _ _).map _)

namespace Pipeline

variable (v : Pipeline Token F)

/-- `_image_cache_key` -/
def imageCacheKey (images : List Image) : String := v.sha256 (images.flatMap (·.pixels))

/-- The features of some images, and the cache afterwards. -/
def lookup (cache : FeatureCache F) (images : List Image) : CachedFeatures F × FeatureCache F :=
  let cacheKey := v.imageCacheKey images
  match cache.get? cacheKey with
  | some cached => (cached, (cache.erase cacheKey).set cacheKey cached)
  | none =>
    let features := ⟨images, v.encodeImages images⟩
    (features, evict (cache.set cacheKey features))

/-- One call of `process` after the other. -/
def machine : Machine (FeatureCache F) (List Image) :=
  ⟨.empty, fun cache images => some (v.lookup cache images).2⟩

end Pipeline

/-! ## The prompt -/

/-- `build_vision_prompt`, on the rendered template. -/
def buildVisionPrompt {α : Type} (key : α → CodePoint) (imageToken : Text)
    (nTokensPerImage : List Nat) (prompt : List α) : List α :=
  repeatFrom key imageToken (fun imageIdx => nTokensPerImage.getD imageIdx 1) 0 0 prompt

/-- A rendered template: a text, and for each image its placeholder and the text behind it. -/
structure Template where
  first : Text
  shown : List Text

/-- A character or a token, and the image whose placeholder it begins. -/
abbrev Marked (α : Type) := α × Option Nat

/-- Without a mark. -/
def plain {α : Type} (l : List α) : List (Marked α) := l.map fun a => (a, none)

/-- The placeholder of an image. -/
def placeholder (imageToken : Text) (image : Nat) : List (Marked CodePoint) :=
  match imageToken with
  | [] => []
  | c :: rest => (c, some image) :: plain rest

def renderFrom (imageToken : Text) : Nat → List Text → List (Marked CodePoint)
  | _, [] => []
  | image, t :: shown =>
    placeholder imageToken image ++ plain t ++ renderFrom imageToken (image + 1) shown

def Template.render (template : Template) (imageToken : Text) : List (Marked CodePoint) :=
  plain template.first ++ renderFrom imageToken 0 template.shown

/-! ## The tokens -/

/-- The loop of `fix_unmatched_think_end_tokens`; what it inserts has no mark. -/
def fixMarkedLoop [DecidableEq Token] (think : ThinkTokens Token) :
    (depth startLength endLength : Nat) → List (Marked Token) → List (Marked Token)
  | _, _, _, [] => []
  | depth, startLength, endLength, token :: tokens =>
    if think.thinkStart[startLength]? = some token.1 then
      token :: (if startLength + 1 = think.thinkStart.length
        then fixMarkedLoop think (depth + 1) 0 endLength tokens
        else fixMarkedLoop think depth (startLength + 1) endLength tokens)
    else if think.thinkEnd[endLength]? = some token.1 then
      if endLength + 1 = think.thinkEnd.length then
        if depth = 0 then
          plain think.thinkStart ++ token :: fixMarkedLoop think 0 startLength 0 tokens
        else token :: fixMarkedLoop think (depth - 1) startLength 0 tokens
      else token :: fixMarkedLoop think depth startLength (endLength + 1) tokens
    else token :: fixMarkedLoop think depth 0 0 tokens

def fixMarked [DecidableEq Token] (think : Option (ThinkTokens Token)) (tokens : List (Marked Token)) :
    List (Marked Token) :=
  match think with
  | none => tokens
  | some think => fixMarkedLoop think 0 0 0 tokens

namespace Pipeline

variable (v : Pipeline Token F)

/-- The tokens of a piece, each with the mark of the occurrence it comes from. -/
def markedPiece : Piece (Marked CodePoint) → List (Marked Token)
  | .text chars => plain (v.encodeText (chars.map Prod.fst))
  | .occurrence first => [(v.imageTokenId, first.2)]

def markedEncode (prompt : List (Marked CodePoint)) : List (Marked Token) :=
  (piecesFrom Prod.fst v.imageToken 0 [] prompt).flatMap v.markedPiece

variable [DecidableEq Token]

/-- The tokens of a template, with their marks. -/
def markedTokens (nTokensPerImage : List Nat) (template : Template) : List (Marked Token) :=
  fixMarked v.think (v.markedEncode
    (buildVisionPrompt Prod.fst v.imageToken nTokensPerImage (template.render v.imageToken)))

/-- What `process` computes from the features and the rendered template. -/
structure Result (Token : Type) where
  prompt : Text
  promptTokens : List Token
  embeddings : List (Row Token)
  mediaRegions : MediaRegions

/-- `process`, for the features it has. -/
def process (features : CachedFeatures F) (images : List Image) (rendered : Text) : Result Token :=
  let nTokensPerImage := features.perImage.map List.length
  let prompt := buildVisionPrompt id v.imageToken nTokensPerImage rendered
  let promptTokens := fixUnmatchedThinkEndTokens v.think (v.encode prompt)
  { prompt, promptTokens
    embeddings := createVisionEmbeddings promptTokens features.perImage.flatten.length v.imageTokenId
    mediaRegions := MediaRegions.findMediaRegions promptTokens
      (images.map fun image => v.sha256 image.pixels) v.imageTokenId }

end Pipeline

end Exo.Vision
