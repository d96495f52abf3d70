import Mathlib.Data.List.Basic
import Mathlib.Algebra.GroupWithZero.Nat

/-!
# The prefill wire

A prefill server answers with one header and a list of messages, each in a frame: four bytes of
length, most significant first, and the payload. The encoders and decoders of `msgspec` are a
parameter. A reader sees the bytes that arrive and then the end of the stream or an error of the
socket.
-/

namespace Exo.Disaggregated

abbrev Bytes := List UInt8

inductive DType where
  | bfloat16
  | float16
  | float32
  deriving DecidableEq

structure Header where
  requestId : String := ""
  modelId : String := ""
  numLayers : Int := 0
  dtype : DType := .bfloat16
  startPos : Int := 0
  deriving DecidableEq

structure TensorBlob where
  dtype : DType
  shape : List Int
  data : Bytes
  deriving DecidableEq

structure KVChunk where
  layerIdx : Int
  numTokens : Int
  nHeads : Int
  headDim : Int
  dtype : DType
  keys : Bytes
  values : Bytes
  deriving DecidableEq

/-- `KVChunk.shape`. -/
def KVChunk.shape (c : KVChunk) : List Int := [c.numTokens, c.nHeads, c.headDim]

inductive Message where
  | kvChunk (chunk : KVChunk)
  | arraysState (layerIdx : Int) (arrays : List TensorBlob)
  | done (totalTokens : Int)
  | error (code : Int) (message : String)
  deriving DecidableEq

/-- The encoders and decoders of `msgspec`. -/
structure Codec where
  encodeHeader : Header → Bytes
  decodeHeader : Bytes → Option Header
  encodeMessage : Message → Bytes
  decodeMessage : Bytes → Option Message

/-- What is still to be read, and how the reading ends. -/
structure Stream where
  bytes : Bytes
  /-- The error of the socket after the last byte; there is none at the end of the stream. -/
  failure : Option String := none
  deriving DecidableEq

/-- `_read_exactly`. -/
def readExactly (s : Stream) (n : Nat) : Except String (Bytes × Stream) :=
  if n ≤ s.bytes.length then .ok (s.bytes.take n, { s with bytes := s.bytes.drop n })
  else match s.failure with
    | some e => .error e
    | none =>
      if s.bytes.isEmpty then .ok ([], s)
      else .error ("Connection closed after " ++ toString s.bytes.length ++ "/" ++ toString n
        ++ " bytes")

/-- `int.from_bytes(raw, "big")`. -/
def fromBytes (raw : Bytes) : Nat := raw.foldl (fun n b => n * 256 + b.toNat) 0

/-- `n.to_bytes(4, "big")`; it raises `OverflowError` when four bytes are too few. -/
def toBytes (n : Nat) : Option Bytes :=
  if n < 2 ^ 32 then
    some [UInt8.ofNat (n / 2 ^ 24), UInt8.ofNat (n / 2 ^ 16), UInt8.ofNat (n / 2 ^ 8),
      UInt8.ofNat n]
  else none

/-- `read_frame`. -/
def readFrame (s : Stream) : Except String (Bytes × Stream) :=
  (readExactly s 4).bind fun (raw, s) =>
    if raw.isEmpty then .ok ([], s) else readExactly s (fromBytes raw)

/-- `write_frame`. -/
def writeFrame (payload : Bytes) : Option Bytes :=
  (toBytes payload.length).map (· ++ payload)

/-- `read_header`. -/
def readHeader (codec : Codec) (s : Stream) : Except String (Header × Stream) :=
  (readFrame s).bind fun (payload, s) =>
    if payload.isEmpty then .error "No header received"
    else match codec.decodeHeader payload with
      | none => .error "Bad header"
      | some header => .ok (header, s)

/-- `read_message`. -/
def readMessage (codec : Codec) (s : Stream) : Except String (Option Message × Stream) :=
  (readFrame s).bind fun (payload, s) =>
    if payload.isEmpty then .ok (none, s)
    else match codec.decodeMessage payload with
      | none => .error "Bad message"
      | some msg => .ok (some msg, s)

/-! ## Frames -/

theorem fromBytes_toBytes {n : Nat} {raw : Bytes} (h : toBytes n = some raw) :
    raw.length = 4 ∧ fromBytes raw = n := by
  unfold toBytes at h
  split at h
  · rename_i hn
    obtain rfl := Option.some.inj h
    refine ⟨rfl, ?_⟩
    simp only [fromBytes, List.foldl_cons, List.foldl_nil, UInt8.toNat_ofNat']
    omega
  · cases h

theorem readExactly_append (bytes rest : Bytes) (failure : Option String) :
    readExactly ⟨bytes ++ rest, failure⟩ bytes.length = .ok (bytes, ⟨rest, failure⟩) := by
  simp [readExactly]

/-- What was written as a frame is read back, with the rest of the stream left. -/
theorem readFrame_writeFrame {payload frame : Bytes} (h : writeFrame payload = some frame)
    (rest : Bytes) (failure : Option String) :
    readFrame ⟨frame ++ rest, failure⟩ = .ok (payload, ⟨rest, failure⟩) := by
  obtain ⟨raw, hraw, rfl⟩ := Option.map_eq_some_iff.mp h
  obtain ⟨hlength, hvalue⟩ := fromBytes_toBytes hraw
  have hne : raw.isEmpty = false := by
    cases raw with
    | nil => cases hlength
    | cons b raw => rfl
  have hread := readExactly_append raw (payload ++ rest) failure
  rw [hlength] at hread
  rw [readFrame, List.append_assoc, hread]
  simp only [Except.bind, hne, Bool.false_eq_true, if_false, hvalue]
  exact readExactly_append payload rest failure

theorem length_of_readExactly {s s' : Stream} {n : Nat} {bytes : Bytes}
    (h : readExactly s n = .ok (bytes, s')) :
    s'.bytes.length + bytes.length = s.bytes.length := by
  unfold readExactly at h
  split at h
  · rename_i hn
    obtain ⟨rfl, rfl⟩ := Prod.mk.inj (Except.ok.inj h)
    simp only [List.length_drop, List.length_take]
    omega
  · split at h
    · cases h
    · split at h
      · rename_i hempty
        obtain ⟨rfl, rfl⟩ := Prod.mk.inj (Except.ok.inj h)
        rfl
      · cases h

/-- A message takes bytes off the stream. -/
theorem readMessage_shorter {codec : Codec} {s s' : Stream} {msg : Message}
    (h : readMessage codec s = .ok (some msg, s')) : s'.bytes.length < s.bytes.length := by
  unfold readMessage readFrame at h
  cases hraw : readExactly s 4 with
  | error e => simp [hraw, Except.bind] at h
  | ok p =>
    obtain ⟨raw, s₁⟩ := p
    have h₁ := length_of_readExactly hraw
    simp only [hraw, Except.bind] at h
    split at h
    · cases h
    · rename_i bytes hframe
      split at hframe
      · -- the end of the stream is no message
        obtain rfl := Except.ok.inj hframe
        simp at h
      · rename_i hne
        have h₂ := length_of_readExactly hframe
        have hpos : 0 < raw.length := by
          cases raw with
          | nil => exact absurd rfl hne
          | cons b raw => simp
        split at h
        · cases h
        · split at h
          · cases h
          · obtain ⟨-, rfl⟩ := Prod.mk.inj (Except.ok.inj h)
            omega

end Exo.Disaggregated
