import Exo.Mlx.RemoteFailure
import Mathlib.Data.List.Induction

/-!
# The answer of a prefill server, cut off

An answer is a header, the chunks and array states of the layers, and `Done`, each in a frame of its
own. The client takes the end of the stream for the end of the answer wherever a frame could begin,
and also behind the length of a frame: there `_read_exactly` has nothing to return either. So it
never asks whether `Done` came.
-/

namespace Exo.Disaggregated

/-! ## Writing an answer -/

def writeHeader (codec : Codec) (header : Header) : Option Bytes :=
  writeFrame (codec.encodeHeader header)

def writeMessage (codec : Codec) (msg : Message) : Option Bytes :=
  writeFrame (codec.encodeMessage msg)

def writeKvChunk (codec : Codec) (chunk : KVChunk) : Option Bytes :=
  writeMessage codec (.kvChunk chunk)

def writeArraysState (codec : Codec) (layerIdx : Int) (arrays : List TensorBlob) : Option Bytes :=
  writeMessage codec (.arraysState layerIdx arrays)

def writeDone (codec : Codec) (totalTokens : Int) : Option Bytes :=
  writeMessage codec (.done totalTokens)

/-- What is written between the header and `Done`. -/
inductive Part where
  | kvChunk (chunk : KVChunk)
  | arraysState (layerIdx : Int) (arrays : List TensorBlob)
deriving DecidableEq

namespace Part

def message : Part → Message
  | kvChunk chunk => .kvChunk chunk
  | arraysState layerIdx arrays => .arraysState layerIdx arrays

def write (codec : Codec) : Part → Option Bytes
  | kvChunk chunk => writeKvChunk codec chunk
  | arraysState layerIdx arrays => writeArraysState codec layerIdx arrays

def isChunk : Part → Bool
  | kvChunk _ => true
  | arraysState .. => false

end Part

structure Answer where
  header : Header
  parts : List Part
  totalTokens : Int

def writeParts (codec : Codec) : List Part → Option Bytes
  | [] => some []
  | part :: parts =>
    (part.write codec).bind fun frame => (writeParts codec parts).map (frame ++ ·)

/-- Everything that is written for an answer. -/
def Answer.write (codec : Codec) (answer : Answer) : Option Bytes :=
  (writeHeader codec answer.header).bind fun head =>
    (writeParts codec answer.parts).bind fun bytes =>
      (writeDone codec answer.totalTokens).map fun last => head ++ (bytes ++ last)

/-- How many bytes the frames of some parts have. -/
def partsLength (codec : Codec) (parts : List Part) : Nat :=
  (parts.map fun part => 4 + (codec.encodeMessage part.message).length).sum

/-- Where the frame of part `k` begins, and that of `Done` behind the last one. -/
def Answer.frameStart (codec : Codec) (answer : Answer) (k : Nat) : Nat :=
  4 + (codec.encodeHeader answer.header).length + partsLength codec (answer.parts.take k)

/-- `msgspec` reads back what it wrote for the answer, and refuses to decode nothing. -/
structure Codec.RoundTrips (codec : Codec) (answer : Answer) : Prop where
  header : codec.decodeHeader (codec.encodeHeader answer.header) = some answer.header
  part : ∀ part ∈ answer.parts,
    codec.decodeMessage (codec.encodeMessage part.message) = some part.message
  done : codec.decodeMessage (codec.encodeMessage (.done answer.totalTokens))
    = some (.done answer.totalTokens)
  empty_header : codec.decodeHeader [] = none
  empty_message : codec.decodeMessage [] = none

/-! ## Frames -/

variable {codec : Codec}

variable {payload frame : Bytes}

theorem length_writeFrame (h : writeFrame payload = some frame) :
    frame.length = 4 + payload.length := by
  obtain ⟨raw, hraw, rfl⟩ := Option.map_eq_some_iff.mp h
  rw [List.length_append, (fromBytes_toBytes hraw).1]

variable {n : Nat}

theorem readExactly_nil (hn : 0 < n) :
    readExactly ⟨[], none⟩ n = .ok ([], ⟨[], none⟩) := by
  have hlt : ¬ n ≤ List.length ([] : Bytes) := Nat.not_le.mpr hn
  unfold readExactly
  rw [if_neg hlt]
  rfl

theorem readExactly_short {bytes : Bytes} (hne : bytes ≠ []) (h : bytes.length < n) :
    ∃ e, readExactly ⟨bytes, none⟩ n = .error e := by
  have hempty : bytes.isEmpty = false := List.isEmpty_eq_false_iff.mpr hne
  unfold readExactly
  simp only [if_neg (Nat.not_le.mpr h), hempty, Bool.false_eq_true, if_false]
  exact ⟨_, rfl⟩

theorem take_ne_nil {bytes : Bytes} (hn : 0 < n) (h : n < bytes.length) :
    bytes.take n ≠ [] := by
  rw [← List.length_pos_iff, List.length_take]
  omega

/-- Behind a length there is only a part of the payload. -/
theorem readFrame_of_length {raw bytes : Bytes} (hraw : raw.length = 4) :
    readFrame ⟨raw ++ bytes, none⟩ = readExactly ⟨bytes, none⟩ (fromBytes raw) := by
  have hread := readExactly_append raw bytes none
  have hne : raw.isEmpty = false := by
    rw [List.isEmpty_eq_false_iff, ← List.length_pos_iff]
    omega
  rw [hraw] at hread
  rw [readFrame, hread]
  simp only [Except.bind, hne, Bool.false_eq_true, if_false]

/-- A frame of which nothing is there, or only the length, is the end of the stream. -/
theorem readFrame_take_end (h : writeFrame payload = some frame)
    (hn : n < frame.length) (hend : n = 0 ∨ n = 4) :
    readFrame ⟨frame.take n, none⟩ = .ok ([], ⟨[], none⟩) := by
  rcases hend with rfl | rfl
  · rfl
  · obtain ⟨raw, hraw, rfl⟩ := Option.map_eq_some_iff.mp h
    obtain ⟨hlength, hvalue⟩ := fromBytes_toBytes hraw
    have hread := @readFrame_of_length raw [] hlength
    rw [List.append_nil] at hread
    rw [List.length_append] at hn
    rw [List.take_append_of_le_length (by omega), List.take_of_length_le (by omega), hread, hvalue]
    exact readExactly_nil (by omega)

/-- Anywhere else the cut is an error. -/
theorem readFrame_take_inside (h : writeFrame payload = some frame)
    (hn : n < frame.length) (h0 : n ≠ 0) (h4 : n ≠ 4) :
    ∃ e, readFrame ⟨frame.take n, none⟩ = .error e := by
  obtain ⟨raw, hraw, rfl⟩ := Option.map_eq_some_iff.mp h
  obtain ⟨hlength, hvalue⟩ := fromBytes_toBytes hraw
  rw [List.length_append, hlength] at hn
  rcases Nat.lt_or_ge n 4 with hlt | hge
  · rw [List.take_append_of_le_length (by omega)]
    have hshort : (raw.take n).length < 4 := by
      rw [List.length_take]
      omega
    obtain ⟨e, he⟩ := readExactly_short (take_ne_nil (by omega) (by omega)) hshort
    exact ⟨e, by rw [readFrame, he]; rfl⟩
  · have htake : (raw ++ payload).take n = raw ++ payload.take (n - 4) := by
      rw [List.take_append, hlength, List.take_of_length_le (by omega)]
    rw [htake, readFrame_of_length hlength, hvalue]
    refine readExactly_short (take_ne_nil (by omega) (by omega)) ?_
    rw [List.length_take]
    omega

/-! ## Messages -/

section Messages

variable {msg : Message} {frame : Bytes} (hempty : codec.decodeMessage [] = none)
  (hback : codec.decodeMessage (codec.encodeMessage msg) = some msg)
  (h : writeMessage codec msg = some frame)

include h in
theorem length_writeMessage : frame.length = 4 + (codec.encodeMessage msg).length :=
  length_writeFrame h

include hempty hback in
theorem length_encodeMessage_pos : 0 < (codec.encodeMessage msg).length := by
  rw [List.length_pos_iff]
  intro hnil
  rw [hnil, hempty] at hback
  cases hback

include hempty hback h in
theorem readMessage_write (rest : Bytes) (failure : Option String) :
    readMessage codec ⟨frame ++ rest, failure⟩ = .ok (some msg, ⟨rest, failure⟩) := by
  have hne : (codec.encodeMessage msg).isEmpty = false := by
    rw [List.isEmpty_eq_false_iff, ← List.length_pos_iff]
    exact length_encodeMessage_pos hempty hback
  rw [readMessage, readFrame_writeFrame h]
  simp only [Except.bind, hne, Bool.false_eq_true, if_false, hback]

include h in
theorem readMessage_take_end (hn : n < frame.length) (hend : n = 0 ∨ n = 4) :
    readMessage codec ⟨frame.take n, none⟩ = .ok (none, ⟨[], none⟩) := by
  rw [readMessage, readFrame_take_end h hn hend]
  rfl

include h in
theorem readMessage_take_inside (hn : n < frame.length) (h0 : n ≠ 0) (h4 : n ≠ 4) :
    ∃ e, readMessage codec ⟨frame.take n, none⟩ = .error e := by
  obtain ⟨e, he⟩ := readFrame_take_inside h hn h0 h4
  exact ⟨e, by rw [readMessage, he]; rfl⟩

end Messages

end Exo.Disaggregated

namespace Exo

open Lib (Dict)
open Disaggregated

/-! ## The client -/

/-- `remote_prefill_fetch`, with the exceptions of its two callbacks: that of `on_header`, and that
of the n-th call of `on_kv_chunk`. -/
def remotePrefillFetchWith (codec : Codec) (onHeader : Option String)
    (onKvChunk : Nat → Option String) (connection : Except String Stream) :
    Except String PrefillResult :=
  connection.bind fun s =>
    (readHeader codec s).bind fun (header, s) =>
      match onHeader with
      | some e => .error e
      | none => fetchLoop codec onKvChunk s 0 { header := header }

/-- What `remote_prefill` calls, whose `_on_header` only keeps the number of layers. -/
theorem remotePrefillFetch_eq (codec : Codec) (progress : Progress) (totalPromptTokens : Int)
    {s s' : Stream} {header : Header} (h : readHeader codec s = .ok (header, s')) :
    remotePrefillFetch codec progress (.ok s) totalPromptTokens
      = remotePrefillFetchWith codec none (onChunk progress header.numLayers totalPromptTokens)
        (.ok s) := by
  simp only [remotePrefillFetch, remotePrefillFetchWith, Except.bind, h]

/-- What a message changes in the result. -/
def PrefillResult.store (result : PrefillResult) : Part → PrefillResult
  | .kvChunk chunk =>
    { result with
      kvChunks := result.kvChunks.set chunk.layerIdx
        ((result.kvChunks.get? chunk.layerIdx).getD [] ++ [chunk]) }
  | .arraysState layerIdx arrays => { result with arrays := result.arrays.set layerIdx arrays }

section Loop

variable {codec : Codec} {onKvChunk : Nat → Option String} {s s' : Stream} {received : Nat}
  {result : PrefillResult}

theorem fetchLoop_error {e : String} (h : readMessage codec s = .error e) :
    fetchLoop codec onKvChunk s received result = .error e := by
  rw [fetchLoop]
  split <;> simp_all

theorem fetchLoop_end (h : readMessage codec s = .ok (none, s')) :
    fetchLoop codec onKvChunk s received result = .ok result := by
  rw [fetchLoop]
  split <;> simp_all

theorem fetchLoop_chunk {chunk : KVChunk}
    (h : readMessage codec s = .ok (some (.kvChunk chunk), s')) :
    fetchLoop codec onKvChunk s received result =
      match onKvChunk (received + 1) with
      | some e => .error e
      | none => fetchLoop codec onKvChunk s' (received + 1) (result.store (.kvChunk chunk)) := by
  rw [fetchLoop]
  split <;> simp_all
  obtain ⟨rfl, rfl⟩ := h
  rfl

theorem fetchLoop_arrays {layerIdx : Int} {arrays : List TensorBlob}
    (h : readMessage codec s = .ok (some (.arraysState layerIdx arrays), s')) :
    fetchLoop codec onKvChunk s received result =
      fetchLoop codec onKvChunk s' received (result.store (.arraysState layerIdx arrays)) := by
  rw [fetchLoop]
  split <;> simp_all
  obtain ⟨⟨rfl, rfl⟩, rfl⟩ := h
  rfl

theorem fetchLoop_done {totalTokens : Int}
    (h : readMessage codec s = .ok (some (.done totalTokens), s')) :
    fetchLoop codec onKvChunk s received result
      = .ok { result with totalTokens := totalTokens } := by
  rw [fetchLoop]
  split <;> simp_all

end Loop

/-! ## Parts -/

/-- None of the calls of `on_kv_chunk` for the chunks of `parts` raises. -/
def Quiet (onKvChunk : Nat → Option String) (received : Nat) (parts : List Part) : Prop :=
  ∀ j < parts.countP Part.isChunk, onKvChunk (received + j + 1) = none

section Parts

variable {codec : Codec} {onKvChunk : Nat → Option String} (hempty : codec.decodeMessage [] = none)

theorem quiet_nil (received : Nat) : Quiet onKvChunk received [] := fun j hj => absurd hj (by simp)

variable {parts : List Part}

theorem quiet_cons {received : Nat} {part : Part} :
    Quiet onKvChunk received (part :: parts) ↔
      (part.isChunk = true → onKvChunk (received + 1) = none) ∧
        Quiet onKvChunk (received + if part.isChunk then 1 else 0) parts := by
  cases part with
  | kvChunk chunk =>
      simp only [Quiet, List.countP_cons, Part.isChunk, if_true, true_imp_iff,
        Nat.forall_lt_succ_left, Nat.add_zero]
      refine and_congr_right' (forall_congr' fun j => imp_congr_right fun _ => ?_)
      rw [Nat.add_right_comm received 1 j, Nat.add_assoc received j 1]
  | arraysState layerIdx arrays => simp [Quiet, Part.isChunk]

include hempty in
/-- A part is stored, and its chunk reported. -/
theorem fetchLoop_part {part : Part} {frame : Bytes} (h : part.write codec = some frame)
    (hback : codec.decodeMessage (codec.encodeMessage part.message) = some part.message)
    (rest : Bytes) (received : Nat) (result : PrefillResult) :
    fetchLoop codec onKvChunk ⟨frame ++ rest, none⟩ received result =
      match if part.isChunk then onKvChunk (received + 1) else none with
      | some e => .error e
      | none => fetchLoop codec onKvChunk ⟨rest, none⟩
          (received + if part.isChunk then 1 else 0) (result.store part) := by
  cases part with
  | kvChunk chunk => exact fetchLoop_chunk (readMessage_write hempty hback h rest none)
  | arraysState layerIdx arrays =>
      exact fetchLoop_arrays (readMessage_write hempty hback h rest none)

theorem write_eq (part : Part) : part.write codec = writeMessage codec part.message := by
  cases part <;> rfl

include hempty in
/-- **An answer that is read to its end gives what was written**, unless a callback raises. -/
theorem fetchLoop_parts {bytes last : Bytes} {totalTokens : Int}
    (hlast : writeDone codec totalTokens = some last)
    (hdone : codec.decodeMessage (codec.encodeMessage (.done totalTokens))
      = some (.done totalTokens))
    (h : writeParts codec parts = some bytes)
    (hback : ∀ part ∈ parts,
      codec.decodeMessage (codec.encodeMessage part.message) = some part.message)
    (received : Nat) (result : PrefillResult) (hquiet : Quiet onKvChunk received parts) :
    fetchLoop codec onKvChunk ⟨bytes ++ last, none⟩ received result
      = .ok { parts.foldl PrefillResult.store result with totalTokens := totalTokens } := by
  induction parts generalizing bytes received result with
  | nil =>
      obtain rfl := Option.some.inj h
      have hread := readMessage_write hempty hdone hlast [] none
      rw [List.append_nil] at hread
      exact fetchLoop_done hread
  | cons part parts ih =>
      obtain ⟨frame, hframe, hrest⟩ := Option.bind_eq_some_iff.mp h
      obtain ⟨tail, htail, rfl⟩ := Option.map_eq_some_iff.mp hrest
      obtain ⟨hpart, hparts⟩ := quiet_cons.1 hquiet
      rw [List.append_assoc, fetchLoop_part hempty hframe (hback part List.mem_cons_self)]
      have hnone : (if part.isChunk then onKvChunk (received + 1) else none) = none := by
        split
        · next hc => exact hpart hc
        · rfl
      rw [hnone]
      exact ih htail (fun q hq => hback q (List.mem_cons_of_mem _ hq)) _ _ hparts

theorem partsLength_cons (part : Part) (parts : List Part) :
    partsLength codec (part :: parts)
      = 4 + (codec.encodeMessage part.message).length + partsLength codec parts := rfl

/-- How the reading ends in the frame that the cut goes through. -/
theorem fetchLoop_take {msg : Message} {frame : Bytes} (h : writeMessage codec msg = some frame)
    {n : Nat} (hn : n < frame.length) (received : Nat) (result : PrefillResult) :
    (∃ e, fetchLoop codec onKvChunk ⟨frame.take n, none⟩ received result = .error e) ↔
      ¬ (n = 0 ∨ n = 4) := by
  by_cases hend : n = 0 ∨ n = 4
  · rw [fetchLoop_end (readMessage_take_end h hn hend)]
    simp [hend]
  · obtain ⟨h0, h4⟩ := not_or.mp hend
    obtain ⟨e, he⟩ := readMessage_take_inside h hn h0 h4
    exact iff_of_true ⟨e, fetchLoop_error he⟩ hend

include hempty in
/-- **A cut is taken for the end of the answer exactly where a frame begins or its length ends**,
unless a callback raises before. -/
theorem fetchLoop_cut {bytes last : Bytes} {totalTokens : Int}
    (hlast : writeDone codec totalTokens = some last)
    (h : writeParts codec parts = some bytes)
    (hback : ∀ part ∈ parts,
      codec.decodeMessage (codec.encodeMessage part.message) = some part.message)
    (received : Nat) (result : PrefillResult) {n : Nat} (hn : n < (bytes ++ last).length) :
    (∃ e, fetchLoop codec onKvChunk ⟨(bytes ++ last).take n, none⟩ received result = .error e) ↔
      ¬ ∃ k ≤ parts.length, (n = partsLength codec (parts.take k) ∨
          n = partsLength codec (parts.take k) + 4) ∧
        Quiet onKvChunk received (parts.take k) := by
  induction parts generalizing bytes received result n with
  | nil =>
      obtain rfl := Option.some.inj h
      rw [List.nil_append] at hn ⊢
      rw [fetchLoop_take hlast hn]
      simp only [List.length_nil, Nat.le_zero, exists_eq_left, List.take_nil, partsLength,
        List.map_nil, List.sum_nil, Nat.zero_add, quiet_nil, and_true]
  | cons part parts ih =>
      obtain ⟨frame, hframe, hrest⟩ := Option.bind_eq_some_iff.mp h
      obtain ⟨tail, htail, rfl⟩ := Option.map_eq_some_iff.mp hrest
      have hwrite := write_eq part ▸ hframe
      have hlength := length_writeMessage hwrite
      have hpos := length_encodeMessage_pos hempty (hback part List.mem_cons_self)
      rw [List.append_assoc] at hn ⊢
      rcases Nat.lt_or_ge n frame.length with hlt | hge
      · -- the cut goes through this frame, and every later one begins behind it
        rw [List.take_append_of_le_length (Nat.le_of_lt hlt), fetchLoop_take hwrite hlt]
        refine not_congr ⟨fun hend => ⟨0, Nat.zero_le _, ?_, quiet_nil _⟩, ?_⟩
        · simpa [partsLength] using hend
        · rintro ⟨k, -, hn, -⟩
          cases k with
          | zero => simpa [partsLength] using hn
          | succ k =>
              rw [List.take_succ_cons, partsLength_cons] at hn
              omega
      · have htake : (frame ++ (tail ++ last)).take n
            = frame ++ (tail ++ last).take (n - frame.length) := by
          rw [List.take_append, List.take_of_length_le hge]
        rw [htake, fetchLoop_part hempty hframe (hback part List.mem_cons_self)]
        cases hcall : if part.isChunk then onKvChunk (received + 1) else none with
        | some e =>
            refine iff_of_true ⟨e, rfl⟩ ?_
            rintro ⟨k, -, hn, hquiet⟩
            cases k with
            | zero =>
                simp only [partsLength, List.take_zero, List.map_nil, List.sum_nil] at hn
                omega
            | succ k =>
                have hpart := (quiet_cons.1 hquiet).1
                split at hcall
                · next hc => rw [hpart hc] at hcall; cases hcall
                · cases hcall
        | none =>
            have hpart : part.isChunk = true → onKvChunk (received + 1) = none := fun hc => by
              rwa [if_pos hc] at hcall
            rw [List.length_append] at hn
            refine (ih htail (fun q hq => hback q (List.mem_cons_of_mem _ hq)) _ _
              (by omega)).trans (not_congr ⟨?_, ?_⟩)
            · rintro ⟨k, hk, hat, hquiet⟩
              refine ⟨k + 1, Nat.succ_le_succ hk, ?_, quiet_cons.2 ⟨hpart, hquiet⟩⟩
              rw [List.take_succ_cons, partsLength_cons]
              omega
            · rintro ⟨k, hk, hat, hquiet⟩
              cases k with
              | zero =>
                  simp only [partsLength, List.take_zero, List.map_nil, List.sum_nil] at hat
                  omega
              | succ k =>
                  rw [List.take_succ_cons, partsLength_cons] at hat
                  exact ⟨k, Nat.le_of_succ_le_succ hk, by omega, (quiet_cons.1 hquiet).2⟩

end Parts

/-! ## Answers -/

/-- The chunks of a layer, in the order they were written. -/
def layerChunks (parts : List Part) (layer : Int) : List KVChunk :=
  parts.filterMap fun
    | .kvChunk chunk => if chunk.layerIdx = layer then some chunk else none
    | .arraysState .. => none

/-- The states written for a layer. -/
def layerArrays (parts : List Part) (layer : Int) : List (List TensorBlob) :=
  parts.filterMap fun
    | .kvChunk _ => none
    | .arraysState layerIdx arrays => if layerIdx = layer then some arrays else none

/-- The result is the answer. A layer's states are the last ones written for it. -/
structure Delivered (answer : Answer) (result : PrefillResult) : Prop where
  header : result.header = answer.header
  kvChunks : ∀ layer, result.kvChunks.get? layer =
    if layerChunks answer.parts layer = [] then none else some (layerChunks answer.parts layer)
  arrays : ∀ layer, result.arrays.get? layer = (layerArrays answer.parts layer).getLast?
  totalTokens : result.totalTokens = answer.totalTokens

theorem foldl_store_header (parts : List Part) (result : PrefillResult) :
    (parts.foldl PrefillResult.store result).header = result.header := by
  induction parts generalizing result with
  | nil => rfl
  | cons part parts ih =>
      rw [List.foldl_cons, ih]
      cases part <;> rfl

theorem foldl_store_kvChunks (header : Header) (parts : List Part) (layer : Int) :
    (parts.foldl PrefillResult.store { header := header }).kvChunks.get? layer =
      if layerChunks parts layer = [] then none else some (layerChunks parts layer) := by
  induction parts using List.reverseRecOn with
  | nil => rfl
  | append_singleton parts part ih =>
      rw [List.foldl_append, List.foldl_cons, List.foldl_nil]
      have hsplit : layerChunks (parts ++ [part]) layer
          = layerChunks parts layer ++ layerChunks [part] layer := List.filterMap_append
      rw [hsplit]
      cases part with
      | arraysState layerIdx arrays => simpa [PrefillResult.store, layerChunks] using ih
      | kvChunk chunk =>
          simp only [PrefillResult.store, Dict.get?_set]
          by_cases hlayer : layer = chunk.layerIdx
          · subst hlayer
            have hone : layerChunks [.kvChunk chunk] chunk.layerIdx = [chunk] := by simp [layerChunks]
            rw [if_pos rfl, ih, hone, if_neg (List.append_ne_nil_of_right_ne_nil _ (by simp))]
            split
            · next hnil => rw [hnil]; rfl
            · rfl
          · have hnone : layerChunks [.kvChunk chunk] layer = [] := by
              simp [layerChunks, Ne.symm hlayer]
            rw [if_neg hlayer, ih, hnone, List.append_nil]

theorem foldl_store_arrays (header : Header) (parts : List Part) (layer : Int) :
    (parts.foldl PrefillResult.store { header := header }).arrays.get? layer =
      (layerArrays parts layer).getLast? := by
  induction parts using List.reverseRecOn with
  | nil => rfl
  | append_singleton parts part ih =>
      rw [List.foldl_append, List.foldl_cons, List.foldl_nil]
      have hsplit : layerArrays (parts ++ [part]) layer
          = layerArrays parts layer ++ layerArrays [part] layer := List.filterMap_append
      rw [hsplit]
      cases part with
      | kvChunk chunk => simpa [PrefillResult.store, layerArrays] using ih
      | arraysState layerIdx arrays =>
          simp only [PrefillResult.store, Dict.get?_set]
          by_cases hlayer : layer = layerIdx
          · simp [hlayer, layerArrays]
          · simp [hlayer, ih, layerArrays, Ne.symm hlayer]

section Fetch

variable {codec : Codec} {answer : Answer} {bytes head : Bytes}
  (hcodec : codec.RoundTrips answer)

include hcodec in
theorem readHeader_write (hhead : writeHeader codec answer.header = some head) (rest : Bytes) :
    readHeader codec ⟨head ++ rest, none⟩ = .ok (answer.header, ⟨rest, none⟩) := by
  have hne : (codec.encodeHeader answer.header).isEmpty = false := by
    rw [List.isEmpty_eq_false_iff]
    intro hnil
    have hback := hcodec.header
    rw [hnil, hcodec.empty_header] at hback
    cases hback
  rw [readHeader, readFrame_writeFrame hhead]
  simp only [Except.bind, hne, Bool.false_eq_true, if_false, hcodec.header]

/-- An answer without its header is never taken for one. -/
theorem readHeader_take (hhead : writeHeader codec answer.header = some head) {n : Nat}
    (hn : n < head.length) : ∃ e, readHeader codec ⟨head.take n, none⟩ = .error e := by
  by_cases hend : n = 0 ∨ n = 4
  · exact ⟨_, by rw [readHeader, readFrame_take_end hhead hn hend]; rfl⟩
  · obtain ⟨h0, h4⟩ := not_or.mp hend
    obtain ⟨e, he⟩ := readFrame_take_inside hhead hn h0 h4
    exact ⟨e, by rw [readHeader, he]; rfl⟩

theorem write_frames (hwrite : answer.write codec = some bytes) : ∃ head parts last,
    writeHeader codec answer.header = some head ∧ writeParts codec answer.parts = some parts ∧
      writeDone codec answer.totalTokens = some last ∧ bytes = head ++ (parts ++ last) := by
  obtain ⟨head, hhead, hrest⟩ := Option.bind_eq_some_iff.mp hwrite
  obtain ⟨parts, hparts, hrest⟩ := Option.bind_eq_some_iff.mp hrest
  obtain ⟨last, hlast, rfl⟩ := Option.map_eq_some_iff.mp hrest
  exact ⟨head, parts, last, hhead, hparts, hlast, rfl⟩

/-- **A prefill answer comes through whole, and a cut is noticed except where a frame could
begin.** The stream can end at the beginning of any frame behind the header's, and behind the four
bytes of its length: then the client returns what it has. -/
theorem remotePrefillFetchWith_answer (hcodec : codec.RoundTrips answer)
    (hwrite : answer.write codec = some bytes) (onHeader : Option String)
    (onKvChunk : Nat → Option String) :
    (onHeader = none → Quiet onKvChunk 0 answer.parts → ∃ result,
      remotePrefillFetchWith codec onHeader onKvChunk (.ok ⟨bytes, none⟩) = .ok result ∧
        Delivered answer result) ∧
    ∀ n < bytes.length,
      (∃ e, remotePrefillFetchWith codec onHeader onKvChunk (.ok ⟨bytes.take n, none⟩)
        = .error e) ↔
      ¬ ∃ k ≤ answer.parts.length,
        (n = answer.frameStart codec k ∨ n = answer.frameStart codec k + 4) ∧
          onHeader = none ∧ Quiet onKvChunk 0 (answer.parts.take k) := by
  obtain ⟨head, parts, last, hhead, hparts, hlast, rfl⟩ := write_frames hwrite
  refine ⟨?_, fun n hn => ?_⟩
  · rintro rfl hquiet
    refine ⟨{ answer.parts.foldl PrefillResult.store { header := answer.header } with
      totalTokens := answer.totalTokens }, ?_, ?_⟩
    · simp only [remotePrefillFetchWith, Except.bind, readHeader_write hcodec hhead]
      exact fetchLoop_parts hcodec.empty_message hlast hcodec.done hparts hcodec.part 0 _ hquiet
    · exact ⟨foldl_store_header _ _, foldl_store_kvChunks _ _, foldl_store_arrays _ _, rfl⟩
  · have hlength : head.length = 4 + (codec.encodeHeader answer.header).length :=
      length_writeFrame hhead
    rcases Nat.lt_or_ge n head.length with hlt | hge
    · rw [List.take_append_of_le_length (Nat.le_of_lt hlt)]
      obtain ⟨e, he⟩ := readHeader_take hhead hlt
      refine iff_of_true ⟨e, by simp only [remotePrefillFetchWith, Except.bind, he]⟩ ?_
      rintro ⟨k, -, hat, -⟩
      unfold Answer.frameStart at hat
      omega
    · rw [List.take_append, List.take_of_length_le hge]
      simp only [remotePrefillFetchWith, Except.bind, readHeader_write hcodec hhead]
      cases onHeader with
      | some e => exact iff_of_true ⟨e, rfl⟩ (by simp)
      | none =>
          rw [List.length_append] at hn
          refine (fetchLoop_cut hcodec.empty_message hlast hparts hcodec.part 0 _
            (by omega)).trans (not_congr (exists_congr fun k => and_congr_right' ?_))
          unfold Answer.frameStart
          refine and_congr ?_ (by simp)
          omega

end Fetch

/-! ## An answer that is cut off -/

namespace Sample

/-- One token for one layer. -/
def answer : Answer where
  header := { numLayers := 1, dtype := .float32 }
  parts := [.kvChunk ⟨0, 1, 1, 1, .float32, [0, 0, 128, 63], [0, 0, 128, 63]⟩]
  totalTokens := 1

def encodeDone (totalTokens : Int) : Bytes :=
  130 :: (str "type" ++ str "done" ++ str "total_tokens" ++ int totalTokens)

/-- The encoding of `msgspec`, as far as the answer needs it. -/
def answerCodec : Codec where
  encodeHeader := encodeHeader
  decodeHeader bytes := if bytes = encodeHeader answer.header then some answer.header else none
  encodeMessage
    | .kvChunk chunk => encodeChunk chunk
    | .done totalTokens => encodeDone totalTokens
    | _ => []
  decodeMessage bytes :=
    if bytes = encodeDone 1 then some (.done 1)
    else (answer.parts.find? fun part =>
      match part with
      | .kvChunk chunk => encodeChunk chunk = bytes
      | .arraysState .. => false).map Part.message

theorem answerCodec_roundTrips : answerCodec.RoundTrips answer := by
  constructor <;> decide +kernel

end Sample

theorem remotePrefillFetchWith_sample :
    (∃ result, remotePrefillFetchWith Sample.answerCodec none (fun _ => none)
        (.ok ⟨(Sample.answer.write Sample.answerCodec).getD [], none⟩) = .ok result ∧
      Delivered Sample.answer result) ∧
    ∃ e, remotePrefillFetchWith Sample.answerCodec none (fun _ => none)
      (.ok ⟨((Sample.answer.write Sample.answerCodec).getD []).take 3, none⟩) = .error e := by
  have hwrite : Sample.answer.write Sample.answerCodec
      = some ((Sample.answer.write Sample.answerCodec).getD []) := by decide +kernel
  have h := remotePrefillFetchWith_answer Sample.answerCodec_roundTrips hwrite none fun _ => none
  refine ⟨h.1 rfl fun _ _ => rfl, (h.2 3 (by decide +kernel)).mpr ?_⟩
  rintro ⟨k, -, hat, -⟩
  unfold Answer.frameStart at hat
  omega

/-- The stream ends behind the chunk, and the client returns without `Done`. -/
theorem not_forall_cut_raises :
    ¬ ∀ (codec : Codec) (answer : Answer) (bytes : Bytes), codec.RoundTrips answer →
      answer.write codec = some bytes → ∀ n < bytes.length,
        ∃ e, remotePrefillFetchWith codec none (fun _ => none) (.ok ⟨bytes.take n, none⟩)
          = .error e := by
  intro h
  have hreturns : (remotePrefillFetchWith Sample.answerCodec none (fun _ => none)
      (.ok ⟨((Sample.answer.write Sample.answerCodec).getD []).take
        (Sample.answer.frameStart Sample.answerCodec 1), none⟩)).toOption.isSome = true := by
    decide +kernel
  obtain ⟨e, he⟩ := h Sample.answerCodec Sample.answer
    ((Sample.answer.write Sample.answerCodec).getD []) Sample.answerCodec_roundTrips
    (by decide +kernel) (Sample.answer.frameStart Sample.answerCodec 1) (by decide +kernel)
  rw [he] at hreturns
  cases hreturns

end Exo
