import Exo.Disaggregated.Protocol

/-!
# Resuming a download

A file arrives in a partial file beside its target. What is there already is kept: the rest is asked
for with a range and appended. A partial file of the right length is only hashed. One with a wrong
hash is removed, and the next of five attempts starts over.

A partial file that is longer than the file is neither: the range it asks for is refused, and nothing
removes it. So a download converges exactly when the partial file is not longer than the file.
-/

namespace Exo.Download

open Disaggregated (Bytes)

/-- `hashlib`. -/
structure Hashes where
  sha1 : Bytes → String
  sha256 : Bytes → String

inductive HashType where
  | sha1
  | sha256
  deriving DecidableEq

/-- The header of a git blob. -/
def blobHeader (size : Nat) : Bytes :=
  ("blob " ++ toString size ++ "\x00").toList.map fun c => UInt8.ofNat c.toNat

/-- `calc_hash`. -/
def calcHash (hashes : Hashes) (content : Bytes) : HashType → String
  | .sha1 => hashes.sha1 (blobHeader content.length ++ content)
  | .sha256 => hashes.sha256 content

/-- `trim_etag`: quotes at both ends, double or single, are taken off. -/
def trimEtag (etag : String) : String :=
  let isQuoted (quote : Char) := etag.toList.head? = some quote ∧ etag.toList.getLast? = some quote
  if isQuoted (.ofNat 34) ∨ isQuoted (.ofNat 39) then String.ofList etag.toList.tail.dropLast
  else etag

/-- `remote_hash`. -/
def remoteHash (etag : String) : String :=
  if "-gzip".toList <:+ etag.toList then String.ofList (etag.toList.take (etag.length - 5))
  else etag

def hashTypeOf (remoteHash : String) : HashType :=
  if remoteHash.length = 64 then .sha256 else .sha1

/-- What an attempt raises. The first two are not tried again. -/
inductive Failure where
  | authentication
  | fileNotFound
  | rateLimit
  | other
  deriving DecidableEq

def Failure.isFinal : Failure → Bool
  | .authentication | .fileNotFound => true
  | _ => false

structure Response where
  status : Nat
  body : Bytes

/-- A server with one file. -/
structure Server (hashes : Hashes) where
  content : Bytes
  /-- The header as it is sent. -/
  etag : String
  /-- The answer to a `HEAD` is a redirect that has the size and the etag in `x-linked-*`. -/
  isLinked : Bool
  /-- The pieces in which a body is read. -/
  pieces : Bytes → List Bytes
  pieces_flatten : ∀ body, (pieces body).flatten = body
  /-- The etag is the hash of the file. -/
  etag_eq : calcHash hashes content (hashTypeOf (remoteHash (trimEtag etag)))
    = remoteHash (trimEtag etag)

/-- The target and the partial file, where they exist. -/
structure Disk where
  target : Option Bytes
  partialFile : Option Bytes
  deriving DecidableEq

variable {hashes : Hashes}

namespace Server

variable (server : Server hashes)

/-- The hash that a right file has. -/
def hash : String := remoteHash (trimEtag server.etag)

def hashOf (content : Bytes) : String := calcHash hashes content (hashTypeOf server.hash)

/-- `file_meta`. Without a redirect it asserts that there is a length. -/
def fileMeta : Except Failure (Nat × String) :=
  if server.isLinked ∨ 0 < server.content.length then
    .ok (server.content.length, trimEtag server.etag)
  else .error .other

/-- The answer to a `GET`, with the start of its range. -/
def get : Option Nat → Response
  | none => ⟨200, server.content⟩
  | some start =>
    if start < server.content.length then ⟨206, server.content.drop start⟩ else ⟨416, []⟩

end Server

variable (server : Server hashes)

/-- The request for what is missing, and the loop that writes it. An empty partial file is opened like
one that is not there. -/
def fetch (disk : Disk) : Except Failure Unit × Disk :=
  let resume := disk.partialFile.bind fun bytes => if bytes = [] then none else some bytes
  let r := server.get (resume.map List.length)
  if r.status = 404 then (.error .fileNotFound, disk)
  else if r.status = 401 ∨ r.status = 403 then (.error .authentication, disk)
  else if r.status = 429 then (.error .rateLimit, disk)
  else if r.status ≠ 200 ∧ r.status ≠ 206 then (.error .other, disk)
  else
    (.ok (), { disk with
      partialFile := some ((server.pieces r.body).foldl (· ++ ·) (resume.getD [])) })

/-- The partial file becomes the target, or is removed. -/
def check (disk : Disk) : Except Failure Unit × Disk :=
  match disk.partialFile with
  | none => (.error .other, disk)
  | some bytes =>
    if server.hashOf bytes = server.hash then (.ok (), ⟨some bytes, none⟩)
    else (.error .other, { disk with partialFile := none })

/-- `_download_file` without its first part: there is no target. -/
def downloadMissing (disk : Disk) : Except Failure Unit × Disk :=
  match server.fileMeta with
  | .error e => (.error e, disk)
  | .ok (length, _) =>
    if disk.partialFile.map List.length = some length then check server disk
    else match fetch server disk with
      | (.error e, disk) => (.error e, disk)
      | (.ok (), disk) => check server disk

/-- `_download_file`. A target of the right size, or whose size cannot be asked for, is taken as it
is. -/
def downloadFile (skipInternet : Bool) (disk : Disk) : Except Failure Unit × Disk :=
  match disk.target with
  | none => if skipInternet then (.error .fileNotFound, disk) else downloadMissing server disk
  | some bytes =>
    if skipInternet then (.ok (), disk)
    else match server.fileMeta with
      | .error _ => (.ok (), disk)
      | .ok (length, _) =>
        if bytes.length ≠ length then downloadMissing server { disk with target := none }
        else (.ok (), disk)

/-- The loop of `download_file_with_retry`, with the attempts that are left. -/
def attempts (skipInternet : Bool) : Nat → Disk → Except Failure Unit × Disk
  | 0, disk => (.error .other, disk)
  | n + 1, disk =>
    match downloadFile server skipInternet disk with
    | (.ok (), disk) => (.ok (), disk)
    | (.error e, disk) =>
      if e.isFinal ∨ n = 0 then (.error e, disk) else attempts skipInternet n disk

/-- `download_file_with_retry`. -/
def downloadFileWithRetry (skipInternet : Bool) (disk : Disk) : Except Failure Unit × Disk :=
  attempts server skipInternet 5 disk

/-- The download returns, with the target on the disk, its hash right, and no partial file. -/
def Converges (disk : Disk) : Prop :=
  ∃ bytes, server.hashOf bytes = server.hash
    ∧ downloadFileWithRetry server false disk = (.ok (), ⟨some bytes, none⟩)

/-- The size of the file can be asked for, and the partial file is not longer. -/
def Resumable (partialFile : Option Bytes) : Prop :=
  (server.isLinked ∨ 0 < server.content.length)
    ∧ ∀ bytes, partialFile = some bytes → bytes.length ≤ server.content.length

/-- The target is as it should be, and nothing is beside it. -/
def Finished (disk : Disk) : Prop :=
  disk.partialFile = none ∧ ∃ bytes, disk.target = some bytes ∧ server.hashOf bytes = server.hash

/-- A target is believed when its size is right, or cannot be asked for. -/
def Believed (disk : Disk) : Prop :=
  ∃ bytes, disk.target = some bytes
    ∧ ∀ length etag, server.fileMeta = .ok (length, etag) → bytes.length = length

/-! ## One attempt -/

variable {server} {disk : Disk} {bytes : Bytes}

theorem hashOf_content : server.hashOf server.content = server.hash := server.etag_eq

theorem foldl_append_pieces (front : Bytes) (pieces : List Bytes) :
    pieces.foldl (· ++ ·) front = front ++ pieces.flatten := by
  induction pieces generalizing front with
  | nil => exact (List.append_nil front).symm
  | cons piece pieces ih => rw [List.foldl_cons, ih, List.append_assoc, List.flatten_cons]

theorem fetch_of_none (h : disk.partialFile = none) :
    fetch server disk = (.ok (), { disk with partialFile := some server.content }) := by
  simp [fetch, h, Server.get, foldl_append_pieces, server.pieces_flatten]

theorem fetch_of_nil (h : disk.partialFile = some []) :
    fetch server disk = (.ok (), { disk with partialFile := some server.content }) := by
  simp [fetch, h, Server.get, foldl_append_pieces, server.pieces_flatten]

/-- A shorter partial file is completed with the bytes behind its length. -/
theorem fetch_of_shorter (h : disk.partialFile = some bytes)
    (hlt : bytes.length < server.content.length) :
    fetch server disk
      = (.ok (), { disk with partialFile := some (bytes ++ server.content.drop bytes.length) }) := by
  cases bytes with
  | nil => exact fetch_of_nil h
  | cons b bytes =>
      simp only [List.length_cons] at hlt
      simp [fetch, h, Server.get, hlt, foldl_append_pieces, server.pieces_flatten]

/-- A range behind the end is refused, and the disk stays as it is. -/
theorem fetch_of_longer (h : disk.partialFile = some bytes)
    (hlt : server.content.length < bytes.length) : fetch server disk = (.error .other, disk) := by
  have hne : bytes ≠ [] := fun hnil => by
    rw [hnil] at hlt
    cases hlt
  simp [fetch, h, hne, Server.get, Nat.not_lt_of_lt hlt]

theorem fileMeta_eq (h : server.isLinked ∨ 0 < server.content.length) :
    server.fileMeta = .ok (server.content.length, trimEtag server.etag) := if_pos h

theorem check_of_hash (h : disk.partialFile = some bytes)
    (hhash : server.hashOf bytes = server.hash) :
    check server disk = (.ok (), ⟨some bytes, none⟩) := by
  rw [check, h]
  exact if_pos hhash

/-- The target is there and right, or the partial file is gone. -/
theorem check_cases (h : disk.partialFile = some bytes) :
    (server.hashOf bytes = server.hash ∧ check server disk = (.ok (), ⟨some bytes, none⟩))
      ∨ check server disk = (.error .other, { disk with partialFile := none }) := by
  by_cases hhash : server.hashOf bytes = server.hash
  · exact .inl ⟨hhash, check_of_hash h hhash⟩
  · rw [check, h]
    exact .inr (if_neg hhash)

/-- **An attempt with a partial file that is not longer than the file.** It ends with the target, or
without the partial file. -/
theorem downloadMissing_cases (hmeta : server.isLinked ∨ 0 < server.content.length)
    (hlen : ∀ bytes, disk.partialFile = some bytes → bytes.length ≤ server.content.length) :
    (∃ bytes, server.hashOf bytes = server.hash
        ∧ downloadMissing server disk = (.ok (), ⟨some bytes, none⟩))
      ∨ downloadMissing server disk = (.error .other, { disk with partialFile := none }) := by
  have hcheck : ∀ {d : Disk} {bytes : Bytes}, d.partialFile = some bytes → d.target = disk.target →
      (∃ bytes, server.hashOf bytes = server.hash
        ∧ check server d = (.ok (), ⟨some bytes, none⟩))
      ∨ check server d = (.error .other, { disk with partialFile := none }) := by
    intro d bytes hd htarget
    rcases check_cases hd with ⟨hhash, heq⟩ | heq
    · exact .inl ⟨bytes, hhash, heq⟩
    · exact .inr (by rw [heq, htarget])
  unfold downloadMissing
  rw [fileMeta_eq hmeta]
  cases hpartial : disk.partialFile with
  | none =>
      simp only [Option.map_none, reduceCtorEq, if_false, fetch_of_none hpartial]
      exact hcheck rfl rfl
  | some bytes =>
      rcases Nat.lt_or_eq_of_le (hlen bytes hpartial) with hlt | heq
      · simp only [Option.map_some, Option.some.injEq, Nat.ne_of_lt hlt, if_false,
          fetch_of_shorter hpartial hlt]
        exact hcheck rfl rfl
      · simp only [Option.map_some, heq, if_true]
        exact hcheck hpartial rfl

/-- Without a partial file an attempt succeeds. -/
theorem downloadMissing_of_none (hmeta : server.isLinked ∨ 0 < server.content.length)
    (h : disk.partialFile = none) :
    downloadMissing server disk = (.ok (), ⟨some server.content, none⟩) := by
  unfold downloadMissing
  rw [fileMeta_eq hmeta]
  simp only [h, Option.map_none, reduceCtorEq, if_false, fetch_of_none h]
  exact check_of_hash rfl hashOf_content

/-- With one that is longer it fails, and leaves everything as it was. -/
theorem downloadMissing_of_longer (h : disk.partialFile = some bytes)
    (hlt : server.content.length < bytes.length) :
    ∃ e, downloadMissing server disk = (.error e, disk) := by
  unfold downloadMissing
  cases hmeta : server.fileMeta with
  | error e => exact ⟨e, rfl⟩
  | ok found =>
      obtain ⟨length, etag⟩ := found
      have hlength : length = server.content.length := by
        unfold Server.fileMeta at hmeta
        split at hmeta
        · exact (Prod.mk.inj (Except.ok.inj hmeta)).1.symm
        · cases hmeta
      have hne : ¬ bytes.length = length := by omega
      refine ⟨.other, ?_⟩
      simp only [h, Option.map_some, Option.some.injEq, hne, if_false, fetch_of_longer h hlt]

/-! ## All attempts -/

theorem downloadFile_of_none (h : disk.target = none) :
    downloadFile server false disk = downloadMissing server disk := by
  simp [downloadFile, h]

theorem downloadFile_of_believed (h : Believed server disk) :
    downloadFile server false disk = (.ok (), disk) := by
  obtain ⟨bytes, htarget, hsize⟩ := h
  unfold downloadFile
  rw [htarget]
  cases hmeta : server.fileMeta with
  | error e => rfl
  | ok found =>
      have heq := hsize found.1 found.2 hmeta
      simp [heq]

/-- A target that is not believed is removed. -/
theorem downloadFile_of_not_believed (h : ¬ Believed server disk) :
    downloadFile server false disk = downloadMissing server { disk with target := none } := by
  cases htarget : disk.target with
  | none =>
      rw [downloadFile_of_none htarget]
      congr 1
      cases disk
      cases htarget
      rfl
  | some bytes =>
      unfold downloadFile
      rw [htarget]
      cases hmeta : server.fileMeta with
      | error e =>
          refine absurd ⟨bytes, htarget, fun length etag hok => ?_⟩ h
          rw [hmeta] at hok
          cases hok
      | ok found =>
          have hne : bytes.length ≠ found.1 := fun heq => by
            refine h ⟨bytes, htarget, fun length etag hok => ?_⟩
            rw [hmeta] at hok
            rw [heq, (Prod.mk.inj (Except.ok.inj hok)).1]
          simp [hne]

theorem attempts_of_ok {n : Nat} {disk' : Disk}
    (h : downloadFile server false disk = (.ok (), disk')) :
    attempts server false (n + 1) disk = (.ok (), disk') := by
  rw [attempts, h]

/-- An attempt that leaves the disk as it is fails again and again. -/
theorem attempts_of_stuck {e : Failure} (h : downloadFile server false disk = (.error e, disk))
    (n : Nat) : (attempts server false n disk).1 ≠ .ok () := by
  induction n with
  | zero => nofun
  | succ n ih =>
      rw [attempts, h]
      show (if e.isFinal = true ∨ n = 0 then _ else _ : Except Failure Unit × Disk).1 ≠ _
      split
      · nofun
      · exact ih

/-- Whatever a partial file holds that is not longer than the file, two attempts are enough. -/
theorem converges_of_resumable (hbelieved : ¬ Believed server disk)
    (h : Resumable server disk.partialFile) : Converges server disk := by
  have hfirst := downloadFile_of_not_believed hbelieved
  have hlen : ∀ bytes, Disk.partialFile { disk with target := none } = some bytes →
      bytes.length ≤ server.content.length := h.2
  rcases downloadMissing_cases h.1 hlen with ⟨bytes, hhash, heq⟩ | heq
  · exact ⟨bytes, hhash, attempts_of_ok (hfirst.trans heq)⟩
  · have hsecond : downloadFile server false ⟨none, none⟩ = (.ok (), ⟨some server.content, none⟩) :=
      (downloadFile_of_none rfl).trans (downloadMissing_of_none h.1 rfl)
    refine ⟨server.content, hashOf_content, ?_⟩
    show attempts server false 5 disk = _
    rw [attempts, hfirst, heq]
    exact attempts_of_ok hsecond

theorem not_converges_of_not_resumable (hbelieved : ¬ Believed server disk)
    (h : ¬ Resumable server disk.partialFile) : ¬ Converges server disk := by
  have hfirst := downloadFile_of_not_believed hbelieved
  -- the first attempt may remove the target; it leaves the partial file
  have hstuck : ∃ e, downloadMissing server { disk with target := none }
      = (.error e, { disk with target := none }) := by
    by_cases hmeta : server.isLinked ∨ 0 < server.content.length
    · obtain ⟨bytes, hbytes, hlonger⟩ : ∃ bytes, disk.partialFile = some bytes
          ∧ server.content.length < bytes.length := by
        by_contra hno
        refine h ⟨hmeta, fun bytes hbytes => Nat.le_of_not_lt fun hlt => ?_⟩
        exact hno ⟨bytes, hbytes, hlt⟩
      exact downloadMissing_of_longer hbytes hlonger
    · refine ⟨.other, ?_⟩
      unfold downloadMissing
      rw [Server.fileMeta, if_neg hmeta]
  obtain ⟨e, hstuck⟩ := hstuck
  intro hconverges
  obtain ⟨bytes, -, hconverges⟩ := hconverges
  have hagain : downloadFile server false { disk with target := none }
      = (.error e, { disk with target := none }) := (downloadFile_of_none rfl).trans hstuck
  have hrest := attempts_of_stuck hagain 4
  have hall : (attempts server false 5 disk).1 = .ok () := by
    rw [show attempts server false 5 disk = _ from hconverges]
  rw [attempts, hfirst, hstuck] at hall
  simp only at hall
  split at hall
  · cases hall
  · exact hrest hall

/-- **When a download converges.** A target that is believed has to be the right one, with nothing
beside it. Otherwise the partial file may hold anything that is not longer than the file. -/
theorem converges_iff (server : Server hashes) (disk : Disk) : Converges server disk
    ↔ (Believed server disk ∧ Finished server disk)
      ∨ (¬ Believed server disk ∧ Resumable server disk.partialFile) := by
  by_cases hbelieved : Believed server disk
  · have hret : downloadFileWithRetry server false disk = (.ok (), disk) :=
      attempts_of_ok (downloadFile_of_believed hbelieved)
    constructor
    · intro ⟨bytes, hhash, hconverges⟩
      have hdisk : disk = ⟨some bytes, none⟩ := (Prod.mk.inj (hret.symm.trans hconverges)).2
      exact .inl ⟨hbelieved, by rw [hdisk], bytes, by rw [hdisk], hhash⟩
    · intro h
      rcases h with ⟨-, hnone, bytes, htarget, hhash⟩ | ⟨hno, -⟩
      · refine ⟨bytes, hhash, hret.trans ?_⟩
        cases disk
        cases hnone
        cases htarget
        rfl
      · exact absurd hbelieved hno
  · constructor
    · intro hconverges
      refine .inr ⟨hbelieved, ?_⟩
      by_contra hno
      exact not_converges_of_not_resumable hbelieved hno hconverges
    · intro h
      rcases h with ⟨hyes, -⟩ | ⟨-, hresumable⟩
      · exact absurd hyes hbelieved
      · exact converges_of_resumable hbelieved hresumable

/-- A hash that knows one content. -/
def oneHash : Hashes where
  sha1 content := if content = blobHeader 1 ++ [7] then "7" else "0"
  sha256 _ := "0"

/-- A file of one byte. -/
def oneByte : Server oneHash where
  content := [7]
  etag := "7"
  isLinked := false
  pieces body := [body]
  pieces_flatten body := List.append_nil body
  etag_eq := by
    have hhash : remoteHash (trimEtag "7") = "7" := by decide
    have htype : hashTypeOf "7" = .sha1 := by decide
    rw [hhash, htype]
    show (if blobHeader 1 ++ [7] = blobHeader 1 ++ [7] then "7" else "0") = "7"
    exact if_pos rfl

/-- No target, and a partial file of two bytes. -/
theorem not_forall_converges : ¬ ∀ (hashes : Hashes) (server : Server hashes) (disk : Disk),
    0 < server.content.length → disk.target = none → Converges server disk := by
  intro h
  have hconverges := h _ oneByte ⟨none, some [7, 7]⟩ (by decide) rfl
  obtain ⟨bytes, -, hconverges⟩ := hconverges
  have hfails : (downloadFileWithRetry oneByte false ⟨none, some [7, 7]⟩).1 ≠ .ok () := by decide
  exact hfails (by rw [hconverges])

end Exo.Download
