import Mathlib.Logic.Function.Basic
import Exo.Download.Coordinator
import Exo.Download.Resume
import Exo.Lib.Text
import Mathlib.Data.List.Infix

/-!
# The download of a shard

`download_shard` fills a table with what is on the disk, runs one coroutine for each selected file
and reports the table once more at the end. The coroutines do not write to the table: what they
report is scheduled, and written in the order in which it was scheduled.

A step takes one coroutine to its next `await`, with what the awaited thing has answered. Speeds and
times are left out, and so is the choice of the directory: a path stands for the file under it.
-/

namespace Exo.Download.Shard

open Lib (Dict Machine Text)
open Disaggregated (Bytes)

structure FileListEntry where
  path : Text
  size : Option Nat
  deriving DecidableEq

/-- `f"{path}.partial"` -/
def partialPath (path : Text) : Text := path ++ Text.of ".partial"

/-- `RepoFileDownloadProgress` -/
structure FileProgress where
  downloaded : Nat
  downloadedThisSession : Nat
  total : Nat
  status : ProgressStatus
  deriving DecidableEq

/-- `RepoDownloadProgress` -/
structure RepoProgress where
  completedFiles : Nat
  totalFiles : Nat
  downloaded : Nat
  downloadedThisSession : Nat
  total : Nat
  status : ProgressStatus
  fileProgress : Dict Text FileProgress
  deriving DecidableEq

structure Config where
  hashes : Hashes
  /-- What `fetch_file_list_with_cache` returns, if it has a list. -/
  fileList : Option (List FileListEntry)
  /-- What the patterns let through. -/
  isAllowed : Text → Bool
  isImageModel : Bool
  skipInternet : Bool
  maxParallelDownloads : Nat
  /-- The directory as it is found. -/
  disk : Text → Option Bytes

namespace Config

variable (cfg : Config)

/-- `filtered_file_list`. Weights at the root of an image model are skipped. -/
def files : List FileListEntry :=
  let allowed := (cfg.fileList.getD []).filter fun file => cfg.isAllowed file.path
  if cfg.isImageModel then
    allowed.filter fun file =>
      decide (Text.of "/" <:+: file.path ∨ ¬ Text.of ".safetensors" <:+ file.path)
  else allowed

/-- `get_downloaded_size` -/
def downloadedSize (path : Text) : Nat :=
  match cfg.disk path with
  | some bytes => bytes.length
  | none => ((cfg.disk (partialPath path)).map List.length).getD 0

/-- What the table says of a file at first. -/
def seed (file : FileListEntry) : FileProgress where
  downloaded := cfg.downloadedSize file.path
  downloadedThisSession := 0
  total := file.size.getD 0
  status :=
    if (cfg.disk file.path).isSome ∧ file.size = some (cfg.downloadedSize file.path) then .complete
    else .notStarted

end Config

/-- `calculate_repo_progress` -/
def calculateRepoProgress (fileProgress : Dict Text FileProgress) : RepoProgress where
  completedFiles := fileProgress.values.countP fun p => p.downloaded = p.total
  totalFiles := fileProgress.values.length
  downloaded := (fileProgress.values.map FileProgress.downloaded).sum
  downloadedThisSession := (fileProgress.values.map FileProgress.downloadedThisSession).sum
  total := (fileProgress.values.map FileProgress.total).sum
  status :=
    if ∀ p ∈ fileProgress.values, p.status = .complete then .complete
    else if ∃ p ∈ fileProgress.values, p.status = .inProgress then .inProgress
    else .notStarted
  fileProgress := fileProgress

/-- A call of `schedule_progress`. -/
structure Update where
  currBytes : Nat
  totalBytes : Nat
  isRenamed : Bool
  deriving DecidableEq

/-- What `on_progress_wrapper` makes of what the table says of a file. -/
def Update.apply (u : Update) (previous : Option FileProgress) : FileProgress where
  downloaded := u.currBytes
  downloadedThisSession :=
    match previous with
    | none => u.currBytes
    | some p =>
        if u.currBytes < p.downloaded then u.currBytes
        else p.downloadedThisSession + (u.currBytes - p.downloaded)
  total := u.totalBytes
  status := if u.currBytes = u.totalBytes ∧ u.isRenamed then .complete else .inProgress

/-- Where the coroutine of a file is, with the number of its attempt. -/
inductive Stage where
  /-- Before the semaphore. -/
  | acquiring
  /-- `_download_file`: is the target there? -/
  | starting (attempt : Nat)
  /-- The size of the target. -/
  | sizing (attempt : Nat)
  /-- `file_meta`, for a target that is there. -/
  | verifying (attempt localSize : Nat)
  /-- A target of another size is removed. -/
  | removing (attempt : Nat)
  /-- `file_meta`, for a target that is not. -/
  | preparing (attempt : Nat)
  /-- The size of the partial file. -/
  | resuming (attempt length : Nat) (remoteHash : String)
  | requesting (attempt length : Nat) (remoteHash : String) (resumeBytePos : Option Nat)
  | reading (attempt length : Nat) (remoteHash : String) (nRead : Nat)
  | hashing (attempt length : Nat) (remoteHash : String)
  /-- A partial file with a wrong hash is removed. -/
  | discarding (attempt : Nat)
  | renaming (attempt length : Nat)
  /-- Before the next attempt. -/
  | sleeping (attempt : Nat)
  /-- Returned, with a target that was there. -/
  | kept
  /-- Returned, with a target that it has downloaded. -/
  | downloaded
  | raised
  deriving DecidableEq

/-- It has given the semaphore back. -/
def Stage.isOver : Stage → Bool
  | .kept | .downloaded | .raised => true
  | _ => false

/-- What an `await` answers. -/
inductive Answer where
  | done
  | raised (failure : Failure)
  /-- The size and the etag from `file_meta`. -/
  | fileMeta (length : Nat) (etag : String)
  | response (status : Nat)
  /-- The next chunk of a response. It is empty at the end. -/
  | chunk (bytes : Bytes)
  deriving DecidableEq

/-- An exception in one of the five attempts of `download_file_with_retry`. -/
def failAttempt (attempt : Nat) (failure : Failure) : Stage :=
  if failure.isFinal ∨ attempt + 1 = 5 then .raised else .sleeping (attempt + 1)

/-- What comes of a step: the next stage, the two files and what is scheduled. -/
structure Outcome where
  stage : Stage
  disk : Disk
  update : Option Update := none
  deriving DecidableEq

/-- `_download_file`, from one `await` to the next. -/
def next (cfg : Config) (disk : Disk) : Stage → Answer → Option Outcome
  | .starting n, .done =>
      match disk.target with
      | some _ => some ⟨if cfg.skipInternet then .kept else .sizing n, disk, none⟩
      | none =>
          some ⟨if cfg.skipInternet then failAttempt n .fileNotFound else .preparing n, disk, none⟩
  | .sizing n, .done =>
      match disk.target with
      | some bytes => some ⟨.verifying n bytes.length, disk, none⟩
      | none => some ⟨failAttempt n .fileNotFound, disk, none⟩
  | .verifying n localSize, .fileMeta length _ =>
      some ⟨if localSize ≠ length then .removing n else .kept, disk, none⟩
  -- whatever is raised here, the local file is trusted
  | .verifying _ _, .raised _ => some ⟨.kept, disk, none⟩
  | .removing n, .done =>
      match disk.target with
      | some _ => some ⟨.preparing n, { disk with target := none }, none⟩
      | none => some ⟨.kept, disk, none⟩
  | .removing _, .raised _ => some ⟨.kept, disk, none⟩
  | .preparing n, .fileMeta length etag => some ⟨.resuming n length (remoteHash etag), disk, none⟩
  | .resuming n length hash, .done =>
      let resumeBytePos := disk.partialFile.map List.length
      some ⟨if resumeBytePos ≠ some length then .requesting n length hash resumeBytePos
        else .hashing n length hash, disk, none⟩
  | .requesting n length hash resumeBytePos, .response status =>
      if status = 404 then some ⟨failAttempt n .fileNotFound, disk, none⟩
      else if status = 401 ∨ status = 403 then some ⟨failAttempt n .authentication, disk, none⟩
      else if status = 429 then some ⟨failAttempt n .rateLimit, disk, none⟩
      else if status ≠ 200 ∧ status ≠ 206 then some ⟨failAttempt n .other, disk, none⟩
      else
        -- opened to append, unless there is nothing to append to
        let front := if resumeBytePos.getD 0 = 0 then [] else disk.partialFile.getD []
        some ⟨.reading n length hash (resumeBytePos.getD 0), { disk with partialFile := some front },
          none⟩
  | .reading n length hash _, .chunk [] => some ⟨.hashing n length hash, disk, none⟩
  | .reading n length hash nRead, .chunk bytes =>
      let nRead := nRead + bytes.length
      some ⟨.reading n length hash nRead,
        { disk with partialFile := some (disk.partialFile.getD [] ++ bytes) },
        some ⟨nRead, length, false⟩⟩
  | .hashing n length hash, .done =>
      match disk.partialFile with
      | none => some ⟨failAttempt n .fileNotFound, disk, none⟩
      | some bytes =>
          some ⟨if calcHash cfg.hashes bytes (hashTypeOf hash) = hash then .renaming n length
            else .discarding n, disk, none⟩
  | .discarding n, .done => some ⟨failAttempt n .other, { disk with partialFile := none }, none⟩
  | .discarding n, .raised _ => some ⟨failAttempt n .other, disk, none⟩
  | .renaming n length, .done =>
      match disk.partialFile with
      | none => some ⟨failAttempt n .fileNotFound, disk, none⟩
      | some bytes => some ⟨.downloaded, ⟨some bytes, none⟩, some ⟨length, length, true⟩⟩
  | .sleeping n, .done => some ⟨.starting n, disk, none⟩
  | .starting n, .raised e | .sizing n, .raised e | .preparing n, .raised e
  | .resuming n _ _, .raised e | .requesting n _ _ _, .raised e | .reading n _ _ _, .raised e
  | .hashing n _ _, .raised e | .renaming n _, .raised e => some ⟨failAttempt n e, disk, none⟩
  | _, _ => none

structure ShardDownload where
  disk : Text → Option Bytes
  semaphore : Nat
  /-- The coroutines, in the order of the files. -/
  stages : List Stage
  fileProgress : Dict Text FileProgress
  /-- What is scheduled, with the path of its file. -/
  updates : List (Text × Update) := []
  /-- What `on_progress` was called with. -/
  reported : List RepoProgress := []
  /-- What `download_shard` returned: a path under the directory, or the directory itself. -/
  returned : Option (Option Text × RepoProgress) := none

inductive Action where
  | acquire (file : Nat)
  | resume (file : Nat) (answer : Answer)
  /-- A scheduled update is written and reported. -/
  | update
  /-- `asyncio.gather` returns. -/
  | finish
  deriving DecidableEq

namespace ShardDownload

variable (cfg : Config) (s : ShardDownload)

/-- The two files of a path. -/
def diskOf (path : Text) : Disk := ⟨s.disk path, s.disk (partialPath path)⟩

def acquire (i : Nat) : Option ShardDownload :=
  if s.stages[i]? = some .acquiring ∧ 0 < s.semaphore then
    some { s with semaphore := s.semaphore - 1, stages := s.stages.set i (.starting 0) }
  else none

/-- A coroutine goes on, and its outcome is written back. -/
def resume (i : Nat) (answer : Answer) : Option ShardDownload :=
  match cfg.files[i]?, s.stages[i]? with
  | some file, some stage =>
      (next cfg (s.diskOf file.path) stage answer).map fun o =>
        { s with
          disk := Function.update (Function.update s.disk file.path o.disk.target)
            (partialPath file.path) o.disk.partialFile
          semaphore := if o.stage.isOver then s.semaphore + 1 else s.semaphore
          stages := s.stages.set i o.stage
          updates := s.updates ++ (o.update.map fun u => (file.path, u)).toList }
  | _, _ => none

/-- `on_progress_wrapper` -/
def update : Option ShardDownload :=
  match s.updates with
  | [] => none
  | (path, u) :: updates =>
      let fileProgress := s.fileProgress.set path (u.apply (s.fileProgress.get? path))
      some { s with
        fileProgress := fileProgress
        updates := updates
        reported := s.reported ++ [calculateRepoProgress fileProgress] }

/-- The end of `download_shard`. What was scheduled before the last coroutine returned has been
written by then. -/
def finish : Option ShardDownload :=
  if (∀ stage ∈ s.stages, stage = .kept ∨ stage = .downloaded) ∧ s.updates = []
    ∧ s.returned.isNone then
    let progress := calculateRepoProgress s.fileProgress
    let gguf := cfg.files.find? fun file => decide (Text.of ".gguf" <:+ file.path)
    some { s with
      reported := s.reported ++ [progress]
      returned := some (gguf.map FileListEntry.path, progress) }
  else none

def step : Action → Option ShardDownload
  | .acquire i => s.acquire i
  | .resume i answer => s.resume cfg i answer
  | .update => s.update
  | .finish => s.finish cfg

end ShardDownload

/-- `download_shard` with `skip_download=False`, before its coroutines run. Without a file list it
has returned already. -/
def init (cfg : Config) : ShardDownload where
  disk := cfg.disk
  semaphore := cfg.maxParallelDownloads
  stages := cfg.files.map fun _ => .acquiring
  fileProgress := cfg.files.foldl (fun d file => d.set file.path (cfg.seed file)) .empty
  returned :=
    if cfg.fileList.isNone then
      some (none, ⟨0, 0, 0, 0, 0, .notStarted, .empty⟩)
    else none

def machine (cfg : Config) : Machine ShardDownload Action := ⟨init cfg, ShardDownload.step cfg⟩

end Exo.Download.Shard
