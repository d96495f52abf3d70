import Exo.Lib.Dict
import Exo.Lib.Machine
import Exo.Shared.Types

/-!
# The download coordinator

`DownloadCoordinator` keeps the status of each model and the cancel scope of its running download. Five
kinds of tasks write to the two maps, and each of them can be interrupted where it awaits: the commands,
one after the other; the wrappers of the downloads; the progress callbacks, which the downloader does not
wait for; and the periodic scan.

Sizes, shards and directories are left out. The events go to a channel that stays open.
-/

namespace Exo.Download

open Lib (Dict Machine)

/-- A `DownloadProgress`. -/
inductive DownloadStatus where
  | pending
  | ongoing
  | completed (readOnly : Bool)
  | failed
  deriving DecidableEq

/-- `RepoDownloadProgress.status` -/
inductive ProgressStatus where
  | notStarted
  | inProgress
  | complete
  deriving DecidableEq

/-- What `resolve_existing_model` finds: nothing, or a directory. -/
abbrev Found := Option Bool

/-- `_completed_from_path`, or the default directory. -/
def completed (found : Found) : DownloadStatus := .completed (found.getD false)

inductive WrapperPhase where
  /-- In `ensure_shard`. -/
  | running
  /-- Behind an exception, while the event is sent. -/
  | failing
  /-- Behind `finally`. -/
  | finished
  deriving DecidableEq

/-- A `download_wrapper`. -/
structure Wrapper where
  modelId : ModelId
  /-- `cancel` was called on its scope. -/
  cancelled : Bool := false
  phase : WrapperPhase := .running
  deriving DecidableEq

/-- A command for this node. -/
inductive Command where
  | startDownload (modelId : ModelId)
  | deleteDownload (modelId : ModelId)
  | cancelDownload (modelId : ModelId)
  deriving DecidableEq

/-- Where the command processor awaits. -/
inductive CommandPhase where
  | receiving
  /-- `_start_download`: `resolve_existing_model` -/
  | resolving (modelId : ModelId)
  /-- `get_shard_download_status_for_shard` -/
  | checking (modelId : ModelId)
  /-- `resolve_existing_model`, when everything is there. -/
  | completing (modelId : ModelId)
  /-- `_delete_download`: `delete_model` -/
  | deleting (modelId : ModelId)
  /-- The event that resets the status. -/
  | resetting (modelId : ModelId)
  deriving DecidableEq

/-- Where a progress callback awaits. -/
inductive CallbackPhase where
  | resolving (modelId : ModelId)
  /-- The event of a finished download. -/
  | sendingCompleted (modelId : ModelId)
  | sendingOngoing (modelId : ModelId)
  | returned
  deriving DecidableEq

/-- Where the scan awaits. -/
inductive ScanPhase where
  | fetching
  /-- `resolve_existing_model`, with what is written when nothing is found. -/
  | resolving (modelId : ModelId) (otherwise : DownloadStatus)
  /-- In the directories that are only read. -/
  | resolvingReadOnly (modelId : ModelId)
  deriving DecidableEq

structure Coordinator where
  offline : Bool := false
  downloadStatus : Dict ModelId DownloadStatus := .empty
  /-- `active_downloads`: the scope of a wrapper, by the number of the wrapper. -/
  activeDownloads : Dict ModelId Nat := .empty
  wrappers : List Wrapper := []
  command : CommandPhase := .receiving
  callbacks : List CallbackPhase := []
  scan : ScanPhase := .fetching
  /-- `_last_progress_time`, in milliseconds. -/
  lastProgressTime : Dict ModelId Nat := .empty
  deriving DecidableEq

/-- How a wrapper leaves `ensure_shard`. -/
inductive Outcome where
  | returned
  | cancelled
  | raised
  deriving DecidableEq

inductive Action where
  | receive (command : Command)
  /-- `resolve_existing_model` returns to the command processor, or to the scan. -/
  | resolved (found : Found)
  /-- `get_shard_download_status_for_shard` returns. -/
  | checked (status : ProgressStatus)
  | deleted
  | reset
  | leave (wrapper : Nat) (outcome : Outcome)
  /-- The event of a failed wrapper is sent. -/
  | failed (wrapper : Nat)
  /-- `_download_progress_callback` is called. -/
  | progress (modelId : ModelId) (status : ProgressStatus) (currentTime : Nat)
  | callbackResolved (callback : Nat) (found : Found)
  | callbackSent (callback : Nat) (currentTime : Nat)
  /-- The scan comes to a model. -/
  | scanned (modelId : ModelId) (status : ProgressStatus) (downloadedThisSession : Nat)
  | scannedReadOnly (modelId : ModelId)
  | scanResolved (found : Found)
  /-- An exception in the scan, which starts again later. -/
  | scanFailed
  deriving DecidableEq

namespace Coordinator

variable (c : Coordinator)

def setStatus (modelId : ModelId) (status : DownloadStatus) : Coordinator :=
  { c with downloadStatus := c.downloadStatus.set modelId status }

/-- `active_downloads[model_id].cancel()` -/
def cancelScope (modelId : ModelId) : Coordinator :=
  match c.activeDownloads.get? modelId with
  | none => c
  | some i => { c with wrappers := c.wrappers.modify i fun w => { w with cancelled := true } }

/-- `_cancel_download` -/
def cancelDownload (modelId : ModelId) : Coordinator :=
  if modelId ∈ c.activeDownloads.keys ∧ modelId ∈ c.downloadStatus.keys then
    (c.cancelScope modelId).setStatus modelId .pending
  else c

/-- `_start_download`, up to its first `await`. -/
def startDownload (modelId : ModelId) : Coordinator :=
  match c.downloadStatus.get? modelId with
  | some .ongoing | some (.completed _) | some .failed => c
  | _ => { c with command := .resolving modelId }

/-- `_start_download_task` -/
def startDownloadTask (modelId : ModelId) : Coordinator :=
  { c.setStatus modelId .ongoing with
    wrappers := c.wrappers ++ [{ modelId }]
    activeDownloads := c.activeDownloads.set modelId c.wrappers.length }

/-- `_delete_download`, up to its first `await`. -/
def deleteDownload (modelId : ModelId) : Coordinator :=
  if c.downloadStatus.get? modelId = some (.completed true) then c
  else { c.cancelScope modelId with command := .deleting modelId }

def receive : Command → Coordinator
  | .startDownload modelId => c.startDownload modelId
  | .deleteDownload modelId => c.deleteDownload modelId
  | .cancelDownload modelId => c.cancelDownload modelId

/-- `resolve_existing_model` returns to the command processor. -/
def resolved (found : Found) : Option Coordinator :=
  match c.command, found with
  | .resolving modelId, some _ =>
      some { c.setStatus modelId (completed found) with command := .receiving }
  | .resolving modelId, none =>
      some { c.setStatus modelId .pending with command := .checking modelId }
  | .completing modelId, _ =>
      some { c.setStatus modelId (completed found) with command := .receiving }
  | _, _ => none

/-- The status from the downloader comes to `_start_download`. -/
def checked (status : ProgressStatus) : Option Coordinator :=
  match c.command with
  | .checking modelId =>
      if status = .complete then some { c with command := .completing modelId }
      else if c.offline then some { c.setStatus modelId .failed with command := .receiving }
      else some { c.startDownloadTask modelId with command := .receiving }
  | _ => none

/-- The end of `_delete_download`. -/
def deleted : Option Coordinator :=
  match c.command with
  | .deleting modelId =>
      if modelId ∈ c.downloadStatus.keys then some { c with command := .resetting modelId }
      else some { c with command := .receiving }
  | _ => none

def reset : Option Coordinator :=
  match c.command with
  | .resetting modelId =>
      some { c with downloadStatus := c.downloadStatus.erase modelId, command := .receiving }
  | _ => none

def setPhase (wrapper : Nat) (phase : WrapperPhase) : Coordinator :=
  { c with wrappers := c.wrappers.modify wrapper fun w => { w with phase } }

/-- `finally` of a wrapper. -/
def finish (wrapper : Nat) (modelId : ModelId) : Coordinator :=
  { c.setPhase wrapper .finished with activeDownloads := c.activeDownloads.erase modelId }

/-- A wrapper leaves `ensure_shard`. -/
def leave (wrapper : Nat) (outcome : Outcome) : Option Coordinator :=
  match c.wrappers[wrapper]? with
  | some ⟨modelId, cancelled, .running⟩ =>
      match outcome with
      | .returned => some (c.finish wrapper modelId)
      | .cancelled => if cancelled then some (c.finish wrapper modelId) else none
      | .raised => some ((c.setPhase wrapper .failing).setStatus modelId .failed)
  | _ => none

def failed (wrapper : Nat) : Option Coordinator :=
  match c.wrappers[wrapper]? with
  | some ⟨modelId, _, .failing⟩ => some (c.finish wrapper modelId)
  | _ => none

/-- `throttle_interval_secs`, in milliseconds. -/
def throttleInterval : Nat := 1000

/-- The time since the last event of the model. -/
def isThrottled (modelId : ModelId) (currentTime : Nat) : Bool :=
  currentTime - (c.lastProgressTime.get? modelId).getD 0 ≤ throttleInterval

/-- `_download_progress_callback`, up to its first `await`. The downloader calls it for what a wrapper
asked it for. -/
def progress (modelId : ModelId) (status : ProgressStatus) (currentTime : Nat) : Option Coordinator :=
  if c.wrappers.any fun w => w.modelId = modelId then
    match status with
    | .complete => some { c with callbacks := c.callbacks ++ [.resolving modelId] }
    | .inProgress =>
        if c.isThrottled modelId currentTime then some c
        else some { c.setStatus modelId .ongoing with
          callbacks := c.callbacks ++ [.sendingOngoing modelId] }
    | .notStarted => some c
  else none

def callbackResolved (callback : Nat) (found : Found) : Option Coordinator :=
  match c.callbacks[callback]? with
  | some (.resolving modelId) =>
      some { c.setStatus modelId (completed found) with
        callbacks := c.callbacks.set callback (.sendingCompleted modelId) }
  | _ => none

def callbackSent (callback : Nat) (currentTime : Nat) : Option Coordinator :=
  match c.callbacks[callback]? with
  | some (.sendingCompleted modelId) =>
      some { c with
        lastProgressTime := c.lastProgressTime.erase modelId
        callbacks := c.callbacks.set callback .returned }
  | some (.sendingOngoing modelId) =>
      some { c with
        lastProgressTime := c.lastProgressTime.set modelId currentTime
        callbacks := c.callbacks.set callback .returned }
  | _ => none

/-- A round of the first loop of `_emit_existing_download_progress`. -/
def scanned (modelId : ModelId) (status : ProgressStatus) (downloadedThisSession : Nat) :
    Option Coordinator :=
  if c.scan = .fetching then
    if modelId ∈ c.activeDownloads.keys then some c
    else if status = .complete then some { c with scan := .resolving modelId (completed none) }
    else
      match c.downloadStatus.get? modelId with
      | some (.completed _) => some c
      | _ =>
        some { c with
          scan := .resolving modelId (if downloadedThisSession = 0 then .pending else .ongoing) }
  else none

/-- A round of its second loop. -/
def scannedReadOnly (modelId : ModelId) : Option Coordinator :=
  if c.scan = .fetching then
    if modelId ∈ c.activeDownloads.keys then some c
    else
      match c.downloadStatus.get? modelId with
      | some (.completed _) | some .ongoing | some .failed => some c
      | _ => some { c with scan := .resolvingReadOnly modelId }
  else none

def scanResolved (found : Found) : Option Coordinator :=
  match c.scan, found with
  | .resolving modelId _, some _ =>
      some { c.setStatus modelId (completed found) with scan := .fetching }
  | .resolving modelId otherwise, none =>
      some { c.setStatus modelId otherwise with scan := .fetching }
  | .resolvingReadOnly modelId, some true =>
      some { c.setStatus modelId (completed found) with scan := .fetching }
  | .resolvingReadOnly _, _ => some { c with scan := .fetching }
  | .fetching, _ => none

def step : Action → Option Coordinator
  | .receive command => if c.command = .receiving then some (c.receive command) else none
  | .resolved found => c.resolved found
  | .checked status => c.checked status
  | .deleted => c.deleted
  | .reset => c.reset
  | .leave wrapper outcome => c.leave wrapper outcome
  | .failed wrapper => c.failed wrapper
  | .progress modelId status currentTime => c.progress modelId status currentTime
  | .callbackResolved callback found => c.callbackResolved callback found
  | .callbackSent callback currentTime => c.callbackSent callback currentTime
  | .scanned modelId status downloadedThisSession => c.scanned modelId status downloadedThisSession
  | .scannedReadOnly modelId => c.scannedReadOnly modelId
  | .scanResolved found => c.scanResolved found
  | .scanFailed => some { c with scan := .fetching }

end Coordinator

/-- A coordinator that is started, online or not. -/
def machine (offline : Bool) : Machine Coordinator Action := ⟨{ offline }, Coordinator.step⟩

/-! ## What is claimed of the maps -/

namespace Coordinator

/-- The wrapper of a model is not behind its `finally`. -/
def Unfinished (c : Coordinator) (modelId : ModelId) (wrapper : Nat) : Prop :=
  ∃ w, c.wrappers[wrapper]? = some w ∧ w.modelId = modelId ∧ w.phase ≠ .finished

structure Bookkept (c : Coordinator) : Prop where
  /-- Where a download is going on, a wrapper is tracked. -/
  ongoing : ∀ modelId, c.downloadStatus.get? modelId = some .ongoing →
    modelId ∈ c.activeDownloads.keys
  /-- What is tracked is the newest wrapper that has not finished. -/
  newest : ∀ modelId wrapper, c.activeDownloads.get? modelId = some wrapper
    ↔ c.Unfinished modelId wrapper ∧ ∀ other, c.Unfinished modelId other → other ≤ wrapper

/-- The cleanup of a wrapper finds no other one and no download that is going on. -/
def CleansUp (c : Coordinator) (wrapper : Nat) : Prop :=
  ∀ w, c.wrappers[wrapper]? = some w → c.downloadStatus.get? w.modelId ≠ some .ongoing
    ∧ ∀ other, c.Unfinished w.modelId other → other = wrapper

/-- A wrapper that cleans up is alone, and nobody but a wrapper reports that a download is going on. -/
def InTime (c : Coordinator) : Action → Prop
  | .leave _ .raised => True
  | .leave wrapper _ => c.CleansUp wrapper
  | .failed wrapper => c.CleansUp wrapper
  | .progress modelId .inProgress currentTime =>
      c.isThrottled modelId currentTime = false → modelId ∈ c.activeDownloads.keys
  | .scanResolved none => ∀ modelId, c.scan = .resolving modelId .ongoing →
      modelId ∈ c.activeDownloads.keys
  | _ => True

end Coordinator

end Exo.Download
