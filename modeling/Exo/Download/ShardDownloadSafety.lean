import Exo.Download.ShardDownload
import Exo.Lib.Sequence

/-!
# When a finished download is reported complete

What the table will say of a file once all scheduled updates are written changes only when its
coroutine schedules one. A coroutine that keeps the target it finds schedules none, and the table
goes on to say what was written into it at first: that the file is complete, if the list has its
size right.
-/

namespace Exo.Download.Shard

open Lib (Dict Machine Text getElem?_set_cases)
open Disaggregated (Bytes)

variable {cfg : Config} {file file' : FileListEntry} {stage : Stage} {answer : Answer} {disk : Disk}
  {o : Outcome}

/-! ## One file -/

namespace Stage

/-- It has seen the target, and has not removed it. -/
def isChecking : Stage → Bool
  | .verifying _ _ | .removing _ | .kept => true
  | _ => false

/-- It has seen that there is no target. -/
def isDownloading : Stage → Bool
  | .preparing _ | .resuming .. | .requesting .. | .reading .. | .hashing .. | .discarding _
  | .renaming .. => true
  | _ => false

theorem isChecking_of_isDownloading {stage : Stage} (h : stage.isDownloading = true) :
    stage.isChecking = false := by
  cases stage <;> simp_all [isDownloading, isChecking]

theorem ne_downloaded_of_isDownloading {stage : Stage} (h : stage.isDownloading = true) :
    stage ≠ .downloaded := by
  rintro rfl
  cases h

end Stage

section FailAttempt

variable (attempt : Nat) (failure : Failure)

@[simp] theorem isChecking_failAttempt : (failAttempt attempt failure).isChecking = false := by
  unfold failAttempt
  split <;> rfl

@[simp] theorem isDownloading_failAttempt :
    (failAttempt attempt failure).isDownloading = false := by
  unfold failAttempt
  split <;> rfl

@[simp] theorem failAttempt_ne_downloaded : failAttempt attempt failure ≠ .downloaded := by
  unfold failAttempt
  split <;> exact nofun

@[simp] theorem failAttempt_ne_kept : failAttempt attempt failure ≠ .kept := by
  unfold failAttempt
  split <;> exact nofun

end FailAttempt

/-- A step that leaves the target and schedules nothing. -/
structure Quiet (stage : Stage) (disk : Disk) (o : Outcome) : Prop where
  target : o.disk.target = disk.target
  update : o.update = none
  before : stage ≠ .downloaded
  after : o.stage ≠ .downloaded
  isChecking : o.stage.isChecking = true → stage.isChecking = true ∨ disk.target ≠ none
  isDownloading : o.stage.isDownloading = true → stage.isDownloading = true ∨ disk.target = none

/-- An attempt fails. -/
theorem Quiet.fail (hbefore : stage ≠ .downloaded) (attempt : Nat) (failure : Failure) {disk' : Disk}
    (htarget : disk'.target = disk.target) :
    Quiet stage disk ⟨failAttempt attempt failure, disk', none⟩ :=
  ⟨htarget, rfl, hbefore, by simp, by simp, by simp⟩

/-- A coroutine that has seen no target goes on. -/
theorem Quiet.goOn {stage' : Stage} (hstage : stage.isDownloading = true)
    (hstage' : stage'.isDownloading = true) {disk' : Disk} (htarget : disk'.target = disk.target) :
    Quiet stage disk ⟨stage', disk', none⟩ := by
  refine ⟨htarget, rfl, Stage.ne_downloaded_of_isDownloading hstage,
    Stage.ne_downloaded_of_isDownloading hstage', fun hchecking => ?_, fun _ => .inl hstage⟩
  rw [Stage.isChecking_of_isDownloading hstage'] at hchecking
  cases hchecking

/-- **What a coroutine can do to the target and the table**: nothing, remove the target, report a
chunk, or make the partial file the target and report the end. -/
theorem next_cases (h : next cfg disk stage answer = some o) : Quiet stage disk o ∨
    (o.disk.target = none ∧ o.update = none ∧ o.stage.isDownloading = true
      ∧ stage ≠ .downloaded) ∨
    (stage.isDownloading = true ∧ o.disk.target = disk.target ∧ o.stage.isDownloading = true) ∨
    (stage.isDownloading = true ∧ o.stage = .downloaded ∧ o.disk.target ≠ none
      ∧ ∃ length, o.update = some ⟨length, length, true⟩) := by
  unfold next at h
  split at h
  case h_1 n =>
    left
    split at h
    · rename_i bytes htarget
      obtain rfl := Option.some.inj h
      have htarget' : disk.target ≠ none := by rw [htarget]; exact nofun
      split
      · exact ⟨rfl, rfl, nofun, nofun, fun _ => .inr htarget', nofun⟩
      · exact ⟨rfl, rfl, nofun, nofun, nofun, nofun⟩
    · rename_i htarget
      obtain rfl := Option.some.inj h
      split
      · exact .fail (by simp) n _ rfl
      · exact ⟨rfl, rfl, nofun, nofun, nofun, fun _ => .inr htarget⟩
  case h_2 n =>
    left
    split at h
    · rename_i bytes htarget
      obtain rfl := Option.some.inj h
      exact ⟨rfl, rfl, nofun, nofun, fun _ => .inr (by rw [htarget]; exact nofun), nofun⟩
    · obtain rfl := Option.some.inj h
      exact .fail (by simp) n _ rfl
  case h_3 n localSize length etag =>
    left
    obtain rfl := Option.some.inj h
    split <;> exact ⟨rfl, rfl, nofun, nofun, fun _ => .inl rfl, nofun⟩
  case h_4 =>
    left
    obtain rfl := Option.some.inj h
    exact ⟨rfl, rfl, nofun, nofun, fun _ => .inl rfl, nofun⟩
  case h_5 n =>
    split at h
    · obtain rfl := Option.some.inj h
      exact .inr (.inl ⟨rfl, rfl, rfl, nofun⟩)
    · left
      obtain rfl := Option.some.inj h
      exact ⟨rfl, rfl, nofun, nofun, fun _ => .inl rfl, nofun⟩
  case h_6 =>
    left
    obtain rfl := Option.some.inj h
    exact ⟨rfl, rfl, nofun, nofun, fun _ => .inl rfl, nofun⟩
  case h_7 n length etag =>
    left
    obtain rfl := Option.some.inj h
    exact .goOn rfl rfl rfl
  case h_8 n length hash =>
    left
    obtain rfl := Option.some.inj h
    split <;> exact .goOn rfl rfl rfl
  case h_9 n length hash resumeBytePos status =>
    left
    split at h
    · obtain rfl := Option.some.inj h
      exact .fail (by simp) n _ rfl
    · split at h
      · obtain rfl := Option.some.inj h
        exact .fail (by simp) n _ rfl
      · split at h
        · obtain rfl := Option.some.inj h
          exact .fail (by simp) n _ rfl
        · split at h
          · obtain rfl := Option.some.inj h
            exact .fail (by simp) n _ rfl
          · obtain rfl := Option.some.inj h
            exact .goOn rfl rfl rfl
  case h_10 n length hash nRead =>
    left
    obtain rfl := Option.some.inj h
    exact .goOn rfl rfl rfl
  case h_11 n length hash nRead bytes _ =>
    obtain rfl := Option.some.inj h
    exact .inr (.inr (.inl ⟨rfl, rfl, rfl⟩))
  case h_12 n length hash =>
    left
    split at h
    · obtain rfl := Option.some.inj h
      exact .fail (by simp) n _ rfl
    · obtain rfl := Option.some.inj h
      split <;> exact .goOn rfl rfl rfl
  case h_13 n =>
    left
    obtain rfl := Option.some.inj h
    exact .fail (by simp) n _ rfl
  case h_14 n _ =>
    left
    obtain rfl := Option.some.inj h
    exact .fail (by simp) n _ rfl
  case h_15 n length =>
    split at h
    · left
      obtain rfl := Option.some.inj h
      exact .fail (by simp) n _ rfl
    · obtain rfl := Option.some.inj h
      exact .inr (.inr (.inr ⟨rfl, rfl, nofun, length, rfl⟩))
  case h_16 n =>
    left
    obtain rfl := Option.some.inj h
    exact ⟨rfl, rfl, nofun, nofun, nofun, nofun⟩
  case h_25 => cases h
  all_goals
    obtain rfl := Option.some.inj h
    exact .inl (.fail (by simp) _ _ rfl)

/-- The coroutine returns with the target it has found: offline, with the size that is asked for, or
because that cannot be asked for or the target not be removed. -/
def Keeps (cfg : Config) (disk : Disk) : Stage → Answer → Prop
  | .starting _, .done => disk.target.isSome ∧ cfg.skipInternet = true
  | .verifying _ localSize, .fileMeta length _ => localSize = length
  | .verifying _ _, .raised _ => True
  | .removing _, .done => disk.target = none
  | .removing _, .raised _ => True
  | _, _ => False

instance (cfg : Config) (disk : Disk) (stage : Stage) (answer : Answer) :
    Decidable (Keeps cfg disk stage answer) := by
  unfold Keeps
  split <;> infer_instance

theorem kept_iff (h : next cfg disk stage answer = some o) :
    o.stage = .kept ↔ Keeps cfg disk stage answer := by
  unfold next at h
  split at h
  case h_1 =>
    split at h <;> obtain rfl := Option.some.inj h <;> rename_i htarget <;>
      cases hskip : cfg.skipInternet <;> simp [Keeps, htarget, hskip]
  case h_5 =>
    split at h <;> obtain rfl := Option.some.inj h <;> rename_i htarget <;> simp [Keeps, htarget]
  case h_3 =>
    obtain rfl := Option.some.inj h
    simp only [Keeps]
    split <;> simp_all
  case h_2 =>
    split at h <;> obtain rfl := Option.some.inj h <;> simp [Keeps]
  case h_8 =>
    obtain rfl := Option.some.inj h
    simp only [Keeps]
    split <;> simp
  case h_9 =>
    repeat' split at h
    all_goals
      obtain rfl := Option.some.inj h
      simp [Keeps]
  case h_12 =>
    split at h <;> obtain rfl := Option.some.inj h
    · simp [Keeps]
    · simp only [Keeps]
      split <;> simp
  case h_15 =>
    split at h <;> obtain rfl := Option.some.inj h <;> simp [Keeps]
  case h_25 => cases h
  all_goals
    obtain rfl := Option.some.inj h
    simp [Keeps]

/-- What is known of a file, at the stage of its coroutine: of its target, and of what the table will
say of it. -/
structure FileInv (cfg : Config) (file : FileListEntry) (stage : Stage) (target : Option Bytes)
    (told : Option FileProgress) : Prop where
  missing : stage.isDownloading = true → target = none
  there : stage.isChecking = true → target ≠ none
  /-- A target that was not downloaded is the one that was found, and nothing was said of it. -/
  found : stage ≠ .downloaded → target ≠ none →
    target = cfg.disk file.path ∧ told = some (cfg.seed file)
  downloaded : stage = .downloaded → target ≠ none ∧ ∃ p, told = some p ∧ p.status = .complete

/-- What the table will say of a file after its update. -/
def toldAfter (told : Option FileProgress) : Option Update → Option FileProgress
  | none => told
  | some u => some (u.apply told)

/-- **A step keeps what is known of its file.** -/
theorem FileInv.next {told : Option FileProgress} (h : FileInv cfg file stage disk.target told)
    (hn : Shard.next cfg disk stage answer = some o) :
    FileInv cfg file o.stage o.disk.target (toldAfter told o.update) := by
  rcases next_cases hn with hq | ⟨htarget, hupdate, hstage, hbefore⟩ |
    ⟨hbefore, htarget, hstage⟩ | ⟨hbefore, hstage, htarget, length, hupdate⟩
  · rw [hq.target, hq.update]
    refine ⟨fun hd => ?_, fun hc => ?_, fun _ => h.found hq.before, fun hd => absurd hd hq.after⟩
    · exact (hq.isDownloading hd).elim h.missing id
    · exact (hq.isChecking hc).elim h.there id
  · rw [htarget, hupdate]
    refine ⟨fun _ => rfl, fun hc => ?_, fun _ hne => absurd rfl hne, fun hd => ?_⟩
    · rw [Stage.isChecking_of_isDownloading hstage] at hc
      cases hc
    · exact absurd hd (Stage.ne_downloaded_of_isDownloading hstage)
  · rw [htarget, h.missing hbefore]
    refine ⟨fun _ => rfl, fun hc => ?_, fun _ hne => absurd rfl hne, fun hd => ?_⟩
    · rw [Stage.isChecking_of_isDownloading hstage] at hc
      cases hc
    · exact absurd hd (Stage.ne_downloaded_of_isDownloading hstage)
  · rw [hupdate, hstage]
    exact ⟨nofun, nofun, fun hne => absurd rfl hne, fun _ => ⟨htarget, _, rfl, if_pos ⟨rfl, rfl⟩⟩⟩

end Exo.Download.Shard
