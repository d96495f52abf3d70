import Exo.Download.ShardDownloadSafety

/-!
# Runs of the download of a shard

As long as no file of the list stands where the partial file of another one does, a coroutine has its
two files and its line of the table to itself. Then the download is reported complete when each target
that was kept has the size that the list says.
-/

namespace Exo.Download.Shard

open Lib (Dict Machine Text getElem?_set_cases)
open Disaggregated (Bytes)

/-- The paths differ, and none is where the partial file of another one is. -/
def Separate (files : List FileListEntry) : Prop :=
  (files.map FileListEntry.path).Nodup ∧
    ∀ file ∈ files, ∀ other ∈ files, other.path ≠ partialPath file.path

instance (files : List FileListEntry) : Decidable (Separate files) :=
  inferInstanceAs (Decidable (_ ∧ ∀ file ∈ files, ∀ other ∈ files, _))

variable {cfg : Config} {files : List FileListEntry} {file file' : FileListEntry} {i j : Nat}

theorem Separate.path_ne (h : Separate files) (hi : files[i]? = some file)
    (hj : files[j]? = some file') (hij : i ≠ j) : file'.path ≠ file.path := by
  intro hpath
  have hlt : i < (files.map FileListEntry.path).length := by
    rw [List.length_map]
    exact (List.getElem?_eq_some_iff.mp hi).1
  refine hij ((List.getElem?_inj hlt h.1).mp ?_)
  rw [List.getElem?_map, List.getElem?_map, hi, hj, Option.map_some, Option.map_some, hpath]

/-! ## The table -/

/-- A scheduled update is written. -/
def write (fileProgress : Dict Text FileProgress) (u : Text × Update) : Dict Text FileProgress :=
  fileProgress.set u.1 (u.2.apply (fileProgress.get? u.1))

/-- The first table has a line for each file. -/
theorem get?_seeds (hnodup : (files.map FileListEntry.path).Nodup) (hfile : file ∈ files)
    (d : Dict Text FileProgress) :
    (files.foldl (fun d file => d.set file.path (cfg.seed file)) d).get? file.path
      = some (cfg.seed file) := by
  have hkeep : ∀ (files : List FileListEntry) (d : Dict Text FileProgress),
      file.path ∉ files.map FileListEntry.path →
      (files.foldl (fun d file => d.set file.path (cfg.seed file)) d).get? file.path
        = d.get? file.path := by
    intro files
    induction files with
    | nil => exact fun d _ => rfl
    | cons other files ih =>
        intro d hnot
        rw [List.map_cons, List.mem_cons, not_or] at hnot
        rw [List.foldl_cons, ih _ hnot.2, Dict.get?_set_ne _ _ hnot.1]
  induction files generalizing d with
  | nil => cases hfile
  | cons other files ih =>
      rw [List.map_cons, List.nodup_cons] at hnodup
      rw [List.foldl_cons]
      rcases List.mem_cons.mp hfile with rfl | hfile
      · rw [hkeep files _ hnodup.1, Dict.get?_set_self]
      · exact ih hnodup.2 hfile _

/-- And no others. -/
theorem exists_of_get?_seeds {d : Dict Text FileProgress} {path : Text} {p : FileProgress}
    (h : (files.foldl (fun d file => d.set file.path (cfg.seed file)) d).get? path = some p) :
    (∃ file ∈ files, file.path = path) ∨ d.get? path = some p := by
  induction files generalizing d with
  | nil => exact .inr h
  | cons other files ih =>
      rw [List.foldl_cons] at h
      rcases ih h with ⟨file, hfile, hpath⟩ | hd
      · exact .inl ⟨file, List.mem_cons_of_mem _ hfile, hpath⟩
      · rw [Dict.get?_set] at hd
        split at hd
        · rename_i hpath
          exact .inl ⟨other, List.mem_cons_self, hpath.symm⟩
        · exact .inr hd

/-- A target that was found is reported complete exactly if the list has its size. -/
theorem seed_complete_iff {target : Option Bytes} (htarget : target = cfg.disk file.path)
    (hne : target ≠ none) :
    (cfg.seed file).status = .complete ↔ file.size = target.map List.length := by
  obtain ⟨bytes, hbytes⟩ := Option.ne_none_iff_exists'.mp hne
  rw [hbytes] at htarget ⊢
  simp [Config.seed, Config.downloadedSize, ← htarget]

namespace ShardDownload

variable {s s' : ShardDownload} {a : Action} {answer : Answer}

/-- The table, once everything that is scheduled is written. -/
def settled (s : ShardDownload) : Dict Text FileProgress := s.updates.foldl write s.fileProgress

def told (s : ShardDownload) (path : Text) : Option FileProgress := s.settled.get? path

/-- What a coroutine does, it does to its own. -/
structure Resumed (cfg : Config) (s s' : ShardDownload) (i : Nat) (answer : Answer)
    (file : FileListEntry) (stage : Stage) (o : Outcome) : Prop where
  getFile : cfg.files[i]? = some file
  getStage : s.stages[i]? = some stage
  next : next cfg (s.diskOf file.path) stage answer = some o
  disk : s'.disk = Function.update (Function.update s.disk file.path o.disk.target)
    (partialPath file.path) o.disk.partialFile
  stages : s'.stages = s.stages.set i o.stage
  updates : s'.updates = s.updates ++ (o.update.map fun u => (file.path, u)).toList
  fileProgress : s'.fileProgress = s.fileProgress
  returned : s'.returned = s.returned

theorem resume_cases (hs : s.resume cfg i answer = some s') :
    ∃ file stage o, Resumed cfg s s' i answer file stage o := by
  unfold resume at hs
  split at hs
  · rename_i file stage hfile hstage
    obtain ⟨o, ho, rfl⟩ := Option.map_eq_some_iff.mp hs
    exact ⟨file, stage, o, hfile, hstage, ho, rfl, rfl, rfl, rfl, rfl⟩
  · cases hs

section Resumed

variable {stage : Stage} {o : Outcome}

/-- The targets after a step of a coroutine. -/
theorem Resumed.target (h : Resumed cfg s s' i answer file stage o) (hsep : Separate cfg.files)
    (hj : cfg.files[j]? = some file') :
    s'.disk file'.path = if j = i then o.disk.target else s.disk file'.path := by
  rw [h.disk, Function.update_of_ne
    (hsep.2 file (List.mem_of_getElem? h.getFile) file' (List.mem_of_getElem? hj))]
  split
  · rename_i hji
    subst hji
    obtain rfl := Option.some.inj (h.getFile.symm.trans hj)
    rw [Function.update_self]
  · rename_i hji
    rw [Function.update_of_ne (hsep.path_ne h.getFile hj (Ne.symm hji))]

/-- What the table will say after a step of a coroutine. -/
theorem Resumed.told (h : Resumed cfg s s' i answer file stage o) (path : Text) :
    s'.told path = if path = file.path then toldAfter (s.told file.path) o.update
      else s.told path := by
  unfold ShardDownload.told settled
  rw [h.fileProgress, h.updates, List.foldl_append]
  cases o.update with
  | none =>
      split
      · rename_i hpath
        rw [hpath]
        rfl
      · rfl
  | some u =>
      show (write _ (file.path, u)).get? path = _
      rw [write, Dict.get?_set]
      rfl

end Resumed

/-! ## One step -/

/-- What is known of all files. -/
structure Inv (cfg : Config) (s : ShardDownload) : Prop where
  file : ∀ (i : Nat) file stage, cfg.files[i]? = some file → s.stages[i]? = some stage →
    FileInv cfg file stage (s.disk file.path) (s.told file.path)
  stages : s.stages.length = cfg.files.length
  keys : ∀ path p, s.told path = some p → ∃ file ∈ cfg.files, file.path = path
  /-- Without a list nothing is ever reported. -/
  noList : cfg.fileList = none → s.updates = [] ∧ s.reported = [] ∧ s.returned.isSome
  /-- Everything is written when the download returns. -/
  returned : cfg.fileList ≠ none → s.returned.isSome →
    (∀ stage ∈ s.stages, stage = .kept ∨ stage = .downloaded) ∧ s.updates = []
      ∧ s.reported.getLast? = some (calculateRepoProgress s.fileProgress)

theorem inv_init (hsep : Separate cfg.files) : Inv cfg (init cfg) where
  file i file stage hi hstage := by
    have hst : stage = .acquiring := by
      simp only [init, List.getElem?_map, hi, Option.map_some] at hstage
      exact (Option.some.inj hstage).symm
    subst hst
    exact ⟨nofun, nofun, fun _ _ => ⟨rfl, get?_seeds hsep.1 (List.mem_of_getElem? hi) _⟩, nofun⟩
  stages := List.length_map _
  keys path p h := (exists_of_get?_seeds h).resolve_right nofun
  noList hnone := ⟨rfl, rfl, by simp [init, hnone]⟩
  returned hsome hreturned := by
    simp [init, hsome] at hreturned

/-- Once the download has returned, or if there is no list, no coroutine has anything to do. -/
theorem Inv.over (h : Inv cfg s) (hreturned : s.returned.isSome) (hi : cfg.files[i]? = some file)
    {stage : Stage} (hstage : s.stages[i]? = some stage) : stage = .kept ∨ stage = .downloaded := by
  have hsome : cfg.fileList ≠ none := by
    intro hnone
    have hfiles : cfg.files = [] := by simp [Config.files, hnone]
    rw [hfiles] at hi
    cases hi
  exact (h.returned hsome hreturned).1 stage (List.mem_of_getElem? hstage)

theorem Inv.acquire (h : Inv cfg s) (hs : s.acquire i = some s') : Inv cfg s' := by
  unfold ShardDownload.acquire at hs
  split at hs
  · rename_i hacquire
    obtain rfl := Option.some.inj hs
    have hi : i < cfg.files.length := h.stages ▸ (List.getElem?_eq_some_iff.mp hacquire.1).1
    refine ⟨?_, (List.length_set ..).trans h.stages, h.keys, h.noList, fun _ hreturned => ?_⟩
    · intro j file stage hj hstage
      rcases getElem?_set_cases hstage with ⟨rfl, rfl⟩ | ⟨-, hstage⟩
      · have hold := h.file _ file _ hj hacquire.1
        exact ⟨nofun, nofun, fun _ => hold.found nofun, nofun⟩
      · exact h.file j file stage hj hstage
    · exact (h.over hreturned (List.getElem?_eq_getElem hi) hacquire.1).elim nofun nofun
  · cases hs

theorem Inv.resume (h : Inv cfg s) (hsep : Separate cfg.files)
    (hs : s.resume cfg i answer = some s') : Inv cfg s' := by
  obtain ⟨file, stage, o, hr⟩ := resume_cases hs
  have hreturned : s'.returned.isSome → False := fun hreturned => by
    rw [hr.returned] at hreturned
    have hnext := hr.next
    rcases h.over hreturned hr.getFile hr.getStage with rfl | rfl <;> cases hnext
  refine ⟨?_, ?_, ?_, ?_, fun _ hret => (hreturned hret).elim⟩
  · intro j file' stage' hj hstage'
    rw [hr.stages] at hstage'
    rw [hr.target hsep hj, hr.told]
    rcases getElem?_set_cases hstage' with ⟨rfl, rfl⟩ | ⟨hji, hstage'⟩
    · obtain rfl := Option.some.inj (hr.getFile.symm.trans hj)
      rw [if_pos rfl, if_pos rfl]
      exact (h.file j file stage hr.getFile hr.getStage).next hr.next
    · rw [if_neg hji, if_neg (hsep.path_ne hr.getFile hj (Ne.symm hji))]
      exact h.file j file' stage' hj hstage'
  · rw [hr.stages, List.length_set]
    exact h.stages
  · intro path p hp
    rw [hr.told] at hp
    split at hp
    · rename_i hpath
      exact ⟨file, List.mem_of_getElem? hr.getFile, hpath.symm⟩
    · exact h.keys path p hp
  · intro hnone
    exact (hreturned (hr.returned ▸ (h.noList hnone).2.2)).elim

theorem Inv.update (h : Inv cfg s) (hs : s.update = some s') : Inv cfg s' := by
  unfold ShardDownload.update at hs
  split at hs
  · cases hs
  · rename_i path u updates hupdates
    obtain rfl := Option.some.inj hs
    have hsettled : settled { s with
        fileProgress := s.fileProgress.set path (u.apply (s.fileProgress.get? path))
        updates := updates
        reported := s.reported ++ [calculateRepoProgress
          (s.fileProgress.set path (u.apply (s.fileProgress.get? path)))] } = s.settled := by
      unfold settled
      rw [hupdates, List.foldl_cons]
      rfl
    have hnone : s.updates ≠ [] := by
      rw [hupdates]
      exact nofun
    refine ⟨?_, h.stages, ?_, fun hn => absurd (h.noList hn).1 hnone,
      fun hl hr => absurd (h.returned hl hr).2.1 hnone⟩
    · intro j file stage hj hstage
      unfold told
      rw [hsettled]
      exact h.file j file stage hj hstage
    · intro path p hp
      unfold told at hp
      rw [hsettled] at hp
      exact h.keys path p hp

theorem Inv.finish (h : Inv cfg s) (hs : s.finish cfg = some s') : Inv cfg s' := by
  unfold ShardDownload.finish at hs
  split at hs
  · rename_i hover
    obtain rfl := Option.some.inj hs
    refine ⟨h.file, h.stages, h.keys, fun hn => ?_, fun _ _ => ⟨hover.1, hover.2.1, ?_⟩⟩
    · have hreturned := (h.noList hn).2.2
      rw [Option.isNone_iff_eq_none.mp hover.2.2] at hreturned
      cases hreturned
    · exact List.getLast?_concat
  · cases hs

/-- **Every step keeps what is known.** -/
theorem inv_step (hsep : Separate cfg.files) (h : Inv cfg s) (hs : s.step cfg a = some s') :
    Inv cfg s' := by
  cases a with
  | acquire i => exact h.acquire hs
  | resume i answer => exact h.resume hsep hs
  | update => exact h.update hs
  | finish => exact h.finish hs

/-! ## Whole runs -/

/-- **A finished download is reported complete**: every file is there, and the last progress says so. -/
structure Reported (cfg : Config) (s : ShardDownload) : Prop where
  targets : ∀ file ∈ cfg.files, ∃ bytes, s.disk file.path = some bytes
  complete : ∃ progress, s.reported.getLast? = some progress ∧ progress.status = .complete

/-- A target that is kept has the size that the list says. -/
def KeepsListed (cfg : Config) (s : ShardDownload) : Action → Prop
  | .resume i answer => ∀ file ∈ cfg.files[i]?, ∀ stage ∈ s.stages[i]?,
      Keeps cfg (s.diskOf file.path) stage answer →
        file.size = (s.disk file.path).map List.length
  | _ => True

instance (cfg : Config) (s : ShardDownload) : (a : Action) → Decidable (KeepsListed cfg s a)
  | .resume i answer => inferInstanceAs (Decidable (∀ file ∈ cfg.files[i]?, ∀ stage ∈ s.stages[i]?,
      Keeps cfg (s.diskOf file.path) stage answer →
        file.size = (s.disk file.path).map List.length))
  | .acquire _ | .update | .finish => .isTrue trivial

/-- Each target that was kept has the size that the list says. -/
def Listed (cfg : Config) (s : ShardDownload) : Prop :=
  ∀ (i : Nat) file, cfg.files[i]? = some file → s.stages[i]? = some .kept →
    file.size = (s.disk file.path).map List.length

theorem listed_init : Listed cfg (init cfg) := by
  intro i file hi hkept
  simp only [init, List.getElem?_map, hi, Option.map_some, Option.some.injEq] at hkept
  cases hkept

/-- The target of a coroutine that keeps it stays as it is. -/
theorem target_of_kept {disk : Disk} {stage : Stage} {o : Outcome}
    (hn : next cfg disk stage answer = some o) (hkept : o.stage = .kept) :
    o.disk.target = disk.target := by
  rcases next_cases hn with hq | ⟨-, -, hstage, -⟩ | ⟨-, htarget, -⟩ | ⟨-, hstage, -⟩
  · exact hq.target
  · rw [hkept] at hstage
    cases hstage
  · exact htarget
  · rw [hkept] at hstage
    cases hstage

/-- Nothing happens to a target that was kept. -/
theorem kept_step (hsep : Separate cfg.files) (hs : s.step cfg a = some s')
    (hi : cfg.files[i]? = some file) (hkept : s.stages[i]? = some .kept) :
    s'.stages[i]? = some .kept ∧ s'.disk file.path = s.disk file.path := by
  cases a with
  | acquire j =>
      simp only [step, acquire] at hs
      split at hs
      · rename_i hacquire
        obtain rfl := Option.some.inj hs
        refine ⟨?_, rfl⟩
        rw [List.getElem?_set_ne]
        · exact hkept
        · rintro rfl
          rw [hkept] at hacquire
          cases hacquire.1
      · cases hs
  | resume j answer =>
      obtain ⟨other, stage, o, hr⟩ := resume_cases hs
      have hji : i ≠ j := by
        rintro rfl
        obtain rfl := Option.some.inj (hkept.symm.trans hr.getStage)
        cases hr.next
      refine ⟨?_, ?_⟩
      · rw [hr.stages, List.getElem?_set_ne (Ne.symm hji)]
        exact hkept
      · rw [hr.target hsep hi, if_neg hji]
  | update =>
      simp only [step, update] at hs
      split at hs
      · cases hs
      · obtain rfl := Option.some.inj hs
        exact ⟨hkept, rfl⟩
  | finish =>
      simp only [step, finish] at hs
      split at hs
      · obtain rfl := Option.some.inj hs
        exact ⟨hkept, rfl⟩
      · cases hs

/-- What was kept once stays kept. -/
theorem Listed.of_step (hsep : Separate cfg.files) (hs : s.step cfg a = some s')
    (h : Listed cfg s') : Listed cfg s := by
  intro i file hi hkept
  obtain ⟨hkept', hdisk⟩ := kept_step hsep hs hi hkept
  rw [← hdisk]
  exact h i file hi hkept'

/-- **A step keeps targets of the right size exactly if the one that it keeps has it.** -/
theorem listed_step (hsep : Separate cfg.files) (h : Listed cfg s) (hs : s.step cfg a = some s') :
    Listed cfg s' ↔ KeepsListed cfg s a := by
  cases a with
  | acquire j =>
      refine iff_of_true ?_ trivial
      simp only [step, acquire] at hs
      split at hs
      · obtain rfl := Option.some.inj hs
        intro i file hi hkept
        rcases getElem?_set_cases hkept with ⟨-, hst⟩ | ⟨-, hkept⟩
        · cases hst
        · exact h i file hi hkept
      · cases hs
  | resume j answer =>
      obtain ⟨other, stage, o, hr⟩ := resume_cases hs
      have hkeeps := kept_iff hr.next
      constructor
      · intro h' file hfile stage' hstage' hk
        obtain rfl := Option.some.inj (hr.getFile.symm.trans hfile)
        obtain rfl := Option.some.inj (hr.getStage.symm.trans hstage')
        have hkept := hkeeps.mpr hk
        have hsize := h' j other hr.getFile (by
          rw [hr.stages, List.getElem?_set_self (List.getElem?_eq_some_iff.mp hr.getStage).1, hkept])
        rwa [hr.target hsep hr.getFile, if_pos rfl, target_of_kept hr.next hkept] at hsize
      · intro hok i file hi hkept
        rw [hr.stages] at hkept
        rw [hr.target hsep hi]
        rcases getElem?_set_cases hkept with ⟨rfl, hst⟩ | ⟨hij, hkept⟩
        · obtain rfl := Option.some.inj (hr.getFile.symm.trans hi)
          rw [if_pos rfl, target_of_kept hr.next hst.symm]
          exact hok other hr.getFile stage hr.getStage (hkeeps.mp hst.symm)
        · rw [if_neg hij]
          exact h i file hi hkept
  | update =>
      refine iff_of_true ?_ trivial
      simp only [step, update] at hs
      split at hs
      · cases hs
      · obtain rfl := Option.some.inj hs
        exact h
  | finish =>
      refine iff_of_true ?_ trivial
      simp only [step, finish] at hs
      split at hs
      · obtain rfl := Option.some.inj hs
        exact h
      · cases hs

/-- **What the last progress says**: that everything is complete, exactly if each target that was
kept has the size that the list says. -/
theorem Inv.toldComplete_iff (h : Inv cfg s) (hlist : cfg.fileList ≠ none)
    (hreturned : s.returned.isSome) : Reported cfg s ↔ Listed cfg s := by
  obtain ⟨hover, hupdates, hlast⟩ := h.returned hlist hreturned
  have htold : ∀ path, s.told path = s.fileProgress.get? path := by
    intro path
    rw [told, settled, hupdates]
    rfl
  have hstage : ∀ (i : Nat) file, cfg.files[i]? = some file →
      s.stages[i]? = some .kept ∨ s.stages[i]? = some .downloaded := by
    intro i file hi
    have hlt : i < s.stages.length := h.stages ▸ (List.getElem?_eq_some_iff.mp hi).1
    rcases hover s.stages[i] (List.getElem_mem hlt) with hst | hst
    · exact .inl (by rw [List.getElem?_eq_getElem hlt, hst])
    · exact .inr (by rw [List.getElem?_eq_getElem hlt, hst])
  have htargets : ∀ file ∈ cfg.files, ∃ bytes, s.disk file.path = some bytes := by
    intro file hfile
    obtain ⟨i, hi⟩ := List.mem_iff_getElem?.mp hfile
    rcases hstage i file hi with hst | hst
    · exact Option.ne_none_iff_exists'.mp ((h.file i file _ hi hst).there rfl)
    · exact Option.ne_none_iff_exists'.mp ((h.file i file _ hi hst).downloaded rfl).1
  have hcomplete : (calculateRepoProgress s.fileProgress).status = .complete ↔
      ∀ p ∈ s.fileProgress.values, p.status = .complete := by
    unfold calculateRepoProgress
    dsimp only
    split
    · rename_i hall
      exact iff_of_true rfl hall
    · rename_i hnot
      refine iff_of_false ?_ hnot
      split <;> exact nofun
  constructor
  · rintro ⟨-, progress, hprogress, hstatus⟩ i file hi hkept
    obtain rfl := Option.some.inj (hlast.symm.trans hprogress)
    have hfile := h.file i file _ hi hkept
    obtain ⟨htarget, hseed⟩ := hfile.found nofun (hfile.there rfl)
    refine (seed_complete_iff htarget (hfile.there rfl)).mp (hcomplete.mp hstatus _ ?_)
    exact Dict.mem_values.mpr ⟨file.path, by rw [← htold, hseed]⟩
  · intro hlisted
    refine ⟨htargets, _, hlast, hcomplete.mpr fun p hp => ?_⟩
    obtain ⟨path, hpath⟩ := Dict.mem_values.mp hp
    rw [← htold] at hpath
    obtain ⟨file, hmem, rfl⟩ := h.keys path p hpath
    obtain ⟨i, hi⟩ := List.mem_iff_getElem?.mp hmem
    rcases hstage i file hi with hst | hst
    · -- the line is still the one that was written at first
      have hfile := h.file i file _ hi hst
      obtain ⟨htarget, hseed⟩ := hfile.found nofun (hfile.there rfl)
      obtain rfl := Option.some.inj (hseed.symm.trans hpath)
      exact (seed_complete_iff htarget (hfile.there rfl)).mpr (hlisted i file hi hst)
    · obtain ⟨-, p', hp', hstatus⟩ := (h.file i file _ hi hst).downloaded rfl
      obtain rfl := Option.some.inj (hp'.symm.trans hpath)
      exact hstatus

/-- **A download that returns is reported complete** exactly if there is a file list, and each target
that is kept on the way has the size that the list says. -/
theorem reported_iff (hsep : Separate cfg.files) {as : List Action} {s : ShardDownload}
    (h : (machine cfg).run (machine cfg).init as = some s) (hreturned : s.returned.isSome) :
    Reported cfg s ↔ cfg.fileList ≠ none ∧
      ∀ k a t, as[k]? = some a → (machine cfg).run (machine cfg).init (as.take k) = some t →
        KeepsListed cfg t a := by
  have hstep : ∀ s a s', Inv cfg s → (machine cfg).step s a = some s' → Inv cfg s' :=
    fun s a s' hi hs => inv_step hsep hi hs
  have hinv : Inv cfg s := Machine.invariant_of_run hstep (inv_init hsep) h
  by_cases hlist : cfg.fileList = none
  · refine iff_of_false ?_ fun hright => hright.1 hlist
    rintro ⟨-, progress, hprogress, -⟩
    rw [(hinv.noList hlist).2.1] at hprogress
    cases hprogress
  · have hguard := Machine.throughout_iff (P := Listed cfg) (m := machine cfg)
      (fun s a s' hl hs => listed_step hsep hl hs) listed_init h
    rw [hinv.toldComplete_iff hlist hreturned, and_iff_right hlist]
    refine Iff.trans ?_ hguard
    constructor
    · -- what was kept on the way is still there at the end
      intro hlisted k t (ht : (machine cfg).run (machine cfg).init (as.take k) = some t)
      by_contra hnot
      have hrest : (machine cfg).run t (as.drop k) = some s := by
        rw [← List.take_append_drop k as, Machine.run_append, ht] at h
        exact h
      exact Machine.invariant_of_run (P := fun s => ¬ Listed cfg s)
        (fun s a s' hn hs hl => hn (hl.of_step hsep hs)) hnot hrest hlisted
    · intro hall
      exact hall as.length s (by rw [List.take_length]; exact h)

/-- A directory with one file. -/
def dirOf (path : Text) (bytes : Bytes) : Text → Option Bytes :=
  Function.update (fun _ => none) path (some bytes)

/-- A file that is missing, and an empty one that is there. -/
def oneMissing : Config where
  hashes := ⟨fun _ => "h", fun _ => "h"⟩
  fileList := some [⟨[97], some 1⟩, ⟨[98], some 0⟩]
  isAllowed := fun _ => true
  isImageModel := false
  skipInternet := false
  maxParallelDownloads := 2
  disk := dirOf [98] []

/-- The empty one is kept because its size cannot be asked for, and the other one is downloaded. -/
def oneDownload : List Action :=
  [.acquire 0, .resume 0 .done, .acquire 1, .resume 1 .done, .resume 0 (.fileMeta 1 "h"),
    .resume 1 .done, .resume 0 .done, .resume 1 (.raised .other), .resume 0 (.response 200),
    .resume 0 (.chunk [7]), .update, .resume 0 (.chunk []), .resume 0 .done, .resume 0 .done,
    .update, .finish]

theorem reported_oneMissing : ∃ s,
    (machine oneMissing).run (machine oneMissing).init oneDownload = some s
      ∧ s.reported.map RepoProgress.status = [.inProgress, .complete, .complete]
      ∧ Reported oneMissing s := by
  have hrun : ((machine oneMissing).runWhen (KeepsListed oneMissing) (machine oneMissing).init
      oneDownload).map (fun s => (s.reported.map RepoProgress.status, s.returned.isSome))
      = some ([.inProgress, .complete, .complete], true) := by decide
  obtain ⟨s, hs, hsample⟩ := Option.map_eq_some_iff.mp hrun
  obtain ⟨hs, hok⟩ := Machine.runWhen_eq_some.mp hs
  obtain ⟨hreported, hreturned⟩ := Prod.mk.inj hsample
  exact ⟨s, hs, hreported, (reported_iff (by decide) hs hreturned).mpr ⟨nofun, hok⟩⟩

/-- A file that is there, in a list that is older than it. -/
def staleList : Config where
  hashes := ⟨fun _ => "h", fun _ => "h"⟩
  fileList := some [⟨[97], some 3⟩]
  isAllowed := fun _ => true
  isImageModel := false
  skipInternet := false
  maxParallelDownloads := 8
  disk := dirOf [97] [1, 2]

/-- It is kept, and never reported complete. -/
theorem not_forall_reported : ¬ ∀ (cfg : Config) (as : List Action) (s : ShardDownload),
    cfg.fileList ≠ none → Separate cfg.files →
      (machine cfg).run (machine cfg).init as = some s → s.returned.isSome → Reported cfg s := by
  intro hall
  have hrun : ((machine staleList).run (machine staleList).init [.acquire 0, .resume 0 .done,
      .resume 0 .done, .resume 0 (.fileMeta 2 "h"), .finish]).map
      (fun s => (s.reported.map RepoProgress.status, s.returned.isSome))
      = some ([.notStarted], true) := by decide
  obtain ⟨s, hs, hsample⟩ := Option.map_eq_some_iff.mp hrun
  obtain ⟨hreported, hreturned⟩ := Prod.mk.inj hsample
  obtain ⟨-, progress, hprogress, hstatus⟩ := hall staleList _ s nofun (by decide) hs hreturned
  have hmem := List.mem_map_of_mem (f := RepoProgress.status) (List.mem_of_getLast? hprogress)
  rw [hreported, hstatus] at hmem
  exact absurd hmem (by decide)

end ShardDownload

end Exo.Download.Shard
