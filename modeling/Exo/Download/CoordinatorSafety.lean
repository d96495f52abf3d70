import Exo.Download.Coordinator

/-!
# Whether the maps are kept

What an action does to the two maps is one of four things: nothing that matters, a download that goes on,
a new wrapper, or the cleanup of one. A run keeps the maps right as long as each wrapper that cleans up is
the only one of its model, and nobody reports a download that is not tracked.
-/

namespace Exo.Download

open Lib (Dict Machine)

namespace Coordinator

variable {c c' : Coordinator} {modelId : ModelId} {wrapper : Nat}

/-! ## What an action does to the maps -/

/-- No status becomes `DownloadOngoing`, and no wrapper begins or ends. -/
structure Quiet (c c' : Coordinator) : Prop where
  status : ∀ m, c'.downloadStatus.get? m = some .ongoing → c.downloadStatus.get? m = some .ongoing
  active : c'.activeDownloads = c.activeDownloads
  unfinished : ∀ m i, c'.Unfinished m i ↔ c.Unfinished m i

/-- Somebody reports that a download goes on. -/
structure Reports (c c' : Coordinator) (modelId : ModelId) : Prop where
  status : ∀ m, c'.downloadStatus.get? m = some .ongoing
    ↔ m = modelId ∨ c.downloadStatus.get? m = some .ongoing
  active : c'.activeDownloads = c.activeDownloads
  unfinished : ∀ m i, c'.Unfinished m i ↔ c.Unfinished m i

/-- A wrapper begins. -/
structure Begins (c c' : Coordinator) (modelId : ModelId) : Prop where
  status : ∀ m, m ≠ modelId → c'.downloadStatus.get? m = c.downloadStatus.get? m
  active : c'.activeDownloads = c.activeDownloads.set modelId c.wrappers.length
  unfinished : ∀ m i, c'.Unfinished m i
    ↔ (m = modelId ∧ i = c.wrappers.length) ∨ c.Unfinished m i

/-- A wrapper cleans up. -/
structure Finishes (c c' : Coordinator) (modelId : ModelId) (wrapper : Nat) : Prop where
  own : c.Unfinished modelId wrapper
  status : c'.downloadStatus = c.downloadStatus
  active : c'.activeDownloads = c.activeDownloads.erase modelId
  unfinished : ∀ m i, c'.Unfinished m i ↔ c.Unfinished m i ∧ i ≠ wrapper

/-! ## What it does to their being right -/

theorem lt_of_unfinished (h : c.Unfinished modelId wrapper) : wrapper < c.wrappers.length := by
  obtain ⟨w, hw, -⟩ := h
  exact (List.getElem?_eq_some_iff.mp hw).1

theorem model_of_unfinished {m : ModelId} (h : c.Unfinished modelId wrapper)
    (h' : c.Unfinished m wrapper) : m = modelId := by
  obtain ⟨w, hw, hmodel, -⟩ := h
  obtain ⟨w', hw', hmodel', -⟩ := h'
  rw [hw] at hw'
  injection hw' with hw'
  rw [← hmodel, ← hmodel', hw']

/-- Among the wrappers that have not finished there is a newest one. -/
theorem exists_newest (h : c.Unfinished modelId wrapper) : ∃ newest, c.Unfinished modelId newest
    ∧ ∀ other, c.Unfinished modelId other → other ≤ newest := by
  have hbounded : ∀ n, (∀ other, c.Unfinished modelId other → other < n + wrapper + 1) →
      ∃ newest, c.Unfinished modelId newest ∧ ∀ other, c.Unfinished modelId other → other ≤ newest := by
    intro n
    induction n with
    | zero => exact fun hlt => ⟨wrapper, h, fun other hother => by have := hlt other hother; omega⟩
    | succ n ih =>
        intro hlt
        by_cases hlast : c.Unfinished modelId (n + 1 + wrapper)
        · exact ⟨_, hlast, fun other hother => by have := hlt other hother; omega⟩
        · refine ih fun other hother => ?_
          have hle := hlt other hother
          have hne : other ≠ n + 1 + wrapper := fun heq => hlast (heq ▸ hother)
          omega
  refine hbounded c.wrappers.length fun other hother => ?_
  have := lt_of_unfinished hother
  omega

theorem Bookkept.quiet (h : c.Bookkept) (hq : Quiet c c') : c'.Bookkept := by
  refine ⟨fun m hm => ?_, fun m i => ?_⟩
  · rw [hq.active]
    exact h.ongoing m (hq.status m hm)
  · simp only [hq.active, hq.unfinished]
    exact h.newest m i

theorem Bookkept.begins (h : c.Bookkept) (hb : Begins c c' modelId) : c'.Bookkept := by
  refine ⟨fun m hm => ?_, fun m i => ?_⟩
  · rw [hb.active, Dict.mem_keys_set]
    by_cases heq : m = modelId
    · exact .inl heq
    · exact .inr (h.ongoing m (hb.status m heq ▸ hm))
  · rw [hb.active, Dict.get?_set]
    simp only [hb.unfinished]
    split
    · next heq =>
      -- the new wrapper is the newest one
      subst heq
      constructor
      · intro hi
        injection hi with hi
        subst hi
        refine ⟨.inl ⟨rfl, rfl⟩, fun other hother => ?_⟩
        obtain ⟨-, rfl⟩ | hother := hother
        · exact Nat.le_refl _
        · exact Nat.le_of_lt (lt_of_unfinished hother)
      · intro ⟨hi, hnewest⟩
        obtain ⟨-, rfl⟩ | hi := hi
        · rfl
        · have hle := hnewest _ (.inl ⟨rfl, rfl⟩)
          have hlt := lt_of_unfinished hi
          omega
    · next hne =>
      have hother : ∀ i, ((m = modelId ∧ i = c.wrappers.length) ∨ c.Unfinished m i)
          ↔ c.Unfinished m i := fun i => or_iff_right fun heq => hne heq.1
      simp only [hother]
      exact h.newest m i

theorem bookkept_reports (h : c.Bookkept) (hr : Reports c c' modelId) :
    c'.Bookkept ↔ modelId ∈ c.activeDownloads.keys := by
  constructor
  · intro h'
    rw [← hr.active]
    exact h'.ongoing modelId ((hr.status modelId).mpr (.inl rfl))
  · intro hmem
    refine ⟨fun m hm => ?_, fun m i => ?_⟩
    · rw [hr.active]
      obtain rfl | hm := (hr.status m).mp hm
      · exact hmem
      · exact h.ongoing m hm
    · simp only [hr.active, hr.unfinished]
      exact h.newest m i

theorem bookkept_finishes (h : c.Bookkept) (hf : Finishes c c' modelId wrapper) :
    c'.Bookkept ↔ c.downloadStatus.get? modelId ≠ some .ongoing
      ∧ ∀ other, c.Unfinished modelId other → other = wrapper := by
  constructor
  · intro h'
    have hnone : c'.activeDownloads.get? modelId = none := by
      rw [hf.active]
      exact Dict.get?_erase_self _ _
    refine ⟨fun hongoing => ?_, fun other hother => Classical.byContradiction fun hne => ?_⟩
    · have hkey := h'.ongoing modelId (by rw [hf.status]; exact hongoing)
      rw [Dict.mem_keys, hnone] at hkey
      exact nomatch hkey
    · -- another wrapper is left, and the newest one is tracked
      obtain ⟨newest, hnewest⟩ := exists_newest ((hf.unfinished modelId other).mpr ⟨hother, hne⟩)
      rw [(h'.newest modelId newest).mpr hnewest] at hnone
      exact nomatch hnone
  · intro ⟨hstatus, halone⟩
    refine ⟨fun m hm => ?_, fun m i => ?_⟩
    · rw [hf.status] at hm
      rw [hf.active, Dict.mem_keys_erase]
      exact ⟨h.ongoing m hm, fun heq => hstatus (heq ▸ hm)⟩
    · rw [hf.active, Dict.get?_erase]
      simp only [hf.unfinished]
      split
      · next heq =>
        subst heq
        refine iff_of_false (fun h => nomatch h) fun hi => ?_
        exact hi.1.2 (halone i hi.1.1)
      · next hne =>
        have hother : ∀ i, (c.Unfinished m i ∧ i ≠ wrapper) ↔ c.Unfinished m i := fun i =>
          and_iff_left_of_imp fun hi heq => hne (model_of_unfinished hf.own (heq ▸ hi))
        simp only [hother]
        exact h.newest m i

/-! ## Every action -/

theorem unfinished_modify {f : Wrapper → Wrapper} (i : Nat)
    (hf : ∀ w, c.wrappers[i]? = some w → (f w).modelId = w.modelId
      ∧ ((f w).phase ≠ .finished ↔ w.phase ≠ .finished)) (m : ModelId) (j : Nat) :
    Unfinished { c with wrappers := c.wrappers.modify i f } m j ↔ c.Unfinished m j := by
  rw [Unfinished, Unfinished]
  show (∃ w, (c.wrappers.modify i f)[j]? = some w ∧ _) ↔ _
  rw [List.getElem?_modify]
  by_cases heq : i = j
  · subst heq
    cases hw : c.wrappers[i]? with
    | none => simp
    | some w =>
        obtain ⟨hmodel, hphase⟩ := hf w hw
        simp [hmodel, hphase]
  · simp [heq]

/-- Cancelling a scope and changing a status, other than to a download that goes on. -/
theorem quiet_setStatus (modelId : ModelId) {status : DownloadStatus} (hne : status ≠ .ongoing)
    (hwrappers : ∀ m i, c'.Unfinished m i ↔ c.Unfinished m i)
    (hactive : c'.activeDownloads = c.activeDownloads)
    (hstatus : c'.downloadStatus = c.downloadStatus.set modelId status) : Quiet c c' := by
  refine ⟨fun m hm => ?_, hactive, hwrappers⟩
  rw [hstatus, Dict.get?_set] at hm
  split at hm
  · injection hm with hm
    exact absurd hm hne
  · exact hm

theorem quiet_of_eq (hwrappers : ∀ m i, c'.Unfinished m i ↔ c.Unfinished m i)
    (hactive : c'.activeDownloads = c.activeDownloads)
    (hstatus : c'.downloadStatus = c.downloadStatus) : Quiet c c' :=
  ⟨fun _ hm => hstatus ▸ hm, hactive, hwrappers⟩

theorem reports_setStatus (hwrappers : ∀ m i, c'.Unfinished m i ↔ c.Unfinished m i)
    (hactive : c'.activeDownloads = c.activeDownloads)
    (hstatus : c'.downloadStatus = c.downloadStatus.set modelId .ongoing) : Reports c c' modelId := by
  refine ⟨fun m => ?_, hactive, hwrappers⟩
  rw [hstatus, Dict.get?_set]
  split
  · next heq => exact iff_of_true rfl (.inl heq)
  · next hne => exact (or_iff_right hne).symm

theorem unfinished_cancelScope (m : ModelId) (i : Nat) :
    (c.cancelScope modelId).Unfinished m i ↔ c.Unfinished m i := by
  rw [cancelScope]
  split
  · exact Iff.rfl
  · exact unfinished_modify (f := fun w => { w with cancelled := true }) _ (fun _ _ => ⟨rfl, Iff.rfl⟩) m i

theorem active_cancelScope : (c.cancelScope modelId).activeDownloads = c.activeDownloads := by
  rw [cancelScope]
  split <;> rfl

theorem status_cancelScope : (c.cancelScope modelId).downloadStatus = c.downloadStatus := by
  rw [cancelScope]
  split <;> rfl

theorem completed_ne (found : Found) : completed found ≠ .ongoing := fun h => nomatch h

theorem begins_startDownloadTask (modelId : ModelId) : Begins c (c.startDownloadTask modelId) modelId := by
  refine ⟨fun m hm => Dict.get?_set_ne _ _ hm, rfl, fun m i => ?_⟩
  rw [Unfinished, Unfinished]
  show (∃ w, (c.wrappers ++ [({ modelId } : Wrapper)])[i]? = some w ∧ _) ↔ _
  rw [List.getElem?_append]
  split
  · next hlt => exact (or_iff_right fun heq => Nat.ne_of_lt hlt heq.2).symm
  · next hge =>
    rw [List.getElem?_eq_none (l := c.wrappers) (Nat.le_of_not_lt hge)]
    constructor
    · intro ⟨w, hw, hmodel, _⟩
      have hzero : i - c.wrappers.length < 1 := (List.getElem?_eq_some_iff.mp hw).1
      rw [List.getElem?_singleton, if_pos (by omega)] at hw
      injection hw with hw
      subst hw
      exact .inl ⟨hmodel.symm, by omega⟩
    · rintro (⟨rfl, rfl⟩ | ⟨w, hw, -⟩)
      · exact ⟨{ modelId := m }, by simp, rfl, fun h => nomatch h⟩
      · exact nomatch hw

theorem finishes_finish {w : Wrapper} (hw : c.wrappers[wrapper]? = some w) (hphase : w.phase ≠ .finished)
    (hmodel : w.modelId = modelId) : Finishes c (c.finish wrapper modelId) modelId wrapper := by
  refine ⟨⟨w, hw, hmodel, hphase⟩, rfl, rfl, fun m i => ?_⟩
  rw [Unfinished, Unfinished]
  show (∃ w, (c.wrappers.modify wrapper fun w => { w with phase := .finished })[i]? = some w ∧ _) ↔ _
  rw [List.getElem?_modify]
  by_cases heq : wrapper = i
  · subst heq
    rw [hw]
    simp
  · simp [heq, Ne.symm heq]

theorem quiet_receive (command : Command) : Quiet c (c.receive command) := by
  cases command with
  | startDownload modelId =>
      rw [receive, startDownload]
      split <;> exact quiet_of_eq (fun _ _ => Iff.rfl) rfl rfl
  | deleteDownload modelId =>
      rw [receive, deleteDownload]
      split
      · exact quiet_of_eq (fun _ _ => Iff.rfl) rfl rfl
      · exact quiet_of_eq unfinished_cancelScope active_cancelScope status_cancelScope
  | cancelDownload modelId =>
      rw [receive, cancelDownload]
      split
      · refine quiet_setStatus modelId (nofun : DownloadStatus.pending ≠ .ongoing)
          unfinished_cancelScope active_cancelScope ?_
        show Dict.set _ _ _ = _
        rw [status_cancelScope]
      · exact quiet_of_eq (fun _ _ => Iff.rfl) rfl rfl

/-- What an action does to the maps, and when it is in time. -/
inductive Effect (c c' : Coordinator) (a : Action) : Prop where
  | quiet (h : Quiet c c') (inTime : c.InTime a)
  | reports (modelId : ModelId) (h : Reports c c' modelId)
      (inTime : c.InTime a ↔ modelId ∈ c.activeDownloads.keys)
  | begins (modelId : ModelId) (h : Begins c c' modelId) (inTime : c.InTime a)
  | finishes (modelId : ModelId) (wrapper : Nat) (h : Finishes c c' modelId wrapper)
      (inTime : c.InTime a ↔ c.downloadStatus.get? modelId ≠ some .ongoing
        ∧ ∀ other, c.Unfinished modelId other → other = wrapper)

theorem cleansUp_iff {w : Wrapper} (hw : c.wrappers[wrapper]? = some w) : c.CleansUp wrapper
    ↔ c.downloadStatus.get? w.modelId ≠ some .ongoing
      ∧ ∀ other, c.Unfinished w.modelId other → other = wrapper := by
  refine ⟨fun h => h w hw, fun h w' hw' => ?_⟩
  rw [hw] at hw'
  injection hw' with hw'
  exact hw' ▸ h

theorem effect_resolved {found : Found} (h : c.resolved found = some c') :
    Effect c c' (.resolved found) := by
  unfold resolved at h
  split at h
  · injection h with h
    subst h
    exact .quiet (quiet_setStatus _ (completed_ne _) (fun _ _ => Iff.rfl) rfl rfl) trivial
  · injection h with h
    subst h
    exact .quiet (quiet_setStatus _ (nofun : DownloadStatus.pending ≠ .ongoing) (fun _ _ => Iff.rfl) rfl rfl)
      trivial
  · injection h with h
    subst h
    exact .quiet (quiet_setStatus _ (completed_ne _) (fun _ _ => Iff.rfl) rfl rfl) trivial
  · exact nomatch h

variable {status : ProgressStatus}

theorem effect_checked (h : c.checked status = some c') :
    Effect c c' (.checked status) := by
  unfold checked at h
  split at h
  · next modelId _ =>
    split at h
    · injection h with h
      subst h
      exact .quiet (quiet_of_eq (fun _ _ => Iff.rfl) rfl rfl) trivial
    · split at h
      · injection h with h
        subst h
        exact .quiet (quiet_setStatus modelId (nofun : DownloadStatus.failed ≠ .ongoing) (fun _ _ => Iff.rfl)
          rfl rfl) trivial
      · injection h with h
        subst h
        obtain ⟨hstatus, hactive, hunfinished⟩ := begins_startDownloadTask (c := c) modelId
        exact .begins modelId ⟨hstatus, hactive, hunfinished⟩ trivial
  · exact nomatch h

theorem effect_leave {outcome : Outcome} (h : c.leave wrapper outcome = some c') :
    Effect c c' (.leave wrapper outcome) := by
  unfold leave at h
  split at h
  · next modelId cancelled hw =>
    have hfinishes : Finishes c (c.finish wrapper modelId) modelId wrapper :=
      finishes_finish hw (fun h => nomatch h) rfl
    cases outcome with
    | returned =>
        injection h with h
        subst h
        exact .finishes modelId wrapper hfinishes (cleansUp_iff hw)
    | cancelled =>
        dsimp only at h
        split at h
        · injection h with h
          subst h
          exact .finishes modelId wrapper hfinishes (cleansUp_iff hw)
        · exact nomatch h
    | raised =>
        injection h with h
        subst h
        refine .quiet (quiet_setStatus modelId (nofun : DownloadStatus.failed ≠ .ongoing) ?_ rfl rfl) trivial
        -- the wrapper is in its `except` branch
        refine unfinished_modify (f := fun w => { w with phase := .failing }) wrapper fun w hw' => ⟨rfl, ?_⟩
        rw [hw] at hw'
        injection hw' with hw'
        subst hw'
        exact iff_of_true (fun h => nomatch h) fun h => nomatch h
  · exact nomatch h

theorem effect_failed (h : c.failed wrapper = some c') : Effect c c' (.failed wrapper) := by
  unfold failed at h
  split at h
  · next modelId cancelled hw =>
    injection h with h
    subst h
    exact .finishes modelId wrapper (finishes_finish hw (fun h => nomatch h) rfl) (cleansUp_iff hw)
  · exact nomatch h

theorem effect_progress {currentTime : Nat}
    (h : c.progress modelId status currentTime = some c') :
    Effect c c' (.progress modelId status currentTime) := by
  unfold progress at h
  split at h
  · cases status with
    | notStarted | complete =>
        injection h with h
        subst h
        exact .quiet (quiet_of_eq (fun _ _ => Iff.rfl) rfl rfl) trivial
    | inProgress =>
        dsimp only at h
        split at h
        · next hthrottled =>
          injection h with h
          subst h
          refine .quiet (quiet_of_eq (fun _ _ => Iff.rfl) rfl rfl) fun hnot => ?_
          rw [hthrottled] at hnot
          exact nomatch hnot
        · next hthrottled =>
          injection h with h
          subst h
          refine .reports modelId (reports_setStatus (fun _ _ => Iff.rfl) rfl rfl) ⟨fun hin => ?_, fun hin _ => hin⟩
          exact hin (Bool.not_eq_true _ ▸ hthrottled)
  · exact nomatch h

theorem inTime_scanResolved (h : ∀ m, c.scan ≠ .resolving m .ongoing) (found : Found) :
    c.InTime (.scanResolved found) := by
  cases found with
  | some found => trivial
  | none => exact fun m hm => absurd hm (h m)

theorem effect_scanResolved {found : Found} (h : c.scanResolved found = some c') :
    Effect c c' (.scanResolved found) := by
  unfold scanResolved at h
  split at h
  · injection h with h
    subst h
    exact .quiet (quiet_setStatus _ (completed_ne _) (fun _ _ => Iff.rfl) rfl rfl) trivial
  · next modelId otherwise hscan =>
    injection h with h
    subst h
    by_cases hongoing : otherwise = .ongoing
    · subst hongoing
      refine .reports modelId (reports_setStatus (fun _ _ => Iff.rfl) rfl rfl) ⟨fun hin => ?_, fun hin m hm => ?_⟩
      · exact hin modelId hscan
      · rw [hscan] at hm
        injection hm with hm
        exact hm ▸ hin
    · refine .quiet (quiet_setStatus modelId hongoing (fun _ _ => Iff.rfl) rfl rfl)
        (inTime_scanResolved (fun m hm => ?_) none)
      rw [hscan] at hm
      injection hm with _ hm
      exact hongoing hm
  · injection h with h
    subst h
    exact .quiet (quiet_setStatus _ (completed_ne _) (fun _ _ => Iff.rfl) rfl rfl) trivial
  · next hscan _ =>
    injection h with h
    subst h
    refine .quiet (quiet_of_eq (fun _ _ => Iff.rfl) rfl rfl) (inTime_scanResolved (fun m hm => ?_) _)
    rw [hscan] at hm
    exact nomatch hm
  · exact nomatch h

/-- **What an action does.** -/
theorem step_cases {a : Action} (h : c.step a = some c') : Effect c c' a := by
  cases a with
  | receive command =>
      unfold step at h
      dsimp only at h
      split at h
      · injection h with h
        subst h
        exact .quiet (quiet_receive command) trivial
      · exact nomatch h
  | resolved found => exact effect_resolved h
  | checked status => exact effect_checked h
  | deleted =>
      unfold step deleted at h
      dsimp only at h
      split at h
      · split at h
        all_goals
          injection h with h
          subst h
          exact .quiet (quiet_of_eq (fun _ _ => Iff.rfl) rfl rfl) trivial
      · exact nomatch h
  | reset =>
      unfold step reset at h
      dsimp only at h
      split at h
      · injection h with h
        subst h
        refine .quiet ⟨fun m hm => ?_, rfl, fun _ _ => Iff.rfl⟩ trivial
        rw [Dict.get?_erase] at hm
        split at hm
        · exact nomatch hm
        · exact hm
      · exact nomatch h
  | leave wrapper outcome => exact effect_leave h
  | failed wrapper => exact effect_failed h
  | progress modelId status currentTime => exact effect_progress h
  | callbackResolved callback found =>
      unfold step callbackResolved at h
      dsimp only at h
      split at h
      · injection h with h
        subst h
        exact .quiet (quiet_setStatus _ (completed_ne found) (fun _ _ => Iff.rfl) rfl rfl) trivial
      · exact nomatch h
  | callbackSent callback currentTime =>
      unfold step callbackSent at h
      dsimp only at h
      split at h
      · injection h with h
        subst h
        exact .quiet (quiet_of_eq (fun _ _ => Iff.rfl) rfl rfl) trivial
      · injection h with h
        subst h
        exact .quiet (quiet_of_eq (fun _ _ => Iff.rfl) rfl rfl) trivial
      · exact nomatch h
  | scanned modelId status downloadedThisSession =>
      unfold step scanned at h
      dsimp only at h
      split at h
      · split at h
        · injection h with h
          subst h
          exact .quiet (quiet_of_eq (fun _ _ => Iff.rfl) rfl rfl) trivial
        · split at h
          · injection h with h
            subst h
            exact .quiet (quiet_of_eq (fun _ _ => Iff.rfl) rfl rfl) trivial
          · split at h
            all_goals
              injection h with h
              subst h
              exact .quiet (quiet_of_eq (fun _ _ => Iff.rfl) rfl rfl) trivial
      · exact nomatch h
  | scannedReadOnly modelId =>
      unfold step scannedReadOnly at h
      dsimp only at h
      split at h
      · split at h
        · injection h with h
          subst h
          exact .quiet (quiet_of_eq (fun _ _ => Iff.rfl) rfl rfl) trivial
        · split at h
          all_goals
            injection h with h
            subst h
            exact .quiet (quiet_of_eq (fun _ _ => Iff.rfl) rfl rfl) trivial
      · exact nomatch h
  | scanResolved found => exact effect_scanResolved h
  | scanFailed =>
      injection h with h
      subst h
      exact .quiet (quiet_of_eq (fun _ _ => Iff.rfl) rfl rfl) trivial

/-- An action keeps the maps right exactly if it is in time. -/
theorem bookkept_step {a : Action} (h : c.Bookkept) (hs : c.step a = some c') :
    c'.Bookkept ↔ c.InTime a := by
  cases step_cases hs with
  | quiet hquiet hin => exact iff_of_true (h.quiet hquiet) hin
  | reports modelId hreports hin => exact (bookkept_reports h hreports).trans hin.symm
  | begins modelId hbegins hin => exact iff_of_true (h.begins hbegins) hin
  | finishes modelId wrapper hfinishes hin => exact (bookkept_finishes h hfinishes).trans hin.symm

/-! ## What follows for commands -/

/-- A cancellation reaches the newest wrapper that has not finished. -/
theorem Bookkept.cancelled_cancelDownload (h : c.Bookkept) (hstatus : modelId ∈ c.downloadStatus.keys)
    (hi : c.Unfinished modelId wrapper) (hnewest : ∀ other, c.Unfinished modelId other → other ≤ wrapper) :
    ((c.cancelDownload modelId).wrappers[wrapper]?).map (·.cancelled) = some true := by
  have htracked := (h.newest modelId wrapper).mpr ⟨hi, hnewest⟩
  obtain ⟨w, hw, -⟩ := hi
  have hactive : modelId ∈ c.activeDownloads.keys := Dict.mem_keys.2 (by rw [htracked]; rfl)
  rw [cancelDownload, if_pos ⟨hactive, hstatus⟩, cancelScope, htracked]
  show ((c.wrappers.modify wrapper fun w => { w with cancelled := true })[wrapper]?).map _ = _
  rw [List.getElem?_modify, hw]
  simp

end Coordinator

/-! ## Every run -/

theorem bookkept_init (offline : Bool) : (machine offline).init.Bookkept := by
  refine ⟨fun m hm => absurd hm (fun h => nomatch h), fun m i => iff_of_false (fun h => nomatch h) ?_⟩
  intro ⟨⟨w, hw, _⟩, _⟩
  exact nomatch hw

/--
**What is shown as going on can be cancelled.** While the actions are in time, a model that is shown
as going on has wrappers that did not finish, and `CancelDownload` reaches the newest of them.
-/
theorem ongoing_cancelled {offline : Bool} {c : Coordinator} {modelId : ModelId}
    (h : (machine offline).ReachableWhen Coordinator.InTime c)
    (hongoing : c.downloadStatus.get? modelId = some .ongoing) :
    ∃ wrapper, c.Unfinished modelId wrapper
      ∧ (∀ other, c.Unfinished modelId other → other ≤ wrapper)
      ∧ ((c.cancelDownload modelId).wrappers[wrapper]?).map (·.cancelled) = some true := by
  have hkept : c.Bookkept := h.invariant (bookkept_init offline) fun _ _ _ hkept hin hstep =>
    (Coordinator.bookkept_step hkept hstep).mpr hin
  obtain ⟨i, hi⟩ := Option.isSome_iff_exists.mp (Dict.mem_keys.1 (hkept.ongoing modelId hongoing))
  obtain ⟨hunfinished, hnewest⟩ := (hkept.newest modelId i).mp hi
  refine ⟨i, hunfinished, hnewest, ?_⟩
  exact hkept.cancelled_cancelDownload (Dict.mem_keys.2 (by rw [hongoing]; rfl)) hunfinished hnewest

/-! ## Two small runs -/

/-- A model is downloaded, and its download is finished. -/
def download : List Action :=
  [.receive (.startDownload 7), .resolved none, .checked .notStarted, .progress 7 .complete 2000,
    .callbackResolved 0 (some false), .callbackSent 0 2001, .leave 0 .returned]

theorem ongoing_cancelled_download : ∃ c,
    (machine false).run (machine false).init (download.take 3) = some c
      ∧ ∃ wrapper, c.Unfinished 7 wrapper ∧ (∀ other, c.Unfinished 7 other → other ≤ wrapper)
        ∧ ((c.cancelDownload 7).wrappers[wrapper]?).map (·.cancelled) = some true := by
  have hstarted : (machine false).ReachableWhen Coordinator.InTime _ :=
    .tail (a := .receive (.startDownload 7)) .init trivial rfl
  have hresolved := hstarted.tail (a := Action.resolved none) trivial rfl
  have hchecked := hresolved.tail (a := Action.checked .notStarted) trivial rfl
  exact ⟨_, rfl, ongoing_cancelled hchecked rfl⟩

/-- A download is cancelled, and a callback of it comes when it has cleaned up. -/
def lateProgress : List Action :=
  [.receive (.startDownload 7), .resolved none, .checked .notStarted, .receive (.cancelDownload 7),
    .leave 0 .cancelled, .progress 7 .inProgress 2000]

end Exo.Download
