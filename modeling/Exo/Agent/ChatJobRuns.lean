import Exo.Agent.ChatJobSafety

/-!
# Runs of the chat jobs

Readers and sessions stay sound in every run. What the pending ids say is right whenever they are
asked for, except between the finish of a turn and its removal from them.
-/

namespace Exo.Agent.ChatJobs

open Lib
open scoped List

/-- A reader that has read what its job has published. -/
def Reader.Follows (r : Reader) (jobs : List ChatJob) : Prop :=
  ∃ job, jobs[r.job]? = some job ∧ r.Sound job

section Follows

variable {r : Reader} {jobs : List ChatJob}

theorem Reader.Follows.modify (h : r.Follows jobs) {j : Nat} {f : ChatJob → ChatJob}
    (hf : ∀ job, jobs[j]? = some job → r.Sound job → r.Sound (f job)) :
    r.Follows (jobs.modify j f) := by
  obtain ⟨job, hj, hsound⟩ := h
  refine ⟨if j = r.job then f job else job, ?_, ?_⟩
  · rw [List.getElem?_modify, hj]
    rfl
  · split
    · rename_i hjr
      exact hf job (hjr ▸ hj) hsound
    · exact hsound

theorem Reader.Follows.snoc (h : r.Follows jobs) (job : ChatJob) : r.Follows (jobs ++ [job]) := by
  obtain ⟨job', hj, hsound⟩ := h
  exact ⟨job', by rw [List.getElem?_append_left (List.getElem?_eq_some_iff.mp hj).1, hj], hsound⟩

end Follows

namespace ChatJobManager

variable {s s' : ChatJobManager} {a : Action} {i j : Nat} {jobs : List ChatJob} {job : ChatJob}
  {σ id : Text}

/-! ## The turns of a session -/

/-- The turn of a job, if it is of the session. -/
def turn (jobs : List ChatJob) (σ : Text) (i : Nat) : Option (Text × Bool) :=
  (jobs[i]?).bind fun job =>
    if job.sessionId = σ then some (job.assistantMessageId, job.done) else none

theorem turn_of_job (hj : jobs[i]? = some job) : turn jobs σ i =
    if job.sessionId = σ then some (job.assistantMessageId, job.done) else none := by
  rw [turn, hj, Option.bind_some]

theorem turn_of_le (hi : jobs.length ≤ i) : turn jobs σ i = none := by
  rw [turn, List.getElem?_eq_none hi, Option.bind_none]

theorem turn_eq_some {done : Bool} : turn jobs σ i = some (id, done) ↔ ∃ job,
    jobs[i]? = some job ∧ job.sessionId = σ ∧ job.assistantMessageId = id ∧ job.done = done := by
  unfold turn
  cases jobs[i]? with
  | none => simp
  | some job => simp

theorem mem_unfinished : id ∈ s.unfinished σ ↔ ∃ i, turn s.jobs σ i = some (id, false) := by
  simp only [unfinished, List.mem_map, List.mem_filter, decide_eq_true_eq, turn_eq_some]
  constructor
  · rintro ⟨job, ⟨hmem, hσ, hdone⟩, hid⟩
    obtain ⟨i, hi⟩ := List.mem_iff_getElem?.mp hmem
    exact ⟨i, job, hi, hσ, hid, hdone⟩
  · rintro ⟨i, job, hi, hσ, hid, hdone⟩
    exact ⟨job, ⟨List.mem_of_getElem? hi, hσ, hdone⟩, hid⟩

theorem turn_publish (jobs : List ChatJob) (j : Nat) (e : Event) (σ : Text) :
    turn (jobs.modify j (ChatJob.publish e)) σ = turn jobs σ := by
  funext i
  simp only [turn, List.getElem?_modify]
  cases jobs[i]? with
  | none => rfl
  | some job => by_cases hji : j = i <;> simp [hji, ChatJob.publish]

/-- Only the job's own session sees that it is finished. -/
theorem turn_finish (hj : jobs[j]? = some job) (σ : Text) :
    turn (jobs.modify j ChatJob.finish) σ =
      if job.sessionId = σ then
        Function.update (turn jobs σ) j (some (job.assistantMessageId, true))
      else turn jobs σ := by
  have hget : ∀ i, (jobs.modify j ChatJob.finish)[i]?
      = if j = i then some job.finish else jobs[i]? := by
    intro i
    rw [List.getElem?_modify]
    by_cases hji : j = i
    · subst hji
      simp [hj]
    · simp [hji]
  funext i
  by_cases hji : j = i
  · subst hji
    rw [turn_of_job ((hget j).trans (if_pos rfl))]
    show (if job.sessionId = σ then _ else _) = _
    split
    · rw [Function.update_self]
      rfl
    · rename_i hσ
      rw [turn_of_job hj, if_neg hσ]
  · have hsame : turn (jobs.modify j ChatJob.finish) σ i = turn jobs σ i := by
      rw [turn, hget, if_neg hji]
      rfl
    rw [hsame]
    split
    · rw [Function.update_of_ne (Ne.symm hji)]
    · rfl

/-- Only its own session sees a new job. -/
theorem turn_snoc (jobs : List ChatJob) (job : ChatJob) (σ : Text) : turn (jobs ++ [job]) σ =
    if job.sessionId = σ then
      Function.update (turn jobs σ) jobs.length (some (job.assistantMessageId, job.done))
    else turn jobs σ := by
  funext i
  rcases Nat.lt_trichotomy i jobs.length with hi | rfl | hi
  · have hsame : turn (jobs ++ [job]) σ i = turn jobs σ i := by
      rw [turn, List.getElem?_append_left hi]
      rfl
    rw [hsame]
    split
    · rw [Function.update_of_ne (Nat.ne_of_lt hi)]
    · rfl
  · rw [turn_of_job List.getElem?_concat_length]
    split
    · rw [Function.update_self]
    · rw [turn_of_le le_rfl]
  · rw [turn_of_le (by rw [List.length_append]; exact hi)]
    split
    · rw [Function.update_of_ne (Nat.ne_of_gt hi), turn_of_le hi.le]
    · rw [turn_of_le hi.le]

/-! ## One step -/

/-- Readers and sessions are sound. -/
structure Inv (s : ChatJobManager) : Prop where
  readers : ∀ r ∈ s.readers, r.Follows s.jobs
  sessions : ∀ σ, (s.sessions σ).Sound (turn s.jobs σ)

theorem inv_init (n : Nat) : Inv (machine n).init := by
  refine ⟨by rintro r ⟨⟩, fun σ => ?_⟩
  have hturn : turn (machine n).init.jobs σ = fun _ => none := by
    funext i
    rfl
  rw [hturn]
  exact Session.sound_new

/-- One session changes, and the readers still follow their jobs. -/
theorem Inv.of_session (h : Inv s) (hreaders : ∀ r ∈ s'.readers, r.Follows s'.jobs) {q : Session}
    (hs : s'.sessions = Function.update s.sessions σ q) (hq : q.Sound (turn s'.jobs σ))
    (hother : ∀ τ, τ ≠ σ → turn s'.jobs τ = turn s.jobs τ) : Inv s' where
  readers := hreaders
  sessions τ := by
    rw [hs]
    by_cases hτ : τ = σ
    · subst hτ
      rw [Function.update_self]
      exact hq
    · rw [Function.update_of_ne hτ, hother τ hτ]
      exact h.sessions τ

/-- The worker of a session goes on, and no job changes. -/
theorem Inv.setSession (h : Inv s) {q : Session} (hq : q.Sound (turn s.jobs σ)) (n : Nat) :
    Inv { s.setSession σ q with inferenceSem := n } :=
  h.of_session h.readers rfl hq fun _ _ => rfl

/-- The same, for a worker that stays with its turn. -/
theorem Inv.goto (h : Inv s) {stage : Stage} (hw : (s.sessions σ).worker = some stage)
    (stage' : Stage) (hjob : stage'.job = stage.job) (hbusy : stage'.busy = stage.busy)
    (hdiscards : stage'.discards = stage.discards) (n : Nat) :
    Inv { s.goto σ stage' with inferenceSem := n } := by
  refine h.setSession ((h.sessions σ).move ?_ ?_ ?_) n
  · rw [Session.job, hw]
    exact hjob
  · rw [Session.busy, hw]
    exact hbusy
  · rw [Session.discards, hw]
    exact hdiscards

/-- The job that a worker is busy with. -/
theorem Inv.job_of_busy (h : Inv s) {stage : Stage} (hw : (s.sessions σ).worker = some stage)
    (hbusy : stage.busy = some j) :
    ∃ job, s.jobs[j]? = some job ∧ job.sessionId = σ ∧ job.done = false := by
  obtain ⟨id, hturn⟩ := (h.sessions σ).turn_of_busy (j := j) (by rw [Session.busy, hw]; exact hbusy)
  obtain ⟨job, hj, hσ, -, hdone⟩ := turn_eq_some.1 hturn
  exact ⟨job, hj, hσ, hdone⟩

/-- An unfinished job publishes an event. -/
theorem Inv.publish (h : Inv s) (hj : s.jobs[j]? = some job) (hdone : job.done = false)
    (e : Event) : Inv (s.modifyJob j (ChatJob.publish e)) where
  readers r hr := (h.readers r hr).modify fun job' hj' hsound => by
    obtain rfl := Option.some.inj (hj.symm.trans hj')
    exact hsound.publish hdone e
  sessions σ := by
    show (s.sessions σ).Sound (turn (s.jobs.modify j (ChatJob.publish e)) σ)
    rw [turn_publish]
    exact h.sessions σ

theorem Inv.submit (h : Inv s) (hs : s.submit σ id = some s') : Inv s' := by
  unfold ChatJobManager.submit at hs
  split at hs
  · cases hs
  · rename_i hid
    obtain rfl := Option.some.inj hs
    have hturn := turn_snoc s.jobs { sessionId := σ, assistantMessageId := id }
    refine h.of_session (fun r hr => (h.readers r hr).snoc _) rfl ?_
      fun τ hτ => (hturn τ).trans (if_neg (Ne.symm hτ))
    rw [hturn σ, if_pos rfl]
    refine (h.sessions σ).submit (turn_of_le le_rfl) fun i done hi => ?_
    obtain ⟨job, hj, -, hid', -⟩ := turn_eq_some.1 hi
    exact hid (List.mem_map.mpr ⟨job, List.mem_of_getElem? hj, hid'⟩)

theorem Inv.get (h : Inv s) (hs : s.get σ = some s') : Inv s' := by
  unfold ChatJobManager.get at hs
  dsimp only at hs
  split at hs
  · rename_i j queue hw hq
    obtain rfl := Option.some.inj hs
    exact h.setSession ((h.sessions σ).get hw hq) s.inferenceSem
  · cases hs

theorem Inv.finish (h : Inv s) (hs : s.finish σ = some s') : Inv s' := by
  unfold ChatJobManager.finish at hs
  split at hs
  · rename_i j fatal hw
    obtain rfl := Option.some.inj hs
    obtain ⟨job, hj, hσ, hdone⟩ := h.job_of_busy hw rfl
    have hturn := turn_finish hj
    refine h.of_session ?_ rfl ?_ fun τ hτ => ?_
    · exact fun r hr => (h.readers r hr).modify fun job' _ hsound => hsound.finish
    · show Session.Sound _ (turn (s.jobs.modify j ChatJob.finish) σ)
      rw [hturn, if_pos hσ]
      refine (h.sessions σ).finish hw ?_
      rw [turn_of_job hj, if_pos hσ, hdone]
    · exact (hturn τ).trans (if_neg fun hτ' => hτ (hτ'.symm.trans hσ))
  · cases hs

theorem Inv.discard (h : Inv s) (hs : s.discard σ = some s') : Inv s' := by
  unfold ChatJobManager.discard at hs
  dsimp only at hs
  split at hs
  · rename_i j fatal hw
    obtain ⟨job, hj, rfl⟩ := Option.map_eq_some_iff.mp hs
    obtain ⟨id, hturn⟩ := (h.sessions σ).turn_of_discards (j := j)
      (by rw [Session.discards, hw]; rfl)
    refine h.setSession ((h.sessions σ).discard hw ?_) s.inferenceSem
    obtain ⟨job', hj', -, hid, -⟩ := turn_eq_some.1 hturn
    obtain rfl := Option.some.inj (hj.symm.trans hj')
    rw [hturn, hid]
  · cases hs

variable {f : Reader → ChatJob → Option Reader}

/-- What a reader does, it does to itself. -/
theorem onReader_cases (hs : s.onReader i f = some s') :
    ∃ r job r', s.readers[i]? = some r ∧ s.jobs[r.job]? = some job ∧ f r job = some r'
      ∧ s' = { s with readers := s.readers.set i r' } := by
  unfold ChatJobManager.onReader at hs
  split at hs
  · rename_i r hr
    split at hs
    · rename_i job hj
      obtain ⟨r', hr', rfl⟩ := Option.map_eq_some_iff.mp hs
      exact ⟨r, job, r', hr, hj, hr', rfl⟩
    · cases hs
  · cases hs

theorem Inv.onReader (h : Inv s)
    (hf : ∀ r job r', r.Sound job → f r job = some r' → r'.Sound job ∧ r'.job = r.job)
    (hs : s.onReader i f = some s') : Inv s' := by
  obtain ⟨r, job, r', hr, hj, hr', rfl⟩ := onReader_cases hs
  refine ⟨fun r'' hr'' => ?_, h.sessions⟩
  rcases List.mem_or_eq_of_mem_set hr'' with hr'' | rfl
  · exact h.readers r'' hr''
  · obtain ⟨job', hj', hsound⟩ := h.readers r (List.mem_of_getElem? hr)
    obtain rfl := Option.some.inj (hj.symm.trans hj')
    obtain ⟨hsound', hjob⟩ := hf r job r'' hsound hr'
    exact ⟨job, hjob ▸ hj, hsound'⟩

/-- **Every step keeps readers and sessions sound.** -/
theorem inv_step (h : Inv s) (hs : s.step a = some s') : Inv s' := by
  cases a <;> simp only [step] at hs
  case submit σ id => exact h.submit hs
  case get σ => exact h.get hs
  case acquire σ =>
    unfold ChatJobManager.acquire at hs
    split at hs
    · rename_i j hw
      split at hs
      · obtain rfl := Option.some.inj hs
        exact h.goto hw (.streaming j) rfl rfl rfl _
      · cases hs
    · cases hs
  case publish σ e =>
    unfold ChatJobManager.publish at hs
    split at hs
    · rename_i j hw
      obtain rfl := Option.some.inj hs
      obtain ⟨job, hj, -, hdone⟩ := h.job_of_busy hw rfl
      exact h.publish hj hdone e
    · cases hs
  case exhaust σ =>
    unfold ChatJobManager.exhaust at hs
    split at hs
    · rename_i j hw
      obtain rfl := Option.some.inj hs
      exact h.goto hw (.finishing j false) rfl rfl rfl _
    · cases hs
  case throw σ error className =>
    unfold ChatJobManager.throw at hs
    split at hs
    · rename_i j hw
      obtain rfl := Option.some.inj hs
      exact h.goto hw (.failed j (.ofException error className)) rfl rfl rfl _
    · cases hs
  case report σ =>
    unfold ChatJobManager.report at hs
    split at hs
    · rename_i j error hw
      obtain rfl := Option.some.inj hs
      obtain ⟨job, hj, -, hdone⟩ := h.job_of_busy hw rfl
      exact (h.publish hj hdone error).goto hw (.finishing j false) rfl rfl rfl s.inferenceSem
    · cases hs
  case abort σ =>
    unfold ChatJobManager.abort at hs
    split at hs
    · rename_i j hw
      obtain rfl := Option.some.inj hs
      exact h.goto hw (.finishing j true) rfl rfl rfl _
    · rename_i j error hw
      obtain rfl := Option.some.inj hs
      exact h.goto hw (.finishing j true) rfl rfl rfl s.inferenceSem
    · cases hs
  case finish σ => exact h.finish hs
  case discard σ => exact h.discard hs
  case exit σ =>
    unfold ChatJobManager.exit at hs
    dsimp only at hs
    split at hs
    · rename_i hw
      obtain rfl := Option.some.inj hs
      refine h.setSession ((h.sessions σ).move ?_ ?_ ?_) s.inferenceSem
      · rw [Session.job, hw]; rfl
      · rw [Session.busy, hw]; rfl
      · rw [Session.discards, hw]; rfl
    · cases hs
  case stream j =>
    split at hs
    · rename_i hj
      obtain rfl := Option.some.inj hs
      refine ⟨fun r hr => ?_, h.sessions⟩
      rcases List.mem_append.mp hr with hr | hr
      · exact h.readers r hr
      · obtain rfl := List.mem_singleton.mp hr
        exact ⟨s.jobs[j], List.getElem?_eq_getElem hj, Reader.sound_new j _⟩
    · cases hs
  case next i =>
    exact h.onReader (fun r job r' hr hn => ⟨hr.next hn, Reader.next_job hn⟩) hs
  case timeout i =>
    exact h.onReader (fun r job r' hr hn => ⟨hr.timeout hn, Reader.timeout_job hn⟩) hs
  case pendingMessageIds σ =>
    obtain rfl := Option.some.inj hs
    exact ⟨h.readers, h.sessions⟩

/-- Only a question is answered. -/
theorem answers_step (hs : s.step a = some s') :
    ((∀ σ, a ≠ .pendingMessageIds σ) ∧ s'.answers = s.answers) ∨ ∃ σ, a = .pendingMessageIds σ
      ∧ s'.answers = s.answers ++ [⟨s.pendingMessageIds σ, s.unfinished σ⟩] := by
  cases a with
  | pendingMessageIds σ => exact .inr ⟨σ, rfl, Option.some.inj hs ▸ rfl⟩
  | next i | timeout i =>
      obtain ⟨r, job, r', -, -, -, rfl⟩ := onReader_cases hs
      exact .inl ⟨(by intro _ h; cases h), rfl⟩
  | _ =>
      refine .inl ⟨(by intro _ h; cases h), ?_⟩
      simp only [step, submit, ChatJobManager.get, acquire, publish, exhaust, throw, report, abort,
        finish, discard, exit, goto, release, setSession, modifyJob] at hs
      grind

/-! ## Whole runs -/

/-- **Chat job streams are complete**, and sessions keep their order. -/
structure Complete (s : ChatJobManager) : Prop where
  /-- What a reader has yielded is a beginning of what was published. -/
  inOrder : ∀ r ∈ s.readers, ∃ job, s.jobs[r.job]? = some job ∧ r.events <+: job.events
  /-- A reader that has ended saw the finish, and has missed nothing. -/
  ended : ∀ r ∈ s.readers, r.phase = .ended →
    ∃ job, s.jobs[r.job]? = some job ∧ job.done = true ∧ r.events = job.events
  /-- A reader of a finished job comes to its end, if it goes on. -/
  ends : ∀ i r job, s.readers[i]? = some r → s.jobs[r.job]? = some job → job.done = true → Ends s i
  /-- The turns of a session are started in the order in which they were submitted. -/
  order : ∀ σ, (s.sessions σ).started <+: (s.sessions σ).submitted
  /-- None is started before the one before it is finished. -/
  oneAtATime : ∀ σ, ∀ j ∈ (s.sessions σ).started.dropLast,
    ∃ job, s.jobs[j]? = some job ∧ job.done = true
  /-- The ids that were said to be pending were those of the unfinished turns. -/
  pending : ∀ answer ∈ s.answers, ∀ id, id ∈ answer.ids ↔ id ∈ answer.unfinished

/-- Nobody asks for the pending ids of a session between the finish of a turn and its removal. -/
def Settled (s : ChatJobManager) : Action → Prop
  | .pendingMessageIds σ => (s.sessions σ).discards = none
  | _ => True

instance (s : ChatJobManager) : (a : Action) → Decidable (Settled s a)
  | .pendingMessageIds σ => inferInstanceAs (Decidable ((s.sessions σ).discards = none))
  | .submit .. | .get _ | .acquire _ | .publish .. | .exhaust _ | .throw .. | .report _ | .abort _
  | .finish _ | .discard _ | .exit _ | .stream _ | .next _ | .timeout _ => .isTrue trivial

theorem Inv.inOrder (h : Inv s) {r : Reader} (hr : r ∈ s.readers) :
    ∃ job, s.jobs[r.job]? = some job ∧ r.events <+: job.events := by
  obtain ⟨job, hj, hsound⟩ := h.readers r hr
  refine ⟨job, hj, (List.prefix_append r.events r.buffered).trans ?_⟩
  rw [hsound.read]
  exact List.take_prefix _ _

theorem Inv.ended (h : Inv s) {r : Reader} (hr : r ∈ s.readers) (hend : r.phase = .ended) :
    ∃ job, s.jobs[r.job]? = some job ∧ job.done = true ∧ r.events = job.events := by
  obtain ⟨job, hj, hsound⟩ := h.readers r hr
  obtain ⟨hdone, hindex⟩ := hsound.ended hend
  refine ⟨job, hj, hdone, ?_⟩
  have hread := hsound.read
  rwa [Reader.buffered, hend, List.append_nil, hindex, List.take_length] at hread

theorem Inv.oneAtATime (h : Inv s) (hj : j ∈ (s.sessions σ).started.dropLast) :
    ∃ job, s.jobs[j]? = some job ∧ job.done = true := by
  have hsound := h.sessions σ
  have hstarted := (List.dropLast_sublist _).subset hj
  obtain ⟨id, done, hturn⟩ := hsound.turn_of_started hstarted
  obtain ⟨job, hget, -, -, hdone⟩ := turn_eq_some.1 hturn
  refine ⟨job, hget, hdone.trans ((hsound.done j id done hturn).mpr ⟨hstarted, fun hbusy => ?_⟩)⟩
  -- the worker is at the turn that was started last, which is no other one
  have hlast := hsound.current j (Session.busy_eq_job hbusy)
  have hnodup := hsound.nodup.sublist (hsound.order ▸ List.sublist_append_left ..)
  obtain ⟨l, hl⟩ := List.getLast?_eq_some_iff.mp hlast
  rw [hl] at hj hnodup
  rw [List.dropLast_concat] at hj
  exact (List.nodup_append.mp hnodup).2.2 j hj j List.mem_cons_self rfl

/-- **The pending ids are those of the unfinished turns** exactly if no turn is between its finish
and its removal. -/
theorem Inv.pending_iff (h : Inv s) (σ : Text) :
    (∀ id, id ∈ s.pendingMessageIds σ ↔ id ∈ s.unfinished σ)
      ↔ (s.sessions σ).discards = none := by
  have hsound := h.sessions σ
  have hmem : ∀ id, id ∈ s.pendingMessageIds σ ↔ id ∈ (s.sessions σ).pending := fun id =>
    List.mem_insertionSort (· ≤ ·)
  simp only [hmem, mem_unfinished, hsound.pending]
  cases hd : (s.sessions σ).discards with
  | none => simp
  | some j =>
      -- the turn of this job is finished, and its id still pending
      obtain ⟨id, hturn⟩ := hsound.turn_of_discards hd
      refine iff_of_false (fun hall => ?_) nofun
      obtain ⟨i, hi⟩ := (hall id).mp ⟨j, true, hturn, .inr rfl⟩
      obtain rfl := hsound.ids i j id _ _ hi hturn
      rw [hturn] at hi
      cases hi

theorem Inv.complete (h : Inv s)
    (hanswers : ∀ answer ∈ s.answers, ∀ id, id ∈ answer.ids ↔ id ∈ answer.unfinished) :
    Complete s where
  inOrder _ hr := h.inOrder hr
  ended _ hr hend := h.ended hr hend
  ends _ _ _ hr hj hdone := ends_of_done hr hj hdone
  order σ := (h.sessions σ).order ▸ List.prefix_append _ _
  oneAtATime _ _ hj := h.oneAtATime hj
  pending := hanswers

/-- Two turns of a session. A reader of the first one comes while it streams, and waits once. -/
def twoTurns : List Action :=
  [.submit [1] [10], .submit [1] [11], .get [1], .acquire [1], .publish [1] ⟨[0], [65]⟩, .stream 0,
    .next 0, .next 0, .next 0, .next 0, .timeout 0, .pendingMessageIds [1], .exhaust [1], .finish [1],
    .discard [1], .next 0, .next 0, .next 0, .next 0, .pendingMessageIds [1], .get [1]]

end ChatJobManager

end Exo.Agent.ChatJobs
