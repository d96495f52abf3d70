import Exo.Agent.ChatJobs
import Exo.Lib.Sequence

/-!
# What readers and sessions of chat jobs can rely on

A reader keeps an index into the events of its job, and what it has yielded and still holds back is
what stands before the index. The worker of a session publishes into the turn it is busy with, and
finishes it before it takes it out of the pending ones. In between, the turn is finished and still
pending.
-/

namespace Exo.Agent.ChatJobs

open Lib
open scoped List

/-! ## Readers -/

namespace Reader

/-- The events that were yielded. -/
def events (r : Reader) : List Event := r.yielded.filterMap Output.event?

/-- What it has read and not yielded yet. -/
def buffered (r : Reader) : List Event :=
  match r.phase with
  | .yielding b _ => b
  | _ => []

/-- It has read that the job is done. -/
def sawDone (r : Reader) : Bool :=
  match r.phase with
  | .yielding _ done => done
  | _ => false

/-- A reader that has read what stands before its index. -/
structure Sound (r : Reader) (job : ChatJob) : Prop where
  index : r.index ≤ job.events.length
  read : r.events ++ r.buffered = job.events.take r.index
  sawDone : r.sawDone = true → job.done = true
  ended : r.phase = .ended → job.done = true ∧ r.index = job.events.length

variable {r r' : Reader} {job : ChatJob}

theorem Sound.publish (h : r.Sound job) (hdone : job.done = false) (e : Event) :
    r.Sound (job.publish e) where
  index := by
    rw [ChatJob.publish, List.length_append]
    exact Nat.le_add_right_of_le h.index
  read := by
    rw [h.read, ChatJob.publish, List.take_append_of_le_length h.index]
  sawDone := h.sawDone
  ended he := by
    rw [(h.ended he).1] at hdone
    cases hdone

theorem Sound.finish (h : r.Sound job) : r.Sound job.finish where
  index := h.index
  read := h.read
  sawDone _ := rfl
  ended he := ⟨rfl, (h.ended he).2⟩

/-- The events up to the end are read, if those before the index were yielded. -/
theorem Sound.buffer (h : r.Sound job) (hnil : r.buffered = []) (heartbeat : Bool) :
    (r.buffer job heartbeat).Sound job := by
  have hread : r.events = job.events.take r.index := by
    rw [← h.read, hnil, List.append_nil]
  unfold Reader.buffer
  dsimp only
  split
  · rename_i hbeat
    refine ⟨le_rfl, ?_, by rintro ⟨⟩, by rintro ⟨⟩⟩
    -- there was nothing to read, so everything before the new index stands before the old one
    have hlen : job.events.length ≤ r.index := List.drop_eq_nil_iff.mp hbeat.2.1
    show r.events ++ [] = _
    rw [List.append_nil, hread, List.take_of_length_le hlen, List.take_length]
  · refine ⟨le_rfl, ?_, fun h => h, by rintro ⟨⟩⟩
    show r.events ++ job.events.drop r.index = _
    rw [hread, List.take_append_drop, List.take_length]

/-- **Whatever a reader does next, it stays sound.** -/
theorem Sound.next (h : r.Sound job) (hn : r.next job = some r') : r'.Sound job := by
  unfold Reader.next at hn
  split at hn
  · rename_i hph
    have hnil : r.buffered = [] := by rw [buffered, hph]
    split at hn
    · obtain rfl := Option.some.inj hn
      refine ⟨h.index, ?_, by rintro ⟨⟩, by rintro ⟨⟩⟩
      rw [← h.read, hnil]
      rfl
    · obtain rfl := Option.some.inj hn
      exact h.buffer hnil false
  · rename_i hph
    split at hn
    · cases hn
    · obtain rfl := Option.some.inj hn
      exact h.buffer (by rw [buffered, hph]) false
  · rename_i hph
    obtain rfl := Option.some.inj hn
    refine ⟨h.index, ?_, by rintro ⟨⟩, by rintro ⟨⟩⟩
    rw [← h.read]
    simp [events, buffered, hph, Output.event?]
  · rename_i e b done hph
    obtain rfl := Option.some.inj hn
    refine ⟨h.index, ?_, ?_, by rintro ⟨⟩⟩
    · rw [← h.read]
      simp [events, buffered, hph, Output.event?]
    · intro hd
      exact h.sawDone (by rw [Reader.sawDone, hph]; exact hd)
  · rename_i done hph
    obtain rfl := Option.some.inj hn
    have hread : r.events ++ [] = job.events.take r.index := by
      rw [← h.read, buffered, hph]
    split
    · rename_i hend
      refine ⟨h.index, hread, by rintro ⟨⟩, fun _ => ⟨?_, Nat.le_antisymm h.index hend.2⟩⟩
      exact h.sawDone (by rw [Reader.sawDone, hph]; exact hend.1)
    · exact ⟨h.index, hread, by rintro ⟨⟩, by rintro ⟨⟩⟩
  · cases hn

theorem Sound.timeout (h : r.Sound job) (hn : r.timeout job = some r') : r'.Sound job := by
  unfold Reader.timeout at hn
  split at hn
  · rename_i hph
    obtain rfl := Option.some.inj hn
    exact h.buffer (by rw [buffered, hph]) true
  · cases hn

theorem next_job (hn : r.next job = some r') : r'.job = r.job := by
  unfold Reader.next Reader.buffer at hn
  split at hn
  · split at hn <;> exact Option.some.inj hn ▸ rfl
  · split at hn
    · cases hn
    · exact Option.some.inj hn ▸ rfl
  all_goals first | exact Option.some.inj hn ▸ rfl | cases hn

theorem timeout_job (hn : r.timeout job = some r') : r'.job = r.job := by
  unfold Reader.timeout Reader.buffer at hn
  split at hn
  · exact Option.some.inj hn ▸ rfl
  · cases hn

theorem sound_new (j : Nat) (job : ChatJob) : Sound { job := j } job :=
  ⟨Nat.zero_le _, rfl, by rintro ⟨⟩, by rintro ⟨⟩⟩

end Reader

/-! ## The end of a reader -/

namespace ChatJobManager

variable {s s' : ChatJobManager} {i : Nat} {r r' : Reader} {job : ChatJob}

/-- The reader comes to its end if it goes on. -/
def Ends (s : ChatJobManager) (i : Nat) : Prop :=
  ∃ n t r, (List.replicate n (Action.next i)).foldlM step s = some t ∧ t.readers[i]? = some r
    ∧ r.phase = .ended

theorem Ends.now (hr : s.readers[i]? = some r) (hend : r.phase = .ended) : Ends s i :=
  ⟨0, s, r, rfl, hr, hend⟩

theorem Ends.next (hr : s.readers[i]? = some r) (hj : s.jobs[r.job]? = some job)
    (hn : r.next job = some r') (h : Ends { s with readers := s.readers.set i r' } i) :
    Ends s i := by
  obtain ⟨n, t, r'', hrun, hget, hend⟩ := h
  refine ⟨n + 1, t, r'', ?_, hget, hend⟩
  have hstep : s.step (.next i) = some { s with readers := s.readers.set i r' } := by
    simp only [step, onReader, hr, hj, hn, Option.map_some]
  rw [List.replicate_succ, List.foldlM_cons, hstep]
  exact hrun

theorem readers_set (hr : s.readers[i]? = some r) (r' : Reader) :
    { s with readers := s.readers.set i r' }.readers[i]? = some r' :=
  List.getElem?_set_self (List.getElem?_eq_some_iff.mp hr).1

/-- A reader that has read to the end of a finished job. -/
theorem ends_of_read (hr : s.readers[i]? = some r) (hj : s.jobs[r.job]? = some job)
    {b : List Event} (hph : r.phase = .yielding b true) (hlen : job.events.length ≤ r.index) :
    Ends s i := by
  induction b generalizing s r with
  | nil =>
      refine Ends.next hr hj (by rw [Reader.next, hph]) (.now (readers_set hr _) ?_)
      exact if_pos ⟨rfl, hlen⟩
  | cons e b ih =>
      refine Ends.next hr hj (by rw [Reader.next, hph]) ?_
      exact ih (readers_set hr _) hj rfl hlen

theorem ends_of_buffer (hr : s.readers[i]? = some r) (hj : s.jobs[r.job]? = some job)
    (hdone : job.done = true) (hn : r.next job = some (r.buffer job false)) : Ends s i := by
  refine Ends.next hr hj hn (ends_of_read (readers_set hr _) hj (b := job.events.drop r.index) ?_
    le_rfl)
  simp [Reader.buffer, hdone]

theorem ends_of_top (hr : s.readers[i]? = some r) (hj : s.jobs[r.job]? = some job)
    (hdone : job.done = true) (hph : r.phase = .top) : Ends s i := by
  refine ends_of_buffer hr hj hdone ?_
  simp [Reader.next, hph, hdone]

theorem ends_of_yielding (hr : s.readers[i]? = some r) (hj : s.jobs[r.job]? = some job)
    (hdone : job.done = true) {b : List Event} {done : Bool} (hph : r.phase = .yielding b done) :
    Ends s i := by
  induction b generalizing s r with
  | nil =>
      refine Ends.next hr hj (by rw [Reader.next, hph]) ?_
      by_cases hend : done = true ∧ job.events.length ≤ r.index
      · exact .now (readers_set hr _) (if_pos hend)
      · exact ends_of_top (readers_set hr _) hj hdone (if_neg hend)
  | cons e b ih =>
      refine Ends.next hr hj (by rw [Reader.next, hph]) ?_
      exact ih (readers_set hr _) hj rfl

/-- **A reader of a finished job comes to its end**, wherever it is. -/
theorem ends_of_done (hr : s.readers[i]? = some r) (hj : s.jobs[r.job]? = some job)
    (hdone : job.done = true) : Ends s i := by
  cases hph : r.phase with
  | top => exact ends_of_top hr hj hdone hph
  | waiting =>
      refine ends_of_buffer hr hj hdone ?_
      simp [Reader.next, hph, hdone]
  | beating =>
      refine Ends.next hr hj (by rw [Reader.next, hph]) ?_
      exact ends_of_yielding (readers_set hr _) hj hdone rfl
  | yielding b done => exact ends_of_yielding hr hj hdone hph
  | ended => exact .now hr hph

end ChatJobManager

/-! ## Sessions -/

/-- The job of a worker. -/
def Stage.job : Stage → Option Nat
  | .acquiring j | .streaming j | .failed j _ | .finishing j _ | .discarding j _ => some j
  | .getting | .exiting => none

/-- The job that a worker has not finished. -/
def Stage.busy : Stage → Option Nat
  | .acquiring j | .streaming j | .failed j _ | .finishing j _ => some j
  | .getting | .discarding _ _ | .exiting => none

/-- The job that a worker has finished, and not yet taken out of the pending ones. -/
def Stage.discards : Stage → Option Nat
  | .discarding j _ => some j
  | _ => none

namespace Session

def job (q : Session) : Option Nat := q.worker.bind Stage.job

def busy (q : Session) : Option Nat := q.worker.bind Stage.busy

def discards (q : Session) : Option Nat := q.worker.bind Stage.discards

/-- What a session knows of its turns: their ids, and whether they are finished. -/
structure Sound (q : Session) (turns : Nat → Option (Text × Bool)) : Prop where
  submitted : ∀ i, i ∈ q.submitted ↔ ∃ turn, turns i = some turn
  nodup : q.submitted.Nodup
  order : q.started ++ q.queue = q.submitted
  /-- The worker is at the turn that was started last. -/
  current : ∀ i, q.job = some i → q.started.getLast? = some i
  /-- It has finished all others that were started. -/
  done : ∀ i id done, turns i = some (id, done) →
    (done = true ↔ i ∈ q.started ∧ q.busy ≠ some i)
  ids : ∀ i j id done done', turns i = some (id, done) → turns j = some (id, done') → i = j
  pendingNodup : q.pending.Nodup
  pending : ∀ id, id ∈ q.pending ↔
    ∃ i done, turns i = some (id, done) ∧ (done = false ∨ q.discards = some i)

variable {q q' : Session} {turns : Nat → Option (Text × Bool)} {i j : Nat} {id : Text}

theorem sound_new : Sound {} fun _ => none where
  submitted i := by simp
  nodup := List.nodup_nil
  order := rfl
  current := by rintro i ⟨⟩
  done := by rintro i id done ⟨⟩
  ids := by rintro i j id done done' ⟨⟩
  pendingNodup := List.nodup_nil
  pending id := by simp

theorem busy_eq_job (h : q.busy = some j) : q.job = some j := by
  unfold busy job at *
  cases hw : q.worker with
  | none => rw [hw] at h; cases h
  | some st => rw [hw] at h; cases st <;> first | exact h | cases h

theorem discards_eq_job (h : q.discards = some j) : q.job = some j ∧ q.busy = none := by
  unfold discards job busy at *
  cases hw : q.worker with
  | none => rw [hw] at h; cases h
  | some st => rw [hw] at h; cases st <;> first | exact ⟨h, rfl⟩ | cases h

theorem Sound.mem_started (h : q.Sound turns) (hj : q.job = some j) : j ∈ q.started :=
  List.mem_of_getLast? (h.current j hj)

theorem Sound.turn_of_started (h : q.Sound turns) (hj : j ∈ q.started) :
    ∃ id done, turns j = some (id, done) := by
  have hsub : j ∈ q.submitted := h.order ▸ List.mem_append_left _ hj
  obtain ⟨⟨id, done⟩, hturn⟩ := (h.submitted j).mp hsub
  exact ⟨id, done, hturn⟩

/-- The turn that the worker is busy with is not finished. -/
theorem Sound.turn_of_busy (h : q.Sound turns) (hj : q.busy = some j) :
    ∃ id, turns j = some (id, false) := by
  obtain ⟨id, done, hturn⟩ := h.turn_of_started (h.mem_started (busy_eq_job hj))
  refine ⟨id, ?_⟩
  rw [hturn]
  cases done with
  | false => rfl
  | true => exact absurd hj ((h.done j id true hturn).mp rfl).2

/-- The turn that it is about to take out is. -/
theorem Sound.turn_of_discards (h : q.Sound turns) (hj : q.discards = some j) :
    ∃ id, turns j = some (id, true) := by
  obtain ⟨hjob, hbusy⟩ := discards_eq_job hj
  have hstarted := h.mem_started hjob
  obtain ⟨id, done, hturn⟩ := h.turn_of_started hstarted
  refine ⟨id, ?_⟩
  rw [hturn, (h.done j id done hturn).mpr ⟨hstarted, by rw [hbusy]; exact nofun⟩]

/-- The worker goes on with the same turn, or still has none. -/
theorem Sound.move (h : q.Sound turns) {worker : Option Stage}
    (hjob : worker.bind Stage.job = q.job) (hbusy : worker.bind Stage.busy = q.busy)
    (hdiscards : worker.bind Stage.discards = q.discards) :
    Sound { q with worker := worker } turns where
  submitted := h.submitted
  nodup := h.nodup
  order := h.order
  current i hi := h.current i (hjob ▸ hi)
  done i id done hturn := by
    rw [h.done i id done hturn]
    show _ ↔ _ ∧ worker.bind Stage.busy ≠ _
    rw [hbusy]
  ids := h.ids
  pendingNodup := h.pendingNodup
  pending id := by
    rw [h.pending id]
    show _ ↔ ∃ i done, _ ∧ (_ ∨ worker.bind Stage.discards = _)
    rw [hdiscards]

/-- A turn with a new id is submitted. -/
theorem Sound.submit (h : q.Sound turns) {n : Nat} (hn : turns n = none)
    (hid : ∀ i done, turns i ≠ some (id, done)) :
    Sound
      { queue := q.queue ++ [n], worker := some (q.worker.getD .getting)
        pending := q.pending.insert id, submitted := q.submitted ++ [n], started := q.started }
      (Function.update turns n (some (id, false))) := by
  have hnot : n ∉ q.submitted := by
    rw [h.submitted n, hn]
    rintro ⟨turn, ⟨⟩⟩
  have hworker : ∀ (f : Stage → Option Nat), f .getting = none →
      (some (q.worker.getD .getting)).bind f = q.worker.bind f := by
    intro f hf
    cases q.worker with
    | none => exact hf
    | some st => rfl
  have hturn : ∀ i id' done, Function.update turns n (some (id, false)) i = some (id', done) ↔
      (i = n ∧ id' = id ∧ done = false) ∨ (i ≠ n ∧ turns i = some (id', done)) := by
    intro i id' done
    by_cases hi : i = n
    · subst hi
      rw [Function.update_self, Option.some.injEq, Prod.mk.injEq]
      simp [eq_comm]
    · rw [Function.update_of_ne hi]
      simp [hi]
  refine ⟨?_, ?_, ?_, ?_, ?_, ?_, ?_, ?_⟩
  · intro i
    rw [List.mem_append, List.mem_singleton, h.submitted i]
    by_cases hi : i = n
    · subst hi
      simp
    · rw [Function.update_of_ne hi]
      simp [hi]
  · exact List.nodup_append.mpr ⟨h.nodup, List.nodup_singleton n, by
      rintro a ha b hb rfl
      exact hnot (List.mem_singleton.mp hb ▸ ha)⟩
  · rw [← h.order, List.append_assoc]
  · intro i hi
    exact h.current i ((hworker Stage.job rfl).symm.trans hi)
  · intro i id' done hi
    show _ ↔ _ ∧ (some (q.worker.getD .getting)).bind Stage.busy ≠ some i
    rw [hworker Stage.busy rfl]
    rcases (hturn i id' done).mp hi with ⟨rfl, rfl, rfl⟩ | ⟨-, hi⟩
    · refine iff_of_false nofun fun hs => hnot ?_
      rw [← h.order]
      exact List.mem_append_left _ hs.1
    · exact h.done i id' done hi
  · intro i j id' done done' hi hj
    rcases (hturn i id' done).mp hi with ⟨rfl, rfl, rfl⟩ | ⟨-, hold⟩
    · rcases (hturn j id' done').mp hj with ⟨rfl, -, -⟩ | ⟨-, hj⟩
      · rfl
      · exact absurd hj (hid j done')
    · rcases (hturn j id' done').mp hj with ⟨rfl, rfl, rfl⟩ | ⟨-, hj⟩
      · exact absurd hold (hid i done)
      · exact h.ids i j id' done done' hold hj
  · exact h.pendingNodup.insert
  · intro id'
    rw [List.mem_insert_iff, h.pending id']
    show _ ↔ ∃ i done, _ ∧ (_ ∨ (some (q.worker.getD .getting)).bind Stage.discards = some i)
    rw [hworker Stage.discards rfl]
    constructor
    · rintro (rfl | ⟨i, done, hi, hor⟩)
      · exact ⟨n, false, Function.update_self .., .inl rfl⟩
      · refine ⟨i, done, (hturn i id' done).mpr (.inr ⟨?_, hi⟩), hor⟩
        rintro rfl
        rw [hn] at hi
        cases hi
    · rintro ⟨i, done, hi, hor⟩
      rcases (hturn i id' done).mp hi with ⟨-, rfl, -⟩ | ⟨-, hi⟩
      · exact .inl rfl
      · exact .inr ⟨i, done, hi, hor⟩

/-- The worker takes the next turn. -/
theorem Sound.get (h : q.Sound turns) (hw : q.worker = some .getting) {queue : List Nat}
    (hq : q.queue = j :: queue) :
    Sound { q with queue := queue, worker := some (.acquiring j), started := q.started ++ [j] }
      turns := by
  have hbusy : q.busy = none := by rw [busy, hw]; rfl
  have hdiscards : q.discards = none := by rw [discards, hw]; rfl
  have hj : j ∉ q.started := by
    have hnodup := h.nodup
    rw [← h.order, hq] at hnodup
    intro hmem
    exact (List.nodup_append.mp hnodup).2.2 j hmem j List.mem_cons_self rfl
  refine ⟨h.submitted, h.nodup, ?_, ?_, ?_, h.ids, h.pendingNodup, ?_⟩
  · show (q.started ++ [j]) ++ queue = q.submitted
    rw [← h.order, hq, List.append_assoc]
    rfl
  · rintro i ⟨⟩
    exact List.getLast?_concat
  · intro i id done hturn
    rw [h.done i id done hturn, hbusy]
    show _ ↔ i ∈ q.started ++ [j] ∧ some j ≠ some i
    rw [List.mem_append, List.mem_singleton]
    constructor
    · rintro ⟨hi, -⟩
      refine ⟨.inl hi, ?_⟩
      rintro ⟨⟩
      exact hj hi
    · rintro ⟨hi | rfl, hne⟩
      · exact ⟨hi, nofun⟩
      · exact absurd rfl hne
  · intro id
    rw [h.pending id, hdiscards]
    rfl

/-- The turn is finished. -/
theorem Sound.finish (h : q.Sound turns) {fatal : Bool}
    (hw : q.worker = some (.finishing j fatal)) (hturn : turns j = some (id, false)) :
    Sound { q with worker := some (.discarding j fatal) }
      (Function.update turns j (some (id, true))) := by
  have hbusy : q.busy = some j := by rw [busy, hw]; rfl
  have hdiscards : q.discards = none := by rw [discards, hw]; rfl
  have hstarted := h.mem_started (busy_eq_job hbusy)
  -- the ids stay, and only the finished turn is another one
  have hold : ∀ i id' done, Function.update turns j (some (id, true)) i = some (id', done) →
      ∃ done', turns i = some (id', done') ∧ (i ≠ j → done' = done) ∧ (i = j → done = true) := by
    intro i id' done hi
    by_cases hij : i = j
    · subst hij
      rw [Function.update_self] at hi
      obtain ⟨rfl, rfl⟩ := Prod.mk.inj (Option.some.inj hi)
      exact ⟨false, hturn, fun hne => absurd rfl hne, fun _ => rfl⟩
    · rw [Function.update_of_ne hij] at hi
      exact ⟨done, hi, fun _ => rfl, fun hij' => absurd hij' hij⟩
  refine ⟨?_, h.nodup, h.order, ?_, ?_, ?_, h.pendingNodup, ?_⟩
  · intro i
    rw [h.submitted i]
    by_cases hij : i = j
    · subst hij
      rw [Function.update_self, hturn]
      simp
    · rw [Function.update_of_ne hij]
  · rintro i ⟨⟩
    exact h.current j (busy_eq_job hbusy)
  · intro i id' done hi
    show _ ↔ _ ∧ none ≠ some i
    obtain ⟨done', hi', hne, heq⟩ := hold i id' done hi
    by_cases hij : i = j
    · subst hij
      exact iff_of_true (heq rfl) ⟨hstarted, nofun⟩
    · obtain rfl := hne hij
      rw [h.done i id' done' hi', hbusy]
      simp [Ne.symm hij]
  · intro i k id' done done' hi hk
    obtain ⟨_, hi', -⟩ := hold i id' done hi
    obtain ⟨_, hk', -⟩ := hold k id' done' hk
    exact h.ids i k id' _ _ hi' hk'
  · intro id'
    rw [h.pending id', hdiscards]
    show _ ↔ ∃ i done, _ ∧ (_ ∨ some j = some i)
    constructor
    · rintro ⟨i, done, hi, hor⟩
      obtain rfl := hor.resolve_right nofun
      by_cases hij : i = j
      · subst hij
        obtain ⟨rfl, -⟩ := Prod.mk.inj (Option.some.inj (hturn.symm.trans hi))
        exact ⟨i, true, Function.update_self .., .inr rfl⟩
      · exact ⟨i, false, by rw [Function.update_of_ne hij]; exact hi, .inl rfl⟩
    · rintro ⟨i, done, hi, hor⟩
      obtain ⟨done', hi', hne, heq⟩ := hold i id' done hi
      by_cases hij : i = j
      · subst hij
        rw [hturn] at hi'
        obtain ⟨rfl, rfl⟩ := Prod.mk.inj (Option.some.inj hi')
        exact ⟨i, false, hturn, .inl rfl⟩
      · rcases hor with rfl | hji
        · obtain rfl := hne hij
          exact ⟨i, false, hi', .inl rfl⟩
        · exact absurd (Option.some.inj hji).symm hij

/-- The finished turn is no longer pending. -/
theorem Sound.discard (h : q.Sound turns) {fatal : Bool}
    (hw : q.worker = some (.discarding j fatal)) (hturn : turns j = some (id, true)) :
    Sound { q with
      pending := q.pending.erase id
      worker := some (if fatal then .exiting else .getting) } turns := by
  have hbusy : q.busy = none := by rw [busy, hw]; rfl
  have hdiscards : q.discards = some j := by rw [discards, hw]; rfl
  have hnew : ∀ (f : Stage → Option Nat), f .exiting = none → f .getting = none →
      (some (if fatal then Stage.exiting else .getting)).bind f = none := by
    intro f h1 h2
    cases fatal
    · exact h2
    · exact h1
  refine ⟨h.submitted, h.nodup, h.order, ?_, ?_, h.ids, h.pendingNodup.erase id, ?_⟩
  · intro i hi
    rw [job, hnew Stage.job rfl rfl] at hi
    cases hi
  · intro i id' done hi
    rw [h.done i id' done hi, hbusy]
    show _ ↔ _ ∧ (some (if fatal then Stage.exiting else .getting)).bind Stage.busy ≠ some i
    rw [hnew Stage.busy rfl rfl]
  · intro id'
    rw [h.pendingNodup.mem_erase_iff, h.pending id', hdiscards]
    show _ ↔ ∃ i done, _ ∧
      (_ ∨ (some (if fatal then Stage.exiting else .getting)).bind Stage.discards = some i)
    rw [hnew Stage.discards rfl rfl]
    constructor
    · rintro ⟨hne, i, done, hi, hor⟩
      rcases hor with rfl | hji
      · exact ⟨i, false, hi, .inl rfl⟩
      · obtain rfl := Option.some.inj hji
        obtain ⟨rfl, -⟩ := Prod.mk.inj (Option.some.inj (hturn.symm.trans hi))
        exact absurd rfl hne
    · rintro ⟨i, done, hi, hor⟩
      obtain rfl := hor.resolve_right nofun
      refine ⟨?_, i, false, hi, .inl rfl⟩
      rintro rfl
      obtain rfl := h.ids i j id' _ _ hi hturn
      rw [hturn] at hi
      cases hi

end Session

end Exo.Agent.ChatJobs
