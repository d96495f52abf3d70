import Mathlib.Data.List.Sort
import Mathlib.Logic.Function.Basic
import Exo.Lib.Machine
import Exo.Lib.Text
import Mathlib.Data.List.Lex
import Mathlib.Order.Fin.Basic

/-!
# Background chat jobs

A turn that is submitted becomes a job. The worker thread of its session publishes what the turn
streams, and any number of readers follow the job while it grows. One step of the manager is what
one thread does under one lock, or between two.
-/

namespace Exo.Agent.ChatJobs

open Lib

structure Event where
  type : Text
  delta : Text
  deriving DecidableEq

/-- What the worker publishes for an exception, from its text and the name of its class. -/
def Event.ofException (error className : Text) : Event where
  type := Text.of "error"
  delta := if error.take 1000 = [] then className else error.take 1000

/-- A job, with the session and the message of its turn. -/
structure ChatJob where
  sessionId : Text
  assistantMessageId : Text
  events : List Event := []
  done : Bool := false
  deriving DecidableEq

def ChatJob.publish (event : Event) (job : ChatJob) : ChatJob :=
  { job with events := job.events ++ [event] }

def ChatJob.finish (job : ChatJob) : ChatJob := { job with done := true }

/-- What `stream` yields. -/
inductive Output where
  | heartbeat
  | event (event : Event)
  deriving DecidableEq

def Output.event? : Output → Option Event
  | .heartbeat => none
  | .event e => some e

/-- Where `stream` is. -/
inductive Phase where
  /-- Before the lock. -/
  | top
  /-- In `self._condition.wait(timeout=15)`. -/
  | waiting
  /-- Before the `yield` of a heartbeat. -/
  | beating
  /-- In `yield from buffered`, with what is left of it and the `done` that was read with it. -/
  | yielding (buffered : List Event) (done : Bool)
  | ended
  deriving DecidableEq

/-- A call of `stream`. -/
structure Reader where
  job : Nat
  index : Nat := 0
  phase : Phase := .top
  yielded : List Output := []
  deriving DecidableEq

namespace Reader

/-- The end of the `with` block. -/
def buffer (r : Reader) (job : ChatJob) (heartbeat : Bool) : Reader :=
  let buffered := job.events.drop r.index
  { r with
    index := job.events.length
    phase :=
      if heartbeat ∧ buffered = [] ∧ job.done = false then .beating
      else .yielding buffered job.done }

/-- `stream` goes on, up to its next `yield`, its next `wait` or its end. -/
def next (r : Reader) (job : ChatJob) : Option Reader :=
  match r.phase with
  | .top =>
      if job.events.length ≤ r.index ∧ job.done = false then some { r with phase := .waiting }
      else some (r.buffer job false)
  | .waiting =>
      -- notified, which it is not before there is something to see
      if job.events.length ≤ r.index ∧ job.done = false then none
      else some (r.buffer job false)
  | .beating =>
      some { r with yielded := r.yielded ++ [.heartbeat], phase := .yielding [] false }
  | .yielding (e :: buffered) done =>
      some { r with yielded := r.yielded ++ [.event e], phase := .yielding buffered done }
  | .yielding [] done =>
      some { r with phase := if done ∧ job.events.length ≤ r.index then .ended else .top }
  | .ended => none

/-- The wait has timed out, and has the lock again. -/
def timeout (r : Reader) (job : ChatJob) : Option Reader :=
  match r.phase with
  | .waiting => some (r.buffer job true)
  | _ => none

end Reader

/-- Where the worker of a session is, and with which job. -/
inductive Stage where
  /-- In `work_queue.get()`. -/
  | getting
  /-- Before `with self._inference_sem`. -/
  | acquiring (job : Nat)
  | streaming (job : Nat)
  /-- In the `except` clause. -/
  | failed (job : Nat) (error : Event)
  /-- In the `finally` clause, which ends the thread after something that is no `Exception`. -/
  | finishing (job : Nat) (fatal : Bool)
  /-- After `job.finish()`. -/
  | discarding (job : Nat) (fatal : Bool)
  /-- Past the loop, but still alive. -/
  | exiting
  deriving DecidableEq

/-- The queue, the worker and the pending ids of a session, with what was put in and taken. -/
structure Session where
  queue : List Nat := []
  /-- The stage of the thread, if it is alive. -/
  worker : Option Stage := none
  pending : List Text := []
  submitted : List Nat := []
  started : List Nat := []
  deriving DecidableEq

/-- What `pending_message_ids` returned, and the ids of the turns that were not finished. -/
structure Answer where
  ids : List Text
  unfinished : List Text
  deriving DecidableEq

structure ChatJobManager where
  jobs : List ChatJob := []
  readers : List Reader := []
  sessions : Text → Session := fun _ => {}
  inferenceSem : Nat
  answers : List Answer := []

inductive Action where
  /-- `submit`, with the message that `prepare_chat_turn` has made for the answer. -/
  | submit (sessionId assistantMessageId : Text)
  /-- The worker of a session gets a job. -/
  | get (sessionId : Text)
  | acquire (sessionId : Text)
  | publish (sessionId : Text) (event : Event)
  /-- The turn has streamed its last event. -/
  | exhaust (sessionId : Text)
  /-- The turn raises an exception. -/
  | throw (sessionId error className : Text)
  | report (sessionId : Text)
  /-- Something is raised that is no `Exception`. -/
  | abort (sessionId : Text)
  | finish (sessionId : Text)
  | discard (sessionId : Text)
  | exit (sessionId : Text)
  /-- A reader comes. -/
  | stream (job : Nat)
  | next (reader : Nat)
  | timeout (reader : Nat)
  | pendingMessageIds (sessionId : Text)
  deriving DecidableEq

namespace ChatJobManager

variable (s : ChatJobManager)

def setSession (sessionId : Text) (session : Session) : ChatJobManager :=
  { s with sessions := Function.update s.sessions sessionId session }

def modifyJob (j : Nat) (f : ChatJob → ChatJob) : ChatJobManager :=
  { s with jobs := s.jobs.modify j f }

/-- The worker comes to another stage. -/
def goto (sessionId : Text) (stage : Stage) : ChatJobManager :=
  s.setSession sessionId { s.sessions sessionId with worker := some stage }

/-- The locked part of `submit`. A worker that gets the job meanwhile waits for the lock. -/
def submit (sessionId assistantMessageId : Text) : Option ChatJobManager :=
  if assistantMessageId ∈ s.jobs.map ChatJob.assistantMessageId then none
  else
    let session := s.sessions sessionId
    some { s with
      jobs := s.jobs ++ [{ sessionId := sessionId, assistantMessageId := assistantMessageId }]
      sessions := Function.update s.sessions sessionId
        { queue := session.queue ++ [s.jobs.length]
          worker := some (session.worker.getD .getting)
          pending := session.pending.insert assistantMessageId
          submitted := session.submitted ++ [s.jobs.length]
          started := session.started } }

/-- `work_queue.get()` returns. -/
def get (sessionId : Text) : Option ChatJobManager :=
  let session := s.sessions sessionId
  match session.worker, session.queue with
  | some .getting, j :: queue =>
      some (s.setSession sessionId { session with
        queue := queue
        worker := some (.acquiring j)
        started := session.started ++ [j] })
  | _, _ => none

def acquire (sessionId : Text) : Option ChatJobManager :=
  match (s.sessions sessionId).worker with
  | some (.acquiring j) =>
      if 0 < s.inferenceSem then
        some { s.goto sessionId (.streaming j) with inferenceSem := s.inferenceSem - 1 }
      else none
  | _ => none

/-- The worker leaves the `with` block. -/
def release (sessionId : Text) (stage : Stage) : ChatJobManager :=
  { s.goto sessionId stage with inferenceSem := s.inferenceSem + 1 }

/-- The `for` loop publishes an event. -/
def publish (sessionId : Text) (event : Event) : Option ChatJobManager :=
  match (s.sessions sessionId).worker with
  | some (.streaming j) => some (s.modifyJob j (ChatJob.publish event))
  | _ => none

def exhaust (sessionId : Text) : Option ChatJobManager :=
  match (s.sessions sessionId).worker with
  | some (.streaming j) => some (s.release sessionId (.finishing j false))
  | _ => none

def throw (sessionId error className : Text) : Option ChatJobManager :=
  match (s.sessions sessionId).worker with
  | some (.streaming j) =>
      some (s.release sessionId (.failed j (.ofException error className)))
  | _ => none

/-- The `except` clause publishes the error. -/
def report (sessionId : Text) : Option ChatJobManager :=
  match (s.sessions sessionId).worker with
  | some (.failed j error) =>
      some ((s.modifyJob j (ChatJob.publish error)).goto sessionId (.finishing j false))
  | _ => none

def abort (sessionId : Text) : Option ChatJobManager :=
  match (s.sessions sessionId).worker with
  | some (.streaming j) => some (s.release sessionId (.finishing j true))
  | some (.failed j _) => some (s.goto sessionId (.finishing j true))
  | _ => none

/-- `job.finish()`. -/
def finish (sessionId : Text) : Option ChatJobManager :=
  match (s.sessions sessionId).worker with
  | some (.finishing j fatal) =>
      some ((s.modifyJob j ChatJob.finish).goto sessionId (.discarding j fatal))
  | _ => none

/-- The rest of the `finally` clause. -/
def discard (sessionId : Text) : Option ChatJobManager :=
  let session := s.sessions sessionId
  match session.worker with
  | some (.discarding j fatal) =>
      (s.jobs[j]?).map fun job =>
        s.setSession sessionId { session with
          pending := session.pending.erase job.assistantMessageId
          worker := some (if fatal then .exiting else .getting) }
  | _ => none

/-- The thread ends. -/
def exit (sessionId : Text) : Option ChatJobManager :=
  let session := s.sessions sessionId
  match session.worker with
  | some .exiting => some (s.setSession sessionId { session with worker := none })
  | _ => none

/-- A reader does something with its job. -/
def onReader (i : Nat) (f : Reader → ChatJob → Option Reader) : Option ChatJobManager :=
  match s.readers[i]? with
  | some r =>
      match s.jobs[r.job]? with
      | some job => (f r job).map fun r' => { s with readers := s.readers.set i r' }
      | none => none
  | none => none

/-- The ids of the turns of a session that have been submitted and are not finished. -/
def unfinished (sessionId : Text) : List Text :=
  (s.jobs.filter fun job => decide (job.sessionId = sessionId ∧ job.done = false)).map
    ChatJob.assistantMessageId

/-- `pending_message_ids`: the sorted ids. -/
def pendingMessageIds (sessionId : Text) : List Text :=
  (s.sessions sessionId).pending.insertionSort (· ≤ ·)

def step (s : ChatJobManager) : Action → Option ChatJobManager
  | .submit sessionId assistantMessageId => s.submit sessionId assistantMessageId
  | .get sessionId => s.get sessionId
  | .acquire sessionId => s.acquire sessionId
  | .publish sessionId event => s.publish sessionId event
  | .exhaust sessionId => s.exhaust sessionId
  | .throw sessionId error className => s.throw sessionId error className
  | .report sessionId => s.report sessionId
  | .abort sessionId => s.abort sessionId
  | .finish sessionId => s.finish sessionId
  | .discard sessionId => s.discard sessionId
  | .exit sessionId => s.exit sessionId
  | .stream j =>
      if j < s.jobs.length then some { s with readers := s.readers ++ [{ job := j }] } else none
  | .next i => s.onReader i Reader.next
  | .timeout i => s.onReader i Reader.timeout
  | .pendingMessageIds sessionId =>
      some { s with
        answers := s.answers ++ [⟨s.pendingMessageIds sessionId, s.unfinished sessionId⟩] }

/-- The manager of a process that lets `n` turns infer at once. -/
def machine (n : Nat) : Machine ChatJobManager Action := ⟨{ inferenceSem := n }, step⟩

end ChatJobManager

end Exo.Agent.ChatJobs
