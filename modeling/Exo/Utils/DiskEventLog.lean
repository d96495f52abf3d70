import Exo.Disaggregated.Protocol
import Exo.Lib.Framing
import Exo.Lib.Machine
import Exo.Lib.Recency

/-!
# The event log on disk

The log is a file of records, each a length in four bytes and the packed event. Only the end of the
file is ever written. What is written stands in a buffer first, which is flushed before a reader opens
the file and of which any part may reach the disk earlier. A bounded cache remembers where some
records start.

`read_range` and `read_all` are generators: they run when their reader asks for the next event, up to
the next `yield`, and other calls may come between two events.
-/

namespace Exo

open Lib
open Disaggregated (Bytes toBytes fromBytes fromBytes_toBytes)

/-- `_serialize_event` and `_deserialize_event`. Both may raise; what was packed is unpacked. -/
structure EventCodec (Event : Type) where
  serialize : Event → Option Bytes
  deserialize : Bytes → Option Event
  roundTrip : ∀ event packed, serialize event = some packed → deserialize packed = some event

/-- `disk` is what a read of the file sees, `buffered` what was written and not flushed. -/
structure DiskEventLog where
  disk : Bytes := []
  buffered : Bytes := []
  offsetCache : Dict Nat Nat := .empty
  count : Nat := 0

namespace DiskEventLog

variable {Event : Type} (codec : EventCodec Event)

def headerSize : Nat := 4
def offsetCacheSize : Nat := 128

/-- `f.read(n)` at a position of the file, and the position behind what was read. -/
def readBytes (file : Bytes) (pos n : Nat) : Bytes × Nat :=
  ((file.drop pos).take n, pos + ((file.drop pos).take n).length)

/-- `_skip_record`. -/
def skipRecord (file : Bytes) (pos : Nat) : Bool × Nat :=
  let (header, pos) := readBytes file pos headerSize
  if header.length < headerSize then (false, pos) else (true, pos + fromBytes header)

/-- What `_read_record` ends with: `None` at the end of the file, an exception, or an event. -/
inductive Record (Event : Type) where
  | eof
  | raised
  | event (event : Event)
  deriving DecidableEq

/-- `_read_record`. -/
def readRecord (file : Bytes) (pos : Nat) : Record Event × Nat :=
  let (header, pos) := readBytes file pos headerSize
  if header.length < headerSize then (.eof, pos)
  else
    let length := fromBytes header
    let (payload, pos) := readBytes file pos length
    if payload.length < length then (.eof, pos)
    else match codec.deserialize payload with
      | none => (.raised, pos)
      | some event => (.event event, pos)

/-- `_cache_offset`. -/
def cacheOffset (log : DiskEventLog) (idx offset : Nat) : DiskEventLog :=
  { log with offsetCache := log.offsetCache.putWithin offsetCacheSize idx offset }

/-- Where a scan for a record starts: at the last cached index before it, in the cache's order. -/
def scanFrom (cache : Dict Nat Nat) (target : Nat) : Nat × Nat :=
  cache.entries.foldl (fun start cached => if cached.1 < target then cached else start) (0, 0)

/-- The scan's loop. -/
def skipRecords (file : Bytes) : Nat → Nat → Nat
  | 0, pos => pos
  | n + 1, pos => skipRecords file n (skipRecord file pos).2

/-- `_seek_to`: the position of the file, and the log with its cache. -/
def seekTo (log : DiskEventLog) (target : Nat) : Nat × DiskEventLog :=
  match log.offsetCache.get? target with
  | some offset => (offset, { log with offsetCache := log.offsetCache.moveToEnd target })
  | none =>
    let (scanFromIdx, scanFromOffset) := scanFrom log.offsetCache target
    let pos := skipRecords log.disk (target - scanFromIdx) scanFromOffset
    (pos, log.cacheOffset target pos)

/-- What `append` writes: the length of the packed event, which four bytes must hold, and it. -/
def record (event : Event) : Option Bytes :=
  (codec.serialize event).bind fun packed =>
    (toBytes packed.length).map fun header => header ++ packed

/-- `append`; `none` is an exception, which comes before anything is written. -/
def append (log : DiskEventLog) (event : Event) : Option DiskEventLog :=
  (record codec event).map fun bytes =>
    { log with buffered := log.buffered ++ bytes, count := log.count + 1 }

/-- The file object writes a part of its buffer. -/
def spill (log : DiskEventLog) (n : Nat) : DiskEventLog :=
  { log with disk := log.disk ++ log.buffered.take n, buffered := log.buffered.drop n }

def flush (log : DiskEventLog) : DiskEventLog :=
  { log with disk := log.disk ++ log.buffered, buffered := [] }

/-! ## The generators -/

inductive Call where
  | readRange (start stop : Int)
  | readAll
  deriving DecidableEq

/-- Inside the loop of a generator: the position of its file, the iterations left, and for
`read_range` the index it ends at. -/
structure Loop where
  pos : Nat
  left : Nat
  stop : Option Nat
  deriving DecidableEq

inductive Phase where
  | created
  | suspended (loop : Loop)
  | finished
  | raised
  deriving DecidableEq

/-- From the call to the loop; `none` where the generator returns before it. -/
def enter (log : DiskEventLog) : Call → Option (Loop × DiskEventLog)
  | .readRange start stop =>
    let stop := min stop log.count
    if start < 0 ∨ stop < 0 ∨ start ≥ stop then none
    else
      let (pos, log) := log.flush.seekTo start.toNat
      some (⟨pos, (stop - start).toNat, some stop.toNat⟩, log)
  | .readAll => if log.count = 0 then none else some (⟨0, log.count, none⟩, log.flush)

/-- Behind the loop, `read_range` caches where it ended up. -/
def leave (log : DiskEventLog) (pos : Nat) : Option Nat → DiskEventLog
  | none => log
  | some stop => if stop < log.count then log.cacheOffset stop pos else log

/-- One iteration of the loop: the event that is yielded, if one is. -/
def iterate (log : DiskEventLog) (loop : Loop) : Option Event × Phase × DiskEventLog :=
  match (loop).left with
  | 0 => (none, .finished, log.leave loop.pos loop.stop)
  | left + 1 =>
    match readRecord codec log.disk loop.pos with
    | (.eof, pos) => (none, .finished, log.leave pos loop.stop)
    | (.raised, _) => (none, .raised, log)
    | (.event event, pos) => (some event, .suspended { loop with pos, left }, log)

/-- `next` on a generator. -/
def next (log : DiskEventLog) (call : Call) : Phase → Option Event × Phase × DiskEventLog
  | .created =>
    match log.enter call with
    | none => (none, .finished, log)
    | some (loop, log) => log.iterate codec loop
  | .suspended loop => log.iterate codec loop
  | .finished => (none, .finished, log)
  | .raised => (none, .raised, log)

/-! ## One log and its readers -/

/-- A generator, what it has yielded so far, and how long the log was when it started. -/
structure Reader (Event : Type) where
  call : Call
  phase : Phase := .created
  yielded : List Event := []
  startedAt : Option Nat := none

/-- The log, the events appended to it and the generators made of it. -/
structure System (Event : Type) where
  log : DiskEventLog := {}
  appended : List Event := []
  readers : List (Reader Event) := []

inductive Action (Event : Type) where
  | append (event : Event)
  | spill (n : Nat)
  | call (call : Call)
  | next (reader : Nat)

def Reader.next (log : DiskEventLog) (r : Reader Event) : Reader Event × DiskEventLog :=
  let (event, phase, log') := log.next codec r.call r.phase
  ({ r with
    phase
    yielded := r.yielded ++ event.toList
    startedAt := some (r.startedAt.getD log.count) }, log')

def step (s : System Event) : Action Event → Option (System Event)
  | .append event =>
    match s.log.append codec event with
    | none => some s
    | some log => some { s with log, appended := s.appended ++ [event] }
  | .spill n => some { s with log := s.log.spill n }
  | .call call => some { s with readers := s.readers ++ [{ call }] }
  | .next k =>
    (s.readers[k]?).map fun r =>
      { s with
        log := (r.next codec s.log).2
        readers := s.readers.set k (r.next codec s.log).1 }

def machine : Machine (System Event) (Action Event) := ⟨{}, step codec⟩

/-! ## What a reader should get -/

/-- The events with an index in `[start, min(stop, len))`. -/
def between (start stop : Int) (events : List Event) : List Event :=
  (events.zipIdx.filter fun e => start ≤ e.2 ∧ (e.2 : Int) < min stop events.length).map Prod.fst

/-- A range that starts below zero is empty. -/
def Call.answer (events : List Event) : Call → List Event
  | .readRange start stop => if start < 0 then [] else between start stop events
  | .readAll => events

/-- Where the record of an index starts, in a log of these events. -/
def byteOffset (events : List Event) (idx : Nat) : Nat :=
  Framing.offset (events.map fun event => (record codec event).getD []) idx

/-- A reader in a log of these events: it has yielded a first part of its answer, taken of the log
that was there when it started, and when it is finished all of it. -/
structure Reader.Exact (events : List Event) (r : Reader Event) : Prop where
  not_raised : r.phase ≠ .raised
  created : r.startedAt = none → r.phase = .created ∧ r.yielded = []
  startedAt_le : ∀ n, r.startedAt = some n → n ≤ events.length
  isPrefix : ∀ n, r.startedAt = some n → r.yielded <+: r.call.answer (events.take n)
  finished : ∀ n, r.startedAt = some n → r.phase = .finished →
    r.yielded = r.call.answer (events.take n)

/-- The law of the log: every cached offset is right, every reader is, and a reader that is asked
often enough, with nothing else between, has all of its answer. -/
structure Exact (s : System Event) : Prop where
  count : s.log.count = s.appended.length
  cached : ∀ idx offset, s.log.offsetCache.get? idx = some offset →
    idx ≤ s.appended.length ∧ offset = byteOffset codec s.appended idx
  bounded : s.log.offsetCache.entries.length ≤ offsetCacheSize
  readers : ∀ r ∈ s.readers, r.Exact s.appended
  exhausts : ∀ k r, s.readers[k]? = some r → ∃ n s' r',
    (machine codec).run s (List.replicate n (.next k)) = some s' ∧ s'.readers[k]? = some r'
      ∧ r'.phase = .finished
      ∧ r'.yielded = r.call.answer (s.appended.take (r.startedAt.getD s.log.count))

end DiskEventLog

end Exo
