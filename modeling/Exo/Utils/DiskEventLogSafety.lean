import Exo.Utils.DiskEventLog

/-!
# What readers of the event log get

The invariant speaks of the events that were appended. The file holds their records in order, and
every cached offset is where the record of its index starts. A suspended generator stands in front of
the record it yields next, and the records it will still read are on the disk, since it flushed them
when it started. No append moves a record, so each of this survives what other calls do.
-/

namespace Exo

open Lib
open Disaggregated (Bytes toBytes fromBytes fromBytes_toBytes)

namespace DiskEventLog

variable {Event : Type} {codec : EventCodec Event} {events more : List Event} {event : Event}
variable {log log' : DiskEventLog} {disk : Bytes} {call : Call} {loop : Loop}
variable {yielded : List Event} {i m n : Nat}

/-- The records of the events. -/
def frames (codec : EventCodec Event) (events : List Event) : List Bytes :=
  events.map fun event => (record codec event).getD []

theorem byteOffset_eq : byteOffset codec events i = Framing.offset (frames codec events) i := rfl

theorem length_frames : (frames codec events).length = events.length := List.length_map _

theorem frames_append : frames codec (events ++ more) = frames codec events ++ frames codec more :=
  List.map_append

theorem byteOffset_append (h : i ≤ events.length) :
    byteOffset codec (events ++ more) i = byteOffset codec events i := by
  rw [byteOffset_eq, byteOffset_eq, frames_append]
  exact Framing.offset_append (by rw [length_frames]; exact h) _

/-! ## One record -/

theorem record_eq_some {bytes : Bytes} (h : record codec event = some bytes) :
    ∃ header packed, bytes = header ++ packed ∧ header.length = headerSize
      ∧ fromBytes header = packed.length ∧ codec.deserialize packed = some event := by
  obtain ⟨packed, hpacked, h⟩ := Option.bind_eq_some_iff.mp h
  obtain ⟨header, hheader, rfl⟩ := Option.map_eq_some_iff.mp h
  obtain ⟨hlength, hvalue⟩ := fromBytes_toBytes hheader
  exact ⟨header, packed, rfl, hlength, hvalue, codec.roundTrip event packed hpacked⟩

theorem readBytes_append (front data rest : Bytes) :
    readBytes (front ++ (data ++ rest)) front.length data.length
      = (data, front.length + data.length) := by
  rw [readBytes, List.drop_left, List.take_left]

/-- The records of these events are all there, and so are the first `m` of them on the disk. -/
structure Stored (codec : EventCodec Event) (events : List Event) (disk : Bytes) (m : Nat) :
    Prop where
  recorded : ∀ event ∈ events, (record codec event).isSome
  holds : Framing.Holds disk (frames codec events) m
  le : m ≤ events.length

theorem Stored.exists_append (h : Stored codec events disk m) (hi : i < m)
    (hevent : events[i]? = some event) :
    ∃ front header packed rest, disk = front ++ (header ++ (packed ++ rest))
      ∧ front.length = byteOffset codec events i
      ∧ header.length = headerSize ∧ fromBytes header = packed.length
      ∧ codec.deserialize packed = some event
      ∧ byteOffset codec events (i + 1) = front.length + header.length + packed.length := by
  obtain ⟨bytes, hbytes⟩ :=
    Option.isSome_iff_exists.mp (h.recorded event (List.mem_of_getElem? hevent))
  obtain ⟨header, packed, rfl, hlength, hvalue, hpacked⟩ := record_eq_some hbytes
  have hframe : (frames codec events)[i]? = some (header ++ packed) := by
    rw [frames, List.getElem?_map, hevent, Option.map_some, hbytes, Option.getD_some]
  obtain ⟨front, rest, hdisk, hfront⟩ := h.holds.exists_append hi hframe
  refine ⟨front, header, packed, rest, ?_, hfront, hlength, hvalue, hpacked, ?_⟩
  · rw [hdisk, List.append_assoc]
  · rw [byteOffset_eq, Framing.offset_succ hframe, ← hfront, List.length_append, Nat.add_assoc]

theorem skipRecord_of_stored (h : Stored codec events disk m) (hi : i < m) :
    (skipRecord disk (byteOffset codec events i)).2 = byteOffset codec events (i + 1) := by
  have hlt : i < events.length := Nat.lt_of_lt_of_le hi h.le
  obtain ⟨front, header, packed, rest, rfl, hfront, hlength, hvalue, -, hnext⟩ :=
    h.exists_append hi (List.getElem?_eq_getElem hlt)
  have hread := readBytes_append front header (packed ++ rest)
  rw [hlength] at hread
  rw [← hfront, hnext, skipRecord, hread]
  show (if header.length < headerSize then _ else _ : Bool × Nat).2 = _
  rw [if_neg (by omega), hvalue, hlength]

/-- Where a record stands, its event is read. -/
theorem readRecord_of_stored (h : Stored codec events disk m) (hi : i < m)
    (hevent : events[i]? = some event) :
    readRecord codec disk (byteOffset codec events i)
      = (.event event, byteOffset codec events (i + 1)) := by
  obtain ⟨front, header, packed, rest, rfl, hfront, hlength, hvalue, hpacked, hnext⟩ :=
    h.exists_append hi hevent
  have hread := readBytes_append front header (packed ++ rest)
  have hpayload := readBytes_append (front ++ header) packed rest
  rw [hlength] at hread
  rw [List.append_assoc, List.length_append, hlength] at hpayload
  rw [← hfront, hnext, readRecord, hread]
  simp only [hlength, hvalue, hpayload, Nat.lt_irrefl, if_false, hpacked]

theorem skipRecords_of_stored (h : Stored codec events disk m) {k : Nat} (hk : i + k ≤ m) :
    skipRecords disk k (byteOffset codec events i) = byteOffset codec events (i + k) := by
  induction k generalizing i with
  | zero => rfl
  | succ k ih =>
      rw [skipRecords, skipRecord_of_stored h (by omega), ih (by omega), Nat.add_right_comm]
      rfl

/-! ## The cache -/

/-- Every cached offset is the byte offset of its index. -/
def CacheRight (codec : EventCodec Event) (events : List Event) (cache : Dict Nat Nat) : Prop :=
  ∀ idx offset, cache.get? idx = some offset →
    idx ≤ events.length ∧ offset = byteOffset codec events idx

variable {cache : Dict Nat Nat}

theorem CacheRight.append (h : CacheRight codec events cache) :
    CacheRight codec (events ++ more) cache := by
  intro idx offset hget
  obtain ⟨hle, hoffset⟩ := h idx offset hget
  refine ⟨?_, by rw [byteOffset_append hle]; exact hoffset⟩
  rw [List.length_append]
  omega

theorem CacheRight.put (h : CacheRight codec events cache)
    (hi : i ≤ events.length) {bound : Nat} :
    CacheRight codec events (cache.putWithin bound i (byteOffset codec events i)) := by
  intro idx offset hget
  rcases Dict.get?_of_putWithin hget with ⟨rfl, rfl⟩ | hget
  · exact ⟨hi, rfl⟩
  · exact h idx offset hget

/-- Whatever cached index a scan starts from, it starts at its record, and not behind the target. -/
theorem scanFrom_of_cacheRight (h : CacheRight codec events cache)
    (target : Nat) : (scanFrom cache target).1 ≤ target
      ∧ (scanFrom cache target).2 = byteOffset codec events (scanFrom cache target).1 := by
  refine List.foldlRecOn
    (motive := fun (start : Nat × Nat) => start.1 ≤ target
      ∧ start.2 = byteOffset codec events start.1)
    cache.entries _ ⟨Nat.zero_le _, rfl⟩ fun start hstart cached hcached => ?_
  split
  · rename_i hlt
    obtain ⟨-, hoffset⟩ := h cached.1 cached.2 (Dict.mem_entries.1 hcached)
    exact ⟨Nat.le_of_lt hlt, hoffset⟩
  · exact hstart

/-! ## The log -/

/-- The log holds the records of the events, on the disk and in its buffer. -/
structure Consistent (codec : EventCodec Event) (events : List Event) (log : DiskEventLog) :
    Prop where
  recorded : ∀ event ∈ events, (record codec event).isSome
  count : log.count = events.length
  content : log.disk ++ log.buffered = (frames codec events).flatten
  cached : CacheRight codec events log.offsetCache
  bounded : log.offsetCache.entries.length ≤ offsetCacheSize

namespace Consistent

theorem empty : Consistent codec [] {} where
  recorded := by simp
  count := rfl
  content := rfl
  cached := by simp [CacheRight]
  bounded := Nat.zero_le _

theorem append (h : Consistent codec events log) (hlog : log.append codec event = some log') :
    Consistent codec (events ++ [event]) log' ∧ log'.disk = log.disk := by
  obtain ⟨bytes, hbytes, rfl⟩ := Option.map_eq_some_iff.mp hlog
  refine ⟨⟨?_, ?_, ?_, h.cached.append, h.bounded⟩, rfl⟩
  · intro e he
    rcases List.mem_append.mp he with he | he
    · exact h.recorded e he
    · rw [List.mem_singleton.mp he, hbytes]
      rfl
  · rw [List.length_append, ← h.count]
    rfl
  · show log.disk ++ (log.buffered ++ bytes) = _
    rw [frames_append, List.flatten_append, ← h.content, List.append_assoc]
    simp [frames, hbytes]

theorem spill (h : Consistent codec events log) (n : Nat) : Consistent codec events (log.spill n) :=
  { h with
    content := by
      show log.disk ++ log.buffered.take n ++ log.buffered.drop n = _
      rw [List.append_assoc, List.take_append_drop, h.content] }

theorem flush (h : Consistent codec events log) : Consistent codec events log.flush :=
  { h with
    content := by
      show log.disk ++ log.buffered ++ [] = _
      rw [List.append_nil, h.content] }

/-- A flush brings every record to the disk. -/
theorem stored_flush (h : Consistent codec events log) (hm : m ≤ events.length) :
    Stored codec events log.flush.disk m where
  recorded := h.recorded
  holds := by
    show Framing.Holds (log.disk ++ log.buffered) _ _
    rw [h.content]
    obtain ⟨tail, htail⟩ := List.take_prefix m (frames codec events)
    exact ⟨tail.flatten, by rw [← List.flatten_append, htail]⟩
  le := hm

theorem cacheOffset (h : Consistent codec events log) (hi : i ≤ events.length) :
    Consistent codec events (log.cacheOffset i (byteOffset codec events i)) :=
  { h with
    cached := h.cached.put hi
    bounded := Dict.length_entries_putWithin h.bounded _ _ }

/-- Wherever the scan starts, it ends at the target's record. -/
theorem seekTo (h : Consistent codec events log) (hstored : Stored codec events log.disk m)
    {target : Nat} (htarget : target ≤ m) :
    (log.seekTo target).1 = byteOffset codec events target
      ∧ Consistent codec events (log.seekTo target).2
      ∧ (log.seekTo target).2.disk = log.disk := by
  unfold DiskEventLog.seekTo
  cases hget : log.offsetCache.get? target with
  | some offset =>
      refine ⟨(h.cached target offset hget).2, { h with cached := ?_, bounded := ?_ }, rfl⟩
      · intro idx offset hidx
        exact h.cached idx offset (by rw [← hidx]; exact (Dict.get?_moveToEnd _ _ _).symm)
      · show (log.offsetCache.moveToEnd target).entries.length ≤ offsetCacheSize
        rw [Dict.length_entries_moveToEnd]
        exact h.bounded
  | none =>
      obtain ⟨hle, hoffset⟩ := scanFrom_of_cacheRight h.cached target
      have hscan : skipRecords log.disk (target - (scanFrom log.offsetCache target).1)
          (scanFrom log.offsetCache target).2 = byteOffset codec events target := by
        rw [hoffset, skipRecords_of_stored hstored (by omega), Nat.add_sub_cancel' hle]
      refine ⟨hscan, ?_, rfl⟩
      show Consistent codec events (log.cacheOffset target (skipRecords log.disk _ _))
      rw [hscan]
      exact h.cacheOffset (Nat.le_trans htarget hstored.le)

theorem leave (h : Consistent codec events log) {stop : Option Nat} (hi : i ≤ events.length)
    (hstop : ∀ k, stop = some k → k = i) :
    Consistent codec events (log.leave (byteOffset codec events i) stop)
      ∧ (log.leave (byteOffset codec events i) stop).disk = log.disk := by
  cases stop with
  | none => exact ⟨h, rfl⟩
  | some k =>
      obtain rfl := hstop k rfl
      unfold DiskEventLog.leave
      show Consistent codec events (if k < log.count then _ else _)
        ∧ (if k < log.count then _ else _ : DiskEventLog).disk = _
      split
      · exact ⟨h.cacheOffset hi, rfl⟩
      · exact ⟨h, rfl⟩

end Consistent

/-! ## What is to be yielded -/

theorem map_filter_zipIdx (l : List Event) (k lo hi : Nat) :
    ((l.zipIdx k).filter fun e => lo ≤ e.2 ∧ e.2 < hi).map Prod.fst
      = (l.take (hi - k)).drop (lo - k) := by
  induction l generalizing k with
  | nil => simp
  | cons a l ih =>
      rw [List.zipIdx_cons, List.filter_cons]
      by_cases hhi : k < hi
      · have htake : hi - k = hi - (k + 1) + 1 := by omega
        by_cases hlo : lo ≤ k
        · have hdrop : lo - k = 0 := by omega
          have hdrop' : lo - (k + 1) = 0 := by omega
          rw [if_pos (by simp [hlo, hhi]), List.map_cons, ih, htake, hdrop, hdrop']
          rfl
        · have hdrop : lo - k = lo - (k + 1) + 1 := by omega
          rw [if_neg (by simp [hlo]), ih, htake, hdrop]
          rfl
      · have htake : hi - k = 0 := by omega
        have htake' : hi - (k + 1) = 0 := by omega
        rw [if_neg (by simp [hhi]), ih, htake, htake']
        simp

variable {start stop : Int}

theorem between_eq (hstart : 0 ≤ start) :
    between start stop events
      = (events.take (min stop events.length).toNat).drop start.toNat := by
  have hslice := map_filter_zipIdx events 0 start.toNat (min stop events.length).toNat
  rw [Nat.sub_zero, Nat.sub_zero] at hslice
  rw [← hslice, between]
  congr 1
  refine List.filter_congr fun e _ => ?_
  rw [decide_eq_decide]
  omega

theorem answer_readRange (hstart : 0 ≤ start) :
    (Call.readRange start stop).answer events
      = (events.take (min stop events.length).toNat).drop start.toNat := by
  rw [Call.answer, if_neg (by omega), between_eq hstart]

theorem answer_readRange_eq_nil
    (h : start < 0 ∨ min stop events.length < 0 ∨ start ≥ min stop events.length) :
    (Call.readRange start stop).answer events = [] := by
  by_cases hstart : start < 0
  · rw [Call.answer, if_pos hstart]
  · rw [answer_readRange (by omega), List.drop_eq_nil_iff, List.length_take]
    omega

/-! ## A generator in its loop -/

/-- Between two events: the answer is the events from `lo` to `hi`, those before `i` were yielded, and
the file stands in front of record `i`. -/
structure InLoop (codec : EventCodec Event) (events : List Event) (disk : Bytes) (answer : List Event)
    (loop : Loop) (yielded : List Event) (lo i hi : Nat) : Prop where
  stored : Stored codec events disk hi
  lo_le : lo ≤ i
  left : i + (loop).left = hi
  pos : loop.pos = byteOffset codec events i
  stop : ∀ k, loop.stop = some k → k = hi
  answer : answer = (events.take hi).drop lo
  yielded : yielded = (events.take i).drop lo

namespace InLoop

variable {answer : List Event} {lo hi : Nat}

theorem isPrefix (h : InLoop codec events disk answer loop yielded lo i hi) :
    yielded <+: answer := by
  rw [h.answer, h.yielded, List.drop_take, List.drop_take]
  refine List.take_prefix_take_left ?_
  have hleft := h.left
  omega

/-- What other calls do, an append or a write of the buffer, leaves the generator where it is. -/
theorem grow (h : InLoop codec events disk answer loop yielded lo i hi) {disk' : Bytes}
    (hdisk : disk <+: disk') (hmore : ∀ event ∈ more, (record codec event).isSome) :
    InLoop codec (events ++ more) disk' answer loop yielded lo i hi := by
  have hle := h.stored.le
  have hleft := h.left
  refine { h with stored := ⟨?_, ?_, ?_⟩, pos := ?_, answer := ?_, yielded := ?_ }
  · intro event hevent
    rcases List.mem_append.mp hevent with hevent | hevent
    · exact h.stored.recorded event hevent
    · exact hmore event hevent
  · rw [frames_append]
    exact (h.stored.holds.trans hdisk).append (by rw [length_frames]; exact hle) _
  · rw [List.length_append]
    omega
  · rw [byteOffset_append (by omega)]
    exact h.pos
  · rw [List.take_append_of_le_length hle]
    exact h.answer
  · rw [List.take_append_of_le_length (by omega)]
    exact h.yielded

/-- **One iteration.** At the end of the loop everything was yielded; before it the next event is. -/
theorem iterate (h : InLoop codec events log.disk answer loop yielded lo i hi)
    (hlog : Consistent codec events log) :
    Consistent codec events (log.iterate codec loop).2.2
      ∧ (log.iterate codec loop).2.2.disk = log.disk
      ∧ (((loop).left = 0 ∧ (log.iterate codec loop).1 = none
          ∧ (log.iterate codec loop).2.1 = .finished ∧ yielded = answer)
        ∨ ∃ event loop', (log.iterate codec loop).1 = some event
          ∧ (log.iterate codec loop).2.1 = .suspended loop' ∧ loop'.left + 1 = (loop).left
          ∧ InLoop codec events log.disk answer loop' (yielded ++ [event]) lo (i + 1) hi) := by
  have hle := h.stored.le
  have hleft := h.left
  unfold DiskEventLog.iterate
  cases hl : (loop).left with
  | zero =>
      obtain rfl : i = hi := by omega
      obtain ⟨hleave, hdisk⟩ := hlog.leave hle h.stop
      rw [← h.pos] at hleave hdisk
      exact ⟨hleave, hdisk, .inl ⟨rfl, rfl, rfl, h.yielded.trans h.answer.symm⟩⟩
  | succ left =>
      have hlt : i < events.length := by omega
      have hevent := List.getElem?_eq_getElem hlt
      have hread := readRecord_of_stored h.stored (i := i) (by omega) hevent
      rw [← h.pos] at hread
      rw [hread]
      refine ⟨hlog, rfl, .inr ⟨events[i], _, rfl, rfl, rfl, ?_⟩⟩
      refine { h with lo_le := ?_, left := ?_, pos := rfl, yielded := ?_ }
      · exact Nat.le_succ_of_le h.lo_le
      · show i + 1 + left = hi
        omega
      · have hcut : (events.take i).length = i := by rw [List.length_take]; omega
        rw [h.yielded, List.take_add_one, hevent, Option.toList_some,
          List.drop_append_of_le_length (by rw [hcut]; exact h.lo_le)]

end InLoop

/-- **Entering the loop.** A generator that returns at once has an empty answer. -/
theorem enter_spec (hlog : Consistent codec events log) (call : Call) :
    (log.enter call = none ∧ call.answer events = []) ∨ ∃ loop log' lo hi,
      log.enter call = some (loop, log') ∧ Consistent codec events log' ∧ log.disk <+: log'.disk
        ∧ InLoop codec events log'.disk (call.answer events) loop [] lo lo hi := by
  have hflush : log.disk <+: log.flush.disk := List.prefix_append _ _
  cases call with
  | readRange start stop =>
      unfold enter
      by_cases hempty : start < 0 ∨ min stop log.count < 0 ∨ start ≥ min stop log.count
      · refine .inl ⟨if_pos hempty, answer_readRange_eq_nil ?_⟩
        rw [← hlog.count]
        exact hempty
      · have hlen := hlog.count
        have hstored := hlog.stored_flush (m := (min stop log.count).toNat) (by omega)
        have htarget : start.toNat ≤ (min stop log.count).toNat := by omega
        obtain ⟨hpos, hseek, hdisk⟩ := hlog.flush.seekTo hstored htarget
        refine .inr ⟨_, (log.flush.seekTo start.toNat).2, start.toNat,
          (min stop log.count).toNat, if_neg hempty, hseek, ?_, ?_⟩
        · rw [hdisk]
          exact hflush
        · refine ⟨?_, Nat.le_refl _, ?_, hpos, ?_, ?_, ?_⟩
          · rw [hdisk]
            exact hstored
          · show start.toNat + (min stop log.count - start).toNat = _
            omega
          · intro k hk
            exact (Option.some.inj hk).symm
          · rw [answer_readRange (by omega), hlen]
          · symm
            rw [List.drop_eq_nil_iff, List.length_take]
            omega
  | readAll =>
      unfold enter
      by_cases hempty : log.count = 0
      · refine .inl ⟨if_pos hempty, ?_⟩
        rw [hlog.count] at hempty
        exact List.eq_nil_of_length_eq_zero hempty
      · refine .inr ⟨_, _, 0, log.count, if_neg hempty, hlog.flush, hflush, ?_⟩
        refine ⟨hlog.stored_flush (Nat.le_of_eq hlog.count), Nat.le_refl _, Nat.zero_add _, rfl,
          (fun k hk => by cases hk), ?_, rfl⟩
        rw [hlog.count, List.take_length]
        rfl

end DiskEventLog

end Exo
