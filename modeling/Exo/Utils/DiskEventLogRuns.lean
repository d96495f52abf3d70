import Exo.Utils.DiskEventLogSafety

/-!
# The log and its readers over whole runs

A step of the system is an append, a write of the buffer, a new generator or the next event of one.
Each keeps the log consistent and every generator where its answer says it is, so whatever calls come
between two events of a reader, it goes on with the next one.
-/

namespace Exo

open Lib
open Disaggregated (Bytes toBytes)

namespace DiskEventLog

variable {Event : Type} {codec : EventCodec Event} {events more : List Event}
variable {log : DiskEventLog} {disk : Bytes} {r : Reader Event} {s s' : System Event}

/-- A generator that has not started has yielded nothing; one that has is finished or in its loop. -/
def Reader.Good (codec : EventCodec Event) (events : List Event) (disk : Bytes)
    (r : Reader Event) : Prop :=
  match r.startedAt with
  | none => r.phase = .created ∧ r.yielded = []
  | some n => n ≤ events.length
    ∧ ((r.phase = .finished ∧ r.yielded = r.call.answer (events.take n))
      ∨ ∃ loop lo i hi, r.phase = .suspended loop
        ∧ InLoop codec events disk (r.call.answer (events.take n)) loop r.yielded lo i hi)

/-- Other calls append events and bring bytes to the disk; this changes nothing for a reader. -/
theorem Reader.Good.grow (h : r.Good codec events disk) {disk' : Bytes} (hdisk : disk <+: disk')
    (hmore : ∀ event ∈ more, (record codec event).isSome) :
    r.Good codec (events ++ more) disk' := by
  unfold Reader.Good at h ⊢
  cases hn : r.startedAt with
  | none =>
      rw [hn] at h
      exact h
  | some n =>
      rw [hn] at h
      obtain ⟨hle, h⟩ := h
      have htake : (events ++ more).take n = events.take n := List.take_append_of_le_length hle
      refine ⟨by rw [List.length_append]; omega, ?_⟩
      rw [htake]
      rcases h with h | ⟨loop, lo, i, hi, hphase, hloop⟩
      · exact .inl h
      · exact .inr ⟨loop, lo, i, hi, hphase, hloop.grow hdisk hmore⟩

theorem Reader.next_eq : r.next codec log
    = ({ r with
          phase := (log.next codec r.call r.phase).2.1
          yielded := r.yielded ++ (log.next codec r.call r.phase).1.toList
          startedAt := some (r.startedAt.getD log.count) },
        (log.next codec r.call r.phase).2.2) := rfl

/-- What `next` leaves behind for its reader: it is finished, or suspended one iteration further. -/
structure Reader.Advanced (codec : EventCodec Event) (events : List Event) (log : DiskEventLog)
    (r : Reader Event) : Prop where
  consistent : Consistent codec events (r.next codec log).2
  disk : log.disk <+: (r.next codec log).2.disk
  good : (r.next codec log).1.Good codec events (r.next codec log).2.disk
  progress : (r.next codec log).1.phase = .finished
    ∨ ∃ loop', (r.next codec log).1.phase = .suspended loop'
      ∧ ∀ loop, r.phase = .suspended loop → loop'.left + 1 = (loop).left

/-- An iteration of a loop, wherever the reader came from. -/
theorem Reader.advanced_of_iterate {start : DiskEventLog} {loop : Loop} {lo i hi : Nat}
    (hnext : log.next codec r.call r.phase = start.iterate codec loop)
    (hdisk : log.disk <+: start.disk) (hstart : Consistent codec events start)
    (hn : r.startedAt.getD log.count ≤ events.length)
    (hloop : InLoop codec events start.disk
      (r.call.answer (events.take (r.startedAt.getD log.count))) loop r.yielded lo i hi)
    (hphase : ∀ loop', r.phase = .suspended loop' → loop' = loop) :
    r.Advanced codec events log := by
  obtain ⟨hconsistent, hsame, h⟩ := hloop.iterate hstart
  refine ⟨?_, ?_, ?_, ?_⟩ <;> rw [Reader.next_eq, hnext]
  · exact hconsistent
  · rw [hsame]
    exact hdisk
  · refine ⟨hn, ?_⟩
    rw [hsame]
    rcases h with ⟨-, hevent, hfinished, hyielded⟩ | ⟨event, loop', hevent, hsuspended, -, hloop'⟩
    · refine .inl ⟨hfinished, ?_⟩
      rw [hevent, Option.toList_none, List.append_nil]
      exact hyielded
    · refine .inr ⟨loop', lo, i + 1, hi, hsuspended, ?_⟩
      rw [hevent, Option.toList_some]
      exact hloop'
  · rcases h with ⟨-, -, hfinished, -⟩ | ⟨event, loop', -, hsuspended, hleft, -⟩
    · exact .inl hfinished
    · refine .inr ⟨loop', hsuspended, fun before hbefore => ?_⟩
      rw [hphase before hbefore]
      exact hleft

/-- **The next event of a reader.** -/
theorem Reader.Good.next (h : r.Good codec events log.disk) (hlog : Consistent codec events log) :
    r.Advanced codec events log := by
  unfold Reader.Good at h
  cases hn : r.startedAt with
  | none =>
      rw [hn] at h
      obtain ⟨hphase, hyielded⟩ := h
      have hall : events.take log.count = events := by rw [hlog.count, List.take_length]
      rcases enter_spec hlog r.call with ⟨henter, hnil⟩ | ⟨loop, start, lo, hi, henter, hstart,
        hdisk, hloop⟩
      · -- the generator returns before its loop
        have hnext : log.next codec r.call r.phase = (none, .finished, log) := by
          rw [hphase, DiskEventLog.next, henter]
        have hdisk : log.disk <+: (r.next codec log).2.disk := by
          simp only [Reader.next_eq, hnext, List.prefix_rfl]
        refine ⟨?_, hdisk, ?_, ?_⟩ <;> rw [Reader.next_eq, hnext]
        · exact hlog
        · refine ⟨?_, .inl ⟨rfl, ?_⟩⟩
          · rw [hn, Option.getD_none]
            exact Nat.le_of_eq hlog.count
          · show r.yielded ++ [] = _
            rw [hn, Option.getD_none, hall, hyielded, hnil]
            rfl
        · exact .inl rfl
      · have hnext : log.next codec r.call r.phase = start.iterate codec loop := by
          rw [hphase, DiskEventLog.next, henter]
        have hle : r.startedAt.getD log.count ≤ events.length := by
          rw [hn, Option.getD_none]
          exact Nat.le_of_eq hlog.count
        have hbegun : InLoop codec events start.disk
            (r.call.answer (events.take (r.startedAt.getD log.count))) loop r.yielded lo lo hi := by
          rw [hn, Option.getD_none, hall, hyielded]
          exact hloop
        refine Reader.advanced_of_iterate hnext hdisk hstart hle hbegun fun loop' hloop' => ?_
        rw [hphase] at hloop'
        cases hloop'
  | some n =>
      rw [hn] at h
      obtain ⟨hle, ⟨hphase, hyielded⟩ | ⟨loop, lo, i, hi, hphase, hloop⟩⟩ := h
      · have hnext : log.next codec r.call r.phase = (none, .finished, log) := by
          rw [hphase, DiskEventLog.next]
        have hdisk : log.disk <+: (r.next codec log).2.disk := by
          simp only [Reader.next_eq, hnext, List.prefix_rfl]
        refine ⟨?_, hdisk, ?_, ?_⟩ <;> rw [Reader.next_eq, hnext]
        · exact hlog
        · refine ⟨?_, .inl ⟨rfl, ?_⟩⟩
          · rw [hn, Option.getD_some]
            exact hle
          · show r.yielded ++ [] = _
            rw [hn, Option.getD_some, List.append_nil]
            exact hyielded
        · exact .inl rfl
      · have hnext : log.next codec r.call r.phase = log.iterate codec loop := by
          rw [hphase, DiskEventLog.next]
        have hstarted : r.startedAt.getD log.count = n := by rw [hn, Option.getD_some]
        rw [← hstarted] at hle hloop
        refine Reader.advanced_of_iterate hnext List.prefix_rfl hlog hle hloop
          fun loop' hloop' => ?_
        rw [hphase] at hloop'
        exact (Phase.suspended.inj hloop').symm

/-! ## Steps and runs -/

/-- The log is consistent, and every reader is where it should be. -/
structure System.Good (codec : EventCodec Event) (s : System Event) : Prop where
  consistent : Consistent codec s.appended s.log
  readers : ∀ r ∈ s.readers, r.Good codec s.appended s.log.disk

theorem System.Good.init : System.Good codec (machine codec).init :=
  ⟨Consistent.empty, fun r hr => by cases hr⟩

theorem System.Good.step (h : s.Good codec) {a : Action Event} (hs : step codec s a = some s') :
    s'.Good codec := by
  cases a with
  | append event =>
      simp only [DiskEventLog.step] at hs
      cases happend : s.log.append codec event with
      | none =>
          rw [happend] at hs
          exact Option.some.inj hs ▸ h
      | some log =>
          rw [happend] at hs
          obtain rfl := Option.some.inj hs
          obtain ⟨hconsistent, hdisk⟩ := h.consistent.append happend
          refine ⟨hconsistent, fun r hr => (h.readers r hr).grow ?_ fun e he => ?_⟩
          · simp only [hdisk, List.prefix_rfl]
          · exact hconsistent.recorded e (List.mem_append_right _ he)
  | spill n =>
      obtain rfl := Option.some.inj hs
      refine ⟨h.consistent.spill n, fun r hr => ?_⟩
      have hgrown : r.Good codec (s.appended ++ []) (s.log.spill n).disk :=
        (h.readers r hr).grow (List.prefix_append _ _) fun e he => by cases he
      rw [List.append_nil] at hgrown
      exact hgrown
  | call call =>
      obtain rfl := Option.some.inj hs
      refine ⟨h.consistent, fun r hr => ?_⟩
      rcases List.mem_append.mp hr with hr | hr
      · exact h.readers r hr
      · obtain rfl := List.mem_singleton.mp hr
        exact ⟨rfl, rfl⟩
  | next k =>
      obtain ⟨r, hr, rfl⟩ := Option.map_eq_some_iff.mp hs
      have hadvanced := (h.readers r (List.mem_of_getElem? hr)).next h.consistent
      refine ⟨hadvanced.consistent, fun r' hr' => ?_⟩
      rcases List.mem_or_eq_of_mem_set hr' with hr' | rfl
      · have hgrown : r'.Good codec (s.appended ++ []) (r.next codec s.log).2.disk :=
          (h.readers r' hr').grow hadvanced.disk fun e he => by cases he
        rw [List.append_nil] at hgrown
        exact hgrown
      · exact hadvanced.good

theorem good_of_reachable (h : (machine codec).Reachable s) : s.Good codec := by
  induction h with
  | init => exact System.Good.init
  | tail _ hs ih => exact ih.step hs

theorem Reader.Good.exact (h : r.Good codec events disk) : r.Exact events := by
  unfold Reader.Good at h
  cases hn : r.startedAt with
  | none =>
      rw [hn] at h
      exact ⟨by rw [h.1]; nofun, fun _ => h, by rw [hn]; nofun, by rw [hn]; nofun,
        by rw [hn]; nofun⟩
  | some n =>
      rw [hn] at h
      obtain ⟨hle, ⟨hphase, hyielded⟩ | ⟨loop, lo, i, hi, hphase, hloop⟩⟩ := h
      · refine ⟨by rw [hphase]; nofun, by rw [hn]; nofun, fun k hk => ?_, fun k hk => ?_,
          fun k hk _ => ?_⟩ <;> obtain rfl := Option.some.inj (hn.symm.trans hk)
        · exact hle
        · simp only [hyielded, List.prefix_rfl]
        · exact hyielded
      · refine ⟨by rw [hphase]; nofun, by rw [hn]; nofun, fun k hk => ?_, fun k hk => ?_,
          fun k hk hfinished => ?_⟩ <;> obtain rfl := Option.some.inj (hn.symm.trans hk)
        · exact hle
        · exact hloop.isPrefix
        · rw [hphase] at hfinished
          cases hfinished

/-! ## Asking a reader until it is finished -/

/-- Steps of one reader lead to a state where it is finished. -/
def Exhausts (codec : EventCodec Event) (k : Nat) (s : System Event) (r : Reader Event) : Prop :=
  ∃ n s' r', (machine codec).run s (List.replicate n (.next k)) = some s'
    ∧ s'.readers[k]? = some r' ∧ r'.phase = .finished ∧ s'.Good codec
    ∧ s'.appended = s.appended ∧ r'.call = r.call
    ∧ r'.startedAt = some (r.startedAt.getD s.log.count)

variable {k : Nat}

/-- One step of a reader, and what is left to do behind it. -/
theorem Exhausts.of_next (hk : s.readers[k]? = some r)
    (h : ∀ s', step codec s (.next k) = some s' → s'.readers[k]? = some (r.next codec s.log).1 →
      s'.appended = s.appended → (r.next codec s.log).1.phase = .finished ∧ s'.Good codec
        ∨ Exhausts codec k s' (r.next codec s.log).1) : Exhausts codec k s r := by
  have hstep : step codec s (.next k) = some { s with
      log := (r.next codec s.log).2
      readers := s.readers.set k (r.next codec s.log).1 } := by
    rw [step, hk]
    rfl
  have hreader : (s.readers.set k (r.next codec s.log).1)[k]? = some (r.next codec s.log).1 :=
    List.getElem?_set_self (List.getElem?_eq_some_iff.mp hk).1
  rcases h _ hstep hreader rfl with ⟨hfinished, hgood⟩ | ⟨n, t, r', hrun, hr', hfinished, hgood,
    happended, hcall, hstarted⟩
  · exact ⟨1, _, _, Machine.run_cons hstep, hreader, hfinished, hgood, rfl, rfl, rfl⟩
  · refine ⟨n + 1, t, r', ?_, hr', hfinished, hgood, happended, hcall, hstarted⟩
    rw [List.replicate_succ, Machine.run_cons hstep]
    exact hrun

theorem exhausts_of_suspended {loop : Loop} {left : Nat} (h : s.Good codec)
    (hk : s.readers[k]? = some r) (hphase : r.phase = .suspended loop) (hleft : (loop).left = left) :
    Exhausts codec k s r := by
  induction left generalizing s r loop with
  | zero =>
      have hadvanced := (h.readers r (List.mem_of_getElem? hk)).next h.consistent
      refine .of_next hk fun s' hs' _ _ => ?_
      rcases hadvanced.progress with hfinished | ⟨loop', -, hdown⟩
      · exact .inl ⟨hfinished, h.step hs'⟩
      · have := hdown loop hphase
        omega
  | succ left ih =>
      have hadvanced := (h.readers r (List.mem_of_getElem? hk)).next h.consistent
      refine .of_next hk fun s' hs' hk' _ => ?_
      rcases hadvanced.progress with hfinished | ⟨loop', hphase', hdown⟩
      · exact .inl ⟨hfinished, h.step hs'⟩
      · have := hdown loop hphase
        exact .inr (ih (h.step hs') hk' hphase' (by omega))

/-- The first step starts a reader, and each one that follows has an iteration less to do. -/
theorem exhausts (h : s.Good codec) (hk : s.readers[k]? = some r) : Exhausts codec k s r := by
  have hadvanced := (h.readers r (List.mem_of_getElem? hk)).next h.consistent
  refine .of_next hk fun s' hs' hk' _ => ?_
  rcases hadvanced.progress with hfinished | ⟨loop', hphase', -⟩
  · exact .inl ⟨hfinished, h.step hs'⟩
  · exact .inr (exhausts_of_suspended (h.step hs') hk' hphase' rfl)

/-- **Reads of the event log.** Whatever appends, generators and single events came before, every
cached offset is the byte offset of its index, and every generator yields its answer. -/
theorem exact_of_reachable {Event : Type} {codec : EventCodec Event} {s : System Event}
    (h : (machine codec).Reachable s) : Exact codec s := by
  have hgood := good_of_reachable h
  refine ⟨hgood.consistent.count, hgood.consistent.cached, hgood.consistent.bounded,
    fun r hr => (hgood.readers r hr).exact, fun k r hk => ?_⟩
  obtain ⟨n, s', r', hrun, hk', hfinished, hgood', happended, hcall, hstarted⟩ :=
    exhausts hgood hk
  refine ⟨n, s', r', hrun, hk', hfinished, ?_⟩
  have hexact := (hgood'.readers r' (List.mem_of_getElem? hk')).exact
  rw [hexact.finished _ hstarted hfinished, hcall, happended]

/-- Events of one byte, packed as they are. -/
def byteCodec : EventCodec UInt8 where
  serialize event := some [event]
  deserialize
    | [event] => some event
    | _ => none
  roundTrip := by
    intro event packed h
    rw [← Option.some.inj h]

/-- A reader of one event that ends behind another append. -/
def oneEvent : List (Action UInt8) :=
  [.append 7, .append 8, .append 9, .call (.readRange 1 2), .next 0, .append 10, .next 0]

/-- The reader caches where it ended. -/
theorem exact_of_reachable_oneEvent : ∃ s,
    (machine byteCodec).run (machine byteCodec).init oneEvent = some s
      ∧ s.log.offsetCache.get? 2 = some 10 ∧ Exact byteCodec s := by
  have hrun : (machine byteCodec).run (machine byteCodec).init oneEvent = some _ := rfl
  exact ⟨_, hrun, rfl, exact_of_reachable (.run .init hrun)⟩

/-- A range from `-1` has the first event in it, and `read_range` yields none. -/
theorem not_forall_yielded_eq_between : ¬ ∀ (codec : EventCodec UInt8) (s : System UInt8),
    (machine codec).Reachable s → ∀ r ∈ s.readers, ∀ start stop n,
      r.call = .readRange start stop → r.startedAt = some n → r.phase = .finished →
        r.yielded = between start stop (s.appended.take n) := by
  intro h
  have hrun : (machine byteCodec).run (machine byteCodec).init
      [.append 7, .call (.readRange (-1) 1), .next 0] = some _ := rfl
  have hyielded := h byteCodec _ (.run .init hrun) _ (List.mem_singleton_self _) (-1) 1 1
    rfl rfl rfl
  exact absurd hyielded (by decide)

end DiskEventLog

end Exo
