import Exo.Utils.Channels
import Mathlib.Data.List.ReduceOption

/-!
# What a channel loses on close

The flag is looked at before the queue, so from the moment it is set a new call of the receiver
raises, whatever the queue still holds, and a call that loops raises with the items it has
taken. Only a `receive` or `receive_nowait` that is past the check brings one more item home.

`timely` says of a state that setting the flag there loses nothing. What the receiver obtains is
a prefix of what was sent in every run; it is all of it, with nothing discarded, in every run
that closes in a timely state.
-/

namespace Exo.MpChannel

open Lib (Machine)

variable {T : Type} {c : MpChannel T}

/-- The items that were sent and not got, next one first. -/
def waiting (c : MpChannel T) : List T := c.buffer.reduceOption

/-- The items that a call in progress has taken. -/
def out (c : MpChannel T) : List T := (c.receiver.map (·.out)).getD []

/-- The receiver still brings home everything that was sent, if the flag is set now. -/
def timely (c : MpChannel T) : Bool :=
  match c.receiver with
  | none => c.waiting.isEmpty
  | some p => p.out.isEmpty && match p.stage, p.call with
    | .checking, _ => c.waiting.isEmpty
    | _, .receive => c.waiting.length ≤ 1
    | _, .receiveNowait => c.feeder.reduceOption.isEmpty && c.waiting.length ≤ 1
    | _, _ => c.waiting.isEmpty

/-- The sender closes in timely states only. -/
def closesTimely (c : MpChannel T) (a : ChannelAction T) : Prop :=
  (a matches .close) = true → c.timely = true

instance (c : MpChannel T) (a : ChannelAction T) : Decidable (c.closesTimely a) :=
  inferInstanceAs (Decidable (_ → _))

/-! ## Nothing is lost on the way -/

/-- Where the items of a channel are. -/
structure Sound (c : MpChannel T) : Prop where
  /-- Each item sent was obtained, was discarded, is held by a call or waits, in this order. -/
  account : c.sent = c.obtained ++ c.discarded ++ c.out ++ c.waiting
  /-- Nothing follows an end mark but end marks. -/
  ends : c.buffer.Pairwise fun x y => x = none → y = none
  /-- There is no end mark before the flag is set. -/
  marked : none ∈ c.buffer → c.closed = true
  /-- The sender knows of the flag. -/
  flag : c.closed = true ↔ c.sender = .closing ∨ c.sender = .closed
  /-- Once a call has raised, no call gets past the check. -/
  ending : c.ended.isSome = true →
    c.closed = true ∧ ∀ p ∈ c.receiver, p.stage = .checking ∧ p.out = []
  /-- Items are discarded by calls that raise. -/
  raised : c.discarded ≠ [] → c.ended.isSome = true

theorem sound_init (maxBufferSize : Option { n : Nat // 0 < n }) :
    Sound (machine T maxBufferSize).init := by
  constructor <;> simp [machine, out, waiting, buffer]

/-- Before the flag is set nothing was discarded and no call has raised. -/
theorem Sound.open (h : Sound c) (hc : c.closed = false) :
    c.ended = none ∧ c.discarded = [] ∧ none ∉ c.buffer := by
  have hended : c.ended = none := by
    by_contra hne
    have := (h.ending (Option.isSome_iff_ne_none.mpr hne)).1
    rw [hc] at this
    cases this
  refine ⟨hended, ?_, ?_⟩
  · by_contra hne
    have := h.raised hne
    rw [hended] at this
    cases this
  · intro hm
    have := h.marked hm
    rw [hc] at this
    cases this

variable {p : PendingCall T}

/-- A call past the check has seen nothing raise. -/
theorem Sound.past (h : Sound c) (hp : c.receiver = some p)
    (hs : p.stage ≠ .checking) : c.ended = none ∧ c.discarded = [] := by
  have hended : c.ended = none := by
    by_contra hne
    exact hs ((h.ending (Option.isSome_iff_ne_none.mpr hne)).2 p hp).1
  refine ⟨hended, ?_⟩
  by_contra hne
  have := h.raised hne
  rw [hended] at this
  cases this

variable {s : SenderState T}

theorem Sound.put (h : Sound c) (hc : c.closed = false) (item : T)
    (hs : ¬ (s = .closing ∨ s = .closed)) : Sound { c.put item with sender := s } := by
  obtain ⟨hended, hdisc, hnone⟩ := h.open hc
  have hbuffer : { c.put item with sender := s }.buffer = c.buffer ++ [some item] := by
    simp [MpChannel.put, buffer]
  refine ⟨?_, ?_, ?_, ?_, ?_, h.raised⟩
  · have := h.account
    simp only [waiting, hbuffer, List.reduceOption_append]
    simp [MpChannel.put, out, this, waiting]
  · -- an item may follow, since there is no end mark yet
    rw [hbuffer]
    refine List.pairwise_append.mpr ⟨h.ends, by simp, fun x hx y _ hxn => ?_⟩
    exact absurd (hxn ▸ hx) hnone
  · intro hm
    rw [hbuffer] at hm
    simp [hnone] at hm
  · simp [MpChannel.put, hc, hs]
  · intro hs
    simp [MpChannel.put, hended] at hs

theorem buffer_putEnd (c : MpChannel T) :
    c.putEnd.buffer = c.buffer ∨ c.putEnd.buffer = c.buffer ++ [none] := by
  unfold putEnd
  split
  · exact Or.inl rfl
  · exact Or.inr (by simp [buffer])

theorem waiting_putEnd (c : MpChannel T) : c.putEnd.waiting = c.waiting := by
  obtain h | h := c.buffer_putEnd <;> simp [waiting, h, List.reduceOption_append]

theorem putEnd_eq (c : MpChannel T) : ∃ feeder, c.putEnd = { c with feeder := feeder } := by
  unfold putEnd
  split
  · exact ⟨c.feeder, rfl⟩
  · exact ⟨_, rfl⟩

theorem Sound.putEnd (h : Sound c) (hc : c.closed = true) : Sound c.putEnd := by
  obtain ⟨feeder, heq⟩ := c.putEnd_eq
  have hout : c.putEnd.out = c.out := by rw [heq]; rfl
  refine ⟨?_, ?_, fun _ => by rw [heq]; exact hc, by rw [heq]; exact h.flag,
    by rw [heq]; exact h.ending, by rw [heq]; exact h.raised⟩
  · rw [waiting_putEnd, hout, heq]
    exact h.account
  · obtain hb | hb := c.buffer_putEnd
    · rw [hb]; exact h.ends
    · rw [hb]
      exact List.pairwise_append.mpr ⟨h.ends, by simp, fun _ _ y hy _ => by simpa using hy⟩

/-! ## The steps of the receiver -/

/-- A raise puts the items of the call after what was obtained. -/
theorem Sound.raise (h : Sound c) (hc : c.closed = true)
    (hp : c.receiver = some p) (e : ChannelError) : Sound (c.raise p e) := by
  refine ⟨?_, h.ends, h.marked, h.flag, ?_, ?_⟩
  · have := h.account
    simp only [out, hp, Option.map_some, Option.getD_some] at this
    simp [MpChannel.raise, out, this, waiting, buffer]
  · intro _
    exact ⟨hc, by simp [MpChannel.raise]⟩
  · intro _
    cases hended : c.ended <;> simp [MpChannel.raise, hended]

variable {pipe : List (Option T)}

/-- An end mark is got when nothing waits any more. -/
theorem waiting_of_mark (h : Sound c) (hpipe : c.pipe = none :: pipe) :
    c.waiting = [] := by
  have hends := h.ends
  rw [buffer, hpipe, List.cons_append] at hends
  have hall := (List.pairwise_cons.mp hends).1
  rw [waiting, buffer, hpipe, List.cons_append, List.reduceOption_cons_of_none]
  refine (List.reduceOption_eq_nil_iff _).mpr ⟨_, List.eq_replicate_iff.mpr ⟨rfl, fun y hy => ?_⟩⟩
  exact hall y hy rfl

variable {item : Option T}

theorem Sound.got (h : Sound c) (hp : c.receiver = some p)
    (hs : p.stage ≠ .checking)
    (hpipe : c.pipe = item :: pipe) : Sound ({ c with pipe := pipe }.got p item) := by
  obtain ⟨hended, hdisc⟩ := h.past hp hs
  have hbuffer : c.buffer = item :: (pipe ++ c.feeder) := by rw [buffer, hpipe]; rfl
  have hends := h.ends
  rw [hbuffer] at hends
  have hmarked : none ∈ pipe ++ c.feeder → c.closed = true := by
    intro hm
    exact h.marked (by rw [hbuffer]; exact List.mem_cons_of_mem item hm)
  have haccount := h.account
  simp only [out, hp, Option.map_some, Option.getD_some, hdisc, List.append_nil, waiting,
    hbuffer] at haccount
  cases item with
  | none =>
    have hc : c.closed = true := h.marked (by rw [hbuffer]; exact List.mem_cons_self)
    have hpop : Sound { c with pipe := pipe, closed := true } := by
      refine ⟨?_, (List.pairwise_cons.mp hends).2, fun _ => rfl, by simpa using h.flag.mp hc,
        fun hs => ⟨rfl, (h.ending hs).2⟩, h.raised⟩
      simpa [out, hp, hdisc, waiting, buffer] using haccount
    obtain ⟨feeder, heq⟩ := putEnd_eq { c with pipe := pipe, closed := true }
    exact (hpop.putEnd rfl).raise (by rw [heq]) (by rw [heq]; exact hp) _
  | some item =>
    rw [List.reduceOption_cons_of_some] at haccount
    -- nothing was discarded, so the item comes right after what the call holds
    cases hcall : p.call
    all_goals
      simp only [MpChannel.got, took, hcall]
      refine ⟨?_, (List.pairwise_cons.mp hends).2, hmarked, h.flag, ?_, h.raised⟩
      · simp [return_, out, haccount, waiting, buffer, hdisc]
      · intro hs'
        simp [return_, hended] at hs'

theorem Sound.wouldBlock (h : Sound c) (hp : c.receiver = some p)
    (hs : p.stage ≠ .checking) : Sound (c.wouldBlock p) := by
  obtain ⟨hended, hdisc⟩ := h.past hp hs
  have haccount := h.account
  simp only [out, hp, Option.map_some, Option.getD_some, hdisc, List.append_nil] at haccount
  unfold MpChannel.wouldBlock
  split
  · refine ⟨?_, h.ends, h.marked, h.flag, ?_, h.raised⟩
    · simp [out, haccount, hdisc, waiting, buffer]
    · intro hs'
      simp [hended] at hs'
  · split
    all_goals try split
    all_goals
      refine ⟨?_, h.ends, h.marked, h.flag, ?_, h.raised⟩
      · simp [return_, out, haccount, hdisc, waiting, buffer]
      · intro hs'
        simp [return_, hended] at hs'

variable {c' : MpChannel T}

theorem Sound.advance (h : Sound c) (hp : c.receiver = some p)
    (hstep : c.advance p = some c') : Sound c' := by
  cases hstage : p.stage with
  | checking =>
    simp only [MpChannel.advance, hstage] at hstep
    rw [← Option.some.inj hstep]
    split
    · rename_i hc
      exact h.raise hc hp _
    · rename_i hc
      obtain ⟨hended, -, -⟩ := h.open (by simpa using hc)
      refine ⟨?_, h.ends, h.marked, h.flag, ?_, h.raised⟩
      · simpa [out, hp, waiting, buffer] using h.account
      · intro hs
        simp [hended] at hs
  | getting =>
    have hpast : p.stage ≠ .checking := by simp [hstage]
    simp only [MpChannel.advance, hstage] at hstep
    split at hstep
    · exact Option.some.inj hstep ▸ h.wouldBlock hp hpast
    · rename_i hpipe
      exact Option.some.inj hstep ▸ h.got hp hpast hpipe
  | blocked =>
    have hpast : p.stage ≠ .checking := by simp [hstage]
    simp only [MpChannel.advance, hstage] at hstep
    split at hstep
    · cases hstep
    · rename_i hpipe
      exact Option.some.inj hstep ▸ h.got hp hpast hpipe

/-! ## Every step -/

theorem Sound.send (h : Sound c) (item : T) : Sound (c.send item) := by
  unfold MpChannel.send
  split
  · exact h
  · rename_i hc
    split
    · exact ⟨h.account, h.ends, h.marked, by simp [hc], h.ending, h.raised⟩
    · exact h.put (by simpa using hc) item (fun hs => hc (h.flag.mpr hs))

theorem Sound.sendNowait (h : Sound c) (item : T) : Sound (c.sendNowait item) := by
  unfold MpChannel.sendNowait
  split
  · exact h
  · rename_i hc
    split
    · exact h
    · exact h.put (by simpa using hc) item (fun hs => hc (h.flag.mpr hs))

variable {feeder : List (Option T)}

theorem Sound.flush (h : Sound c)
    (hf : c.feeder = item :: feeder) :
    Sound { c with feeder := feeder, pipe := c.pipe ++ [item] } := by
  have hbuffer : { c with feeder := feeder, pipe := c.pipe ++ [item] }.buffer = c.buffer := by
    simp [buffer, hf]
  refine ⟨?_, hbuffer ▸ h.ends, hbuffer ▸ h.marked, h.flag, h.ending, h.raised⟩
  rw [waiting, hbuffer]
  exact h.account

theorem Sound.start (h : Sound c) (hr : c.receiver = none) (call : ReceiverCall) :
    Sound (c.start call) := by
  have haccount : c.sent = c.obtained ++ c.discarded ++ c.waiting := by
    simpa [out, hr] using h.account
  cases call
  all_goals
    refine ⟨by simpa [MpChannel.start, out, waiting, buffer] using haccount, h.ends, h.marked,
      h.flag, fun hs => ⟨(h.ending hs).1, ?_⟩, h.raised⟩
    simp [MpChannel.start]

variable {a : ChannelAction T}

theorem sound_step (h : Sound c)
    (hstep : c.step a = some c') : Sound c' := by
  cases a with
  | sendNowait item =>
    simp only [step] at hstep
    split at hstep
    · exact Option.some.inj hstep ▸ h.sendNowait item
    · cases hstep
  | send item =>
    simp only [step] at hstep
    split at hstep
    · exact Option.some.inj hstep ▸ h.send item
    · cases hstep
  | unblock =>
    simp only [step] at hstep
    split at hstep
    · rename_i item hs
      split at hstep
      · cases hstep
      · -- a sender that waits to put has not closed
        have hc : c.closed = false := by
          by_contra hne
          have := h.flag.mp (by simpa using hne)
          simp [hs] at this
        exact Option.some.inj hstep ▸ h.put hc item (by simp)
    · cases hstep
  | close =>
    simp only [step] at hstep
    split at hstep
    · rw [← Option.some.inj hstep]
      exact ⟨h.account, h.ends, fun _ => rfl, by simp, fun hs => ⟨rfl, (h.ending hs).2⟩, h.raised⟩
    · cases hstep
  | markEnd =>
    simp only [step] at hstep
    split at hstep
    · rename_i hs
      have hclosing : c.sender = .closing := by
        cases hsender : c.sender <;> simp_all
      have hc : c.closed = true := h.flag.mpr (Or.inl hclosing)
      have hend := h.putEnd hc
      have hclosed : c.putEnd.closed = true := by
        obtain ⟨feeder, heq⟩ := c.putEnd_eq
        rw [heq]; exact hc
      rw [← Option.some.inj hstep]
      exact ⟨hend.account, hend.ends, hend.marked, by simp [hclosed], hend.ending, hend.raised⟩
    · cases hstep
  | flush =>
    simp only [step] at hstep
    split at hstep
    · cases hstep
    · rename_i hf
      exact Option.some.inj hstep ▸ h.flush hf
  | call call =>
    simp only [step] at hstep
    split at hstep
    · rename_i hr
      exact Option.some.inj hstep ▸ h.start (by simpa using hr) call
    · cases hstep
  | advance =>
    obtain ⟨p, hp, hadv⟩ := Option.bind_eq_some_iff.mp hstep
    exact h.advance hp hadv

theorem sound_reachable {maxBufferSize : Option { n : Nat // 0 < n }}
    (h : (machine T maxBufferSize).Reachable c) : Sound c :=
  h.invariant (sound_init maxBufferSize) fun _ _ _ hs hstep => sound_step hs hstep

/-- What the receiver obtained is a prefix of what was sent. -/
theorem Sound.obtained_sent (h : Sound c) : c.obtained <+: c.sent := by
  rw [h.account, List.append_assoc, List.append_assoc]
  exact List.prefix_append _ _

/-! ## Closing in time -/

theorem timely_congr {c c' : MpChannel T} (hr : c'.receiver = c.receiver)
    (hw : c'.waiting = c.waiting) (hf : c.feeder.reduceOption = [] → c'.feeder.reduceOption = [])
    (h : c.timely = true) : c'.timely = true := by
  unfold timely at h ⊢
  rw [hr, hw]
  split at h
  · exact h
  · rw [Bool.and_eq_true] at h ⊢
    refine ⟨h.1, ?_⟩
    have hcall := h.2
    split at hcall
    · exact hcall
    · exact hcall
    · simp only [Bool.and_eq_true, List.isEmpty_iff] at hcall ⊢
      exact ⟨hf hcall.1, hcall.2⟩
    · exact hcall

/-- A call that holds nothing, in a timely state. -/
theorem timely_out (hp : c.receiver = some p) (h : c.timely = true) :
    p.out = [] := by
  simp only [timely, hp, Bool.and_eq_true, List.isEmpty_iff] at h
  exact h.1

theorem timely_waiting (hr : ∀ p ∈ c.receiver, p.stage = .checking) (h : c.timely = true) :
    c.waiting = [] := by
  cases hp : c.receiver with
  | none => simpa [timely, hp] using h
  | some p =>
    simp only [timely, hp, Bool.and_eq_true, hr p hp, List.isEmpty_iff] at h
    exact h.2

/-- What holds of a run that closes in time. -/
structure Kept (c : MpChannel T) : Prop where
  /-- After the flag is set the receiver still brings everything home. -/
  inTime : c.closed = true → c.ended = none → c.timely = true
  kept : c.discarded = []
  all : c.ended.isSome = true → c.obtained = c.sent
  /-- A call of `receive` is in a waiting call all along. -/
  waits : ∀ p ∈ c.receiver, p.call = .receive → p.waits = true
  /-- A call past the check finds something in the queue, if only the end mark. -/
  awake : c.sender = .closed → c.ended = none →
    ∀ p ∈ c.receiver, p.stage ≠ .checking → c.buffer ≠ []

theorem kept_init (maxBufferSize : Option { n : Nat // 0 < n }) :
    Kept (machine T maxBufferSize).init := by
  constructor <;> simp [machine]

/-- With nothing waiting and nothing in hand, everything was obtained. -/
theorem Kept.obtained (hs : Sound c) (h : Kept c) (hout : c.out = []) (hw : c.waiting = []) :
    c.obtained = c.sent := by
  have := hs.account
  rw [h.kept, hout, hw] at this
  simpa using this.symm

theorem Kept.got (hs : Sound c) (h : Kept c) (hp : c.receiver = some p)
    (hpast : p.stage ≠ .checking)
    (hpipe : c.pipe = item :: pipe) : Kept ({ c with pipe := pipe }.got p item) := by
  obtain ⟨hended, -⟩ := hs.past hp hpast
  cases item with
  | none =>
    -- the end mark comes after everything, and the call holds nothing
    have hc : c.closed = true := hs.marked (by simp [buffer, hpipe])
    have hout : p.out = [] := timely_out hp (h.inTime hc hended)
    have hall := h.obtained hs (by simp [out, hp, hout]) (waiting_of_mark hs hpipe)
    obtain ⟨feeder, heq⟩ := putEnd_eq { c with pipe := pipe, closed := true }
    simp only [MpChannel.got, heq]
    exact ⟨by simp [MpChannel.raise, hended], by simp [MpChannel.raise, h.kept, hout],
      fun _ => hall, by simp [MpChannel.raise], by simp [MpChannel.raise]⟩
  | some item =>
    have hwait : c.waiting = item :: (pipe ++ c.feeder).reduceOption := by
      simp [waiting, buffer, hpipe]
    have htimely : c.closed = true → (p.call = .receive ∨ p.call = .receiveNowait) ∧
        (pipe ++ c.feeder).reduceOption = [] := by
      intro hc
      have ht := h.inTime hc hended
      simp only [timely, hp, Bool.and_eq_true, hwait] at ht
      have hcall := ht.2
      cases hstage : p.stage <;> cases hk : p.call <;> simp_all
    have hreturn : Kept ({ c with pipe := pipe }.return_ (p.out ++ [item])) := by
      refine ⟨fun hc _ => ?_, h.kept, by simp [return_, hended], by simp [return_],
        by simp [return_]⟩
      simpa [timely, return_, waiting, buffer] using (htimely hc).2
    have hloop : p.call ≠ .receive → p.call ≠ .receiveNowait →
        Kept { c with
          pipe := pipe
          receiver := some { p with waits := false, stage := .checking, out := p.out ++ [item] } } := by
      intro h1 h2
      refine ⟨fun hc _ => ?_, h.kept, by simp [hended], by simp [h1], by simp⟩
      obtain hk | hk := (htimely hc).1
      · exact absurd hk h1
      · exact absurd hk h2
    simp only [MpChannel.got, took]
    split
    · exact hreturn
    · exact hreturn
    · rename_i hk
      exact hloop (by simp [hk]) (by simp [hk])
    · rename_i hk
      exact hloop (by simp [hk]) (by simp [hk])

theorem Kept.wouldBlock (hs : Sound c) (h : Kept c)
    (hp : c.receiver = some p) (hstage : p.stage = .getting) (hpipe : c.pipe = []) :
    Kept (c.wouldBlock p) := by
  obtain ⟨hended, -⟩ := hs.past hp (by simp [hstage])
  have hawake := fun hsender => h.awake hsender hended p hp (by simp [hstage])
  unfold MpChannel.wouldBlock
  split
  · refine ⟨fun hc _ => ?_, h.kept, by simp [hended], ?_, fun hsender _ _ _ _ => hawake hsender⟩
    · -- being blocked is as timely as being about to get
      have hsame : { c with receiver := some { p with stage := .blocked } }.timely = c.timely := by
        simp only [timely, hp, hstage]
        cases p.call <;> rfl
      exact hsame ▸ h.inTime hc hended
    · simpa using h.waits p hp
  · rename_i hwaits
    have hreceive : p.call ≠ .receive := fun hk => hwaits (h.waits p hp hk)
    have hwaiting : c.closed = true → c.waiting = [] ∧ p.out = [] := by
      intro hc
      have ht := h.inTime hc hended
      refine ⟨?_, timely_out hp ht⟩
      simp only [timely, hp, hstage, Bool.and_eq_true] at ht
      have hcall := ht.2
      cases hk : p.call <;> simp_all [waiting, buffer]
    have hreturn : Kept (c.return_ p.out) := by
      refine ⟨fun hc _ => ?_, h.kept, by simp [return_, hended], by simp [return_],
        by simp [return_]⟩
      simpa [timely, return_, waiting, buffer] using (hwaiting hc).1
    split
    · exact hreturn
    · exact hreturn
    · exact hreturn
    · rename_i n hk
      split
      · refine ⟨fun hc _ => ?_, h.kept, by simp [hended], by simp, by simp⟩
        obtain ⟨hw, hout⟩ := hwaiting hc
        simpa [timely, waiting, buffer, hout] using hw
      · exact hreturn

theorem Kept.advance (hs : Sound c) (h : Kept c) (hp : c.receiver = some p)
    (hstep : c.advance p = some c') : Kept c' := by
  cases hstage : p.stage with
  | checking =>
    simp only [MpChannel.advance, hstage] at hstep
    rw [← Option.some.inj hstep]
    split
    · rename_i hc
      cases hended : c.ended with
      | some e =>
        -- the error was seen before, and the call is a later one
        have hout := ((hs.ending (by simp [hended])).2 p hp).2
        exact ⟨by simp [MpChannel.raise, hended], by simp [MpChannel.raise, h.kept, hout],
          fun _ => h.all (by simp [hended]), by simp [MpChannel.raise], by simp [MpChannel.raise]⟩
      | none =>
        have ht := h.inTime hc hended
        have hout := timely_out hp ht
        have hw := timely_waiting (by simp [hp, hstage]) ht
        have hall := h.obtained hs (by simp [out, hp, hout]) hw
        exact ⟨by simp [MpChannel.raise, hended], by simp [MpChannel.raise, h.kept, hout],
          fun _ => hall, by simp [MpChannel.raise], by simp [MpChannel.raise]⟩
    · rename_i hc
      have hsender : c.sender ≠ .closed := fun hsd => hc (hs.flag.mpr (Or.inr hsd))
      refine ⟨fun hc' => absurd hc' hc, h.kept, h.all, ?_, fun hsd => absurd hsd hsender⟩
      simpa using h.waits p hp
  | getting =>
    have hpast : p.stage ≠ .checking := by simp [hstage]
    simp only [MpChannel.advance, hstage] at hstep
    split at hstep
    · rename_i hpipe
      exact Option.some.inj hstep ▸ h.wouldBlock hs hp hstage hpipe
    · rename_i hpipe
      exact Option.some.inj hstep ▸ h.got hs hp hpast hpipe
  | blocked =>
    have hpast : p.stage ≠ .checking := by simp [hstage]
    simp only [MpChannel.advance, hstage] at hstep
    split at hstep
    · cases hstep
    · rename_i hpipe
      exact Option.some.inj hstep ▸ h.got hs hp hpast hpipe

/-- Before the flag is set a step of the sender changes nothing that matters. -/
theorem Kept.unclosed (h : Kept c) (hc : c'.closed = false)
    (hended : c'.ended = none) (hd : c'.discarded = c.discarded) (hr : c'.receiver = c.receiver)
    (hs : c'.sender ≠ .closed) : Kept c' :=
  ⟨fun hc' => absurd hc' (by simp [hc]), hd ▸ h.kept, by simp [hended], hr ▸ h.waits,
    fun hsd => absurd hsd hs⟩

theorem Kept.put (hs : Sound c) (h : Kept c) (hc : c.closed = false) (item : T)
    (hsd : s ≠ .closed) : Kept { c.put item with sender := s } :=
  h.unclosed hc (hs.open hc).1 rfl rfl hsd

theorem Kept.send (hs : Sound c) (h : Kept c) (item : T) : Kept (c.send item) := by
  unfold MpChannel.send
  split
  · exact h
  · rename_i hc
    have hc : c.closed = false := by simpa using hc
    split
    · exact h.unclosed hc (hs.open hc).1 rfl rfl (by simp)
    · exact h.put hs hc item (fun hsd => by simp [hs.flag.mpr (Or.inr hsd)] at hc)

theorem Kept.sendNowait (hs : Sound c) (h : Kept c) (item : T) : Kept (c.sendNowait item) := by
  unfold MpChannel.sendNowait
  split
  · exact h
  · rename_i hc
    have hc : c.closed = false := by simpa using hc
    split
    · exact h
    · exact h.put hs hc item (fun hsd => by simp [hs.flag.mpr (Or.inr hsd)] at hc)

theorem putEnd_ne_nil (c : MpChannel T) : c.putEnd.buffer ≠ [] := by
  unfold putEnd
  split
  · rename_i hfull
    -- a full queue holds something
    intro hnil
    rw [full, hnil] at hfull
    cases hm : c.maxBufferSize with
    | none => simp [hm] at hfull
    | some n =>
      have hpos := n.2
      have hle : n.1 ≤ 0 := by simpa [hm] using hfull
      omega
  · simp [buffer]

theorem Kept.markEnd (h : Kept c) : Kept { c.putEnd with sender := .closed } := by
  have hne := c.putEnd_ne_nil
  have hwaiting := c.waiting_putEnd
  obtain ⟨feeder, heq⟩ := c.putEnd_eq
  have hfeeder : c.feeder.reduceOption = [] → c.putEnd.feeder.reduceOption = [] := by
    unfold putEnd
    split
    · exact id
    · intro hf
      simp [List.reduceOption_append, hf]
  rw [heq] at hne hwaiting hfeeder ⊢
  refine ⟨fun hc hended => ?_, h.kept, h.all, h.waits, fun _ _ _ _ _ => hne⟩
  exact timely_congr (c := c) rfl hwaiting hfeeder (h.inTime hc hended)

theorem Kept.flush (h : Kept c)
    (hf : c.feeder = item :: feeder) :
    Kept { c with feeder := feeder, pipe := c.pipe ++ [item] } := by
  have hbuffer : { c with feeder := feeder, pipe := c.pipe ++ [item] }.buffer = c.buffer := by
    simp [buffer, hf]
  refine ⟨fun hc hended => ?_, h.kept, h.all, h.waits, fun hsd hended p hp hstage => ?_⟩
  · refine timely_congr (c := c) rfl (congrArg List.reduceOption hbuffer) ?_ (h.inTime hc hended)
    intro hnil
    rw [hf] at hnil
    cases item <;> simp_all
  · rw [hbuffer]
    exact h.awake hsd hended p hp hstage

theorem Kept.start (h : Kept c) (hr : c.receiver = none) (call : ReceiverCall) :
    Kept (c.start call) := by
  have hwaiting : c.closed = true → c.ended = none → c.waiting = [] := fun hc hended =>
    timely_waiting (by simp [hr]) (h.inTime hc hended)
  cases call
  all_goals
    refine ⟨fun hc hended => ?_, h.kept, h.all, by simp [MpChannel.start],
      by simp [MpChannel.start]⟩
    simpa [timely, MpChannel.start, waiting, buffer] using hwaiting hc hended

theorem kept_step (hs : Sound c) (h : Kept c)
    (hok : c.closesTimely a) (hstep : c.step a = some c') : Kept c' := by
  cases a with
  | sendNowait item =>
    simp only [step] at hstep
    split at hstep
    · exact Option.some.inj hstep ▸ h.sendNowait hs item
    · cases hstep
  | send item =>
    simp only [step] at hstep
    split at hstep
    · exact Option.some.inj hstep ▸ h.send hs item
    · cases hstep
  | unblock =>
    simp only [step] at hstep
    split at hstep
    · rename_i item hsender
      split at hstep
      · cases hstep
      · have hc : c.closed = false := by
          by_contra hne
          have := hs.flag.mp (by simpa using hne)
          simp [hsender] at this
        exact Option.some.inj hstep ▸ h.put hs hc item (by simp)
    · cases hstep
  | close =>
    simp only [step] at hstep
    split at hstep
    · rw [← Option.some.inj hstep]
      refine ⟨fun _ _ => ?_, h.kept, h.all, h.waits, by simp⟩
      exact timely_congr rfl rfl id (hok rfl)
    · cases hstep
  | markEnd =>
    simp only [step] at hstep
    split at hstep
    · exact Option.some.inj hstep ▸ h.markEnd
    · cases hstep
  | flush =>
    simp only [step] at hstep
    split at hstep
    · cases hstep
    · rename_i hf
      exact Option.some.inj hstep ▸ h.flush hf
  | call call =>
    simp only [step] at hstep
    split at hstep
    · rename_i hr
      exact Option.some.inj hstep ▸ h.start (by simpa using hr) call
    · cases hstep
  | advance =>
    obtain ⟨p, hp, hadv⟩ := Option.bind_eq_some_iff.mp hstep
    exact h.advance hs hp hadv

theorem kept_reachable {maxBufferSize : Option { n : Nat // 0 < n }}
    (h : (machine T maxBufferSize).ReachableWhen closesTimely c) : Sound c ∧ Kept c :=
  h.invariant (P := fun c => Sound c ∧ Kept c) ⟨sound_init maxBufferSize, kept_init maxBufferSize⟩
    fun _ _ _ hi hok hstep => ⟨sound_step hi.1 hstep, kept_step hi.1 hi.2 hok hstep⟩

/-! ## A receiver that keeps reading -/

/-- What a receiver that keeps reading does, and what the feeders do meanwhile. -/
def Reads (a : ChannelAction T) : Prop := a = .flush ∨ a = .call .receive ∨ a = .advance

/-- How far a receiver is from the error, once the flag is set. -/
def distance (c : MpChannel T) : Nat :=
  match c.receiver with
  | none => 2
  | some p =>
    match p.stage with
    | .checking => 1
    | .blocked => 3 + c.feeder.length
    | .getting => 4 + c.feeder.length

/-- After a `get` the receiver is at most one call away from the check. -/
theorem distance_got (c : MpChannel T) (p : PendingCall T) (item : Option T) :
    (c.got p item).distance ≤ 2 := by
  cases item with
  | none => simp [MpChannel.got, MpChannel.raise, distance]
  | some item =>
    simp only [MpChannel.got, took]
    split <;> simp [return_, distance]

theorem distance_wouldBlock (c : MpChannel T) (p : PendingCall T) :
    (c.wouldBlock p).distance ≤ 3 + c.feeder.length := by
  unfold MpChannel.wouldBlock
  split
  · simp [distance]
  · split
    all_goals try split
    all_goals simp [return_, distance]; omega

theorem sender_advance (h : c.advance p = some c') :
    c'.sender = c.sender := by
  have hgot : ∀ (pipe : List (Option T)) (item : Option T),
      ({ c with pipe := pipe }.got p item).sender = c.sender := by
    intro pipe item
    cases item with
    | none =>
      obtain ⟨feeder, heq⟩ := putEnd_eq { c with pipe := pipe, closed := true }
      simp only [MpChannel.got, heq, MpChannel.raise]
    | some item =>
      simp only [MpChannel.got, took]
      split <;> rfl
  unfold MpChannel.advance at h
  split at h
  · rw [← Option.some.inj h]
    split <;> rfl
  · split at h
    · rw [← Option.some.inj h, MpChannel.wouldBlock]
      split
      · rfl
      · split
        all_goals try split
        all_goals rfl
    · rw [← Option.some.inj h]
      exact hgot _ _
  · split at h
    · cases h
    · rw [← Option.some.inj h]
      exact hgot _ _

/-- A receiver that keeps reading comes closer to the error, step by step. -/
theorem reads_closer (hs : Sound c) (h : Kept c) (hsender : c.sender = .closed)
    (hended : c.ended = none) : ∃ a c', Reads a ∧ c.step a = some c' ∧
      (c'.ended.isSome = true ∨ c'.distance < c.distance) ∧ c'.sender = .closed := by
  have hclosed : c.closed = true := hs.flag.mpr (Or.inr hsender)
  cases hp : c.receiver with
  | none =>
    refine ⟨.call .receive, c.start .receive, Or.inr (Or.inl rfl), by simp [step, hp], ?_, hsender⟩
    exact Or.inr (by simp [MpChannel.start, distance, hp])
  | some p =>
    have hadvance : ∀ c', c.advance p = some c' → c'.distance < c.distance →
        ∃ a c', Reads a ∧ c.step a = some c' ∧
          (c'.ended.isSome = true ∨ c'.distance < c.distance) ∧ c'.sender = .closed := by
      intro c' hadv hlt
      exact ⟨.advance, c', Or.inr (Or.inr rfl), by simp [step, hp, hadv], Or.inr hlt,
        (sender_advance hadv).trans hsender⟩
    cases hstage : p.stage with
    | checking =>
      refine ⟨.advance, c.raise p .closedResource, Or.inr (Or.inr rfl),
        by simp [step, hp, MpChannel.advance, hstage, hclosed], Or.inl ?_, hsender⟩
      simp [MpChannel.raise, hended]
    | getting =>
      have hdist : c.distance = 4 + c.feeder.length := by simp [distance, hp, hstage]
      cases hpipe : c.pipe with
      | nil =>
        refine hadvance _ (by simp [MpChannel.advance, hstage, hpipe]; rfl) ?_
        have := c.distance_wouldBlock p
        omega
      | cons item pipe =>
        refine hadvance _ (by simp [MpChannel.advance, hstage, hpipe]; rfl) ?_
        have := distance_got { c with pipe := pipe } p item
        omega
    | blocked =>
      have hdist : c.distance = 3 + c.feeder.length := by simp [distance, hp, hstage]
      cases hpipe : c.pipe with
      | nil =>
        -- the queue is not empty, so its feeder has something to write
        have hne := h.awake hsender hended p hp (by simp [hstage])
        cases hfeeder : c.feeder with
        | nil => exact absurd (by simp [buffer, hpipe, hfeeder]) hne
        | cons item feeder =>
          refine ⟨.flush, { c with feeder := feeder, pipe := c.pipe ++ [item] }, Or.inl rfl,
            by simp [step, hfeeder], Or.inr ?_, hsender⟩
          simp [distance, hp, hstage, hfeeder]
      | cons item pipe =>
        refine hadvance _ (by simp [MpChannel.advance, hstage, hpipe]; rfl) ?_
        have := distance_got { c with pipe := pipe } p item
        omega

/--
**A channel keeps the order, and keeps every item when it is closed in time.**

After a timely close a receiver that keeps reading comes to the error, with everything obtained.
-/
theorem channel_lossless (T : Type) (maxBufferSize : Option { n : Nat // 0 < n }) :
    (∀ c, (machine T maxBufferSize).Reachable c → c.obtained <+: c.sent) ∧
    (∀ c, (machine T maxBufferSize).ReachableWhen closesTimely c →
      c.discarded = [] ∧ (c.ended.isSome = true → c.obtained = c.sent) ∧
      (c.sender = .closed → ∃ as c', (∀ a ∈ as, Reads a) ∧
        (machine T maxBufferSize).run c as = some c' ∧
        c'.ended.isSome = true ∧ c'.obtained = c'.sent)) := by
  refine ⟨fun c hr => (sound_reachable hr).obtained_sent, fun c hr => ?_⟩
  obtain ⟨hs, hk⟩ := kept_reachable hr
  refine ⟨hk.kept, hk.all, fun hsender => ?_⟩
  have hstep : ∀ n c, (Sound c ∧ Kept c ∧ c.sender = .closed ∧
        (c.ended.isSome = true ∨ c.distance < n)) →
      (c.ended.isSome = true ∧ c.obtained = c.sent) ∨
        ∃ a c' n', Reads a ∧ (machine T maxBufferSize).step c a = some c' ∧ n' < n ∧
          (Sound c' ∧ Kept c' ∧ c'.sender = .closed ∧
            (c'.ended.isSome = true ∨ c'.distance < n')) := by
    intro n c ⟨hs, hk, hsender, hrank⟩
    cases hended : c.ended with
    | some e => exact Or.inl ⟨by simp, hk.all (by simp [hended])⟩
    | none =>
      obtain ⟨a, c', ha, hstep, hcloser, hsender'⟩ := reads_closer hs hk hsender hended
      have hok : c.closesTimely a := by
        intro hclose
        obtain rfl | rfl | rfl := ha <;> cases hclose
      have hlt : c.distance < n := by simpa [hended] using hrank
      exact Or.inr ⟨a, c', c.distance, ha, hstep, hlt, sound_step hs hstep,
        kept_step hs hk hok hstep, hsender', hcloser⟩
  exact Machine.completes_by hstep (n := c.distance + 1) ⟨hs, hk, hsender, Or.inr (by omega)⟩

/-- A receiver that waits when the sender closes obtains the item sent before. -/
theorem channel_lossless_waiting : ∃ c, (machine Nat none).runWhen closesTimely
      (machine Nat none).init
      [.call .receive, .advance, .advance, .send 1, .close, .markEnd, .flush, .advance,
        .call .receive, .advance] = some c ∧
    c.obtained <+: c.sent ∧ c.discarded = [] ∧ c.obtained = c.sent := by
  have hrun : ((machine Nat none).runWhen closesTimely (machine Nat none).init
      [.call .receive, .advance, .advance, .send 1, .close, .markEnd, .flush, .advance,
        .call .receive, .advance]).isSome := by decide
  obtain ⟨c, hc⟩ := Option.isSome_iff_exists.mp hrun
  have hended : c.ended.isSome = true := by
    rw [← Option.some.inj hc]
    decide
  have hr := Machine.reachableWhen_of_run hc
  have ⟨hdiscarded, hall, _⟩ := (channel_lossless Nat none).2 c hr
  exact ⟨c, hc, (channel_lossless Nat none).1 c hr.reachable, hdiscarded, hall hended⟩

/-- An item sent right before the close is lost to a receiver that was not waiting for it. -/
theorem not_channel_lossless : ¬ ∀ c, (machine Nat none).Reachable c →
    c.discarded = [] ∧ (c.ended.isSome = true → c.obtained = c.sent) := by
  intro h
  have hrun : ((machine Nat none).run (machine Nat none).init
      [.send 1, .flush, .close, .markEnd, .call .receive, .advance]).isSome := by decide
  obtain ⟨c, hc⟩ := Option.isSome_iff_exists.mp hrun
  have hlost : c.ended.isSome = true ∧ c.obtained = [] ∧ c.sent = [1] := by
    rw [← Option.some.inj hc]
    decide
  have hall := (h c (Machine.reachable_of_run hc)).2 hlost.1
  rw [hlost.2.1, hlost.2.2] at hall
  cases hall

end Exo.MpChannel
