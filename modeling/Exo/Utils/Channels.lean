import Exo.Lib.Machine

/-!
# Channels between processes

An `MpSender` and an `MpReceiver` share a queue and a flag. The queue is first in, first out:
what was put waits in the feeder of the process that put it, then in the pipe, and only what is
in the pipe can be got. The end of the stream is an item of its own, `none` here.

The sender's operations run one after the other. Between the check of the flag and the access
to the queue a receiver can be overtaken, so those are two steps of it.

`sent`, `obtained`, `discarded` and `ended` are histories.
-/

namespace Exo

open Lib (Machine)

inductive ChannelError where
  | endOfStream
  | closedResource
  deriving DecidableEq

/-- What an `MpReceiver` is asked for. One step of an iteration is a `receive`. -/
inductive ReceiverCall where
  | receive
  | receiveNowait
  | collect
  | receiveAtLeast (n : Nat)
  deriving DecidableEq

/-- Where a call of `receive_nowait`, or of the rest of `receive`, stands. -/
inductive ReceiverStage where
  /-- About to look at the flag. -/
  | checking
  /-- About to `get(block=False)`. -/
  | getting
  /-- In `get()`. -/
  | blocked
  deriving DecidableEq

/-- A call that has not returned. -/
structure PendingCall (T : Type) where
  call : ReceiverCall
  /-- The innermost call is `receive`, which waits, and not `receive_nowait`. -/
  waits : Bool
  stage : ReceiverStage := .checking
  /-- The items taken so far. -/
  out : List T := []
  deriving DecidableEq

inductive SenderState (T : Type) where
  | idle
  /-- In the blocking `put` of `send`. -/
  | putting (item : T)
  /-- In `close`, after the flag was set. -/
  | closing
  | closed
  deriving DecidableEq

/-- `MpState`, with both ends of the channel. -/
structure MpChannel (T : Type) where
  /-- `None` for an unbounded queue; `mp_channel` refuses a size of zero. -/
  maxBufferSize : Option { n : Nat // 0 < n }
  feeder : List (Option T) := []
  pipe : List (Option T) := []
  closed : Bool := false
  sender : SenderState T := .idle
  receiver : Option (PendingCall T) := none
  /-- The items put, in order. -/
  sent : List T := []
  /-- The items that calls of the receiver returned, in order. -/
  obtained : List T := []
  /-- The items that a call had taken when it raised. -/
  discarded : List T := []
  /-- The error the receiver saw first. -/
  ended : Option ChannelError := none

namespace MpChannel

variable {T : Type}

/-- The queue, next item first. -/
def buffer (c : MpChannel T) : List (Option T) := c.pipe ++ c.feeder

/-- A `put` would have to wait. -/
def full (c : MpChannel T) : Bool :=
  c.maxBufferSize.any fun n => n ≤ c.buffer.length

/-- A `put` of an item that goes through. -/
def put (c : MpChannel T) (item : T) : MpChannel T :=
  { c with feeder := c.feeder ++ [some item], sent := c.sent ++ [item] }

/-- `put_nowait(_MpEndOfStream())`, with `Full` suppressed. -/
def putEnd (c : MpChannel T) : MpChannel T :=
  if c.full then c else { c with feeder := c.feeder ++ [none] }

/-! ## The sender -/

/-- `send_nowait`; where it raises, nothing is put. -/
def sendNowait (c : MpChannel T) (item : T) : MpChannel T :=
  if c.closed then c else if c.full then c else c.put item

/-- `send`, up to a `put` that has to wait. -/
def send (c : MpChannel T) (item : T) : MpChannel T :=
  if c.closed then c else if c.full then { c with sender := .putting item } else c.put item

/-! ## The receiver -/

/-- A call starts. -/
def start (c : MpChannel T) : ReceiverCall → MpChannel T
  | .receive => { c with receiver := some { call := .receive, waits := true } }
  | .receiveNowait => { c with receiver := some { call := .receiveNowait, waits := false } }
  | .collect => { c with receiver := some { call := .collect, waits := false } }
  | .receiveAtLeast n => { c with receiver := some { call := .receiveAtLeast n, waits := true } }

/-- The call returns `items`. -/
def return_ (c : MpChannel T) (items : List T) : MpChannel T :=
  { c with receiver := none, obtained := c.obtained ++ items }

/-- The call raises; no call of the receiver catches these errors. -/
def raise (c : MpChannel T) (p : PendingCall T) (e : ChannelError) : MpChannel T :=
  { c with
    receiver := none
    discarded := c.discarded ++ p.out
    ended := (c.ended).or (some e) }

/-- The innermost call returns an item. -/
def took (c : MpChannel T) (p : PendingCall T) (item : T) : MpChannel T :=
  match p.call with
  | .receive | .receiveNowait => c.return_ (p.out ++ [item])
  | .collect | .receiveAtLeast _ =>
    { c with
      receiver := some { p with waits := false, stage := .checking, out := p.out ++ [item] } }

/-- The innermost `receive_nowait` raises `WouldBlock`. -/
def wouldBlock (c : MpChannel T) (p : PendingCall T) : MpChannel T :=
  if p.waits then { c with receiver := some { p with stage := .blocked } }
  else match p.call with
    | .receive | .receiveNowait | .collect => c.return_ p.out
    | .receiveAtLeast n =>
      if p.out.length < n then
        { c with receiver := some { p with waits := true, stage := .checking } }
      else c.return_ p.out

/-- What a `get` returned. The end of the stream closes the receiver. -/
def got (c : MpChannel T) (p : PendingCall T) : Option T → MpChannel T
  | some item => c.took p item
  | none => ({ c with closed := true }.putEnd).raise p .endOfStream

/-- The next step of a call. -/
def advance (c : MpChannel T) (p : PendingCall T) : Option (MpChannel T) :=
  match p.stage with
  | .checking =>
    some (if c.closed then c.raise p .closedResource
      else { c with receiver := some { p with stage := .getting } })
  | .getting =>
    match c.pipe with
    | [] => some (c.wouldBlock p)
    | item :: pipe => some ({ c with pipe := pipe }.got p item)
  | .blocked =>
    match c.pipe with
    | [] => none
    | item :: pipe => some ({ c with pipe := pipe }.got p item)

end MpChannel

inductive ChannelAction (T : Type) where
  | sendNowait (item : T)
  | send (item : T)
  /-- The blocking `put` of `send` goes through. -/
  | unblock
  /-- `close` sets the flag. -/
  | close
  /-- `close` puts the end of the stream. -/
  | markEnd
  /-- A feeder writes to the pipe. -/
  | flush
  | call (call : ReceiverCall)
  | advance
  deriving DecidableEq

namespace MpChannel

variable {T : Type}

def step (c : MpChannel T) : ChannelAction T → Option (MpChannel T)
  | .sendNowait item => if c.sender matches .idle then some (c.sendNowait item) else none
  | .send item => if c.sender matches .idle then some (c.send item) else none
  | .unblock =>
    match c.sender with
    | .putting item => if c.full then none else some { c.put item with sender := .idle }
    | _ => none
  | .close =>
    if c.sender matches .idle then some { c with closed := true, sender := .closing } else none
  | .markEnd =>
    if c.sender matches .closing then some { c.putEnd with sender := .closed } else none
  | .flush =>
    match c.feeder with
    | [] => none
    | item :: feeder => some { c with feeder := feeder, pipe := c.pipe ++ [item] }
  | .call call => if c.receiver.isNone then some (c.start call) else none
  | .advance => c.receiver.bind fun p => c.advance p

/-- `mp_channel(max_buffer_size)` and the use of its two ends. -/
def machine (T : Type) (maxBufferSize : Option { n : Nat // 0 < n }) :
    Machine (MpChannel T) (ChannelAction T) where
  init := { maxBufferSize := maxBufferSize }
  step := step

end MpChannel

end Exo
