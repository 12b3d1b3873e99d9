import DropZone.Lib.System
import DropZone.Udp.Channel

/-!
# The calls of a channel

One end of a path: a channel and the call that its application is in. The application makes one call
at a time; every call runs `pump`, which is made of the steps of `PumpStage`.

* `UdpEvent`: the beginning of a call, one step of `pump`, or a round of the call's own loop. The
  clock, the kernel and the datagrams that arrive are part of the events.
* `UdpEnd.next`: one event, if it can happen.

A datagram comes with its source address, as `recvmmsg` reports it. A call that throws ends; the
application may make another one. Nothing is known of what follows a write past an array of the batch
(`Halt.overrun`), so that there is no step for it.
-/

namespace DropZone

open LittleEndian

/-- Where `pump` is. -/
inductive PumpStage where
  | retransmit
  | fill
  | flush
  | receive
  | deliver
  | ack
  deriving DecidableEq

inductive UdpCall where
  | idle
  | writing
  /-- `read_exactly`, with what it has copied. -/
  | reading (len : Nat) (copied : Bytes)
  /-- `flush`, on its own or for `close_gracefully`. -/
  | flushing (forClose : Bool)
  /-- The loop of `close_gracefully`. -/
  | closing
  deriving DecidableEq

structure UdpEnd where
  channel : ReliableUdpChannel
  call : UdpCall := .idle
  /-- None where the call is not in `pump`. -/
  stage : Option PumpStage := none
  /-- What ended the last call that did not return. -/
  threw : Option Failure := none
  /-- All that was given to `write_bytes`. -/
  written : Bytes := []
  /-- All that `read_exactly` returned. -/
  returned : Bytes := []
  /-- All that `read_exactly` copied, also for calls that threw. -/
  taken : Bytes := []
  /-- How much had been written when the first `Fin` was sent. -/
  closedAt : Option Nat := none
  deriving DecidableEq

inductive UdpEvent where
  | write (bytes : Bytes)
  | read (len : Nat)
  | flush
  | close
  | retransmit (now : UInt64) (k : Flush)
  /-- One round of `fill_window`. -/
  | packet (now : UInt64) (k : Flush)
  /-- The end of `fill_window`. -/
  | filled
  | sendBatch (k : Flush)
  /-- One datagram of `receive_batch`. -/
  | datagram (now : UInt64) (source : Endpoint) (data : Bytes) (k k' k'' : Flush)
  /-- The end of `receive_batch`. -/
  | received
  | deliver
  | ack (k k' k'' : Flush)
  /-- A round of the call's loop; `late` is that of the deadline of `close_gracefully`. -/
  | resume (late : Bool) (k k' k'' : Flush)

namespace UdpEnd

open ReliableUdpChannel

/-- A part of a call. What it throws ends the call; `close_gracefully` catches it. -/
def act (e : UdpEnd) (m : ChannelM Unit) (call : UdpCall) (stage : Option PumpStage) :
    Option UdpEnd :=
  match m.run e.channel with
  | .ok _ c => some { e with channel := c, call := call, stage := stage }
  | .error (.failure f) c =>
    some { e with
      channel := c
      call := .idle
      stage := none
      threw := if e.call = .flushing true ∨ e.call = .closing then e.threw else some f }
  | .error .overrun _ => none

/-- `send_ack` and what follows it in `pump`. -/
def acknowledges (k k' k'' : Flush) : ChannelM Unit := do
  sendAck k k'
  flushSendBatch k''
  modify fun c => { c with ackPending := false }

def readRound (e : UdpEnd) (len : Nat) (copied : Bytes) : UdpEnd :=
  let c := e.channel
  if copied.length < len then
    if c.deliveredConsumed < c.delivered.length then
      let part := (c.delivered.drop c.deliveredConsumed).take (len - copied.length)
      let consumed := c.deliveredConsumed + part.length
      { e with
        channel := if consumed = c.delivered.length then { c with delivered := [], deliveredConsumed := 0 }
          else { c with deliveredConsumed := consumed }
        call := .reading len (copied ++ part)
        taken := e.taken ++ part }
    else if c.peerFinished && c.reorderBuffer.isEmpty then
      { e with call := .idle, threw := some .peerClosed }
    else { e with stage := some .retransmit }
  else { e with call := .idle, returned := e.returned ++ copied }

/-- A round of the loop of the call. -/
def resume (e : UdpEnd) (late : Bool) (k k' k'' : Flush) : Option UdpEnd :=
  let c := e.channel
  match e.call with
  | .idle => none
  | .writing =>
    if c.outgoingConsumed < c.outgoing.length then some { e with stage := some .retransmit }
    else some { e with channel := { c with outgoing := [], outgoingConsumed := 0 }, call := .idle }
  | .reading len copied => some (e.readRound len copied)
  | .flushing forClose =>
    if c.outgoingConsumed < c.outgoing.length ∨ c.unacknowledged ≠ [] then
      some { e with stage := some .retransmit }
    else e.act (flushSendBatch k) (if forClose then .closing else .idle) none
  | .closing =>
    if c.finAcknowledged || late then some { e with call := .idle }
    else { e with closedAt := e.closedAt.or (some e.written.length) }.act
      (do sendControl .fin k k'; flushSendBatch k'') .closing (some .retransmit)

/-- One event, if it can happen. -/
def next (e : UdpEnd) : UdpEvent → Option UdpEnd
  | .write bytes =>
    if e.call = .idle then
      some { e with
        channel := { e.channel with outgoing := e.channel.outgoing ++ bytes }
        call := .writing
        written := e.written ++ bytes }
    else none
  | .read len =>
    if e.call = .idle then some { e with call := .reading len [], stage := some .retransmit } else none
  | .flush => if e.call = .idle then some { e with call := .flushing false } else none
  | .close => if e.call = .idle then some { e with call := .flushing true } else none
  | .retransmit now k =>
    if e.stage = some .retransmit then e.act (retransmitTimedOut now k) e.call (some .fill)
    else none
  | .packet now k =>
    if e.stage = some .fill ∧ e.channel.outgoingConsumed < e.channel.outgoing.length ∧
        e.channel.unacknowledged.length < UdpTuning.maxCwnd then
      e.act (fillPacket now k) e.call (some .fill)
    else none
  | .filled => if e.stage = some .fill then some { e with stage := some .flush } else none
  | .sendBatch k =>
    if e.stage = some .flush then e.act (flushSendBatch k) e.call (some .receive) else none
  | .datagram now _ data k k' k'' =>
    if e.stage = some .receive then
      e.act (processPacket data now k k' k'') e.call (some .receive)
    else none
  | .received => if e.stage = some .receive then some { e with stage := some .deliver } else none
  | .deliver =>
    if e.stage = some .deliver then
      let c := e.channel.deliverInOrder
      some { e with channel := c, stage := if c.ackPending then some .ack else none }
    else none
  | .ack k k' k'' =>
    if e.stage = some .ack then e.act (acknowledges k k' k'') e.call none else none
  | .resume late k k' k'' => if e.stage = none then e.resume late k k' k'' else none

def Step (e : UdpEnd) (event : UdpEvent) (e' : UdpEnd) : Prop := e.next event = some e'

/-- A channel that was just made. -/
def Fresh (e : UdpEnd) : Prop := ∃ peer, e = { channel := { peer := peer } }

end UdpEnd

end DropZone
