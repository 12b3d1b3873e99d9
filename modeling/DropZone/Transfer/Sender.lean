import DropZone.Lib.System
import DropZone.Transfer.Emitter
import DropZone.Transfer.Outgoing

/-!
# The sender (`client/src/sender.cpp`)

`send_transfer` as a transition system: the calling thread, the workers that seal chunks, the thread
that writes them, and bytes arriving on the channel, in any interleaving.

* `Sender.next`: one step. A step that would block gives none.
* `SendCalls`: what the operating system answers during a step; a call that fails is a `Failure`.
-/

namespace DropZone

open LittleEndian Parser

/-- A chunk handed to the pool to be sealed. -/
structure SealJob where
  index : Nat
  chunk : ChunkPlan
  deriving DecidableEq

/-- Where the calling thread is. -/
inductive SenderPhase where
  | start
  | awaitingDecision
  /-- In `send_encrypted`, about to submit the chunk at `index`. -/
  | submitting (index : Nat)
  /-- In `AeadPool::drain`. -/
  | draining
  /-- Waiting for the writer to end; `error` is thrown after that. -/
  | joining (error : Option Failure)
  /-- In `send_plaintext`, about to write the chunk at `index`. -/
  | copying (index : Nat)
  /-- About to write `TransferEnd`. -/
  | closing
  | awaitingAck
  | returned
  | failed (e : Failure)
  deriving DecidableEq

/-- Where the thread that writes sealed chunks is. -/
inductive WriterPhase where
  | notStarted
  | consuming
  | writing (chunk : Bytes)
  | done (error : Option Failure)
  deriving DecidableEq

/-- What the operating system answers. -/
structure SendCalls where
  /-- A write to the channel, or a flush. -/
  write : Option Failure := none
  /-- Opening or mapping the source files. -/
  map : Option Failure := none

def Sending.queueDepth (t : Sending) : Nat := t.workers * 2

structure Sender where
  /-- Bytes that have arrived and were not read yet. -/
  input : Bytes := []
  /-- Bytes written to the channel. -/
  sent : Bytes := []
  phase : SenderPhase := .start
  pool : AeadPool SealJob := {}
  emitter : OrderedEmitter
  writer : WriterPhase := .notStarted

inductive SenderEvent where
  | arrive (bytes : Bytes)
  /-- The channel throws while a frame is being read. -/
  | lost (e : Failure)
  | begin (calls : SendCalls)
  | read (calls : SendCalls)
  | submit
  | take
  /-- A worker ends its job; `fault` is what sealing throws. -/
  | finish (i : Nat) (fault : Option Failure)
  | drain
  | consume (calls : SendCalls)
  | write (calls : SendCalls)
  | join
  | copy (calls : SendCalls)
  | close (calls : SendCalls)

namespace Sender

def fail (s : Sender) (e : Failure) : Sender := { s with phase := .failed e }

/-- `Channel::write_frame`: the bytes that reach the channel, or what is thrown. -/
def frame (calls : SendCalls) (type : MessageType) (payload : Bytes) (flags : UInt16 := 0) :
    Except Failure Bytes :=
  match calls.write with
  | some e => .error e
  | none => writeFrame type payload flags

/-- Writes a frame and goes on in `phase`. -/
def writeThen (calls : SendCalls) (type : MessageType) (payload : Bytes) (flags : UInt16)
    (phase : SenderPhase) (s : Sender) : Sender :=
  match frame calls type payload flags with
  | .ok bytes => { s with sent := s.sent ++ bytes, phase := phase }
  | .error e => s.fail e

/-- The loop of `send_encrypted`, at `index`. -/
def submitFrom (t : Sending) (index : Nat) : SenderPhase :=
  if index < t.plan.length then .submitting index else .draining

/-- The loop of `send_plaintext`, at `index`. -/
def copyFrom (t : Sending) (index : Nat) : SenderPhase :=
  if index < t.plan.length then .copying index else .closing

/-- The check at the top of `send_transfer`, then `send_offer`. -/
def begin (t : Sending) (calls : SendCalls) (s : Sender) : Sender :=
  if !t.encrypt && t.overRelay then
    s.fail (.userError (text ("this transfer has to go through the rendezvous server, so it cannot be "
      ++ "sent unencrypted. Remove --no-encrypt and try again.")))
  else s.writeThen calls .offer t.offerPayload t.keys.algorithm.tag .awaitingDecision

/-- `await_decision` on the frame that was read, up to the first chunk. -/
def decided (t : Sending) (calls : SendCalls) (frame : Frame) (s : Sender) : Sender :=
  match Channel.expect .decision frame >>= fun frame => TransferDecision.decode frame.payload with
  | .error e => s.fail e
  | .ok decision =>
    if decision.accepted = false then
      s.fail (.userError (if decision.reason = [] then text "the other side declined the transfer"
        else text "the other side declined: " ++ decision.reason))
    else if t.encrypt then
      match calls.map with
      | some e => s.fail e
      | none => { s with phase := submitFrom t 0, writer := .consuming }
    else { s with phase := copyFrom t 0 }

/-- The frame that `send_transfer` waits for at its end. -/
def acknowledged (frame : Frame) (s : Sender) : Sender :=
  match Channel.expect .transferAck frame with
  | .error e => s.fail e
  | .ok _ => { s with phase := .returned }

/-- The writer ends with an exception, which it hands to everybody. -/
def writerFails (s : Sender) (e : Failure) : Sender :=
  { s with writer := .done (some e), emitter := s.emitter.abort e }

/-- The producer leaves its loop with an exception. -/
def producerFails (s : Sender) (e : Failure) : Sender :=
  { s with phase := .joining (some e), emitter := s.emitter.abort e }

/-- The calling thread, on a frame. -/
def handle (t : Sending) (calls : SendCalls) (frame : Frame) (s : Sender) : Sender :=
  match s.phase with
  | .awaitingDecision => s.decided t calls frame
  | _ => s.acknowledged frame

/-- The calling thread is reading a frame. -/
def Waits (s : Sender) : Prop := s.phase = .awaitingDecision ∨ s.phase = .awaitingAck

instance (s : Sender) : Decidable s.Waits := inferInstanceAs (Decidable (_ ∨ _))

/-- One step. -/
def next (t : Sending) (s : Sender) (event : SenderEvent) : Option Sender :=
  match event with
  | .arrive bytes => some { s with input := s.input ++ bytes }
  | .lost e => if s.Waits then some (s.fail e) else none
  | .begin calls => if s.phase = .start then some (s.begin t calls) else none
  | .read calls =>
    if s.Waits then
      match (readFrame .peerClosed).run s.input with
      | .ok (frame, rest) => some (handle t calls frame { s with input := rest })
      -- The frame is not complete: wait for more bytes.
      | .error .peerClosed => none
      | .error e => some (s.fail e)
    else none
  | .submit =>
    match s.phase with
    | .submitting index =>
      match t.plan[index]? with
      | none => none
      | some chunk =>
        match s.pool.submit t.queueDepth ⟨index, chunk⟩ with
        | none => none
        | some (.error e) => some (s.producerFails e)
        | some (.ok pool) => some { s with pool := pool, phase := submitFrom t (index + 1) }
    | _ => none
  | .take => (s.pool.take t.workers).map ({ s with pool := · })
  | .finish i fault =>
    match s.pool.active[i]? with
    | none => none
    | some job =>
      match fault with
      | some e => some { s with pool := s.pool.finish i (some e) }
      | none =>
        -- A worker whose chunk is too far ahead waits in `publish`.
        match s.emitter.publish job.index (t.sealedPayload job.index job.chunk) with
        | none => none
        | some (emitter, _) => some { s with pool := s.pool.finish i none, emitter := emitter }
  | .drain =>
    match s.phase with
    | .draining =>
      match s.pool.drain with
      | none => none
      | some (pool, some e) => some (({ s with pool := pool }).producerFails e)
      | some (pool, none) =>
        some { s with pool := pool, phase := .joining none
                      emitter := s.emitter.setTotal t.plan.length }
    | _ => none
  | .consume calls =>
    match s.writer with
    | .consuming =>
      match s.emitter.consume with
      | none => none
      | some (.error e) => some (s.writerFails e)
      | some (.ok (emitter, some chunk)) =>
        some { s with emitter := emitter, writer := .writing chunk }
      | some (.ok (emitter, none)) =>
        match calls.write with
        | some e => some (({ s with emitter := emitter }).writerFails e)
        | none => some { s with emitter := emitter, writer := .done none }
    | _ => none
  | .write calls =>
    match s.writer with
    | .writing chunk =>
      match frame calls .chunk chunk with
      | .ok bytes => some { s with sent := s.sent ++ bytes, writer := .consuming }
      | .error e => some (s.writerFails e)
    | _ => none
  | .join =>
    match s.phase, s.writer with
    | .joining (some e), .done _ => some (s.fail e)
    | .joining none, .done (some e) => some (s.fail e)
    | .joining none, .done none => some { s with phase := .closing }
    | _, _ => none
  | .copy calls =>
    match s.phase with
    | .copying index =>
      match t.plan[index]? with
      | none => none
      | some chunk =>
        match calls.map with
        | some e => some (s.fail e)
        | none =>
          some (s.writeThen calls .chunk (t.plainPayload index chunk) 1 (copyFrom t (index + 1)))
    | _ => none
  | .close calls =>
    if s.phase = .closing then some (s.writeThen calls .transferEnd [] 0 .awaitingAck) else none

def init (t : Sending) : Sender where
  emitter := OrderedEmitter.init (t.queueDepth + t.workers + 4)

end Sender

end DropZone
