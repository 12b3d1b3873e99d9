import DropZone.Transfer.Pipeline
import DropZone.Transfer.Workers

/-!
# The threads of `send_encrypted` (`client/src/sender.cpp`)

The calling thread, the workers and the thread that writes, at the steps that take a mutex, from the
mapping of the files to the end of the destructors.

* `SealPlan`: what the run depends on: the number of chunks, their sealed bytes, the workers.
* `Sealing.next`: one step of one thread. A step that gives none waits.
* `Sealing.Deadlocked`: `send_encrypted` has not ended, and every thread waits.
-/

namespace DropZone

open LittleEndian System

/-- A transfer, as the threads see it. -/
structure SealPlan where
  /-- `plan.size()`. -/
  length : Nat
  /-- A chunk after sealing. -/
  payload : Nat → Bytes
  workers : Nat
  workers_pos : 0 < workers

namespace SealPlan

def queueDepth (p : SealPlan) : Nat := p.workers * 2

def slots (p : SealPlan) : Nat := p.queueDepth + p.workers + 4

end SealPlan

inductive SealTask where
  /-- Up to `aead.seal`. -/
  | sealing (index : Nat)
  /-- In `emitter.publish`. -/
  | publishing (index : Nat)
  deriving DecidableEq

inductive ProducerPhase where
  /-- Mapping the files, before the writer starts. -/
  | mapping
  /-- In `submit`. -/
  | submitting (index : Nat)
  | draining
  /-- `set_total` is next. -/
  | totalling
  /-- An exception was caught; `abort` is next. -/
  | aborting (e : Failure)
  /-- In `writer.join`; `error` is thrown after that. -/
  | joining (error : Option Failure)
  /-- The scope is left: `mappings` is destroyed next, then `buffers`, then `emitter`. -/
  | dropMappings (error : Option Failure)
  | dropBuffers (error : Option Failure)
  | dropEmitter (error : Option Failure)
  /-- `~AeadPool` is next. -/
  | stopping (error : Option Failure)
  /-- In `~AeadPool`, joining the workers. -/
  | joinWorkers (error : Option Failure)
  | finished (error : Option Failure)
  deriving DecidableEq

structure Sealing where
  producer : ProducerPhase := .mapping
  pool : WorkerPool SealTask
  emitter : OrderedEmitter
  writer : WriterPhase := .notStarted
  /-- Which of the objects that the jobs refer to are still there. -/
  mappingsAlive : Bool := true
  buffersAlive : Bool := true
  emitterAlive : Bool := true
  deriving DecidableEq

inductive SealEvent where
  -- the calling thread
  | map (fault : Option Failure)
  | submit
  | drain
  | setTotal
  | abort
  | join
  | drop
  | shutdown
  | joinWorkers
  -- the worker `w`
  | wake (w : Nat)
  | encrypt (w : Nat) (fault : Option Failure)
  | publish (w : Nat)
  | retire (w : Nat)
  -- the writer; `fault` is what the channel throws
  | consume (fault : Option Failure)
  | write (fault : Option Failure)

namespace Sealing

def init (p : SealPlan) : Sealing where
  pool := .start p.workers
  emitter := .init p.slots

/-- The head of the loop that submits. -/
def submitFrom (p : SealPlan) (index : Nat) : ProducerPhase :=
  if index < p.length then .submitting index else .draining

/-- The writer ends with an exception, which it hands to everybody. -/
def writerFails (s : Sealing) (e : Failure) : Sealing :=
  { s with writer := .done (some e), emitter := s.emitter.abort e }

/-- One step. -/
def next (p : SealPlan) (s : Sealing) : SealEvent → Option Sealing
  | .map fault =>
    match s.producer, fault with
    | .mapping, some e => some { s with producer := .dropMappings (some e) }
    | .mapping, none => some { s with producer := submitFrom p 0, writer := .consuming }
    | _, _ => none
  | .submit =>
    match s.producer with
    | .submitting index =>
      match s.pool.submit p.queueDepth (.sealing index) with
      | none => none
      | some (.error e) => some { s with producer := .aborting e }
      | some (.ok pool) => some { s with pool := pool, producer := submitFrom p (index + 1) }
    | _ => none
  | .drain =>
    match s.producer with
    | .draining =>
      match s.pool.drain with
      | none => none
      | some (pool, some e) => some { s with pool := pool, producer := .aborting e }
      | some (pool, none) => some { s with pool := pool, producer := .totalling }
    | _ => none
  | .setTotal =>
    match s.producer with
    | .totalling => some { s with emitter := s.emitter.setTotal p.length, producer := .joining none }
    | _ => none
  | .abort =>
    match s.producer with
    | .aborting e => some { s with emitter := s.emitter.abort e, producer := .joining (some e) }
    | _ => none
  | .join =>
    match s.producer, s.writer with
    | .joining error, .done writerError =>
      some { s with producer := .dropMappings (error.or writerError) }
    | _, _ => none
  | .drop =>
    match s.producer with
    | .dropMappings error => some { s with mappingsAlive := false, producer := .dropBuffers error }
    | .dropBuffers error => some { s with buffersAlive := false, producer := .dropEmitter error }
    | .dropEmitter error => some { s with emitterAlive := false, producer := .stopping error }
    | _ => none
  | .shutdown =>
    match s.producer with
    | .stopping error => some { s with pool := s.pool.shutdown, producer := .joinWorkers error }
    | _ => none
  | .joinWorkers =>
    match s.producer with
    | .joinWorkers error => if s.pool.Exited then some { s with producer := .finished error } else none
    | _ => none
  | .wake w => (s.pool.wake w).map ({ s with pool := · })
  | .encrypt w fault =>
    match s.pool.workers[w]?, fault with
    | some (.running (.sealing index)), some e =>
      some { s with pool := s.pool.put w (.ending (.sealing index) (some e)) }
    | some (.running (.sealing index)), none =>
      some { s with pool := s.pool.put w (.running (.publishing index)) }
    | _, _ => none
  | .publish w =>
    match s.pool.workers[w]? with
    | some (.running (.publishing index)) =>
      match s.emitter.publish index (p.payload index) with
      | none => none
      | some (emitter, _) =>
        some { s with emitter := emitter, pool := s.pool.put w (.ending (.publishing index) none) }
    | _ => none
  | .retire w => (s.pool.retire w).map ({ s with pool := · })
  | .consume fault =>
    match s.writer with
    | .consuming =>
      match s.emitter.consume with
      | none => none
      | some (.error e) => some (s.writerFails e)
      | some (.ok (emitter, some chunk)) =>
        some { s with emitter := emitter, writer := .writing chunk }
      -- Everything was consumed: the channel is flushed.
      | some (.ok (emitter, none)) =>
        match fault with
        | some e => some ({ s with emitter := emitter }.writerFails e)
        | none => some { s with emitter := emitter, writer := .done none }
    | _ => none
  | .write fault =>
    match s.writer, fault with
    | .writing _, some e => some (s.writerFails e)
    | .writing _, none => some { s with writer := .consuming }
    | _, _ => none

/-- `send_encrypted` has returned or thrown. -/
def Finished (s : Sealing) : Prop := ∃ error, s.producer = .finished error

/-- `send_encrypted` has not ended, and no thread can go on. -/
def Deadlocked (p : SealPlan) (s : Sealing) : Prop := ¬ s.Finished ∧ ∀ e, s.next p e = none

end Sealing

end DropZone
