import Mathlib.Logic.Function.Basic
import DropZone.Lib.Pieces
import DropZone.Lib.System
import DropZone.Transfer.Aead

/-!
# The receiver (`client/src/receiver.cpp`)

`receive_transfer` as a transition system: the thread that reads frames, the workers of the pool,
and bytes arriving on the channel, in any interleaving.

* `Receiver.next`: one step. A step that would block gives none.
* `Calls`: what the user and the operating system answer during a step; a call that fails is a
  `Failure`.
* `Receiver.log`, `Receiver.received` and `OpenJob.number` are history: the writes made so far, the
  number of chunks accepted, and the number a chunk had among them.
-/

namespace DropZone

open LittleEndian Parser Pieces

/-! ## Paths and outputs -/

def joinPath (a b : Bytes) : Bytes :=
  if a = [] then b
  else if b = [] then a
  else if b.head? = some 47 then b
  else if a.getLast? = some 47 then a ++ b
  else a ++ 47 :: b

def resolveOutputPaths (directory : Bytes) : List ManifestEntry → Except Failure (List Bytes)
  | [] => .ok []
  | entry :: entries =>
    if isSafeRelativePath entry.path = true then do
      let paths ← resolveOutputPaths directory entries
      pure (joinPath directory entry.path :: paths)
    else
      .error (.error (text "the sender offered an unsafe path: '" ++ entry.path ++ text "'"))

structure OutputFile where
  path : Bytes
  expectedSize : UInt64
  mode : UInt32
  written : UInt64 := 0
  deriving DecidableEq

/-- The contents of the files, by path. -/
abbrev Disk := Bytes → Bytes

/-- What the user and the operating system answer. -/
structure Calls where
  /-- The answer to "Accept?". -/
  confirm : Bool := true
  /-- Creating the directories of the `i`-th output, opening it and reserving its space. -/
  openOutput : Nat → Option Failure := fun _ => none
  /-- A write to the channel. -/
  write : Option Failure := none
  pwrite : Option Failure := none
  /-- Flushing the `i`-th output. -/
  fsync : Nat → Option Failure := fun _ => none
  /-- Mapping the `i`-th output to read it back. -/
  map : Nat → Option Failure := fun _ => none
  /-- What is written past the end of a plaintext buffer does harm. Otherwise it stays in the memory that
  the buffer has reserved, and the job goes on. -/
  harm : Bool := true

/-- `fail_errno` with `EINVAL`. -/
def invalidArgument (what : Bytes) : Failure := .error (what ++ text ": Invalid argument")

/-- `open_outputs`: each file truncated and grown to its size. A size that is negative as an `off_t`
is refused by `ftruncate`. -/
def openOutputs (calls : Calls) : Nat → List ManifestEntry → List Bytes → Disk →
    Except Failure (List OutputFile × Disk)
  | i, entry :: entries, path :: paths, disk =>
    match calls.openOutput i with
    | some e => .error e
    | none =>
      if 2 ^ 63 ≤ entry.size.toNat then
        .error (invalidArgument (text "cannot set the size of the output file"))
      else do
        let (files, disk) ← openOutputs calls (i + 1) entries paths
          (Function.update disk path (List.replicate entry.size.toNat 0))
        pure ({ path := path, expectedSize := entry.size, mode := entry.mode } :: files, disk)
  | _, _, _, disk => .ok ([], disk)

def validateChunk (header : ChunkHeader) (files : List OutputFile) (expectedCounter : UInt64)
    (maxChunkSize : UInt32) : Except Failure Unit :=
  match files[header.fileIndex.toNat]? with
  | none => .error (.error (text "the sender referred to a file that is not in its own manifest"))
  | some file =>
    if header.plaintextLength > maxChunkSize then
      .error (.error (text "the sender sent a chunk larger than the size it declared"))
    else if header.counter ≠ expectedCounter then
      .error (.error (text "chunk " ++ decimal header.counter.toNat ++ text " arrived where " ++
        decimal expectedCounter.toNat ++ text " was expected; the transfer is incomplete"))
    -- The sum is taken modulo `2 ^ 64`.
    else if header.offset + header.plaintextLength.toUInt64 > file.expectedSize then
      .error (.error (text "the sender sent a chunk that runs past the end of '" ++ file.path ++
        text "'"))
    else .ok ()

/-- `pwrite_all`: nothing is asked of the kernel for no bytes, and an offset that is negative as an
`off_t` is refused. -/
def pwriteAll (calls : Calls) (data : Bytes) (offset : UInt64) : Except Failure Unit :=
  if data = [] then .ok ()
  else if 2 ^ 63 ≤ offset.toNat then
    .error (invalidArgument (text "cannot write to the output file"))
  else
    match calls.pwrite with
    | some e => .error e
    | none => .ok ()

/-- `finalise_outputs`, from the `i`-th file on. -/
def finaliseOutputs (calls : Calls) : Nat → List OutputFile → Except Failure Unit
  | _, [] => .ok ()
  | i, file :: files =>
    if file.written ≠ file.expectedSize then
      .error (.error (text "'" ++ file.path ++ text "' received " ++ decimal file.written.toNat ++
        text " of " ++ decimal file.expectedSize.toNat ++ text " bytes"))
    else
      match calls.fsync i with
      | some e => .error e
      | none => finaliseOutputs calls (i + 1) files

/-- `verify_digests`, from the `i`-th file on. -/
def verifyDigests (sha256 : Bytes → Block 32) (calls : Calls) (disk : Disk) :
    Nat → List OutputFile → List ManifestEntry → Except Failure Unit
  | i, file :: files, entry :: entries =>
    match calls.map i with
    | some e => .error e
    | none =>
      if sha256 (disk file.path) ≠ entry.digest then
        .error (.error (text "'" ++ file.path ++
          text "' does not match the digest the sender sent"))
      else verifyDigests sha256 calls disk (i + 1) files entries
  | _, _, _ => .ok ()

/-! ## State -/

/-- A chunk handed to the pool: its header, the whole frame payload, and its number among the chunks
accepted. -/
structure OpenJob where
  header : ChunkHeader
  sealed : Bytes
  number : Nat
  deriving DecidableEq

/-- A write to an output file. -/
structure ChunkWrite where
  number : Nat
  file : Nat
  offset : Nat
  data : Bytes
  deriving DecidableEq

structure Receiving where
  aead : Aead
  sha256 : Bytes → Block 32
  keys : SessionKeys
  peerUsername : Bytes
  /-- The channel is the relay. -/
  overRelay : Bool := false
  outputDirectory : Bytes := []
  currentDirectory : Bytes
  prompt : Bool := true
  requireEncryption : Bool := false
  verifyDigests : Bool := false
  /-- `options.workers`, or one per core. -/
  workers : Nat
  workers_pos : 0 < workers
  /-- An `unsigned`. -/
  workers_lt : workers < 2 ^ 32

def Receiving.directory (c : Receiving) : Bytes :=
  if c.outputDirectory = [] then c.currentDirectory else c.outputDirectory

def Receiving.queueDepth (c : Receiving) : Nat := c.workers * 2

/-- Where the thread that reads frames is. -/
inductive ReceiverPhase where
  | awaitingOffer
  | reading
  /-- In `AeadPool::submit`. -/
  | submitting (job : OpenJob)
  /-- In `AeadPool::drain`, after `TransferEnd`. -/
  | draining
  /-- `TransferAck` was written. -/
  | acked
  | declined
  | failed (e : Failure)
  /-- A worker wrote past the end of its plaintext buffer: nothing more is known. -/
  | overrun
  deriving DecidableEq

structure Receiver where
  /-- Bytes that have arrived and were not read yet. -/
  input : Bytes := []
  /-- Bytes written to the channel. -/
  sent : Bytes := []
  phase : ReceiverPhase := .awaitingOffer
  offer : Option TransferOffer := none
  files : List OutputFile := []
  disk : Disk
  expectedCounter : UInt64 := 0
  pool : AeadPool OpenJob := {}
  received : Nat := 0
  log : List ChunkWrite := []

inductive ReceiverEvent where
  | arrive (bytes : Bytes)
  /-- The channel throws while a frame is being read. -/
  | lost (e : Failure)
  | read (calls : Calls)
  | submit
  | take
  | finish (i : Nat) (calls : Calls)
  | drain (calls : Calls)

/-! ## Steps -/

/-- The cipher that an offer's frame flags name. -/
def AeadAlgorithm.ofTag? (tag : UInt16) : Option AeadAlgorithm :=
  match tag.toNat with
  | 1 => some .aes256Gcm | 2 => some .chaCha20Poly1305 | _ => none

/-- `read_offer`, on the frame that was read. -/
def readOffer (c : Receiving) (frame : Frame) : Except Failure TransferOffer := do
  let frame ← Channel.expect .offer frame
  match AeadAlgorithm.ofTag? frame.header.flags with
  | some algorithm =>
    match openStandalone c.aead algorithm c.keys.offerKey kInfoOfferKey frame.payload with
    | some plain => TransferOffer.decode plain
    | none =>
      throw (.error (text "could not open the sender's offer; the session keys do not match"))
  | none => throw (.error (text "the sender named an unknown cipher for its offer"))

namespace Receiver

def fail (s : Receiver) (e : Failure) : Receiver := { s with phase := .failed e }

/-- `Channel::write_frame`. -/
def write (calls : Calls) (type : MessageType) (payload : Bytes) (s : Receiver) :
    Except Failure Receiver :=
  match calls.write with
  | some e => .error e
  | none => do
    let bytes ← writeFrame type payload
    pure { s with sent := s.sent ++ bytes }

/-- Goes on with the state of a call that returned, or fails with what it threw. -/
def orFail (s : Receiver) (r : Except Failure Receiver) (k : Receiver → Receiver) : Receiver :=
  match r with
  | .ok s' => k s'
  | .error e => s.fail e

def decline (calls : Calls) (reason : Bytes) (s : Receiver) : Except Failure Receiver :=
  s.write calls .decision ({ reason := reason } : TransferDecision).encode

/-- The two reasons to refuse before the user is asked: what the sender is told, and what is
thrown. -/
def refusal (c : Receiving) (offer : TransferOffer) : Option (Bytes × Failure) :=
  if !offer.encryptPayload && c.overRelay then
    some (text "this transfer would pass through the rendezvous server, so it must be encrypted",
      .userError (c.peerUsername ++
        text " tried to send unencrypted files over the relay, which drop-zone refuses"))
  else if !offer.encryptPayload && c.requireEncryption then
    some (text "this receiver requires encrypted transfers",
      .userError (c.peerUsername ++
        text " tried to send unencrypted files, which this receiver refuses"))
  else none

/-- From the offer to the decision. -/
def start (c : Receiving) (calls : Calls) (offer : TransferOffer) (s : Receiver) : Receiver :=
  match refusal c offer with
  | some (reason, e) => s.orFail (s.decline calls reason) (·.fail e)
  | none =>
    match resolveOutputPaths c.directory offer.entries with
    | .error e => s.fail e
    | .ok paths =>
      if c.prompt && !calls.confirm then
        s.orFail (s.decline calls (text "declined")) ({ · with phase := .declined })
      else
        match openOutputs calls 0 offer.entries paths s.disk with
        | .error e => s.fail e
        | .ok (files, disk) =>
          s.orFail
            (s.write calls .decision
              ({ accepted := true, outputDirectory := c.directory } : TransferDecision).encode)
            ({ · with phase := .reading, offer := some offer, files := files, disk := disk })

/-- A chunk's bytes written to its file and counted. -/
def commit (number : Nat) (header : ChunkHeader) (data : Bytes) (s : Receiver) : Receiver :=
  match s.files[header.fileIndex.toNat]? with
  | none => s
  | some file =>
    { s with
      disk := Function.update s.disk file.path
        (overlay (s.disk file.path) header.offset.toNat data)
      files := s.files.set header.fileIndex.toNat
        { file with written := file.written + UInt64.ofNat data.length }
      log := s.log ++ [⟨number, header.fileIndex.toNat, header.offset.toNat, data⟩] }

/-- One turn of the receiving loop on a frame. -/
def receiveFrame (calls : Calls) (offer : TransferOffer) (frame : Frame) (s : Receiver) : Receiver :=
  if frame.header.type = .transferEnd then { s with phase := .draining }
  else if frame.header.type = .abort then
    s.fail (.userError (text "the sender stopped the transfer: " ++ stopReason frame.payload))
  else if frame.header.type ≠ .chunk then
    s.fail (.error (text "expected a chunk but the sender sent a " ++ frame.header.type.name))
  else if frame.payload.length < kChunkHeaderSize then
    s.fail (.error (text "a chunk frame is too short to parse"))
  else
    let header := decodeChunkHeader frame.payload
    match validateChunk header s.files s.expectedCounter offer.chunkSize with
    | .error e => s.fail e
    | .ok () =>
      let number := s.received
      let counted :=
        { s with expectedCounter := s.expectedCounter + 1, received := s.received + 1 }
      if offer.encryptPayload then
        { counted with phase := .submitting ⟨header, frame.payload, number⟩ }
      else
        let data := frame.payload.drop kChunkHeaderSize
        if data.length ≠ header.plaintextLength.toNat then
          s.fail (.error (text "a chunk's length does not match its header"))
        else
          match pwriteAll calls data header.offset with
          | .error e => s.fail e
          | .ok () => counted.commit number header data

end Receiver

/-- What a worker's job comes to before its bytes are written. -/
inductive Opened where
  | plain (data : Bytes)
  | failed (e : Failure)
  | overrun

/-- The job that opens a chunk. `Aead::open` decrypts into a buffer of `plaintext_length` bytes
before the tag is checked. -/
def OpenJob.run (c : Receiving) (calls : Calls) (algorithm : AeadAlgorithm) (job : OpenJob) : Opened :=
  let ciphertext := job.sealed.drop kChunkHeaderSize
  let unauthentic := Opened.failed (.error (text "chunk " ++ decimal job.header.counter.toNat ++
    text " failed authentication; it was corrupted or tampered with"))
  if ciphertext.length < kAeadTagSize then unauthentic
  else if calls.harm ∧ ciphertext.length - kAeadTagSize > job.header.plaintextLength.toNat then .overrun
  else
    match c.aead.openBytes algorithm c.keys.receiveKey
      (buildNonce c.keys.receiveNoncePrefix job.header.counter)
      (job.sealed.take kChunkHeaderSize) ciphertext with
    | none => unauthentic
    | some data =>
      if data.length ≠ job.header.plaintextLength.toNat then
        .failed (.error (text "chunk " ++ decimal job.header.counter.toNat ++
          text " decrypted to the wrong length"))
      else .plain data

namespace Receiver

/-- A worker finishes `active[i]`, which is `job`. -/
def finishJob (c : Receiving) (calls : Calls) (offer : TransferOffer) (i : Nat) (job : OpenJob)
    (s : Receiver) : Receiver :=
  match job.run c calls offer.algorithm with
  | .overrun => { s with phase := .overrun }
  | .failed e => { s with pool := s.pool.finish i (some e) }
  | .plain data =>
    match pwriteAll calls data job.header.offset with
    | .error e => { s with pool := s.pool.finish i (some e) }
    | .ok () => ({ s with pool := s.pool.finish i none }).commit job.number job.header data

/-- What follows the loop: `finalise_outputs`, `verify_digests` and the acknowledgement. -/
def finalise (c : Receiving) (calls : Calls) (offer : TransferOffer) (s : Receiver) : Receiver :=
  match finaliseOutputs calls 0 s.files with
  | .error e => s.fail e
  | .ok () =>
    match if c.verifyDigests && offer.digestsPresent then
        DropZone.verifyDigests c.sha256 calls s.disk 0 s.files offer.entries else .ok () with
    | .error e => s.fail e
    | .ok () => s.orFail (s.write calls .transferAck []) ({ · with phase := .acked })

/-- The thread that reads frames, on a frame. -/
def handle (c : Receiving) (calls : Calls) (frame : Frame) (s : Receiver) : Receiver :=
  match s.offer with
  | none =>
    match readOffer c frame with
    | .error e => s.fail e
    | .ok offer => s.start c calls offer
  | some offer => s.receiveFrame calls offer frame

/-- The thread is reading a frame. -/
def Waits (s : Receiver) : Prop := s.phase = .awaitingOffer ∨ s.phase = .reading

instance (s : Receiver) : Decidable s.Waits := inferInstanceAs (Decidable (_ ∨ _))

/-- One step. -/
def next (c : Receiving) (s : Receiver) (event : ReceiverEvent) : Option Receiver :=
  if s.phase = .overrun then none
  else
    match event with
    | .arrive bytes => some { s with input := s.input ++ bytes }
    | .lost e => if s.Waits then some (s.fail e) else none
    | .read calls =>
      if s.Waits then
        match (readFrame .peerClosed).run s.input with
        | .ok (frame, rest) => some (handle c calls frame { s with input := rest })
        -- The frame is not complete: wait for more bytes.
        | .error .peerClosed => none
        | .error e => some (s.fail e)
      else none
    | .submit =>
      match s.phase with
      | .submitting job =>
        match s.pool.submit c.queueDepth job with
        | none => none
        | some (.error e) => some (s.fail e)
        | some (.ok pool) => some { s with pool := pool, phase := .reading }
      | _ => none
    | .take => (s.pool.take c.workers).map ({ s with pool := · })
    | .finish i calls =>
      match s.pool.active[i]?, s.offer with
      | some job, some offer => some (s.finishJob c calls offer i job)
      | _, _ => none
    | .drain calls =>
      match s.phase, s.offer with
      | .draining, some offer =>
        match s.pool.drain with
        | none => none
        | some (pool, some e) => some (({ s with pool := pool }).fail e)
        | some (pool, none) => some (({ s with pool := pool }).finalise c calls offer)
      | _, _ => none

/-- Before anything was read, over a given disk. -/
def init (disk : Disk) : Receiver := { disk := disk }

def Step (c : Receiving) (s : Receiver) (event : ReceiverEvent) (s' : Receiver) : Prop :=
  next c s event = some s'

end Receiver

end DropZone
