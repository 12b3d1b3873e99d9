import DropZone.Transfer.Pipeline
import DropZone.Transfer.Integrity

/-!
# Three ways to send the chunks (`client/src/sender.cpp`)

`send_plaintext` splices a chunk from its file to the socket or copies it out of a mapping, and
`send_encrypted` seals it out of a mapping. Each opens the files at its own time and builds its frames by
itself.

* `SendJob.sendPlaintext`, `SendJob.sendEncrypted`: what each puts on the channel, from the contents the
  files have when they are sent. `Sending.wire_eq`: for files that did not change these are the frames of
  `Sending`, which the threads of `Sender` write.
* `sendfileAll_eq`: however little a call of `sendfile` takes, the chunk goes out up to the end of its file.
* `senders_agree`: all three emit the same chunks exactly if the files kept their sizes, and all three refuse
  exactly if the first file is gone. `grown_file_sent`: only `send_encrypted` refuses a file that grew.
-/

namespace DropZone

open LittleEndian

/-! ## What is put on the channel -/

/-- How the loop over the plan ends. -/
inductive Ending where
  | finished
  | threw (e : Failure)
  /-- It read past the end of a mapping. -/
  | faulted
  deriving DecidableEq

/-- A chunk on the channel: what it says, and the bytes of its frame. -/
structure Emitted where
  header : ChunkHeader
  data : Bytes
  frame : Bytes
  deriving DecidableEq

/-- What a sender puts on the channel: whole chunks, and what it wrote of the one it stopped in. -/
structure Emission where
  chunks : List Emitted
  cut : Bytes
  ending : Ending
  deriving DecidableEq

namespace Emission

def finish : Emission := ⟨[], [], .finished⟩

def stop (cut : Bytes) (ending : Ending) : Emission := ⟨[], cut, ending⟩

/-- One more chunk in front. -/
def after (chunk : Emitted) (rest : Emission) : Emission := { rest with chunks := chunk :: rest.chunks }

/-- The sender throws before it has written anything. -/
def Refused (emission : Emission) : Prop := ∃ e, emission = .stop [] (.threw e)

/-- The chunks without their frames: the header names file, offset, length and counter. -/
def contents (emission : Emission) : List (ChunkHeader × Bytes) :=
  emission.chunks.map fun chunk => (chunk.header, chunk.data)

end Emission

/-- The loop over a plan from the chunk at `index` on; a chunk that fails stops it. -/
def emitAll (step : Nat → ChunkPlan → Except (Bytes × Ending) Emitted) :
    (index : Nat) → List ChunkPlan → Emission
  | _, [] => .finish
  | index, chunk :: rest =>
    match step index chunk with
    | .error (cut, ending) => .stop cut ending
    | .ok sent => .after sent (emitAll step (index + 1) rest)

/-! ## `sendfile_all` -/

/-- What one call of `sendfile` moves, if the socket takes `ready + 1` bytes. -/
def sendfile (contents : Bytes) (position batch ready : Nat) : Bytes :=
  (contents.drop position).take (min batch (ready + 1))

/-- The loop of `sendfile_all`: the bytes on the socket, and what it throws. A call that moves nothing is
taken for a closed peer. Every turn moves a byte, so that `remaining` turns are enough. -/
def sendfileAll (contents : Bytes) (ready : Nat → Nat) :
    (fuel position remaining : Nat) → Bytes × Option Failure
  | 0, _, _ => ([], none)
  | fuel + 1, position, remaining =>
    if remaining = 0 then ([], none)
    else
      let sent := sendfile contents position (min remaining 0x7ffff000) (ready position)
      if sent = [] then ([], some .peerClosed)
      else
        let rest := sendfileAll contents ready fuel (position + sent.length) (remaining - sent.length)
        (sent ++ rest.1, rest.2)

/-! ## The senders -/

/-- What the senders are called with, and the files as they are by then. -/
structure SendJob where
  aead : Aead
  keys : SessionKeys
  manifest : Manifest
  chunkSize : UInt32
  /-- Opening a source file: its contents, or why it cannot be opened. -/
  source : Bytes → Except Failure Bytes
  /-- How much the socket takes, by the chunk and the position in its file. -/
  ready : Nat → Nat → Nat

namespace SendJob

section Model

variable (job : SendJob)

def plan : List ChunkPlan := planChunks job.manifest.files job.chunkSize

/-- Opening or mapping the file at an index of the manifest. -/
def openFile (index : UInt32) : Except Failure Bytes :=
  match job.manifest.files[index.toNat]? with
  | some file => job.source file.sourcePath
  | none => .ok []

/-- The bytes of a chunk, in the contents of its file. -/
def slice (held : Bytes) (chunk : ChunkPlan) : Bytes :=
  (held.drop chunk.offset.toNat).take chunk.length.toNat

def writeChunk (header : ChunkHeader) (data payload : Bytes) (flags : UInt16) :
    Except (Bytes × Ending) Emitted :=
  match writeFrame .chunk payload flags with
  | .error e => .error ([], .threw e)
  | .ok frame => .ok ⟨header, data, frame⟩

/-- A chunk by `sendfile`, behind a frame header that is written by hand. -/
def spliceChunk (held : Bytes) (counter : Nat) (chunk : ChunkPlan) :
    Except (Bytes × Ending) Emitted :=
  let header := chunk.header counter
  let length := UInt32.ofNat kChunkHeaderSize + chunk.length
  let front := encodeFrameHeader { type := .chunk, flags := 1, length := length } ++
    encodeChunkHeader header
  match sendfileAll held (job.ready counter) chunk.length.toNat chunk.offset.toNat
      chunk.length.toNat with
  | (data, some e) => .error (front ++ data, .threw e)
  | (data, none) => .ok ⟨header, data, front ++ data⟩

/-- A chunk copied out of the mapping of its file. -/
def copyChunk (held : Bytes) (counter : Nat) (chunk : ChunkPlan) : Except (Bytes × Ending) Emitted :=
  let header := chunk.header counter
  if held.length < chunk.offset.toNat + chunk.length.toNat then .error ([], .faulted)
  else writeChunk header (slice held chunk) (encodeChunkHeader header ++ slice held chunk) 1

/-- The body of the loop of `send_plaintext`, once the file is open. -/
def plainChunk (canSplice : Bool) (held : Bytes) (counter : Nat) (chunk : ChunkPlan) :
    Except (Bytes × Ending) Emitted :=
  if canSplice then job.spliceChunk held counter chunk else copyChunk held counter chunk

/-- The loop of `send_plaintext`: a file is opened when its first chunk comes up. -/
def plaintextFrom (canSplice : Bool) :
    (currentFile : UInt32) → (held : Bytes) → (counter : Nat) → List ChunkPlan → Emission
  | _, _, _, [] => .finish
  | currentFile, held, counter, chunk :: rest =>
    match if chunk.fileIndex ≠ currentFile then job.openFile chunk.fileIndex else .ok held with
    | .error e => .stop [] (.threw e)
    | .ok held =>
      match job.plainChunk canSplice held counter chunk with
      | .error (cut, ending) => .stop cut ending
      | .ok sent =>
        .after sent (plaintextFrom canSplice chunk.fileIndex held (counter + 1) rest)

/-- `send_plaintext`. -/
def sendPlaintext (canSplice : Bool) : Emission := job.plaintextFrom canSplice 0xffffffff [] 0 job.plan

/-- Mapping a file in `send_encrypted`, which compares its size. -/
def mapChecked (file : LocalFile) : Except Failure Bytes :=
  match job.source file.sourcePath with
  | .error e => .error e
  | .ok contents =>
    if contents.length ≠ file.size.toNat then
      .error (.userError (text "'" ++ file.sourcePath ++ text "' changed size while being sent"))
    else .ok contents

/-- Every file is mapped before anything is sent. -/
def mapAll : List LocalFile → Except Failure (List Bytes)
  | [] => .ok []
  | file :: files => do
    let mapping ← job.mapChecked file
    let rest ← mapAll files
    pure (mapping :: rest)

/-- The job that seals a chunk, and the writer's frame of it. -/
def sealChunk (mappings : List Bytes) (index : Nat) (chunk : ChunkPlan) :
    Except (Bytes × Ending) Emitted :=
  let header := chunk.header index
  let aad := encodeChunkHeader header
  let data := slice (mappings.getD chunk.fileIndex.toNat []) chunk
  writeChunk header data (aad ++ job.aead.sealBytes job.keys.algorithm job.keys.sendKey
    (buildNonce job.keys.sendNoncePrefix header.counter) aad data) 0

/-- `send_encrypted`. The emitter hands the chunks to the writer in the order of the plan. -/
def sendEncrypted : Emission :=
  match job.mapAll job.manifest.files with
  | .error e => .stop [] (.threw e)
  | .ok mappings => emitAll (job.sealChunk mappings) 0 job.plan

/-! ## Agreement -/

/-- All three emit the same chunks, the two plaintext variants in the same frames. -/
structure AllSend : Prop where
  splice : (job.sendPlaintext true).ending = .finished
  copy : job.sendPlaintext false = job.sendPlaintext true
  encrypted : job.sendEncrypted.ending = .finished
  contents : job.sendEncrypted.contents = (job.sendPlaintext true).contents

structure AllRefuse : Prop where
  splice : (job.sendPlaintext true).Refused
  copy : (job.sendPlaintext false).Refused
  encrypted : job.sendEncrypted.Refused

/-- Every file has the size that `build_manifest` found, and no chunk is too large for a frame. -/
structure Settled : Prop where
  chunk_ne : job.chunkSize ≠ 0
  unchanged : ∀ file ∈ job.manifest.files, ∃ contents,
    job.source file.sourcePath = .ok contents ∧ contents.length = file.size.toNat
  fits : ∀ file ∈ job.manifest.files, min job.chunkSize.toNat file.size.toNat ≤ kMaxChunkSize

/-- The file of the first chunk cannot be opened. -/
structure Missing : Prop where
  chunk_ne : job.chunkSize ≠ 0
  gone : ∃ chunk rest e, job.plan = chunk :: rest ∧ job.openFile chunk.fileIndex = .error e

end Model

end SendJob

/-! ## The loops -/

variable {plan : List ChunkPlan}

section Loop

variable {step : Nat → ChunkPlan → Except (Bytes × Ending) Emitted}

theorem emitAll_of_ok {f : Nat → ChunkPlan → Emitted}
    (h : ∀ chunk ∈ plan, ∀ k, step k chunk = .ok (f k chunk)) (index : Nat) :
    emitAll step index plan = ⟨(plan.zipIdx index).map fun p => f p.2 p.1, [], .finished⟩ := by
  induction plan generalizing index with
  | nil => rfl
  | cons chunk rest ih =>
    have hrest := ih (fun c hc => h c (List.mem_cons_of_mem _ hc)) (index + 1)
    simp only [emitAll, h chunk List.mem_cons_self, hrest, Emission.after, List.zipIdx_cons,
      List.map_cons]

theorem emitAll_finished (hfails : ∀ {k chunk cut}, step k chunk ≠ .error (cut, .finished)) {index : Nat}
    (h : (emitAll step index plan).ending = .finished) :
    ∀ chunk ∈ plan, ∃ k sent, step k chunk = .ok sent := by
  induction plan generalizing index with
  | nil => nofun
  | cons chunk rest ih =>
    rw [emitAll] at h
    cases hstep : step index chunk with
    | error failed =>
      obtain ⟨cut, ending⟩ := failed
      rw [hstep] at h
      obtain rfl : ending = .finished := h
      exact absurd hstep hfails
    | ok sent =>
      rw [hstep] at h
      exact List.forall_mem_cons.mpr ⟨⟨index, sent, hstep⟩, ih h⟩

/-- One call of `sendfile`: it moves the next bytes, at least one if there is one, and no more than
asked for. -/
theorem sendfile_spec (contents : Bytes) (position ready : Nat) {remaining : Nat} (h : remaining ≠ 0) :
    ∃ n, sendfile contents position (min remaining 0x7ffff000) ready =
        (contents.drop position).take n ∧ 0 < n ∧ n ≤ remaining :=
  ⟨_, rfl, by omega, by omega⟩

/-- Whatever the socket takes at a time, the bytes go out up to the end of the file. -/
theorem sendfileAll_eq (contents : Bytes) (ready : Nat → Nat) {fuel remaining : Nat}
    (hfuel : remaining ≤ fuel) (position : Nat) :
    sendfileAll contents ready fuel position remaining =
      ((contents.drop position).take remaining,
        if remaining ≤ contents.length - position then none else some .peerClosed) := by
  induction fuel generalizing position remaining with
  | zero =>
    obtain rfl : remaining = 0 := by omega
    simp [sendfileAll]
  | succ fuel ih =>
    unfold sendfileAll
    split
    · rename_i hzero
      simp [hzero]
    · rename_i hne
      obtain ⟨n, hsent, hpos, hle⟩ := sendfile_spec contents position (ready position) hne
      have hlen : ((contents.drop position).take n).length = min n (contents.length - position) := by
        rw [List.length_take, List.length_drop]
      dsimp only
      rw [hsent]
      split
      · -- The end of the file.
        rename_i hnil
        have hend : contents.length - position = 0 := by
          rw [hnil, List.length_nil] at hlen
          omega
        rw [List.drop_eq_nil_of_le (by omega), List.take_nil, if_neg (by omega)]
      · rename_i hcons
        have hsome : 0 < min n (contents.length - position) := by
          rw [← hlen]
          exact List.length_pos_iff.mpr hcons
        rw [ih (by omega), hlen]
        congr 1
        · have htake : (contents.drop position).take n =
              (contents.drop position).take (min n (contents.length - position)) := by
            rw [← List.length_drop, List.take_eq_take_min, Nat.min_comm]
          rw [htake, ← List.drop_drop, ← List.take_add]
          congr 1
          omega
        · refine if_congr ⟨fun h => ?_, fun h => ?_⟩ rfl rfl <;> omega

end Loop

namespace SendJob

variable {job : SendJob} {chunk : ChunkPlan} {mappings : List Bytes} {held : Bytes}

theorem mem_plan (h : chunk ∈ job.plan) :
    ∃ file, job.manifest.files[chunk.fileIndex.toNat]? = some file ∧
      PlannedFrom chunk.fileIndex file.size job.chunkSize 0 chunk :=
  mem_planChunks job.manifest.count_le h

/-- No chunk is of the file that `current_file` starts with. -/
theorem fileIndex_ne (h : chunk ∈ job.plan) : chunk.fileIndex ≠ 0xffffffff := by
  rintro heq
  obtain ⟨file, hfile, -⟩ := mem_plan h
  have hlt := (List.getElem?_eq_some_iff.mp hfile).1
  have hcount := job.manifest.count_le
  have hval : chunk.fileIndex.toNat = 4294967295 := by rw [heq]; rfl
  simp only [kMaxManifestEntries] at hcount
  omega

def reopen (job : SendJob) (canSplice : Bool) (counter : Nat) (chunk : ChunkPlan) :
    Except (Bytes × Ending) Emitted :=
  match job.openFile chunk.fileIndex with
  | .error e => .error ([], .threw e)
  | .ok held => job.plainChunk canSplice held counter chunk

/-- Keeping a file open from one chunk to the next makes no difference. -/
theorem plaintextFrom_eq (canSplice : Bool) (hplan : ∀ chunk ∈ plan, chunk ∈ job.plan)
    {currentFile : UInt32}
    (hheld : currentFile = 0xffffffff ∨ job.openFile currentFile = .ok held) (counter : Nat) :
    job.plaintextFrom canSplice currentFile held counter plan =
      emitAll (job.reopen canSplice) counter plan := by
  induction plan generalizing currentFile held counter with
  | nil => rfl
  | cons chunk rest ih =>
    have hopen : (if chunk.fileIndex ≠ currentFile then job.openFile chunk.fileIndex else .ok held) =
        job.openFile chunk.fileIndex := by
      split
      · rfl
      · rename_i hsame
        obtain rfl := not_not.mp hsame
        rcases hheld with hnone | hheld
        · exact absurd hnone (fileIndex_ne (hplan chunk List.mem_cons_self))
        · exact hheld.symm
    rw [plaintextFrom, hopen, emitAll, reopen]
    cases hfile : job.openFile chunk.fileIndex with
    | error e => rfl
    | ok contents =>
      dsimp only
      split
      · rfl
      · rw [ih (fun c hc => hplan c (List.mem_cons_of_mem _ hc)) (.inr hfile)]

theorem sendPlaintext_eq (job : SendJob) (canSplice : Bool) :
    job.sendPlaintext canSplice = emitAll (job.reopen canSplice) 0 job.plan :=
  plaintextFrom_eq canSplice (fun _ h => h) (.inl rfl) 0

/-! ## Files that kept their sizes -/

def contentsOf (job : SendJob) (file : LocalFile) : Bytes := (job.source file.sourcePath).toOption.getD []

/-- The contents of the file of a chunk. -/
def contentsAt (job : SendJob) (chunk : ChunkPlan) : Bytes :=
  (job.manifest.files.map job.contentsOf).getD chunk.fileIndex.toNat []

theorem length_slice (h : chunk.offset.toNat + chunk.length.toNat ≤ held.length) :
    (slice held chunk).length = chunk.length.toNat := by
  rw [slice, List.length_take, List.length_drop]
  omega

def plainEmitted (held : Bytes) (counter : Nat) (chunk : ChunkPlan) : Emitted :=
  let header := chunk.header counter
  ⟨header, slice held chunk, frameBytes .chunk (encodeChunkHeader header ++ slice held chunk) 1⟩

/-- A chunk inside its file that is not too large goes out the same either way. -/
theorem plainChunk_eq (canSplice : Bool) (counter : Nat)
    (hinside : chunk.offset.toNat + chunk.length.toNat ≤ held.length)
    (hfits : chunk.length.toNat ≤ kMaxChunkSize) :
    job.plainChunk canSplice held counter chunk = .ok (plainEmitted held counter chunk) := by
  have hlen := length_slice hinside
  have hpayload : (encodeChunkHeader (chunk.header counter) ++ slice held chunk).length =
      kChunkHeaderSize + chunk.length.toNat := by
    rw [List.length_append, length_encodeChunkHeader, hlen]
  simp only [kMaxChunkSize, kMaxFrameLength, kChunkHeaderSize, kAeadTagSize] at hfits
  cases canSplice with
  | true =>
    have hlength : UInt32.ofNat kChunkHeaderSize + chunk.length =
        UInt32.ofNat (encodeChunkHeader (chunk.header counter) ++ slice held chunk).length := by
      rw [hpayload, UInt32.ofNat_add, UInt32.ofNat_toNat]
    simp only [plainChunk, spliceChunk, if_true, sendfileAll_eq held _ (Nat.le_refl _)]
    rw [if_pos (by omega), hlength]
    simp only [plainEmitted, frameBytes, slice, List.append_assoc]
  | false =>
    have hsmall : ¬ (encodeChunkHeader (chunk.header counter) ++ slice held chunk).length >
        kMaxFrameLength := by
      rw [hpayload]
      simp only [kMaxFrameLength, kChunkHeaderSize]
      omega
    simp only [plainChunk, copyChunk, Bool.false_eq_true, if_false, if_neg (Nat.not_lt.mpr hinside),
      writeChunk, writeFrame, if_neg hsmall, plainEmitted]

def sealedEmitted (job : SendJob) (held : Bytes) (index : Nat) (chunk : ChunkPlan) : Emitted :=
  let header := chunk.header index
  let aad := encodeChunkHeader header
  ⟨header, slice held chunk, frameBytes .chunk (aad ++ job.aead.sealBytes job.keys.algorithm
    job.keys.sendKey (buildNonce job.keys.sendNoncePrefix header.counter) aad (slice held chunk)) 0⟩

theorem sealChunk_eq (index : Nat)
    (hheld : mappings.getD chunk.fileIndex.toNat [] = held)
    (hinside : chunk.offset.toNat + chunk.length.toNat ≤ held.length)
    (hfits : chunk.length.toNat ≤ kMaxChunkSize) :
    job.sealChunk mappings index chunk = .ok (job.sealedEmitted held index chunk) := by
  have hsmall : ∀ nonce, ¬ (encodeChunkHeader (chunk.header index) ++ job.aead.sealBytes
      job.keys.algorithm job.keys.sendKey nonce (encodeChunkHeader (chunk.header index))
      (slice held chunk)).length > kMaxFrameLength := by
    intro nonce
    rw [List.length_append, length_encodeChunkHeader, job.aead.length_seal, length_slice hinside]
    simp only [kMaxChunkSize, kMaxFrameLength, kChunkHeaderSize, kAeadTagSize] at hfits ⊢
    omega
  simp only [sealChunk, hheld, writeChunk, writeFrame, if_neg (hsmall _), sealedEmitted]

/-- A chunk inside its file that `write_frame` took was not too large. -/
theorem length_le_of_sealChunk {index : Nat} {sent : Emitted}
    (hinside : chunk.offset.toNat + chunk.length.toNat ≤ (mappings.getD chunk.fileIndex.toNat []).length)
    (h : job.sealChunk mappings index chunk = .ok sent) : chunk.length.toNat ≤ kMaxChunkSize := by
  unfold sealChunk writeChunk writeFrame at h
  dsimp only at h
  split at h
  · cases h
  · rename_i hframe
    split at hframe
    · cases hframe
    · rename_i hsmall
      rw [List.length_append, length_encodeChunkHeader, job.aead.length_seal, length_slice hinside] at hsmall
      simp only [kMaxChunkSize, kMaxFrameLength, kChunkHeaderSize, kAeadTagSize] at hsmall ⊢
      omega

theorem sealChunk_fails {index : Nat} {cut : Bytes} :
    job.sealChunk mappings index chunk ≠ .error (cut, .finished) := by
  unfold sealChunk writeChunk
  dsimp only
  split <;> simp

/-- The file of a chunk, in a manifest whose files did not change. -/
theorem inside_of_unchanged (h : ∀ file ∈ job.manifest.files, ∃ contents,
      job.source file.sourcePath = .ok contents ∧ contents.length = file.size.toNat) (hc : chunk ∈ job.plan) :
    job.openFile chunk.fileIndex = .ok (job.contentsAt chunk) ∧
      chunk.offset.toNat + chunk.length.toNat ≤ (job.contentsAt chunk).length := by
  obtain ⟨file, hfile, hplanned⟩ := mem_plan hc
  obtain ⟨contents, hsource, hlen⟩ := h file (List.mem_of_getElem? hfile)
  have hat : job.contentsAt chunk = contents := by
    simp [contentsAt, contentsOf, hfile, hsource, Except.toOption]
  refine ⟨?_, ?_⟩
  · rw [openFile, hfile, hat]
    exact hsource
  · rw [hat, hlen]
    exact hplanned.inside

theorem Settled.length_le (h : job.Settled) (hc : chunk ∈ job.plan) :
    chunk.length.toNat ≤ kMaxChunkSize := by
  obtain ⟨file, hfile, hplanned⟩ := mem_plan hc
  have hinside := hplanned.inside
  have hle := hplanned.length_le
  have hfits := h.fits file (List.mem_of_getElem? hfile)
  omega

theorem Settled.sendPlaintext (h : job.Settled) (canSplice : Bool) :
    job.sendPlaintext canSplice =
      ⟨job.plan.zipIdx.map fun p => plainEmitted (job.contentsAt p.1) p.2 p.1, [], .finished⟩ := by
  rw [sendPlaintext_eq]
  refine emitAll_of_ok (f := fun k chunk => plainEmitted (job.contentsAt chunk) k chunk) ?_ 0
  intro chunk hc k
  obtain ⟨hopen, hinside⟩ := inside_of_unchanged h.unchanged hc
  rw [reopen, hopen]
  exact plainChunk_eq canSplice k hinside (h.length_le hc)

theorem mapChecked_eq_ok {file : LocalFile} {contents : Bytes} : job.mapChecked file = .ok contents ↔
    job.source file.sourcePath = .ok contents ∧ contents.length = file.size.toNat := by
  rw [mapChecked]
  cases job.source file.sourcePath with
  | error => simp
  | ok held =>
    by_cases hsize : held.length = file.size.toNat
    · simp only [hsize, ne_eq, not_true_eq_false, if_false, Except.ok.injEq]
      exact ⟨fun h => ⟨h, h ▸ hsize⟩, And.left⟩
    · simp only [hsize, ne_eq, not_false_eq_true, if_true, reduceCtorEq, Except.ok.injEq, false_iff, not_and]
      rintro rfl
      exact hsize

/-- `send_encrypted` starts only if every file has its size. -/
theorem mapAll_eq_ok {files : List LocalFile} :
    job.mapAll files = .ok mappings ↔ mappings = files.map job.contentsOf ∧
      ∀ file ∈ files, ∃ contents,
        job.source file.sourcePath = .ok contents ∧ contents.length = file.size.toNat := by
  induction files generalizing mappings with
  | nil => simp [mapAll, eq_comm]
  | cons file files ih =>
    rw [mapAll, List.forall_mem_cons]
    constructor
    · intro h
      obtain ⟨mapping, hmap, h⟩ := Parser.bind_eq_ok.mp h
      obtain ⟨rest, hrest, h⟩ := Parser.bind_eq_ok.mp h
      cases h
      obtain ⟨hsource, hlength⟩ := mapChecked_eq_ok.mp hmap
      obtain ⟨rfl, hfiles⟩ := ih.mp hrest
      exact ⟨by rw [List.map_cons, contentsOf, hsource]; rfl, ⟨mapping, hsource, hlength⟩, hfiles⟩
    · rintro ⟨rfl, ⟨mapping, hsource, hlength⟩, hfiles⟩
      rw [mapChecked_eq_ok.mpr ⟨hsource, hlength⟩, ih.mpr ⟨rfl, hfiles⟩, List.map_cons, contentsOf, hsource]
      rfl

theorem Settled.sendEncrypted (h : job.Settled) :
    job.sendEncrypted =
      ⟨job.plan.zipIdx.map fun p => job.sealedEmitted (job.contentsAt p.1) p.2 p.1, [], .finished⟩ := by
  have hmap := mapAll_eq_ok.mpr ⟨rfl, h.unchanged⟩
  rw [SendJob.sendEncrypted, hmap]
  refine emitAll_of_ok (f := fun k chunk => job.sealedEmitted (job.contentsAt chunk) k chunk) ?_ 0
  intro chunk hc k
  exact sealChunk_eq k rfl (inside_of_unchanged h.unchanged hc).2 (h.length_le hc)

theorem Settled.allSend (h : job.Settled) : job.AllSend where
  splice := by rw [h.sendPlaintext]
  copy := by rw [h.sendPlaintext, h.sendPlaintext]
  encrypted := by rw [h.sendEncrypted]
  contents := by
    rw [h.sendPlaintext, h.sendEncrypted]
    simp only [Emission.contents, List.map_map]
    rfl

theorem exists_chunk (job : SendJob) {i : Nat} {file : LocalFile}
    (h : job.manifest.files[i]? = some file) (hsize : file.size ≠ 0) :
    ∃ chunk ∈ job.plan, chunk.length.toNat = min job.chunkSize.toNat file.size.toNat := by
  have hpos : 0 < file.size.toNat := Nat.pos_of_ne_zero fun hzero => hsize (UInt64.toNat.inj hzero)
  obtain ⟨fuel, hfuel⟩ := Nat.exists_eq_succ_of_ne_zero hpos.ne'
  have hlt : (0 : UInt64) < file.size := UInt64.lt_iff_toNat_lt.mpr hpos
  refine ⟨⟨UInt32.ofNat i, 0, (minU64 job.chunkSize.toUInt64 (file.size - 0)).toUInt32⟩,
    List.mem_flatMap.mpr ⟨(file, i), List.mem_zipIdx_iff_getElem?.mpr h, ?_⟩, ?_⟩
  · simp only [hfuel, planFile, hlt, if_true]
    exact List.mem_cons_self
  · exact (planFile_step job.chunkSize file.size_lt hlt).1

/-- The encrypted sender finishes only where every file has its size and every chunk fits into a frame. -/
theorem Settled.of_sendEncrypted (hchunk : job.chunkSize ≠ 0) (h : job.sendEncrypted.ending = .finished) :
    job.Settled := by
  rw [SendJob.sendEncrypted] at h
  cases hmap : job.mapAll job.manifest.files with
  | error e =>
    rw [hmap] at h
    cases h
  | ok mappings =>
    rw [hmap] at h
    obtain ⟨rfl, hunchanged⟩ := mapAll_eq_ok.mp hmap
    refine ⟨hchunk, hunchanged, fun file hfile => ?_⟩
    obtain ⟨i, hi⟩ := List.mem_iff_getElem?.mp hfile
    by_cases hsize : file.size = 0
    · simp [hsize]
    · obtain ⟨chunk, hc, hlength⟩ := exists_chunk job hi hsize
      obtain ⟨k, sent, hsent⟩ := emitAll_finished sealChunk_fails h chunk hc
      rw [← hlength]
      exact length_le_of_sealChunk (inside_of_unchanged hunchanged hc).2 hsent

/-! ## A file that is gone -/

theorem Missing.sendPlaintext (h : job.Missing) (canSplice : Bool) :
    (job.sendPlaintext canSplice).Refused := by
  obtain ⟨chunk, rest, e, hplan, hgone⟩ := h.gone
  refine ⟨e, ?_⟩
  rw [sendPlaintext_eq, hplan, emitAll, reopen, hgone]

theorem Missing.sendEncrypted (h : job.Missing) : job.sendEncrypted.Refused := by
  rw [SendJob.sendEncrypted]
  cases hmap : job.mapAll job.manifest.files with
  | error e => exact ⟨e, rfl⟩
  | ok mappings =>
    obtain ⟨chunk, rest, e, hplan, hgone⟩ := h.gone
    have hchunk : chunk ∈ job.plan := hplan ▸ List.mem_cons_self
    obtain ⟨file, hfile, -⟩ := mem_plan hchunk
    obtain ⟨contents, hsource, -⟩ := (mapAll_eq_ok.mp hmap).2 file (List.mem_of_getElem? hfile)
    rw [openFile, hfile] at hgone
    cases hsource.symm.trans hgone

/-- The splicing sender refuses only where it cannot open its first file: a chunk that it has begun is on the
channel in part. -/
theorem Missing.of_splice (hchunk : job.chunkSize ≠ 0) (h : (job.sendPlaintext true).Refused) :
    job.Missing := by
  obtain ⟨e, he⟩ := h
  rw [sendPlaintext_eq] at he
  refine ⟨hchunk, ?_⟩
  cases hplan : job.plan with
  | nil =>
    rw [hplan] at he
    cases congrArg Emission.ending he
  | cons chunk rest =>
    rw [hplan, emitAll, reopen] at he
    cases hopen : job.openFile chunk.fileIndex with
    | error e' => exact ⟨chunk, rest, e', rfl, hopen⟩
    | ok held =>
      rw [hopen] at he
      simp only [plainChunk, if_true, spliceChunk] at he
      split at he
      · rename_i cut ending hfails
        split at hfails
        · cases hfails
          have hempty := congrArg List.length (congrArg Emission.cut he)
          simp [Emission.stop, length_encodeFrameHeader] at hempty
        · cases hfails
      · cases congrArg Emission.chunks he

end SendJob

/-! ## The frames that the threads write -/

namespace Sending

/-- The same transfer, over files that did not change. -/
def job (t : Sending) (ready : Nat → Nat → Nat) : SendJob where
  aead := t.aead
  keys := t.keys
  manifest := t.manifest
  chunkSize := t.chunkSize
  source path := .ok (t.source path)
  ready := ready

variable {t : Sending} {ready : Nat → Nat → Nat}

theorem job_settled : (t.job ready).Settled where
  chunk_ne := t.chunk_usable.1
  unchanged file hfile := ⟨_, rfl, t.unchanged file hfile⟩
  fits _ _ := Nat.le_trans (Nat.min_le_left _ _) t.chunk_usable.2

theorem job_contentsAt (chunk : ChunkPlan) :
    (t.job ready).contentsAt chunk = t.contents chunk.fileIndex.toNat := by
  rw [contents, SendJob.contentsAt, List.getD_eq_getElem?_getD, List.getElem?_map]
  change (t.manifest.files[chunk.fileIndex.toNat]?.map (t.job ready).contentsOf).getD [] = _
  cases t.manifest.files[chunk.fileIndex.toNat]? <;> rfl

def emission (t : Sending) (ready : Nat → Nat → Nat) (canSplice : Bool) : Emission :=
  if t.encrypt then (t.job ready).sendEncrypted else (t.job ready).sendPlaintext canSplice

/-- The frames of a transfer are the offer, the chunks that its sender emits, and the end. -/
theorem wire_eq (t : Sending) (ready : Nat → Nat → Nat) (canSplice : Bool) :
    t.wire = (Frame.of .offer t.offerPayload t.keys.algorithm.tag).bytes ::
      ((t.emission ready canSplice).chunks.map Emitted.frame ++ [(Frame.of .transferEnd []).bytes]) := by
  have hchunks : (t.emission ready canSplice).chunks.map Emitted.frame =
      t.plan.zipIdx.map fun p => (Frame.of .chunk (t.chunkPayload p.2 p.1) t.chunkFlags).bytes := by
    unfold emission chunkPayload chunkFlags
    cases t.encrypt with
    | true =>
      rw [if_pos rfl, job_settled.sendEncrypted, List.map_map]
      refine List.map_congr_left fun p _ => ?_
      simp only [Function.comp_apply, SendJob.sealedEmitted, job_contentsAt]
      rfl
    | false =>
      rw [if_neg Bool.false_ne_true, job_settled.sendPlaintext, List.map_map]
      refine List.map_congr_left fun p _ => ?_
      simp only [Function.comp_apply, SendJob.plainEmitted, job_contentsAt]
      rfl
  simp only [wire, frames, List.map_cons, List.map_append, List.map_map, List.map_nil, hchunks]
  rfl

end Sending

/-! ## Whether the three agree -/

/-- The three senders emit the same chunks exactly if the files kept their sizes and the chunks fit, and all
three refuse exactly if the first file that they open is gone. -/
theorem senders_agree (job : SendJob) (hchunk : job.chunkSize ≠ 0) :
    (job.AllSend ↔ job.Settled) ∧ (job.AllRefuse ↔ job.Missing) := by
  refine ⟨⟨fun h => .of_sendEncrypted hchunk h.encrypted, fun h => h.allSend⟩,
    ⟨fun h => .of_splice hchunk h.splice, fun h => ?_⟩⟩
  exact ⟨h.sendPlaintext true, h.sendPlaintext false, h.sendEncrypted⟩

/-- `clearSending`'s files, sent a byte at a time, and all of them gone. -/
theorem senders_agree_clear : (clearSending.job fun _ _ => 0).AllSend ∧
    { clearSending.job fun _ _ => 0 with source := fun _ => .error .peerClosed }.AllRefuse := by
  refine ⟨(senders_agree _ (by decide)).1.mpr Sending.job_settled, (senders_agree _ ?_).2.mpr ⟨?_, ?_⟩⟩
  · decide
  · decide
  · exact ⟨_, _, .peerClosed, rfl, rfl⟩

/-- The files of `clearSending`, each longer by a byte than it was. -/
def grownJob : SendJob := { clearSending.job fun _ _ => 0 with source := fun _ => .ok [7, 9, 11] }

/-- A file that grew is sent by both plaintext variants, and refused by the encrypted one. -/
theorem grown_file_sent :
    (grownJob.sendPlaintext true).ending = .finished ∧ (grownJob.sendPlaintext false).ending = .finished ∧
      grownJob.sendEncrypted =
        .stop [] (.threw (.userError (text "'/out/f' changed size while being sent"))) ∧
      ¬ (grownJob.AllSend ∨ grownJob.AllRefuse) := by
  have hsplice : (grownJob.sendPlaintext true).ending = .finished := by decide
  have hcopy : (grownJob.sendPlaintext false).ending = .finished := by decide
  have hencrypted : grownJob.sendEncrypted =
      .stop [] (.threw (.userError (text "'/out/f' changed size while being sent"))) := by decide
  refine ⟨hsplice, hcopy, hencrypted, ?_⟩
  rintro (hsend | hrefuse)
  · have hfinished := hsend.encrypted
    rw [hencrypted] at hfinished
    cases hfinished
  · obtain ⟨e, he⟩ := hrefuse.splice
    rw [he] at hsplice
    cases hsplice

end DropZone
