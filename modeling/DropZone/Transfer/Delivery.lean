import DropZone.Transfer.Confirmation
import DropZone.Transfer.Pipeline

/-!
# A receiver of the sender's own frames

What the receiver does with the frames of a transfer when nothing fails.

* `Sending.plan_total`: the chunks of a file add up to it.
* `Honest t c`: the two ends of an undisturbed transfer.
* `Receiver.Sound`: every chunk accepted is the sender's; `Sound.step` and `Sound.read`: every step
  keeps it and leaves less to do.
* `Sound.progress`: unless it waits for a frame or has acknowledged, some thread can go on.
-/

namespace DropZone

open LittleEndian Parser Pieces Stream System

/-! ## The chunks of one file -/

namespace Sending

variable {t : Sending}

/-- The chunks that the loop plans for one file, by its position. -/
def chunksOf (chunkSize : UInt32) (p : LocalFile × Nat) : List ChunkPlan :=
  planFile (UInt32.ofNat p.2) p.1.size chunkSize p.1.size.toNat 0

theorem chunksOf_index {chunkSize : UInt32} {p : LocalFile × Nat} (hp : p.2 < 2 ^ 32)
    {chunk : ChunkPlan} (h : chunk ∈ chunksOf chunkSize p) : chunk.fileIndex.toNat = p.2 := by
  rw [(mem_planFile p.1.size_lt h).index_eq, UInt32.toNat_ofNat', Nat.mod_eq_of_lt hp]

theorem filter_chunks_nil {chunkSize : UInt32} {ps : List (LocalFile × Nat)} {i : Nat}
    (h : ∀ p ∈ ps, p.2 < 2 ^ 32 ∧ p.2 ≠ i) :
    (ps.flatMap (chunksOf chunkSize)).filter (·.fileIndex.toNat = i) = [] := by
  rw [List.filter_eq_nil_iff]
  intro chunk hchunk
  obtain ⟨p, hp, hmem⟩ := List.mem_flatMap.mp hchunk
  rw [chunksOf_index (h p hp).1 hmem]
  simpa using (h p hp).2

theorem plan_total {i : Nat} {file : LocalFile} (h : t.manifest.files[i]? = some file) :
    total ((t.plan.filter (·.fileIndex.toNat = i)).map ChunkPlan.span) = file.size.toNat := by
  obtain ⟨hi, hget⟩ := List.getElem?_eq_some_iff.mp h
  have hcount := t.manifest.count_le
  simp only [kMaxManifestEntries] at hcount
  have hsplit : t.manifest.files.zipIdx =
      (t.manifest.files.take i).zipIdx ++ (file, i) :: (t.manifest.files.drop (i + 1)).zipIdx (i + 1) := by
    have hfiles : t.manifest.files =
        t.manifest.files.take i ++ file :: t.manifest.files.drop (i + 1) := by
      rw [← hget, ← List.drop_eq_getElem_cons hi, List.take_append_drop]
    conv_lhs => rw [hfiles]
    rw [List.zipIdx_append, List.zipIdx_cons, List.length_take_of_le (Nat.le_of_lt hi), Nat.zero_add]
  have hplan : t.plan = t.manifest.files.zipIdx.flatMap (chunksOf t.chunkSize) := rfl
  have hbefore : ∀ p ∈ (t.manifest.files.take i).zipIdx, p.2 < 2 ^ 32 ∧ p.2 ≠ i := by
    rintro ⟨f, j⟩ hp
    have hj := (List.getElem?_eq_some_iff.mp (List.mem_zipIdx_iff_getElem?.mp hp)).1
    rw [List.length_take] at hj
    dsimp only
    omega
  have hafter : ∀ p ∈ (t.manifest.files.drop (i + 1)).zipIdx (i + 1), p.2 < 2 ^ 32 ∧ p.2 ≠ i := by
    rintro ⟨f, j⟩ hp
    obtain ⟨hle, hlt, -⟩ := List.mem_zipIdx hp
    rw [List.length_drop] at hlt
    dsimp only
    omega
  have hown : (chunksOf t.chunkSize (file, i)).filter (·.fileIndex.toNat = i) =
      chunksOf t.chunkSize (file, i) := by
    rw [List.filter_eq_self]
    intro chunk hchunk
    exact decide_eq_true (chunksOf_index (by dsimp only; omega) hchunk)
  rw [hplan, hsplit, List.flatMap_append, List.flatMap_cons, List.filter_append, List.filter_append,
    filter_chunks_nil hbefore, filter_chunks_nil hafter, hown, List.nil_append, List.append_nil]
  have htotal : total ((planFile (UInt32.ofNat i) file.size t.chunkSize file.size.toNat 0).map
      ChunkPlan.span) = file.size.toNat - (0 : UInt64).toNat :=
    planFile_total t.chunk_usable.1 file.size_lt (by simp)
  simpa [chunksOf] using htotal

/-- The file and the span of the chunk at an index. -/
def place (t : Sending) (n : Nat) : Nat × Span :=
  match t.plan[n]? with
  | some chunk => (chunk.fileIndex.toNat, chunk.span)
  | none => (0, 0, 0)

theorem map_place (t : Sending) : (List.range t.plan.length).map t.place =
    t.plan.map fun chunk => (chunk.fileIndex.toNat, chunk.span) := by
  apply List.ext_getElem?
  intro n
  rw [List.getElem?_map, List.getElem?_map]
  rcases Nat.lt_or_ge n t.plan.length with hlt | hge
  · rw [List.getElem?_range hlt, List.getElem?_eq_getElem hlt, Option.map_some, Option.map_some,
      place, List.getElem?_eq_getElem hlt]
  · rw [List.getElem?_eq_none (by simpa using hge), List.getElem?_eq_none hge]
    rfl

end Sending

theorem Receiver.total_spans {s : Receiver} {t : Sending}
    (hlog : ∀ w ∈ s.log, ∃ chunk, w.Of t chunk)
    (hperm : (s.log.map ChunkWrite.number).Perm (List.range t.plan.length)) {i : Nat}
    {file : LocalFile} (hfile : t.manifest.files[i]? = some file) :
    total (spans s.log i) = file.size.toNat := by
  have hplace : s.log.map (fun w => (w.file, w.offset, w.data.length)) =
      (s.log.map ChunkWrite.number).map t.place := by
    rw [List.map_map]
    refine List.map_congr_left fun w hw => ?_
    obtain ⟨chunk, hof⟩ := hlog w hw
    have hlen := (Sending.chunkData_piece (List.mem_of_getElem? hof.planned)).1
    simp only [Function.comp_apply, Sending.place, hof.planned, ChunkPlan.span, hof.file_eq,
      hof.offset_eq, hof.data_eq, hlen]
  have hspans : spans s.log i = ((s.log.map fun w => (w.file, w.offset, w.data.length)).filter
      (·.1 = i)).map Prod.snd := by
    simp [spans, pieces, List.filter_map, Function.comp_def]
  have hplan : (t.plan.filter (·.fileIndex.toNat = i)).map ChunkPlan.span =
      ((t.plan.map fun chunk => (chunk.fileIndex.toNat, chunk.span)).filter (·.1 = i)).map
        Prod.snd := by
    simp [List.filter_map, Function.comp_def]
  rw [← Sending.plan_total hfile, hspans, hplan, hplace, ← Sending.map_place]
  exact total_perm (((hperm.map t.place).filter _).map _)

/-! ## The two ends -/

/-- The receiver's answer to the offer. -/
def Receiving.decision (c : Receiving) : TransferDecision :=
  { accepted := true, outputDirectory := c.directory }

/-- The frames that the receiver writes. -/
def Receiving.replies (c : Receiving) : List Frame :=
  [Frame.of .decision c.decision.encode, Frame.of .transferAck []]

/-- The two ends of an undisturbed transfer: they share the session's keys, the cipher undoes what it
seals, the offer fits in a frame, and neither end refuses to go without encryption. -/
structure Honest (t : Sending) (c : Receiving) : Prop where
  keys : t.keys.Mirror c.keys
  cipher : c.aead = t.aead
  undoes : t.aead.Undoes
  hash : c.sha256 = t.sha256
  offer_fits : t.offerPayload.length ≤ kMaxFrameLength
  /-- A directory that the system can open has a shorter path. -/
  directory_fits : c.decision.encode.length ≤ kMaxFrameLength
  paths : (t.manifest.files.map LocalFile.relativePath).Nodup
  encrypted : t.encrypt = true ∨
    t.overRelay = false ∧ c.overRelay = false ∧ c.requireEncryption = false

/-- The step makes no call that fails, and receives nothing from outside. -/
def ReceiverEvent.Works : ReceiverEvent → Prop
  | .arrive _ | .lost _ => False
  | .read calls | .finish _ calls | .drain calls => calls = {}
  | .submit | .take => True

theorem length_encode_decision (d : TransferDecision) :
    d.encode.length = d.reason.length + d.outputDirectory.length + 9 := by
  simp [TransferDecision.encode, putBool, putString, putBytes, putU8, putU32]
  omega

theorem Honest.decode_decision {t : Sending} {c : Receiving} (h : Honest t c) :
    TransferDecision.decode c.decision.encode = .ok c.decision := by
  have hfits := h.directory_fits
  rw [length_encode_decision] at hfits
  simp only [kMaxFrameLength, Receiving.decision] at hfits
  refine TransferDecision.decode_encode ?_ ?_
  · simp [Receiving.decision]
  · simp only [Receiving.decision]
    omega

theorem Honest.reads_replies {t : Sending} {c : Receiving} (h : Honest t c) :
    ∀ f ∈ c.replies, Reads (readFrame .peerClosed) f.bytes f := by
  intro f hf
  rcases List.mem_cons.mp hf with rfl | hf
  · exact reads_readFrame .peerClosed trivial (writeFrame_eq h.directory_fits _ _)
  · cases List.mem_singleton.mp hf
    exact reads_readFrame .peerClosed trivial (writeFrame_eq (Nat.zero_le _) _ _)

/-! ## What the receiver makes of each frame -/

variable {entries : List ManifestEntry} {job : OpenJob}

section Frames

variable {t : Sending} {c : Receiving}

theorem ofTag?_tag (a : AeadAlgorithm) : AeadAlgorithm.ofTag? a.tag = some a := by
  cases a <;> rfl

theorem Honest.readOffer (h : Honest t c) :
    readOffer c (Frame.of .offer t.offerPayload t.keys.algorithm.tag) = .ok t.offer := by
  have hopen : openStandalone c.aead t.keys.algorithm c.keys.offerKey kInfoOfferKey t.offerPayload =
      some t.offer.encode := by
    rw [h.cipher, ← h.keys.offer_key]
    exact openStandalone_seal h.undoes ..
  have hexpect : Channel.expect .offer (Frame.of .offer t.offerPayload t.keys.algorithm.tag) =
      .ok (Frame.of .offer t.offerPayload t.keys.algorithm.tag) := rfl
  unfold DropZone.readOffer
  rw [hexpect]
  simp only [Frame.of, bind, Except.bind, ofTag?_tag, hopen]
  exact TransferOffer.decode_encode t.offer_wellFormed

theorem Honest.refusal (h : Honest t c) : Receiver.refusal c t.offer = none := by
  have henc : t.offer.encryptPayload = t.encrypt := rfl
  rcases h.encrypted with he | ⟨-, hrelay, hrequire⟩
  · simp [Receiver.refusal, henc, he]
  · simp [Receiver.refusal, hrelay, hrequire]

theorem resolveOutputPaths_of_safe {directory : Bytes}
    (h : ∀ entry ∈ entries, isSafeRelativePath entry.path = true) :
    resolveOutputPaths directory entries =
      .ok (entries.map fun entry => joinPath directory entry.path) := by
  induction entries with
  | nil => rfl
  | cons entry entries ih =>
    unfold resolveOutputPaths
    rw [if_pos (h entry List.mem_cons_self), ih fun e he => h e (List.mem_cons_of_mem _ he)]
    rfl

theorem openOutputs_of_sizes
    (h : ∀ entry ∈ entries, entry.size.toNat < 2 ^ 63) (i : Nat) (paths : List Bytes) (disk : Disk) :
    ∃ files disk', openOutputs {} i entries paths disk = .ok (files, disk') := by
  induction entries generalizing i paths disk with
  | nil =>
    unfold openOutputs
    exact ⟨_, _, rfl⟩
  | cons entry entries ih =>
    cases paths with
    | nil => exact ⟨_, _, rfl⟩
    | cons path paths =>
      obtain ⟨files, disk', hrec⟩ := ih (fun e he => h e (List.mem_cons_of_mem _ he)) (i + 1) paths
        (Function.update disk path (List.replicate entry.size.toNat 0))
      have hsize := h entry List.mem_cons_self
      refine ⟨{ path := path, expectedSize := entry.size, mode := entry.mode } :: files, disk', ?_⟩
      show (if 2 ^ 63 ≤ entry.size.toNat then _ else _) = _
      rw [if_neg (by omega), hrec]
      rfl

/-- The offer is accepted, and answered. -/
theorem Honest.start (h : Honest t c) (s : Receiver) :
    ∃ files disk, s.start c {} t.offer =
      { s with
        sent := s.sent ++ (Frame.of .decision c.decision.encode).bytes
        phase := .reading, offer := some t.offer, files := files, disk := disk } := by
  have hentries : ∀ entry ∈ t.offer.entries,
      isSafeRelativePath entry.path = true ∧ entry.size.toNat < 2 ^ 63 := by
    intro entry hentry
    obtain ⟨file, hfile, rfl⟩ := List.mem_map.mp hentry
    exact ⟨t.manifest.safe file hfile, file.size_lt⟩
  obtain ⟨files, disk, hopen⟩ := openOutputs_of_sizes (fun e he => (hentries e he).2) 0
    (t.offer.entries.map fun entry => joinPath c.directory entry.path) s.disk
  have hwrite : writeFrame .decision c.decision.encode 0 =
      .ok (Frame.of .decision c.decision.encode).bytes :=
    writeFrame_eq h.directory_fits _ _
  refine ⟨files, disk, ?_⟩
  unfold Receiver.start
  rw [h.refusal]
  simp only [resolveOutputPaths_of_safe fun e he => (hentries e he).1, Bool.not_true,
    Bool.and_false, Bool.false_eq_true, if_false, hopen]
  change Receiver.orFail s (writeFrame .decision c.decision.encode >>= _) _ = _
  rw [hwrite]
  rfl

variable {s : Receiver} {chunk : ChunkPlan}

theorem validateChunk_planned (hcounted : s.Counted c) (hoffer : s.offer = some t.offer)
    (hchunk : chunk ∈ t.plan) (k : Nat) :
    validateChunk (chunk.header k) s.files (UInt64.ofNat k) t.offer.chunkSize = .ok () := by
  obtain ⟨file, hfile, hplanned⟩ := Sending.mem_plan hchunk
  obtain ⟨entry, hentry, hsize, -⟩ := Sending.entries_getElem? hfile
  obtain ⟨out, hout, houtsize, -⟩ := hcounted.output hoffer hentry
  have hle : ¬ (chunk.header k).plaintextLength > t.offer.chunkSize := by
    rw [gt_iff_lt, UInt32.lt_iff_toNat_lt]
    exact Nat.not_lt.mpr hplanned.length_le
  have hinside : ¬ (chunk.header k).offset + (chunk.header k).plaintextLength.toUInt64 >
      out.expectedSize := by
    have hbound := hplanned.inside
    have hfits := file.size_lt
    rw [gt_iff_lt, UInt64.lt_iff_toNat_lt, UInt64.toNat_add, UInt32.toNat_toUInt64, houtsize, hsize]
    show ¬ file.size.toNat < (chunk.offset.toNat + chunk.length.toNat) % 2 ^ 64
    rw [Nat.mod_eq_of_lt (by omega)]
    exact Nat.not_lt.mpr hbound
  have hcounter : ¬ (chunk.header k).counter ≠ UInt64.ofNat k := not_not.mpr rfl
  have hget : s.files[(chunk.header k).fileIndex.toNat]? = some out := hout
  unfold validateChunk
  rw [hget]
  dsimp only
  rw [if_neg hle, if_neg hcounter, if_neg hinside]

theorem pwriteAll_planned (hchunk : chunk ∈ t.plan) :
    pwriteAll {} (t.chunkData chunk) chunk.offset = .ok () := by
  obtain ⟨file, -, hplanned⟩ := Sending.mem_plan hchunk
  have hbound := hplanned.inside
  have hfits := file.size_lt
  unfold pwriteAll
  split
  · rfl
  · rw [if_neg (by omega)]

/-- A job of the sender's chunk. -/
structure OpenJob.Of (t : Sending) (job : OpenJob) (chunk : ChunkPlan) : Prop where
  planned : t.plan[job.number]? = some chunk
  header_eq : job.header = chunk.header job.number
  sealed_eq : job.sealed = t.sealedPayload job.number chunk

/-- The sender's chunk opens. -/
theorem OpenJob.Of.run (h : Honest t c) (hjob : job.Of t chunk) :
    job.run c {} t.keys.algorithm = .plain (t.chunkData chunk) := by
  have hlen := (Sending.chunkData_piece (List.mem_of_getElem? hjob.planned)).1
  have htake : job.sealed.take kChunkHeaderSize = encodeChunkHeader (chunk.header job.number) := by
    rw [hjob.sealed_eq]
    exact List.take_left' (length_encodeChunkHeader _)
  have hdrop : job.sealed.drop kChunkHeaderSize =
      t.aead.sealBytes t.keys.algorithm t.keys.sendKey
        (buildNonce t.keys.sendNoncePrefix (UInt64.ofNat job.number))
        (encodeChunkHeader (chunk.header job.number)) (t.chunkData chunk) := by
    rw [hjob.sealed_eq]
    exact List.drop_left' (length_encodeChunkHeader _)
  have hcipher : (job.sealed.drop kChunkHeaderSize).length = chunk.length.toNat + kAeadTagSize := by
    rw [hdrop, t.aead.length_seal, hlen]
  have hplain : job.header.plaintextLength = chunk.length := by
    rw [hjob.header_eq]
    rfl
  have hcounter : job.header.counter = UInt64.ofNat job.number := by
    rw [hjob.header_eq]
    rfl
  have hopen := h.undoes t.keys.algorithm t.keys.sendKey
    (buildNonce t.keys.sendNoncePrefix (UInt64.ofNat job.number))
    (encodeChunkHeader (chunk.header job.number)) (t.chunkData chunk)
  unfold OpenJob.run
  simp only [hcipher, hplain, hcounter, htake]
  rw [if_neg (by omega), if_neg fun hlong => by omega, hdrop, h.cipher, ← h.keys.send_key,
    ← h.keys.send_nonce, hopen]
  simp only [hlen, ne_eq, not_true_eq_false, if_false]

end Frames

/-! ## The receiver's invariant -/

namespace Receiver

/-- The frames that were read. -/
def consumed (t : Sending) (s : Receiver) : Nat :=
  match s.phase with
  | .reading | .submitting _ => s.received + 1
  | .draining | .acked => t.plan.length + 2
  | _ => 0

def emitted (s : Receiver) : Nat :=
  match s.phase with
  | .reading | .submitting _ | .draining => 1
  | .acked => 2
  | _ => 0

/-- What has been received at each phase of an undisturbed transfer. -/
def Stage (t : Sending) (s : Receiver) : Prop :=
  match s.phase with
  | .awaitingOffer => s.offer = none ∧ s.received = 0
  | .reading | .submitting _ => s.offer = some t.offer ∧ s.received ≤ t.plan.length
  | .draining | .acked => s.offer = some t.offer ∧ s.received = t.plan.length
  | _ => False

/-- What was sent are the first replies, and what was received are the first chunks. -/
structure Sound (t : Sending) (c : Receiving) (s : Receiver) : Prop where
  sent_eq : s.sent = ((c.replies.map Frame.bytes).take s.emitted).flatten
  clean : s.pool.firstError = none
  stage : s.Stage t
  jobs : ∀ job ∈ s.jobs, ∃ chunk, job.Of t chunk
  log : ∀ w ∈ s.log, ∃ chunk, w.Of t chunk

/-- What the reading thread has before it. -/
def phaseRemaining (n received : Nat) : ReceiverPhase → Nat
  | .awaitingOffer => 4 * n + 9
  | .reading => 4 * (n - received) + 6
  | .submitting _ => 4 * (n - received) + 9
  | .draining => 5
  | _ => 4

def remaining (t : Sending) (s : Receiver) : Nat :=
  phaseRemaining t.plan.length s.received s.phase + 2 * s.pool.queue.length + s.pool.active.length

/-- A step that keeps the invariant, reads `k` frames with `rest` left, and leaves less to do. -/
structure Advance (t : Sending) (c : Receiving) (s s' : Receiver) (k : Nat) (rest : Bytes) :
    Prop where
  sound : s'.Sound t c
  input : s'.input = rest
  consumed : s'.consumed t = s.consumed t + k
  emitted : s.emitted ≤ s'.emitted
  remaining : s'.remaining t < s.remaining t

variable {t : Sending} {c : Receiving} {s s' : Receiver}

theorem sound_init (disk : Disk) : (init disk).Sound t c where
  sent_eq := rfl
  clean := rfl
  stage := ⟨rfl, rfl⟩
  jobs _ h := absurd h List.not_mem_nil
  log _ h := absurd h List.not_mem_nil

theorem Stage.not_ended (h : s.Stage t) : ¬ s.phase.Ended := by
  unfold Stage at h
  cases hphase : s.phase <;> rw [hphase] at h <;> first | exact id | exact h.elim

theorem Sound.isClean (h : s.Sound t c) : s.Clean := ⟨h.clean, h.stage.not_ended⟩

/-- A thread that reads, hands over or waits has the offer. -/
theorem Stage.offer_eq (h : s.Stage t) (hphase : s.phase ≠ .awaitingOffer) :
    s.offer = some t.offer := by
  unfold Stage at h
  cases hp : s.phase <;> rw [hp] at h hphase <;>
    first | exact h.1 | exact absurd rfl hphase | exact absurd h id

theorem Stage.congr (h : s.Stage t) (hphase : s'.phase = s.phase) (hoffer : s'.offer = s.offer)
    (hreceived : s'.received = s.received) : s'.Stage t := by
  unfold Stage
  rw [hphase, hoffer, hreceived]
  exact h

theorem commit_eq {n : Nat} {header : ChunkHeader} (data : Bytes)
    (h : header.Inside (s.files.map OutputFile.expectedSize)) :
    ∃ disk files, s.commit n header data =
      { s with
        disk := disk, files := files
        log := s.log ++ [⟨n, header.fileIndex.toNat, header.offset.toNat, data⟩] } := by
  obtain ⟨size, hsize, -⟩ := h
  rw [List.getElem?_map] at hsize
  obtain ⟨file, hfile, -⟩ := Option.map_eq_some_iff.mp hsize
  unfold commit
  rw [hfile]
  exact ⟨_, _, rfl⟩

/-! ## Reading -/

theorem Sound.readsOffer (h : s.Sound t c) (hhonest : Honest t c) (hcounted : s.Counted c)
    (hphase : s.phase = .awaitingOffer) (rest : Bytes) :
    Advance t c s
      (handle c {} (Frame.of .offer t.offerPayload t.keys.algorithm.tag) { s with input := rest })
      1 rest := by
  have hstage := h.stage
  rw [Stage, hphase] at hstage
  obtain ⟨hnone, hzero⟩ := hstage
  obtain ⟨hjobs, hlog⟩ := hcounted.fresh hnone
  simp only [Receiver.jobs, List.append_eq_nil_iff] at hjobs
  have hsent : s.sent = [] := by
    rw [h.sent_eq, emitted, hphase]
    rfl
  obtain ⟨files, disk, hstart⟩ := hhonest.start { s with input := rest }
  have hhandle : handle c {} (Frame.of .offer t.offerPayload t.keys.algorithm.tag)
      { s with input := rest } = Receiver.start c {} t.offer { s with input := rest } := by
    unfold handle
    rw [hnone, hhonest.readOffer]
  rw [hhandle, hstart]
  refine ⟨⟨?_, h.clean, ⟨rfl, ?_⟩, ?_, ?_⟩, rfl, ?_, ?_, ?_⟩
  · simp [hsent, emitted, Receiving.replies]
  · simp [hzero]
  · simp [Receiver.jobs, pending, hjobs.2]
  · simp [hlog]
  · simp [consumed, hphase, hzero]
  · simp [emitted, hphase]
  · simp only [remaining, phaseRemaining, hphase, hjobs.2, hzero]
    omega

theorem Sound.readsEnd (h : s.Sound t c) (hphase : s.phase = .reading)
    (hall : s.received = t.plan.length) (rest : Bytes) :
    Advance t c s (handle c {} (Frame.of .transferEnd []) { s with input := rest }) 1 rest := by
  have hstage := h.stage
  rw [Stage, hphase] at hstage
  have hhandle : handle c {} (Frame.of .transferEnd []) { s with input := rest } =
      { s with input := rest, phase := .draining } := by
    unfold handle
    rw [hstage.1]
    rfl
  have hwaits : s.Waits := .inr hphase
  have hsent := h.sent_eq
  simp only [emitted, hphase] at hsent
  rw [hhandle]
  refine ⟨⟨hsent, h.clean, ⟨hstage.1, hall⟩, ?_, h.log⟩, rfl, ?_, ?_, ?_⟩
  · intro job hjob
    exact h.jobs job (hwaits.jobs_eq ▸ hjob)
  · simp [consumed, hphase, hall]
  · simp [emitted, hphase]
  · simp only [remaining, phaseRemaining, hphase, hall]
    omega

theorem Sound.readsChunk (h : s.Sound t c) (hcounted : s.Counted c)
    (hnumbered : s.Numbered c) (hphase : s.phase = .reading) {chunk : ChunkPlan}
    (hchunk : t.plan[s.received]? = some chunk) (rest : Bytes) :
    Advance t c s
      (handle c {} (Frame.of .chunk (t.chunkPayload s.received chunk) t.chunkFlags)
        { s with input := rest }) 1 rest := by
  have hmem : chunk ∈ t.plan := List.mem_of_getElem? hchunk
  have hlt : s.received < t.plan.length := (List.getElem?_eq_some_iff.mp hchunk).1
  have hstage := h.stage
  rw [Stage, hphase] at hstage
  have hoffer := hstage.1
  have hwaits : s.Waits := .inr hphase
  have hsent := h.sent_eq
  simp only [emitted, hphase] at hsent
  have hvalid := validateChunk_planned hcounted hoffer hmem s.received
  rw [← hnumbered.counter] at hvalid
  cases henc : t.encrypt with
  | true =>
    have hpayload : t.chunkPayload s.received chunk = t.sealedPayload s.received chunk := by
      rw [Sending.chunkPayload, henc, if_pos rfl]
    have hdecode : decodeChunkHeader (t.sealedPayload s.received chunk) =
        chunk.header s.received := decodeChunkHeader_encode ..
    have hlong : ¬ (t.sealedPayload s.received chunk).length < kChunkHeaderSize := by
      rw [Sending.length_sealedPayload hmem]
      omega
    have hhandle : handle c {} (Frame.of .chunk (t.chunkPayload s.received chunk) t.chunkFlags)
        { s with input := rest } =
          { s with
            input := rest, expectedCounter := s.expectedCounter + 1, received := s.received + 1
            phase := .submitting
              ⟨chunk.header s.received, t.sealedPayload s.received chunk, s.received⟩ } := by
      unfold handle
      rw [hoffer, hpayload]
      simp only [receiveFrame, Frame.of, reduceCtorEq, if_false, ne_eq, not_true_eq_false, hlong,
        hdecode, hvalid]
      rw [if_pos (show t.offer.encryptPayload = true from henc)]
    rw [hhandle]
    refine ⟨⟨hsent, h.clean, ⟨hoffer, hlt⟩, ?_, h.log⟩, rfl, ?_, ?_, ?_⟩
    · intro job hjob
      rcases List.mem_cons.mp hjob with rfl | hjob
      · exact ⟨chunk, hchunk, rfl, rfl⟩
      · exact h.jobs job (hwaits.jobs_eq ▸ hjob)
    · simp [consumed, hphase]
    · simp [emitted, hphase]
    · simp only [remaining, phaseRemaining, hphase]
      omega
  | false =>
    have hpayload : t.chunkPayload s.received chunk = t.plainPayload s.received chunk := by
      rw [Sending.chunkPayload, henc, if_neg Bool.false_ne_true]
    have hdecode : decodeChunkHeader (t.plainPayload s.received chunk) =
        chunk.header s.received := decodeChunkHeader_encode ..
    have hlong : ¬ (t.plainPayload s.received chunk).length < kChunkHeaderSize := by
      rw [Sending.length_plainPayload hmem]
      omega
    have hdrop : (t.plainPayload s.received chunk).drop kChunkHeaderSize = t.chunkData chunk :=
      List.drop_left' (length_encodeChunkHeader _)
    have hlen : (t.chunkData chunk).length = (chunk.header s.received).plaintextLength.toNat :=
      (Sending.chunkData_piece hmem).1
    have hwrite : pwriteAll {} (t.chunkData chunk) (chunk.header s.received).offset = .ok () :=
      pwriteAll_planned hmem
    have hplain : ¬ t.offer.encryptPayload = true := by
      rw [Sending.offer, henc]
      exact Bool.false_ne_true
    have hhandle : handle c {} (Frame.of .chunk (t.chunkPayload s.received chunk) t.chunkFlags)
        { s with input := rest } =
          Receiver.commit s.received (chunk.header s.received) (t.chunkData chunk)
            { s with
              input := rest, expectedCounter := s.expectedCounter + 1
              received := s.received + 1 } := by
      unfold handle
      rw [hoffer, hpayload]
      simp only [receiveFrame, Frame.of, reduceCtorEq, if_false, ne_eq, not_true_eq_false, hlong,
        hdecode, hvalid, hdrop, hlen, hwrite]
      rw [if_neg hplain]
    obtain ⟨disk, files, hcommit⟩ := commit_eq (n := s.received)
      (s := { s with input := rest, expectedCounter := s.expectedCounter + 1
                     received := s.received + 1 }) (t.chunkData chunk) (validateChunk_ok hvalid).1
    rw [hhandle, hcommit]
    refine ⟨⟨?_, h.clean, ?_, h.jobs, ?_⟩, rfl, ?_, ?_, ?_⟩
    · simpa [emitted, hphase] using hsent
    · simp only [Stage, hphase]
      exact ⟨hoffer, hlt⟩
    · intro w hw
      rcases List.mem_append.mp hw with hw | hw
      · exact h.log w hw
      · cases List.mem_singleton.mp hw
        exact ⟨chunk, hchunk, rfl, rfl, rfl⟩
    · simp [consumed, hphase]
    · simp [emitted, hphase]
    · simp only [remaining, phaseRemaining, hphase]
      omega

/-! ## The other steps -/

/-- A job that waits is handed to the pool. -/
theorem Sound.submit (h : s.Sound t c) (hphase : s.phase = .submitting job) :
    Advance t c s
      { s with pool := { s.pool with queue := s.pool.queue ++ [job] }, phase := .reading }
      0 s.input := by
  have hsent := h.sent_eq
  have hstage := h.stage
  rw [Stage, hphase] at hstage
  simp only [emitted, hphase] at hsent
  refine ⟨⟨hsent, h.clean, hstage, ?_, h.log⟩, rfl, ?_, ?_, ?_⟩
  · intro j hj
    refine h.jobs j ?_
    have hpending : s.pending = [job] := by rw [pending, hphase]
    simp only [Receiver.jobs, pending, List.nil_append, List.append_assoc, List.mem_append,
      List.mem_singleton] at hj
    simp only [Receiver.jobs, hpending, List.mem_append, List.mem_singleton]
    tauto
  · simp [consumed, hphase]
  · simp [emitted, hphase]
  · simp only [remaining, phaseRemaining, hphase, List.length_append, List.length_singleton]
    omega

/-- A worker takes a job. -/
theorem Sound.take (h : s.Sound t c) {queue : List OpenJob}
    (hqueue : s.pool.queue = job :: queue) :
    Advance t c s
      { s with pool := { s.pool with queue := queue, active := s.pool.active ++ [job] } }
      0 s.input := by
  refine ⟨⟨h.sent_eq, h.clean, h.stage.congr rfl rfl rfl, ?_, h.log⟩, rfl, rfl, Nat.le_refl _, ?_⟩
  · intro j hj
    refine h.jobs j ?_
    simp only [Receiver.jobs, pending, List.mem_append, List.mem_singleton] at hj ⊢
    rw [hqueue, List.mem_cons]
    tauto
  · simp only [remaining, hqueue, List.length_append, List.length_cons, List.length_nil]
    omega

/-- A worker opens its chunk and writes it. -/
theorem Sound.finish (h : s.Sound t c) (hhonest : Honest t c) (hcounted : s.Counted c) {i : Nat}
    (hjob : s.pool.active[i]? = some job) :
    Advance t c s (s.finishJob c {} t.offer i job) 0 s.input := by
  have hmem := mem_jobs_of_active hjob
  obtain ⟨chunk, hof⟩ := h.jobs job hmem
  obtain ⟨hi, -⟩ := List.getElem?_eq_some_iff.mp hjob
  have hoffset : job.header.offset = chunk.offset := by
    rw [hof.header_eq]
    rfl
  have hrun : job.run c {} t.offer.algorithm = .plain (t.chunkData chunk) := hof.run hhonest
  have hwrite : pwriteAll {} (t.chunkData chunk) job.header.offset = .ok () := by
    rw [hoffset]
    exact pwriteAll_planned (List.mem_of_getElem? hof.planned)
  obtain ⟨disk, files, hcommit⟩ := commit_eq (s := { s with pool := s.pool.finish i none })
    (n := job.number) (t.chunkData chunk) (hcounted.jobs job hmem)
  have hfinish : s.finishJob c {} t.offer i job =
      Receiver.commit job.number job.header (t.chunkData chunk)
        { s with pool := s.pool.finish i none } := by
    unfold finishJob
    simp only [hrun, hwrite]
  rw [hfinish, hcommit]
  refine ⟨⟨h.sent_eq, ?_, h.stage.congr rfl rfl rfl, ?_, ?_⟩, rfl, rfl, Nat.le_refl _, ?_⟩
  · simp [AeadPool.finish, h.clean]
  · exact fun j hj => h.jobs j ((finish_jobs i none).subset hj)
  · intro w hw
    rcases List.mem_append.mp hw with hw | hw
    · exact h.log w hw
    · cases List.mem_singleton.mp hw
      refine ⟨chunk, hof.planned, ?_, ?_, rfl⟩
      · rw [hof.header_eq]
        rfl
      · rw [hoffset]
  · simp only [remaining, AeadPool.finish, List.length_eraseIdx_of_lt hi]
    omega

/-! ## The end -/

/-- Once the pool is idle, every file is complete and has its source's contents. -/
theorem Sound.complete (h : s.Sound t c) (hhonest : Honest t c) (hcounted : s.Counted c)
    (hnumbered : s.Numbered c) (hstored : s.Stored) (hoffer : s.offer = some t.offer)
    (hall : s.received = t.plan.length) (hidle : s.jobs = []) :
    (∀ file ∈ s.files, file.written = file.expectedSize) ∧
      ∀ (i : Nat) (file : LocalFile), t.manifest.files[i]? = some file →
        s.disk (joinPath c.directory file.relativePath) = t.source file.sourcePath := by
  have hperm := hnumbered.numbers
  rw [hidle, List.map_nil, List.append_nil, hall] at hperm
  have hdone : ∀ file ∈ s.files, file.written = file.expectedSize := by
    intro out hout
    obtain ⟨i, hi⟩ := List.mem_iff_getElem?.mp hout
    have hlt : i < t.manifest.files.length := by
      have hlen := congrArg List.length (hcounted.outputs _ hoffer).sizes
      simp only [List.length_map, Sending.offer, Sending.entries, toWireEntries] at hlen
      rw [← hlen]
      exact (List.getElem?_eq_some_iff.mp hi).1
    have hfile : t.manifest.files[i]? = some t.manifest.files[i] := List.getElem?_eq_getElem hlt
    obtain ⟨entry, hentry, hsize, -⟩ := Sending.entries_getElem? hfile
    obtain ⟨out', hout', houtsize, -⟩ := hcounted.output hoffer hentry
    cases hi.symm.trans hout'
    have htotal := total_spans h.log hperm hfile
    have hfits := t.manifest.files[i].size_lt
    apply UInt64.toNat.inj
    rw [hcounted.written i out hi, htotal, houtsize, hsize, Nat.mod_eq_of_lt (by omega)]
  have hnodup : (s.log.map ChunkWrite.number).Nodup := hperm.nodup_iff.mpr List.nodup_range
  exact ⟨hdone, fun i file hfile =>
    outputs_eq_source hcounted hstored hdone hoffer hnodup h.log hhonest.paths hfile⟩

theorem verifyDigests_of_eq {sha256 : Bytes → Block 32} {disk : Disk} {files : List OutputFile}
    (h : ∀ (i : Nat) file entry, files[i]? = some file → entries[i]? = some entry →
      sha256 (disk file.path) = entry.digest) (k : Nat) :
    verifyDigests sha256 {} disk k files entries = .ok () := by
  induction files generalizing entries k with
  | nil => rfl
  | cons file files ih =>
    cases entries with
    | nil => rfl
    | cons entry entries =>
      have hhead := h 0 file entry rfl rfl
      show (if sha256 (disk file.path) ≠ entry.digest then _ else _) = _
      rw [if_neg (not_not.mpr hhead)]
      exact ih (fun i f e hf he => h (i + 1) f e hf he) (k + 1)

/-- The outputs are complete, their digests match, and the transfer is acknowledged. -/
theorem Sound.drain (h : s.Sound t c) (hhonest : Honest t c) (hcounted : s.Counted c)
    (hnumbered : s.Numbered c) (hstored : s.Stored) (hphase : s.phase = .draining)
    (hqueue : s.pool.queue = []) (hactive : s.pool.active = []) :
    Advance t c s (s.finalise c {} t.offer) 0 s.input := by
  have hstage := h.stage
  rw [Stage, hphase] at hstage
  obtain ⟨hoffer, hall⟩ := hstage
  have hidle : s.jobs = [] := by
    rw [Receiver.jobs, pending, hphase, hqueue, hactive]
    rfl
  obtain ⟨hdone, hcontents⟩ := h.complete hhonest hcounted hnumbered hstored hoffer hall hidle
  have hdigests : (if c.verifyDigests && t.offer.digestsPresent then
      DropZone.verifyDigests c.sha256 {} s.disk 0 s.files t.offer.entries else .ok ()) =
        .ok () := by
    split
    · rename_i hcheck
      have hpresent : t.computeDigests = true := (Bool.and_eq_true_iff.mp hcheck).2
      refine verifyDigests_of_eq (fun i out entry hout hentry => ?_) 0
      obtain ⟨out', hout', -, hpath⟩ := hcounted.output hoffer hentry
      cases hout.symm.trans hout'
      simp only [Sending.offer, Sending.entries, toWireEntries, List.getElem?_map] at hentry
      obtain ⟨file, hfile, rfl⟩ := Option.map_eq_some_iff.mp hentry
      rw [hpath, hcontents i file hfile, hhonest.hash]
      simp [hpresent]
    · rfl
  have hsent := h.sent_eq
  simp only [emitted, hphase] at hsent
  have hack : s.finalise c {} t.offer =
      { s with sent := s.sent ++ (Frame.of .transferAck []).bytes, phase := .acked } := by
    unfold finalise
    rw [finaliseOutputs_of_written hdone, hdigests]
    rfl
  rw [hack]
  refine ⟨⟨?_, h.clean, ⟨hoffer, hall⟩, ?_, h.log⟩, rfl, ?_, ?_, ?_⟩
  · simp [hsent, emitted, Receiving.replies]
  · simp [Receiver.jobs, pending, hqueue, hactive]
  · simp [consumed, hphase]
  · simp [emitted, hphase]
  · simp [remaining, phaseRemaining, hphase]

/-- Every step that reads nothing keeps the invariant and leaves less to do. -/
theorem Sound.step (h : s.Sound t c) (hhonest : Honest t c) (hcounted : s.Counted c)
    (hnumbered : s.Numbered c) (hstored : s.Stored) {e : ReceiverEvent} (hworks : e.Works)
    (hread : ∀ calls, e ≠ .read calls) (hs : next c s e = some s') :
    Advance t c s s' 0 s.input := by
  unfold next at hs
  split at hs
  · cases hs
  · cases e with
    | arrive | lost => exact hworks.elim
    | read calls => exact absurd rfl (hread calls)
    | submit =>
      dsimp only at hs
      split at hs
      · rename_i job hphase
        rw [AeadPool.submit_of_clean h.clean] at hs
        split at hs
        · cases hs
        · cases hs
          rename_i hsub
          split at hsub <;> cases hsub
        · rename_i hsub
          split at hsub <;> cases hsub
          cases hs
          exact h.submit hphase
      · cases hs
    | take =>
      obtain ⟨pool, hpool, rfl⟩ := Option.map_eq_some_iff.mp hs
      unfold AeadPool.take at hpool
      split at hpool
      · cases hpool
      · rename_i hqueue
        split at hpool <;> cases hpool
        exact h.take hqueue
    | finish i calls =>
      cases hworks
      dsimp only at hs
      split at hs
      · rename_i job offer hjob hoffer
        cases hs
        have hne : s.phase ≠ .awaitingOffer := by
          intro hphase
          have hstage := h.stage
          rw [Stage, hphase] at hstage
          cases hstage.1.symm.trans hoffer
        cases (h.stage.offer_eq hne).symm.trans hoffer
        exact h.finish hhonest hcounted hjob
      · cases hs
    | drain calls =>
      cases hworks
      dsimp only at hs
      split at hs
      · rename_i offer hphase hoffer
        cases (h.stage.offer_eq (by rw [hphase]; exact ReceiverPhase.noConfusion)).symm.trans hoffer
        split at hs
        · cases hs
        · rename_i pool e hdrain
          obtain ⟨-, herror, -⟩ := drain_some hdrain
          cases herror.trans h.clean
        · rename_i pool hdrain
          obtain ⟨rfl, -, hqueue, hactive⟩ := drain_some hdrain
          cases hs
          have hpool : ({ s.pool with firstError := none } : AeadPool OpenJob) = s.pool := by
            rw [← h.clean]
          rw [hpool]
          exact h.drain hhonest hcounted hnumbered hstored hphase hqueue hactive
      · cases hs

/-- Reading the next frame keeps the invariant and leaves less to do. -/
theorem Sound.read (h : s.Sound t c) (hhonest : Honest t c) (hcounted : s.Counted c)
    (hnumbered : s.Numbered c) (hwaits : s.Waits) {frame : Frame}
    (hframe : t.frames[s.consumed t]? = some frame) (rest : Bytes) :
    Advance t c s (handle c {} frame { s with input := rest }) 1 rest := by
  rcases hwaits with hphase | hphase
  · rw [consumed, hphase] at hframe
    cases hframe
    exact h.readsOffer hhonest hcounted hphase rest
  · have hstage := h.stage
    rw [Stage, hphase] at hstage
    rw [consumed, hphase] at hframe
    rcases Nat.lt_or_eq_of_le hstage.2 with hlt | hall
    · have hchunk := List.getElem?_eq_getElem hlt
      rw [Sending.frames_chunk hchunk] at hframe
      cases hframe
      exact h.readsChunk hcounted hnumbered hphase hchunk rest
    · rw [hall, Sending.frames_end] at hframe
      cases hframe
      exact h.readsEnd hphase hall rest

/-! ## Progress -/

/-- Some thread can take a step that reads nothing. -/
def CanStep (c : Receiving) (s : Receiver) : Prop :=
  ∃ e : ReceiverEvent, e.Works ∧ (∀ calls, e ≠ .read calls) ∧ (next c s e).isSome

theorem Sound.canStep (h : s.Sound t c) (hphase : s.phase ≠ .awaitingOffer)
    (hjobs : s.pool.queue ≠ [] ∨ s.pool.active ≠ []) : s.CanStep c := by
  have hlive : s.phase ≠ .overrun := fun hover => h.stage.not_ended (by rw [hover]; trivial)
  by_cases hactive : s.pool.active = []
  · obtain ⟨job, queue, hqueue⟩ :=
      List.exists_cons_of_ne_nil (hjobs.resolve_right (not_not.mpr hactive))
    refine ⟨.take, trivial, fun _ => ReceiverEvent.noConfusion, ?_⟩
    simp [next, hlive, AeadPool.take, hqueue, hactive, c.workers_pos]
  · obtain ⟨job, rest, hcons⟩ := List.exists_cons_of_ne_nil hactive
    refine ⟨.finish 0 {}, rfl, fun _ => ReceiverEvent.noConfusion, ?_⟩
    simp [next, hlive, hcons, h.stage.offer_eq hphase]

theorem Sound.progress (h : s.Sound t c) : s.Waits ∨ s.phase = .acked ∨ s.CanStep c := by
  have hstage := h.stage
  unfold Stage at hstage
  split at hstage
  · rename_i hphase
    exact .inl (.inl hphase)
  · rename_i hphase
    exact .inl (.inr hphase)
  · rename_i job hphase
    right; right
    by_cases hspace : s.pool.queue.length < c.queueDepth
    · refine ⟨.submit, trivial, fun _ => ReceiverEvent.noConfusion, ?_⟩
      simp [next, hphase, AeadPool.submit_of_clean h.clean, hspace]
    · refine h.canStep (by simp [hphase]) (.inl fun hnil => hspace ?_)
      rw [hnil]
      exact Nat.mul_pos c.workers_pos Nat.two_pos
  · rename_i hphase
    right; right
    by_cases hidle : s.pool.queue = [] ∧ s.pool.active = []
    · refine ⟨.drain {}, rfl, fun _ => ReceiverEvent.noConfusion, ?_⟩
      simp [next, hphase, hstage.1, AeadPool.drain, hidle, h.clean]
    · exact h.canStep (by simp [hphase]) (not_and_or.mp hidle)
  · rename_i hphase
    exact .inr (.inl hphase)
  · exact hstage.elim

end Receiver

end DropZone
