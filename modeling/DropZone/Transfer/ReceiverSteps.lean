import Mathlib.Data.List.Perm.Subperm
import DropZone.Transfer.Receiver

/-!
# What a step of the receiver does

* `Receiver.jobs`: the chunks accepted whose bytes were not written yet.
* `Receiver.Effect`: everything a step can do to the transfer; `next_effect`. Every invariant of the
  receiver is proved from its cases.
* `validateChunk_ok`, `pwriteAll_ok`, `finaliseOutputs_ok`, `openOutputs_ok`: what the receiver's
  checks establish when they pass.
-/

namespace DropZone

open LittleEndian Parser Pieces

/-! ## The checks -/

/-- `header` is about a part of a file of the given sizes, by the code's arithmetic. -/
def ChunkHeader.Inside (header : ChunkHeader) (sizes : List UInt64) : Prop :=
  ∃ size, sizes[header.fileIndex.toNat]? = some size ∧
    header.offset + header.plaintextLength.toUInt64 ≤ size

variable {calls : Calls} {files : List OutputFile} {job : OpenJob}

theorem validateChunk_ok {header : ChunkHeader} {expected : UInt64}
    {maxSize : UInt32} (h : validateChunk header files expected maxSize = .ok ()) :
    header.Inside (files.map OutputFile.expectedSize) ∧ header.counter = expected := by
  unfold validateChunk at h
  split at h
  · cases h
  · rename_i file hfile
    split at h
    · cases h
    · split at h
      · cases h
      · rename_i hcounter
        split at h
        · cases h
        · rename_i hbound
          refine ⟨⟨file.expectedSize, ?_, UInt64.not_lt.mp hbound⟩, not_not.mp hcounter⟩
          rw [List.getElem?_map, hfile]
          rfl

theorem pwriteAll_ok {header : ChunkHeader} {data : Bytes} {size : UInt64}
    (h : pwriteAll calls data header.offset = .ok ())
    (hlen : data.length = header.plaintextLength.toNat)
    (hbound : header.offset + header.plaintextLength.toUInt64 ≤ size) :
    header.offset.toNat + data.length ≤ size.toNat := by
  have hsum : (header.offset + header.plaintextLength.toUInt64).toNat ≤ size.toNat :=
    UInt64.le_iff_toNat_le.mp hbound
  rw [UInt64.toNat_add, UInt32.toNat_toUInt64, ← hlen] at hsum
  unfold pwriteAll at h
  split at h
  · rename_i hnil
    subst hnil
    rw [List.length_nil, Nat.add_zero, Nat.mod_eq_of_lt header.offset.toNat_lt] at hsum
    exact hsum
  · split at h
    · cases h
    · rename_i hoff
      have hlt := header.plaintextLength.toNat_lt
      rw [Nat.mod_eq_of_lt (by omega)] at hsum
      exact hsum

theorem finaliseOutputs_ok {i : Nat}
    (h : finaliseOutputs calls i files = .ok ()) :
    ∀ file ∈ files, file.written = file.expectedSize := by
  induction files generalizing i with
  | nil => simp
  | cons file files ih =>
    unfold finaliseOutputs at h
    split at h
    · cases h
    · rename_i hwritten
      split at h
      · cases h
      · rintro f (_ | ⟨_, hf⟩)
        · exact not_not.mp hwritten
        · exact ih h f hf

theorem OpenJob.run_plain {c : Receiving} {algorithm : AeadAlgorithm} {data : Bytes}
    (h : job.run c calls algorithm = .plain data) :
    c.aead.openBytes algorithm c.keys.receiveKey
        (buildNonce c.keys.receiveNoncePrefix job.header.counter)
        (job.sealed.take kChunkHeaderSize) (job.sealed.drop kChunkHeaderSize) = some data ∧
      data.length = job.header.plaintextLength.toNat := by
  unfold run at h
  dsimp only at h
  split at h
  · cases h
  · split at h
    · cases h
    · split at h
      · cases h
      · rename_i hopen
        split at h
        · cases h
        · rename_i hlen
          cases h
          exact ⟨hopen, not_not.mp hlen⟩

/-- The outputs as they are opened for an offer. -/
structure OpenedFor (entries : List ManifestEntry) (paths : List Bytes) (files : List OutputFile)
    (disk disk' : Disk) : Prop where
  paths_eq : files.map OutputFile.path = paths
  sizes_eq : files.map OutputFile.expectedSize = entries.map ManifestEntry.size
  unwritten : ∀ file ∈ files, file.written = 0
  other : ∀ path ∉ paths, disk' path = disk path
  zeros : paths.Nodup → ∀ file ∈ files,
    disk' file.path = List.replicate file.expectedSize.toNat 0

theorem openOutputs_ok {i : Nat} {entries : List ManifestEntry} {paths : List Bytes}
    {disk disk' : Disk} (hlen : paths.length = entries.length)
    (h : openOutputs calls i entries paths disk = .ok (files, disk')) :
    OpenedFor entries paths files disk disk' := by
  induction entries generalizing i paths disk files disk' with
  | nil =>
    cases List.length_eq_zero_iff.mp hlen
    cases h
    exact ⟨rfl, rfl, by simp, fun _ _ => rfl, by simp⟩
  | cons entry entries ih =>
    obtain ⟨path, paths, rfl⟩ := List.exists_cons_of_length_eq_add_one hlen
    unfold openOutputs at h
    split at h
    · cases h
    · split at h
      · cases h
      · obtain ⟨⟨files₁, disk₁⟩, hrec, hpure⟩ := bind_eq_ok.mp h
        cases hpure
        have hopen := ih (by simpa using hlen) hrec
        refine ⟨by simp [hopen.paths_eq], by simp [hopen.sizes_eq], ?_, ?_, ?_⟩
        · simpa using hopen.unwritten
        · intro q hq
          rw [List.mem_cons, not_or] at hq
          rw [hopen.other q hq.2, Function.update_of_ne hq.1]
        · rintro hnodup file (_ | ⟨_, hfile⟩)
          · rw [hopen.other path (List.nodup_cons.mp hnodup).1, Function.update_self]
          · exact hopen.zeros (List.nodup_cons.mp hnodup).2 file hfile

theorem resolveOutputPaths_ok {directory : Bytes} {entries : List ManifestEntry}
    {paths : List Bytes} (h : resolveOutputPaths directory entries = .ok paths) :
    paths = entries.map (fun entry => joinPath directory entry.path) ∧
      ∀ entry ∈ entries, isSafeRelativePath entry.path = true := by
  induction entries generalizing paths with
  | nil =>
    cases h
    exact ⟨rfl, by simp⟩
  | cons entry entries ih =>
    unfold resolveOutputPaths at h
    split at h
    · rename_i hsafe
      obtain ⟨paths₁, hrec, hpure⟩ := bind_eq_ok.mp h
      cases hpure
      obtain ⟨hpaths, hall⟩ := ih hrec
      exact ⟨by rw [hpaths]; rfl, by simpa using ⟨hsafe, hall⟩⟩
    · cases h

/-! ## Effects -/

/-- The transfer is over, without an acknowledgement. -/
def ReceiverPhase.Ended : ReceiverPhase → Prop
  | declined | failed _ | overrun => True
  | _ => False

namespace Receiver

/-- The chunk that waits to be handed to the pool. -/
def pending (s : Receiver) : List OpenJob :=
  match s.phase with
  | .submitting job => [job]
  | _ => []

/-- The chunks accepted whose bytes were not written yet. -/
def jobs (s : Receiver) : List OpenJob := s.pending ++ (s.pool.queue ++ s.pool.active)

/-- The pool holds no more than it may. -/
def Bounded (c : Receiving) (s : Receiver) : Prop :=
  s.pool.queue.length ≤ c.queueDepth ∧ s.pool.active.length ≤ c.workers

/-- A step that changed nothing but where threads are and which bytes were read and sent. -/
structure SameData (s s' : Receiver) : Prop where
  offer : s'.offer = s.offer
  files : s'.files = s.files
  disk : s'.disk = s.disk
  expectedCounter : s'.expectedCounter = s.expectedCounter
  received : s'.received = s.received
  log : s'.log = s.log

/-- The frame that was accepted as chunk number `s.received`. -/
structure Accepts (s : Receiver) (offer : TransferOffer) (header : ChunkHeader) : Prop where
  offer_eq : s.offer = some offer
  valid : validateChunk header s.files s.expectedCounter offer.chunkSize = .ok ()

/-- One frame was written. -/
def Writes (s : Receiver) (type : MessageType) (sent : Bytes) : Prop :=
  ∃ payload bytes, writeFrame type payload = .ok bytes ∧ sent = s.sent ++ bytes

/-- Everything a step can do to the transfer. -/
inductive Effect (c : Receiving) (s : Receiver) : Receiver → Prop
  | ended {phase input sent error} (ended : phase.Ended)
      (sent_eq : sent = s.sent ∨ s.Waits ∧ s.offer = none ∧ s.Writes .decision sent) :
      Effect c s { s with input := input, sent := sent, phase := phase
                          pool := { s.pool with firstError := error } }
  /-- Bytes arrived, a job went to the pool or to a worker, or `TransferEnd` was read. -/
  | moved {s'} (data : SameData s s') (jobs : s'.jobs.Perm s.jobs)
      (error : s'.pool.firstError = s.pool.firstError) (bounded : s.Bounded c → s'.Bounded c)
      (phase : s'.phase = s.phase ∨ ¬ s.phase.Ended ∧ s'.phase ≠ .acked) (sent : s'.sent = s.sent) :
      Effect c s s'
  | dropped {i job e} (active : s.pool.active[i]? = some job) :
      Effect c s { s with pool := s.pool.finish i (some e) }
  | opened {frame offer paths calls files disk input sent} (waits : s.Waits)
      (fresh : s.offer = none) (read : readOffer c frame = .ok offer)
      (resolved : resolveOutputPaths c.directory offer.entries = .ok paths)
      (opened : openOutputs calls 0 offer.entries paths s.disk = .ok (files, disk))
      (writes : s.Writes .decision sent) :
      Effect c s { s with input := input, sent := sent, phase := .reading, offer := some offer
                          files := files, disk := disk }
  | accepted {offer sealed input} (waits : s.Waits)
      (accepts : s.Accepts offer (decodeChunkHeader sealed)) (encrypted : offer.encryptPayload = true)
      (long : kChunkHeaderSize ≤ sealed.length) :
      Effect c s { s with input := input, expectedCounter := s.expectedCounter + 1
                          received := s.received + 1
                          phase := .submitting ⟨decodeChunkHeader sealed, sealed, s.received⟩ }
  | wrote {offer header data input calls}
      (waits : s.Waits) (accepts : s.Accepts offer header) (plain : offer.encryptPayload = false)
      (length : data.length = header.plaintextLength.toNat)
      (write : pwriteAll calls data header.offset = .ok ()) :
      Effect c s (commit s.received header data
        { s with input := input, expectedCounter := s.expectedCounter + 1
                 received := s.received + 1 })
  | finished {offer i job data calls}
      (offer_eq : s.offer = some offer) (active : s.pool.active[i]? = some job)
      (run : job.run c calls offer.algorithm = .plain data)
      (write : pwriteAll calls data job.header.offset = .ok ()) :
      Effect c s (commit job.number job.header data { s with pool := s.pool.finish i none })
  | acked {offer sent calls} (offer_eq : s.offer = some offer)
      (draining : s.phase = .draining) (queue : s.pool.queue = []) (active : s.pool.active = [])
      (clean : s.pool.firstError = none) (written : finaliseOutputs calls 0 s.files = .ok ())
      (writes : s.Writes .transferAck sent) :
      Effect c s { s with sent := sent, phase := .acked }

variable {c : Receiving} {s : Receiver} {offer : TransferOffer} {pool : AeadPool OpenJob}

theorem pool_commit (number : Nat) (header : ChunkHeader) (data : Bytes) (s : Receiver) :
    (s.commit number header data).pool = s.pool ∧ (s.commit number header data).phase = s.phase := by
  unfold commit
  split <;> exact ⟨rfl, rfl⟩

theorem Effect.failed (e : Failure) (input : Bytes) : Effect c s (fail { s with input := input } e) :=
  Effect.ended trivial (.inl rfl)

theorem write_ok {type : MessageType} {payload : Bytes} {t : Receiver}
    (h : s.write calls type payload = .ok t) : ∃ sent, t = { s with sent := sent } ∧ s.Writes type sent := by
  unfold write at h
  split at h
  · cases h
  · obtain ⟨bytes, hbytes, hpure⟩ := bind_eq_ok.mp h
    cases hpure
    exact ⟨_, rfl, payload, bytes, hbytes, rfl⟩

/-- A thread that reads a frame has nothing to hand to the pool. -/
theorem Waits.pending_eq (h : s.Waits) : s.pending = [] := by
  unfold pending
  rcases h with h | h <;> rw [h]

theorem Waits.not_ended (h : s.Waits) : ¬ s.phase.Ended := by
  rcases h with h | h <;> rw [h] <;> exact id

theorem start_effect {frame : Frame} (hwaits : s.Waits)
    (hnone : s.offer = none) (hread : readOffer c frame = .ok offer) (input : Bytes) :
    Effect c s (start c calls offer { s with input := input }) := by
  unfold start
  split
  · unfold orFail
    split
    · rename_i reason e _ _ t hwrite
      obtain ⟨sent, rfl, hwrites⟩ := write_ok hwrite
      exact .ended trivial (.inr ⟨hwaits, hnone, hwrites⟩)
    · exact .failed _ input
  · split
    · exact .failed _ input
    · rename_i paths hpaths
      split
      · unfold orFail
        split
        · rename_i t hwrite
          obtain ⟨sent, rfl, hwrites⟩ := write_ok hwrite
          exact .ended trivial (.inr ⟨hwaits, hnone, hwrites⟩)
        · exact .failed _ input
      · split
        · exact .failed _ input
        · rename_i files disk hopen
          unfold orFail
          split
          · rename_i t hwrite
            obtain ⟨sent, rfl, hwrites⟩ := write_ok hwrite
            exact .opened hwaits hnone hread hpaths hopen hwrites
          · exact .failed _ input

theorem receiveFrame_effect (hwaits : s.Waits)
    (hoffer : s.offer = some offer) (frame : Frame) (input : Bytes) :
    Effect c s (receiveFrame calls offer frame { s with input := input }) := by
  unfold receiveFrame
  split
  · refine .moved ⟨rfl, rfl, rfl, rfl, rfl, rfl⟩ ?_ rfl id (.inr ⟨hwaits.not_ended, ?_⟩) rfl
    · unfold jobs
      rw [hwaits.pending_eq]
      exact List.Perm.refl _
    · exact ReceiverPhase.noConfusion
  · split
    · exact .failed _ input
    · split
      · exact .failed _ input
      · split
        · exact .failed _ input
        · rename_i hlong
          dsimp only
          split
          · exact .failed _ input
          · rename_i hvalid
            split
            · rename_i henc
              exact .accepted hwaits ⟨hoffer, hvalid⟩ henc (by omega)
            · rename_i hplain
              split
              · exact .failed _ input
              · rename_i hlen
                split
                · exact .failed _ input
                · rename_i hwrite
                  exact .wrote hwaits ⟨hoffer, hvalid⟩ (by simpa using hplain) (not_not.mp hlen)
                    hwrite

theorem handle_effect (hwaits : s.Waits) (frame : Frame) (input : Bytes) :
    Effect c s (handle c calls frame { s with input := input }) := by
  unfold handle
  split
  · rename_i hnone
    split
    · exact .failed _ input
    · rename_i offer hread
      exact start_effect (s := s) hwaits hnone hread input
  · rename_i offer hoffer
    exact receiveFrame_effect (s := s) hwaits hoffer frame input

theorem finish_jobs (i : Nat) (error : Option Failure) :
    (jobs { s with pool := s.pool.finish i error }).Subperm s.jobs :=
  (((List.eraseIdx_sublist s.pool.active i).append_left s.pool.queue).append_left
    s.pending).subperm

theorem mem_jobs_of_active {i : Nat} (h : s.pool.active[i]? = some job) :
    job ∈ s.jobs :=
  List.mem_append_right _ (List.mem_append_right _ (List.mem_of_getElem? h))

theorem finishJob_effect {i : Nat}
    (hoffer : s.offer = some offer) (hjob : s.pool.active[i]? = some job) :
    Effect c s (s.finishJob c calls offer i job) := by
  unfold finishJob
  split
  · exact .ended trivial (.inl rfl)
  · exact .dropped hjob
  · rename_i data hrun
    split
    · exact .dropped hjob
    · rename_i hwrite
      exact .finished hoffer hjob hrun hwrite

theorem finalise_effect (hoffer : s.offer = some offer)
    (hphase : s.phase = .draining) (hqueue : s.pool.queue = []) (hactive : s.pool.active = [])
    (hclean : s.pool.firstError = none) :
    Effect c s (s.finalise c calls offer) := by
  unfold finalise
  split
  · exact .failed _ s.input
  · rename_i hwritten
    split
    · exact .failed _ s.input
    · unfold orFail
      split
      · rename_i t hwrite
        obtain ⟨sent, rfl, hwrites⟩ := write_ok hwrite
        exact .acked hoffer hphase hqueue hactive hclean hwritten hwrites
      · exact .failed _ s.input

theorem submit_effect (hphase : s.phase = .submitting job)
    (h : s.pool.submit c.queueDepth job = some (.ok pool)) :
    Effect c s { s with pool := pool, phase := .reading } := by
  unfold AeadPool.submit at h
  split at h
  · cases h
  · split at h
    · rename_i hspace
      cases h
      refine .moved ⟨rfl, rfl, rfl, rfl, rfl, rfl⟩ ?_ rfl (fun hb => ⟨?_, hb.2⟩) (.inr ⟨?_, ?_⟩) rfl
      · have hpending : s.pending = [job] := by rw [pending, hphase]
        unfold jobs
        rw [hpending]
        simp only [pending, List.nil_append, List.append_assoc]
        exact List.perm_middle
      · simpa using Nat.succ_le_of_lt hspace
      · rw [hphase]
        exact id
      · exact ReceiverPhase.noConfusion
    · cases h

theorem take_effect (h : s.pool.take c.workers = some pool) :
    Effect c s { s with pool := pool } := by
  unfold AeadPool.take at h
  split at h
  · cases h
  · rename_i job queue hqueue
    split at h
    · rename_i hidle
      cases h
      refine .moved ⟨rfl, rfl, rfl, rfl, rfl, rfl⟩ ?_ rfl (fun hb => ⟨?_, ?_⟩) (.inl rfl) rfl
      · refine List.Perm.append_left s.pending ?_
        rw [hqueue]
        exact (List.append_assoc ..).symm ▸ (List.perm_append_singleton job _)
      · have hlen := hb.1
        rw [hqueue, List.length_cons] at hlen
        exact Nat.le_of_succ_le hlen
      · simpa using Nat.succ_le_of_lt hidle
    · cases h

theorem drain_some {error : Option Failure}
    (h : s.pool.drain = some (pool, error)) :
    pool = { s.pool with firstError := none } ∧ error = s.pool.firstError ∧ s.pool.queue = [] ∧
      s.pool.active = [] := by
  unfold AeadPool.drain at h
  split at h
  · rename_i hidle
    cases h
    exact ⟨rfl, rfl, hidle.1, hidle.2⟩
  · cases h

theorem next_effect {event : ReceiverEvent} {s' : Receiver} (h : next c s event = some s') :
    Effect c s s' := by
  unfold next at h
  split at h
  · cases h
  · cases event with
    | arrive bytes =>
      cases h
      exact .moved ⟨rfl, rfl, rfl, rfl, rfl, rfl⟩ (List.Perm.refl _) rfl id (.inl rfl) rfl
    | lost e =>
      dsimp only at h
      split at h
      · cases h
        exact .failed e s.input
      · cases h
    | read calls =>
      dsimp only at h
      split at h
      · rename_i hwaits
        split at h
        · rename_i frame rest _
          cases h
          exact handle_effect hwaits frame rest
        · cases h
        · cases h
          exact .failed _ s.input
      · cases h
    | submit =>
      dsimp only at h
      split at h
      · rename_i job hphase
        split at h
        · cases h
        · cases h
          exact .failed _ s.input
        · rename_i pool hsubmit
          cases h
          exact submit_effect hphase hsubmit
      · cases h
    | take =>
      obtain ⟨pool, hpool, rfl⟩ := Option.map_eq_some_iff.mp h
      exact take_effect hpool
    | finish i calls =>
      dsimp only at h
      split at h
      · rename_i job offer hjob hoffer
        cases h
        exact finishJob_effect hoffer hjob
      · cases h
    | drain calls =>
      dsimp only at h
      split at h
      · rename_i offer hphase hoffer
        split at h
        · cases h
        · rename_i pool e hdrain
          cases h
          obtain ⟨rfl, -⟩ := drain_some hdrain
          exact .ended trivial (.inl rfl)
        · rename_i pool hdrain
          cases h
          obtain ⟨rfl, hclean, hqueue, hactive⟩ := drain_some hdrain
          have hpool : ({ s.pool with firstError := none } : AeadPool OpenJob) = s.pool := by
            rw [hclean]
          rw [hpool]
          exact finalise_effect hoffer hphase hqueue hactive hclean.symm
      · cases h

end Receiver

end DropZone
