import Mathlib.Data.List.Nodup
import DropZone.Transfer.Completeness
import DropZone.Transfer.Outgoing

/-!
# What is in the output files

* `Receiver.Numbered`: as long as nothing fails, the chunks accepted are numbered in turn, each bears
  the counter of its number, and each is either written or still with the pool.
* `Receiver.Stored`: an output is the zeros it was opened with, with the chunks written over them.
* `outputs_eq_source`: if the chunks written are those of a sender's plan, an acknowledged transfer
  leaves the sender's files.
-/

namespace DropZone

open LittleEndian Parser Pieces System

/-! ## Paths -/

/-- Joining a safe path to a directory puts the same bytes before it, whatever the path. -/
theorem joinPath_of_safe {a b : Bytes} (h : isSafeRelativePath b = true) :
    joinPath a b = (if a = [] then [] else if a.getLast? = some 47 then a else a ++ [47]) ++ b := by
  simp only [isSafeRelativePath, Bool.and_eq_true, bne_iff_ne] at h
  have hne : b ≠ [] := h.1.1.1.1.1
  have hhead : b.head? ≠ some 47 := h.1.1.1.2
  unfold joinPath
  rw [if_neg hne, if_neg hhead]
  split
  · rfl
  · split
    · rfl
    · rw [List.append_assoc]
      rfl

theorem joinPath_inj {directory a b : Bytes} (ha : isSafeRelativePath a = true)
    (hb : isSafeRelativePath b = true) (h : joinPath directory a = joinPath directory b) :
    a = b := by
  rw [joinPath_of_safe ha, joinPath_of_safe hb] at h
  exact List.append_cancel_left h

/-- A job bears the header of its bytes, with the counter of its number. -/
structure OpenJob.Numbered (job : OpenJob) : Prop where
  header_eq : job.header = decodeChunkHeader job.sealed
  long : kChunkHeaderSize ≤ job.sealed.length
  counter : job.header.counter = UInt64.ofNat job.number

namespace Receiver

variable {c : Receiving} {s s' : Receiver}

/-! ## Numbers and counters -/

/-- Nothing has gone wrong so far. -/
def Clean (s : Receiver) : Prop := s.pool.firstError = none ∧ ¬ s.phase.Ended

@[simp] theorem commit_pool (n : Nat) (header : ChunkHeader) (data : Bytes) :
    (s.commit n header data).pool = s.pool := by
  unfold commit
  split <;> rfl

theorem Clean.of_effect (he : Effect c s s') (h : s'.Clean) : s.Clean := by
  obtain ⟨herror, hphase⟩ := h
  cases he with
  | ended ended => exact absurd ended hphase
  | moved data jobs error bounded phase =>
    refine ⟨error.symm.trans herror, ?_⟩
    rcases phase with phase | phase
    · rwa [phase] at hphase
    · exact phase.1
  | dropped active => simp [AeadPool.finish] at herror
  | opened waits => exact ⟨herror, waits.not_ended⟩
  | accepted waits => exact ⟨herror, waits.not_ended⟩
  | wrote waits => exact ⟨by simpa using herror, waits.not_ended⟩
  | finished => exact ⟨by simpa [AeadPool.finish] using herror, by simpa using hphase⟩
  | acked offer_eq draining queue active clean =>
    refine ⟨clean, ?_⟩
    rw [draining]
    exact id

/-- The chunks accepted are numbered in turn, and each is either written or a job. -/
structure Numbered (c : Receiving) (s : Receiver) : Prop where
  numbers : (s.log.map ChunkWrite.number ++ s.jobs.map OpenJob.number).Perm (List.range s.received)
  counter : s.expectedCounter = UInt64.ofNat s.received
  jobs : ∀ job ∈ s.jobs, job.Numbered
  bounded : s.Bounded c

theorem numbered_init (disk : Disk) : (init disk).Numbered c where
  numbers := List.Perm.refl _
  counter := rfl
  jobs _ h := absurd h List.not_mem_nil
  bounded := ⟨Nat.zero_le _, Nat.zero_le _⟩

/-- A thread that reads a frame has all its chunks in the pool. -/
theorem Waits.jobs_eq (h : s.Waits) : s.jobs = s.pool.queue ++ s.pool.active := by
  unfold jobs
  rw [h.pending_eq, List.nil_append]

theorem finish_perm {i : Nat} {job : OpenJob} (h : s.pool.active[i]? = some job)
    (error : Option Failure) :
    s.jobs.Perm (job :: jobs { s with pool := s.pool.finish i error }) := by
  obtain ⟨hi, rfl⟩ := List.getElem?_eq_some_iff.mp h
  have hactive := (List.getElem_cons_eraseIdx_perm hi).symm
  have hpool := (hactive.append_left s.pool.queue).trans List.perm_middle
  exact (hpool.append_left s.pending).trans List.perm_middle

theorem commit_log {n : Nat} {header : ChunkHeader} (data : Bytes)
    (h : header.Inside (s.files.map OutputFile.expectedSize)) :
    (s.commit n header data).log =
      s.log ++ [⟨n, header.fileIndex.toNat, header.offset.toNat, data⟩] := by
  obtain ⟨size, hsize, -⟩ := h
  rw [List.getElem?_map] at hsize
  obtain ⟨file, hfile, -⟩ := Option.map_eq_some_iff.mp hsize
  unfold commit
  rw [hfile]

@[simp] theorem commit_received (n : Nat) (header : ChunkHeader) (data : Bytes) :
    (s.commit n header data).received = s.received := by
  unfold commit
  split <;> rfl

@[simp] theorem commit_expectedCounter (n : Nat) (header : ChunkHeader) (data : Bytes) :
    (s.commit n header data).expectedCounter = s.expectedCounter := by
  unfold commit
  split <;> rfl

/-- Nothing of the numbers is in the phase, as long as no job waits there. -/
theorem Numbered.regroup {input sent : Bytes} {phase : ReceiverPhase} {offer : Option TransferOffer}
    {files : List OutputFile} {disk : Disk} (h : s.Numbered c)
    (hjobs : s.jobs = s.pool.queue ++ s.pool.active)
    (hjobs' : Receiver.jobs { s with input := input, sent := sent, phase := phase, offer := offer
                                     files := files, disk := disk } =
      s.pool.queue ++ s.pool.active) :
    Numbered c { s with input := input, sent := sent, phase := phase, offer := offer
                        files := files, disk := disk } := by
  rw [← hjobs] at hjobs'
  refine ⟨?_, h.counter, ?_, h.bounded⟩
  · rw [hjobs']
    exact h.numbers
  · rw [hjobs']
    exact h.jobs

/-- A step that leaves the run clean keeps the numbers. -/
theorem Numbered.step (h : s.Numbered c) (hcounted : s.Counted c) (he : Effect c s s')
    (hclean : s'.Clean) : s'.Numbered c := by
  cases he with
  | ended ended => exact absurd ended hclean.2
  | moved data hjobs error bounded phase =>
    refine ⟨?_, ?_, fun job hjob => h.jobs job (hjobs.subset hjob), bounded h.bounded⟩
    · rw [data.log, data.received]
      exact ((hjobs.map _).append_left _).trans h.numbers
    · rw [data.expectedCounter, data.received]
      exact h.counter
  | dropped active =>
    have herror := hclean.1
    simp [AeadPool.finish] at herror
  | opened waits => exact h.regroup waits.jobs_eq rfl
  | @accepted offer sealed input waits accepts encrypted long =>
    have hcounter := (validateChunk_ok accepts.valid).2
    have hjobs := waits.jobs_eq
    have hnumbers := h.numbers
    rw [hjobs] at hnumbers
    refine ⟨?_, ?_, ?_, h.bounded⟩
    · dsimp only
      rw [List.range_succ]
      exact List.perm_middle.trans ((hnumbers.cons _).trans (List.perm_append_singleton _ _).symm)
    · dsimp only
      rw [h.counter, UInt64.ofNat_add]
      rfl
    · rintro job (_ | ⟨_, hjob⟩)
      · exact ⟨rfl, long, hcounter.trans h.counter⟩
      · exact h.jobs job (hjobs ▸ hjob)
  | @wrote offer header data input calls waits accepts plain length write =>
    have hlog := commit_log (s := { s with input := input, expectedCounter := s.expectedCounter + 1
                                           received := s.received + 1 }) (n := s.received) data
      (validateChunk_ok accepts.valid).1
    refine ⟨?_, ?_, ?_, ?_⟩
    · rw [hlog, commit_jobs, commit_received, List.map_append, List.append_assoc,
        List.range_succ]
      exact List.perm_middle.trans ((h.numbers.cons _).trans (List.perm_append_singleton _ _).symm)
    · rw [commit_expectedCounter, commit_received, UInt64.ofNat_add, h.counter]
      rfl
    · rw [commit_jobs]
      exact h.jobs
    · simpa [Bounded] using h.bounded
  | @finished offer i job data calls offer_eq active run write =>
    have hperm := finish_perm active none
    have hlog := commit_log (s := { s with pool := s.pool.finish i none }) (n := job.number) data
      (hcounted.jobs job (mem_jobs_of_active active))
    refine ⟨?_, ?_, ?_, ?_⟩
    · rw [hlog, commit_jobs, commit_received, List.map_append, List.append_assoc]
      exact ((hperm.map OpenJob.number).symm.append_left _).trans h.numbers
    · rw [commit_expectedCounter, commit_received]
      exact h.counter
    · rw [commit_jobs]
      exact fun j hj => h.jobs j (hperm.symm.subset (List.mem_cons_of_mem _ hj))
    · refine ⟨?_, ?_⟩
      · simpa [AeadPool.finish] using h.bounded.1
      · have hle := (List.eraseIdx_sublist s.pool.active i).length_le
        simpa [AeadPool.finish] using hle.trans h.bounded.2
  | acked offer_eq draining =>
    refine h.regroup ?_ rfl
    unfold Receiver.jobs pending
    rw [draining, List.nil_append]

theorem Numbered.of_reach {disk : Disk} (h : Reach (· = init disk) (Step c) s) (hclean : s.Clean) :
    s.Numbered c := by
  induction h with
  | init h =>
    cases h
    exact numbered_init disk
  | step hreach hs ih =>
    have he := next_effect hs
    exact (ih (hclean.of_effect he)).step (counted_of_reach hreach) he hclean

/-! ## Contents -/

/-- Every output is the zeros it was opened with and the chunks written over them. -/
def Stored (s : Receiver) : Prop :=
  (s.files.map OutputFile.path).Nodup → ∀ i file, s.files[i]? = some file →
    s.disk file.path =
      overlayAll (List.replicate file.expectedSize.toNat 0) (pieces s.log i)

theorem Stored.commit (h : s.Stored) (n : Nat) (header : ChunkHeader) (data : Bytes) :
    (s.commit n header data).Stored := by
  intro hnodup i file hfile
  rw [commit_map _ fun _ _ => rfl] at hnodup
  obtain ⟨old, hold, hpath, hsize, hif⟩ := commit_file hfile
  have hbefore := h hnodup i old hold
  rw [hpath, hsize]
  split at hif
  · rename_i hi
    rw [hif.2, overlayAll_append, ← hbefore]
    unfold Receiver.commit
    rw [← hi, hold]
    exact Function.update_self ..
  · rename_i hi
    rw [hif.2, ← hbefore]
    unfold Receiver.commit
    split
    · rfl
    · rename_i other hother
      refine Function.update_of_ne (fun heq => hi ?_) ..
      have hlt : i < (s.files.map OutputFile.path).length := by
        rw [List.length_map]
        exact (List.getElem?_eq_some_iff.mp hold).1
      refine (List.getElem?_inj hlt hnodup).mp ?_
      rw [List.getElem?_map, List.getElem?_map, hold, hother, Option.map_some, Option.map_some, heq]

theorem Stored.same (h : s.Stored) (hfiles : s'.files = s.files) (hdisk : s'.disk = s.disk)
    (hlog : s'.log = s.log) : s'.Stored := by
  unfold Stored
  rw [hfiles, hdisk, hlog]
  exact h

/-- A step keeps the outputs what was written to them. -/
theorem Stored.step (h : s.Stored) (hcounted : s.Counted c) (he : Effect c s s') : s'.Stored := by
  cases he with
  | moved data => exact h.same data.files data.disk data.log
  | opened waits fresh read resolved opened =>
    have hpaths := (resolveOutputPaths_ok resolved).1
    have hopen := openOutputs_ok (by rw [hpaths, List.length_map]) opened
    intro hnodup i file hfile
    dsimp only at hnodup hfile ⊢
    rw [hopen.paths_eq] at hnodup
    rw [(hcounted.fresh fresh).2]
    exact hopen.zeros hnodup file (List.mem_of_getElem? hfile)
  | @wrote offer header data input calls =>
    exact Stored.commit (s := { s with input := input, expectedCounter := s.expectedCounter + 1
                                       received := s.received + 1 }) h s.received header data
  | @finished offer i job data =>
    exact Stored.commit (s := { s with pool := s.pool.finish i none }) h job.number job.header data
  | ended | dropped | accepted | acked => exact h.same rfl rfl rfl

theorem stored_of_reach {disk : Disk} (h : Reach (· = init disk) (Step c) s) : s.Stored := by
  induction h with
  | init h =>
    cases h
    intro _ i file hfile
    simp [init] at hfile
  | step hreach hs ih => exact ih.step (counted_of_reach hreach) (next_effect hs)

end Receiver

/-! ## The chunks of a sender -/

/-- `w` wrote the chunk of `t`'s plan that has its number. -/
structure ChunkWrite.Of (t : Sending) (w : ChunkWrite) (chunk : ChunkPlan) : Prop where
  planned : t.plan[w.number]? = some chunk
  file_eq : w.file = chunk.fileIndex.toNat
  offset_eq : w.offset = chunk.offset.toNat
  data_eq : w.data = t.chunkData chunk

namespace Receiver

variable {c : Receiving} {s : Receiver} {t : Sending}

/-- Different chunks of a plan do not overlap where they were written. -/
theorem spans_apart (hnumbers : (s.log.map ChunkWrite.number).Nodup)
    (hlog : ∀ w ∈ s.log, ∃ chunk, w.Of t chunk) (i : Nat) : Apart (spans s.log i) := by
  have hne : s.log.Pairwise fun v w => v.number ≠ w.number := List.pairwise_map.mp hnumbers
  rw [Apart, spans, pieces, List.pairwise_map, List.pairwise_map]
  refine (hne.filter _).imp_of_mem ?_
  intro v w hv hw hvw
  obtain ⟨hv, hvi⟩ := List.mem_filter.mp hv
  obtain ⟨hw, hwi⟩ := List.mem_filter.mp hw
  obtain ⟨a, ha⟩ := hlog v hv
  obtain ⟨b, hb⟩ := hlog w hw
  have hfile : a.fileIndex = b.fileIndex := by
    apply UInt32.toNat.inj
    rw [← ha.file_eq, ← hb.file_eq, of_decide_eq_true hvi, of_decide_eq_true hwi]
  have hapart := Sending.plan_apart ha.planned hb.planned hvw hfile
  have hlena := (Sending.chunkData_piece (List.mem_of_getElem? ha.planned)).1
  have hlenb := (Sending.chunkData_piece (List.mem_of_getElem? hb.planned)).1
  rw [ha.offset_eq, ha.data_eq, hlena, hb.offset_eq, hb.data_eq, hlenb]
  exact hapart

/-- What was written to a file are pieces of the source. -/
theorem pieces_of (hlog : ∀ w ∈ s.log, ∃ chunk, w.Of t chunk) (i : Nat) :
    ∀ p ∈ pieces s.log i, PieceOf (t.contents i) p := by
  intro p hp
  obtain ⟨w, hw, rfl⟩ := List.mem_map.mp hp
  obtain ⟨hw, hwi⟩ := List.mem_filter.mp hw
  obtain ⟨chunk, hof⟩ := hlog w hw
  have hi : chunk.fileIndex.toNat = i := hof.file_eq ▸ of_decide_eq_true hwi
  rw [hof.offset_eq, hof.data_eq, ← hi]
  exact (Sending.chunkData_piece (List.mem_of_getElem? hof.planned)).2

theorem Counted.paths_nodup (h : s.Counted c) (hoffer : s.offer = some t.offer)
    (hpaths : (t.manifest.files.map LocalFile.relativePath).Nodup) :
    (s.files.map OutputFile.path).Nodup := by
  rw [(h.outputs _ hoffer).paths]
  have hentries : t.offer.entries.map (fun entry => joinPath c.directory entry.path) =
      t.manifest.files.map fun file => joinPath c.directory file.relativePath := by
    simp [Sending.offer, Sending.entries, toWireEntries]
  rw [hentries, List.Nodup, List.pairwise_map]
  refine (List.pairwise_map.mp hpaths).imp_of_mem ?_
  intro a b ha hb hne heq
  exact hne (joinPath_inj (t.manifest.safe a ha) (t.manifest.safe b hb) heq)

end Receiver

open Receiver

/-- A complete transfer of a sender's chunks leaves the sender's files. -/
theorem outputs_eq_source {c : Receiving} {s : Receiver} {t : Sending} (hcounted : s.Counted c)
    (hstored : s.Stored) (hdone : ∀ file ∈ s.files, file.written = file.expectedSize)
    (hoffer : s.offer = some t.offer)
    (hnumbers : (s.log.map ChunkWrite.number).Nodup)
    (hlog : ∀ w ∈ s.log, ∃ chunk, w.Of t chunk)
    (hpaths : (t.manifest.files.map LocalFile.relativePath).Nodup) {i : Nat} {file : LocalFile}
    (hfile : t.manifest.files[i]? = some file) :
    s.disk (joinPath c.directory file.relativePath) = t.source file.sourcePath := by
  obtain ⟨entry, hentry, hsize, hpath⟩ := Sending.entries_getElem? hfile
  obtain ⟨out, hout, houtsize, houtpath⟩ := hcounted.output hoffer hentry
  have hcontents : t.contents i = t.source file.sourcePath := by
    rw [Sending.contents, hfile]
  have hlen : (t.contents i).length = out.expectedSize.toNat := by
    rw [hcontents, t.unchanged file (List.mem_of_getElem? hfile), houtsize, hsize]
  have hcovers := hcounted.covers hdone hout (spans_apart hnumbers hlog i)
  rw [← hlen] at hcovers
  rw [← hpath, ← houtpath, hstored (hcounted.paths_nodup hoffer hpaths) i out hout, ← hcontents]
  exact overlayAll_eq (by rw [List.length_replicate, hlen]) (pieces_of hlog i) hcovers

end DropZone
