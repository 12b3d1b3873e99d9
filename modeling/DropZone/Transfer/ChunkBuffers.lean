import DropZone.Transfer.Integrity

/-!
# The buffers of the decryption jobs (`client/src/receiver.cpp`)

A job decrypts the body of its frame into a buffer of `plaintext_length` bytes, and the tag is
checked after that.

* `writeBody`: the body written byte for byte, with the index that is out of range as a failure;
  `OpenJob.run_overrun`: a job overruns its buffer when that fails; `OpenJob.run_ne_plain`: if it goes
  on all the same, nothing of it gets into a file.
* `chunk_buffers_suffice`: where the chunk frames are no longer than their headers say, no job ever
  does. `forged_chunk_overruns`: a frame of a stranger, without any key, makes one do so.
-/

namespace DropZone

open LittleEndian System

/-- `EVP_DecryptUpdate` from index `i` on; none if it writes past the end. -/
def writeBody (buffer : Bytes) : Nat → Bytes → Option Bytes
  | _, [] => some buffer
  | i, x :: body => if i < buffer.length then writeBody (buffer.set i x) (i + 1) body else none

theorem writeBody_isSome {buffer : Bytes} {i : Nat} {body : Bytes} (hi : i ≤ buffer.length) :
    (writeBody buffer i body).isSome ↔ i + body.length ≤ buffer.length := by
  induction body generalizing buffer i with
  | nil => simpa [writeBody] using hi
  | cons x body ih =>
    rw [writeBody, List.length_cons]
    split
    · rename_i hlt
      rw [ih (by rw [List.length_set]; exact hlt), List.length_set]
      omega
    · constructor
      · intro h
        cases h
      · intro h
        omega

/-- The bytes that `Aead::open` decrypts. -/
def OpenJob.bodyLength (job : OpenJob) : Nat := job.sealed.length - kChunkHeaderSize - kAeadTagSize

/-- The buffer takes whatever `Aead::open` writes into it. -/
def OpenJob.Fits (job : OpenJob) : Prop :=
  ∀ body : Bytes, body.length = job.bodyLength →
    (writeBody (List.replicate job.header.plaintextLength.toNat 0) 0 body).isSome

theorem OpenJob.fits_iff (job : OpenJob) :
    job.Fits ↔ job.bodyLength ≤ job.header.plaintextLength.toNat := by
  unfold Fits
  simp only [writeBody_isSome (Nat.zero_le _), Nat.zero_add, List.length_replicate]
  constructor
  · intro h
    have := h (List.replicate job.bodyLength 0) List.length_replicate
    rwa [List.length_replicate] at this
  · intro h body hbody
    rw [hbody]
    exact h

/-- A job overruns its buffer just when the buffer does not take the body and that does harm. -/
theorem OpenJob.run_overrun (c : Receiving) (calls : Calls) (algorithm : AeadAlgorithm) (job : OpenJob) :
    job.run c calls algorithm = .overrun ↔ calls.harm = true ∧ ¬ job.Fits := by
  rw [fits_iff, bodyLength, run, List.length_drop]
  split
  · rename_i hshort
    exact iff_of_false Opened.noConfusion (by omega)
  · split
    · rename_i hlong
      exact iff_of_true rfl ⟨hlong.1, Nat.not_le.mpr hlong.2⟩
    · rename_i hfits
      refine iff_of_false ?_ fun hlong => hfits ⟨hlong.1, Nat.not_le.mp hlong.2⟩
      split
      · exact Opened.noConfusion
      · split <;> exact Opened.noConfusion

/-- Where it does no harm, the job fails: what it has decrypted is longer than its header says. -/
theorem OpenJob.run_ne_plain {c : Receiving} {calls : Calls} {algorithm : AeadAlgorithm} {job : OpenJob}
    (h : ¬ job.Fits) (data : Bytes) : job.run c calls algorithm ≠ .plain data := by
  intro hrun
  obtain ⟨hopen, hlength⟩ := OpenJob.run_plain hrun
  have hcipher := c.aead.length_open _ _ _ _ _ _ hopen
  rw [List.length_drop] at hcipher
  rw [fits_iff, bodyLength] at h
  omega

namespace Receiver

/-- The chunk frames of an encrypted transfer are no longer than their headers say. -/
def Sized (s : Receiver) : ReceiverEvent → Prop
  | .read _ => ∀ offer ∈ s.offer, ∀ read ∈ ((readFrame .peerClosed).run s.input).toOption,
      offer.encryptPayload = true → read.1.header.type = .chunk →
      read.1.payload.length ≤ kChunkHeaderSize +
        (decodeChunkHeader read.1.payload).plaintextLength.toNat + kAeadTagSize
  | _ => True

instance (s : Receiver) : (e : ReceiverEvent) → Decidable (s.Sized e)
  | .read _ => inferInstanceAs (Decidable (∀ offer ∈ s.offer, ∀ read ∈ _, _))
  | .arrive _ | .lost _ | .submit | .take | .finish _ _ | .drain _ => inferInstanceAs (Decidable True)

variable {c : Receiving} {s s' : Receiver} {e : ReceiverEvent}

/-! ## Where jobs come from -/

/-- Where the thread that reads may be after a frame. -/
structure Goes (s : Receiver) (frame : Frame) (phase : ReceiverPhase) : Prop where
  sound : phase ≠ .overrun
  job : ∀ job, phase = .submitting job → ∃ offer, s.offer = some offer ∧
    offer.encryptPayload = true ∧ frame.header.type = .chunk ∧
      job = ⟨decodeChunkHeader frame.payload, frame.payload, s.received⟩

theorem Goes.failed {frame : Frame} (err : Failure) : s.Goes frame (.failed err) :=
  ⟨ReceiverPhase.noConfusion, fun _ => ReceiverPhase.noConfusion⟩

theorem receiveFrame_goes {calls : Calls} {offer : TransferOffer} {frame : Frame}
    (hwaits : s.Waits) (hoffer : s.offer = some offer) :
    s.Goes frame (receiveFrame calls offer frame s).phase := by
  unfold receiveFrame
  split
  · exact ⟨ReceiverPhase.noConfusion, fun _ => ReceiverPhase.noConfusion⟩
  split
  · exact .failed _
  split
  · exact .failed _
  rename_i hchunk
  split
  · exact .failed _
  dsimp only
  split
  · exact .failed _
  split
  · rename_i hencrypted
    refine ⟨ReceiverPhase.noConfusion, fun job h => ?_⟩
    cases h
    exact ⟨offer, hoffer, hencrypted, not_not.mp hchunk, rfl⟩
  split
  · exact .failed _
  split
  · exact .failed _
  -- a plaintext chunk leaves the thread where it was
  rw [(pool_commit ..).2]
  rcases hwaits with hp | hp <;> rw [hp] <;>
    exact ⟨ReceiverPhase.noConfusion, fun _ => ReceiverPhase.noConfusion⟩

theorem handle_goes {calls : Calls} {frame : Frame} (hwaits : s.Waits) :
    s.Goes frame (handle c calls frame s).phase := by
  unfold handle
  split
  · split
    · exact .failed _
    · unfold start orFail
      repeat' split
      all_goals exact ⟨ReceiverPhase.noConfusion, fun _ => ReceiverPhase.noConfusion⟩
  · rename_i offer hoffer
    exact receiveFrame_goes hwaits hoffer

/-- A new job is the one that waits to be handed to the pool. -/
theorem Effect.mem_jobs (h : Effect c s s') {job : OpenJob} (hjob : job ∈ s'.jobs) :
    job ∈ s.jobs ∨ s'.phase = .submitting job := by
  have hkept : ∀ {t : Receiver}, t.pool.queue = s.pool.queue → t.pool.active ⊆ s.pool.active →
      job ∈ t.jobs → job ∈ s.jobs ∨ t.phase = .submitting job := by
    intro t hqueue hactive hmem
    rcases List.mem_append.mp hmem with hpending | hmem
    · unfold pending at hpending
      split at hpending
      · rename_i job' hphase
        rw [List.mem_singleton.mp hpending]
        exact .inr hphase
      · cases hpending
    · refine .inl (List.mem_append_right _ ?_)
      rcases List.mem_append.mp hmem with hmem | hmem
      · exact List.mem_append_left _ (hqueue ▸ hmem)
      · exact List.mem_append_right _ (hactive hmem)
  cases h with
  | moved _ hperm => exact .inl (hperm.mem_iff.mp hjob)
  | dropped hactive => exact hkept rfl (List.eraseIdx_subset) hjob
  | finished _ hactive =>
    refine hkept ?_ ?_ hjob <;> rw [(pool_commit ..).1]
    · rfl
    · exact List.eraseIdx_subset
  | wrote =>
    refine hkept ?_ ?_ hjob <;> rw [(pool_commit ..).1]
    exact List.Subset.refl _
  | ended => exact hkept rfl (List.Subset.refl _) hjob
  | opened => exact hkept rfl (List.Subset.refl _) hjob
  | accepted => exact hkept rfl (List.Subset.refl _) hjob
  | acked => exact hkept rfl (List.Subset.refl _) hjob

/-! ## Whole runs -/

/-- Nothing was written out of range, and no job will. -/
structure Fitting (s : Receiver) : Prop where
  sound : s.phase ≠ .overrun
  jobs : ∀ job ∈ s.jobs, job.Fits

theorem Fitting.finishJob (h : s.Fitting) {calls : Calls} {offer : TransferOffer} {i : Nat}
    {job : OpenJob} (hjob : s.pool.active[i]? = some job) :
    (s.finishJob c calls offer i job).phase = s.phase := by
  unfold Receiver.finishJob
  split
  · rename_i hrun
    exact absurd (h.jobs job (mem_jobs_of_active hjob)) ((job.run_overrun c calls _).mp hrun).2
  · rfl
  · split
    · rfl
    · exact (pool_commit ..).2

/-- Where a step takes the thread that reads. -/
theorem Fitting.phase (h : s.Fitting) (hsized : s.Sized e) (hn : next c s e = some s') :
    s'.phase ≠ .overrun ∧
      ∀ job, s'.phase = .submitting job → s.phase = .submitting job ∨ job.Fits := by
  have hsame : ∀ {t : Receiver}, t.phase = s.phase → t.phase ≠ .overrun ∧
      ∀ job, t.phase = .submitting job → s.phase = .submitting job ∨ job.Fits :=
    fun ht => ⟨fun hover => h.sound (ht.symm.trans hover), fun _ hjob => .inl (ht.symm.trans hjob)⟩
  have hnever : ∀ {p : ReceiverPhase}, p ≠ .overrun → (∀ job, p ≠ .submitting job) →
      p ≠ .overrun ∧ ∀ job, p = .submitting job → s.phase = .submitting job ∨ job.Fits :=
    fun hp hjobs => ⟨hp, fun job hjob => absurd hjob (hjobs job)⟩
  unfold next at hn
  rw [if_neg h.sound] at hn
  cases e with
  | arrive bytes =>
    cases hn
    exact hsame rfl
  | lost err =>
    obtain ⟨-, hn⟩ := Option.ite_none_right_eq_some.mp hn
    cases hn
    exact hnever ReceiverPhase.noConfusion fun _ => ReceiverPhase.noConfusion
  | read calls =>
    obtain ⟨hwaits, hn⟩ := Option.ite_none_right_eq_some.mp hn
    split at hn
    · rename_i frame rest hread
      cases hn
      have hgoes : Goes _ frame (handle c calls frame { s with input := rest }).phase :=
        handle_goes hwaits
      refine ⟨hgoes.sound, fun job hjob => .inr ?_⟩
      obtain ⟨offer, hoffer, hencrypted, hchunk, rfl⟩ := hgoes.job job hjob
      have hlen := hsized offer hoffer (frame, rest) (by rw [hread]; rfl) hencrypted hchunk
      rw [OpenJob.fits_iff, OpenJob.bodyLength]
      dsimp only at hlen ⊢
      omega
    · cases hn
    · cases hn
      exact hnever ReceiverPhase.noConfusion fun _ => ReceiverPhase.noConfusion
  | submit =>
    dsimp only at hn
    split at hn
    · split at hn
      · cases hn
      all_goals
        cases hn
        exact hnever ReceiverPhase.noConfusion fun _ => ReceiverPhase.noConfusion
    · cases hn
  | take =>
    obtain ⟨pool, -, rfl⟩ := Option.map_eq_some_iff.mp hn
    exact hsame rfl
  | finish i calls =>
    dsimp only at hn
    split at hn
    · rename_i job offer hjob _
      cases hn
      exact hsame (h.finishJob hjob)
    · cases hn
  | drain calls =>
    dsimp only at hn
    split at hn
    · split at hn
      · cases hn
      · cases hn
        exact hnever ReceiverPhase.noConfusion fun _ => ReceiverPhase.noConfusion
      · cases hn
        unfold finalise orFail
        repeat' split
        all_goals exact hnever ReceiverPhase.noConfusion fun _ => ReceiverPhase.noConfusion
    · cases hn

theorem Fitting.step (h : s.Fitting) (hsized : s.Sized e) (hn : next c s e = some s') :
    s'.Fitting := by
  obtain ⟨hsound, hsubmits⟩ := h.phase hsized hn
  refine ⟨hsound, fun job hjob => ?_⟩
  rcases (next_effect hn).mem_jobs hjob with hold | hnew
  · exact h.jobs job hold
  · rcases hsubmits job hnew with hold | hfits
    · exact h.jobs job (List.mem_append_left _ (by rw [pending, hold]; exact List.mem_singleton_self _))
    · exact hfits

end Receiver

open Receiver

/-- In every run in which the chunk frames of an encrypted transfer are no longer than their headers
say, the buffer of every decryption job takes what is written into it before the tag is checked. -/
theorem chunk_buffers_suffice {c : Receiving} {disk : Disk} {s : Receiver}
    (h : Reach (· = init disk) (fun s e s' => Step c s e s' ∧ s.Sized e) s) :
    s.phase ≠ .overrun ∧ ∀ job ∈ s.jobs, ∀ body : Bytes, body.length = job.bodyLength →
      (writeBody (List.replicate job.header.plaintextLength.toNat 0) 0 body).isSome := by
  have hfitting : s.Fitting := by
    refine Reach.invariant (I := Fitting) (fun t ht => ?_) (fun _ _ _ ht hstep => ?_) h
    · subst ht
      exact ⟨ReceiverPhase.noConfusion, fun job hjob => absurd hjob List.not_mem_nil⟩
    · exact ht.step hstep.2 hstep.1
  exact ⟨hfitting.sound, hfitting.jobs⟩

/-- The two chunks of an honest sender are read and handed to the pool. -/
theorem chunk_buffers_suffice_honest :
    ∃ s : Receiver, s.received = 2 ∧ s.phase ≠ .overrun := by
  obtain ⟨s, hs, hreceived⟩ : ∃ s ∈ runFrom (fun s e => if s.Sized e then next clearPeer s e else none)
      (init fun _ => []) (.arrive clearWire :: readChunks 2), s.received = 2 := by
    decide +kernel
  have hreach : Reach (· = init fun _ => []) (fun s e s' => Step clearPeer s e s' ∧ s.Sized e) s :=
    .of_guarded rfl hs
  exact ⟨s, hreceived, (chunk_buffers_suffice hreach).1⟩

/-- The sender's offer, and a chunk of someone who has no key: the header announces no bytes, and 17
follow it. -/
def forgedWire : Bytes :=
  frameBytes .offer clearSending.offerPayload 1 ++
    frameBytes .chunk (encodeChunkHeader ⟨0, 0, 0, 0⟩ ++ List.replicate 17 0)

/-- The job of the forged chunk writes its one byte past the end of an empty buffer. -/
theorem forged_chunk_overruns :
    Session clearSending clearPeer ∧
      ∃ s : Receiver, Reach (· = init fun _ => []) (Step clearPeer) s ∧
        s.offer = some clearSending.offer ∧ clearSending.offer.encryptPayload = true ∧
        (∃ job ∈ s.jobs, ∃ body : Bytes, body.length = job.bodyLength ∧
          writeBody (List.replicate job.header.plaintextLength.toNat 0) 0 body = none) ∧
        ∃ s', Step clearPeer s (.finish 0 {}) s' ∧ s'.phase = .overrun := by
  refine ⟨clear_session, ?_⟩
  obtain ⟨s, hs, hoffer, hjobs, hover⟩ : ∃ s ∈ runFrom (next clearPeer) (init fun _ => [])
      [.arrive forgedWire, .read {}, .read {}, .submit, .take], s.offer = some clearSending.offer ∧
        s.jobs = [⟨⟨0, 0, 0, 0⟩, encodeChunkHeader ⟨0, 0, 0, 0⟩ ++ List.replicate 17 0, 0⟩] ∧
        ∃ s' ∈ next clearPeer s (.finish 0 {}), s'.phase = .overrun := by
    decide +kernel
  refine ⟨s, Reach.of_runFrom (.init rfl) hs, hoffer, rfl, ?_, hover⟩
  rw [hjobs]
  exact ⟨_, List.mem_singleton_self _, [0], rfl, rfl⟩

end DropZone
