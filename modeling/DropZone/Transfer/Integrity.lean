import DropZone.Transfer.Outputs

/-!
# The receiver against an attacker on the path

The attacker feeds the receiver's channel any bytes. The cipher is ideal: under the session's keys
only what the honest sender sealed opens.

* `readOffer_authentic`: an offer that opens is the sender's.
* `OpenJob.authentic`: a chunk that opens is the one of the sender's plan that has its number.
* `acked_integrity`: when `TransferAck` is written, the outputs have the contents of the sender's
  files.
-/

namespace DropZone

open LittleEndian Parser Pieces System

/-- The two ends of a session: they share its keys, and nothing opens under the receiver's keys but
what the sender sealed. -/
structure Session (t : Sending) (c : Receiving) : Prop where
  keys : t.keys.Mirror c.keys
  ideal : c.aead.Ideal [c.keys.receiveKey, c.keys.offerKey] t.sealedMessages

variable {t : Sending} {c : Receiving}

/-! ## What opens -/

theorem readOffer_authentic (h : Session t c) {frame : Frame} {offer : TransferOffer}
    (hread : readOffer c frame = .ok offer) : offer = t.offer := by
  unfold readOffer at hread
  obtain ⟨frame', -, hread⟩ := bind_eq_ok.mp hread
  split at hread
  · split at hread
    · rename_i plain hopen
      obtain ⟨nonce, hopen⟩ := openStandalone_some hopen
      have hplain := Sending.sealed_offer (h.ideal _ _ _ _ _ _ (by simp) hopen) rfl
      dsimp only at hplain
      rw [hplain, TransferOffer.decode_encode t.offer_wellFormed] at hread
      cases hread
      rfl
    · cases hread
  · cases hread

/-- The counters of a session do not repeat. -/
theorem Sending.counter_inj {k n : Nat} {chunk : ChunkPlan} (hk : t.plan[k]? = some chunk)
    (hn : n < 2 ^ 64) (h : UInt64.ofNat k = UInt64.ofNat n) : k = n := by
  have hlt : k < t.plan.length := (List.getElem?_eq_some_iff.mp hk).1
  have hplan : t.plan.length < 2 ^ 59 := t.plan_lt
  have hnat := congrArg UInt64.toNat h
  rwa [UInt64.toNat_ofNat', UInt64.toNat_ofNat', Nat.mod_eq_of_lt (by omega), Nat.mod_eq_of_lt hn]
    at hnat

/-- A chunk that opens is the sender's chunk of that number. Its header is the associated data, so
the file, the offset and the counter are the sender's as well. -/
theorem OpenJob.authentic (h : Session t c) {job : OpenJob} {calls : Calls}
    {algorithm : AeadAlgorithm} {data : Bytes} (hjob : job.Numbered) (hlt : job.number < 2 ^ 64)
    (hrun : job.run c calls algorithm = .plain data) :
    ∃ chunk, t.plan[job.number]? = some chunk ∧ job.header = chunk.header job.number ∧
      data = t.chunkData chunk := by
  have hopen := (OpenJob.run_plain hrun).1
  have haad : (job.sealed.take kChunkHeaderSize).length = kChunkHeaderSize :=
    List.length_take_of_le hjob.long
  obtain ⟨k, chunk, hplan, hmsg⟩ :=
    Sending.sealed_chunk (h.ideal _ _ _ _ _ _ (by simp) hopen) haad
  simp only [Sending.chunkMessage, Sealed.mk.injEq] at hmsg
  obtain ⟨-, -, -, haad, hdata⟩ := hmsg
  have hheader : job.header = chunk.header k := by
    rw [hjob.header_eq, ← List.take_append_drop kChunkHeaderSize job.sealed, haad,
      decodeChunkHeader_encode]
  have hcounter : UInt64.ofNat k = UInt64.ofNat job.number := by
    rw [← hjob.counter, hheader]
    rfl
  obtain rfl := Sending.counter_inj hplan hlt hcounter
  exact ⟨chunk, hplan, hheader, hdata⟩

namespace Receiver

variable {s s' : Receiver}

/-! ## What is accepted -/

/-- The offer is the sender's, and so are the chunks written if the transfer is encrypted. -/
structure Authentic (t : Sending) (s : Receiver) : Prop where
  offer : ∀ offer, s.offer = some offer → offer = t.offer
  log : t.encrypt = true → ∀ w ∈ s.log, ∃ chunk, w.Of t chunk

/-- Chunks that were written are fewer than the plan has. -/
theorem Numbered.log_length_le (h : s.Numbered c) (hlog : ∀ w ∈ s.log, ∃ chunk, w.Of t chunk) :
    s.log.length ≤ t.plan.length := by
  have hnodup : (s.log.map ChunkWrite.number).Nodup :=
    (List.nodup_append.mp (h.numbers.nodup_iff.mpr List.nodup_range)).1
  have hsub : s.log.map ChunkWrite.number ⊆ List.range t.plan.length := by
    intro n hn
    obtain ⟨w, hw, rfl⟩ := List.mem_map.mp hn
    obtain ⟨chunk, hof⟩ := hlog w hw
    exact List.mem_range.mpr (List.getElem?_eq_some_iff.mp hof.planned).1
  simpa using (List.subperm_of_subset hnodup hsub).length_le

/-- The pool is too small for the counter to wrap while authentic chunks are missing. -/
theorem Numbered.number_lt (h : s.Numbered c) (hlog : ∀ w ∈ s.log, ∃ chunk, w.Of t chunk)
    {job : OpenJob} (hjob : job ∈ s.jobs) : job.number < 2 ^ 64 := by
  have hmem : job.number ∈ List.range s.received :=
    h.numbers.subset (List.mem_append_right _ (List.mem_map_of_mem hjob))
  have hlen := h.numbers.length_eq
  have hle := h.log_length_le hlog
  have hplan : t.plan.length < 2 ^ 59 := t.plan_lt
  have hpending : s.pending.length ≤ 1 := by
    unfold pending
    split <;> simp
  have hbounded := h.bounded
  have hworkers := c.workers_lt
  simp only [Bounded, Receiving.queueDepth] at hbounded
  rw [List.mem_range] at hmem
  simp only [List.length_append, List.length_map, List.length_range, Receiver.jobs] at hlen
  omega

theorem Authentic.step (h : s.Authentic t) (hsession : Session t c) (hcounted : s.Counted c)
    (hnumbered : s.Numbered c) (he : Effect c s s') : s'.Authentic t := by
  cases he with
  | moved data =>
    refine ⟨fun offer ho => h.offer offer (data.offer ▸ ho), fun henc w hw => ?_⟩
    exact h.log henc w (data.log ▸ hw)
  | opened waits fresh read =>
    refine ⟨fun offer ho => ?_, h.log⟩
    cases ho
    exact readOffer_authentic hsession read
  | wrote waits accepts plain =>
    -- A plaintext chunk is written only when the sender's offer is unencrypted.
    refine ⟨fun offer ho => h.offer offer (by simpa using ho), fun henc => ?_⟩
    rw [h.offer _ accepts.offer_eq] at plain
    exact absurd (henc.symm.trans plain) (by simp)
  | @finished offer i job data calls offer_eq active run write =>
    have hmem := mem_jobs_of_active active
    refine ⟨fun offer ho => h.offer offer (by simpa using ho), fun henc w hw => ?_⟩
    rw [commit_log (s := { s with pool := s.pool.finish i none }) data (hcounted.jobs job hmem)]
      at hw
    rcases List.mem_append.mp hw with hw | hw
    · exact h.log henc w hw
    · cases List.mem_singleton.mp hw
      obtain ⟨chunk, hplan, hheader, hdata⟩ := OpenJob.authentic hsession
        (hnumbered.jobs job hmem) (hnumbered.number_lt (h.log henc) hmem) run
      refine ⟨chunk, hplan, ?_, ?_, hdata⟩
      · rw [hheader]
        rfl
      · rw [hheader]
        rfl
  | ended | dropped | accepted | acked => exact ⟨h.offer, h.log⟩

theorem Authentic.of_reach (hsession : Session t c) {disk : Disk}
    (h : Reach (· = init disk) (Step c) s) (hclean : s.Clean) : s.Authentic t := by
  induction h with
  | init h =>
    cases h
    exact ⟨fun _ ho => (by cases ho), fun _ w hw => absurd hw List.not_mem_nil⟩
  | step hreach hs ih =>
    have he := next_effect hs
    have hbefore := hclean.of_effect he
    exact (ih hbefore).step hsession (counted_of_reach hreach) (.of_reach hreach hbefore) he

theorem clean_of_acked {disk : Disk} (h : Reach (· = init disk) (Step c) s)
    (hacked : s.phase = .acked) : s.Clean := by
  refine ⟨?_, by rw [hacked]; exact id⟩
  induction h with
  | init h =>
    cases h
    cases hacked
  | @step s s' e hreach hs ih =>
    have hcounted := counted_of_reach hreach
    have hidle : s.phase = .acked → ∀ i : Nat, s.pool.active[i]? = none := by
      intro hs i
      have hjobs := (hcounted.acked hs).1
      simp only [jobs, List.append_eq_nil_iff] at hjobs
      rw [hjobs.2.2]
      rfl
    cases next_effect hs with
    | ended ended =>
      cases hacked
      cases ended
    | moved data hjobs error bounded hphase =>
      rcases hphase with hphase | hphase
      · exact error.trans (ih (hphase ▸ hacked))
      · exact absurd hacked hphase.2
    | dropped active =>
      rw [hidle hacked] at active
      cases active
    | wrote waits =>
      rw [commit_phase] at hacked
      rcases waits with hp | hp <;> cases hp.symm.trans hacked
    | finished offer_eq active =>
      rw [commit_phase] at hacked
      rw [hidle hacked] at active
      cases active
    | acked offer_eq draining queue active clean => exact clean
    | opened | accepted => cases hacked

end Receiver

open Receiver

/-- Whatever bytes an attacker feeds the receiver, in every run that ends with `TransferAck` for an
encrypted offer of distinct paths, the offer is the sender's and every output has the contents of
the sender's file. -/
theorem acked_integrity (t : Sending) (c : Receiving) (hsession : Session t c) (disk : Disk)
    {s : Receiver} (hreach : Reach (· = init disk) (Step c) s) (hacked : s.phase = .acked)
    {offer : TransferOffer} (hoffer : s.offer = some offer) (hencrypted : offer.encryptPayload = true)
    (hpaths : (offer.entries.map ManifestEntry.path).Nodup) :
    offer = t.offer ∧ s.files.length = t.manifest.files.length ∧
      ∀ (i : Nat) (out : OutputFile) (file : LocalFile), s.files[i]? = some out → t.manifest.files[i]? = some file →
        out.path = joinPath c.directory file.relativePath ∧
          s.disk out.path = t.source file.sourcePath := by
  have hclean := clean_of_acked hreach hacked
  have hcounted := counted_of_reach hreach
  have hauthentic := Authentic.of_reach hsession hreach hclean
  obtain rfl := hauthentic.offer offer hoffer
  have hnumbers : (s.log.map ChunkWrite.number).Nodup :=
    (List.nodup_append.mp ((Numbered.of_reach hreach hclean).numbers.nodup_iff.mpr
      List.nodup_range)).1
  have hdistinct : (t.manifest.files.map LocalFile.relativePath).Nodup := by
    simpa [Sending.offer, Sending.entries, toWireEntries, Function.comp_def] using hpaths
  have houtputs := hcounted.outputs _ hoffer
  refine ⟨rfl, ?_, fun i out file hout hfile => ?_⟩
  · have hlen := congrArg List.length houtputs.sizes
    simpa [Sending.offer, Sending.entries, toWireEntries] using hlen
  · obtain ⟨entry, hentry, -, hpath⟩ := Sending.entries_getElem? hfile
    obtain ⟨out', hout', -, houtpath⟩ := hcounted.output hoffer hentry
    cases hout.symm.trans hout'
    rw [houtpath, hpath]
    exact ⟨rfl, outputs_eq_source hcounted (stored_of_reach hreach) (hcounted.acked hacked).2
      hoffer hnumbers
      (hauthentic.log hencrypted) hdistinct hfile⟩

/-! ## A run -/

def clearSending : Sending where
  aead := clearAead fun _ => true
  sha256 _ := List.Vector.replicate 32 0
  keys := zeroKeys
  ownUsername := text "alice"
  manifest :=
    { files := [⟨text "/out/f", text "f", 2, 0o644, by decide, rfl⟩]
      totalBytes := 2
      displayName := text "f"
      nonempty := List.cons_ne_nil _ _
      count_le := by decide
      safe := List.forall_mem_singleton.mpr rfl
      total_eq := rfl }
  source _ := [7, 9]
  chunkSize := 1
  offerNonce := List.Vector.replicate 12 0
  workers := 1
  workers_pos := Nat.one_pos
  workers_lt := one_worker_lt
  username_valid := rfl
  name_lt := by decide
  chunk_usable := ⟨by decide, by decide⟩
  unchanged := List.forall_mem_singleton.mpr rfl
  plan_lt := by decide

def clearPeer : Receiving := clearReceiving fun m => decide (m ∈ clearSending.sealedMessages)

theorem clear_session : Session clearSending clearPeer where
  keys := ⟨rfl, rfl, rfl, rfl, rfl, rfl⟩
  ideal := clearAead_ideal _ _

def clearWire : Bytes :=
  frameBytes .offer clearSending.offerPayload 1 ++
    ((clearSending.plan.zipIdx.flatMap fun p =>
      frameBytes .chunk (clearSending.sealedPayload p.2 p.1)) ++ frameBytes .transferEnd [])

/-- The two bytes arrive. -/
theorem acked_integrity_two_bytes :
    ∃ s : Receiver, Reach (· = init fun _ => []) (Step clearPeer) s ∧ s.phase = .acked ∧
      s.disk (text "/in/f") = [7, 9] := by
  obtain ⟨s, hs, hacked, hoffer, hfiles⟩ : ∃ s ∈ runFrom (next clearPeer) (init fun _ => [])
      (.arrive clearWire :: readChunks 2), s.phase = .acked ∧ s.offer = some clearSending.offer ∧
        s.files = [⟨text "/in/f", 2, 0o644, 2⟩] := by
    decide +kernel
  have hreach : Reach (· = init fun _ => []) (Step clearPeer) s := Reach.of_runFrom (.init rfl) hs
  have hresult := acked_integrity clearSending clearPeer clear_session _ hreach hacked hoffer rfl
    (by decide)
  refine ⟨s, hreach, hacked, (hresult.2.2 0 ⟨text "/in/f", 2, 0o644, 2⟩ _ ?_ rfl).2⟩
  rw [hfiles]
  rfl

end DropZone
