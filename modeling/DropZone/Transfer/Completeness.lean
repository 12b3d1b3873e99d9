import DropZone.Transfer.ReceiverSteps

/-!
# What the receiver has written when it acknowledges

The receiver counts the bytes of the chunks it accepts; it does not look where they go.

* `Receiver.Counted`: the invariant. Every write is inside its file, and a file's counter is the sum
  of the lengths written to it, modulo `2 ^ 64`.
* `acked_covers`: when `TransferAck` is written, the chunks of a file cover it if no two overlap, and
  (the sum not having wrapped) only then.
* `acked_with_hole`: a sender that repeats a chunk gets the acknowledgement for a file with a byte
  that nothing was written to.
-/

namespace DropZone

open LittleEndian Parser Pieces System

namespace Receiver

/-- The writes to the `i`-th file, in the order they were made. -/
def pieces (log : List ChunkWrite) (i : Nat) : List (Nat × Bytes) :=
  (log.filter (·.file = i)).map fun w => (w.offset, w.data)

/-- Where the writes to the `i`-th file went. -/
def spans (log : List ChunkWrite) (i : Nat) : List Span :=
  (pieces log i).map fun p => (p.1, p.2.length)

theorem pieces_append_self (log : List ChunkWrite) (w : ChunkWrite) :
    pieces (log ++ [w]) w.file = pieces log w.file ++ [(w.offset, w.data)] := by
  simp [pieces]

theorem pieces_append_ne (log : List ChunkWrite) {w : ChunkWrite} {i : Nat} (h : w.file ≠ i) :
    pieces (log ++ [w]) i = pieces log i := by
  simp [pieces, h]

/-- The outputs are those of the offer. -/
structure OutputsOf (c : Receiving) (offer : TransferOffer) (files : List OutputFile) : Prop where
  sizes : files.map OutputFile.expectedSize = offer.entries.map ManifestEntry.size
  paths : files.map OutputFile.path =
    offer.entries.map fun entry => joinPath c.directory entry.path

/-- The chunks accepted are inside their files, and the counters are the sums of what was
written. -/
structure Counted (c : Receiving) (s : Receiver) : Prop where
  fresh : s.offer = none → s.jobs = [] ∧ s.log = []
  fresh_phase : s.offer = none → s.phase ≠ .acked
  outputs : ∀ offer, s.offer = some offer → OutputsOf c offer s.files
  jobs : ∀ job ∈ s.jobs, job.header.Inside (s.files.map OutputFile.expectedSize)
  inside : ∀ i file, s.files[i]? = some file →
    ∀ w ∈ spans s.log i, w.1 + w.2 ≤ file.expectedSize.toNat
  written : ∀ i file, s.files[i]? = some file →
    file.written.toNat = total (spans s.log i) % 2 ^ 64
  acked : s.phase = .acked → s.jobs = [] ∧ ∀ file ∈ s.files, file.written = file.expectedSize

variable {c : Receiving} {s : Receiver}

/-! ## Commits -/

@[simp] theorem commit_offer (n : Nat) (header : ChunkHeader) (data : Bytes) :
    (s.commit n header data).offer = s.offer := by
  unfold commit
  split <;> rfl

@[simp] theorem commit_jobs (n : Nat) (header : ChunkHeader) (data : Bytes) :
    (s.commit n header data).jobs = s.jobs := by
  unfold commit
  split <;> rfl

@[simp] theorem commit_phase (n : Nat) (header : ChunkHeader) (data : Bytes) :
    (s.commit n header data).phase = s.phase := by
  unfold commit
  split <;> rfl

theorem commit_map {β : Type} (f : OutputFile → β)
    (hf : ∀ file w, f { file with written := w } = f file) (n : Nat) (header : ChunkHeader)
    (data : Bytes) : (s.commit n header data).files.map f = s.files.map f := by
  unfold commit
  split
  · rfl
  · rename_i file hfile
    have hset : (s.files.map f).set header.fileIndex.toNat (f file) = s.files.map f := by
      apply List.ext_getElem?
      intro i
      rw [List.getElem?_set]
      split
      · rename_i hi
        subst hi
        split
        · rw [List.getElem?_map, hfile]
          rfl
        · rename_i hlt
          rw [List.getElem?_eq_none (by omega)]
      · rfl
    rw [List.map_set, hf, hset]

theorem commit_file {n : Nat} {header : ChunkHeader} {data : Bytes} {i : Nat} {file : OutputFile}
    (h : (s.commit n header data).files[i]? = some file) :
    ∃ old, s.files[i]? = some old ∧ file.path = old.path ∧ file.expectedSize = old.expectedSize ∧
      if i = header.fileIndex.toNat then
        file.written = old.written + UInt64.ofNat data.length ∧
          pieces (s.commit n header data).log i =
            pieces s.log i ++ [(header.offset.toNat, data)]
      else file.written = old.written ∧ pieces (s.commit n header data).log i = pieces s.log i := by
  unfold commit at h ⊢
  split at h
  · rename_i hnone
    have hne : i ≠ header.fileIndex.toNat := by
      rintro rfl
      rw [hnone] at h
      cases h
    exact ⟨file, h, rfl, rfl, by rw [if_neg hne]; exact ⟨rfl, rfl⟩⟩
  · rename_i old hold
    dsimp only at h ⊢
    rw [List.getElem?_set] at h
    split at h
    · rename_i hi
      split at h
      · cases h
        refine ⟨old, hi ▸ hold, rfl, rfl, ?_⟩
        rw [if_pos hi.symm, ← hi]
        exact ⟨rfl, pieces_append_self _ ⟨n, header.fileIndex.toNat, header.offset.toNat, data⟩⟩
      · cases h
    · rename_i hi
      refine ⟨file, h, rfl, rfl, ?_⟩
      rw [if_neg (Ne.symm hi)]
      exact ⟨rfl, pieces_append_ne _ hi⟩

/-- A write inside its file is counted. -/
theorem Counted.commit (h : s.Counted c) {n : Nat} {header : ChunkHeader} {data : Bytes}
    {calls : Calls} (hinside : header.Inside (s.files.map OutputFile.expectedSize))
    (hlen : data.length = header.plaintextLength.toNat)
    (hwrite : pwriteAll calls data header.offset = .ok ()) (hoffer : s.offer ≠ none)
    (hphase : s.phase ≠ .acked) : (s.commit n header data).Counted c where
  fresh hnone := absurd (by simpa using hnone) hoffer
  fresh_phase hnone := absurd (by simpa using hnone) hoffer
  outputs offer ho := by
    have hs := h.outputs offer (by simpa using ho)
    exact ⟨(commit_map _ (fun _ _ => rfl) ..).trans hs.sizes,
      (commit_map _ (fun _ _ => rfl) ..).trans hs.paths⟩
  jobs job hjob := by
    rw [commit_map _ fun _ _ => rfl]
    exact h.jobs job (by simpa using hjob)
  inside i file hfile w hw := by
    obtain ⟨old, hold, -, hsize, hif⟩ := commit_file hfile
    rw [hsize]
    split at hif
    · rename_i hi
      rw [spans, hif.2, List.map_append, List.mem_append] at hw
      rcases hw with hw | hw
      · exact h.inside i old hold w hw
      · cases List.mem_singleton.mp hw
        obtain ⟨size, hget, hbound⟩ := hinside
        rw [← hi, List.getElem?_map, hold] at hget
        cases hget
        exact pwriteAll_ok hwrite hlen hbound
    · rw [spans, hif.2] at hw
      exact h.inside i old hold w hw
  written i file hfile := by
    obtain ⟨old, hold, -, -, hif⟩ := commit_file hfile
    split at hif
    · rw [hif.1, UInt64.toNat_add, UInt64.toNat_ofNat', h.written i old hold, spans, spans, hif.2,
        List.map_append, total_append]
      simp [total]
    · rw [hif.1, spans, hif.2]
      exact h.written i old hold
  acked hacked := absurd (by simpa using hacked) hphase

/-! ## The invariant -/

theorem counted_init (disk : Disk) : (init disk).Counted c where
  fresh _ := ⟨rfl, rfl⟩
  fresh_phase _ := ReceiverPhase.noConfusion
  outputs _ h := by cases h
  jobs _ h := absurd h List.not_mem_nil
  inside _ _ h := by simp [init] at h
  written _ _ h := by simp [init] at h
  acked h := by cases h

/-- Opening the outputs starts from nothing written. -/
theorem Counted.opened {offer : TransferOffer} {files : List OutputFile} {disk : Disk}
    {input sent : Bytes} (h : s.Counted c) (hfresh : s.offer = none)
    (hunwritten : ∀ file ∈ files, file.written = 0) (houtputs : OutputsOf c offer files) :
    Counted c { s with input := input, sent := sent, phase := .reading, offer := some offer
                       files := files, disk := disk } where
  fresh hnone := by cases hnone
  fresh_phase hnone := by cases hnone
  outputs _ ho := by
    cases ho
    exact houtputs
  jobs job hjob := by
    have hsub : job ∈ s.jobs := List.mem_append_right _ hjob
    rw [(h.fresh hfresh).1] at hsub
    cases hsub
  inside i file _ w hw := by
    dsimp only at hw
    rw [(h.fresh hfresh).2] at hw
    cases hw
  written i file hfile := by
    dsimp only
    rw [(h.fresh hfresh).2, hunwritten file (List.mem_of_getElem? hfile)]
    rfl
  acked hacked := by cases hacked

theorem Counted.idle {s' : Receiver} (h : s.Counted c) (data : SameData s s')
    (hjobs : s'.jobs.Subperm s.jobs) (hphase : s'.phase = .acked → s.phase = .acked) :
    s'.Counted c where
  outputs offer ho := by
    rw [data.files]
    exact h.outputs offer (data.offer ▸ ho)
  fresh hnone := by
    obtain ⟨hs, hlog⟩ := h.fresh (data.offer ▸ hnone)
    rw [hs] at hjobs
    exact ⟨List.subperm_nil.mp hjobs, data.log.trans hlog⟩
  fresh_phase hnone hacked := h.fresh_phase (data.offer ▸ hnone) (hphase hacked)
  jobs job hjob := by
    rw [data.files]
    exact h.jobs job (hjobs.subset hjob)
  inside i file hfile := by
    rw [data.files] at hfile
    rw [data.log]
    exact h.inside i file hfile
  written i file hfile := by
    rw [data.files] at hfile
    rw [data.log]
    exact h.written i file hfile
  acked hacked := by
    obtain ⟨hs, hwritten⟩ := h.acked (hphase hacked)
    rw [hs] at hjobs
    rw [data.files]
    exact ⟨List.subperm_nil.mp hjobs, hwritten⟩

/-- A step keeps the count. -/
theorem Counted.step {s' : Receiver} (h : s.Counted c) (he : Effect c s s') : s'.Counted c := by
  cases he with
  | @ended phase input sent error ended =>
    refine h.idle ⟨rfl, rfl, rfl, rfl, rfl, rfl⟩ ?_ fun hacked => ?_
    · have hpending : pending { s with input := input, sent := sent, phase := phase
                                       pool := { s.pool with firstError := error } } = [] := by
        cases phase <;> first | rfl | cases ended
      rw [Receiver.jobs, hpending]
      exact (List.sublist_append_right _ _).subperm
    · cases hacked
      cases ended
  | moved data hjobs error bounded hphase =>
    refine h.idle data hjobs.subperm fun hacked => ?_
    rcases hphase with hphase | hphase
    · rwa [hphase] at hacked
    · exact absurd hacked hphase.2
  | dropped active => exact h.idle ⟨rfl, rfl, rfl, rfl, rfl, rfl⟩ (finish_jobs _ _) fun h => h
  | opened waits fresh read resolved opened =>
    have hpaths := (resolveOutputPaths_ok resolved).1
    have hopen := openOutputs_ok (by rw [hpaths, List.length_map]) opened
    exact h.opened fresh hopen.unwritten ⟨hopen.sizes_eq, hopen.paths_eq.trans hpaths⟩
  | accepted waits accepts encrypted long =>
    refine ⟨fun hnone => ?_, fun _ => ReceiverPhase.noConfusion, h.outputs, fun job hjob => ?_,
      h.inside, h.written, fun hacked => ?_⟩
    · exact absurd (accepts.offer_eq.symm.trans hnone) (by simp)
    · rcases List.mem_cons.mp hjob with rfl | hjob
      · exact (validateChunk_ok accepts.valid).1
      · exact h.jobs job (List.mem_append_right _ hjob)
    · cases hacked
  | @wrote offer header data input calls waits accepts plain length write =>
    have hoffer : s.offer ≠ none := by
      rw [accepts.offer_eq]
      simp
    have hphase : s.phase ≠ .acked := by
      rcases waits with hp | hp <;> rw [hp] <;> exact ReceiverPhase.noConfusion
    have hcounted : Counted c { s with input := input, expectedCounter := s.expectedCounter + 1
                                       received := s.received + 1 } :=
      ⟨h.fresh, h.fresh_phase, h.outputs, h.jobs, h.inside, h.written, h.acked⟩
    exact hcounted.commit (validateChunk_ok accepts.valid).1 length write hoffer hphase
  | @finished offer i job data calls offer_eq active run write =>
    have hmem := mem_jobs_of_active active
    have hoffer : s.offer ≠ none := by
      rw [offer_eq]
      simp
    have hphase : s.phase ≠ .acked := by
      intro hacked
      rw [(h.acked hacked).1] at hmem
      cases hmem
    have hcounted : Counted c { s with pool := s.pool.finish i none } :=
      h.idle ⟨rfl, rfl, rfl, rfl, rfl, rfl⟩ (finish_jobs i none) fun h => h
    exact hcounted.commit (h.jobs job hmem) (OpenJob.run_plain run).2 write hoffer hphase
  | acked offer_eq draining queue active clean written =>
    have hjobs : s.pool.queue ++ s.pool.active = [] := by rw [queue, active, List.nil_append]
    refine ⟨fun hnone => ⟨hjobs, (h.fresh hnone).2⟩, fun hnone => ?_, h.outputs, fun job hjob => ?_,
      h.inside, h.written, fun _ => ⟨hjobs, finaliseOutputs_ok written⟩⟩
    · exact absurd (offer_eq.symm.trans hnone) (by simp)
    · exact h.jobs job (List.mem_append_right _ hjob)

theorem counted_of_reach {disk : Disk} (h : Reach (· = init disk) (Step c) s) : s.Counted c := by
  refine Reach.invariant ?_ ?_ h
  · rintro _ rfl
    exact counted_init disk
  · intro s e s' hs hstep
    exact hs.step (next_effect hstep)

/-! ## Completeness -/

/-- A file of the offer is an output of its size. -/
theorem Counted.output (h : s.Counted c) {offer : TransferOffer} {i : Nat} {entry : ManifestEntry}
    (hoffer : s.offer = some offer) (hentry : offer.entries[i]? = some entry) :
    ∃ file, s.files[i]? = some file ∧ file.expectedSize = entry.size ∧
      file.path = joinPath c.directory entry.path := by
  have houtputs := h.outputs offer hoffer
  have hsize := congrArg (·[i]?) houtputs.sizes
  have hpath := congrArg (·[i]?) houtputs.paths
  simp only [List.getElem?_map, hentry, Option.map_some] at hsize hpath
  obtain ⟨file, hfile, hsize⟩ := Option.map_eq_some_iff.mp hsize
  rw [hfile] at hpath
  exact ⟨file, hfile, hsize, Option.some.inj hpath⟩

/-- When the counters say so, the chunks of a file have as many bytes as the file, modulo
`2 ^ 64`. -/
theorem Counted.total_eq (h : s.Counted c)
    (hdone : ∀ file ∈ s.files, file.written = file.expectedSize) {i : Nat} {file : OutputFile}
    (hfile : s.files[i]? = some file) :
    total (spans s.log i) % 2 ^ 64 = file.expectedSize.toNat := by
  rw [← h.written i file hfile, hdone file (List.mem_of_getElem? hfile)]

/-- When the counters say so and no two chunks of a file overlap, they cover it: their lengths add up
to at most its size, so the sum did not wrap. -/
theorem Counted.covers (h : s.Counted c)
    (hdone : ∀ file ∈ s.files, file.written = file.expectedSize) {i : Nat} {file : OutputFile}
    (hfile : s.files[i]? = some file) (hapart : Apart (spans s.log i)) :
    Covers file.expectedSize.toNat (spans s.log i) := by
  have hin := h.inside i file hfile
  have htotal := h.total_eq hdone hfile
  have hle := total_le_of_apart hin hapart
  have hlt := file.expectedSize.toNat_lt
  rw [Nat.mod_eq_of_lt (by omega)] at htotal
  exact (covers_iff_apart hin htotal).mpr hapart

end Receiver

open Receiver

/-- In every run that reaches `TransferAck`, whoever sent the frames: if no two chunks written to a
file of the offer overlap, every position of the file was written; and as long as the lengths add up
to less than `2 ^ 64`, only then. -/
theorem acked_covers (c : Receiving) (disk : Disk) {s : Receiver}
    (hreach : Reach (· = init disk) (Step c) s) (hacked : s.phase = .acked) {offer : TransferOffer}
    (hoffer : s.offer = some offer) {i : Nat} {entry : ManifestEntry}
    (hentry : offer.entries[i]? = some entry) :
    (Apart (spans s.log i) → Covers entry.size.toNat (spans s.log i)) ∧
      (total (spans s.log i) < 2 ^ 64 → Covers entry.size.toNat (spans s.log i) →
        Apart (spans s.log i)) := by
  have hcounted := counted_of_reach hreach
  obtain ⟨file, hfile, hsize, -⟩ := hcounted.output hoffer hentry
  rw [← hsize]
  constructor
  · exact hcounted.covers (hcounted.acked hacked).2 hfile
  · intro hlt hcovers
    have htotal := hcounted.total_eq (hcounted.acked hacked).2 hfile
    rw [Nat.mod_eq_of_lt hlt] at htotal
    exact (covers_iff_apart (hcounted.inside i file hfile) htotal).mp hcovers

/-! ## Two runs -/

/-- Keys that are all the same. -/
def zeroKeys : SessionKeys where
  sendKey := List.Vector.replicate 32 0
  receiveKey := List.Vector.replicate 32 0
  sendNoncePrefix := List.Vector.replicate 4 0
  receiveNoncePrefix := List.Vector.replicate 4 0
  offerKey := List.Vector.replicate 32 0
  handshakeKey := List.Vector.replicate 32 0
  algorithm := .aes256Gcm

theorem one_worker_lt : 1 < 2 ^ 32 := by decide

def clearReceiving (opens : Sealed → Bool) : Receiving where
  aead := clearAead opens
  sha256 _ := List.Vector.replicate 32 0
  keys := zeroKeys
  peerUsername := text "alice"
  currentDirectory := text "/in"
  workers := 1
  workers_pos := Nat.one_pos
  workers_lt := one_worker_lt

def twoByteOffer : TransferOffer where
  senderUsername := text "alice"
  displayName := text "f"
  entries := [{ path := text "f", size := 2, digest := List.Vector.replicate 32 0 }]
  totalBytes := 2
  chunkSize := 1

/-- The frames of a sender that sends one byte at each of the offsets, numbered in turn. -/
def oneByteFrames (offer : TransferOffer) (offsets : List UInt64) : Bytes :=
  frameBytes .offer (sealStandalone (clearAead fun _ => true) .aes256Gcm zeroKeys.offerKey
    (List.Vector.replicate 12 0) kInfoOfferKey offer.encode) 1 ++
  ((offsets.zipIdx.flatMap fun p =>
    frameBytes .chunk (encodeChunkHeader ⟨0, 1, p.1, UInt64.ofNat p.2⟩ ++
      7 :: List.replicate kAeadTagSize 0)) ++ frameBytes .transferEnd [])

/-- The receiver reads `n` chunks one after the other and finishes. -/
def readChunks (n : Nat) : List ReceiverEvent :=
  .read {} :: ((List.replicate n [.read {}, .submit, .take, .finish 0 {}]).flatten ++
    [.read {}, .drain {}])

def clearRun (offsets : List UInt64) : Option Receiver :=
  runFrom (next (clearReceiving fun _ => true)) (init fun _ => [])
    (.arrive (oneByteFrames twoByteOffer offsets) :: readChunks offsets.length)

theorem reach_clearRun {offsets : List UInt64} {s : Receiver} (h : clearRun offsets = some s) :
    Reach (· = init fun _ => []) (Step (clearReceiving fun _ => true)) s :=
  Reach.of_runFrom (.init rfl) h

/-- A sender that sends the first byte twice gets its acknowledgement, and nothing was written to
the second byte. -/
theorem acked_with_hole :
    ∃ s, Reach (· = init fun _ => []) (Step (clearReceiving fun _ => true)) s ∧
      s.phase = .acked ∧ s.offer = some twoByteOffer ∧
      twoByteOffer.entries.map ManifestEntry.size = [2] ∧ ¬ Covers 2 (spans s.log 0) := by
  obtain ⟨s, hs, hacked, hoffer, hspans⟩ : ∃ s ∈ clearRun [0, 0], s.phase = .acked ∧
      s.offer = some twoByteOffer ∧ spans s.log 0 = [(0, 1), (0, 1)] := by
    decide +kernel
  refine ⟨s, reach_clearRun hs, hacked, hoffer, rfl, ?_⟩
  rw [hspans]
  intro hcovers
  obtain ⟨w, hw, hmem⟩ := hcovers 1 (by decide)
  have hw' : w = (0, 1) := by simpa using hw
  subst hw'
  exact absurd hmem (by decide)

/-- Two chunks side by side cover the file. -/
theorem acked_covers_two_chunks :
    ∃ s : Receiver, s.phase = .acked ∧ Apart (spans s.log 0) ∧ Covers 2 (spans s.log 0) := by
  obtain ⟨s, hs, hacked, hoffer, hspans⟩ : ∃ s ∈ clearRun [1, 0], s.phase = .acked ∧
      s.offer = some twoByteOffer ∧ spans s.log 0 = [(1, 1), (0, 1)] := by
    decide +kernel
  have hapart : Apart (spans s.log 0) := by
    rw [hspans]
    decide
  exact ⟨s, hacked, hapart, (acked_covers _ _ (reach_clearRun hs) hacked hoffer (i := 0) rfl).1 hapart⟩

end DropZone
