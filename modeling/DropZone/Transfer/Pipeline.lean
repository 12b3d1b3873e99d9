import Mathlib.Data.List.Nodup
import DropZone.Lib.Stream
import DropZone.Transfer.Sender

/-!
# The frames of a transfer and the pipeline that writes them

What the sender puts on the wire when nothing fails, in whatever order its workers finish.

* `Sending.frames`: the frames of a transfer, in order.
* `Sender.Flows`: the invariant of the pool, the emitter and the writer. Chunks are queued in order;
  what left the queue is being sealed, or was published in its slot.
* `Sender.Sound`: what was sent are the first frames of the transfer.
-/

namespace DropZone

open LittleEndian Parser Stream

/-! ## The frames of a transfer -/

variable {chunk : ChunkPlan}

namespace Sending

/-- The payload of a chunk's frame. -/
def chunkPayload (t : Sending) (index : Nat) (chunk : ChunkPlan) : Bytes :=
  if t.encrypt then t.sealedPayload index chunk else t.plainPayload index chunk

def chunkFlags (t : Sending) : UInt16 := if t.encrypt then 0 else 1

/-- The frames that the sender writes. -/
def frames (t : Sending) : List Frame :=
  Frame.of .offer t.offerPayload t.keys.algorithm.tag ::
    ((t.plan.zipIdx.map fun p => Frame.of .chunk (t.chunkPayload p.2 p.1) t.chunkFlags) ++
      [Frame.of .transferEnd []])

/-- The bytes of the frames. -/
def wire (t : Sending) : List Bytes := t.frames.map Frame.bytes

variable {t : Sending}

theorem length_frames (t : Sending) : t.frames.length = t.plan.length + 2 := by
  simp [frames]

theorem frames_chunk {k : Nat} (h : t.plan[k]? = some chunk) :
    t.frames[k + 1]? = some (Frame.of .chunk (t.chunkPayload k chunk) t.chunkFlags) := by
  have hlt : k < t.plan.length := (List.getElem?_eq_some_iff.mp h).1
  rw [frames, List.getElem?_cons_succ, List.getElem?_append_left (by simpa using hlt)]
  simp [h]

theorem frames_end (t : Sending) :
    t.frames[t.plan.length + 1]? = some (Frame.of .transferEnd []) := by
  rw [frames, List.getElem?_cons_succ, List.getElem?_append_right (by simp)]
  simp

theorem wire_succ {k : Nat} {frame : Frame} (h : t.frames[k]? = some frame) :
    (t.wire.take (k + 1)).flatten = (t.wire.take k).flatten ++ frame.bytes := by
  refine flatten_take_succ ?_
  rw [wire, List.getElem?_map, h]
  rfl

theorem length_sealedPayload (h : chunk ∈ t.plan) (k : Nat) :
    (t.sealedPayload k chunk).length = kChunkHeaderSize + (chunk.length.toNat + kAeadTagSize) := by
  rw [sealedPayload, List.length_append, t.aead.length_seal, length_encodeChunkHeader,
    (chunkData_piece h).1]

theorem length_plainPayload (h : chunk ∈ t.plan) (k : Nat) :
    (t.plainPayload k chunk).length = kChunkHeaderSize + chunk.length.toNat := by
  rw [plainPayload, List.length_append, length_encodeChunkHeader, (chunkData_piece h).1]

theorem length_chunkPayload_le (h : chunk ∈ t.plan) (k : Nat) :
    (t.chunkPayload k chunk).length ≤ kMaxFrameLength := by
  obtain ⟨file, -, hplanned⟩ := mem_plan h
  have hle := hplanned.length_le
  have hmax := t.chunk_usable.2
  simp only [kMaxChunkSize, kMaxFrameLength, kChunkHeaderSize, kAeadTagSize] at hmax
  unfold chunkPayload
  split
  · rw [length_sealedPayload h]
    simp only [kMaxFrameLength, kChunkHeaderSize, kAeadTagSize]
    omega
  · rw [length_plainPayload h]
    simp only [kMaxFrameLength, kChunkHeaderSize]
    omega

/-- Every frame of a transfer whose offer fits reads back. -/
theorem reads_frames (hoffer : t.offerPayload.length ≤ kMaxFrameLength) :
    ∀ f ∈ t.frames, Reads (readFrame .peerClosed) f.bytes f := by
  intro f hf
  rcases List.mem_cons.mp hf with rfl | hf
  · exact reads_readFrame .peerClosed trivial (writeFrame_eq hoffer _ _)
  · rcases List.mem_append.mp hf with hf | hf
    · obtain ⟨⟨chunk, k⟩, hmem, rfl⟩ := List.mem_map.mp hf
      have hchunk : chunk ∈ t.plan := List.mem_of_getElem? (List.mem_zipIdx_iff_getElem?.mp hmem)
      exact reads_readFrame .peerClosed trivial (writeFrame_eq (length_chunkPayload_le hchunk k) _ _)
    · cases List.mem_singleton.mp hf
      exact reads_readFrame .peerClosed trivial (writeFrame_eq (Nat.zero_le _) _ _)

end Sending

/-! ## The pipeline -/

/-- The step makes no call that fails, and receives nothing from outside. -/
def SenderEvent.Works : SenderEvent → Prop
  | .arrive _ | .lost _ => False
  | .finish _ fault => fault = none
  | .begin calls | .read calls | .consume calls | .write calls | .copy calls | .close calls =>
    calls = {}
  | .submit | .take | .drain | .join => True

/-- The calling thread is in `send_encrypted`. -/
def SenderPhase.Pumping : SenderPhase → Prop
  | .submitting _ | .draining | .joining _ => True
  | _ => False

namespace Sender

/-- The sealed chunk at an index of the plan. -/
def payload (t : Sending) (i : Nat) : Bytes :=
  match t.plan[i]? with
  | some chunk => t.sealedPayload i chunk
  | none => []

/-- The indices of the chunks that are being sealed. -/
def activeIndices (s : Sender) : List Nat := s.pool.active.map SealJob.index

/-- Where the writer is: what it took last, or that it took everything. -/
def WriterSound (t : Sending) (s : Sender) : Prop :=
  match s.writer with
  | .consuming => True
  | .writing chunk => ∃ k, s.emitter.nextToConsume = k + 1 ∧ chunk = payload t k
  | .done none => s.emitter.total = some t.plan.length ∧ s.emitter.nextToConsume = t.plan.length
  | _ => False

/-- The first `taken` chunks have left the queue, which holds the next ones in order. What is not
being sealed of them was published. -/
structure Flows (t : Sending) (taken : Nat) (s : Sender) : Prop where
  submitted_le : taken + s.pool.queue.length ≤ t.plan.length
  pool_clean : s.pool.firstError = none
  emitter_clean : s.emitter.error = none
  queue : s.pool.queue.map SealJob.index = List.range' taken s.pool.queue.length
  active : ∀ i ∈ s.activeIndices, i < taken
  nodup : s.activeIndices.Nodup
  chunks : ∀ job ∈ s.pool.queue ++ s.pool.active, t.plan[job.index]? = some job.chunk
  holds : s.emitter.Holds (payload t) fun i => i < taken ∧ i ∉ s.activeIndices
  writer : s.WriterSound t

variable {t : Sending} {s s' : Sender} {taken : Nat}

theorem payload_eq {i : Nat} (h : t.plan[i]? = some chunk) :
    payload t i = t.sealedPayload i chunk := by
  rw [payload, h]

theorem Flows.next_le (h : s.Flows t taken) : s.emitter.nextToConsume ≤ taken := by
  by_contra hlt
  exact absurd (h.holds.consumed taken (by omega)).1 (Nat.lt_irrefl taken)

theorem Flows.next_le_active (h : s.Flows t taken) {i : Nat} (hi : i ∈ s.activeIndices) :
    s.emitter.nextToConsume ≤ i := by
  by_contra hlt
  exact (h.holds.consumed i (by omega)).2 hi

/-- A chunk joins the queue. -/
theorem Flows.submit (h : s.Flows t taken) {phase : SenderPhase}
    (hchunk : t.plan[taken + s.pool.queue.length]? = some chunk) :
    Flows t taken
      { s with pool := { s.pool with
                 queue := s.pool.queue ++ [⟨taken + s.pool.queue.length, chunk⟩] }
               phase := phase } where
  submitted_le := by
    have hlt := (List.getElem?_eq_some_iff.mp hchunk).1
    simp only [List.length_append, List.length_singleton]
    omega
  pool_clean := h.pool_clean
  emitter_clean := h.emitter_clean
  queue := by
    simp only [List.map_append, List.map_cons, List.map_nil, List.length_append,
      List.length_singleton]
    rw [h.queue, List.range'_1_concat]
  active := h.active
  nodup := h.nodup
  chunks job hjob := by
    simp only [List.mem_append, List.mem_singleton] at hjob
    rcases hjob with (hjob | rfl) | hjob
    · exact h.chunks job (List.mem_append_left _ hjob)
    · exact hchunk
    · exact h.chunks job (List.mem_append_right _ hjob)
  holds := h.holds
  writer := h.writer

/-- A worker takes the chunk at the front of the queue. -/
theorem Flows.take (h : s.Flows t taken) {job : SealJob} {queue : List SealJob}
    (hqueue : s.pool.queue = job :: queue) :
    Flows t (taken + 1)
      { s with pool := { s.pool with queue := queue, active := s.pool.active ++ [job] } } := by
  have hmap := h.queue
  have hle := h.submitted_le
  rw [hqueue, List.map_cons, List.length_cons, List.range'_succ, List.cons.injEq] at hmap
  rw [hqueue, List.length_cons] at hle
  obtain ⟨hindex, hrest⟩ := hmap
  have hactive : activeIndices { s with pool := { s.pool with
      queue := queue, active := s.pool.active ++ [job] } } = s.activeIndices ++ [taken] := by
    simp [activeIndices, hindex]
  refine ⟨by dsimp only; omega, h.pool_clean, h.emitter_clean, hrest, ?_, ?_, ?_, ?_, h.writer⟩
  · rw [hactive]
    intro i hi
    rcases List.mem_append.mp hi with hi | hi
    · exact Nat.lt_succ_of_lt (h.active i hi)
    · rw [List.mem_singleton.mp hi]
      exact Nat.lt_succ_self _
  · rw [hactive, List.nodup_append]
    refine ⟨h.nodup, List.nodup_singleton _, ?_⟩
    rintro i hi j hj rfl
    have hlt := h.active i hi
    rw [List.mem_singleton.mp hj] at hlt
    exact Nat.lt_irrefl _ hlt
  · intro j hj
    refine h.chunks j ?_
    rw [hqueue]
    simp only [List.mem_append, List.mem_cons] at hj ⊢
    tauto
  · refine h.holds.congr fun i => ?_
    rw [hactive, List.mem_append, List.mem_singleton]
    constructor
    · rintro ⟨hi, hnot⟩
      exact ⟨by omega, by rintro (hmem | rfl); exacts [hnot hmem, Nat.lt_irrefl _ hi]⟩
    · rintro ⟨hi, hnot⟩
      rw [not_or] at hnot
      exact ⟨by omega, hnot.1⟩

/-- A worker publishes its chunk. -/
theorem Flows.finish (h : s.Flows t taken) {i : Nat} {job : SealJob}
    (hjob : s.pool.active[i]? = some job)
    (hlt : job.index < s.emitter.nextToConsume + s.emitter.slots.length) :
    Flows t taken
      { s with pool := s.pool.finish i none
               emitter := { s.emitter with
                 slots := s.emitter.slots.set (job.index % s.emitter.slots.length)
                   (some (payload t job.index)) } } := by
  have hmem : job.index ∈ s.activeIndices := List.mem_map_of_mem (List.mem_of_getElem? hjob)
  have hindex : s.activeIndices[i]? = some job.index := by
    rw [activeIndices, List.getElem?_map, hjob]
    rfl
  have hsub := List.eraseIdx_sublist s.pool.active i
  have hactive : (s.pool.active.eraseIdx i).map SealJob.index = s.activeIndices.eraseIdx i :=
    (List.eraseIdx_map ..).symm
  have hrest : ∀ j, j ∈ s.activeIndices.eraseIdx i ↔ j ∈ s.activeIndices ∧ j ≠ job.index := by
    intro j
    obtain ⟨hi, hget⟩ := List.getElem?_eq_some_iff.mp hindex
    rw [← h.nodup.erase_getElem i hi, hget, h.nodup.mem_erase_iff, and_comm]
  refine ⟨h.submitted_le, ?_, h.emitter_clean, h.queue, ?_, ?_, ?_, ?_, h.writer⟩
  · simp [AeadPool.finish, h.pool_clean]
  · intro j hj
    exact h.active j ((hsub.map SealJob.index).subset hj)
  · exact h.nodup.sublist (hsub.map SealJob.index)
  · intro j hj
    refine h.chunks j ?_
    rcases List.mem_append.mp hj with hj | hj
    · exact List.mem_append_left _ hj
    · exact List.mem_append_right _ (hsub.subset hj)
  · refine (h.holds.publish (h.next_le_active hmem) hlt).congr fun j => ?_
    have hj := hrest j
    rw [← hactive] at hj
    have hjtaken := h.active job.index hmem
    simp only [activeIndices, AeadPool.finish] at hj ⊢
    rw [hj]
    constructor
    · rintro (⟨hlt, hnot⟩ | rfl)
      · exact ⟨hlt, fun hand => hnot hand.1⟩
      · exact ⟨hjtaken, fun hand => hand.2 rfl⟩
    · rintro ⟨hlt, hnot⟩
      by_cases hne : j = job.index
      · exact .inr hne
      · exact .inl ⟨hlt, fun hmem => hnot ⟨hmem, hne⟩⟩

/-- The writer takes the next chunk. -/
theorem Flows.consume (h : s.Flows t taken) {em : OrderedEmitter} {chunk : Bytes}
    (hc : s.emitter.consume = some (.ok (em, some chunk))) :
    Flows t taken { s with emitter := em, writer := .writing chunk } ∧
      em.nextToConsume = s.emitter.nextToConsume + 1 ∧ em.total = s.emitter.total := by
  obtain ⟨hpub, rfl, rfl⟩ := h.holds.consume_eq hc
  refine ⟨⟨h.submitted_le, h.pool_clean, h.emitter_clean, h.queue, h.active, h.nodup, h.chunks,
    h.holds.consume hpub, ?_⟩, rfl, rfl⟩
  exact ⟨_, rfl, rfl⟩

/-! ## Stages -/

/-- Nothing of the pipeline has been used. -/
def Unstarted (t : Sending) (s : Sender) : Prop :=
  s.pool = {} ∧ s.emitter = OrderedEmitter.init (t.queueDepth + t.workers + 4) ∧
    s.writer = .notStarted

/-- Nothing of the pipeline is left to run. -/
def Quiet (s : Sender) : Prop :=
  s.pool.queue = [] ∧ s.pool.active = [] ∧ (s.writer = .notStarted ∨ s.writer = .done none)

/-- `submitted` chunks went to the pool, and more may follow. -/
def Pumps (t : Sending) (submitted : Nat) (s : Sender) : Prop :=
  t.encrypt = true ∧ s.emitter.total = none ∧
    ∃ taken, taken + s.pool.queue.length = submitted ∧ s.Flows t taken

/-- What holds at each point of the calling thread. -/
def Stage (t : Sending) (s : Sender) : Prop :=
  match s.phase with
  | .start | .awaitingDecision => s.Unstarted t
  | .submitting i => i < t.plan.length ∧ s.Pumps t i
  | .draining => s.Pumps t t.plan.length
  | .joining error =>
    error = none ∧ t.encrypt = true ∧ s.emitter.total = some t.plan.length ∧ s.pool.queue = [] ∧
      s.pool.active = [] ∧ s.Flows t t.plan.length
  | .copying i => t.encrypt = false ∧ i < t.plan.length ∧ s.Unstarted t
  | .closing | .awaitingAck | .returned => s.Quiet
  | .failed _ => False

/-- The chunks that the writer has written. -/
def written (s : Sender) : Nat :=
  match s.writer with
  | .writing _ => s.emitter.nextToConsume - 1
  | _ => s.emitter.nextToConsume

def emitted (t : Sending) (s : Sender) : Nat :=
  match s.phase with
  | .start | .failed _ => 0
  | .awaitingDecision => 1
  | .submitting _ | .draining | .joining _ => s.written + 1
  | .copying i => i + 1
  | .closing => t.plan.length + 1
  | .awaitingAck | .returned => t.plan.length + 2

/-- The frames that were read. -/
def consumed (s : Sender) : Nat :=
  match s.phase with
  | .start | .awaitingDecision => 0
  | .returned => 2
  | _ => 1

/-- What was sent are the first frames of the transfer. -/
structure Sound (t : Sending) (s : Sender) : Prop where
  sent_eq : s.sent = (t.wire.take (s.emitted t)).flatten
  stage : s.Stage t

theorem sound_init (t : Sending) : (init t).Sound t := ⟨rfl, rfl, rfl, rfl⟩

theorem emitted_of_pumping (h : s.phase.Pumping) : s.emitted t = s.written + 1 := by
  unfold emitted
  cases hp : s.phase <;> first | rfl | (rw [hp] at h; cases h)

theorem consumed_of_pumping (h : s.phase.Pumping) : s.consumed = 1 := by
  unfold consumed
  cases hp : s.phase <;> first | rfl | (rw [hp] at h; cases h)

/-- While the pool has jobs, it is being fed. -/
theorem Stage.pumps (h : s.Stage t) (hjobs : s.pool.queue ≠ [] ∨ s.pool.active ≠ []) :
    ∃ submitted, s.Pumps t submitted ∧ s.phase.Pumping ∧
      ∀ s' : Sender, s'.phase = s.phase → s'.Pumps t submitted → s'.Stage t := by
  unfold Stage at h
  split at h
  · rw [h.1] at hjobs
    simp at hjobs
  · rw [h.1] at hjobs
    simp at hjobs
  · rename_i i hp
    refine ⟨i, h.2, hp ▸ trivial, fun s' hp' hs' => ?_⟩
    rw [Stage, hp', hp]
    exact ⟨h.1, hs'⟩
  · rename_i hp
    refine ⟨_, h, hp ▸ trivial, fun s' hp' hs' => ?_⟩
    rw [Stage, hp', hp]
    exact hs'
  · simp [h.2.2.2.1, h.2.2.2.2.1] at hjobs
  · rw [h.2.2.1] at hjobs
    simp at hjobs
  · simp [h.1, h.2.1] at hjobs
  · simp [h.1, h.2.1] at hjobs
  · simp [h.1, h.2.1] at hjobs
  · exact h.elim

/-- While the writer runs, the pipeline does. -/
theorem Stage.flows (h : s.Stage t) (hw : s.writer ≠ .notStarted) (hw' : s.writer ≠ .done none) :
    ∃ taken, s.Flows t taken ∧ t.encrypt = true ∧ s.phase.Pumping ∧
      (∀ n, s.emitter.total = some n → n = t.plan.length) ∧
      ∀ s' : Sender, s'.phase = s.phase → s'.pool = s.pool →
        s'.emitter.total = s.emitter.total → s'.Flows t taken → s'.Stage t := by
  unfold Stage at h
  split at h
  · exact absurd h.2.2 hw
  · exact absurd h.2.2 hw
  · rename_i i hp
    obtain ⟨hi, henc, htotal, taken, hsub, hflows⟩ := h
    refine ⟨taken, hflows, henc, hp ▸ trivial, by simp [htotal], fun s' hp' hpool htotal' hs' => ?_⟩
    rw [Stage, hp', hp]
    exact ⟨hi, henc, htotal'.trans htotal, taken, hpool ▸ hsub, hs'⟩
  · rename_i hp
    obtain ⟨henc, htotal, taken, hsub, hflows⟩ := h
    refine ⟨taken, hflows, henc, hp ▸ trivial, by simp [htotal], fun s' hp' hpool htotal' hs' => ?_⟩
    rw [Stage, hp', hp]
    exact ⟨henc, htotal'.trans htotal, taken, hpool ▸ hsub, hs'⟩
  · rename_i error hp
    obtain ⟨herr, henc, htotal, hqueue, hactive, hflows⟩ := h
    refine ⟨_, hflows, henc, hp ▸ trivial, ?_, fun s' hp' hpool htotal' hs' => ?_⟩
    · rw [htotal]
      intro n hn
      cases hn
      rfl
    rw [Stage, hp', hp]
    exact ⟨herr, henc, htotal'.trans htotal, hpool ▸ hqueue, hpool ▸ hactive, hs'⟩
  · exact absurd h.2.2.2.2 hw
  · exact absurd h.2.2 (by simp [hw, hw'])
  · exact absurd h.2.2 (by simp [hw, hw'])
  · exact absurd h.2.2 (by simp [hw, hw'])
  · exact h.elim

end Sender

end DropZone
