import DropZone.Transfer.Pipeline

/-!
# A sender whose calls succeed

* `Sound.step`: every step that reads nothing keeps `Sender.Sound` and leaves less to do;
  `Sound.decided`, `Sound.acknowledged`: so does reading what the other side answers.
* `Sound.progress`: unless the sender waits for the other side or has returned, some thread can go on.
-/

namespace DropZone

open LittleEndian Parser Stream

namespace Sender

variable {t : Sending} {s s' : Sender} {taken : Nat}

/-! ## Steps -/

/-- What the calling thread has before it. -/
def phaseRemaining (n : Nat) : SenderPhase → Nat
  | .start => 3 * n + 9
  | .awaitingDecision => 3 * n + 8
  | .submitting i | .copying i => 3 * (n - i) + 7
  | .draining => 6
  | .joining _ => 5
  | .closing => 4
  | .awaitingAck => 3
  | .returned => 2
  | .failed _ => 0

/-- What the writer has before it, besides the chunks. -/
def writerRemaining : WriterPhase → Nat
  | .notStarted | .consuming => 1
  | .writing _ => 2
  | .done _ => 0

def remaining (t : Sending) (s : Sender) : Nat :=
  phaseRemaining t.plan.length s.phase + 2 * s.pool.queue.length + s.pool.active.length +
    2 * (t.plan.length - s.emitter.nextToConsume) + writerRemaining s.writer

/-- A step that keeps the invariant, reads nothing, and leaves less to do. -/
structure Advance (t : Sending) (s s' : Sender) : Prop where
  sound : s'.Sound t
  input : s'.input = s.input
  consumed : s'.consumed = s.consumed
  emitted : s.emitted t ≤ s'.emitted t
  remaining : s'.remaining t < s.remaining t

theorem submitFrom_pumping (t : Sending) (i : Nat) : (submitFrom t i).Pumping := by
  unfold submitFrom
  split <;> trivial

theorem stage_submitFrom {i : Nat} (h : s.Pumps t i) (hi : i ≤ t.plan.length)
    (hphase : s.phase = submitFrom t i) : s.Stage t := by
  unfold Stage submitFrom at *
  split at hphase
  · rw [hphase]
    exact ⟨by assumption, h⟩
  · rw [hphase]
    obtain rfl : i = t.plan.length := by omega
    exact h

theorem submitFrom_remaining (t : Sending) (i : Nat) :
    phaseRemaining t.plan.length (submitFrom t i) ≤ 3 * (t.plan.length - i) + 7 := by
  unfold submitFrom
  split <;> simp only [phaseRemaining] <;> omega

theorem copyFrom_remaining (t : Sending) (i : Nat) :
    phaseRemaining t.plan.length (copyFrom t i) ≤ 3 * (t.plan.length - i) + 7 := by
  unfold copyFrom
  split <;> simp only [phaseRemaining] <;> omega

theorem stage_copyFrom {i : Nat} (hplain : t.encrypt = false) (h : s.Unstarted t)
    (hphase : s.phase = copyFrom t i) : s.Stage t := by
  unfold Stage copyFrom at *
  split at hphase
  · rw [hphase]
    exact ⟨hplain, by assumption, h⟩
  · rw [hphase]
    obtain ⟨hpool, -, hw⟩ := h
    exact ⟨by rw [hpool], by rw [hpool], .inl hw⟩

theorem emitted_copyFrom {i : Nat} (hi : i ≤ t.plan.length) (hphase : s.phase = copyFrom t i) :
    s.emitted t = i + 1 := by
  unfold emitted copyFrom at *
  split at hphase
  · rw [hphase]
  · rw [hphase]
    dsimp only
    omega

theorem consumed_copyFrom {i : Nat} (hphase : s.phase = copyFrom t i) : s.consumed = 1 := by
  unfold Sender.consumed copyFrom at *
  split at hphase <;> rw [hphase]

/-- A step of the pipeline that writes nothing. -/
theorem Sound.still (h : s.Sound t) (hpumping : s.phase.Pumping) (hpumping' : s'.phase.Pumping)
    (hsent : s'.sent = s.sent) (hinput : s'.input = s.input) (hwritten : s'.written = s.written)
    (hstage : s'.Stage t) (hremaining : s'.remaining t < s.remaining t) : Advance t s s' := by
  have hemitted : s'.emitted t = s.emitted t := by
    rw [emitted_of_pumping hpumping, emitted_of_pumping hpumping', hwritten]
  refine ⟨⟨?_, hstage⟩, hinput, ?_, Nat.le_of_eq hemitted.symm, hremaining⟩
  · rw [hsent, h.sent_eq, hemitted]
  · rw [consumed_of_pumping hpumping, consumed_of_pumping hpumping']

theorem Sound.take (h : s.Sound t) (hs : next t s .take = some s') : Advance t s s' := by
  obtain ⟨pool, hpool, rfl⟩ := Option.map_eq_some_iff.mp hs
  unfold AeadPool.take at hpool
  split at hpool
  · cases hpool
  · rename_i job queue hqueue
    split at hpool
    · cases hpool
      obtain ⟨n, ⟨henc, htotal, taken, hsub, hflows⟩, hpumping, hkeep⟩ :=
        h.stage.pumps (.inl (by rw [hqueue]; exact List.cons_ne_nil _ _))
      refine h.still hpumping hpumping rfl rfl rfl (hkeep _ rfl ⟨henc, htotal, taken + 1, ?_, ?_⟩) ?_
      · rw [hqueue, List.length_cons] at hsub
        dsimp only
        omega
      · exact hflows.take hqueue
      · simp only [remaining, hqueue, List.length_cons, List.length_append, List.length_nil]
        omega
    · cases hpool

theorem Sound.finish (h : s.Sound t) {i : Nat} (hs : next t s (.finish i none) = some s') :
    Advance t s s' := by
  dsimp only [next] at hs
  split at hs
  · cases hs
  · rename_i job hjob
    obtain ⟨n, ⟨henc, htotal, taken, hsub, hflows⟩, hpumping, hkeep⟩ :=
      h.stage.pumps (.inr (List.ne_nil_of_mem (List.mem_of_getElem? hjob)))
    have hchunk := hflows.chunks job (List.mem_append_right _ (List.mem_of_getElem? hjob))
    have hlen : (s.pool.active.eraseIdx i).length + 1 = s.pool.active.length := by
      have hi := (List.getElem?_eq_some_iff.mp hjob).1
      rw [List.length_eraseIdx_of_lt hi]
      omega
    rw [← payload_eq hchunk] at hs
    rcases Nat.lt_or_ge job.index (s.emitter.nextToConsume + s.emitter.slots.length) with hlt | hge
    · rw [OrderedEmitter.publish_some hflows.emitter_clean hlt] at hs
      cases hs
      refine h.still hpumping hpumping rfl rfl rfl
        (hkeep _ rfl ⟨henc, htotal, taken, hsub, hflows.finish hjob hlt⟩) ?_
      simp only [remaining, AeadPool.finish]
      omega
    · rw [OrderedEmitter.publish_none hflows.emitter_clean hge] at hs
      cases hs

theorem Sound.submit (h : s.Sound t) (hs : next t s .submit = some s') : Advance t s s' := by
  dsimp only [next] at hs
  split at hs
  · rename_i i hphase
    split at hs
    · cases hs
    · rename_i chunk hchunk
      have hstage := h.stage
      rw [Stage, hphase] at hstage
      obtain ⟨hi, henc, htotal, taken, rfl, hflows⟩ := hstage
      rw [AeadPool.submit_of_clean hflows.pool_clean] at hs
      by_cases hspace : s.pool.queue.length < t.queueDepth
      · rw [if_pos hspace] at hs
        cases hs
        have hpumping : s.phase.Pumping := by rw [hphase]; trivial
        refine h.still hpumping (submitFrom_pumping t _) rfl rfl rfl ?_ ?_
        · refine stage_submitFrom (i := taken + s.pool.queue.length + 1) ⟨henc, htotal, taken, ?_, ?_⟩
            hi rfl
          · simp [Nat.add_assoc]
          · exact hflows.submit hchunk
        · have hle := submitFrom_remaining t (taken + s.pool.queue.length + 1)
          simp only [remaining, hphase, phaseRemaining, List.length_append, List.length_singleton]
          simp only [phaseRemaining] at hle
          omega
      · rw [if_neg hspace] at hs
        cases hs
  · cases hs

/-- The pool is idle: everything was published. -/
theorem Sound.drain (h : s.Sound t) (hs : next t s .drain = some s') : Advance t s s' := by
  dsimp only [next] at hs
  split at hs
  · rename_i hphase
    have hstage := h.stage
    rw [Stage, hphase] at hstage
    obtain ⟨henc, htotal, taken, hsub, hflows⟩ := hstage
    unfold AeadPool.drain at hs
    by_cases hidle : s.pool.queue = [] ∧ s.pool.active = []
    · rw [if_pos hidle, hflows.pool_clean] at hs
      cases hs
      have hpumping : s.phase.Pumping := by rw [hphase]; trivial
      obtain rfl : taken = t.plan.length := by simpa [hidle.1] using hsub
      refine h.still hpumping trivial rfl rfl rfl ?_ ?_
      · refine ⟨rfl, henc, rfl, hidle.1, hidle.2, ?_⟩
        refine ⟨hflows.submitted_le, rfl, hflows.emitter_clean, hflows.queue, hflows.active,
          hflows.nodup, hflows.chunks, ?_, ?_⟩
        · exact ⟨hflows.holds.slots_pos, hflows.holds.consumed, hflows.holds.window,
            hflows.holds.ready, hflows.holds.vacant⟩
        · have hwriter := hflows.writer
          unfold WriterSound at hwriter ⊢
          split at hwriter
          · rename_i hw
            simp only [hw]
          · rename_i chunk hw
            simp only [hw]
            exact hwriter
          · rw [htotal] at hwriter
            cases hwriter.1
          · exact hwriter.elim
      · simp only [remaining, hphase, phaseRemaining, OrderedEmitter.setTotal]
        omega
    · rw [if_neg hidle] at hs
      cases hs
  · cases hs

theorem Sound.consume (h : s.Sound t) (hs : next t s (.consume {}) = some s') : Advance t s s' := by
  dsimp only [next] at hs
  split at hs
  · rename_i hw
    obtain ⟨taken, hflows, henc, hpumping, htotal, hkeep⟩ :=
      h.stage.flows (by simp [hw]) (by simp [hw])
    split at hs
    · cases hs
    · rename_i e hc
      exact absurd hc (OrderedEmitter.consume_ne_error hflows.emitter_clean e)
    · rename_i em chunk hc
      cases hs
      obtain ⟨hflows', hnext, htotal'⟩ := hflows.consume hc
      have hle := hflows'.next_le
      have hsub := hflows.submitted_le
      dsimp only at hle
      refine h.still hpumping hpumping rfl rfl ?_ (hkeep _ rfl rfl htotal' hflows') ?_
      · simp only [written, hw, hnext, Nat.add_sub_cancel]
      · simp only [remaining, hw, writerRemaining, hnext]
        omega
    · rename_i em hc
      cases hs
      obtain ⟨rfl, n, hn, hle⟩ := OrderedEmitter.consume_end hc
      obtain rfl := htotal n hn
      have hnext := hflows.next_le
      have hsub := hflows.submitted_le
      have heq : s.emitter.nextToConsume = t.plan.length := by omega
      have hwriter : WriterSound t { s with writer := .done none } := ⟨hn, heq⟩
      refine h.still hpumping hpumping rfl rfl ?_ (hkeep _ rfl rfl rfl ?_) ?_
      · simp only [written, hw]
      · exact ⟨hflows.submitted_le, hflows.pool_clean, hflows.emitter_clean, hflows.queue,
          hflows.active, hflows.nodup, hflows.chunks, hflows.holds, hwriter⟩
      · simp only [remaining, hw, writerRemaining]
        omega
  · cases hs

/-- The writer puts its chunk on the channel. -/
theorem Sound.write (h : s.Sound t) (hs : next t s (.write {}) = some s') : Advance t s s' := by
  dsimp only [next] at hs
  split at hs
  · rename_i chunk hw
    obtain ⟨taken, hflows, henc, hpumping, htotal, hkeep⟩ :=
      h.stage.flows (by simp [hw]) (by simp [hw])
    have hwriter := hflows.writer
    rw [WriterSound, hw] at hwriter
    obtain ⟨k, hnext, rfl⟩ := hwriter
    have hlt : k < t.plan.length := by
      have hle := hflows.next_le
      have hsub := hflows.submitted_le
      omega
    have hchunk : t.plan[k]? = some t.plan[k] := List.getElem?_eq_getElem hlt
    have hpayload : payload t k = t.chunkPayload k t.plan[k] := by
      rw [payload_eq hchunk, Sending.chunkPayload, henc, if_pos rfl]
    have hfits := Sending.length_chunkPayload_le (List.getElem_mem hlt) k
    have hframe : t.frames[k + 1]? = some (Frame.of .chunk (payload t k)) := by
      rw [Sending.frames_chunk hchunk, hpayload, Sending.chunkFlags, henc]
      rfl
    rw [hpayload] at hs
    simp only [frame, writeFrame_eq hfits] at hs
    cases hs
    rw [← hpayload]
    have hwritten : s.written = k := by simp [written, hw, hnext]
    have hpumping' : (Sender.mk s.input (s.sent ++ frameBytes .chunk (payload t k)) s.phase s.pool
      s.emitter .consuming).phase.Pumping := hpumping
    refine ⟨⟨?_, hkeep _ rfl rfl rfl ?_⟩, rfl, ?_, ?_, ?_⟩
    · rw [emitted_of_pumping hpumping', h.sent_eq, emitted_of_pumping hpumping, hwritten]
      simp only [written, hnext]
      rw [Sending.wire_succ hframe]
      rfl
    · exact ⟨hflows.submitted_le, hflows.pool_clean, hflows.emitter_clean, hflows.queue,
        hflows.active, hflows.nodup, hflows.chunks, hflows.holds, trivial⟩
    · rw [consumed_of_pumping hpumping', consumed_of_pumping hpumping]
    · rw [emitted_of_pumping hpumping', emitted_of_pumping hpumping, hwritten]
      simp only [written, hnext]
      omega
    · simp only [remaining, hw, writerRemaining]
      omega
  · cases hs

theorem Sound.join (h : s.Sound t) (hs : next t s .join = some s') : Advance t s s' := by
  have hstage := h.stage
  dsimp only [next] at hs
  split at hs
  · rename_i e _ hphase hw
    rw [Stage, hphase] at hstage
    cases hstage.1
  · rename_i e hphase hw
    rw [Stage, hphase] at hstage
    have hwriter := hstage.2.2.2.2.2.writer
    rw [WriterSound, hw] at hwriter
    exact hwriter.elim
  · rename_i hphase hw
    rw [Stage, hphase] at hstage
    obtain ⟨-, henc, -, hqueue, hactive, hflows⟩ := hstage
    have hwriter := hflows.writer
    rw [WriterSound, hw] at hwriter
    have hemitted : s.emitted t = t.plan.length + 1 := by
      simp [emitted, hphase, written, hw, hwriter.2]
    cases hs
    refine ⟨⟨?_, hqueue, hactive, .inr hw⟩, rfl, ?_, Nat.le_of_eq hemitted, ?_⟩
    · rw [h.sent_eq, hemitted]
      rfl
    · simp [Sender.consumed, hphase]
    · simp only [remaining, hphase, phaseRemaining]
      omega
  · cases hs

theorem writeThen_eq {payload : Bytes} (h : payload.length ≤ kMaxFrameLength) (type : MessageType)
    (flags : UInt16) (phase : SenderPhase) :
    s.writeThen {} type payload flags phase =
      { s with sent := s.sent ++ (Frame.of type payload flags).bytes, phase := phase } := by
  simp only [writeThen, frame, writeFrame_eq h type flags]
  rfl

/-- A frame of the transfer written by the calling thread. -/
theorem Sound.writes (h : s.Sound t) {f : Frame} {phase : SenderPhase}
    (hframe : t.frames[s.emitted t]? = some f)
    (hstage : Stage t { s with sent := s.sent ++ f.bytes, phase := phase })
    (hconsumed : Sender.consumed { s with sent := s.sent ++ f.bytes, phase := phase } = s.consumed)
    (hemitted : Sender.emitted t { s with sent := s.sent ++ f.bytes, phase := phase } =
      s.emitted t + 1)
    (hremaining : phaseRemaining t.plan.length phase < phaseRemaining t.plan.length s.phase) :
    Advance t s { s with sent := s.sent ++ f.bytes, phase := phase } := by
  refine ⟨⟨?_, hstage⟩, rfl, hconsumed, by omega, ?_⟩
  · rw [hemitted, Sending.wire_succ hframe, ← h.sent_eq]
  · simp only [remaining]
    omega

theorem Sound.begin (h : s.Sound t) (hoffer : t.offerPayload.length ≤ kMaxFrameLength)
    (hsends : t.encrypt = true ∨ t.overRelay = false) (hs : next t s (.begin {}) = some s') :
    Advance t s s' := by
  dsimp only [next] at hs
  split at hs
  · rename_i hphase
    have hstage := h.stage
    rw [Stage, hphase] at hstage
    have hallowed : ¬ (!t.encrypt && t.overRelay) = true := by
      rcases hsends with henc | hrelay
      · simp [henc]
      · simp [hrelay]
    cases hs
    rw [Sender.begin, if_neg hallowed, writeThen_eq hoffer]
    have hemitted : s.emitted t = 0 := by simp [emitted, hphase]
    refine h.writes (by rw [hemitted]; rfl) hstage ?_ (by rw [hemitted]; rfl) ?_
    · simp [Sender.consumed, hphase]
    · simp only [hphase, phaseRemaining]
      omega
  · cases hs

theorem Sound.copy (h : s.Sound t) (hs : next t s (.copy {}) = some s') : Advance t s s' := by
  dsimp only [next] at hs
  split at hs
  · rename_i i hphase
    have hstage := h.stage
    rw [Stage, hphase] at hstage
    obtain ⟨hplain, hi, hunstarted⟩ := hstage
    have hemitted : s.emitted t = i + 1 := by simp [emitted, hphase]
    split at hs
    · cases hs
    · rename_i chunk hchunk
      have hpayload : t.chunkPayload i chunk = t.plainPayload i chunk := by
        simp [Sending.chunkPayload, hplain]
      have hfits := Sending.length_chunkPayload_le (List.mem_of_getElem? hchunk) i
      rw [hpayload] at hfits
      have hframe := Sending.frames_chunk hchunk
      rw [hpayload, Sending.chunkFlags, hplain] at hframe
      rw [writeThen_eq hfits] at hs
      cases hs
      have hle := copyFrom_remaining t (i + 1)
      refine h.writes (by rw [hemitted]; exact hframe) ?_ ?_ ?_ ?_
      · exact stage_copyFrom hplain hunstarted rfl
      · rw [consumed_copyFrom (i := i + 1) rfl, Sender.consumed, hphase]
      · rw [hemitted, emitted_copyFrom hi rfl]
      · simp only [hphase, phaseRemaining] at hle ⊢
        omega
  · cases hs

theorem Sound.close (h : s.Sound t) (hs : next t s (.close {}) = some s') : Advance t s s' := by
  dsimp only [next] at hs
  split at hs
  · rename_i hphase
    have hstage := h.stage
    rw [Stage, hphase] at hstage
    cases hs
    rw [writeThen_eq (Nat.zero_le _)]
    have hemitted : s.emitted t = t.plan.length + 1 := by simp [emitted, hphase]
    refine h.writes (by rw [hemitted]; exact Sending.frames_end t) hstage ?_ (by rw [hemitted]; rfl) ?_
    · simp [Sender.consumed, hphase]
    · simp only [hphase, phaseRemaining]
      omega
  · cases hs

/-- A step that reads nothing keeps the invariant and leaves less to do. -/
theorem Sound.step (h : s.Sound t) (hoffer : t.offerPayload.length ≤ kMaxFrameLength)
    (hsends : t.encrypt = true ∨ t.overRelay = false) {e : SenderEvent} (hworks : e.Works)
    (hread : ∀ calls, e ≠ .read calls) (hs : next t s e = some s') : Advance t s s' := by
  cases e with
  | arrive | lost => exact hworks.elim
  | read calls => exact absurd rfl (hread calls)
  | submit => exact h.submit hs
  | take => exact h.take hs
  | drain => exact h.drain hs
  | join => exact h.join hs
  | finish i fault =>
    cases hworks
    exact h.finish hs
  | begin calls =>
    cases hworks
    exact h.begin hoffer hsends hs
  | consume calls =>
    cases hworks
    exact h.consume hs
  | write calls =>
    cases hworks
    exact h.write hs
  | copy calls =>
    cases hworks
    exact h.copy hs
  | close calls =>
    cases hworks
    exact h.close hs

/-! ## Frames from the other side -/

/-- A step that reads a frame, keeps the invariant and leaves less to do. -/
structure Took (t : Sending) (s s' : Sender) (rest : Bytes) : Prop where
  sound : s'.Sound t
  input : s'.input = rest
  consumed : s'.consumed = s.consumed + 1
  emitted : s'.emitted t = s.emitted t
  remaining : s'.remaining t < s.remaining t

theorem flows_init (hunstarted : s.Unstarted t) {input : Bytes} {phase : SenderPhase} :
    Flows t 0 { s with input := input, phase := phase, writer := .consuming } := by
  obtain ⟨hpool, hemitter, -⟩ := hunstarted
  refine ⟨?_, ?_, ?_, ?_, ?_, ?_, ?_, ?_, trivial⟩
  · simp [hpool]
  · simp [hpool]
  · simp [hemitter, OrderedEmitter.init]
  · simp [hpool]
  · simp [activeIndices, hpool]
  · simp [activeIndices, hpool]
  · simp [hpool]
  · rw [hemitter]
    exact (OrderedEmitter.holds_init _ _).congr fun i => by simp

theorem Sound.decided (h : s.Sound t) (hphase : s.phase = .awaitingDecision)
    {decision : TransferDecision} {frame : Frame} {rest : Bytes}
    (htype : frame.header.type = .decision)
    (hdecode : TransferDecision.decode frame.payload = .ok decision)
    (haccepted : decision.accepted = true) :
    Took t s (Sender.decided t {} frame { s with input := rest }) rest := by
  have hstage := h.stage
  rw [Stage, hphase] at hstage
  have hemitted : s.emitted t = 1 := by simp [emitted, hphase]
  have hsent := h.sent_eq
  rw [hemitted] at hsent
  have hconsumed : s.consumed = 0 := by simp [Sender.consumed, hphase]
  have hexpect : (Channel.expect .decision frame >>= fun frame =>
      TransferDecision.decode frame.payload) = .ok decision := by
    simp only [Channel.expect, htype, if_true]
    exact hdecode
  have hnext : s.emitter.nextToConsume = 0 := by
    rw [hstage.2.1]
    rfl
  simp only [Sender.decided, hexpect, haccepted, Bool.true_eq_false, if_false]
  cases henc : t.encrypt with
  | true =>
    have hpumping : (Sender.mk rest s.sent (submitFrom t 0) s.pool s.emitter
      .consuming).phase.Pumping := submitFrom_pumping t 0
    have hwritten : (Sender.mk rest s.sent (submitFrom t 0) s.pool s.emitter
      .consuming).written = 0 := hnext
    have hle := submitFrom_remaining t 0
    refine ⟨⟨?_, ?_⟩, rfl, ?_, ?_, ?_⟩
    · rw [if_pos rfl, emitted_of_pumping hpumping, hwritten]
      exact hsent
    · refine stage_submitFrom (i := 0) ⟨henc, ?_, 0, ?_, flows_init hstage⟩ (Nat.zero_le _) rfl
      · rw [if_pos rfl, hstage.2.1]
        rfl
      · rw [if_pos rfl, hstage.1]
        rfl
    · rw [if_pos rfl, consumed_of_pumping hpumping, hconsumed]
    · rw [if_pos rfl, emitted_of_pumping hpumping, hwritten, hemitted]
    · simp only [if_true, remaining, hphase, phaseRemaining, hstage.2.2, writerRemaining] at hle ⊢
      omega
  | false =>
    have hphase' : (Sender.mk rest s.sent (copyFrom t 0) s.pool s.emitter s.writer).phase =
      copyFrom t 0 := rfl
    have hle := copyFrom_remaining t 0
    refine ⟨⟨?_, ?_⟩, rfl, ?_, ?_, ?_⟩
    · rw [if_neg Bool.false_ne_true, emitted_copyFrom (Nat.zero_le _) hphase']
      exact hsent
    · rw [if_neg Bool.false_ne_true]
      exact stage_copyFrom henc hstage hphase'
    · rw [if_neg Bool.false_ne_true, consumed_copyFrom hphase', hconsumed]
    · rw [if_neg Bool.false_ne_true, emitted_copyFrom (Nat.zero_le _) hphase', hemitted]
    · simp only [Bool.false_eq_true, if_false, remaining, hphase, phaseRemaining] at hle ⊢
      omega

/-- The other side acknowledges. -/
theorem Sound.acknowledged (h : s.Sound t) (hphase : s.phase = .awaitingAck) {frame : Frame}
    {rest : Bytes} (htype : frame.header.type = .transferAck) :
    Took t s (Sender.acknowledged frame { s with input := rest }) rest := by
  have hstage := h.stage
  have hsent := h.sent_eq
  have hemitted : s.emitted t = t.plan.length + 2 := by simp [emitted, hphase]
  rw [Stage, hphase] at hstage
  rw [hemitted] at hsent
  simp only [Sender.acknowledged, Channel.expect, htype, if_true]
  refine ⟨⟨hsent, hstage⟩, rfl, ?_, hemitted.symm, ?_⟩
  · simp [Sender.consumed, hphase]
  · simp only [remaining, hphase, phaseRemaining]
    omega

/-! ## Progress -/

/-- Some thread can take a step that reads nothing. -/
def CanStep (t : Sending) (s : Sender) : Prop :=
  ∃ e : SenderEvent, e.Works ∧ (∀ calls, e ≠ .read calls) ∧ (next t s e).isSome

theorem canStep_write {chunk : Bytes} (hw : s.writer = .writing chunk) : s.CanStep t := by
  refine ⟨.write {}, rfl, fun _ => SenderEvent.noConfusion, ?_⟩
  simp only [next, hw]
  split <;> rfl

/-- While a chunk is being sealed, the writer can go on or the chunk it waits for can be
published. -/
theorem Flows.canStep (h : s.Flows t taken) (hactive : s.pool.active ≠ [])
    (htotal : s.emitter.total = none) : s.CanStep t := by
  obtain ⟨job, hjob⟩ := List.exists_mem_of_ne_nil _ hactive
  have hmem : job.index ∈ s.activeIndices := List.mem_map_of_mem hjob
  have hlt : s.emitter.nextToConsume < taken :=
    Nat.lt_of_le_of_lt (h.next_le_active hmem) (h.active _ hmem)
  cases hw : s.writer with
  | notStarted | done =>
    have hwriter := h.writer
    rw [WriterSound, hw] at hwriter
    split at hwriter <;> simp_all
  | writing chunk => exact canStep_write hw
  | consuming =>
    by_cases hpub : s.emitter.nextToConsume ∈ s.activeIndices
    · -- The chunk that the writer waits for is always inside the window.
      obtain ⟨first, hfirst, hindex⟩ := List.mem_map.mp hpub
      obtain ⟨i, hi⟩ := List.mem_iff_getElem?.mp hfirst
      refine ⟨.finish i none, rfl, fun _ => SenderEvent.noConfusion, ?_⟩
      have hpos := h.holds.slots_pos
      simp only [next, hi, OrderedEmitter.publish_some h.emitter_clean
        (by omega : first.index < s.emitter.nextToConsume + s.emitter.slots.length)]
      rfl
    · refine ⟨.consume {}, rfl, fun _ => SenderEvent.noConfusion, ?_⟩
      simp only [next, hw, h.holds.consume_some h.emitter_clean (by simp [htotal]) ⟨hlt, hpub⟩]
      rfl

theorem canStep_take {job : SealJob} {queue : List SealJob} (hqueue : s.pool.queue = job :: queue)
    (hidle : s.pool.active.length < t.workers) : s.CanStep t := by
  refine ⟨.take, trivial, fun _ => SenderEvent.noConfusion, ?_⟩
  simp [next, AeadPool.take, hqueue, hidle]

theorem Pumps.canStep {submitted : Nat} (h : s.Pumps t submitted)
    (hjobs : s.pool.queue ≠ [] ∨ s.pool.active ≠ []) : s.CanStep t := by
  obtain ⟨-, htotal, taken, -, hflows⟩ := h
  by_cases hactive : s.pool.active = []
  · obtain ⟨job, queue, hqueue⟩ := List.exists_cons_of_ne_nil (hjobs.resolve_right (not_not.mpr hactive))
    refine canStep_take hqueue ?_
    rw [hactive]
    exact t.workers_pos
  · exact hflows.canStep hactive htotal

/-- Unless it waits for the other side or has returned, the sender can go on. -/
theorem Sound.progress (h : s.Sound t) : s.Waits ∨ s.phase = .returned ∨ s.CanStep t := by
  have hstage := h.stage
  unfold Stage at hstage
  split at hstage
  · rename_i hphase
    refine .inr (.inr ⟨.begin {}, rfl, fun _ => SenderEvent.noConfusion, ?_⟩)
    simp [next, hphase]
  · rename_i hphase
    exact .inl (.inl hphase)
  · rename_i i hphase
    right; right
    obtain ⟨hi, hpumps⟩ := hstage
    have hclean : s.pool.firstError = none := by
      obtain ⟨-, -, taken, -, hflows⟩ := hpumps
      exact hflows.pool_clean
    by_cases hspace : s.pool.queue.length < t.queueDepth
    · refine ⟨.submit, trivial, fun _ => SenderEvent.noConfusion, ?_⟩
      simp [next, hphase, List.getElem?_eq_getElem hi, AeadPool.submit_of_clean hclean, hspace]
    · refine hpumps.canStep (.inl fun hnil => hspace ?_)
      rw [hnil]
      exact Nat.mul_pos t.workers_pos Nat.two_pos
  · rename_i hphase
    right; right
    by_cases hidle : s.pool.queue = [] ∧ s.pool.active = []
    · obtain ⟨-, -, taken, -, hflows⟩ := hstage
      refine ⟨.drain, trivial, fun _ => SenderEvent.noConfusion, ?_⟩
      simp [next, hphase, AeadPool.drain, hidle, hflows.pool_clean]
    · exact hstage.canStep (not_and_or.mp hidle)
  · rename_i error hphase
    right; right
    obtain ⟨rfl, henc, htotal, hqueue, hactive, hflows⟩ := hstage
    have hwriter := hflows.writer
    unfold WriterSound at hwriter
    split at hwriter
    · rename_i hw
      refine ⟨.consume {}, rfl, fun _ => SenderEvent.noConfusion, ?_⟩
      rcases Nat.lt_or_ge s.emitter.nextToConsume t.plan.length with hlt | hge
      · have hpub : s.emitter.nextToConsume < t.plan.length ∧
            s.emitter.nextToConsume ∉ s.activeIndices := by simp [activeIndices, hactive, hlt]
        simp only [next, hw, hflows.holds.consume_some hflows.emitter_clean
          (by simpa [htotal] using hlt) hpub]
        rfl
      · simp only [next, hw, OrderedEmitter.consume_total hflows.emitter_clean htotal hge]
        rfl
    · rename_i chunk hw
      exact canStep_write hw
    · rename_i hw
      refine ⟨.join, trivial, fun _ => SenderEvent.noConfusion, ?_⟩
      simp [next, hphase, hw]
    · exact hwriter.elim
  · rename_i i hphase
    refine .inr (.inr ⟨.copy {}, rfl, fun _ => SenderEvent.noConfusion, ?_⟩)
    simp [next, hphase, List.getElem?_eq_getElem hstage.2.1]
  · rename_i hphase
    refine .inr (.inr ⟨.close {}, rfl, fun _ => SenderEvent.noConfusion, ?_⟩)
    simp [next, hphase]
  · rename_i hphase
    exact .inl (.inr hphase)
  · rename_i hphase
    exact .inr (.inl hphase)
  · exact hstage.elim

end Sender

end DropZone
