import DropZone.Transfer.Delivery
import DropZone.Transfer.SenderSteps
import DropZone.Transfer.Senders

/-!
# A transfer from end to end

The sender and the receiver of an undisturbed transfer, joined by a channel that delivers the bytes of
each side to the other in order, in pieces of any length. Threads of the two sides and deliveries
interleave in any way.

* `Link.Sound`: the invariant of the two ends and the bytes between them.
* `Link.Done`: the sender has returned, the receiver has acknowledged, and every output has the
  contents of its source file.
* `transfer_completes`: every run comes to a state with `Done`; `sent_emission`: on the way there the
  sender sends what the loops of `send_plaintext` and `send_encrypted` emit.
-/

namespace DropZone

open LittleEndian Parser Stream System

theorem Frame.bytes_ne_nil (f : Frame) : f.bytes ≠ [] := by
  intro hnil
  have hlen := congrArg List.length hnil
  rw [Frame.bytes, List.length_append, length_encodeFrameHeader, List.length_nil] at hlen
  omega

/-! ## Bytes that arrive -/

namespace Sender

variable {t : Sending} {s : Sender}

theorem Flows.arrive {taken : Nat} (h : s.Flows t taken) (input : Bytes) :
    Flows t taken { s with input := input } :=
  ⟨h.submitted_le, h.pool_clean, h.emitter_clean, h.queue, h.active, h.nodup, h.chunks, h.holds,
    h.writer⟩

theorem Pumps.arrive {submitted : Nat} (h : s.Pumps t submitted) (input : Bytes) :
    Pumps t submitted { s with input := input } := by
  obtain ⟨henc, htotal, taken, htaken, hflows⟩ := h
  exact ⟨henc, htotal, taken, htaken, hflows.arrive input⟩

/-- What arrives changes nothing before it is read. -/
theorem Sound.arrive (h : s.Sound t) (input : Bytes) : Sound t { s with input := input } := by
  refine ⟨h.sent_eq, ?_⟩
  have hstage := h.stage
  unfold Stage at hstage ⊢
  dsimp only
  split at hstage
  case h_3 => exact ⟨hstage.1, hstage.2.arrive input⟩
  case h_4 => exact hstage.arrive input
  case h_5 =>
    obtain ⟨herror, henc, htotal, hqueue, hactive, hflows⟩ := hstage
    exact ⟨herror, henc, htotal, hqueue, hactive, hflows.arrive input⟩
  all_goals exact hstage

theorem Sound.emitted_le (h : s.Sound t) : s.emitted t ≤ t.wire.length := by
  have hstage := h.stage
  have hlen : t.wire.length = t.plan.length + 2 := by
    rw [Sending.wire, List.length_map, Sending.length_frames]
  have hwritten : ∀ {taken}, s.Flows t taken → s.written ≤ t.plan.length := by
    intro taken hflows
    have hnext := hflows.next_le
    have hle := hflows.submitted_le
    unfold written
    split <;> omega
  rw [hlen]
  unfold Stage at hstage
  split at hstage <;> rename_i hphase <;> simp only [emitted, hphase]
  case h_3 =>
    obtain ⟨-, -, -, taken, -, hflows⟩ := hstage
    have := hwritten hflows
    omega
  case h_4 =>
    obtain ⟨-, -, taken, -, hflows⟩ := hstage
    have := hwritten hflows
    omega
  case h_5 =>
    have := hwritten hstage.2.2.2.2.2
    omega
  case h_6 =>
    have := hstage.2.1
    omega
  all_goals omega

end Sender

namespace Receiver

variable {t : Sending} {c : Receiving} {s : Receiver}

theorem Sound.arrive (h : s.Sound t c) (input : Bytes) : Sound t c { s with input := input } :=
  ⟨h.sent_eq, h.clean, h.stage, h.jobs, h.log⟩

theorem Sound.consumed_le (h : s.Sound t c) (hwaits : s.Waits) :
    s.consumed t ≤ t.plan.length + 1 := by
  have hstage := h.stage
  rcases hwaits with hphase | hphase
  · simp [consumed, hphase]
  · rw [Stage, hphase] at hstage
    simp only [consumed, hphase]
    omega

theorem emitted_le (s : Receiver) (c : Receiving) :
    s.emitted ≤ (c.replies.map Frame.bytes).length := by
  unfold emitted
  split <;> simp [Receiving.replies]

end Receiver

/-! ## The two ends -/

/-- The two ends, and how many bytes of what each has sent have reached the other. -/
structure Link where
  sender : Sender
  receiver : Receiver
  forth : Nat := 0
  back : Nat := 0

inductive LinkEvent where
  /-- The next `n` bytes of the sender arrive. -/
  | deliver (n : Nat)
  /-- The next `n` bytes of the receiver arrive. -/
  | answer (n : Nat)
  | sender (e : SenderEvent)
  | receiver (e : ReceiverEvent)

/-- Each call succeeds, and each delivery brings something. -/
def LinkEvent.Works : LinkEvent → Prop
  | .deliver n | .answer n => 0 < n
  | .sender e => e.Works
  | .receiver e => e.Works

namespace Link

def init (t : Sending) (disk : Disk) : Link := ⟨Sender.init t, Receiver.init disk, 0, 0⟩

def next (t : Sending) (c : Receiving) (l : Link) : LinkEvent → Option Link
  | .deliver n =>
    if l.forth + n ≤ l.sender.sent.length then
      (Receiver.next c l.receiver (.arrive ((l.sender.sent.drop l.forth).take n))).map
        ({ l with receiver := ·, forth := l.forth + n })
    else none
  | .answer n =>
    if l.back + n ≤ l.receiver.sent.length then
      (Sender.next t l.sender (.arrive ((l.receiver.sent.drop l.back).take n))).map
        ({ l with sender := ·, back := l.back + n })
    else none
  | .sender e => (Sender.next t l.sender e).map ({ l with sender := · })
  | .receiver e => (Receiver.next c l.receiver e).map ({ l with receiver := · })

def Step (t : Sending) (c : Receiving) (l : Link) (e : LinkEvent) (l' : Link) : Prop :=
  e.Works ∧ next t c l e = some l'

/-- The transfer is over: every chunk was accepted, and every file has its source's contents. -/
structure Done (t : Sending) (c : Receiving) (l : Link) : Prop where
  returned : l.sender.phase = .returned
  acked : l.receiver.phase = .acked
  received : l.receiver.received = t.plan.length
  outputs : ∀ file ∈ t.manifest.files,
    l.receiver.disk (joinPath c.directory file.relativePath) = t.source file.sourcePath

/-- The two ends do as they should, and what arrives is what was sent. -/
structure Sound (t : Sending) (c : Receiving) (disk : Disk) (l : Link) : Prop where
  sender : l.sender.Sound t
  receiver : l.receiver.Sound t c
  reach : Reach (· = Receiver.init disk) (Receiver.Step c) l.receiver
  forth : Transit t.wire (l.sender.emitted t) l.forth (l.receiver.consumed t) l.receiver.input
  back : Transit (c.replies.map Frame.bytes) l.receiver.emitted l.back l.sender.consumed
    l.sender.input

/-- A bound on the steps before the two ends. -/
def remaining (t : Sending) (c : Receiving) (l : Link) : Nat :=
  l.sender.remaining t + l.receiver.remaining t + (t.wire.flatten.length - l.forth) +
    ((c.replies.map Frame.bytes).flatten.length - l.back)

variable {t : Sending} {c : Receiving} {disk : Disk} {l l' : Link}

theorem sound_init (t : Sending) (c : Receiving) (disk : Disk) : (init t disk).Sound t c disk where
  sender := Sender.sound_init t
  receiver := Receiver.sound_init disk
  reach := .init rfl
  forth := transit_init _
  back := transit_init _

/-! ## Steps -/

theorem Sound.counted (h : l.Sound t c disk) : l.receiver.Counted c :=
  Receiver.counted_of_reach h.reach

theorem Sound.numbered (h : l.Sound t c disk) : l.receiver.Numbered c :=
  .of_reach h.reach h.receiver.isClean

theorem Sound.stored (h : l.Sound t c disk) : l.receiver.Stored :=
  Receiver.stored_of_reach h.reach

theorem flatten_take_le (frames : List Bytes) (n : Nat) :
    (frames.take n).flatten.length ≤ frames.flatten.length := by
  conv_rhs => rw [← List.take_append_drop n frames, List.flatten_append, List.length_append]
  exact Nat.le_add_right _ _

theorem Sound.deliver (h : l.Sound t c disk) {n : Nat} (hn : 0 < n)
    (hs : next t c l (.deliver n) = some l') :
    l'.Sound t c disk ∧ l'.remaining t c < l.remaining t c := by
  dsimp only [next] at hs
  split at hs
  · rename_i hle
    obtain ⟨r, hr, rfl⟩ := Option.map_eq_some_iff.mp hs
    have hreach : Reach (· = Receiver.init disk) (Receiver.Step c) r := .step h.reach hr
    unfold Receiver.next at hr
    split at hr
    · cases hr
    · cases hr
      have hsent := h.sender.sent_eq
      rw [hsent] at hle
      have harrive := h.forth.arrive hle
      rw [← hsent] at harrive
      refine ⟨⟨h.sender, h.receiver.arrive _, hreach, harrive, h.back⟩, ?_⟩
      have hmax := flatten_take_le t.wire (l.sender.emitted t)
      simp only [remaining, Receiver.remaining]
      omega
  · cases hs

/-- A delivery to the sender. -/
theorem Sound.answer (h : l.Sound t c disk) {n : Nat} (hn : 0 < n)
    (hs : next t c l (.answer n) = some l') :
    l'.Sound t c disk ∧ l'.remaining t c < l.remaining t c := by
  dsimp only [next] at hs
  split at hs
  · rename_i hle
    cases hs
    have hsent := h.receiver.sent_eq
    rw [hsent] at hle
    have harrive := h.back.arrive hle
    rw [← hsent] at harrive
    refine ⟨⟨h.sender.arrive _, h.receiver, h.reach, h.forth, harrive⟩, ?_⟩
    have hmax := flatten_take_le (c.replies.map Frame.bytes) l.receiver.emitted
    simp only [remaining, Sender.remaining]
    omega
  · cases hs

theorem Sound.senderReads (h : l.Sound t c disk) (hhonest : Honest t c) (hwaits : l.sender.Waits)
    {frame : Frame} (hframe : c.replies[l.sender.consumed]? = some frame) (rest : Bytes) :
    Sender.Took t l.sender (Sender.handle t {} frame { l.sender with input := rest }) rest := by
  rcases hwaits with hphase | hphase
  · rw [Sender.consumed, hphase] at hframe
    cases hframe
    unfold Sender.handle
    rw [hphase]
    exact h.sender.decided hphase rfl hhonest.decode_decision rfl
  · rw [Sender.consumed, hphase] at hframe
    cases hframe
    unfold Sender.handle
    rw [hphase]
    exact h.sender.acknowledged hphase rfl

theorem Sound.senderStep (h : l.Sound t c disk) (hhonest : Honest t c) {e : SenderEvent}
    (hworks : e.Works) (hs : next t c l (.sender e) = some l') :
    l'.Sound t c disk ∧ l'.remaining t c < l.remaining t c := by
  obtain ⟨s, hnext, rfl⟩ := Option.map_eq_some_iff.mp hs
  clear hs
  have hsends : t.encrypt = true ∨ t.overRelay = false := hhonest.encrypted.imp_right And.left
  by_cases hread : ∃ calls, e = .read calls
  · obtain ⟨calls, rfl⟩ := hread
    cases hworks
    dsimp only [Sender.next] at hnext
    split at hnext
    · rename_i hwaits
      split at hnext
      · rename_i frame rest hrun
        cases hnext
        obtain ⟨hframe, hback⟩ := h.back.read (incremental_readFrame .peerClosed)
          (readFrame_nil .peerClosed) hhonest.reads_replies hrun
        have htook := h.senderReads hhonest hwaits hframe rest
        refine ⟨⟨htook.sound, h.receiver, h.reach, ?_, ?_⟩, ?_⟩
        · rw [htook.emitted]
          exact h.forth
        · rw [htook.consumed, htook.input]
          exact hback
        · have hlt := htook.remaining
          dsimp only [remaining] at hlt ⊢
          omega
      · cases hnext
      · rename_i e hne hrun
        exact absurd (h.back.error_eq (incremental_readFrame .peerClosed)
          (readFrame_nil .peerClosed) hhonest.reads_replies hrun) hne
    · cases hnext
  · have hadv := h.sender.step hhonest.offer_fits hsends hworks
      (fun calls he => hread ⟨calls, he⟩) hnext
    refine ⟨⟨hadv.sound, h.receiver, h.reach, ?_, ?_⟩, ?_⟩
    · exact h.forth.write hadv.emitted hadv.sound.emitted_le
    · rw [hadv.consumed, hadv.input]
      exact h.back
    · have hlt := hadv.remaining
      simp only [remaining]
      omega

theorem Sound.receiverStep (h : l.Sound t c disk) (hhonest : Honest t c) {e : ReceiverEvent}
    (hworks : e.Works) (hs : next t c l (.receiver e) = some l') :
    l'.Sound t c disk ∧ l'.remaining t c < l.remaining t c := by
  obtain ⟨s, hnext, rfl⟩ := Option.map_eq_some_iff.mp hs
  clear hs
  have hreach : Reach (· = Receiver.init disk) (Receiver.Step c) s := .step h.reach hnext
  have hadvance : ∃ k rest, Receiver.Advance t c l.receiver s k rest ∧
      Transit t.wire (l.sender.emitted t) l.forth (l.receiver.consumed t + k) rest := by
    by_cases hread : ∃ calls, e = .read calls
    · obtain ⟨calls, rfl⟩ := hread
      cases hworks
      unfold Receiver.next at hnext
      split at hnext
      · cases hnext
      · dsimp only at hnext
        split at hnext
        · rename_i hwaits
          split at hnext
          · rename_i frame rest hrun
            cases hnext
            obtain ⟨hframe, hforth⟩ := h.forth.read (incremental_readFrame .peerClosed)
              (readFrame_nil .peerClosed) (Sending.reads_frames hhonest.offer_fits) hrun
            exact ⟨1, rest, h.receiver.read hhonest h.counted h.numbered hwaits hframe rest, hforth⟩
          · cases hnext
          · rename_i e hne hrun
            exact absurd (h.forth.error_eq (incremental_readFrame .peerClosed)
              (readFrame_nil .peerClosed) (Sending.reads_frames hhonest.offer_fits) hrun) hne
        · cases hnext
    · exact ⟨0, l.receiver.input, h.receiver.step hhonest h.counted h.numbered h.stored hworks
        (fun calls he => hread ⟨calls, he⟩) hnext, h.forth⟩
  obtain ⟨k, rest, hadv, hforth⟩ := hadvance
  refine ⟨⟨h.sender, hadv.sound, hreach, ?_, ?_⟩, ?_⟩
  · rw [hadv.consumed, hadv.input]
    exact hforth
  · exact h.back.write hadv.emitted (Receiver.emitted_le s c)
  · have hlt := hadv.remaining
    simp only [remaining]
    omega

/-- Every step keeps the invariant and leaves less to do. -/
theorem Sound.step (h : l.Sound t c disk) (hhonest : Honest t c) {e : LinkEvent}
    (hs : Step t c l e l') : l'.Sound t c disk ∧ l'.remaining t c < l.remaining t c := by
  obtain ⟨hworks, hs⟩ := hs
  cases e with
  | deliver n => exact h.deliver hworks hs
  | answer n => exact h.answer hworks hs
  | sender e => exact h.senderStep hhonest hworks hs
  | receiver e => exact h.receiverStep hhonest hworks hs

/-! ## Progress -/

def CanStep (t : Sending) (c : Receiving) (l : Link) : Prop := ∃ e l', Step t c l e l'

theorem canStep_of_next {e : LinkEvent} (hworks : e.Works) (h : (next t c l e).isSome) :
    l.CanStep t c := by
  obtain ⟨l', hl'⟩ := Option.isSome_iff_exists.mp h
  exact ⟨e, l', hworks, hl'⟩

theorem Sound.senderCanRead (h : l.Sound t c disk) (hhonest : Honest t c)
    (hall : l.back = l.receiver.sent.length) (hwaits : l.sender.Waits)
    (hlt : l.sender.consumed < l.receiver.emitted) : l.CanStep t c := by
  rw [h.receiver.sent_eq] at hall
  obtain ⟨frame, rest, -, hrun⟩ := h.back.ready hhonest.reads_replies hall hlt
  refine canStep_of_next (e := .sender (.read {})) rfl ?_
  simp [next, Sender.next, hwaits, hrun]

theorem Sound.receiverCanRead (h : l.Sound t c disk) (hhonest : Honest t c)
    (hall : l.forth = l.sender.sent.length) (hwaits : l.receiver.Waits)
    (hlt : l.receiver.consumed t < l.sender.emitted t) : l.CanStep t c := by
  rw [h.sender.sent_eq] at hall
  obtain ⟨frame, rest, -, hrun⟩ :=
    h.forth.ready (Sending.reads_frames hhonest.offer_fits) hall hlt
  have hlive : l.receiver.phase ≠ .overrun := by
    rcases hwaits with hp | hp <;> rw [hp] <;> exact ReceiverPhase.noConfusion
  refine canStep_of_next (e := .receiver (.read {})) rfl ?_
  simp [next, Receiver.next, hlive, hwaits, hrun]

/-- The two ends never wait for each other, and stop only when the transfer is over. -/
theorem Sound.progress (h : l.Sound t c disk) (hhonest : Honest t c) :
    l.Done t c ∨ l.CanStep t c := by
  -- Bytes that are on the way can be delivered.
  by_cases hforth : l.forth = l.sender.sent.length
  swap
  · have hle := h.forth.arrived_le
    rw [← h.sender.sent_eq] at hle
    have hlive : l.receiver.phase ≠ .overrun := fun hover =>
      h.receiver.stage.not_ended (by rw [hover]; trivial)
    refine .inr (canStep_of_next (e := .deliver 1) Nat.one_pos ?_)
    simp [next, Receiver.next, hlive, show l.forth + 1 ≤ l.sender.sent.length by omega]
  by_cases hback : l.back = l.receiver.sent.length
  swap
  · have hle := h.back.arrived_le
    rw [← h.receiver.sent_eq] at hle
    refine .inr (canStep_of_next (e := .answer 1) Nat.one_pos ?_)
    simp [next, Sender.next, show l.back + 1 ≤ l.receiver.sent.length by omega]
  have hread : l.receiver.consumed t ≤ l.sender.emitted t := by
    refine h.forth.consumed_le_written fun frame hframe => ?_
    obtain ⟨f, -, rfl⟩ := List.mem_map.mp hframe
    exact f.bytes_ne_nil
  -- A side that does not wait for the other goes on; of two that wait, one can read.
  rcases h.sender.progress with hsender | hreturned | ⟨e, hworks, -, hsome⟩
  · rcases h.receiver.progress with hreceiver | hacked | ⟨e, hworks, -, hsome⟩
    · refine .inr ?_
      by_cases hlt : l.receiver.consumed t < l.sender.emitted t
      · exact h.receiverCanRead hhonest hforth hreceiver hlt
      · have hle := h.receiver.consumed_le hreceiver
        refine h.senderCanRead hhonest hback hsender ?_
        rcases hsender with hp | hp <;> rcases hreceiver with hq | hq <;>
          simp only [Sender.emitted, Sender.consumed, Receiver.emitted, Receiver.consumed, hp, hq]
            at hlt hle ⊢ <;> omega
    · refine .inr (h.senderCanRead hhonest hback hsender ?_)
      rcases hsender with hp | hp <;> simp [Sender.consumed, Receiver.emitted, hp, hacked]
    · exact .inr (canStep_of_next (e := .receiver e) hworks (by simpa [next] using hsome))
  · rcases h.receiver.progress with hreceiver | hacked | ⟨e, hworks, -, hsome⟩
    · have hle := h.receiver.consumed_le hreceiver
      refine .inr (h.receiverCanRead hhonest hforth hreceiver ?_)
      simp only [Sender.emitted, hreturned]
      omega
    · have hstage := h.receiver.stage
      rw [Receiver.Stage, hacked] at hstage
      obtain ⟨hoffer, hall⟩ := hstage
      obtain ⟨-, hcontents⟩ := h.receiver.complete hhonest h.counted h.numbered h.stored hoffer hall
        (h.counted.acked hacked).1
      refine .inl ⟨hreturned, hacked, hall, fun file hfile => ?_⟩
      obtain ⟨i, hi⟩ := List.mem_iff_getElem?.mp hfile
      exact hcontents i file hi
    · exact .inr (canStep_of_next (e := .receiver e) hworks (by simpa [next] using hsome))
  · exact .inr (canStep_of_next (e := .sender e) hworks (by simpa [next] using hsome))

end Link

open Link

/-- Whatever the order in which threads run and bytes arrive, a transfer between two honest ends
comes to its end: the receiver accepts every chunk and acknowledges, the sender returns, and every
output has the contents of its source file. -/
theorem transfer_completes (t : Sending) (c : Receiving) (h : Honest t c) (disk : Disk) :
    Inevitable (Link.Step t c) (Link.Done t c) (Link.init t disk) :=
  Inevitable.of_measure (remaining t c) (fun _ _ _ hsound hs => hsound.step h hs)
    (fun _ hsound => hsound.progress h) (sound_init t c disk)

/-- The two bytes of `clearSending` are delivered. -/
theorem transfer_completes_two_bytes :
    Inevitable (Link.Step clearSending (clearReceiving fun _ => true))
      (Link.Done clearSending (clearReceiving fun _ => true)) (Link.init clearSending fun _ => []) :=
  transfer_completes clearSending (clearReceiving fun _ => true)
    { keys := ⟨rfl, rfl, rfl, rfl, rfl, rfl⟩
      cipher := rfl
      undoes := clearAead_undoes
      hash := rfl
      offer_fits := by decide +kernel
      directory_fits := by decide +kernel
      paths := by decide
      encrypted := .inl rfl } fun _ => []

/-- The frames of a transfer are the offer, the chunks that its sender emits, and the end; in every run
the sender has sent the first of them. -/
theorem sent_emission (t : Sending) (ready : Nat → Nat → Nat) (canSplice : Bool) :
    t.wire = (Frame.of .offer t.offerPayload t.keys.algorithm.tag).bytes ::
      ((t.emission ready canSplice).chunks.map Emitted.frame ++ [(Frame.of .transferEnd []).bytes]) ∧
    ∀ c disk l, Honest t c → Reach (· = Link.init t disk) (Link.Step t c) l →
      l.sender.sent = (t.wire.take (l.sender.emitted t)).flatten := by
  refine ⟨t.wire_eq ready canSplice, fun c disk l h hl => ?_⟩
  have hsound : l.Sound t c disk :=
    hl.invariant (fun _ hinit => hinit ▸ sound_init t c disk) fun _ _ _ hs hstep => (hs.step h hstep).1
  exact hsound.sender.sent_eq

end DropZone
