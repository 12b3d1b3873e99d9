import DropZone.Udp.Duplex

/-!
# A faithful stream

* `Ledger`, `Link`: the invariants of an end, and of the data on its way from one end to the other.
  `Pair.step`: one event at one end keeps them.
* `Reading`: what an end has read. `Reading.Kept` holds in every run, `Reading.Whole` where nothing is read
  after a call that threw.
* `returned_faithful`: what is read at one end is the beginning of what was written at the other.
* `acknowledged_delivered`: what was flushed has arrived, and nothing is missing when the peer has closed.
* `stale_byte_returned`, `stale_ack_believed`: what a view of a freed packet may do to the other end.
-/

namespace DropZone

open LittleEndian Serial StateSpec System

/-! ## The invariants -/

namespace UdpEnd

open ReliableUdpChannel

/-- What an end has on its books. -/
structure Ledger (e : UdpEnd) : Prop where
  backed : e.Backed
  cursors : e.channel.Cursors
  written : e.written = e.channel.outbox.chunks.flatten ++ e.channel.outbox.pending

/-- The data on its way from `x` to `y`. -/
structure Link (x y : UdpEnd) : Prop where
  conveyed : Conveyed x.channel.outbox y.channel.inbox y.taken
  finished : y.channel.peerFinished = true → x.closedAt ≠ none
  /-- All that had been written when the first `Fin` was sent has been delivered. -/
  closed : ∀ n, x.closedAt = some n → n ≤ (x.channel.chunks.take y.channel.moved).flatten.length
  closing : x.call = .closing → x.written.length ≤ (x.channel.chunks.take y.channel.moved).flatten.length

variable {e e' x x' y y' : UdpEnd}

/-- The sender may have built packets, and dropped some that were delivered. -/
theorem Link.sender (h : Link x y) (hconveyed : Conveyed x'.channel.outbox y.channel.inbox y.taken)
    (hextends : x.channel.chunks <+: x'.channel.chunks) (hclosed : x'.closedAt = x.closedAt)
    (hcall : x'.call = .closing →
      x'.written.length ≤ (x.channel.chunks.take y.channel.moved).flatten.length) : Link x' y := by
  have htake : x'.channel.chunks.take y.channel.moved = x.channel.chunks.take y.channel.moved := by
    have hle : y.channel.moved ≤ x.channel.chunks.length := h.conveyed.moved_le
    obtain ⟨more, hmore⟩ := hextends
    rw [← hmore, List.take_append_of_le_length hle]
  refine ⟨hconveyed, fun hf => hclosed ▸ h.finished hf, fun n hn => ?_, fun hc => ?_⟩
  · rw [htake]
    exact h.closed n (hclosed ▸ hn)
  · rw [htake]
    exact hcall hc

/-- The receiver may have delivered more. -/
theorem Link.receiver (h : Link x y) (hconveyed : Conveyed x.channel.outbox y'.channel.inbox y'.taken)
    (hmoved : y.channel.moved ≤ y'.channel.moved)
    (hfinished : y'.channel.peerFinished = true → y.channel.peerFinished = true ∨ x.closedAt ≠ none) :
    Link x y' := by
  have hle : (x.channel.chunks.take y.channel.moved).flatten.length ≤
      (x.channel.chunks.take y'.channel.moved).flatten.length :=
    (List.IsPrefix.flatten (List.take_prefix_take_left hmoved)).length_le
  refine ⟨hconveyed, fun hf => ?_, fun n hn => (h.closed n hn).trans hle,
    fun hc => (h.closing hc).trans hle⟩
  rcases hfinished hf with hf | hf
  · exact h.finished hf
  · exact hf

/-! ## One event -/

theorem closing_of_ends {call call' : UdpCall} (h : call' = call ∨ call' = .idle) (hc : call' = .closing) :
    call = .closing := by
  rcases h with h | h
  · exact h.symm.trans hc
  · cases h.symm.trans hc

theorem Ledger.act (h : e.Ledger) {m : ChannelM Unit} {call : UdpCall} {stage : Option PumpStage}
    (hs : e.act m call stage = some e') (hbacked : e'.Backed) (hcursors : (final m e.channel).Cursors)
    (hwritten : (final m e.channel).outbox.chunks.flatten ++ (final m e.channel).outbox.pending =
      e.channel.outbox.chunks.flatten ++ e.channel.outbox.pending) : e'.Ledger := by
  obtain ⟨hchannel, hkept, -⟩ := act_spec hs
  refine ⟨hbacked, hchannel ▸ hcursors, ?_⟩
  rw [hkept, hchannel, hwritten]
  exact h.written

/-- The two ends and what is on its way between them. -/
structure Pair (e f : UdpEnd) : Prop where
  ledger : e.Ledger
  other : f.Ledger
  sends : Link e f
  receives : Link f e

variable {f : UdpEnd}

/-- A part of a call that takes in nothing and gives out nothing. -/
theorem Pair.still (h : Pair e f) {m : ChannelM Unit} {call : UdpCall} {stage : Option PumpStage}
    (hs : e.act m call stage = some e') (hbacked : e'.Backed) (hstill : Still e.channel (final m e.channel))
    (hclosing : call = .closing →
      e.written.length ≤ (e.channel.chunks.take f.channel.moved).flatten.length) : Pair e' f := by
  obtain ⟨hchannel, hwritten, htaken, hclosed, hends⟩ := act_spec hs
  have hout : e'.channel.outbox = e.channel.outbox := hchannel ▸ hstill.outbox
  have hin : e'.channel.inbox = e.channel.inbox := hchannel ▸ hstill.inbox
  refine ⟨h.ledger.act hs hbacked (hstill.cursors h.ledger.cursors) ?_, h.other, ?_, ?_⟩
  · rw [hstill.outbox]
  · refine h.sends.sender (hout ▸ h.sends.conveyed) ?_ hclosed fun hc => ?_
    · rw [show e'.channel.chunks = e.channel.chunks from congrArg Outbox.chunks hout]
    · rw [hwritten]
      exact hclosing (closing_of_ends hends hc)
  · refine h.receives.receiver ?_ ?_ fun hf => .inl ?_
    · rw [hin, htaken]
      exact h.receives.conveyed
    · exact Nat.le_of_eq (congrArg Intake.moved hin).symm
    · rw [hchannel, hstill.finished] at hf
      exact hf

/-- A packet is built. -/
theorem Pair.packet (h : Pair e f) {now : UInt64} {k : Flush} {stage : Option PumpStage}
    (hroom : e.channel.unacknowledged.length < UdpTuning.maxCwnd)
    (hs : e.act (fillPacket now k) e.call stage = some e') (hbacked : e'.Backed) : Pair e' f := by
  obtain ⟨hchannel, hwritten, htaken, hclosed, hends⟩ := act_spec hs
  obtain ⟨hin, hfinished, hcursors, hkept, payload, hchunks, hpending⟩ :=
    filled_outbox h.ledger.cursors now k
  refine ⟨h.ledger.act hs hbacked hcursors ?_, h.other, ?_, ?_⟩
  · rw [hchunks, List.flatten_append, List.append_assoc, List.flatten_singleton, hpending]
  · refine h.sends.sender ?_ ?_ hclosed fun hc => ?_
    · rw [hchannel]
      exact h.sends.conveyed.fill hchunks hkept hroom
    · rw [hchannel]
      exact ⟨[payload], hchunks.symm⟩
    · rw [hwritten]
      exact h.sends.closing (closing_of_ends hends hc)
  · refine h.receives.receiver ?_ ?_ fun hf => .inl ?_
    · rw [hchannel, hin, htaken]
      exact h.receives.conveyed
    · rw [hchannel]
      exact Nat.le_of_eq (congrArg Intake.moved hin).symm
    · rw [hchannel, hfinished] at hf
      exact hf

/-- A datagram arrives that the other end sent. -/
theorem Pair.datagram (h : Pair e f) {now : UInt64} {data : Bytes} {k k' k'' : Flush}
    {stage : Option PumpStage} {d : Datagram} (hd : d ∈ f.channel.wire) (hbytes : d.bytes = data)
    (hyoung : Young f e d)
    (hspares : ∀ header, parseHeader data = some header → e.channel.AckSpares header.ack)
    (hs : e.act (processPacket data now k k' k'') e.call stage = some e') (hbacked : e'.Backed) :
    Pair e' f := by
  obtain ⟨hchannel, hwritten, htaken, hclosed, hends⟩ := act_spec hs
  subst hbytes
  obtain ⟨hacked, header, hparse, hack, hfin, hdata⟩ :=
    (h.other.backed.genuine d hd).parse h.other.backed.small
  obtain ⟨hout, hcursors, hmoved, hdelivered, hfinished, hreorder⟩ :=
    processPacket_inbox hparse h.ledger.backed (hspares header hparse) hchannel
  have hchunks : e'.channel.chunks = e.channel.chunks := congrArg Outbox.chunks hout
  have hsends := h.sends.conveyed
  have hreceives := h.receives.conveyed
  have hlength := length_remaining e.channel header.ack header.ackBits
  refine ⟨h.ledger.act hs hbacked (hchannel ▸ hcursors h.ledger.cursors) ?_, h.other, ?_, ?_⟩
  · rw [← hchannel, hout]
  · refine h.sends.sender ?_ ?_ hclosed fun hc => ?_
    · rw [hout]
      refine hsends.pop rfl ?_ ?_
      · change (e.channel.remaining header.ack header.ackBits).length ≤ e.channel.unacknowledged.length
        omega
      · rw [hack]
        exact h.ledger.backed.popped_delivered hsends.moved_le hsends.acked hacked hyoung.2 _
    · rw [hchunks]
    · rw [hwritten]
      exact h.sends.closing (closing_of_ends hends hc)
  · refine h.receives.receiver ?_ (Nat.le_of_eq hmoved.symm) fun hf => ?_
    · rw [htaken]
      refine hreceives.insert hmoved hdelivered fun entry hentry => ?_
      rcases hreorder entry hentry with hold | ⟨htype, rfl, hdiff⟩
      · exact .inl hold
      · obtain ⟨handle, payload, hpacket, hpayload, hsequence, hread⟩ := hdata htype
        have hnewer := hyoung.1 handle hpacket
        refine .inr ⟨handle, hsequence, ?_, hread ▸ hpayload⟩
        exact hreceives.later_of_serialDiff hpayload hnewer (hsequence ▸ hdiff)
    · rcases hfinished hf with hf | hf
      · exact .inl hf
      · exact .inr (hfin hf)

theorem Pair.stage (h : Pair e f) (stage : Option PumpStage) : Pair { e with stage := stage } f :=
  ⟨{ h.ledger with }, h.other, { h.sends with }, { h.receives with }⟩

/-- A call begins or ends. -/
theorem Pair.call (h : Pair e f) (call : UdpCall) (stage : Option PumpStage) (hclosing : call ≠ .closing) :
    Pair { e with call := call, stage := stage } f :=
  ⟨{ h.ledger with }, h.other,
    ⟨h.sends.conveyed, h.sends.finished, h.sends.closed, fun hc => absurd hc hclosing⟩, { h.receives with }⟩

/-- `write_bytes` begins. -/
theorem Pair.write (h : Pair e f) (bytes : Bytes) :
    Pair { e with
      channel := { e.channel with outgoing := e.channel.outgoing ++ bytes }
      call := .writing
      written := e.written ++ bytes } f := by
  have hle := h.ledger.cursors.outgoing
  refine ⟨⟨?_, ⟨?_, h.ledger.cursors.delivered⟩, ?_⟩, h.other, ?_, ?_⟩
  · exact h.ledger.backed.of_core rfl
  · dsimp only
    rw [List.length_append]
    omega
  · change e.written ++ bytes = e.channel.chunks.flatten ++
      (e.channel.outgoing ++ bytes).drop e.channel.outgoingConsumed
    rw [List.drop_append_of_le_length hle, ← List.append_assoc, h.ledger.written]
    rfl
  · refine h.sends.sender ?_ (List.prefix_refl _) rfl fun hc => ?_
    · exact h.sends.conveyed.pop rfl (Nat.le_refl _) h.sends.conveyed.acked
    · cases hc
  · exact { h.receives with }

theorem Pair.deliver (h : Pair e f) (stage : Option PumpStage)
    (hbacked : e.channel.deliverInOrder.Backed (e.closedAt ≠ none)) :
    Pair { e with channel := e.channel.deliverInOrder, stage := stage } f := by
  obtain ⟨hconveyed, hout, hfinished, hcursors, hmoved⟩ :=
    deliverInOrder_conveyed h.ledger.backed.received h.ledger.cursors h.receives.conveyed
  refine ⟨⟨hbacked, hcursors, ?_⟩, h.other, ?_, ?_⟩
  · change e.written = e.channel.deliverInOrder.outbox.chunks.flatten ++ _
    rw [hout]
    exact h.ledger.written
  · refine h.sends.sender ?_ ?_ rfl h.sends.closing
    · change Conveyed e.channel.deliverInOrder.outbox _ _
      rw [hout]
      exact h.sends.conveyed
    · exact Eq.subst (motive := fun chunks => e.channel.chunks <+: chunks)
        (congrArg Outbox.chunks hout).symm (List.prefix_refl _)
  · refine h.receives.receiver hconveyed hmoved fun hf => .inl ?_
    change e.channel.deliverInOrder.peerFinished = true at hf
    rw [hfinished] at hf
    exact hf

/-- When nothing is pending and no packet is kept, all that was written has been delivered. -/
theorem Pair.all_moved (h : Pair e f)
    (hdone : ¬ (e.channel.outgoingConsumed < e.channel.outgoing.length ∨ e.channel.unacknowledged ≠ [])) :
    (e.channel.chunks.take f.channel.moved).flatten = e.written := by
  obtain ⟨hsent, hempty⟩ := not_or.mp hdone
  have hpending : e.channel.outbox.pending = [] := List.drop_eq_nil_of_le (Nat.le_of_not_lt hsent)
  have hkept : e.channel.outbox.kept = 0 := by
    rw [outbox, not_not.mp hempty]
    rfl
  have hall : e.channel.chunks.length ≤ f.channel.moved := by
    have hacked := h.sends.conveyed.acked
    rw [hkept] at hacked
    exact hacked
  rw [List.take_of_length_le hall, h.ledger.written, hpending, List.append_nil]
  rfl

/-- `write_bytes` returns. -/
theorem Pair.wrote (h : Pair e f)
    (hdone : ¬ e.channel.outgoingConsumed < e.channel.outgoing.length) :
    Pair { e with channel := { e.channel with outgoing := [], outgoingConsumed := 0 }, call := .idle } f := by
  have hpending : e.channel.outbox.pending = [] := List.drop_eq_nil_of_le (Nat.le_of_not_lt hdone)
  refine ⟨⟨?_, ⟨Nat.le_refl _, h.ledger.cursors.delivered⟩, ?_⟩, h.other, ?_, ?_⟩
  · exact h.ledger.backed.of_core rfl
  · have hwritten := h.ledger.written
    rw [hpending] at hwritten
    exact hwritten
  · refine h.sends.sender ?_ (List.prefix_refl _) rfl fun hc => ?_
    · exact h.sends.conveyed.pop rfl (Nat.le_refl _) h.sends.conveyed.acked
    · cases hc
  · exact { h.receives with }

/-- What is read of what was delivered. -/
theorem Pair.copy (h : Pair e f) (len : Nat) (copied : Bytes) (n : Nat) :
    let part := (e.channel.delivered.drop e.channel.deliveredConsumed).take n
    let consumed := e.channel.deliveredConsumed + part.length
    Pair { e with
      channel := if consumed = e.channel.delivered.length then
          { e.channel with delivered := [], deliveredConsumed := 0 }
        else { e.channel with deliveredConsumed := consumed }
      call := .reading len (copied ++ part)
      taken := e.taken ++ part } f := by
  intro part consumed
  have hpart : part.length ≤ e.channel.delivered.length - e.channel.deliveredConsumed := by
    rw [List.length_take, List.length_drop]
    exact Nat.min_le_right _ _
  have hle := h.ledger.cursors.delivered
  have hrest : part ++ e.channel.delivered.drop consumed =
      e.channel.delivered.drop e.channel.deliveredConsumed := by
    rw [← List.drop_drop]
    exact List.prefix_iff_eq_append.mp (List.take_prefix n _)
  -- the same channel, with less left to read
  have hread : ∀ c : ReliableUdpChannel, c.outbox = e.channel.outbox →
      c.Backed (e.closedAt ≠ none) → c.Cursors → c.peerFinished = e.channel.peerFinished →
      c.inbox = { e.channel.inbox with delivered := e.channel.delivered.drop consumed } →
      Pair { e with channel := c, call := .reading len (copied ++ part), taken := e.taken ++ part } f := by
    intro c hout hbacked hcursors hfinished hin
    have hchunks : c.chunks = e.channel.chunks := congrArg Outbox.chunks hout
    have hmoved : c.moved = e.channel.moved := congrArg Intake.moved hin
    refine ⟨⟨hbacked, hcursors, hout ▸ h.ledger.written⟩, h.other, ?_, ?_⟩
    · refine h.sends.sender (hout ▸ h.sends.conveyed) ?_ rfl fun hc => ?_
      · exact Eq.subst (motive := fun chunks => e.channel.chunks <+: chunks) hchunks.symm
          (List.prefix_refl _)
      · cases hc
    · refine h.receives.receiver ?_ (Nat.le_of_eq hmoved.symm) fun hf => .inl (hfinished ▸ hf)
      refine h.receives.conveyed.read hmoved (by rw [hin]) ?_
      rw [hin, List.append_assoc, hrest]
      rfl
  split
  · rename_i hall
    refine hread _ rfl ?_ ⟨h.ledger.cursors.outgoing, Nat.le_refl _⟩ rfl ?_
    · exact h.ledger.backed.of_core rfl
    · rw [hall, List.drop_length]
      rfl
  · refine hread _ rfl ?_ ⟨h.ledger.cursors.outgoing, ?_⟩ rfl rfl
    · exact h.ledger.backed.of_core rfl
    · change consumed ≤ e.channel.delivered.length
      omega

theorem Pair.readRound (h : Pair e f) (len : Nat) (copied : Bytes) : Pair (e.readRound len copied) f := by
  have hends : ∀ threw returned,
      Pair { e with call := .idle, threw := threw, returned := returned } f := fun _ _ =>
    ⟨{ h.ledger with }, h.other, ⟨h.sends.conveyed, h.sends.finished, h.sends.closed, nofun⟩,
      { h.receives with }⟩
  unfold UdpEnd.readRound
  dsimp only
  split
  · split
    · exact h.copy len copied _
    · split
      · exact hends _ _
      · exact h.stage _
  · exact hends _ _

/-- The first `Fin` is about to be sent. -/
theorem Pair.closes (h : Pair e f) (hcall : e.call = .closing) :
    Pair { e with closedAt := e.closedAt.or (some e.written.length) } f := by
  have hbacked : e.channel.Backed (e.closedAt.or (some e.written.length) ≠ none) :=
    ReliableUdpChannel.Backed.mono h.ledger.backed fun _ => by cases e.closedAt <;> simp
  refine ⟨⟨hbacked, h.ledger.cursors, h.ledger.written⟩, h.other,
    ⟨h.sends.conveyed, fun _ => ?_, fun n hn => ?_, h.sends.closing⟩, { h.receives with }⟩
  · cases e.closedAt <;> simp
  · cases hclosed : e.closedAt with
    | none =>
      rw [hclosed] at hn
      cases hn
      exact h.sends.closing hcall
    | some m =>
      rw [hclosed] at hn
      cases hn
      exact h.sends.closed n hclosed

/-- A member of the channel runs. -/
theorem Pair.part (h : Pair e f) {event : UdpEvent} {m : ChannelM Unit} {call : UdpCall}
    {stage : Option PumpStage} (hpart : e.Part event m call stage) (hspares : event.Spares e)
    (harrives : Arrives f e event) (hs : e.act m call stage = some e') (hbacked : e'.Backed) :
    Pair e' f := by
  cases hpart with
  | retransmit now k =>
    exact h.still hs hbacked (path_retransmitTimedOut trivial now k _).still h.sends.closing
  | packet now k hroom => exact h.packet hroom hs hbacked
  | sendBatch k => exact h.still hs hbacked (path_flushSendBatch k _).still h.sends.closing
  | datagram =>
    obtain ⟨d, hd, hbytes, hyoung⟩ := harrives
    exact h.datagram hd hbytes hyoung hspares hs hbacked
  | ack k k' k'' =>
    exact h.still hs hbacked (path_acknowledges trivial k k' k'').still h.sends.closing
  | flushed _ k _ _ _ hdone =>
    refine h.still hs hbacked (path_flushSendBatch k _).still fun _ => ?_
    rw [h.all_moved hdone]

/-- One event at one end keeps the books of both. -/
theorem Pair.step (h : Pair e f) {event : UdpEvent} (hspares : event.Spares e)
    (harrives : Arrives f e event) (hs : e.Step event e') : Pair e' f := by
  have hbacked : e'.Backed := h.ledger.backed.step hspares hs
  cases hs.happens with
  | write bytes _ => exact h.write bytes
  | read | flush | close | closed => exact h.call _ _ nofun
  | filled | received | pumps => exact h.stage _
  | part hpart hact => exact h.part hpart hspares harrives hact hbacked
  | deliver stage => exact h.deliver stage hbacked
  | wrote _ _ _ _ _ hdone => exact h.wrote hdone
  | reads => exact h.readRound _ _
  | fin _ k k' k'' hcall hact =>
    exact (h.closes hcall).still hact hbacked (path_sendFin trivial (fun _ _ => trivial) k k' k'' _).still
      fun _ => h.sends.closing hcall

theorem Pair.symm (h : Pair e f) : Pair f e := ⟨h.other, h.ledger, h.receives, h.sends⟩

theorem Fresh.ledger (h : e.Fresh) : e.Ledger := by
  have hbacked := h.backed
  obtain ⟨peer, rfl⟩ := h
  exact ⟨hbacked, ⟨Nat.le_refl _, Nat.le_refl _⟩, rfl⟩

theorem Fresh.link (hx : x.Fresh) (hy : y.Fresh) : Link x y := by
  obtain ⟨_, rfl⟩ := hx
  obtain ⟨_, rfl⟩ := hy
  refine ⟨⟨Nat.le_refl _, Nat.zero_le _, Nat.le_refl _, rfl, ?_⟩, ?_, ?_, ?_⟩
  · intro entry hentry
    cases hentry
  · intro hf
    cases hf
  · intro n hn
    cases hn
  · intro hc
    cases hc

end UdpEnd

/-! ## What is read -/

/-- What an end has read: all that was copied and all that was returned, what a call threw, and what the
`read_exactly` that is going on has copied. -/
structure Reading where
  taken : Bytes
  returned : Bytes
  threw : Option Failure
  copied : Option Bytes

/-- What an event does to it. -/
inductive Reading.Step (r : Reading) : UdpEvent → Reading → Prop
  | rests (event : UdpEvent) : Step r event r
  | begins (len : Nat) (hidle : r.copied = none) : Step r (.read len) { r with copied := some [] }
  | copies (event : UdpEvent) {copied : Bytes} (part : Bytes) (hcall : r.copied = some copied) :
    Step r event { r with taken := r.taken ++ part, copied := some (copied ++ part) }
  | returns (event : UdpEvent) {copied : Bytes} (hcall : r.copied = some copied) :
    Step r event { r with returned := r.returned ++ copied, copied := none }
  | throws (event : UdpEvent) (f : Failure) : Step r event { r with threw := some f, copied := none }

/-- As long as nothing was thrown, nothing that was copied is lost. -/
def Reading.Kept (r : Reading) : Prop := r.threw = none → r.taken = r.returned ++ r.copied.getD []

/-- Nothing is read after a call that threw. -/
structure Reading.Whole (r : Reading) : Prop where
  kept : r.Kept
  intact : r.copied ≠ none → r.threw = none
  returned : r.returned <+: r.taken

namespace Reading

variable {r r' : Reading} {event : UdpEvent}

theorem Kept.step (h : r.Kept) (hs : r.Step event r') : r'.Kept := by
  intro hthrew
  cases hs with
  | rests => exact h hthrew
  | begins _ hidle => rw [h hthrew, hidle]; rfl
  | copies _ part hcall => simp [h hthrew, hcall]
  | returns _ hcall => simp [h hthrew, hcall]
  | throws => cases hthrew

theorem Whole.step (h : r.Whole) (hs : r.Step event r')
    (hunbroken : ∀ len, event = .read len → r.threw = none) : r'.Whole := by
  refine ⟨h.kept.step hs, ?_, ?_⟩
  · cases hs with
    | rests => exact h.intact
    | begins len => exact fun _ => hunbroken len rfl
    | copies _ _ hcall => exact fun _ => h.intact (by rw [hcall]; nofun)
    | returns | throws => exact fun hcall => absurd rfl hcall
  · cases hs with
    | rests | begins | throws => exact h.returned
    | copies => exact h.returned.trans (List.prefix_append _ _)
    | returns _ hcall =>
      have hkept := h.kept (h.intact (by rw [hcall]; nofun))
      rw [hcall] at hkept
      exact ⟨[], by rw [List.append_nil, hkept]; rfl⟩

end Reading

namespace UdpEnd

variable {e e' : UdpEnd} {event : UdpEvent}

def copied : UdpCall → Option Bytes
  | .reading _ copied => some copied
  | .idle | .writing | .flushing _ | .closing => none

def reading (e : UdpEnd) : Reading := ⟨e.taken, e.returned, e.threw, copied e.call⟩

theorem reading_act {m : ChannelM Unit} {call : UdpCall} {stage : Option PumpStage}
    (hs : e.act m call stage = some e') (hcall : copied call = copied e.call) :
    e.reading.Step event e'.reading := by
  rcases act_cases hs with ⟨_, _, rfl⟩ | ⟨f, rfl⟩
  · rw [reading, reading, hcall]
    exact .rests event
  · by_cases hclose : e.call = .flushing true ∨ e.call = .closing
    · have hcopied : copied e.call = none := by rcases hclose with h | h <;> rw [h] <;> rfl
      rw [reading, reading, if_pos hclose, hcopied]
      exact .rests event
    · rw [reading, reading, if_neg hclose]
      exact .throws event f

theorem reading_readRound {len : Nat} {bytes : Bytes} (hcall : e.call = .reading len bytes) :
    e.reading.Step event (e.readRound len bytes).reading := by
  have hcopied : e.reading.copied = some bytes := congrArg copied hcall
  unfold readRound
  dsimp only
  split
  · split
    · exact .copies event _ hcopied
    · split
      · exact .throws event _
      · exact .rests event
  · exact .returns event hcopied

/-- What one event does to what was read. -/
theorem reading_step (hs : e.Step event e') : e.reading.Step event e'.reading := by
  have hquiet : ∀ {call : UdpCall}, e.call = call → copied call = none → ∀ {e' : UdpEnd},
      e'.taken = e.taken → e'.returned = e.returned → e'.threw = e.threw → copied e'.call = none →
        e.reading.Step event e'.reading := by
    intro call hcall hnone e' htaken hreturned hthrew hcopied
    rw [reading, reading, htaken, hreturned, hthrew, hcopied, hcall, hnone]
    exact .rests event
  cases hs.happens with
  | write _ hidle | flush hidle | close hidle => exact hquiet hidle rfl rfl rfl rfl rfl
  | wrote _ _ _ _ hcall | closed _ _ _ _ hcall => exact hquiet hcall rfl rfl rfl rfl rfl
  | read len hidle => exact .begins len (congrArg copied hidle)
  | filled | received | pumps | deliver => exact .rests _
  | reads _ _ _ _ hcall => exact reading_readRound hcall
  | fin _ _ _ _ hcall hact =>
    exact reading_act (e := { e with closedAt := e.closedAt.or (some e.written.length) }) hact
      (congrArg copied hcall).symm
  | part hpart hact =>
    refine reading_act hact ?_
    cases hpart with
    | flushed _ _ _ _ hcall => rw [hcall]; split <;> rfl
    | _ => rfl

end UdpEnd

namespace Duplex

open UdpEnd

variable {s s' : Duplex}

/-- What every step keeps of what was read. -/
theorem reading_of_reach {step : Duplex → Bool × UdpEvent → Duplex → Prop} {I : Reading → Prop}
    (hstart : I ⟨[], [], none, none⟩)
    (hstep : ∀ s l s', step s l s' → Step s l s' ∧
      ∀ r, (s l.1).reading.Step l.2 r → I (s l.1).reading → I r)
    (hr : Reach Started step s) (i : Bool) : I (s i).reading := by
  revert i
  refine Reach.invariant (I := fun s : Duplex => ∀ i, I (s i).reading) (fun s h i => ?_)
    (fun s l s' h hs i => ?_) hr
  · obtain ⟨_, hi⟩ := h i
    rw [hi]
    exact hstart
  · obtain ⟨hs, hkeeps⟩ := hstep s l s' hs
    obtain ⟨e', he, rfl, -⟩ := hs.cases
    rcases Bool.eq_or_eq_not i l.1 with rfl | rfl
    · rw [Function.update_self]
      exact hkeeps _ (reading_step he) (h l.1)
    · rw [Function.update_of_ne (by simp)]
      exact h !l.1

theorem pair_of_reach (hr : Reach Started SparingStep s) (i : Bool) : Pair (s i) (s !i) := by
  revert i
  refine Reach.invariant (I := fun s : Duplex => ∀ i, Pair (s i) (s !i)) (fun s h i => ?_)
    (fun s l s' h hs i => ?_) hr
  · exact ⟨(h i).ledger, (h !i).ledger, (h i).link (h !i), (h !i).link (h i)⟩
  · obtain ⟨hs, hspares⟩ := hs
    obtain ⟨e', hstep, rfl, harrives⟩ := hs.cases
    have hmoved := (h l.1).step hspares harrives hstep
    rcases Bool.eq_or_eq_not i l.1 with rfl | rfl
    · rw [Function.update_self, Function.update_of_ne (by simp)]
      exact hmoved
    · rw [Bool.not_not, Function.update_self, Function.update_of_ne (by simp)]
      exact hmoved.symm

/-- Two channels that were just made. -/
def start : Duplex := fun _ => { channel := { peer := .unspecified } }

theorem start_started : start.Started := fun _ => ⟨_, rfl⟩

/-- Events at one end. -/
def events (i : Bool) (events : List UdpEvent) : List (Bool × UdpEvent) := events.map fun event => (i, event)

/-- A `pump` that builds no packet, with the datagrams that arrive, up to `deliver_in_order`. -/
def pumpHearing (datagrams : List Bytes) : List UdpEvent :=
  [.retransmit 0 {}, .filled, .sendBatch {}] ++
    (datagrams.map fun data => .datagram 1 .unspecified data {} {} {}) ++ [.received, .deliver]

/-- A round of the call's loop. -/
def loops : UdpEvent := .resume false {} {} {}

/-- A packet of one byte, from a channel that has received nothing. -/
def onePacket (handle : Nat) (byte : UInt8) : Bytes := writeHeader (dataHeader handle 0 1) ++ [byte]

end Duplex

open UdpEnd Duplex

/-! ## The stream -/

/-- In every run whose steps are good, what `read_exactly` returned at one end is the beginning of what was
written at the other. -/
theorem returned_faithful {s : Duplex} (hr : Reach Started GoodStep s) (i : Bool) :
    (s !i).returned <+: (s i).written := by
  have h := pair_of_reach (hr.mono fun _ _ _ hs => hs.1) i
  have hwhole : (s !i).reading.Whole :=
    reading_of_reach ⟨fun _ => rfl, fun hcall => absurd rfl hcall, List.prefix_refl _⟩
      (fun _ _ _ hs => ⟨hs.1.1, fun _ hread hwhole => hwhole.step hread hs.2⟩) hr !i
  calc (s !i).returned <+: (s !i).taken := hwhole.returned
    _ <+: ((s i).channel.chunks.take (s !i).channel.moved).flatten := ⟨_, h.sends.conveyed.stream⟩
    _ <+: (s i).channel.chunks.flatten := (List.take_prefix _ _).flatten
    _ <+: (s i).written := ⟨_, h.ledger.written.symm⟩

/-- A byte is written at one end and read at the other. -/
theorem returned_faithful_byte : ∃ s, Reach Started GoodStep s ∧ (s true).returned = [7] ∧
    (s true).returned <+: (s false).written := by
  obtain ⟨s, hs, hreturned⟩ : ∃ s ∈ runFrom goodNext start (events false (oneByteWrite 7) ++
      events true ([.read 1] ++ pumpHearing [onePacket 0 7] ++ [.ack {} {} {}, loops, loops])),
      (s true).returned = [7] := by
    decide +kernel
  have hr := reach_good start_started hs
  exact ⟨s, hr, hreturned, returned_faithful hr false⟩

/-- Four bytes are written at the end `i`, and three of their packets arrive before the first. -/
def fourBytes (i : Bool) : List (Bool × UdpEvent) :=
  events i (oneByteWrite 1 ++ oneByteWrite 2 ++ oneByteWrite 3 ++ oneByteWrite 4) ++
    events (!i) ([.read 4] ++ pumpHearing [onePacket 1 2, onePacket 2 3, onePacket 3 4] ++
      [.ack {} {} {}, loops] ++ pumpHearing [onePacket 0 1] ++ [.ack {} {} {}, loops, loops])

/-- Then a `flush` at the end `i` hears both acknowledgements at once, and sends what stands where the
first packet was. -/
def staleFlush (i : Bool) (stale : Bytes) : List (Bool × UdpEvent) :=
  events i ([.flush, loops] ++ pumpHearing [ackBytes 0 7, ackBytes 4 0] ++
    [.resume false { stale := fun _ => stale } {} {}])

/-- What is sent in place of a packet that was freed may be taken for the next packet. -/
theorem stale_byte_returned : ∃ s, Reach Started Step s ∧ (s false).written = [1, 2, 3, 4] ∧
    (s true).returned = [1, 2, 3, 4, 99] ∧ ¬ (s true).returned <+: (s false).written := by
  obtain ⟨s, hs, hwritten, hreturned⟩ : ∃ s ∈ runFrom Duplex.next start (fourBytes false ++
      staleFlush false (onePacket 4 99) ++
      events true ([.read 1] ++ pumpHearing [onePacket 4 99] ++ [.ack {} {} {}, loops, loops])),
      (s false).written = [1, 2, 3, 4] ∧ (s true).returned = [1, 2, 3, 4, 99] := by
    decide +kernel
  refine ⟨s, .of_runFrom (.init start_started) hs, hwritten, hreturned, ?_⟩
  rw [hwritten, hreturned]
  decide

/-! ## What is acknowledged -/

namespace UdpEnd

variable {e e' : UdpEnd} {late : Bool} {k k' k'' : Flush}

/-- The loop of `flush` ends when nothing is pending and no packet is kept. -/
theorem flush_ends {forClose : Bool} (hcall : e.call = .flushing forClose)
    (hs : e.Step (.resume late k k' k'') e') (hends : e'.call ≠ .flushing forClose) :
    ¬ (e.channel.outgoingConsumed < e.channel.outgoing.length ∨ e.channel.unacknowledged ≠ []) := by
  intro hmore
  unfold Step UdpEnd.next at hs
  dsimp only at hs
  split at hs
  · unfold UdpEnd.resume at hs
    rw [hcall] at hs
    dsimp only at hs
    rw [if_pos hmore] at hs
    cases hs
    exact hends rfl
  · cases hs

/-- `read_exactly` throws `PeerClosed` when there is nothing left to read and the peer has finished. -/
theorem read_throws {len : Nat} {copied : Bytes} (hcall : e.call = .reading len copied)
    (hquiet : e.threw = none) (hs : e.Step (.resume late k k' k'') e')
    (hthrew : e'.threw = some .peerClosed) :
    e.channel.inbox.delivered = [] ∧ e.channel.peerFinished = true ∧ copied.length < len := by
  unfold Step UdpEnd.next at hs
  dsimp only at hs
  split at hs
  · unfold UdpEnd.resume at hs
    rw [hcall] at hs
    cases hs
    unfold readRound at hthrew
    dsimp only at hthrew
    split at hthrew
    · rename_i hshort
      split at hthrew
      · cases hquiet.symm.trans hthrew
      · rename_i hempty
        split at hthrew
        · rename_i hfinished
          exact ⟨List.drop_eq_nil_of_le (Nat.le_of_not_lt hempty), (Bool.and_eq_true_iff.mp hfinished).1,
            hshort⟩
        · cases hquiet.symm.trans hthrew
    · cases hquiet.symm.trans hthrew
  · cases hs

/-- A `read_exactly` of `len` bytes asks for some of the peer's first `n` bytes and for some behind them. -/
def Straddles (e : UdpEnd) (len n : Nat) : Prop := e.returned.length < n ∧ n < e.returned.length + len

end UdpEnd

/-- In every run whose steps spare the queue: when `flush` returns at one end, all that was written there is
in the other end's stream; and `read_exactly` throws `PeerClosed` only when all that the peer had written
before its first `Fin` has been copied. It has been returned unless this call asked for some of it and for
more. -/
theorem acknowledged_delivered {s : Duplex} (hr : Reach Started Duplex.SparingStep s) (i : Bool) :
    (∀ forClose late k k' k'' e', (s i).call = .flushing forClose →
      (s i).Step (.resume late k k' k'') e' → e'.call ≠ .flushing forClose →
        (s !i).taken ++ (s !i).channel.inbox.delivered = (s i).written) ∧
    ∀ len copied late k k' k'' e', (s !i).call = .reading len copied → (s !i).threw = none →
      (s !i).Step (.resume late k k' k'') e' → e'.threw = some .peerClosed →
        ∃ n, (s i).closedAt = some n ∧ (s i).written.take n <+: (s !i).taken ∧
          ((s i).written.take n <+: (s !i).returned ↔ ¬ (s !i).Straddles len n) := by
  have h := pair_of_reach hr i
  have hstream := h.sends.conveyed.stream
  constructor
  · intro forClose late k k' k'' e' hcall hs hends
    rw [hstream]
    exact h.all_moved (flush_ends hcall hs hends)
  · intro len copied late k k' k'' e' hcall hquiet hs hthrew
    obtain ⟨hempty, hfinished, hshort⟩ := read_throws hcall hquiet hs hthrew
    obtain ⟨n, hn⟩ := Option.ne_none_iff_exists'.mp (h.sends.finished hfinished)
    rw [hempty, List.append_nil] at hstream
    have hle : n ≤ (s !i).taken.length := hstream ▸ h.sends.closed n hn
    have hwritten : (s !i).taken <+: (s i).written := by
      rw [hstream]
      exact ((List.take_prefix _ _).flatten).trans ⟨_, h.ledger.written.symm⟩
    have hkept : (s !i).reading.Kept :=
      reading_of_reach (fun _ => rfl) (fun _ _ _ hs => ⟨hs.1, fun _ hread hkept => hkept.step hread⟩) hr !i
    have htaken : (s !i).taken = (s !i).returned ++ copied := by
      have htaken := hkept hquiet
      rw [show (s !i).reading.copied = some copied from congrArg UdpEnd.copied hcall] at htaken
      exact htaken
    have htake : (s i).written.take n = (s !i).taken.take n := by
      obtain ⟨more, hmore⟩ := hwritten
      rw [← hmore, List.take_append_of_le_length hle]
    rw [htaken, List.length_append] at hle
    refine ⟨n, hn, htake ▸ List.take_prefix _ _, fun hreturned hstraddles => ?_, fun hwhole => ?_⟩
    · have hlength := hreturned.length_le
      rw [htake, htaken, List.length_take_of_le (by rw [List.length_append]; exact hle)] at hlength
      exact absurd hstraddles.1 (Nat.not_lt.mpr hlength)
    · -- the call got less than it asked for
      have hall : n ≤ (s !i).returned.length := by
        by_contra hmore
        exact hwhole ⟨Nat.not_le.mp hmore, by omega⟩
      rw [htake, htaken, List.take_append_of_le_length hall]
      exact List.take_prefix _ _

/-- A byte is written and read, and then a `flush` returns. Or the writer closes, and the reader, who asks
for one more byte, has got all. -/
theorem acknowledged_delivered_byte :
    (∃ s e', Reach Started Duplex.SparingStep s ∧ (s false).call = .flushing false ∧
      (s false).Step loops e' ∧ e'.call = .idle ∧
        (s true).taken ++ (s true).channel.inbox.delivered = (s false).written) ∧
    ∃ s e', Reach Started Duplex.SparingStep s ∧ (s true).call = .reading 1 [] ∧
      (s true).Step loops e' ∧ e'.threw = some .peerClosed ∧ (s false).written = [7] ∧
        ∃ n, (s false).closedAt = some n ∧ (s false).written.take n <+: (s true).returned := by
  constructor
  · obtain ⟨s, hs, hcall, e', he', hidle⟩ : ∃ s ∈ runFrom goodNext start (events false (oneByteWrite 7) ++
        events true ([.read 1] ++ pumpHearing [onePacket 0 7] ++ [.ack {} {} {}, loops, loops]) ++
        events false ([.flush, loops] ++ pumpHearing [ackBytes 1 0])),
        (s false).call = .flushing false ∧ ∃ e' ∈ (s false).next loops, e'.call = .idle := by
      decide +kernel
    have hr := reach_sparing start_started hs
    refine ⟨s, e', hr, hcall, he', hidle, ?_⟩
    refine (acknowledged_delivered hr false).1 false false {} {} {} e' hcall he' ?_
    rw [hidle]
    exact fun h => UdpCall.noConfusion h
  · obtain ⟨s, hs, hcall, hquiet, hwritten, hreturned, hclosed, e', he', hthrew⟩ :
        ∃ s ∈ runFrom goodNext start (events false (oneByteWrite 7) ++
          events true ([.read 1] ++ pumpHearing [onePacket 0 7] ++ [.ack {} {} {}, loops, loops]) ++
          events false ([.close, loops] ++ pumpHearing [ackBytes 1 0] ++ [loops, loops]) ++
          events true ([.read 1] ++ pumpHearing [writeHeader (controlHeader .fin 0 0)])),
        (s true).call = .reading 1 [] ∧ (s true).threw = none ∧ (s false).written = [7] ∧
          (s true).returned = [7] ∧ (s false).closedAt = some 1 ∧
          ∃ e' ∈ (s true).next loops, e'.threw = some .peerClosed := by
      decide +kernel
    have hr := reach_sparing start_started hs
    obtain ⟨n, hn, -, hwhole⟩ :=
      (acknowledged_delivered hr false).2 1 [] false {} {} {} e' hcall hquiet he' hthrew
    refine ⟨s, e', hr, hcall, he', hthrew, hwritten, n, hn, hwhole.mpr fun hstraddles => ?_⟩
    cases hclosed.symm.trans hn
    have hshort := hstraddles.1
    change (s true).returned.length < 1 at hshort
    rw [hreturned] at hshort
    exact absurd hshort (by decide)

/-- What is sent in place of a packet that was freed may be taken for an acknowledgement: `flush` returns,
and the byte that was written has not arrived. -/
theorem stale_ack_believed : ∃ s e', Reach Started Step s ∧ (s false).call = .flushing false ∧
    (s false).Step loops e' ∧ e'.call = .idle ∧ (s false).written = [7] ∧
      (s true).taken ++ (s true).channel.inbox.delivered = [] := by
  obtain ⟨s, hs, hcall, ⟨e', he', hidle⟩, hbytes⟩ : ∃ s ∈ runFrom Duplex.next start
      (events false (oneByteWrite 7) ++ fourBytes true ++ staleFlush true (ackBytes 1 0) ++
        events false ([.flush, loops] ++ pumpHearing [ackBytes 1 0])),
      (s false).call = .flushing false ∧ (∃ e' ∈ (s false).next loops, e'.call = .idle) ∧
        (s false).written = [7] ∧ (s true).taken ++ (s true).channel.inbox.delivered = [] := by
    decide +kernel
  exact ⟨s, e', .of_runFrom (.init start_started) hs, hcall, he', hidle, hbytes⟩

end DropZone
