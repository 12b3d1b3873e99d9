import DropZone.Udp.Batch
import DropZone.Udp.Calls
import Mathlib.Logic.Relation

/-!
# What the members do to a channel

The members of a channel are made of a few changes: entries are queued and given to the kernel, packets are
built, written anew, popped and marked, and data is taken in.

* `Remit`: what a part of a call may do; `Change`: one change; `Path`: a sequence of them.
* `path_flushSendBatch` to `path_sendFin`: the members.
* `UdpEnd.Happens`: what an event can be; `Happens.path`, `Part.path`: the changes of an event.
-/

namespace DropZone

open LittleEndian Serial StateSpec

namespace ReliableUdpChannel

/-- A datagram that reports nothing beyond the gap. -/
def Plain (d : Datagram) : Prop := ∀ header, parseHeader d.bytes = some header → header.ackBits = 0

/-- What a part of a call may do. -/
structure Remit where
  /-- The headers that it may say. -/
  tells : Datagram → Prop := Plain
  /-- The acknowledgements that it takes. -/
  hears : ReliableUdpChannel → UInt32 → UInt64 → Prop := fun _ _ _ => False
  /-- It may build packets. -/
  fills : Prop := False
  /-- It may take in or give out data. -/
  takes : Prop := False
  /-- It may count a timeout. -/
  counts : Prop := False

/-- The channel may queue the entry. `F` says that it may send `Fin`. -/
def Posts (F : Prop) (r : Remit) (c : ReliableUdpChannel) : PendingSend → Prop
  | .packet handle => ∃ p ∈ c.unacknowledged, p.handle = handle
  | .control d => r.tells d ∧ ∃ type bits, (type = .ack ∨ type = .finAck ∨ type = .fin ∧ F) ∧
      d = c.controlDatagram type bits

/-- A packet is put into the reorder buffer, unless it is there. -/
def inserted (c : ReliableUdpChannel) (sequence : UInt32) (payload : Bytes) : ReliableUdpChannel :=
  { c with
    reorderBuffer :=
      if c.reorderBuffer.any (·.1 == sequence) then c.reorderBuffer
      else c.reorderBuffer ++ [(sequence, payload)]
    ackPending := true }

def advanced (c : ReliableUdpChannel) (payload : Bytes) : ReliableUdpChannel :=
  { c with
    delivered := c.delivered ++ payload
    reorderBuffer := c.reorderBuffer.filter (·.1 != c.receiveNext)
    receiveNext := c.receiveNext + 1
    moved := c.moved + 1 }

inductive Change (F : Prop) (r : Remit) (c : ReliableUdpChannel) : ReliableUdpChannel → Prop
  | handedOver (k : Flush) (n : Nat) : Change F r c (c.handedOver k n)
  | keepRest (n : Nat) : Change F r c (c.keepRest n)
  | queue {entry : PendingSend} (h : c.Posts F r entry) :
    Change F r c { c with sendBatch := c.sendBatch ++ [entry] }
  | filled (now : UInt64) (h : r.fills) (hroom : c.unacknowledged.length < UdpTuning.maxCwnd) :
    Change F r c (c.filled now)
  | resent {p : SentPacket} {rest : List SentPacket} (hfirst : c.unacknowledged = p :: rest) (now : UInt64) :
    Change F r c { c with unacknowledged := c.resent now p :: rest }
  | acknowledge {ack : UInt32} {bits : UInt64} (h : r.hears c ack bits) (now : UInt64) :
    Change F r c (c.acknowledge ack bits now)
  | inserted (sequence : UInt32) (payload : Bytes) (h : r.takes) :
    Change F r c (c.inserted sequence payload)
  | advanced (payload : Bytes) (h : r.takes) : Change F r c (c.advanced payload)
  /-- Other members change. -/
  | other {c' : ReliableUdpChannel}
    (hcore : (c'.nextSequence, c'.receiveNext, c'.chunks, c'.moved, c'.unacknowledged, c'.sendBatch, c'.wire,
        c'.reorderBuffer) =
      (c.nextSequence, c.receiveNext, c.chunks, c.moved, c.unacknowledged, c.sendBatch, c.wire,
        c.reorderBuffer))
    (hdata : r.takes ∨
      (c'.outgoing, c'.outgoingConsumed, c'.delivered, c'.deliveredConsumed, c'.peerFinished) =
        (c.outgoing, c.outgoingConsumed, c.delivered, c.deliveredConsumed, c.peerFinished))
    (hcount : r.counts ∨ c'.consecutiveTimeouts = c.consecutiveTimeouts) : Change F r c c'

abbrev Path (F : Prop) (r : Remit) : ReliableUdpChannel → ReliableUdpChannel → Prop :=
  Relation.ReflTransGen (Change F r)

variable {F : Prop} {r : Remit} {c c' : ReliableUdpChannel} {type : UdpPacketType}

theorem Path.then {α β : Type} {m : ChannelM α} {f : α → ChannelM β} (hm : Path F r c (final m c))
    (hf : ∀ a, Path F r (final m c) (final (f a) (final m c))) : Path F r c (final (m >>= f) c) := by
  rcases final_bind_cases m f c with h | ⟨a, h⟩ <;> rw [h]
  · exact hm
  · exact hm.trans (hf a)

/-! ## Sending -/

theorem final_flushSendBatch (k : Flush) (c : ReliableUdpChannel) :
    ∃ n, final (flushSendBatch k) c = c.handedOver k n ∨
      final (flushSendBatch k) c = (c.handedOver k n).keepRest n := by
  by_cases hempty : c.sendBatch = []
  · refine ⟨0, .inl ?_⟩
    have hrun : (flushSendBatch k).run c = .ok () c := run_flushSendBatch_nil hempty
    rw [final_of_ok hrun]
    simp [handedOver]
  · have hrun := run_flushSendBatch (k := k) hempty
    rw [final, hrun]
    cases sendLoop c.sendBatch.length k.results 0 0 with
    | mk sent halt =>
      refine ⟨sent, ?_⟩
      cases halt with
      | some halt => exact .inl rfl
      | none => exact .inr rfl

theorem path_flushSendBatch (k : Flush) (c : ReliableUdpChannel) :
    Path F r c (final (flushSendBatch k) c) := by
  obtain ⟨n, h | h⟩ := final_flushSendBatch k c <;> rw [h]
  · exact .single (.handedOver k n)
  · exact .tail (.single (.handedOver k n)) (.keepRest n)

theorem path_queueSend {e : PendingSend} (h : c.Posts F r e) (k : Flush) :
    Path F r c (final (queueSend e k) c) := by
  have hqueue : Path F r c { c with sendBatch := c.sendBatch ++ [e] } := .single (.queue h)
  rw [queueSend, final_bind_ok (EStateM.run_modify ..), final_get_bind]
  split
  · exact hqueue.trans (path_flushSendBatch k _)
  · exact hqueue

theorem final_makeRoom (length : Nat) (k : Flush) (c : ReliableUdpChannel) :
    final (makeRoom length k) c = c ∨ final (makeRoom length k) c = final (flushSendBatch k) c := by
  rw [makeRoom, final_get_bind]
  split
  · exact .inr rfl
  · exact .inl rfl

/-- The header that is sent does not depend on the batch. -/
theorem controlDatagram_makeRoom (length : Nat) (k : Flush) (type : UdpPacketType) (bits : UInt64) :
    (final (makeRoom length k) c).controlDatagram type bits = c.controlDatagram type bits := by
  rcases final_makeRoom length k c with h | h <;> rw [h]
  obtain ⟨n, h | h⟩ := final_flushSendBatch k c <;> rw [h] <;> rfl

theorem path_transmit {bits : UInt64}
    (htype : type = .ack ∨ type = .finAck ∨ type = .fin ∧ F)
    (htells : r.tells (c.controlDatagram type bits)) (k k' : Flush) :
    Path F r c (final (transmit (c.controlDatagram type bits) k k') c) := by
  have hsame := controlDatagram_makeRoom (c := c) (c.controlDatagram type bits).bytes.length k type bits
  rw [transmit]
  refine Path.then ?_ fun _ => ?_
  · rcases final_makeRoom (c.controlDatagram type bits).bytes.length k c with h | h <;> rw [h]
    exact path_flushSendBatch k c
  · generalize final (makeRoom (c.controlDatagram type bits).bytes.length k) c = c₁ at hsame
    rw [final_get_bind]
    split
    · exact .refl
    · have hstaged : Path F r c₁
          { c₁ with controlUsed := c₁.controlUsed + (c.controlDatagram type bits).bytes.length } :=
        .single (.other rfl (.inr rfl) (.inr rfl))
      rw [final_bind_ok (EStateM.run_set ..)]
      refine hstaged.trans (path_queueSend ?_ k')
      exact ⟨htells, type, bits, htype, hsame.symm⟩

theorem path_sendControl (htype : type = .ack ∨ type = .finAck ∨ type = .fin ∧ F)
    (htells : r.tells (c.controlDatagram type 0)) (k k' : Flush) :
    Path F r c (final (sendControl type k k') c) := by
  rw [sendControl, final_get_bind]
  exact path_transmit htype htells k k'

theorem path_sendAck (htells : r.tells (c.controlDatagram .ack c.ackBitmap)) (k k' : Flush) :
    Path F r c (final (sendAck k k') c) := by
  rw [sendAck, final_get_bind]
  exact path_transmit (.inl rfl) htells k k'

theorem plain_control (htype : type.Named) : Plain (c.controlDatagram type 0) := by
  intro header hparse
  have hwritten : parseHeader (c.controlDatagram type 0).bytes =
      some { type := type, sequence := 0, ack := c.receiveNext, ackBits := 0, length := 0 } := by
    rw [← List.append_nil (c.controlDatagram type 0).bytes]
    exact parseHeader_write htype (Nat.zero_le _) (Nat.zero_le _)
  rw [hwritten] at hparse
  cases hparse
  rfl

/-! ## Packets -/

theorem path_queued (c : ReliableUdpChannel) (now : UInt64) (k : Flush) :
    Path F r (c.filled now) (final (fillPacket now k) c) :=
  path_queueSend (e := .packet c.chunks.length)
    ⟨c.nextPacket now, List.mem_append_right _ List.mem_cons_self, rfl⟩ k

theorem path_fillPacket (h : r.fills) (hroom : c.unacknowledged.length < UdpTuning.maxCwnd) (now : UInt64)
    (k : Flush) : Path F r c (final (fillPacket now k) c) :=
  .head (.filled now h hroom) (path_queued c now k)

theorem path_resendFirst {p : SentPacket} {rest : List SentPacket} (hfirst : c.unacknowledged = p :: rest)
    (now : UInt64) (k : Flush) :
    Path F r c (final (queueSend (.packet p.handle) k)
      { c with unacknowledged := c.resent now p :: rest }) := by
  have hresent : Path F r c { c with unacknowledged := c.resent now p :: rest } :=
    .single (.resent hfirst now)
  exact hresent.trans (path_queueSend (e := .packet p.handle) ⟨c.resent now p, List.mem_cons_self, rfl⟩ k)

theorem path_retransmitTimedOut (h : r.counts) (now : UInt64) (k : Flush) (c : ReliableUdpChannel) :
    Path F r c (final (retransmitTimedOut now k) c) := by
  rw [retransmitTimedOut, final_get_bind]
  cases hfirst : c.unacknowledged with
  | nil => exact .refl
  | cons oldest rest =>
    dsimp only
    split
    · exact .refl
    · rw [final_bind_ok (EStateM.run_modify ..)]
      split
      · exact .single (.other rfl (.inr rfl) (.inl h))
      · rw [final_bind_ok (EStateM.run_modify ..)]
        have hcounted : Path F r c { c with
            consecutiveTimeouts := c.consecutiveTimeouts + 1
            rtoUs := min UdpTuning.maxRtoUs (c.rtoUs * 2) } :=
          .single (.other rfl (.inr rfl) (.inl h))
        refine hcounted.trans ?_
        exact path_resendFirst (by exact hfirst) now k

/-- What follows once the packets are popped and marked: perhaps the first one that is left is sent
again. -/
theorem path_processAck (ack : UInt32) (bits now : UInt64) (k : Flush) (c : ReliableUdpChannel) :
    Path F r (c.acknowledge ack bits now) (final (processAck ack bits now k) c) := by
  rw [processAck, final_bind_ok (EStateM.run_modify ..), final_get_bind]
  generalize c.acknowledge ack bits now = c₁
  cases hleft : c₁.unacknowledged with
  | nil => exact .refl
  | cons missing rest =>
    dsimp only
    split
    · rw [final_bind_ok (EStateM.run_set ..)]
      exact path_resendFirst hleft now k
    · exact .refl

/-! ## What arrives -/

theorem path_takeData (h : r.takes) (header : UdpHeader) (payload : Bytes) (c : ReliableUdpChannel) :
    Path F r c (final (takeData header payload) c) := by
  rw [takeData, final_get_bind]
  split
  · exact .single (.other rfl (.inr rfl) (.inr rfl))
  · split
    · exact .refl
    · exact .single (.inserted header.sequence payload h)

theorem path_dispatch (h : r.takes) (htells : ∀ d, Plain d → r.tells d) (header : UdpHeader)
    (payload : Bytes) (k k' : Flush) (c : ReliableUdpChannel) :
    Path F r c (final (dispatch header payload k k') c) := by
  unfold dispatch
  split
  · exact path_takeData h header payload c
  · rw [final_bind_ok (EStateM.run_modify ..)]
    have hfinished : Path F r c { c with peerFinished := true } :=
      .single (.other rfl (.inl h) (.inr rfl))
    refine hfinished.trans (path_sendControl (.inr (.inl rfl)) (htells _ (plain_control ?_)) k k')
    simp [UdpPacketType.Named]
  · exact .single (.other rfl (.inr rfl) (.inr rfl))
  · exact .refl

theorem processPacket_eq {data : Bytes} {header : UdpHeader} (h : parseHeader data = some header)
    (now : UInt64) (k k' k'' : Flush) :
    processPacket data now k k' k'' = (do
      processAck header.ack header.ackBits now k
      dispatch header (udpPayload header data) k' k'') := by
  rw [processPacket, h]

theorem path_processPacket {data : Bytes}
    (hhears : ∀ header, parseHeader data = some header → r.hears c header.ack header.ackBits)
    (htakes : r.takes) (htells : ∀ d, Plain d → r.tells d) (now : UInt64) (k k' k'' : Flush) :
    Path F r c (final (processPacket data now k k' k'') c) := by
  cases hparse : parseHeader data with
  | none =>
    rw [processPacket, hparse]
    exact .refl
  | some header =>
    rw [processPacket_eq hparse]
    refine Path.then ?_ fun _ => path_dispatch htakes htells header _ k' k'' _
    exact .head (.acknowledge (hhears header hparse) now) (path_processAck ..)

theorem path_deliverLoop (h : r.takes) (n : Nat) (c : ReliableUdpChannel) :
    Path F r c (deliverLoop n c) := by
  induction n generalizing c with
  | zero => exact .refl
  | succ n ih =>
    unfold deliverLoop
    split
    · exact .refl
    · split
      · exact .refl
      · rename_i e _
        exact .head (.advanced e.2 h) (ih (c.advanced e.2))

theorem path_deliverInOrder (h : r.takes) (c : ReliableUdpChannel) : Path F r c c.deliverInOrder := by
  have hloop : Path F r c (deliverLoop c.reorderBuffer.length c) := path_deliverLoop h _ c
  unfold deliverInOrder
  generalize deliverLoop c.reorderBuffer.length c = c₁ at hloop
  dsimp only
  split
  · exact hloop.tail (.other rfl (.inl h) (.inr rfl))
  · exact hloop

end ReliableUdpChannel

/-! ## One event -/

namespace UdpEnd

open ReliableUdpChannel

def sendFin (k k' k'' : Flush) : ChannelM Unit := do
  sendControl .fin k k'
  flushSendBatch k''

theorem path_sendFin {F : Prop} {r : Remit} (hF : F) (htells : ∀ d, Plain d → r.tells d) (k k' k'' : Flush)
    (c : ReliableUdpChannel) : Path F r c (final (sendFin k k' k'') c) := by
  refine Path.then (path_sendControl (.inr (.inr ⟨rfl, hF⟩)) (htells _ (plain_control ?_)) k k') fun _ =>
    path_flushSendBatch k'' _
  simp [UdpPacketType.Named]

theorem path_acknowledges {F : Prop} {r : Remit} {c : ReliableUdpChannel}
    (htells : r.tells (c.controlDatagram .ack c.ackBitmap)) (k k' k'' : Flush) :
    Path F r c (final (acknowledges k k' k'') c) := by
  rw [acknowledges]
  refine Path.then (path_sendAck htells k k') fun _ => Path.then (path_flushSendBatch k'' _) fun _ => ?_
  generalize final (flushSendBatch k'') _ = c₁
  exact .single (.other rfl (.inr rfl) (.inr rfl))

/-- A part of a call that runs a member of the channel. -/
inductive Part (e : UdpEnd) : UdpEvent → ChannelM Unit → UdpCall → Option PumpStage → Prop
  | retransmit (now : UInt64) (k : Flush) :
    Part e (.retransmit now k) (retransmitTimedOut now k) e.call (some .fill)
  | packet (now : UInt64) (k : Flush) (hroom : e.channel.unacknowledged.length < UdpTuning.maxCwnd) :
    Part e (.packet now k) (fillPacket now k) e.call (some .fill)
  | sendBatch (k : Flush) : Part e (.sendBatch k) (flushSendBatch k) e.call (some .receive)
  | datagram (now : UInt64) (source : Endpoint) (data : Bytes) (k k' k'' : Flush) :
    Part e (.datagram now source data k k' k'') (processPacket data now k k' k'') e.call (some .receive)
  | ack (k k' k'' : Flush) : Part e (.ack k k' k'') (acknowledges k k' k'') e.call none
  | flushed (late : Bool) (k k' k'' : Flush) {forClose : Bool} (hcall : e.call = .flushing forClose)
    (hdone : ¬ (e.channel.outgoingConsumed < e.channel.outgoing.length ∨ e.channel.unacknowledged ≠ [])) :
    Part e (.resume late k k' k'') (flushSendBatch k) (if forClose then .closing else .idle) none

/-- What an event can be. -/
inductive Happens (e : UdpEnd) : UdpEvent → UdpEnd → Prop
  | write (bytes : Bytes) (hidle : e.call = .idle) :
    Happens e (.write bytes) { e with
      channel := { e.channel with outgoing := e.channel.outgoing ++ bytes }
      call := .writing
      written := e.written ++ bytes }
  | read (len : Nat) (hidle : e.call = .idle) :
    Happens e (.read len) { e with call := .reading len [], stage := some .retransmit }
  | flush (hidle : e.call = .idle) : Happens e .flush { e with call := .flushing false }
  | close (hidle : e.call = .idle) : Happens e .close { e with call := .flushing true }
  | part {event : UdpEvent} {m : ChannelM Unit} {call : UdpCall} {stage : Option PumpStage} {e' : UdpEnd}
    (h : e.Part event m call stage) (hs : e.act m call stage = some e') : Happens e event e'
  | filled : Happens e .filled { e with stage := some .flush }
  | received : Happens e .received { e with stage := some .deliver }
  | pumps (late : Bool) (k k' k'' : Flush) :
    Happens e (.resume late k k' k'') { e with stage := some .retransmit }
  | deliver (stage : Option PumpStage) :
    Happens e .deliver { e with channel := e.channel.deliverInOrder, stage := stage }
  | wrote (late : Bool) (k k' k'' : Flush) (hcall : e.call = .writing)
    (hdone : ¬ e.channel.outgoingConsumed < e.channel.outgoing.length) :
    Happens e (.resume late k k' k'')
      { e with channel := { e.channel with outgoing := [], outgoingConsumed := 0 }, call := .idle }
  | reads (late : Bool) (k k' k'' : Flush) {len : Nat} {copied : Bytes} (hcall : e.call = .reading len copied) :
    Happens e (.resume late k k' k'') (e.readRound len copied)
  | closed (late : Bool) (k k' k'' : Flush) (hcall : e.call = .closing) :
    Happens e (.resume late k k' k'') { e with call := .idle }
  | fin (late : Bool) (k k' k'' : Flush) (hcall : e.call = .closing) {e' : UdpEnd}
    (hs : { e with closedAt := e.closedAt.or (some e.written.length) }.act (sendFin k k' k'') .closing
      (some .retransmit) = some e') : Happens e (.resume late k k' k'') e'

variable {e e' : UdpEnd} {event : UdpEvent} {stage : Option PumpStage}

theorem happens_resume {late : Bool} {k k' k'' : Flush} (hs : e.resume late k k' k'' = some e') :
    e.Happens (.resume late k k' k'') e' := by
  unfold resume at hs
  dsimp only at hs
  split at hs
  · cases hs
  · rename_i hcall
    split at hs
    · cases hs
      exact .pumps late k k' k''
    · rename_i hdone
      cases hs
      exact .wrote late k k' k'' hcall hdone
  · rename_i hcall
    cases hs
    exact .reads late k k' k'' hcall
  · rename_i hcall
    split at hs
    · cases hs
      exact .pumps late k k' k''
    · rename_i hdone
      exact .part (.flushed late k k' k'' hcall hdone) hs
  · rename_i hcall
    split at hs
    · cases hs
      exact .closed late k k' k'' hcall
    · exact .fin late k k' k'' hcall hs

theorem Step.happens (hs : e.Step event e') : e.Happens event e' := by
  unfold Step next at hs
  cases event with
  | resume late k k' k'' => exact happens_resume (Option.ite_none_right_eq_some.mp hs).2
  | write bytes =>
    obtain ⟨hidle, hs⟩ := Option.ite_none_right_eq_some.mp hs
    cases hs
    exact .write bytes hidle
  | read len =>
    obtain ⟨hidle, hs⟩ := Option.ite_none_right_eq_some.mp hs
    cases hs
    exact .read len hidle
  | flush =>
    obtain ⟨hidle, hs⟩ := Option.ite_none_right_eq_some.mp hs
    cases hs
    exact .flush hidle
  | close =>
    obtain ⟨hidle, hs⟩ := Option.ite_none_right_eq_some.mp hs
    cases hs
    exact .close hidle
  | filled =>
    cases (Option.ite_none_right_eq_some.mp hs).2
    exact .filled
  | received =>
    cases (Option.ite_none_right_eq_some.mp hs).2
    exact .received
  | deliver =>
    cases (Option.ite_none_right_eq_some.mp hs).2
    exact .deliver _
  | packet now k =>
    obtain ⟨hguard, hs⟩ := Option.ite_none_right_eq_some.mp hs
    exact .part (.packet now k hguard.2.2) hs
  | retransmit now k => exact .part (.retransmit now k) (Option.ite_none_right_eq_some.mp hs).2
  | sendBatch k => exact .part (.sendBatch k) (Option.ite_none_right_eq_some.mp hs).2
  | datagram now source data k k' k'' =>
    exact .part (.datagram now source data k k' k'') (Option.ite_none_right_eq_some.mp hs).2
  | ack k k' k'' => exact .part (.ack k k' k'') (Option.ite_none_right_eq_some.mp hs).2

/-- A part of a call ends with what it left of the channel, in the call or out of it. -/
theorem act_cases {m : ChannelM Unit} {call : UdpCall}
    (h : e.act m call stage = some e') :
    (∃ c, m.run e.channel = .ok () c ∧
      e' = { e with channel := final m e.channel, call := call, stage := stage }) ∨
    ∃ f, e' = { e with
      channel := final m e.channel
      call := .idle
      stage := none
      threw := if e.call = .flushing true ∨ e.call = .closing then e.threw else some f } := by
  unfold act at h
  unfold final
  cases hrun : m.run e.channel with
  | ok _ c =>
    rw [hrun] at h
    cases h
    exact .inl ⟨c, rfl, rfl⟩
  | error halt c =>
    rw [hrun] at h
    cases halt with
    | failure f =>
      cases h
      exact .inr ⟨f, rfl⟩
    | overrun => cases h

/-- What a part of a call leaves as it was. -/
theorem act_spec {m : ChannelM Unit} {call : UdpCall}
    (hs : e.act m call stage = some e') :
    e'.channel = final m e.channel ∧ e'.written = e.written ∧ e'.taken = e.taken ∧
      e'.closedAt = e.closedAt ∧ (e'.call = call ∨ e'.call = .idle) := by
  rcases act_cases hs with ⟨_, _, rfl⟩ | ⟨_, rfl⟩
  · exact ⟨rfl, rfl, rfl, rfl, .inl rfl⟩
  · exact ⟨rfl, rfl, rfl, rfl, .inr rfl⟩

def remit (e : UdpEnd) : UdpEvent → Remit
  | .ack .. => { tells := fun d => Plain d ∨ d = e.channel.controlDatagram .ack e.channel.ackBitmap }
  | .datagram _ _ data _ _ _ =>
    { hears := fun c ack bits => c = e.channel ∧ ∃ header, parseHeader data = some header ∧
        header.ack = ack ∧ header.ackBits = bits
      takes := True }
  | .packet .. => { fills := True }
  | .retransmit .. => { counts := True }
  | .deliver | .write _ | .resume .. => { takes := True }
  | .read _ | .flush | .close | .filled | .sendBatch _ | .received => {}

theorem Part.path {F : Prop} {m : ChannelM Unit} {call : UdpCall}
    (h : e.Part event m call stage) : Path F (e.remit event) e.channel (final m e.channel) := by
  cases h with
  | retransmit now k => exact path_retransmitTimedOut trivial now k _
  | packet now k hroom => exact path_fillPacket trivial hroom now k
  | sendBatch k => exact path_flushSendBatch k _
  | flushed _ k => exact path_flushSendBatch k _
  | datagram now source data k k' k'' =>
    refine path_processPacket (fun header hparse => ?_) trivial (fun _ => id) now k k' k''
    exact ⟨rfl, header, hparse, rfl, rfl⟩
  | ack k k' k'' =>
    refine path_acknowledges ?_ k k' k''
    exact .inr rfl

theorem readRound_channel (e : UdpEnd) (len : Nat) (copied : Bytes) :
    (e.readRound len copied).closedAt = e.closedAt ∧ ∃ delivered consumed,
      (e.readRound len copied).channel =
        { e.channel with delivered := delivered, deliveredConsumed := consumed } := by
  unfold readRound
  dsimp only
  split
  · split
    · refine ⟨rfl, ?_⟩
      dsimp only
      split <;> exact ⟨_, _, rfl⟩
    · split <;> exact ⟨rfl, _, _, rfl⟩
  · exact ⟨rfl, _, _, rfl⟩

/-- The changes of an event. The channel may send `Fin` once the loop of `close_gracefully` has begun. -/
theorem Happens.path (h : e.Happens event e') : (e.closedAt ≠ none → e'.closedAt ≠ none) ∧
    Path (e'.closedAt ≠ none) (e.remit event) e.channel e'.channel := by
  cases h with
  | write | wrote => exact ⟨id, .single (.other rfl (.inl trivial) (.inr rfl))⟩
  | read | flush | close | closed | filled | received | pumps => exact ⟨id, .refl⟩
  | part h hs =>
    obtain ⟨hchannel, -, -, hclosed, -⟩ := act_spec hs
    rw [hchannel, hclosed]
    exact ⟨id, h.path⟩
  | deliver => exact ⟨id, path_deliverInOrder trivial _⟩
  | reads _ _ _ _ _ =>
    obtain ⟨hclosed, delivered, consumed, hchannel⟩ := e.readRound_channel _ _
    rw [hclosed, hchannel]
    exact ⟨id, .single (.other rfl (.inl trivial) (.inr rfl))⟩
  | fin _ k k' k'' _ hs =>
    obtain ⟨hchannel, -, -, hclosed, -⟩ := act_spec hs
    have hsome : e'.closedAt ≠ none := by
      rw [hclosed]
      cases e.closedAt <;> simp
    rw [hchannel]
    exact ⟨fun _ => hsome, path_sendFin hsome (fun _ => id) k k' k'' _⟩

end UdpEnd

end DropZone
