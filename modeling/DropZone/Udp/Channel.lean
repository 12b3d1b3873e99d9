import DropZone.Lib.Serial
import DropZone.Udp.Packet

/-!
# The reliable channel (`client/src/reliable_udp.cpp`)

The members of `ReliableUdpChannel` that send, acknowledge and deliver. What they throw keeps the state
reached so far.

* `PendingSend`: an entry of `send_batch_`. A data packet is queued as a view of the datagram in
  `unacknowledged_`; here the view is the packet's `handle`. Once the packet is gone, what the kernel
  is given is whatever stands there now (`Flush.stale`).
* `Flush`: what the kernel does with one `flush_send_batch`; `sendLoop`: its loop.
* `Halt`: what ends a member early: an exception, or a write past one of the arrays that the
  constructor made for a batch, after which nothing is known.

`cwnd_` and the pacer are doubles that decide only how many packets `fill_window` builds in one call:
`fillPacket` builds one, while the window is below `max_cwnd`, which `cwnd_` never exceeds.
`send_base_` and the statistics are never read.
-/

namespace DropZone

open LittleEndian Serial

namespace UdpTuning

def maxCwnd : Nat := 2048
def minRtoUs : UInt64 := 5000
def maxRtoUs : UInt64 := 2000000
def initialRtoUs : UInt64 := 200000
def fastRetransmitThreshold : Nat := 3
def maxTimeouts : Nat := 12
def batchSize : Nat := 64

end UdpTuning

def kMaxReorderPackets : Nat := 16384

def kMaxDeliveredBacklog : Nat := 8 * 1024 * 1024

/-- A datagram given to the kernel, with the packet it is a copy of and the number of packets that its
sender had delivered when the header was written. -/
structure Datagram where
  bytes : Bytes
  packet : Option Nat
  acked : Nat
  deriving DecidableEq

/-- `SentPacket`. The handle is the number of packets built before it. -/
structure SentPacket where
  handle : Nat
  sequence : UInt32
  datagram : Bytes
  sentUs : UInt64
  transmissions : Nat := 1
  acknowledged : Bool := false
  /-- How many packets had been delivered when the header was written. -/
  acked : Nat
  deriving DecidableEq

/-- `PendingSend`. -/
inductive PendingSend where
  /-- A view of a packet's datagram. -/
  | packet (handle : Nat)
  /-- A view of the staging area. -/
  | control (datagram : Datagram)
  deriving DecidableEq

/-- What one `sendmmsg` comes to. -/
inductive SendResult where
  /-- It takes `n + 1` datagrams, or all if there are fewer. -/
  | taken (n : Nat)
  /-- `EINTR`. -/
  | interrupted
  /-- `EAGAIN`. -/
  | full
  /-- `ECONNREFUSED`. -/
  | refused
  /-- Any other error, with its text. -/
  | failed (reason : Bytes)
  deriving DecidableEq

/-- What the kernel does with one `flush_send_batch`. -/
structure Flush where
  /-- The results of `sendmmsg`, until it takes all that is left. -/
  results : List SendResult := []
  /-- What stands where the datagram of a packet was freed. -/
  stale : Nat → Bytes := fun _ => []

inductive Halt where
  | failure (e : Failure)
  | overrun

structure ReliableUdpChannel where
  peer : Endpoint
  outgoing : Bytes := []
  outgoingConsumed : Nat := 0
  unacknowledged : List SentPacket := []
  nextSequence : UInt32 := 0
  consecutiveTimeouts : Nat := 0
  srttUs : UInt64 := 0
  rttvarUs : UInt64 := 0
  rtoUs : UInt64 := UdpTuning.initialRtoUs
  receiveNext : UInt32 := 0
  reorderBuffer : List (UInt32 × Bytes) := []
  delivered : Bytes := []
  deliveredConsumed : Nat := 0
  ackPending : Bool := false
  peerFinished : Bool := false
  finAcknowledged : Bool := false
  sendBatch : List PendingSend := []
  controlUsed : Nat := 0
  /-- The payloads of all packets built so far. -/
  chunks : List Bytes := []
  /-- How many packets were moved into `delivered_` so far. -/
  moved : Nat := 0
  /-- All that was given to the kernel so far. -/
  wire : List Datagram := []
  deriving DecidableEq

abbrev ChannelM := EStateM Halt ReliableUdpChannel

namespace ReliableUdpChannel

/-! ## Sending -/

/-- What the kernel is given for an entry. -/
def datagramOf (c : ReliableUdpChannel) (k : Flush) : PendingSend → Datagram
  | .control d => d
  | .packet handle =>
    match c.unacknowledged.find? (·.handle == handle) with
    | some p => ⟨p.datagram, some handle, p.acked⟩
    | none => ⟨k.stale handle, none, 0⟩

/-- The first entries are on the wire. -/
def handedOver (c : ReliableUdpChannel) (k : Flush) (sent : Nat) : ReliableUdpChannel :=
  { c with wire := c.wire ++ (c.sendBatch.take sent).map (c.datagramOf k) }

/-- The entries that did not go out are kept. -/
def keepRest (c : ReliableUdpChannel) (sent : Nat) : ReliableUdpChannel :=
  { c with
    sendBatch := c.sendBatch.drop sent
    controlUsed := if (c.sendBatch.drop sent).isEmpty then 0 else c.controlUsed }

/-- The loop of `flush_send_batch` over a batch of `n` entries: how many of them are gone, and what
ended it early. Each round fills `send_vectors_` and `send_messages_` for all that are left. -/
def sendLoop (n : Nat) (results : List SendResult) (sent stalls : Nat) : Nat × Option Halt :=
  if n ≤ sent then (sent, none)
  else if n - sent > UdpTuning.batchSize then (sent, some .overrun)
  else
    match results with
    | [] => (n, none)
    | .taken k :: rs => sendLoop n rs (sent + min (k + 1) (n - sent)) stalls
    | .interrupted :: rs => sendLoop n rs sent stalls
    | .full :: rs => if stalls + 1 > 2 then (sent, none) else sendLoop n rs sent (stalls + 1)
    | .refused :: rs => sendLoop n rs (sent + 1) stalls
    | .failed reason :: _ =>
      (sent, some (.failure (.error (text "sending to the peer failed: " ++ reason))))

def flushSendBatch (k : Flush) : ChannelM Unit := do
  let c ← get
  if c.sendBatch.isEmpty then pure ()
  else do
    let (sent, halt) := sendLoop c.sendBatch.length k.results 0 0
    set (c.handedOver k sent)
    match halt with
    | some h => throw h
    | none => modify (·.keepRest sent)

/-- `queue_send`, without the losses of the tests. -/
def queueSend (entry : PendingSend) (k : Flush) : ChannelM Unit := do
  modify fun c => { c with sendBatch := c.sendBatch ++ [entry] }
  let c ← get
  if c.sendBatch.length ≥ UdpTuning.batchSize then flushSendBatch k else pure ()

def stagingSize : Nat := kUdpHeaderSize * UdpTuning.batchSize

/-- The flush of `transmit` that makes room in the staging area. -/
def makeRoom (length : Nat) (k : Flush) : ChannelM Unit := do
  let c ← get
  if c.controlUsed + length > stagingSize then flushSendBatch k else pure ()

/-- `transmit`: `k` is the flush that makes room, `k'` that of `queue_send`. -/
def transmit (datagram : Datagram) (k k' : Flush) : ChannelM Unit := do
  makeRoom datagram.bytes.length k
  let c ← get
  if c.controlUsed + datagram.bytes.length > stagingSize then
    throw .overrun
  else do
    set { c with controlUsed := c.controlUsed + datagram.bytes.length }
    queueSend (.control datagram) k'

def controlDatagram (c : ReliableUdpChannel) (type : UdpPacketType) (bits : UInt64) : Datagram where
  bytes := writeHeader
    { type := type, sequence := 0, ack := c.receiveNext, ackBits := bits, length := 0 }
  packet := none
  acked := c.moved

def sendControl (type : UdpPacketType) (k k' : Flush) : ChannelM Unit := do
  let c ← get
  transmit (c.controlDatagram type 0) k k'

/-- What is in the reorder buffer past the gap. -/
def ackBitmap (c : ReliableUdpChannel) : UInt64 :=
  c.reorderBuffer.foldl (fun bits e =>
    let offset := serialDiff e.1 c.receiveNext
    if 1 ≤ offset ∧ offset ≤ 64 then bits ||| ((1 : UInt64) <<< UInt64.ofNat (offset - 1).toNat)
    else bits) 0

def sendAck (k k' : Flush) : ChannelM Unit := do
  let c ← get
  transmit (c.controlDatagram .ack c.ackBitmap) k k'

/-- `write_header` over the header of a packet. -/
def refreshed (c : ReliableUdpChannel) (p : SentPacket) : SentPacket :=
  { p with
    datagram := writeHeader
      { type := .data, sequence := p.sequence, ack := c.receiveNext, ackBits := 0
        length := UInt16.ofNat (p.datagram.length - kUdpHeaderSize) } ++
      p.datagram.drop kUdpHeaderSize
    acked := c.moved }

/-- A packet that is sent once more. -/
def resent (c : ReliableUdpChannel) (now : UInt64) (p : SentPacket) : SentPacket :=
  { c.refreshed p with sentUs := now, transmissions := p.transmissions + 1 }

/-- The next packet of `fill_window`. -/
def nextPacket (c : ReliableUdpChannel) (now : UInt64) : SentPacket :=
  let payload := (c.outgoing.drop c.outgoingConsumed).take kUdpMaxPayload
  { handle := c.chunks.length
    sequence := c.nextSequence
    datagram := writeHeader
      { type := .data, sequence := c.nextSequence, ack := c.receiveNext, ackBits := 0
        length := UInt16.ofNat payload.length } ++ payload
    sentUs := now
    acked := c.moved }

/-- A round of `fill_window` before the packet is queued. -/
def filled (c : ReliableUdpChannel) (now : UInt64) : ReliableUdpChannel :=
  let payload := (c.outgoing.drop c.outgoingConsumed).take kUdpMaxPayload
  { c with
    nextSequence := c.nextSequence + 1
    outgoingConsumed := c.outgoingConsumed + payload.length
    unacknowledged := c.unacknowledged ++ [c.nextPacket now]
    chunks := c.chunks ++ [payload] }

/-- One round of `fill_window`. -/
def fillPacket (now : UInt64) (k : Flush) : ChannelM Unit := do
  let c ← get
  set (c.filled now)
  queueSend (.packet c.chunks.length) k

def retransmitTimedOut (now : UInt64) (k : Flush) : ChannelM Unit := do
  let c ← get
  match c.unacknowledged with
  | [] => pure ()
  | oldest :: rest =>
    if now - oldest.sentUs < c.rtoUs then pure ()
    else do
      let timeouts := c.consecutiveTimeouts + 1
      modify fun c => { c with consecutiveTimeouts := timeouts }
      if timeouts > UdpTuning.maxTimeouts then
        throw (.failure (.error (text "the peer stopped responding after " ++ decimal timeouts ++
          text " retransmission timeouts")))
      else do
        modify fun c => { c with
          rtoUs := min UdpTuning.maxRtoUs (c.rtoUs * 2)
          unacknowledged := c.resent now oldest :: rest }
        queueSend (.packet oldest.handle) k

/-! ## Receiving -/

def updateRtt (c : ReliableUdpChannel) (sampleUs : UInt64) : ReliableUdpChannel :=
  let srtt := if c.srttUs = 0 then sampleUs else (7 * c.srttUs + sampleUs) / 8
  let rttvar :=
    if c.srttUs = 0 then sampleUs / 2
    else
      let difference := if sampleUs > c.srttUs then sampleUs - c.srttUs else c.srttUs - sampleUs
      (3 * c.rttvarUs + difference) / 4
  { c with
    srttUs := srtt
    rttvarUs := rttvar
    rtoUs := max UdpTuning.minRtoUs (min UdpTuning.maxRtoUs (srtt + 4 * rttvar)) }

/-- A packet that the cumulative acknowledgement covers. -/
def covered (ack : UInt32) (p : SentPacket) : Bool := serialDiff p.sequence ack < 0

/-- A packet that the bitmap covers. -/
def coveredBeyond (ack : UInt32) (bits : UInt64) (p : SentPacket) : Bool :=
  let offset := serialDiff p.sequence ack
  decide (1 ≤ offset ∧ offset ≤ 64) && (bits >>> UInt64.ofNat (offset - 1).toNat) &&& 1 == 1

/-- `process_ack` up to the fast retransmission: packets are popped and marked. -/
def acknowledge (c : ReliableUdpChannel) (ack : UInt32) (bits : UInt64) (now : UInt64) :
    ReliableUdpChannel :=
  let popped := c.unacknowledged.takeWhile (covered ack)
  let rest := c.unacknowledged.dropWhile (covered ack)
  let sampled := popped.foldl (fun c p =>
    if p.transmissions = 1 then c.updateRtt (now - p.sentUs) else c) c
  let newly := popped.length + rest.countP fun p => coveredBeyond ack bits p && !p.acknowledged
  { sampled with
    unacknowledged := rest.map fun p =>
      if coveredBeyond ack bits p then { p with acknowledged := true } else p
    consecutiveTimeouts := if newly > 0 then 0 else c.consecutiveTimeouts }

def processAck (ack : UInt32) (bits : UInt64) (now : UInt64) (k : Flush) : ChannelM Unit := do
  modify (·.acknowledge ack bits now)
  let c ← get
  match c.unacknowledged with
  | [] => pure ()
  | missing :: rest =>
    if c.unacknowledged.countP (coveredBeyond ack bits) ≥ UdpTuning.fastRetransmitThreshold ∧
        missing.acknowledged = false ∧ now - missing.sentUs > c.srttUs / 2 then do
      set { c with unacknowledged := c.resent now missing :: rest }
      queueSend (.packet missing.handle) k
    else pure ()

/-- The `Data` case of `process_packet`. -/
def takeData (header : UdpHeader) (payload : Bytes) : ChannelM Unit := do
  let c ← get
  if serialDiff header.sequence c.receiveNext < 0 then
    set { c with ackPending := true }
  else if c.reorderBuffer.length ≥ kMaxReorderPackets then
    throw (.failure (.error
      (text "the peer sent more out-of-order data than the reorder buffer allows")))
  else
    set { c with
      reorderBuffer :=
        if c.reorderBuffer.any (·.1 == header.sequence) then c.reorderBuffer
        else c.reorderBuffer ++ [(header.sequence, payload)]
      ackPending := true }

/-- The cases of `process_packet` after the acknowledgement. -/
def dispatch (header : UdpHeader) (payload : Bytes) (k k' : Flush) : ChannelM Unit :=
  match header.type with
  | .data => takeData header payload
  | .fin => do
    modify fun c => { c with peerFinished := true }
    sendControl .finAck k k'
  | .finAck => modify fun c => { c with finAcknowledged := true }
  | _ => pure ()

/-- `process_packet`. The flush `k` is that of a fast retransmission, `k'` and `k''` are those of
`transmit`. -/
def processPacket (data : Bytes) (now : UInt64) (k k' k'' : Flush) : ChannelM Unit :=
  match parseHeader data with
  | none => pure ()
  | some header => do
    processAck header.ack header.ackBits now k
    dispatch header (udpPayload header data) k' k''

/-- The loop of `deliver_in_order`, which takes a packet out of the reorder buffer each time. -/
def deliverLoop : Nat → ReliableUdpChannel → ReliableUdpChannel
  | 0, c => c
  | n + 1, c =>
    if c.delivered.length - c.deliveredConsumed ≥ kMaxDeliveredBacklog then c
    else match c.reorderBuffer.find? (·.1 == c.receiveNext) with
      | none => c
      | some e => deliverLoop n { c with
          delivered := c.delivered ++ e.2
          reorderBuffer := c.reorderBuffer.filter (·.1 != c.receiveNext)
          receiveNext := c.receiveNext + 1
          moved := c.moved + 1 }

def deliverInOrder (c : ReliableUdpChannel) : ReliableUdpChannel :=
  let c := deliverLoop c.reorderBuffer.length c
  if c.deliveredConsumed > 0 ∧ c.deliveredConsumed ≥ c.delivered.length / 2 then
    { c with delivered := c.delivered.drop c.deliveredConsumed, deliveredConsumed := 0 }
  else c

/-- The loop goes on until delivery is paused or the next packet is missing. -/
theorem deliverLoop_stops {n : Nat} {c : ReliableUdpChannel} (h : c.reorderBuffer.length ≤ n) :
    let c' := deliverLoop n c
    kMaxDeliveredBacklog ≤ c'.delivered.length - c'.deliveredConsumed ∨
      ∀ e ∈ c'.reorderBuffer, e.1 ≠ c'.receiveNext := by
  induction n generalizing c with
  | zero =>
    right
    have hempty : c.reorderBuffer = [] := List.length_eq_zero_iff.mp (Nat.le_zero.mp h)
    intro e he
    rw [deliverLoop, hempty] at he
    cases he
  | succ n ih =>
    unfold deliverLoop
    split
    · rename_i hfull
      exact .inl hfull
    · split
      · rename_i hnone
        right
        intro e he
        simpa using List.find?_eq_none.mp hnone e he
      · rename_i e he
        refine ih ?_
        have hmem := List.mem_of_find?_eq_some he
        have hkey := List.find?_some he
        have hlt : (c.reorderBuffer.filter (·.1 != c.receiveNext)).length < c.reorderBuffer.length :=
          List.length_filter_lt_length_iff_exists.mpr ⟨e, hmem, by simpa using hkey⟩
        dsimp only
        omega

end ReliableUdpChannel

end DropZone
