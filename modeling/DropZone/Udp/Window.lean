import DropZone.Udp.Advance
import Mathlib.Data.List.Perm.Subperm

/-!
# The window and the reorder buffer

* `Vouched x y`: what `y` has reported to `x` it holds, and so does what `x` has marked.
  `vouched_of_reach`: in every run whose steps spare the queue.
* `marked_received`: a packet that is marked has arrived. `stale_bitmap_believed`: unless the report was
  never made.
* `reorder_buffer_fits`: the reorder buffer holds packets of the sender's window, and is never full.
  `reorder_buffer_overflows`: a forged acknowledgement opens the window again and again.
-/

namespace DropZone

open LittleEndian Serial StateSpec System

namespace UdpEnd

open ReliableUdpChannel

/-! ## Reports that are true -/

/-- What `y` has reported to `x` it holds, and so does what `x` has marked. -/
structure Vouched (x y : ReliableUdpChannel) : Prop where
  marked : ∀ p ∈ x.unacknowledged, p.acknowledged = true → y.inbox.Held p.handle
  truthful : ∀ d, y.Said d → ∀ header, parseHeader d.bytes = some header →
    ∀ n, header.ackBits.toNat.testBit n → y.inbox.Held (d.acked + n + 1)

variable {e e' f : UdpEnd} {event : UdpEvent} {N : Datagram → Prop} {M : Nat → Prop}

/-- What an acknowledgement reports is in the reorder buffer. -/
theorem Pair.ack_truthful (h : Pair e f) {header : UdpHeader} {n : Nat}
    (hparse : parseHeader (e.channel.controlDatagram .ack e.channel.ackBitmap).bytes = some header)
    (hbit : header.ackBits.toNat.testBit n) : e.channel.inbox.Held (e.channel.moved + n + 1) := by
  have hreceived := h.ledger.backed.received
  have hbytes : (e.channel.controlDatagram .ack e.channel.ackBitmap).bytes =
      writeHeader (controlHeader .ack e.channel.moved e.channel.ackBitmap) := by
    simp only [controlDatagram, controlHeader, hreceived]
  rw [hbytes, parse_controlHeader (by simp [UdpPacketType.Named])] at hparse
  cases hparse
  obtain ⟨entry, hentry, hoffset⟩ := ackBitmap_sound hbit
  have hconveyed := h.receives.conveyed
  obtain ⟨handle, hkey, hle, hpayload⟩ := hconveyed.reorder entry hentry
  have hlt := (List.getElem?_eq_some_iff.mp hpayload).1
  have hwindow := hconveyed.window
  have hacked := hconveyed.acked
  simp only [UdpTuning.maxCwnd] at hwindow
  change e.channel.moved ≤ handle at hle
  change f.channel.outbox.chunks.length ≤ e.channel.moved + f.channel.outbox.kept at hacked
  rw [hkey, hreceived, serialDiff_ofNat (by omega) (by omega)] at hoffset
  have hsame : handle = e.channel.moved + n + 1 := by omega
  rw [← hsame]
  have hnear : handle < e.channel.inbox.moved + 2 ^ 31 := by
    change handle < e.channel.moved + 2 ^ 31
    omega
  exact .inr ⟨hnear, entry, hentry, hkey⟩

/-- What is marked for a datagram of the other end was reported in it. -/
theorem Pair.marks_reported (h : Pair e f) {d : Datagram} (hd : d ∈ f.channel.wire) (hyoung : Young f e d)
    {header : UdpHeader} (hparse : parseHeader d.bytes = some header) {handle : Nat}
    (hmarks : e.channel.Marks header.ack header.ackBits handle) :
    ∃ n, header.ackBits.toNat.testBit n ∧ handle = d.acked + n + 1 := by
  obtain ⟨hacked, header', hparse', hack, -, -⟩ :=
    (h.other.backed.genuine d hd).parse h.other.backed.small
  cases hparse.symm.trans hparse'
  obtain ⟨p, hp, rfl, hcovered⟩ := hmarks
  obtain ⟨n, hoffset, hn, hbit⟩ := coveredBeyond_sound hcovered
  refine ⟨n, hbit, ?_⟩
  obtain ⟨i, hi⟩ := List.mem_iff_getElem?.mp hp
  have hordered := h.ledger.backed.ordered i p hi
  have hindex := (List.getElem?_eq_some_iff.mp hi).1
  have hwindow := h.ledger.backed.window
  have hyoung := hyoung.2
  have hmoved : f.channel.moved ≤ e.channel.chunks.length := h.sends.conveyed.moved_le
  simp only [UdpTuning.maxCwnd] at hwindow
  rw [(h.ledger.backed.built p hp).sequence, hack, serialDiff_ofNat (by omega) (by omega)] at hoffset
  omega

/-- An event at the end that has marked packets. -/
theorem Vouched.sender (hpair : Pair e f) (h : Vouched e.channel f.channel) (harrives : Arrives f e event)
    (hadvance : Advance N (e.Marking event) e.channel e'.channel) : Vouched e'.channel f.channel := by
  refine ⟨fun p hp hacked => ?_, h.truthful⟩
  rcases hadvance.marked p hp hacked with ⟨q, hq, hsame, hq'⟩ | hmarks
  · rw [← hsame]
    exact h.marked q hq hq'
  · cases event with
    | datagram now source data k k' k'' =>
      obtain ⟨d, hd, rfl, hyoung⟩ := harrives
      obtain ⟨header, hparse, hmarks⟩ := hmarks
      obtain ⟨n, hbit, hhandle⟩ := hpair.marks_reported hd hyoung hparse hmarks
      rw [hhandle]
      exact h.truthful d (.inl hd) header hparse n hbit
    | _ => exact hmarks.elim

/-- An event at the end that has reported what it holds. -/
theorem Vouched.receiver (hpair : Pair e f) (h : Vouched f.channel e.channel)
    (hadvance : Advance (e.News event) M e.channel e'.channel) : Vouched f.channel e'.channel := by
  refine ⟨fun p hp hacked => hadvance.held _ (h.marked p hp hacked), fun d hd header hparse n hbit => ?_⟩
  have hplain : Plain d → False := fun hplain => by
    rw [hplain header hparse] at hbit
    simp at hbit
  refine hadvance.held _ ?_
  rcases hadvance.said d hd with hd | hnew
  · exact h.truthful d hd header hparse n hbit
  · cases event with
    | ack k k' k'' =>
      rcases hnew with hnew | rfl
      · exact (hplain hnew).elim
      · exact hpair.ack_truthful hparse hbit
    | _ => exact (hplain hnew).elim

end UdpEnd

namespace Duplex

open UdpEnd

/-- The reports are true, and the keys of a reorder buffer differ. -/
theorem vouched_of_reach {s : Duplex} (hr : Reach Started Duplex.SparingStep s) (i : Bool) :
    Vouched (s i).channel (s !i).channel ∧ ((s i).channel.reorderBuffer.map Prod.fst).Nodup := by
  induction hr generalizing i with
  | init h =>
    obtain ⟨_, hi⟩ := h i
    obtain ⟨_, hj⟩ := h !i
    rw [hi, hj]
    refine ⟨⟨fun p hp => ?_, fun d hd => ?_⟩, List.nodup_nil⟩
    · cases hp
    · rcases hd with hd | hd <;> cases hd
  | step hr hs ih =>
    rename_i s s' l
    obtain ⟨hs, hspares⟩ := hs
    obtain ⟨e', hstep, rfl, harrives⟩ := hs.cases
    have hpair := pair_of_reach hr l.1
    have hadvance := advance_step hpair.ledger.backed hspares hstep
    rcases Bool.eq_or_eq_not i l.1 with rfl | rfl
    · rw [Function.update_self, Function.update_of_ne (by simp)]
      exact ⟨(ih l.1).1.sender hpair harrives hadvance, hadvance.distinct (ih l.1).2⟩
    · rw [Bool.not_not, Function.update_self, Function.update_of_ne (by simp)]
      have hother := ih !l.1
      rw [Bool.not_not] at hother
      exact ⟨hother.1.receiver hpair hadvance, hother.2⟩

end Duplex

open UdpEnd Duplex ReliableUdpChannel

/-- In every run whose steps spare the queue, a packet that is marked as acknowledged was delivered at the other
end, or it is in the reorder buffer there. -/
theorem marked_received {s : Duplex} (hr : Reach Started Duplex.SparingStep s) (i : Bool) :
    ∀ p ∈ (s i).channel.unacknowledged, p.acknowledged = true → p.handle < (s !i).channel.moved ∨
      ∃ entry ∈ (s !i).channel.reorderBuffer, entry.1 = p.sequence ∧
        (s i).channel.chunks[p.handle]? = some entry.2 := by
  intro p hp hacked
  have hpair := pair_of_reach hr i
  rcases (vouched_of_reach hr i).1.marked p hp hacked with hmoved | ⟨hnear, entry, hentry, hkey⟩
  · exact .inl hmoved
  · rcases Nat.lt_or_ge p.handle (s !i).channel.moved with hlt | hge
    · exact .inl hlt
    · -- the entry is that of the packet, not of one a whole turn away
      right
      have hconveyed := hpair.sends.conveyed
      obtain ⟨handle, hkey', hle, hpayload⟩ := hconveyed.reorder entry hentry
      have hlt := (List.getElem?_eq_some_iff.mp hpayload).1
      have hwindow := hconveyed.window
      have hkept := hconveyed.acked
      simp only [UdpTuning.maxCwnd] at hwindow
      change (s !i).channel.moved ≤ handle at hle
      change p.handle < (s !i).channel.moved + 2 ^ 31 at hnear
      change (s i).channel.outbox.chunks.length ≤ (s !i).channel.moved + (s i).channel.outbox.kept at hkept
      have hsame : handle = p.handle := by
        refine ofNat_inj ?_ ?_ (hkey'.symm.trans hkey)
        · omega
        · omega
      refine ⟨entry, hentry, ?_, hsame ▸ hpayload⟩
      rw [hkey, (hpair.ledger.backed.built p hp).sequence]

/-- The second of two packets arrives, and its sender hears of it. -/
theorem marked_received_second : ∃ s, Reach Started Duplex.SparingStep s ∧
    ∃ p ∈ (s false).channel.unacknowledged, p.handle = 1 ∧ p.acknowledged = true ∧
      (p.handle < (s true).channel.moved ∨ ∃ entry ∈ (s true).channel.reorderBuffer,
        entry.1 = p.sequence ∧ (s false).channel.chunks[p.handle]? = some entry.2) := by
  obtain ⟨s, hs, p, hp, hhandle, hacked⟩ : ∃ s ∈ runFrom goodNext start
      (events false (oneByteWrite 7 ++ oneByteWrite 8) ++
        events true ([.read 1] ++ pumpHearing [onePacket 1 8] ++ [.ack {} {} {}]) ++
        events false ([.flush, loops] ++ pumpHearing [ackBytes 0 1])),
      ∃ p ∈ (s false).channel.unacknowledged, p.handle = 1 ∧ p.acknowledged = true := by
    decide +kernel
  have hr := reach_sparing start_started hs
  exact ⟨s, hr, p, hp, hhandle, hacked, marked_received hr false p hp hacked⟩

/-- What is sent in place of a packet that was freed may be taken for a report: a packet is marked that
never arrived. -/
theorem stale_bitmap_believed : ∃ s, Reach Started Step s ∧
    ∃ p ∈ (s false).channel.unacknowledged, p.handle = 1 ∧ p.acknowledged = true ∧
      (s true).channel.moved = 0 ∧ (s true).channel.reorderBuffer = [] := by
  obtain ⟨s, hs, hmarked⟩ : ∃ s ∈ runFrom Duplex.next start
      (events false (oneByteWrite 7 ++ oneByteWrite 8) ++ fourBytes true ++
        staleFlush true (ackBytes 0 1) ++ events false ([.flush, loops] ++ pumpHearing [ackBytes 0 1])),
      ∃ p ∈ (s false).channel.unacknowledged, p.handle = 1 ∧ p.acknowledged = true ∧
        (s true).channel.moved = 0 ∧ (s true).channel.reorderBuffer = [] := by
    decide +kernel
  exact ⟨s, .of_runFrom (.init start_started) hs, hmarked⟩

/-- In every run whose steps spare the queue, what is in a reorder buffer is in the window of the sender, so
that `process_packet` never finds the buffer full. -/
theorem reorder_buffer_fits {s : Duplex} (hr : Reach Started Duplex.SparingStep s) (i : Bool) :
    (s i).channel.unacknowledged.length ≤ UdpTuning.maxCwnd ∧
    (∀ entry ∈ (s !i).channel.reorderBuffer, ∃ p ∈ (s i).channel.unacknowledged, p.sequence = entry.1) ∧
    ∀ ack bits now k, (final (processAck ack bits now k) (s !i).channel).reorderBuffer.length <
      kMaxReorderPackets := by
  have hpair := pair_of_reach hr i
  have hbacked := hpair.ledger.backed
  have hinside : ∀ entry ∈ (s !i).channel.reorderBuffer,
      ∃ p ∈ (s i).channel.unacknowledged, p.sequence = entry.1 := by
    intro entry hentry
    have hconveyed := hpair.sends.conveyed
    obtain ⟨handle, hkey, hle, hpayload⟩ := hconveyed.reorder entry hentry
    have hlt : handle < (s i).channel.chunks.length := (List.getElem?_eq_some_iff.mp hpayload).1
    have hkept : (s i).channel.chunks.length ≤
        (s !i).channel.inbox.moved + (s i).channel.unacknowledged.length := hconveyed.acked
    -- the packets that are kept are the last ones
    have hindex : handle + (s i).channel.unacknowledged.length - (s i).channel.chunks.length <
        (s i).channel.unacknowledged.length := by omega
    have hget := List.getElem?_eq_getElem hindex
    refine ⟨_, List.mem_of_getElem? hget, ?_⟩
    have hordered := hbacked.ordered _ _ hget
    rw [hkey, (hbacked.built _ (List.mem_of_getElem? hget)).sequence]
    congr 1
    omega
  refine ⟨hbacked.window, hinside, fun ack bits now k => ?_⟩
  have hsame : (final (processAck ack bits now k) (s !i).channel).reorderBuffer =
      (s !i).channel.reorderBuffer :=
    congrArg Intake.reorder (still_processAck ack bits now k (s !i).channel).1
  have hsub : (s !i).channel.reorderBuffer.map Prod.fst ⊆
      (s i).channel.unacknowledged.map SentPacket.sequence := by
    intro key hkey
    obtain ⟨entry, hentry, rfl⟩ := List.mem_map.mp hkey
    obtain ⟨p, hp, hsequence⟩ := hinside entry hentry
    exact List.mem_map.mpr ⟨p, hp, hsequence⟩
  have hle := ((vouched_of_reach hr !i).2.subperm hsub).length_le
  have hwindow := hbacked.window
  rw [List.length_map, List.length_map] at hle
  rw [hsame]
  simp only [UdpTuning.maxCwnd] at hwindow
  simp only [kMaxReorderPackets]
  omega

/-- The second of two packets waits for the first. -/
theorem reorder_buffer_fits_second : ∃ s, Reach Started Duplex.SparingStep s ∧
    (s true).channel.reorderBuffer = [(1, [8])] ∧
      ∃ p ∈ (s false).channel.unacknowledged, p.sequence = 1 := by
  obtain ⟨s, hs, hreorder⟩ : ∃ s ∈ runFrom goodNext start
      (events false (oneByteWrite 7 ++ oneByteWrite 8) ++
        events true ([.read 1] ++ pumpHearing [onePacket 1 8])),
      (s true).channel.reorderBuffer = [(1, [8])] := by
    decide +kernel
  have hr := reach_sparing start_started hs
  refine ⟨s, hr, hreorder, (reorder_buffer_fits hr false).2.1 (1, [8]) ?_⟩
  change (1, [8]) ∈ (s true).channel.reorderBuffer
  rw [hreorder]
  exact List.mem_cons_self

/-! ## An overflow -/

namespace Overflow

/-- An acknowledgement of packets that were never built. -/
def forgedAck : Bytes := ackBytes 20000 0

/-- An end that has written one byte after another. -/
def poured (chunks : List Bytes) (written : Bytes) (wire : List Datagram) : UdpEnd where
  channel := {
    peer := .unspecified
    nextSequence := UInt32.ofNat chunks.length
    rtoUs := 5000
    receiveNext := 4
    chunks := chunks
    moved := 4
    wire := wire }
  written := written
  returned := [1, 2, 3, 4]
  taken := [1, 2, 3, 4]

/-- The other end, which is receiving. -/
def flooded (reorder : List (UInt32 × Bytes)) (wire : List Datagram) : UdpEnd where
  channel := {
    peer := .unspecified
    nextSequence := 4
    srttUs := 1
    rtoUs := 5000
    reorderBuffer := reorder
    ackPending := true
    chunks := [[1], [2], [3], [4]]
    wire := wire }
  call := .reading 1 []
  stage := some .receive
  written := [1, 2, 3, 4]

def packetBytes (handle : Nat) : Bytes := writeHeader (dataHeader handle 4 1) ++ [7]

def pourTo : List UdpEvent :=
  [.write [7], loops, .retransmit 0 {}, .packet 0 {}, .filled, .sendBatch {}]

def pourFrom : List UdpEvent := [.received, .deliver, loops]

def hears (data : Bytes) : UdpEvent := .datagram 0 .unspecified data {} {} {}

/-- In the call that sends a packet. -/
def pouring (chunks : List Bytes) (written : Bytes) (wire : List Datagram) (kept : List SentPacket)
    (batch : List PendingSend) (stage : PumpStage) : UdpEnd where
  channel := {
    peer := .unspecified
    outgoing := [7]
    outgoingConsumed := 1
    unacknowledged := kept
    nextSequence := UInt32.ofNat chunks.length + 1
    rtoUs := 5000
    receiveNext := 4
    sendBatch := batch
    chunks := chunks ++ [[7]]
    moved := 4
    wire := wire }
  call := .writing
  stage := some stage
  written := written ++ [7]
  returned := [1, 2, 3, 4]
  taken := [1, 2, 3, 4]

def kept (handle : Nat) : SentPacket where
  handle := handle
  sequence := UInt32.ofNat handle
  datagram := packetBytes handle
  sentUs := 0
  acked := 4

theorem next_sendBatch {e : UdpEnd} {c : ReliableUdpChannel} {k : Flush} (hstage : e.stage = some .flush)
    (hrun : (flushSendBatch k).run e.channel = .ok () c) :
    e.next (.sendBatch k) = some { e with channel := c, stage := some .receive } := by
  rw [UdpEnd.next, if_pos hstage, act, hrun]

theorem next_hears {e : UdpEnd} {c : ReliableUdpChannel} {data : Bytes} (hstage : e.stage = some .receive)
    (hrun : (processPacket data 0 {} {} {}).run e.channel = .ok () c) :
    e.next (hears data) = some { e with channel := c, stage := some .receive } := by
  rw [hears, UdpEnd.next, if_pos hstage, act, hrun]

section Runs

variable {c : ReliableUdpChannel} {p : SentPacket} {ack : UInt32} {bits now : UInt64} {k k' k'' : Flush}

theorem run_flushSendBatch_one (hbatch : c.sendBatch = [.packet p.handle]) (hkept : c.unacknowledged = [p]) :
    (flushSendBatch {}).run c = .ok () { c with
      sendBatch := []
      controlUsed := 0
      wire := c.wire ++ [⟨p.datagram, some p.handle, p.acked⟩] } := by
  have hloop : sendLoop c.sendBatch.length [] 0 0 = (1, none) := by
    rw [hbatch]
    rfl
  rw [run_flushSendBatch (by rw [hbatch]; exact List.cons_ne_nil _ _)]
  dsimp only
  rw [hloop]
  simp [handedOver, keepRest, hbatch, datagramOf, hkept]

/-- The only packet is popped, and its round trip took no time. -/
theorem acknowledge_one (hkept : c.unacknowledged = [p]) (hcovered : covered ack p = true)
    (honce : p.transmissions = 1) (hsent : p.sentUs = 0) (hsrtt : c.srttUs = 0) :
    c.acknowledge ack bits 0 = { c with
      unacknowledged := []
      consecutiveTimeouts := 0
      srttUs := 0
      rttvarUs := 0
      rtoUs := 5000 } := by
  have hrto : max UdpTuning.minRtoUs (min UdpTuning.maxRtoUs (0 + 4 * (0 / 2))) = 5000 := by decide
  simp only [acknowledge, hkept, List.takeWhile_cons_of_pos hcovered, List.dropWhile_cons_of_pos hcovered,
    List.takeWhile_nil, List.dropWhile_nil, List.foldl_cons, List.foldl_nil, honce, if_true, updateRtt, hsent,
    hsrtt, UInt64.sub_self, hrto]
  rfl

theorem run_processAck_nil (h : (c.acknowledge ack bits now).unacknowledged = []) :
    (processAck ack bits now k).run c = .ok () (c.acknowledge ack bits now) := by
  unfold processAck
  rw [run_bind, EStateM.run_modify]
  dsimp only
  rw [run_bind, EStateM.run_get]
  dsimp only
  rw [h]
  rfl

end Runs

variable (chunks : List Bytes) (written : Bytes) (wire : List Datagram)

/-- What is given to the kernel. -/
def pouredPacket : Datagram := ⟨packetBytes chunks.length, some chunks.length, 4⟩

theorem run_pourTo : runFrom UdpEnd.next (poured chunks written wire) pourTo =
    some (pouring chunks written (wire ++ [pouredPacket chunks]) [kept chunks.length] [] .receive) := by
  -- all but the last event compute
  change runFrom UdpEnd.next
    (pouring chunks written wire [kept chunks.length] [.packet chunks.length] .flush) [.sendBatch {}] = _
  rw [runFrom, next_sendBatch rfl (run_flushSendBatch_one (p := kept chunks.length) rfl rfl)]
  rfl

theorem parse_forgedAck : parseHeader forgedAck = some (controlHeader .ack 20000 0) :=
  parse_controlHeader (by simp [UdpPacketType.Named]) _ _

theorem next_forgedAck (hlt : chunks.length < 20000) :
    (pouring chunks written wire [kept chunks.length] [] .receive).next (hears forgedAck) =
      some (pouring chunks written wire [] [] .receive) := by
  have hcovered : covered (UInt32.ofNat 20000) (kept chunks.length) = true := by
    rw [covered, kept, serialDiff_ofNat (by omega) (by omega)]
    exact decide_eq_true (by omega)
  have hacked : (pouring chunks written wire [kept chunks.length] [] .receive).channel.acknowledge
      (UInt32.ofNat 20000) 0 0 = (pouring chunks written wire [] [] .receive).channel := by
    rw [acknowledge_one rfl hcovered rfl rfl rfl]
    rfl
  refine next_hears rfl ?_
  rw [processPacket_eq parse_forgedAck, run_bind]
  dsimp only [controlHeader]
  rw [run_processAck_nil (by rw [hacked]; rfl), hacked]
  rfl

theorem run_pourFrom : runFrom UdpEnd.next (pouring chunks written wire [] [] .receive) pourFrom =
    some (poured (chunks ++ [[7]]) (written ++ [7]) wire) := by
  have hnext : UInt32.ofNat (chunks ++ [[(7 : UInt8)]]).length = UInt32.ofNat chunks.length + 1 := by
    rw [List.length_append]
    exact UInt32.ofNat_add _ _
  rw [poured, hnext]
  rfl

theorem parse_packetBytes (handle : Nat) :
    parseHeader (packetBytes handle) = some (dataHeader handle 4 1) := by
  have hlength : (dataHeader handle 4 1).length.toNat = 1 := rfl
  refine parseHeader_write ?_ ?_ ?_
  · intro code hcode
    cases hcode
  · rw [hlength]
    decide
  · rw [hlength]
    decide

theorem run_packetBytes (reorder : List (UInt32 × Bytes)) (handle : Nat) :
    (processPacket (packetBytes handle) 0 {} {} {}).run (flooded reorder wire).channel =
      (takeData (dataHeader handle 4 1) [7]).run (flooded reorder wire).channel := by
  rw [processPacket_eq (parse_packetBytes handle), run_bind]
  dsimp only [dataHeader]
  rw [run_processAck_nil rfl]
  rfl

/-- What is in the reorder buffer: the packets from the second to the one with the number `n`. -/
def waiting (n : Nat) : List (UInt32 × Bytes) := (List.range n).map fun i => (UInt32.ofNat (i + 1), [7])

theorem later (reorder : List (UInt32 × Bytes)) {handle : Nat} (hlt : handle < 20000) :
    ¬ serialDiff (dataHeader handle 4 1).sequence (flooded reorder wire).channel.receiveNext < 0 := by
  have hdiff := serialDiff_ofNat (a := handle) (b := 0) (by omega) (by omega)
  change ¬ serialDiff (UInt32.ofNat handle) (UInt32.ofNat 0) < 0
  omega

theorem next_flooded {n : Nat} (hn : n < kMaxReorderPackets) :
    (flooded (waiting n) wire).next (hears (packetBytes (n + 1))) = some (flooded (waiting (n + 1)) wire) := by
  simp only [kMaxReorderPackets] at hn
  have hroom : ¬ (flooded (waiting n) wire).channel.reorderBuffer.length ≥ kMaxReorderPackets := by
    simp [flooded, waiting, kMaxReorderPackets]
    omega
  have hnew : (flooded (waiting n) wire).channel.reorderBuffer.any
      (·.1 == (dataHeader (n + 1) 4 1).sequence) = false := by
    rw [List.any_eq_false]
    intro entry hentry heq
    obtain ⟨i, hi, rfl⟩ := List.mem_map.mp hentry
    have hi := List.mem_range.mp hi
    have hsame := ofNat_inj (by omega) (by omega) (eq_of_beq heq)
    omega
  have hmore : waiting (n + 1) = waiting n ++ [(UInt32.ofNat (n + 1), [7])] := by
    rw [waiting, List.range_succ, List.map_append]
    rfl
  refine next_hears rfl ?_
  rw [run_packetBytes, takeData, run_bind, EStateM.run_get]
  dsimp only
  rw [if_neg (later wire _ (by omega)), if_neg hroom, hnew, hmore]
  rfl

theorem next_overflow {n : Nat} (hfull : kMaxReorderPackets ≤ n) (hlt : n + 1 < 20000) :
    ∃ e', (flooded (waiting n) wire).next (hears (packetBytes (n + 1))) = some e' ∧
      e'.threw = some (.error
        (text "the peer sent more out-of-order data than the reorder buffer allows")) := by
  have hlength : (flooded (waiting n) wire).channel.reorderBuffer.length ≥ kMaxReorderPackets := by
    change kMaxReorderPackets ≤ (waiting n).length
    rw [waiting, List.length_map, List.length_range]
    exact hfull
  have hrun : (processPacket (packetBytes (n + 1)) 0 {} {} {}).run (flooded (waiting n) wire).channel =
      .error (.failure (.error
        (text "the peer sent more out-of-order data than the reorder buffer allows")))
          (flooded (waiting n) wire).channel := by
    rw [run_packetBytes, takeData, run_bind, EStateM.run_get]
    dsimp only
    rw [if_neg (later wire _ hlt), if_pos hlength]
    rfl
  have hstage : (flooded (waiting n) wire).stage = some .receive := rfl
  rw [hears, UdpEnd.next, if_pos hstage, act, hrun]
  exact ⟨_, rfl, rfl⟩

/-- Two ends. -/
def ends (a b : UdpEnd) : Duplex := fun i => bif i then b else a

variable {a a' b b' : UdpEnd}

theorem reach_left {event : UdpEvent} (hr : Reach Started Step (ends a b)) (harrives : Arrives b a event)
    (hs : a.next event = some a') : Reach Started Step (ends a' b) := by
  refine hr.step (e := (false, event)) ?_
  have hupdate : Function.update (ends a b) false a' = ends a' b := by
    funext i
    cases i <;> rfl
  change (if Arrives b a event then (a.next event).map (Function.update (ends a b) false) else none) = _
  rw [if_pos harrives, hs, ← hupdate]
  rfl

theorem reach_right {event : UdpEvent} (hr : Reach Started Step (ends a b)) (harrives : Arrives a b event)
    (hs : b.next event = some b') : Reach Started Step (ends a b') := by
  refine hr.step (e := (true, event)) ?_
  have hupdate : Function.update (ends a b) true b' = ends a b' := by
    funext i
    cases i <;> rfl
  change (if Arrives a b event then (b.next event).map (Function.update (ends a b) true) else none) = _
  rw [if_pos harrives, hs, ← hupdate]
  rfl

/-- Events that bring nothing from the other end. -/
theorem reach_leftRun {events : List UdpEvent} (hr : Reach Started Step (ends a b))
    (hquiet : ∀ event ∈ events, ∀ e, Arrives b e event) (hs : runFrom UdpEnd.next a events = some a') :
    Reach Started Step (ends a' b) := by
  induction events generalizing a with
  | nil =>
    cases hs
    exact hr
  | cons event events ih =>
    rw [runFrom] at hs
    cases hnext : a.next event with
    | none =>
      rw [hnext] at hs
      cases hs
    | some a₁ =>
      rw [hnext] at hs
      exact ih (reach_left hr (hquiet event List.mem_cons_self a) hnext)
        (fun event' h => hquiet event' (List.mem_cons_of_mem _ h)) hs

/-- The forged acknowledgement is on the wire. -/
def forged : Datagram := ⟨forgedAck, none, 0⟩

/-- One more packet is sent, forgotten at once, and received. -/
theorem reach_pour {chunks : List Bytes} {written : Bytes} {wire : List Datagram}
    (hr : Reach Started Step (ends (poured chunks written wire) b)) (hforged : forged ∈ b.channel.wire)
    (hlt : chunks.length < 20000) :
    Reach Started Step (ends (poured (chunks ++ [[7]]) (written ++ [7]) (wire ++ [pouredPacket chunks])) b) := by
  have hto := reach_leftRun hr (fun event h e => by
    simp only [pourTo, List.mem_cons, List.not_mem_nil, or_false] at h
    rcases h with rfl | rfl | rfl | rfl | rfl | rfl <;> trivial) (run_pourTo chunks written wire)
  have hyoung : Young b (pouring chunks written (wire ++ [pouredPacket chunks]) [kept chunks.length] []
      .receive) forged := by
    refine ⟨fun handle hh => ?_, ?_⟩
    · cases hh
    change (chunks ++ [[7]]).length ≤ 0 + 2 ^ 31
    rw [List.length_append, List.length_singleton]
    omega
  have harrives : Arrives b (pouring chunks written (wire ++ [pouredPacket chunks]) [kept chunks.length] []
      .receive) (hears forgedAck) := ⟨forged, hforged, rfl, hyoung⟩
  have hpopped := reach_left hto harrives (next_forgedAck chunks written _ hlt)
  exact reach_leftRun hpopped (fun event h e => by
    simp only [pourFrom, List.mem_cons, List.not_mem_nil, or_false] at h
    rcases h with rfl | rfl | rfl <;> trivial) (run_pourFrom chunks written _)

theorem arrives_poured {chunks : List Bytes} {written : Bytes} {wire : List Datagram} {n : Nat}
    (hlength : chunks.length = n) (hlt : n < 20000) (reorder : List (UInt32 × Bytes)) (wire' : List Datagram) :
    Arrives (poured (chunks ++ [[7]]) (written ++ [7]) (wire ++ [pouredPacket chunks])) (flooded reorder wire')
      (hears (packetBytes n)) := by
  subst hlength
  refine ⟨pouredPacket chunks, List.mem_append_right _ List.mem_cons_self, rfl, fun handle hh => ?_, ?_⟩
  · cases hh
    change (chunks ++ [[7]]).length ≤ chunks.length + 2 ^ 31
    rw [List.length_append, List.length_singleton]
    omega
  · change 4 ≤ 4 + 2 ^ 31
    omega

/-- The run up to the first packet in the reorder buffer. -/
def opening : List (Bool × UdpEvent) :=
  fourBytes true ++ staleFlush true forgedAck ++
    events true [.read 1, .retransmit 0 {}, .filled, .sendBatch {}] ++
    events false (pourTo ++ [hears forgedAck] ++ pourFrom) ++
    events false (pourTo ++ [hears forgedAck] ++ pourFrom) ++ events true [hears (packetBytes 1)]

def unwired (e : UdpEnd) : UdpEnd := { e with channel := { e.channel with wire := [] } }

def rewired (e : UdpEnd) (wire : List Datagram) : UdpEnd := { e with channel := { e.channel with wire := wire } }

theorem reach_opening : ∃ wire wire', forged ∈ wire' ∧
    Reach Started Step (ends (poured [[7], [7]] [7, 7] wire) (flooded (waiting 1) wire')) := by
  obtain ⟨s, hs, hleft, hright, hforged⟩ : ∃ s ∈ runFrom Duplex.next start opening,
      unwired (s false) = poured [[7], [7]] [7, 7] [] ∧ unwired (s true) = flooded (waiting 1) [] ∧
        forged ∈ (s true).channel.wire := by
    decide +kernel
  refine ⟨(s false).channel.wire, (s true).channel.wire, hforged, ?_⟩
  have hsame : ends (poured [[7], [7]] [7, 7] (s false).channel.wire)
      (flooded (waiting 1) (s true).channel.wire) = s := by
    funext i
    cases i with
    | false => exact (congrArg (rewired · (s false).channel.wire) hleft).symm
    | true => exact (congrArg (rewired · (s true).channel.wire) hright).symm
  rw [hsame]
  exact .of_runFrom (.init start_started) hs

theorem reach_waiting (n : Nat) (hn : n < kMaxReorderPackets) : ∃ chunks written wire wire',
    chunks.length = n + 2 ∧ forged ∈ wire' ∧
      Reach Started Step (ends (poured chunks written wire) (flooded (waiting (n + 1)) wire')) := by
  induction n with
  | zero =>
    obtain ⟨wire, wire', hforged, hr⟩ := reach_opening
    exact ⟨[[7], [7]], [7, 7], wire, wire', rfl, hforged, hr⟩
  | succ n ih =>
    obtain ⟨chunks, written, wire, wire', hlength, hforged, hr⟩ := ih (Nat.lt_of_succ_lt hn)
    simp only [kMaxReorderPackets] at hn
    have hpoured := reach_pour hr hforged (by omega)
    have hmore : (chunks ++ [[(7 : UInt8)]]).length = n + 1 + 2 := by
      rw [List.length_append, hlength]
      rfl
    have hroom : n + 1 < kMaxReorderPackets := hn
    exact ⟨chunks ++ [[7]], written ++ [7], wire ++ [pouredPacket chunks], wire', hmore, hforged,
      reach_right hpoured (arrives_poured hlength (by omega) _ wire') (next_flooded wire' hroom)⟩

end Overflow

/-- What is sent in place of a packet that was freed may be taken for an acknowledgement, any number of
times: the window is open while a packet is missing, and the reorder buffer overflows. -/
theorem reorder_buffer_overflows : ∃ s e' event, Reach Started Step s ∧ (s true).threw = none ∧
    (s true).Step event e' ∧ Arrives (s false) (s true) event ∧
    (s true).channel.reorderBuffer.length = kMaxReorderPackets ∧ e'.threw = some (.error
      (text "the peer sent more out-of-order data than the reorder buffer allows")) := by
  obtain ⟨n, hn⟩ : ∃ n, n + 1 = kMaxReorderPackets := ⟨16383, rfl⟩
  have hsmall : n + 1 = 16384 := hn
  obtain ⟨chunks, written, wire, wire', hlength, hforged, hr⟩ := Overflow.reach_waiting n (by omega)
  have hpoured := Overflow.reach_pour hr hforged (by omega)
  obtain ⟨e', hnext, hthrew⟩ := Overflow.next_overflow wire' (Nat.le_of_eq hn.symm) (by omega)
  refine ⟨_, e', Overflow.hears (Overflow.packetBytes (n + 1 + 1)), hpoured, rfl, hnext,
    Overflow.arrives_poured hlength (by omega) _ wire', ?_, hthrew⟩
  change (Overflow.waiting (n + 1)).length = _
  rw [Overflow.waiting, List.length_map, List.length_range, hn]

end DropZone
