import DropZone.Udp.Changes

/-!
# What stands behind a queued datagram

`send_batch_` holds views of packets in `unacknowledged_`. An acknowledgement pops packets whether or
not they are queued.

* `ReliableUdpChannel.Backed`: every queued packet is still there, and all that was given to the kernel
  are packets that were built and headers.
* `UdpEvent.Spares`: a datagram acknowledges no packet that is queued.
* `queued_sends_backed`: where all datagrams spare the queue, every view is of a packet that is kept.
  `view_dangles`: a fast retransmission and an acknowledgement in one batch.
-/

namespace DropZone

open LittleEndian StateSpec System

/-- The header of a data packet, from a channel that has delivered `acked` packets. -/
def dataHeader (handle acked length : Nat) : UdpHeader where
  type := .data
  sequence := UInt32.ofNat handle
  ack := UInt32.ofNat acked
  ackBits := 0
  length := UInt16.ofNat length

/-- A header without a payload. -/
def controlHeader (type : UdpPacketType) (acked : Nat) (bits : UInt64) : UdpHeader where
  type := type
  sequence := 0
  ack := UInt32.ofNat acked
  ackBits := bits
  length := 0

namespace ReliableUdpChannel

/-! ## The invariant -/

section Datagrams

variable (chunks : List Bytes) (moved : Nat)

/-- A packet holds the bytes it was built with, behind a header. -/
structure Built (p : SentPacket) : Prop where
  sequence : p.sequence = UInt32.ofNat p.handle
  acked : p.acked ≤ moved
  datagram : ∃ payload, chunks[p.handle]? = some payload ∧
    p.datagram = writeHeader (dataHeader p.handle p.acked payload.length) ++ payload

/-- A header that the channel sent on its own. `F` says that it may have sent `Fin`. -/
structure Control (F : Prop) (d : Datagram) : Prop where
  packet : d.packet = none
  acked : d.acked ≤ moved
  bytes : ∃ type bits, (type = .ack ∨ type = .finAck ∨ type = .fin ∧ F) ∧
    d.bytes = writeHeader (controlHeader type d.acked bits)

/-- A copy of a packet that was built. -/
structure Copy (d : Datagram) : Prop where
  acked : d.acked ≤ moved
  bytes : ∃ handle payload, d.packet = some handle ∧ chunks[handle]? = some payload ∧
    d.bytes = writeHeader (dataHeader handle d.acked payload.length) ++ payload

/-- A datagram that the channel meant to send. -/
def Genuine (F : Prop) (d : Datagram) : Prop := Copy chunks moved d ∨ Control moved F d

/-- What an entry of `send_batch_` points at is there. -/
def Queued (F : Prop) (unacknowledged : List SentPacket) : PendingSend → Prop
  | .packet handle => ∃ p ∈ unacknowledged, p.handle = handle
  | .control d => Control moved F d

end Datagrams

structure Backed (F : Prop) (c : ReliableUdpChannel) : Prop where
  next : c.nextSequence = UInt32.ofNat c.chunks.length
  received : c.receiveNext = UInt32.ofNat c.moved
  small : ∀ payload ∈ c.chunks, payload.length ≤ kUdpMaxPayload
  window : c.unacknowledged.length ≤ UdpTuning.maxCwnd
  kept : c.unacknowledged.length ≤ c.chunks.length
  /-- The packets are the last ones that were built, in order. -/
  ordered : ∀ i p, c.unacknowledged[i]? = some p →
    p.handle + c.unacknowledged.length = c.chunks.length + i
  built : ∀ p ∈ c.unacknowledged, Built c.chunks c.moved p
  queued : ∀ entry ∈ c.sendBatch, Queued c.moved F c.unacknowledged entry
  genuine : ∀ d ∈ c.wire, Genuine c.chunks c.moved F d

variable {F : Prop} {c c' : ReliableUdpChannel} {k k' : Flush} {entry : PendingSend}

/-- A step that leaves these members alone keeps `Backed`. -/
theorem Backed.of_core (h : c.Backed F)
    (hcore : (c'.nextSequence, c'.receiveNext, c'.chunks, c'.moved, c'.unacknowledged, c'.sendBatch, c'.wire) =
      (c.nextSequence, c.receiveNext, c.chunks, c.moved, c.unacknowledged, c.sendBatch, c.wire)) :
    c'.Backed F := by
  simp only [Prod.mk.injEq] at hcore
  obtain ⟨hnext, hreceived, hchunks, hmoved, hunacknowledged, hbatch, hwire⟩ := hcore
  constructor <;> simp only [hnext, hreceived, hchunks, hmoved, hunacknowledged, hbatch, hwire]
  · exact h.next
  · exact h.received
  · exact h.small
  · exact h.window
  · exact h.kept
  · exact h.ordered
  · exact h.built
  · exact h.queued
  · exact h.genuine

/-! ## What was built stays built -/

section Mono

variable {chunks chunks' : List Bytes} {moved moved' : Nat} {F' : Prop}

theorem getElem?_of_extends {α : Type} {l l' : List α} {i : Nat} {a : α} (h : l <+: l')
    (hi : l[i]? = some a) : l'[i]? = some a := by
  obtain ⟨more, rfl⟩ := h
  rw [List.getElem?_append_left (List.getElem?_eq_some_iff.mp hi).1, hi]

theorem Built.mono {p : SentPacket} (h : Built chunks moved p) (hchunks : chunks <+: chunks')
    (hmoved : moved ≤ moved') : Built chunks' moved' p := by
  obtain ⟨payload, hpayload, hdatagram⟩ := h.datagram
  exact ⟨h.sequence, h.acked.trans hmoved, payload, getElem?_of_extends hchunks hpayload, hdatagram⟩

theorem Control.mono {d : Datagram} (h : Control moved F d) (hF : F → F') (hmoved : moved ≤ moved') :
    Control moved' F' d := by
  obtain ⟨type, bits, htype, hbytes⟩ := h.bytes
  refine ⟨h.packet, h.acked.trans hmoved, type, bits, ?_, hbytes⟩
  rcases htype with htype | htype | ⟨htype, hf⟩
  · exact .inl htype
  · exact .inr (.inl htype)
  · exact .inr (.inr ⟨htype, hF hf⟩)

theorem Genuine.mono {d : Datagram} (h : Genuine chunks moved F d) (hF : F → F')
    (hchunks : chunks <+: chunks') (hmoved : moved ≤ moved') : Genuine chunks' moved' F' d := by
  rcases h with h | h
  · obtain ⟨handle, payload, hpacket, hpayload, hbytes⟩ := h.bytes
    exact .inl ⟨h.acked.trans hmoved, handle, payload, hpacket, getElem?_of_extends hchunks hpayload,
      hbytes⟩
  · exact .inr (h.mono hF hmoved)

end Mono

theorem Built.resent {p : SentPacket} (h : Built c.chunks c.moved p)
    (hreceived : c.receiveNext = UInt32.ofNat c.moved) (now : UInt64) :
    Built c.chunks c.moved (c.resent now p) := by
  obtain ⟨payload, hpayload, hdatagram⟩ := h.datagram
  refine ⟨h.sequence, Nat.le_refl _, payload, hpayload, ?_⟩
  have hlength : p.datagram.length - kUdpHeaderSize = payload.length := by
    rw [hdatagram, List.length_append, length_writeHeader]
    omega
  have hrest : p.datagram.drop kUdpHeaderSize = payload := by
    rw [hdatagram, List.drop_left' (length_writeHeader _)]
  simp only [ReliableUdpChannel.resent, refreshed, hlength, hrest, hreceived, h.sequence, dataHeader]

/-- What the kernel is given for a packet that is kept. -/
theorem Backed.copy_datagramOf (h : c.Backed F) {handle : Nat}
    (hq : Queued c.moved F c.unacknowledged (.packet handle)) :
    Copy c.chunks c.moved (c.datagramOf k (.packet handle)) := by
  obtain ⟨p, hp, hhandle⟩ := hq
  cases hfind : c.unacknowledged.find? (·.handle == handle) with
  | none => exact absurd (by simpa using hhandle) (List.find?_eq_none.mp hfind p hp)
  | some q =>
    have hbuilt := h.built q (List.mem_of_find?_eq_some hfind)
    have hsame : q.handle = handle := by simpa using List.find?_some hfind
    obtain ⟨payload, hpayload, hdatagram⟩ := hbuilt.datagram
    rw [hsame] at hpayload hdatagram
    simp only [datagramOf, hfind]
    exact ⟨hbuilt.acked, handle, payload, rfl, hpayload, hdatagram⟩

/-- What the kernel is given for an entry that points at something. -/
theorem Backed.genuine_datagramOf (h : c.Backed F)
    (hq : Queued c.moved F c.unacknowledged entry) :
    Genuine c.chunks c.moved F (c.datagramOf k entry) := by
  cases entry with
  | control d => exact .inr hq
  | packet handle => exact .inl (h.copy_datagramOf hq)

/-! ## One change -/

theorem Backed.handedOver (h : c.Backed F) (k : Flush) (n : Nat) : (c.handedOver k n).Backed F := by
  refine { h with genuine := fun d hd => ?_ }
  rcases List.mem_append.mp hd with hd | hd
  · exact h.genuine d hd
  · obtain ⟨entry, hentry, rfl⟩ := List.mem_map.mp hd
    exact h.genuine_datagramOf (h.queued entry (List.mem_of_mem_take hentry))

theorem Backed.keepRest (h : c.Backed F) (n : Nat) : (c.keepRest n).Backed F :=
  { h with queued := fun entry hentry => h.queued entry (List.mem_of_mem_drop hentry) }

theorem Backed.queue (h : c.Backed F)
    (hq : Queued c.moved F c.unacknowledged entry) :
    Backed F { c with sendBatch := c.sendBatch ++ [entry] } := by
  refine { h with queued := fun e he => ?_ }
  rcases List.mem_append.mp he with he | he
  · exact h.queued e he
  · rw [List.mem_singleton.mp he]
    exact hq

/-- The headers that the channel sends on its own. -/
theorem Backed.control (h : c.Backed F) {type : UdpPacketType} (bits : UInt64)
    (htype : type = .ack ∨ type = .finAck ∨ type = .fin ∧ F) :
    Control c.moved F (c.controlDatagram type bits) := by
  refine ⟨rfl, Nat.le_refl _, type, bits, htype, ?_⟩
  simp only [controlDatagram, controlHeader, h.received]

/-! ## Packets -/

theorem Backed.filled (h : c.Backed F) (hroom : c.unacknowledged.length < UdpTuning.maxCwnd)
    (now : UInt64) : (c.filled now).Backed F := by
  have hmore : c.chunks <+: (c.filled now).chunks := List.prefix_append _ _
  have hlength : (c.filled now).unacknowledged.length = c.unacknowledged.length + 1 :=
    List.length_append
  have hchunks : (c.filled now).chunks.length = c.chunks.length + 1 := List.length_append
  refine ⟨?_, h.received, ?_, ?_, ?_, ?_, ?_, ?_, ?_⟩
  · change c.nextSequence + 1 = UInt32.ofNat (c.filled now).chunks.length
    rw [h.next, hchunks]
    exact (UInt32.ofNat_add _ _).symm
  · intro payload hp
    rcases List.mem_append.mp hp with hp | hp
    · exact h.small payload hp
    · rw [List.mem_singleton.mp hp]
      exact List.length_take_le _ _
  · rw [hlength]
    exact hroom
  · rw [hlength, hchunks]
    exact Nat.succ_le_succ h.kept
  · intro i p hp
    rw [hlength, hchunks]
    rcases Nat.lt_or_ge i c.unacknowledged.length with hi | hi
    · have hold := h.ordered i p ((List.getElem?_append_left hi).symm.trans hp)
      omega
    · have hlast : (c.filled now).unacknowledged[i]? = [c.nextPacket now][i - c.unacknowledged.length]? :=
        List.getElem?_append_right hi
      rw [hlast] at hp
      obtain ⟨hindex, rfl⟩ := List.getElem?_eq_some_iff.mp hp
      simp only [List.length_singleton, Nat.lt_one_iff] at hindex
      simp only [hindex, List.getElem_cons_zero, nextPacket]
      omega
  · intro p hp
    rcases List.mem_append.mp hp with hp | hp
    · exact (h.built p hp).mono hmore (Nat.le_refl _)
    · rw [List.mem_singleton.mp hp]
      refine ⟨h.next, Nat.le_refl _, _, List.getElem?_concat_length, ?_⟩
      simp only [nextPacket, dataHeader, h.next, h.received]
  · intro entry hentry
    have hold := h.queued entry hentry
    cases entry with
    | control d => exact hold
    | packet handle =>
      obtain ⟨p, hp, hhandle⟩ := hold
      exact ⟨p, List.mem_append_left _ hp, hhandle⟩
  · exact fun d hd => (h.genuine d hd).mono id hmore (Nat.le_refl _)

theorem Backed.resentFirst (h : c.Backed F) {p : SentPacket} {rest : List SentPacket}
    (hfirst : c.unacknowledged = p :: rest) (now : UInt64) :
    Backed F { c with unacknowledged := c.resent now p :: rest } := by
  refine ⟨h.next, h.received, h.small, ?_, ?_, ?_, ?_, ?_, h.genuine⟩
  · simpa [hfirst] using h.window
  · simpa [hfirst] using h.kept
  · intro i q hq
    have hold := h.ordered i
    rw [hfirst] at hold
    cases i with
    | zero =>
      cases hq
      exact hold p rfl
    | succ i => exact hold q hq
  · intro q hq
    rcases List.mem_cons.mp hq with rfl | hq
    · exact (h.built p (hfirst ▸ List.mem_cons_self)).resent h.received now
    · exact h.built q (hfirst ▸ List.mem_cons_of_mem _ hq)
  · intro entry hentry
    have hold := h.queued entry hentry
    cases entry with
    | control d => exact hold
    | packet handle =>
      obtain ⟨q, hq, hhandle⟩ := hold
      rw [hfirst] at hq
      rcases List.mem_cons.mp hq with rfl | hq
      · exact ⟨_, List.mem_cons_self, hhandle⟩
      · exact ⟨q, List.mem_cons_of_mem _ hq, hhandle⟩

/-! ## Acknowledgements -/

theorem rtt_samples (now : UInt64) (popped : List SentPacket) (c : ReliableUdpChannel) :
    ∃ srtt rttvar rto, popped.foldl (fun c p =>
      if p.transmissions = 1 then c.updateRtt (now - p.sentUs) else c) c =
        { c with srttUs := srtt, rttvarUs := rttvar, rtoUs := rto } := by
  induction popped generalizing c with
  | nil => exact ⟨_, _, _, rfl⟩
  | cons p popped ih =>
    obtain ⟨srtt, rttvar, rto, hrest⟩ :=
      ih (if p.transmissions = 1 then c.updateRtt (now - p.sentUs) else c)
    rw [List.foldl_cons, hrest]
    split <;> exact ⟨_, _, _, rfl⟩

/-- What is left of the window, with the packets that the bitmap covers marked. -/
def remaining (c : ReliableUdpChannel) (ack : UInt32) (bits : UInt64) : List SentPacket :=
  (c.unacknowledged.dropWhile (covered ack)).map fun p =>
    if coveredBeyond ack bits p then { p with acknowledged := true } else p

theorem acknowledge_eq (c : ReliableUdpChannel) (ack : UInt32) (bits now : UInt64) :
    ∃ srtt rttvar rto timeouts, c.acknowledge ack bits now =
      { c with
        srttUs := srtt
        rttvarUs := rttvar
        rtoUs := rto
        consecutiveTimeouts := timeouts
        unacknowledged := c.remaining ack bits } := by
  obtain ⟨srtt, rttvar, rto, hsamples⟩ := rtt_samples now (c.unacknowledged.takeWhile (covered ack)) c
  unfold acknowledge
  dsimp only
  rw [hsamples]
  exact ⟨srtt, rttvar, rto, _, rfl⟩

theorem length_remaining (c : ReliableUdpChannel) (ack : UInt32) (bits : UInt64) :
    (c.unacknowledged.takeWhile (covered ack)).length + (c.remaining ack bits).length =
      c.unacknowledged.length := by
  rw [remaining, List.length_map, ← List.length_append, List.takeWhile_append_dropWhile]

/-- A packet that is left, as it was before. -/
theorem remaining_getElem? {ack : UInt32} {bits : UInt64} {i : Nat} {q : SentPacket}
    (h : (c.remaining ack bits)[i]? = some q) :
    ∃ p, c.unacknowledged[(c.unacknowledged.takeWhile (covered ack)).length + i]? = some p ∧
      (q = p ∨ q = { p with acknowledged := true }) := by
  rw [remaining, List.getElem?_map, Option.map_eq_some_iff] at h
  obtain ⟨p, hp, rfl⟩ := h
  refine ⟨p, ?_, ?_⟩
  · have hsplit := List.takeWhile_append_dropWhile (p := covered ack) (l := c.unacknowledged)
    generalize c.unacknowledged.takeWhile (covered ack) = popped at hsplit ⊢
    generalize c.unacknowledged.dropWhile (covered ack) = left at hsplit hp
    rw [← hsplit, List.getElem?_append_right (Nat.le_add_right _ _), Nat.add_sub_cancel_left]
    exact hp
  · split
    · exact .inr rfl
    · exact .inl rfl

/-- The acknowledgement pops no packet that is queued. -/
def AckSpares (c : ReliableUdpChannel) (ack : UInt32) : Prop :=
  ∀ p ∈ c.unacknowledged.takeWhile (covered ack), ∀ entry ∈ c.sendBatch, entry ≠ .packet p.handle

theorem Backed.acknowledge (h : c.Backed F) {ack : UInt32} (hspares : c.AckSpares ack)
    (bits now : UInt64) : (c.acknowledge ack bits now).Backed F := by
  obtain ⟨srtt, rttvar, rto, timeouts, heq⟩ := acknowledge_eq c ack bits now
  have hlength := length_remaining c ack bits
  have hwindow := h.window
  have hkept := h.kept
  rw [heq]
  refine ⟨h.next, h.received, h.small, ?_, ?_, ?_, ?_, ?_, h.genuine⟩
  · dsimp only
    omega
  · dsimp only
    omega
  · intro i q hq
    dsimp only at hq ⊢
    obtain ⟨p, hp, hsame⟩ := remaining_getElem? hq
    have hold := h.ordered _ p hp
    have hhandle : q.handle = p.handle := by rcases hsame with rfl | rfl <;> rfl
    omega
  · intro q hq
    obtain ⟨i, hi⟩ := List.mem_iff_getElem?.mp hq
    obtain ⟨p, hp, hsame⟩ := remaining_getElem? hi
    have hbuilt := h.built p (List.mem_of_getElem? hp)
    rcases hsame with rfl | rfl
    · exact hbuilt
    · exact ⟨hbuilt.sequence, hbuilt.acked, hbuilt.datagram⟩
  · intro entry hentry
    have hold := h.queued entry hentry
    cases entry with
    | control d => exact hold
    | packet handle =>
      obtain ⟨p, hp, rfl⟩ := hold
      rw [← List.takeWhile_append_dropWhile (p := covered ack) (l := c.unacknowledged)] at hp
      rcases List.mem_append.mp hp with hp | hp
      · exact absurd rfl (hspares p hp _ hentry)
      · refine ⟨_, List.mem_map.mpr ⟨p, hp, rfl⟩, ?_⟩
        split <;> rfl

theorem Backed.advanced (h : c.Backed F) (payload : Bytes) : (c.advanced payload).Backed F := by
  refine { h with
    received := ?_, built := fun p hp => ?_, queued := fun entry hentry => ?_, genuine := fun d hd => ?_ }
  · change c.receiveNext + 1 = UInt32.ofNat (c.moved + 1)
    rw [h.received]
    exact (UInt32.ofNat_add _ _).symm
  · exact (h.built p hp).mono (List.prefix_refl _) (Nat.le_succ _)
  · have hold := h.queued entry hentry
    cases entry with
    | packet handle => exact hold
    | control d => exact hold.mono id (Nat.le_succ _)
  · exact (h.genuine d hd).mono id (List.prefix_refl _) (Nat.le_succ _)

theorem Backed.posts {r : Remit} (h : c.Backed F) (hposts : c.Posts F r entry) :
    Queued c.moved F c.unacknowledged entry := by
  cases entry with
  | packet handle => exact hposts
  | control d =>
    obtain ⟨-, type, bits, htype, rfl⟩ := hposts
    exact h.control bits htype

theorem Change.backed {r : Remit} (hchange : Change F r c c') (h : c.Backed F)
    (hspares : ∀ c ack bits, r.hears c ack bits → c.AckSpares ack) : c'.Backed F := by
  cases hchange with
  | handedOver k n => exact h.handedOver k n
  | keepRest n => exact h.keepRest n
  | queue hposts => exact h.queue (h.posts hposts)
  | filled now _ hroom => exact h.filled hroom now
  | resent hfirst now => exact h.resentFirst hfirst now
  | acknowledge hhears now => exact h.acknowledge (hspares _ _ _ hhears) _ now
  | inserted => exact h.of_core rfl
  | advanced payload => exact h.advanced payload
  | other hcore =>
    simp only [Prod.mk.injEq] at hcore
    refine h.of_core ?_
    simp only [hcore]

theorem Backed.path {r : Remit} (h : c.Backed F) (hpath : Path F r c c')
    (hspares : ∀ c ack bits, r.hears c ack bits → c.AckSpares ack) : c'.Backed F := by
  induction hpath with
  | refl => exact h
  | tail _ hchange ih => exact hchange.backed ih hspares

theorem Backed.mono {F' : Prop} (h : c.Backed F) (hF : F → F') : c.Backed F' := by
  refine { h with queued := fun entry hentry => ?_, genuine := fun d hd => ?_ }
  · have hold := h.queued entry hentry
    cases entry with
    | packet handle => exact hold
    | control d => exact hold.mono hF (Nat.le_refl _)
  · exact (h.genuine d hd).mono hF (List.prefix_refl _) (Nat.le_refl _)

end ReliableUdpChannel

/-! ## Whole runs -/

/-- A datagram acknowledges no packet that is queued. -/
def UdpEvent.Spares (e : UdpEnd) : UdpEvent → Prop
  | .datagram _ _ data _ _ _ => ∀ header, parseHeader data = some header → e.channel.AckSpares header.ack
  | _ => True

instance (e : UdpEnd) (event : UdpEvent) : Decidable (event.Spares e) :=
  match event with
  | .datagram _ _ data _ _ _ =>
    inferInstanceAs (Decidable (∀ header ∈ parseHeader data,
      ∀ p ∈ e.channel.unacknowledged.takeWhile (ReliableUdpChannel.covered header.ack),
        ∀ entry ∈ e.channel.sendBatch, entry ≠ .packet p.handle))
  | .write _ | .read _ | .flush | .close | .retransmit _ _ | .packet _ _ | .filled | .sendBatch _
  | .received | .deliver | .ack _ _ _ | .resume _ _ _ _ => inferInstanceAs (Decidable True)

namespace UdpEnd

open ReliableUdpChannel

variable {e e' : UdpEnd}

/-- The channel may send `Fin` once the loop of `close_gracefully` has begun. -/
def Backed (e : UdpEnd) : Prop := e.channel.Backed (e.closedAt ≠ none)

theorem remit_spares {event : UdpEvent} (h : event.Spares e) {c : ReliableUdpChannel} {ack : UInt32}
    {bits : UInt64} (hhears : (e.remit event).hears c ack bits) : c.AckSpares ack := by
  cases event with
  | datagram =>
    obtain ⟨rfl, header, hparse, rfl, -⟩ := hhears
    exact h header hparse
  | _ => exact hhears.elim

/-- One event that spares the queue. -/
theorem Backed.step (h : e.Backed) {event : UdpEvent} (hspares : event.Spares e)
    (hs : e.Step event e') : e'.Backed := by
  obtain ⟨hclosed, hpath⟩ := hs.happens.path
  exact (ReliableUdpChannel.Backed.mono h hclosed).path hpath fun _ _ _ => remit_spares hspares

theorem Fresh.backed (h : e.Fresh) : e.Backed := by
  obtain ⟨peer, rfl⟩ := h
  refine ⟨rfl, rfl, ?_, Nat.zero_le _, Nat.le_refl _, ?_, ?_, ?_, ?_⟩
  · intro payload hp
    cases hp
  · intro i p hp
    cases hp
  · intro p hp
    cases hp
  · intro entry hentry
    cases hentry
  · intro d hd
    cases hd

/-- A step whose datagram, if it is one, spares the queue. -/
def SparingStep (e : UdpEnd) (event : UdpEvent) (e' : UdpEnd) : Prop := e.Step event e' ∧ event.Spares e

theorem backed_of_reach (hr : Reach Fresh SparingStep e) : e.Backed :=
  Reach.invariant (I := Backed) (fun _ h => h.backed) (fun _ _ _ h hs => h.step hs.2 hs.1) hr

/-- A queued view is of no packet that is kept. -/
def dangles (e : UdpEnd) : Bool :=
  e.channel.sendBatch.any fun
    | .packet handle => e.channel.unacknowledged.all (·.handle != handle)
    | .control _ => false

end UdpEnd

open ReliableUdpChannel UdpEnd

/-- In every run whose datagrams spare the queue, a queued data packet is still in `unacknowledged_`, the
kernel is given its stored datagram, and all that it was given are packets as they were built, and
headers. -/
theorem queued_sends_backed {e : UdpEnd} (hr : Reach UdpEnd.Fresh SparingStep e) :
    (∀ handle, .packet handle ∈ e.channel.sendBatch → ∃ p ∈ e.channel.unacknowledged,
      p.handle = handle ∧ Built e.channel.chunks e.channel.moved p ∧
        ∀ k, e.channel.datagramOf k (.packet handle) = ⟨p.datagram, some handle, p.acked⟩) ∧
    ∀ d ∈ e.channel.wire, Genuine e.channel.chunks e.channel.moved (e.closedAt ≠ none) d := by
  have h := backed_of_reach hr
  refine ⟨fun handle hentry => ?_, h.genuine⟩
  obtain ⟨p, hp, hhandle⟩ := h.queued _ hentry
  cases hfind : e.channel.unacknowledged.find? (·.handle == handle) with
  | none => exact absurd (by simpa using hhandle) (List.find?_eq_none.mp hfind p hp)
  | some q =>
    have hq := List.mem_of_find?_eq_some hfind
    exact ⟨q, hq, by simpa using List.find?_some hfind, h.built q hq, fun k => by
      simp only [datagramOf, hfind]⟩

def oneByteWrite (byte : UInt8) : List UdpEvent :=
  [.write [byte], .resume false {} {} {}, .retransmit 0 {}, .packet 0 {}, .filled, .sendBatch {},
    .received, .deliver, .resume false {} {} {}]

def flushToReceive : List UdpEvent :=
  [.flush, .resume false {} {} {}, .retransmit 0 {}, .filled, .sendBatch {}]

def ackBytes (acked : Nat) (bits : UInt64) : Bytes := writeHeader (controlHeader .ack acked bits)

/-- Four packets are out and the first is late. An acknowledgement has it queued again, and the next one of
the same batch covers the others only. -/
theorem queued_sends_backed_again : ∃ e, Reach UdpEnd.Fresh SparingStep e ∧
    e.channel.sendBatch = [.packet 0] ∧ ∃ p ∈ e.channel.unacknowledged, p.handle = 0 := by
  obtain ⟨e, he, hqueue⟩ : ∃ e ∈ runFrom (fun e event => if event.Spares e then e.next event else none)
      ({ channel := { peer := .unspecified } } : UdpEnd)
      (oneByteWrite 1 ++ oneByteWrite 2 ++ oneByteWrite 3 ++ oneByteWrite 4 ++ flushToReceive ++
        [.datagram 1 .unspecified (ackBytes 0 7) {} {} {},
          .datagram 1 .unspecified (ackBytes 0 7) {} {} {}]), e.channel.sendBatch = [.packet 0] := by
    decide +kernel
  have hr : Reach UdpEnd.Fresh SparingStep e := .of_guarded ⟨_, rfl⟩ he
  obtain ⟨p, hp, hhandle, -⟩ := (queued_sends_backed hr).1 0 (hqueue ▸ List.mem_cons_self)
  exact ⟨e, hr, hqueue, p, hp, hhandle⟩

/-- Four packets are out and the first is late. One acknowledgement has it sent again, and the next one of
the same batch covers it: the view that was queued is of nothing. -/
theorem view_dangles : ∃ e, Reach UdpEnd.Fresh UdpEnd.Step e ∧
    ∃ handle, .packet handle ∈ e.channel.sendBatch ∧ (∀ p ∈ e.channel.unacknowledged, p.handle ≠ handle) ∧
      ∀ k, e.channel.datagramOf k (.packet handle) = ⟨k.stale handle, none, 0⟩ := by
  obtain ⟨e, he, hdangles⟩ : ∃ e ∈ runFrom UdpEnd.next { channel := { peer := .unspecified } }
      (oneByteWrite 1 ++ oneByteWrite 2 ++ oneByteWrite 3 ++ oneByteWrite 4 ++ flushToReceive ++
        [.datagram 1 .unspecified (ackBytes 0 7) {} {} {},
          .datagram 1 .unspecified (ackBytes 4 0) {} {} {}]), dangles e = true := by
    decide +kernel
  obtain ⟨entry, hentry, hbad⟩ := List.any_eq_true.mp hdangles
  cases entry with
  | control d => cases hbad
  | packet handle =>
    have hgone : ∀ p ∈ e.channel.unacknowledged, p.handle ≠ handle := by simpa using hbad
    have hnone : e.channel.unacknowledged.find? (·.handle == handle) = none :=
      List.find?_eq_none.mpr fun p hp => by simpa using hgone p hp
    refine ⟨e, .of_runFrom (.init ⟨_, rfl⟩) he, handle, hentry, hgone, fun k => ?_⟩
    simp only [datagramOf, hnone]

end DropZone
