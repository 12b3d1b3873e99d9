import DropZone.Udp.Backed

/-!
# Datagrams from elsewhere

`receive_batch` has the kernel report where each datagram came from, and `process_packet` is not told.

* `ReliableUdpChannel.Inert`: a datagram that `process_packet` does nothing about.
* `Inserted`: two runs, the second with more datagrams from other addresses.
* `off_path_inert`: inert datagrams make no difference. `stranger_heard`: a stranger's `Fin` ends the
  stream, and its acknowledgement is taken for the peer's.
-/

namespace DropZone

open LittleEndian StateSpec System

namespace ReliableUdpChannel

variable {c : ReliableUdpChannel}

/-- The acknowledgement says nothing of the packets that are kept. -/
def Unheard (c : ReliableUdpChannel) (ack : UInt32) (bits : UInt64) : Prop :=
  ∀ p ∈ c.unacknowledged, covered ack p = false ∧ coveredBeyond ack bits p = false

/-- A datagram that is none of the protocol's, or that carries neither data nor an end and acknowledges
nothing. -/
def Inert (c : ReliableUdpChannel) (data : Bytes) : Prop :=
  ∀ header, parseHeader data = some header →
    header.type ≠ .data ∧ header.type ≠ .fin ∧ header.type ≠ .finAck ∧ c.Unheard header.ack header.ackBits

theorem Unheard.acknowledge {ack : UInt32} {bits : UInt64} (h : c.Unheard ack bits) (now : UInt64) :
    c.acknowledge ack bits now = c := by
  have hpopped : c.unacknowledged.takeWhile (covered ack) = [] := by
    cases hfirst : c.unacknowledged with
    | nil => rfl
    | cons p rest => rw [List.takeWhile_cons, (h p (hfirst ▸ List.mem_cons_self)).1]; rfl
  have hrest : c.unacknowledged.dropWhile (covered ack) = c.unacknowledged := by
    have hsplit := List.takeWhile_append_dropWhile (p := covered ack) (l := c.unacknowledged)
    rwa [hpopped, List.nil_append] at hsplit
  have hmarked : (c.unacknowledged.map fun p =>
      if coveredBeyond ack bits p then { p with acknowledged := true } else p) = c.unacknowledged := by
    refine (List.map_congr_left fun p hp => ?_).trans (List.map_id _)
    rw [(h p hp).2]
    rfl
  have hcount : c.unacknowledged.countP (fun p => coveredBeyond ack bits p && !p.acknowledged) = 0 := by
    refine List.countP_eq_zero.mpr fun p hp => ?_
    rw [(h p hp).2]
    exact Bool.false_ne_true
  simp only [ReliableUdpChannel.acknowledge, hpopped, hrest, hmarked, hcount, List.foldl_nil,
    List.length_nil, Nat.lt_irrefl, if_false, gt_iff_lt]

theorem Unheard.processAck {ack : UInt32} {bits : UInt64} (h : c.Unheard ack bits) (now : UInt64)
    (k : Flush) : (processAck ack bits now k).run c = .ok () c := by
  have hcount : c.unacknowledged.countP (coveredBeyond ack bits) = 0 :=
    List.countP_eq_zero.mpr fun p hp => by rw [(h p hp).2]; exact Bool.false_ne_true
  rw [ReliableUdpChannel.processAck, run_bind_ok (EStateM.run_modify ..), h.acknowledge now,
    run_bind_ok (EStateM.run_get ..)]
  cases hfirst : c.unacknowledged with
  | nil => rfl
  | cons missing rest =>
    dsimp only
    rw [← hfirst, hcount, if_neg fun hlost => absurd hlost.1 (by decide)]
    rfl

theorem Inert.processPacket {data : Bytes} (h : c.Inert data) (now : UInt64) (k k' k'' : Flush) :
    (processPacket data now k k' k'').run c = .ok () c := by
  cases hparse : parseHeader data with
  | none =>
    rw [ReliableUdpChannel.processPacket, hparse]
    rfl
  | some header =>
    obtain ⟨hdata, hfin, hfinAck, hunheard⟩ := h header hparse
    rw [processPacket_eq hparse, run_bind_ok (hunheard.processAck now k), dispatch]
    cases htype : header.type with
    | data => exact absurd htype hdata
    | fin => exact absurd htype hfin
    | finAck => exact absurd htype hfinAck
    | punch | punchAck | ack | unknown => rfl

end ReliableUdpChannel

namespace UdpEnd

theorem next_inert {e e' : UdpEnd} {now : UInt64} {source : Endpoint} {data : Bytes} {k k' k'' : Flush}
    (hinert : e.channel.Inert data) (hs : e.next (.datagram now source data k k' k'') = some e') :
    e' = e := by
  unfold next at hs
  dsimp only at hs
  split at hs
  · rename_i hstage
    unfold act at hs
    rw [hinert.processPacket now k k' k''] at hs
    cases hs
    rw [← hstage]
  · cases hs

/-- The second run is the first one with datagrams from other addresses than the peer's, each of which
meets `P` where it comes. -/
inductive Inserted (P : UdpEnd → Bytes → Prop) : UdpEnd → List UdpEvent → List UdpEvent → Prop
  | done (e : UdpEnd) : Inserted P e [] []
  | keep {e e' : UdpEnd} {event : UdpEvent} {es es' : List UdpEvent} (hs : e.next event = some e')
      (h : Inserted P e' es es') : Inserted P e (event :: es) (event :: es')
  | insert {e e' : UdpEnd} {now : UInt64} {source : Endpoint} {data : Bytes} {k k' k'' : Flush}
      {es es' : List UdpEvent} (hsource : source ≠ e.channel.peer) (hP : P e data)
      (hs : e.next (.datagram now source data k k' k'') = some e') (h : Inserted P e' es es') :
      Inserted P e es (.datagram now source data k k' k'' :: es')

end UdpEnd

open UdpEnd ReliableUdpChannel

/-- Inserting datagrams from elsewhere that are inert where they come leaves every run as it was: what was
returned, what was thrown, and which packets are acknowledged. -/
theorem off_path_inert {e : UdpEnd} {es es' : List UdpEvent}
    (h : Inserted (fun e data => e.channel.Inert data) e es es') :
    runFrom UdpEnd.next e es' = runFrom UdpEnd.next e es := by
  induction h with
  | done => rfl
  | keep hs h ih =>
    rw [runFrom, runFrom, hs]
    exact ih
  | insert hsource hinert hs h ih =>
    obtain rfl := next_inert hinert hs
    rw [runFrom, hs]
    exact ih

/-- An address that is not the peer's. -/
def stranger : Endpoint := .v4 1 (List.Vector.replicate 4 9)

/-- A `write` whose packet is out, and an `Ack` of a stranger that does not cover it. -/
theorem off_path_inert_ack :
    runFrom UdpEnd.next { channel := { peer := .unspecified } }
        [.write [7], .resume false {} {} {}, .retransmit 0 {}, .packet 0 {}, .filled, .sendBatch {},
          .datagram 0 stranger (ackBytes 0 0) {} {} {}] =
      runFrom UdpEnd.next { channel := { peer := .unspecified } }
        [.write [7], .resume false {} {} {}, .retransmit 0 {}, .packet 0 {}, .filled, .sendBatch {}] := by
  refine off_path_inert (.keep rfl (.keep rfl (.keep rfl (.keep rfl (.keep rfl (.keep rfl
    (.insert ?_ ?_ rfl (.done _))))))))
  · exact fun h => Endpoint.noConfusion h
  · have hinert : ∀ header ∈ parseHeader (ackBytes 0 0), header.type = .ack ∧ header.ack = 0 ∧
        header.ackBits = 0 := by decide +kernel
    intro header hparse
    obtain ⟨htype, hack, hbits⟩ := hinert header hparse
    refine ⟨htype ▸ nofun, htype ▸ nofun, htype ▸ nofun, fun p hp => ?_⟩
    rw [hack, hbits]
    cases List.mem_singleton.mp hp
    decide +kernel

/-- A run that reads, with the datagrams that arrive in its first `pump`. -/
def readHearing (datagrams : List UdpEvent) : List UdpEvent :=
  [.read 1, .retransmit 0 {}, .filled, .sendBatch {}] ++ datagrams ++
    [.received, .deliver, .resume false {} {} {}]

/-- What a stranger sends is taken for the peer's: its `Fin` has `read_exactly` throw, and its `Ack`
empties the window. -/
theorem stranger_heard :
    stranger ≠ .unspecified ∧
    (runFrom UdpEnd.next { channel := { peer := .unspecified } } (readHearing [])).map (·.threw) =
      some none ∧
    (runFrom UdpEnd.next { channel := { peer := .unspecified } } (readHearing
        [.datagram 0 stranger (writeHeader (controlHeader .fin 0 0)) {} {} {}])).map (·.threw) =
      some (some .peerClosed) ∧
    (runFrom UdpEnd.next { channel := { peer := .unspecified } }
        (oneByteWrite 7 ++ flushToReceive)).map (·.channel.unacknowledged.length) = some 1 ∧
    (runFrom UdpEnd.next { channel := { peer := .unspecified } }
        (oneByteWrite 7 ++ flushToReceive ++ [.datagram 0 stranger (ackBytes 1 0) {} {} {}])).map
      (·.channel.unacknowledged.length) = some 0 := by
  decide +kernel

end DropZone
