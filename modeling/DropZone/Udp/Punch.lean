import DropZone.Handshake.Agreement
import DropZone.Lib.System
import DropZone.Udp.Packet

/-!
# Hole punching (`punch_udp_path`)

Both peers send probes to all candidates of the other and answer the probes that reach them, at the
address they came from. A peer returns true on the first answer to a probe of its own, and answers no
probe after that.

* `PunchCall.next`: one turn of the loops of `punch_udp_path`, with what the calls in it answer.
* `Punching.next`: two calls and a network that delivers in any order, duplicates and loses.
* `Punching.Timely`: the answers arrive, and before the deadline of the peer they are for.
* `punch_agreement`: where a peer returns true, the other one does so too exactly if the first had
  read a probe before the answer. `punch_alone`: it need not have.
-/

namespace DropZone

open LittleEndian System

inductive AddressFamily where
  | unspec
  | inet
  | inet6
  deriving DecidableEq

namespace Endpoint

def family : Endpoint → AddressFamily
  | .unspecified => .unspec
  | .v4 .. => .inet
  | .v6 .. => .inet6

/-- `Endpoint::as_v4_mapped`. -/
def asV4Mapped : Endpoint → Endpoint
  | .v4 port address =>
    .v6 port ⟨[0, 0, 0, 0, 0, 0, 0, 0, 0, 0, 255, 255] ++ address.toList, by simp⟩
  | e => e

end Endpoint

/-- `adapt_endpoint_for_socket`. -/
def adaptEndpointForSocket (target : Endpoint) (socketFamily : AddressFamily) : Option Endpoint :=
  if target.family = socketFamily then some target
  else if socketFamily = .inet6 ∧ target.family = .inet then some target.asV4Mapped
  else none

def kPunchSenderTag : Bytes := text "drop-zone/v1 udp punch sender"

def kPunchReceiverTag : Bytes := text "drop-zone/v1 udp punch receiver"

def kPunchIntervalMs : UInt64 := 50

/-- `punch_proof`. -/
def punchProof (P : Primitives) (key : Key) (tag : Bytes) : Block 32 := P.hmacSha256 key.toList tag

/-- The tag of a peer's own datagrams. -/
def punchTag (isSender : Bool) : Bytes := if isSender then kPunchSenderTag else kPunchReceiverTag

/-- Where `punch_udp_path` is. -/
inductive PunchStage where
  /-- The deadline is checked next. -/
  | top
  /-- `wait_readable` is next. -/
  | waiting
  /-- `recvfrom` is next. -/
  | draining
  /-- It has returned, with the address it chose if it returned true. -/
  | returned (chosen : Option Endpoint)
  deriving DecidableEq

/-- The variables of `punch_udp_path`. -/
structure PunchCall where
  candidates : List Endpoint
  ownProof : Block 32
  expectedProof : Block 32
  deadline : UInt64
  nextProbe : UInt64 := 0
  peerSeen : Bool := false
  peerAddress : Endpoint := .unspecified
  stage : PunchStage := .top

/-- What the next calls answer. -/
inductive PunchAnswer where
  /-- The clock, for the deadline and for the next round of probes. -/
  | clock (now now' : UInt64)
  | readable (ready : Bool)
  | datagram (source : SockAddr) (data : Bytes)
  /-- `recvfrom` has nothing, or fails. -/
  | again

inductive PunchSend where
  | probe (target : Endpoint)
  | reply (target : Endpoint)

namespace PunchCall

/-- `punch_udp_path` up to its loop. -/
def start (P : Primitives) (key : Key) (isSender : Bool) (rawCandidates : List Endpoint)
    (family : AddressFamily) (now : UInt64) (budgetMs : UInt32) : PunchCall where
  candidates := rawCandidates.filterMap fun candidate => adaptEndpointForSocket candidate family
  ownProof := punchProof P key (punchTag isSender)
  expectedProof := punchProof P key (punchTag !isSender)
  deadline := now + budgetMs.toUInt64

/-- A datagram of a punch. -/
def message (c : PunchCall) (type : UdpPacketType) : Bytes :=
  writeHeader { type := type, sequence := 0, ack := 0, ackBits := 0, length := 32 } ++
    c.ownProof.toList

/-- The type of a datagram that the peer has sent; others are skipped. -/
def hears (c : PunchCall) (data : Bytes) : Option UdpPacketType :=
  let data := data.take kUdpDatagramSize
  match parseHeader data with
  | none => none
  | some header =>
    if header.type ≠ .punch ∧ header.type ≠ .punchAck then none
    else if header.length.toNat ≠ 32 then none
    else if udpPayload header data ≠ c.expectedProof.toList then none
    else some header.type

/-- The round of probes, when it is time. -/
def probes (c : PunchCall) (now : UInt64) : PunchCall × List PunchSend :=
  if now ≥ c.nextProbe then
    ({ c with nextProbe := now + kPunchIntervalMs },
      c.candidates.map .probe ++ if c.peerSeen then [.reply c.peerAddress] else [])
  else (c, [])

/-- What is done about a datagram. -/
def handle (c : PunchCall) (source : SockAddr) (data : Bytes) : PunchCall × List PunchSend :=
  match c.hears data with
  | none => (c, [])
  | some .punchAck => ({ c with stage := .returned (some (.fromSockaddr source)) }, [])
  | some _ =>
    ({ c with peerSeen := true, peerAddress := .fromSockaddr source }, [.reply (.fromSockaddr source)])

/-- One turn of a loop of `punch_udp_path`, and what it sends. -/
def next (c : PunchCall) (answer : PunchAnswer) : Option (PunchCall × List PunchSend) :=
  match c.stage, answer with
  | .top, .clock now now' =>
    if now < c.deadline then
      let r := c.probes now'
      some ({ r.1 with stage := .waiting }, r.2)
    else some ({ c with stage := .returned none }, [])
  | .waiting, .readable ready => some ({ c with stage := if ready then .draining else .top }, [])
  | .draining, .datagram source data => some (c.handle source data)
  | .draining, .again => some ({ c with stage := .top }, [])
  | _, _ => none

end PunchCall

/-! ## Two calls and a network -/

/-- A datagram on its way. -/
structure PunchDatagram where
  /-- The peer that sent it: the sender (`true`) or the receiver. -/
  origin : Bool
  /-- The peer whose datagram it answers, if it was sent to where one came from. -/
  replyTo : Option Bool
  target : Endpoint
  data : Bytes

/-- A datagram in a socket's queue, with the source address that the socket reports. -/
structure PunchArrival where
  datagram : PunchDatagram
  source : SockAddr

structure Punching where
  calls : Bool → PunchCall
  /-- Whose probe a peer read last. It came from the peer's `peer_address`. -/
  heard : Bool → Option Bool := fun _ => none
  flight : List PunchDatagram := []
  queues : Bool → List PunchArrival := fun _ => []

inductive PunchEvent where
  | clock (p : Bool) (now now' : UInt64)
  | poll (p : Bool) (ready : Bool)
  /-- `recvfrom` takes the next datagram, or there is none. -/
  | receive (p : Bool)
  /-- `recvfrom` fails. -/
  | fail (p : Bool)
  /-- A datagram arrives; an answer does so at the peer it is for. -/
  | deliver (i : Nat) (p : Bool) (source : SockAddr)
  | duplicate (i : Nat)
  | lose (i : Nat)
  /-- Somebody else's datagram arrives. -/
  | stray (p : Bool) (source : SockAddr) (target : Endpoint) (data : Bytes)

namespace Punching

/-- The call of `p` has made a turn; its answers go to the peer `o`. -/
def after (s : Punching) (p : Bool) (o : Option Bool) (r : PunchCall × List PunchSend) : Punching :=
  { s with
    calls := Function.update s.calls p r.1
    flight := s.flight ++ r.2.map fun
      | .probe target => ⟨p, none, target, r.1.message .punch⟩
      | .reply target => ⟨p, o, target, r.1.message .punchAck⟩ }

/-- The next datagram of the queue of `p` is read. -/
def receive (s : Punching) (p : Bool) (a : PunchArrival) (rest : List PunchArrival) : Option Punching :=
  let o := if (s.calls p).hears a.datagram.data = some .punch then some a.datagram.origin else s.heard p
  ((s.calls p).next (.datagram a.source a.datagram.data)).map fun r =>
    { s with heard := Function.update s.heard p o, queues := Function.update s.queues p rest }.after p o r

/-- One step, if it can happen. -/
def next (s : Punching) : PunchEvent → Option Punching
  | .clock p now now' => ((s.calls p).next (.clock now now')).map fun r => s.after p (s.heard p) r
  | .poll p ready => ((s.calls p).next (.readable ready)).map fun r => s.after p (s.heard p) r
  | .receive p =>
    match s.queues p with
    | [] => ((s.calls p).next .again).map fun r => s.after p (s.heard p) r
    | a :: rest => s.receive p a rest
  | .fail p => ((s.calls p).next .again).map fun r => s.after p (s.heard p) r
  | .deliver i p source => do
    let d ← s.flight[i]?
    if d.replyTo = none ∨ d.replyTo = some p then
      some { s with
        flight := s.flight.eraseIdx i
        queues := Function.update s.queues p (s.queues p ++ [⟨d, source⟩]) }
    else none
  | .duplicate i => (s.flight[i]?).map fun d => { s with flight := s.flight ++ [d] }
  | .lose i => (s.flight[i]?).map fun _ => { s with flight := s.flight.eraseIdx i }
  | .stray p source target data =>
    if (s.calls p).hears data = none then
      some { s with
        queues := Function.update s.queues p
          (s.queues p ++ [⟨⟨p, none, target, data⟩, source⟩]) }
    else none

/-- Both peers call `punch_udp_path` with the same key and opposite roles. -/
def Initial (P : Primitives) (key : Key) (s : Punching) : Prop :=
  ∃ (rawCandidates : Bool → List Endpoint) (family : Bool → AddressFamily) (now : Bool → UInt64)
    (budgetMs : Bool → UInt32),
    s = { calls := fun p => .start P key p (rawCandidates p) (family p) (now p) (budgetMs p) }

def Step (s : Punching) (e : PunchEvent) (s' : Punching) : Prop := s.next e = some s'

/-- The peer has returned false. -/
def GaveUp (s : Punching) (p : Bool) : Prop := (s.calls p).stage = .returned none

/-- No answer is lost, and none is on its way to a peer whose deadline has passed. -/
def Timely (s : Punching) (e : PunchEvent) (s' : Punching) : Prop :=
  (∀ p, s'.GaveUp p → ∀ d ∈ s'.flight, d.replyTo ≠ some p) ∧
    ∀ i, e = .lose i → ∀ d ∈ s.flight[i]?, d.replyTo = none

/-- A peer that finds its deadline past has read what its socket had. -/
def Drained (s : Punching) : PunchEvent → Prop
  | .clock p now _ => (s.calls p).deadline ≤ now → s.queues p = []
  | _ => True

def TimelyStep (s : Punching) (e : PunchEvent) (s' : Punching) : Prop :=
  s.Step e s' ∧ s.Timely e s' ∧ s.Drained e

end Punching

/-! ## One call -/

namespace PunchCall

variable {c d : PunchCall} {r : PunchCall × List PunchSend}

/-- A peer hears the other one's probes and answers, and nobody else's. -/
theorem hears_message {type : UdpPacketType} (htype : type = .punch ∨ type = .punchAck) :
    c.hears (d.message type) = if d.ownProof = c.expectedProof then some type else none := by
  have htake : (d.message type).take kUdpDatagramSize = d.message type := by
    refine List.take_of_length_le ?_
    rw [message, List.length_append, length_writeHeader, List.Vector.toList_length]
    decide
  have hparse : parseHeader (d.message type) =
      some { type := type, sequence := 0, ack := 0, ackBits := 0, length := 32 } := by
    refine parseHeader_write ?_ (by simp [kUdpMaxPayload, kUdpDatagramSize, kUdpHeaderSize]) ?_
    · rcases htype with rfl | rfl <;> exact fun _ h => UdpPacketType.noConfusion h
    · rw [List.Vector.toList_length]
      rfl
  have hpayload : udpPayload { type := type, sequence := 0, ack := 0, ackBits := 0, length := 32 }
      (d.message type) = d.ownProof.toList :=
    udpPayload_write (by rw [List.Vector.toList_length]; rfl)
  have hproof : d.ownProof.toList = c.expectedProof.toList ↔ d.ownProof = c.expectedProof :=
    ⟨List.Vector.toList_injective.eq_iff.mp, congrArg _⟩
  unfold hears
  dsimp only
  rw [htake, hparse]
  dsimp only
  rw [hpayload, if_neg (by rcases htype with rfl | rfl <;> simp), if_neg (by decide)]
  by_cases h : d.ownProof = c.expectedProof
  · rw [if_neg (not_not.mpr (hproof.mpr h)), if_pos h]
  · rw [if_pos (fun h' => h (hproof.mp h')), if_neg h]

/-- The parts of a call that a turn leaves as they are. -/
structure Keeps (c c' : PunchCall) : Prop where
  own : c'.ownProof = c.ownProof
  expected : c'.expectedProof = c.expectedProof
  seen : c.peerSeen = true → c'.peerSeen = true

theorem Keeps.message {c' : PunchCall} (h : c.Keeps c') (type : UdpPacketType) :
    c'.message type = c.message type := by
  rw [PunchCall.message, PunchCall.message, h.own]

/-- A turn that reads no datagram: it sends answers only where a probe was heard. -/
structure Quiet (c : PunchCall) (r : PunchCall × List PunchSend) : Prop where
  keeps : c.Keeps r.1
  seen : r.1.peerSeen = c.peerSeen
  replies : ∀ target, PunchSend.reply target ∈ r.2 → c.peerSeen = true
  running : ∀ chosen, c.stage ≠ .returned chosen
  unchosen : ∀ chosen, r.1.stage ≠ .returned (some chosen)

theorem next_clock {now now' : UInt64} (h : c.next (.clock now now') = some r) :
    c.Quiet r ∧ (r.1.stage = .returned none → c.deadline ≤ now) := by
  unfold next at h
  cases hstage : c.stage with
  | top =>
    simp only [hstage] at h
    split at h
    · cases h
      unfold probes
      split
      · refine ⟨⟨⟨rfl, rfl, id⟩, rfl, fun target hmem => ?_, by simp [hstage], nofun⟩, nofun⟩
        simp only [List.mem_append, List.mem_map, reduceCtorEq, and_false, exists_false, false_or] at hmem
        split at hmem
        · assumption
        · cases hmem
      · exact ⟨⟨⟨rfl, rfl, id⟩, rfl, nofun, by simp [hstage], nofun⟩, nofun⟩
    · rename_i hnow
      cases h
      exact ⟨⟨⟨rfl, rfl, id⟩, rfl, nofun, by simp [hstage], nofun⟩, fun _ => UInt64.not_lt.mp hnow⟩
  | waiting | draining | returned => simp [hstage] at h

theorem next_readable {ready : Bool} (h : c.next (.readable ready) = some r) :
    c.Quiet r ∧ r.1.stage ≠ .returned none := by
  unfold next at h
  cases hstage : c.stage with
  | waiting =>
    simp only [hstage] at h
    cases h
    cases ready
    · exact ⟨⟨⟨rfl, rfl, id⟩, rfl, nofun, by simp [hstage], nofun⟩, nofun⟩
    · exact ⟨⟨⟨rfl, rfl, id⟩, rfl, nofun, by simp [hstage], nofun⟩, nofun⟩
  | top | draining | returned => simp [hstage] at h

theorem next_again (h : c.next .again = some r) : c.Quiet r ∧ r.1.stage ≠ .returned none := by
  unfold next at h
  cases hstage : c.stage with
  | draining =>
    simp only [hstage] at h
    cases h
    exact ⟨⟨⟨rfl, rfl, id⟩, rfl, nofun, by simp [hstage], nofun⟩, nofun⟩
  | top | waiting | returned => simp [hstage] at h

theorem next_datagram {source : SockAddr} {data : Bytes} (h : c.next (.datagram source data) = some r) :
    c.stage = .draining ∧ r = c.handle source data := by
  unfold next at h
  cases hstage : c.stage with
  | draining =>
    simp only [hstage] at h
    cases h
    exact ⟨rfl, rfl⟩
  | top | waiting | returned => simp [hstage] at h

end PunchCall

/-! ## Whole runs -/

namespace Punching

variable {P : Primitives} {key : Key} {s s' : Punching} {p : Bool} {new : List PunchDatagram}

/-- The datagram is a probe, or an answer to the other peer, of a peer that heard a probe. -/
def Sent (s : Punching) (d : PunchDatagram) : Prop :=
  (d.replyTo = none ∧ d.data = (s.calls d.origin).message .punch) ∨
    (d.replyTo = some !d.origin ∧ d.data = (s.calls d.origin).message .punchAck ∧
      (s.calls d.origin).peerSeen = true)

/-- An answer of `p` is under way, or waits in the other peer's socket. -/
def Answered (s : Punching) (p : Bool) : Prop :=
  (∃ d ∈ s.flight, d.origin = p ∧ d.replyTo = some !p) ∨
    ∃ a ∈ s.queues !p, a.datagram.origin = p ∧ a.datagram.replyTo = some !p

def Chose (s : Punching) (p : Bool) : Prop := ∃ chosen, (s.calls p).stage = .returned (some chosen)

structure Inv (P : Primitives) (key : Key) (s : Punching) : Prop where
  own : ∀ p, (s.calls p).ownProof = punchProof P key (punchTag p)
  expected : ∀ p, (s.calls p).expectedProof = punchProof P key (punchTag !p)
  sent : ∀ d ∈ s.flight, s.Sent d
  arrived : ∀ p, ∀ a ∈ s.queues p,
    s.Sent a.datagram ∨ a.datagram.replyTo = none ∧ (s.calls p).hears a.datagram.data = none
  heard : ∀ p, s.heard p = if (s.calls p).peerSeen then some !p else none
  /-- Whoever has heard a probe has an answer to it on the way, or the other peer has returned. -/
  answered : ∀ p, (s.calls p).peerSeen = true → s.Answered p ∨ s.Chose !p
  chose : ∀ p, s.Chose p → (s.calls !p).peerSeen = true
  gaveUp : ∀ p, s.GaveUp p → (∀ d ∈ s.flight, d.replyTo ≠ some p) ∧
    ∀ a ∈ s.queues p, a.datagram.replyTo ≠ some p

/-- What a turn of the call of `p` does to the whole. -/
structure Turn (s s' : Punching) (p : Bool) (new : List PunchDatagram) : Prop where
  calls : ∀ q, q ≠ p → s'.calls q = s.calls q
  keeps : (s.calls p).Keeps (s'.calls p)
  running : ∀ chosen, (s.calls p).stage ≠ .returned chosen
  flight : s'.flight = s.flight ++ new
  fresh : ∀ d ∈ new, d.origin = p ∧ s'.Sent d
  queues : ∀ q, q ≠ p → s'.queues q = s.queues q
  queue : ∀ a ∈ s'.queues p, a ∈ s.queues p
  /-- Only an answer that is taken leaves the queue. -/
  taken : ∀ a ∈ s.queues p, a.datagram.replyTo = some p → a ∈ s'.queues p ∨ s'.Chose p
  others : ∀ q, q ≠ p → s'.heard q = s.heard q
  heard : s'.heard p = if (s'.calls p).peerSeen then some !p else none
  answered : (s'.calls p).peerSeen = true → (s.calls p).peerSeen = true ∨ ∃ d ∈ new, d.replyTo = some !p
  chose : s'.Chose p → (s.calls !p).peerSeen = true
  gaveUp : s'.GaveUp p → s.queues p = []

theorem Sent.mono {d : PunchDatagram} (h : s.Sent d) (hkeeps : ∀ q, (s.calls q).Keeps (s'.calls q)) :
    s'.Sent d := by
  rcases h with ⟨hprobe, hdata⟩ | ⟨hreply, hdata, hseen⟩
  · exact .inl ⟨hprobe, by rw [(hkeeps _).message]; exact hdata⟩
  · exact .inr ⟨hreply, by rw [(hkeeps _).message]; exact hdata, (hkeeps _).seen hseen⟩

theorem Turn.keeps_all (h : s.Turn s' p new) (q : Bool) :
    (s.calls q).Keeps (s'.calls q) := by
  by_cases hq : q = p
  · exact hq ▸ h.keeps
  · rw [h.calls q hq]
    exact ⟨rfl, rfl, id⟩

theorem Turn.chose_of_ne (h : s.Turn s' p new) {q : Bool} (hq : q ≠ p) :
    s'.Chose q ↔ s.Chose q := by
  rw [Chose, Chose, h.calls q hq]

theorem Inv.turn (hs : s.Inv P key) (h : s.Turn s' p new)
    (htimely : ∀ q, s'.GaveUp q → ∀ d ∈ s'.flight, d.replyTo ≠ some q) : s'.Inv P key := by
  have hkeeps := h.keeps_all
  refine ⟨fun q => ?_, fun q => ?_, fun d hd => ?_, fun q a ha => ?_, fun q => ?_,
    fun q hseen => ?_, fun q hchose => ?_, fun q hgave => ⟨htimely q hgave, fun a ha => ?_⟩⟩
  · exact (hkeeps q).own.trans (hs.own q)
  · exact (hkeeps q).expected.trans (hs.expected q)
  · rw [h.flight] at hd
    rcases List.mem_append.mp hd with hold | hnew
    · exact (hs.sent d hold).mono hkeeps
    · exact (h.fresh d hnew).2
  · have hold : a ∈ s.queues q := by
      by_cases hq : q = p
      · subst hq
        exact h.queue a ha
      · exact h.queues q hq ▸ ha
    rcases hs.arrived q a hold with hsent | ⟨hreply, hhears⟩
    · exact .inl (hsent.mono hkeeps)
    · refine .inr ⟨hreply, ?_⟩
      rw [PunchCall.hears, (hkeeps q).expected]
      exact hhears
  · by_cases hq : q = p
    · subst hq
      exact h.heard
    · rw [h.others q hq, h.calls q hq]
      exact hs.heard q
  · by_cases hq : q = p
    · subst hq
      have hother := Bool.not_ne_self q
      rcases h.answered hseen with hold | ⟨d, hd, hreply⟩
      · rcases hs.answered q hold with (⟨d, hd, hfrom⟩ | ⟨a, ha, hfrom⟩) | hchose
        · exact .inl (.inl ⟨d, h.flight ▸ List.mem_append_left _ hd, hfrom⟩)
        · exact .inl (.inr ⟨a, h.queues _ hother ▸ ha, hfrom⟩)
        · exact .inr ((h.chose_of_ne hother).mpr hchose)
      · exact .inl (.inl ⟨d, h.flight ▸ List.mem_append_right _ hd, (h.fresh d hd).1, hreply⟩)
    · obtain rfl : p = !q := Bool.eq_not_of_ne (Ne.symm hq)
      rcases hs.answered q (h.calls q hq ▸ hseen) with (⟨d, hd, hfrom⟩ | ⟨a, ha, hfrom⟩) | ⟨chosen, hchose⟩
      · exact .inl (.inl ⟨d, h.flight ▸ List.mem_append_left _ hd, hfrom⟩)
      · -- the answer waits in the socket that this turn reads
        rcases h.taken a ha hfrom.2 with hkept | hchose
        · exact .inl (.inr ⟨a, hkept, hfrom⟩)
        · exact .inr hchose
      · exact absurd hchose (h.running _)
  · by_cases hq : q = p
    · subst hq
      rw [h.calls _ (Bool.not_ne_self q)]
      exact h.chose hchose
    · obtain rfl : p = !q := Bool.eq_not_of_ne (Ne.symm hq)
      exact h.keeps.seen (hs.chose q ((h.chose_of_ne hq).mp hchose))
  · by_cases hq : q = p
    · subst hq
      have hempty := h.gaveUp hgave
      have hold := h.queue a ha
      rw [hempty] at hold
      cases hold
    · rw [GaveUp, h.calls q hq] at hgave
      exact (hs.gaveUp q hgave).2 a (h.queues q hq ▸ ha)

@[simp] theorem calls_after_self (o : Option Bool) (r : PunchCall × List PunchSend) :
    (s.after p o r).calls p = r.1 := Function.update_self ..

theorem calls_after_of_ne (o : Option Bool) (r : PunchCall × List PunchSend) {q : Bool} (hq : q ≠ p) :
    (s.after p o r).calls q = s.calls q := Function.update_of_ne hq ..

theorem sent_after {r : PunchCall × List PunchSend} {o : Option Bool}
    (hreplies : ∀ target, PunchSend.reply target ∈ r.2 → o = some (!p) ∧ r.1.peerSeen = true) :
    ∀ d ∈ (s.after p o r).flight.drop s.flight.length, d.origin = p ∧ (s.after p o r).Sent d := by
  intro d hd
  simp only [after, List.drop_left] at hd
  obtain ⟨send, hsend, rfl⟩ := List.mem_map.mp hd
  cases send with
  | probe target => exact ⟨rfl, .inl ⟨rfl, by rw [calls_after_self]⟩⟩
  | reply target =>
    obtain ⟨rfl, hseen⟩ := hreplies target hsend
    exact ⟨rfl, .inr ⟨rfl, by rw [calls_after_self], by rw [calls_after_self]; exact hseen⟩⟩

theorem Inv.turn_quiet (hs : s.Inv P key) {r : PunchCall × List PunchSend}
    (hquiet : (s.calls p).Quiet r) (hgave : r.1.stage = .returned none → s.queues p = []) :
    s.Turn (s.after p (s.heard p) r) p ((s.after p (s.heard p) r).flight.drop s.flight.length) where
  calls q hq := calls_after_of_ne _ _ hq
  keeps := by rw [calls_after_self]; exact hquiet.keeps
  running := hquiet.running
  flight := by simp [after]
  fresh := sent_after fun target hmem =>
    ⟨(hs.heard p).trans (if_pos (hquiet.replies target hmem)), hquiet.seen.trans (hquiet.replies target hmem)⟩
  queues _ _ := rfl
  queue _ ha := ha
  taken _ ha _ := .inl ha
  others _ _ := rfl
  heard := by
    rw [calls_after_self, hquiet.seen]
    exact hs.heard p
  answered hseen := by
    rw [calls_after_self, hquiet.seen] at hseen
    exact .inl hseen
  chose := by
    rintro ⟨chosen, hchose⟩
    rw [calls_after_self] at hchose
    exact absurd hchose (hquiet.unchosen chosen)
  gaveUp hgave' := by
    rw [GaveUp, calls_after_self] at hgave'
    exact hgave hgave'

/-- The two directions have different proofs. -/
def Distinct (P : Primitives) (key : Key) : Prop :=
  punchProof P key kPunchSenderTag ≠ punchProof P key kPunchReceiverTag

theorem Distinct.ne (h : Distinct P key) (p : Bool) :
    punchProof P key (punchTag p) ≠ punchProof P key (punchTag !p) := by
  cases p with
  | true => exact h
  | false => exact h.symm

/-- What a peer hears was sent by the other one. -/
theorem Inv.hears_sent (hs : s.Inv P key) (hdistinct : Distinct P key) {d : PunchDatagram}
    (hsent : s.Sent d) {type : UdpPacketType} (hhears : (s.calls p).hears d.data = some type) :
    d.origin = (!p) ∧ (type = .punch ∨ type = .punchAck ∧ (s.calls !p).peerSeen = true) := by
  have horigin : (s.calls d.origin).ownProof = (s.calls p).expectedProof → d.origin = !p := by
    intro hproof
    rw [hs.own, hs.expected] at hproof
    by_contra hne
    have hp : d.origin = p := by
      cases hd : d.origin <;> cases p <;> simp_all
    exact hdistinct.ne p (hp ▸ hproof)
  rcases hsent with ⟨-, hdata⟩ | ⟨-, hdata, hseen⟩
  · rw [hdata, PunchCall.hears_message (.inl rfl), Option.ite_none_right_eq_some] at hhears
    obtain ⟨hproof, htype⟩ := hhears
    cases htype
    exact ⟨horigin hproof, .inl rfl⟩
  · rw [hdata, PunchCall.hears_message (.inr rfl), Option.ite_none_right_eq_some] at hhears
    obtain ⟨hproof, htype⟩ := hhears
    cases htype
    exact ⟨horigin hproof, .inr ⟨rfl, horigin hproof ▸ hseen⟩⟩

theorem Inv.hears_reply (hs : s.Inv P key) {a : PunchArrival} (ha : a ∈ s.queues p)
    (hreply : a.datagram.replyTo = some p) :
    (s.calls p).hears a.datagram.data = some .punchAck := by
  rcases hs.arrived p a ha with (⟨hnone, -⟩ | ⟨hto, hdata, -⟩) | ⟨hnone, -⟩
  · rw [hnone] at hreply
    cases hreply
  · rw [hreply, Option.some.injEq] at hto
    have horigin : a.datagram.origin = !p := by rw [hto, Bool.not_not]
    rw [hdata, PunchCall.hears_message (.inr rfl), if_pos]
    rw [hs.own, hs.expected, horigin]
  · rw [hnone] at hreply
    cases hreply

theorem turn_reads {a : PunchArrival} {rest : List PunchArrival} {r : PunchCall × List PunchSend}
    {o : Option Bool} (hqueue : s.queues p = a :: rest) (hstage : (s.calls p).stage = .draining)
    (hkeeps : (s.calls p).Keeps r.1) (hheard : o = if r.1.peerSeen then some !p else none)
    (hreplies : ∀ target, PunchSend.reply target ∈ r.2 → r.1.peerSeen = true)
    (hanswered : r.1.peerSeen = true → (s.calls p).peerSeen = true ∨ ∃ target, .reply target ∈ r.2)
    (htaken : a.datagram.replyTo = some p → ∃ chosen, r.1.stage = .returned (some chosen))
    (hchose : ∀ chosen, r.1.stage = .returned (some chosen) → (s.calls !p).peerSeen = true)
    (hrunning : r.1.stage ≠ .returned none) :
    s.Turn ({ s with heard := Function.update s.heard p o, queues := Function.update s.queues p rest }.after
        p o r) p
      (({ s with heard := Function.update s.heard p o, queues := Function.update s.queues p rest }.after
        p o r).flight.drop s.flight.length) where
  calls q hq := calls_after_of_ne _ _ hq
  keeps := by rw [calls_after_self]; exact hkeeps
  running := by simp [hstage]
  flight := by simp [after]
  fresh := sent_after (s := { s with
      heard := Function.update s.heard p o, queues := Function.update s.queues p rest })
    fun target hmem => ⟨hheard.trans (if_pos (hreplies target hmem)), hreplies target hmem⟩
  queues q hq := Function.update_of_ne hq ..
  queue b hb := by
    simp only [after, Function.update_self] at hb
    rw [hqueue]
    exact List.mem_cons_of_mem a hb
  taken b hb hreply := by
    rw [hqueue] at hb
    rcases List.mem_cons.mp hb with rfl | hmem
    · obtain ⟨chosen, hstage'⟩ := htaken hreply
      exact .inr ⟨chosen, by rw [calls_after_self]; exact hstage'⟩
    · exact .inl (by simpa [after] using hmem)
  others q hq := Function.update_of_ne hq ..
  heard := by
    rw [calls_after_self, ← hheard]
    exact Function.update_self ..
  answered hseen := by
    rw [calls_after_self] at hseen
    rcases hanswered hseen with hold | ⟨target, hmem⟩
    · exact .inl hold
    · refine .inr ⟨⟨p, o, target, r.1.message .punchAck⟩, ?_, hheard.trans (if_pos hseen)⟩
      simp only [after, List.drop_left]
      exact List.mem_map.mpr ⟨_, hmem, rfl⟩
  chose := by
    rintro ⟨chosen, h⟩
    rw [calls_after_self] at h
    exact hchose chosen h
  gaveUp h := by
    rw [GaveUp, calls_after_self] at h
    exact absurd h hrunning

theorem Inv.turn_receive (hs : s.Inv P key) (hdistinct : Distinct P key) {a : PunchArrival}
    {rest : List PunchArrival} (hqueue : s.queues p = a :: rest) (h : s.receive p a rest = some s') :
    s.Turn s' p (s'.flight.drop s.flight.length) := by
  have hmem : a ∈ s.queues p := hqueue ▸ List.mem_cons_self
  obtain ⟨r, hnext, rfl⟩ := Option.map_eq_some_iff.mp h
  obtain ⟨hstage, rfl⟩ := PunchCall.next_datagram hnext
  -- an answer for this peer is heard as one
  have hreply : (s.calls p).hears a.datagram.data ≠ some .punchAck → a.datagram.replyTo ≠ some p :=
    fun hne hto => hne (hs.hears_reply hmem hto)
  cases hhears : (s.calls p).hears a.datagram.data with
  | none =>
    have hhandle : (s.calls p).handle a.source a.datagram.data = (s.calls p, []) := by
      rw [PunchCall.handle, hhears]
    rw [if_neg (by simp), hhandle]
    refine turn_reads hqueue hstage ⟨rfl, rfl, id⟩ (hs.heard p) nofun .inl (fun hto => ?_) (fun chosen h => ?_)
      ?_
    · exact absurd hto (hreply (by simp [hhears]))
    · rw [hstage] at h
      cases h
    · simp [hstage]
  | some type =>
    have hsent : s.Sent a.datagram := by
      rcases hs.arrived p a hmem with hsent | ⟨-, hnone⟩
      · exact hsent
      · rw [hhears] at hnone
        cases hnone
    obtain ⟨horigin, rfl | ⟨rfl, hseen⟩⟩ := hs.hears_sent hdistinct hsent hhears
    · have hhandle : (s.calls p).handle a.source a.datagram.data =
          ({ s.calls p with peerSeen := true, peerAddress := .fromSockaddr a.source },
            [.reply (.fromSockaddr a.source)]) := by
        rw [PunchCall.handle, hhears]
      rw [if_pos rfl, hhandle]
      refine turn_reads hqueue hstage ⟨rfl, rfl, fun _ => rfl⟩ (congrArg some horigin) (fun _ _ => rfl)
        (fun _ => .inr ⟨_, List.mem_singleton_self _⟩) (fun hto => ?_) (fun chosen h => ?_) ?_
      · exact absurd hto (hreply (by simp [hhears]))
      · exact absurd h (by simp [hstage])
      · simp [hstage]
    · have hhandle : (s.calls p).handle a.source a.datagram.data =
          ({ s.calls p with stage := .returned (some (.fromSockaddr a.source)) }, []) := by
        rw [PunchCall.handle, hhears]
      rw [if_neg (by simp), hhandle]
      exact turn_reads hqueue hstage ⟨rfl, rfl, id⟩ (hs.heard p) nofun .inl (fun _ => ⟨_, rfl⟩)
        (fun _ _ => hseen) nofun

/-- The network moves datagrams. -/
theorem Inv.network (hs : s.Inv P key) (hcalls : s'.calls = s.calls) (hheard : s'.heard = s.heard)
    (hflight : ∀ d ∈ s'.flight, d ∈ s.flight)
    (hqueues : ∀ p, ∀ a ∈ s'.queues p, a ∈ s.queues p ∨
      (a.datagram ∈ s.flight ∧ (a.datagram.replyTo = none ∨ a.datagram.replyTo = some p)) ∨
      a.datagram.replyTo = none ∧ (s.calls p).hears a.datagram.data = none)
    (hanswered : ∀ p, s.Answered p → s'.Answered p) : s'.Inv P key := by
  have hsent : ∀ d, s'.Sent d ↔ s.Sent d := fun d => by rw [Sent, Sent, hcalls]
  refine ⟨?_, ?_, fun d hd => (hsent d).mpr (hs.sent d (hflight d hd)), fun p a ha => ?_, ?_,
    fun p hseen => ?_, ?_, fun p hgave => ?_⟩
  · rw [hcalls]
    exact hs.own
  · rw [hcalls]
    exact hs.expected
  · rw [hsent, hcalls]
    rcases hqueues p a ha with hold | ⟨hmem, -⟩ | hstray
    · exact hs.arrived p a hold
    · exact .inl (hs.sent _ hmem)
    · exact .inr hstray
  · rw [hcalls, hheard]
    exact hs.heard
  · rw [hcalls] at hseen
    refine (hs.answered p hseen).imp (hanswered p) fun hchose => ?_
    rw [Chose, hcalls]
    exact hchose
  · simp only [Chose, hcalls]
    exact hs.chose
  · rw [GaveUp, hcalls] at hgave
    obtain ⟨hnone, hqueue⟩ := hs.gaveUp p hgave
    refine ⟨fun d hd => hnone d (hflight d hd), fun a ha => ?_⟩
    rcases hqueues p a ha with hold | ⟨hmem, -⟩ | ⟨hstray, -⟩
    · exact hqueue a hold
    · exact hnone _ hmem
    · simp [hstray]

theorem mem_eraseIdx_or {d d' : PunchDatagram} {i : Nat} (hd : s.flight[i]? = some d)
    (hmem : d' ∈ s.flight) : d' = d ∨ d' ∈ s.flight.eraseIdx i := by
  obtain ⟨j, hj⟩ := List.getElem?_of_mem hmem
  by_cases hji : j = i
  · subst hji
    rw [hd, Option.some.injEq] at hj
    exact .inl hj.symm
  · exact .inr (List.mem_eraseIdx_iff_getElem?.mpr ⟨j, hji, hj⟩)

/-- A datagram is added to a queue. -/
theorem mem_pushed {q : Bool} {x a : PunchArrival} :
    a ∈ Function.update s.queues p (s.queues p ++ [x]) q ↔ a ∈ s.queues q ∨ q = p ∧ a = x := by
  by_cases hq : q = p
  · subst hq
    simp
  · simp [hq]

theorem Inv.deliver (hs : s.Inv P key) {i : Nat} {d : PunchDatagram} (hd : s.flight[i]? = some d)
    (hto : d.replyTo = none ∨ d.replyTo = some p) (source : SockAddr) :
    Inv P key { s with
      flight := s.flight.eraseIdx i
      queues := Function.update s.queues p (s.queues p ++ [⟨d, source⟩]) } := by
  refine hs.network rfl rfl (fun x hx => List.mem_of_mem_eraseIdx hx) (fun q a ha => ?_) fun q hq => ?_
  · obtain hold | ⟨rfl, rfl⟩ := mem_pushed.mp ha
    · exact .inl hold
    · exact .inr (.inl ⟨List.mem_of_getElem? hd, hto⟩)
  · rcases hq with ⟨x, hx, horigin, hreply⟩ | ⟨a, ha, hfrom⟩
    · rcases mem_eraseIdx_or hd hx with rfl | hkept
      · -- the answer is in the socket of the peer it is for
        obtain rfl : p = !q := by
          rcases hto with hnone | hsome
          · rw [hnone] at hreply
            cases hreply
          · rw [hsome, Option.some.injEq] at hreply
            exact hreply
        exact .inr ⟨⟨x, source⟩, by simp, horigin, hreply⟩
      · exact .inl ⟨x, hkept, horigin, hreply⟩
    · exact .inr ⟨a, mem_pushed.mpr (.inl ha), hfrom⟩

theorem Inv.step (hs : s.Inv P key) (hdistinct : Distinct P key) {e : PunchEvent}
    (h : s.TimelyStep e s') : s'.Inv P key := by
  obtain ⟨h, ⟨htimely, hlose⟩, hdrained⟩ := h
  unfold Step at h
  cases e with
  | clock p now now' =>
    obtain ⟨r, hr, rfl⟩ := Option.map_eq_some_iff.mp h
    obtain ⟨hquiet, hgave⟩ := PunchCall.next_clock hr
    exact hs.turn (hs.turn_quiet hquiet fun h => hdrained (hgave h)) htimely
  | poll p ready =>
    obtain ⟨r, hr, rfl⟩ := Option.map_eq_some_iff.mp h
    obtain ⟨hquiet, hgave⟩ := PunchCall.next_readable hr
    exact hs.turn (hs.turn_quiet hquiet fun h => absurd h hgave) htimely
  | fail p =>
    obtain ⟨r, hr, rfl⟩ := Option.map_eq_some_iff.mp h
    obtain ⟨hquiet, hgave⟩ := PunchCall.next_again hr
    exact hs.turn (hs.turn_quiet hquiet fun h => absurd h hgave) htimely
  | receive p =>
    simp only [next] at h
    split at h
    · obtain ⟨r, hr, rfl⟩ := Option.map_eq_some_iff.mp h
      obtain ⟨hquiet, hgave⟩ := PunchCall.next_again hr
      exact hs.turn (hs.turn_quiet hquiet fun h => absurd h hgave) htimely
    · rename_i a rest hqueue
      exact hs.turn (hs.turn_receive hdistinct hqueue h) htimely
  | deliver i p source =>
    obtain ⟨d, hd, h⟩ := Option.bind_eq_some_iff.mp h
    split at h
    · rename_i hto
      cases h
      exact hs.deliver hd hto source
    · cases h
  | duplicate i =>
    obtain ⟨d, hd, rfl⟩ := Option.map_eq_some_iff.mp h
    refine hs.network rfl rfl (fun x hx => ?_) (fun _ _ ha => .inl ha) fun q hq => ?_
    · rcases List.mem_append.mp hx with hold | hnew
      · exact hold
      · rw [List.mem_singleton.mp hnew]
        exact List.mem_of_getElem? hd
    · rcases hq with ⟨x, hx, hfrom⟩ | hqueue
      · exact .inl ⟨x, List.mem_append_left _ hx, hfrom⟩
      · exact .inr hqueue
  | lose i =>
    obtain ⟨d, hd, rfl⟩ := Option.map_eq_some_iff.mp h
    refine hs.network rfl rfl (fun x hx => List.mem_of_mem_eraseIdx hx) (fun _ _ ha => .inl ha)
      fun q hq => ?_
    rcases hq with ⟨x, hx, horigin, hreply⟩ | hqueue
    · rcases mem_eraseIdx_or hd hx with rfl | hkept
      · rw [hlose i rfl x hd] at hreply
        cases hreply
      · exact .inl ⟨x, hkept, horigin, hreply⟩
    · exact .inr hqueue
  | stray p source target data =>
    simp only [next, Option.ite_none_right_eq_some, Option.some.injEq] at h
    obtain ⟨hhears, rfl⟩ := h
    refine hs.network rfl rfl (fun _ hx => hx) (fun q a ha => ?_) fun q hq => ?_
    · obtain hold | ⟨rfl, rfl⟩ := mem_pushed.mp ha
      · exact .inl hold
      · exact .inr (.inr ⟨rfl, hhears⟩)
    · rcases hq with hflight | ⟨a, ha, hfrom⟩
      · exact .inl hflight
      · exact .inr ⟨a, mem_pushed.mpr (.inl ha), hfrom⟩

theorem Inv.initial (h : s.Initial P key) : s.Inv P key := by
  obtain ⟨rawCandidates, family, now, budgetMs, rfl⟩ := h
  refine ⟨fun _ => rfl, fun _ => rfl, nofun, fun _ => nofun, fun _ => rfl, nofun, ?_, nofun⟩
  rintro p ⟨chosen, h⟩
  cases h

/-- A peer that has returned returned true exactly if the other one had heard a probe, and answered. -/
theorem Inv.chose_iff (hs : s.Inv P key) {result : Option Endpoint}
    (hdone : (s.calls !p).stage = .returned result) : s.Chose (!p) ↔ (s.calls p).peerSeen = true := by
  constructor
  · intro hchose
    have hseen := hs.chose (!p) hchose
    rwa [Bool.not_not] at hseen
  · intro hseen
    rcases hs.answered p hseen with (⟨d, hd, -, hreply⟩ | ⟨a, ha, -, hreply⟩) | hchose
    · cases result with
      | some chosen => exact ⟨chosen, hdone⟩
      | none => exact absurd hreply ((hs.gaveUp (!p) hdone).1 d hd)
    · cases result with
      | some chosen => exact ⟨chosen, hdone⟩
      | none => exact absurd hreply ((hs.gaveUp (!p) hdone).2 a ha)
    · exact hchose

/-- **The peers agree exactly if whoever returns true has read a probe** before the answer: in every run to
the end in which the answers arrive in time, and a peer reads them before it gives up, with any
candidates, source addresses, order, losses of probes and duplicates. -/
theorem punch_agreement (hdistinct : Distinct P key) (h : Reach (Initial P key) TimelyStep s)
    (hdone : ∀ p, ∃ result, (s.calls p).stage = .returned result) :
    (∀ p, s.Chose p → s.Chose !p) ↔ ∀ p, s.Chose p → s.heard p ≠ none := by
  have hinv : s.Inv P key :=
    h.invariant (fun _ h => Inv.initial h) fun _ _ _ hs h => hs.step hdistinct h
  refine forall_congr' fun p => imp_congr_right fun _ => ?_
  obtain ⟨result, hresult⟩ := hdone !p
  rw [hinv.chose_iff hresult, hinv.heard p]
  cases (s.calls p).peerSeen <;> simp

/-! ## Two runs -/

/-- The check that a step is timely. -/
def timelyNow (s : Punching) (e : PunchEvent) (s' : Punching) : Bool :=
  ([true, false].all fun p => (s'.calls p).stage != .returned none ||
    s'.flight.all fun d => d.replyTo != some p) &&
  match e with
  | .lose i => (s.flight[i]?).all fun d => d.replyTo.isNone
  | .clock p now _ => decide (now < (s.calls p).deadline) || (s.queues p).isEmpty
  | _ => true

theorem timely_of_now {e : PunchEvent} (h : s.next e = some s') (hnow : s.timelyNow e s' = true) :
    s.TimelyStep e s' := by
  simp only [timelyNow, Bool.and_eq_true, List.all_eq_true, Bool.or_eq_true, bne_iff_ne] at hnow
  obtain ⟨hflight, hevent⟩ := hnow
  refine ⟨h, ⟨fun p hgave d hd => ?_, ?_⟩, ?_⟩
  · rcases hflight p (by cases p <;> simp) with hne | hnone
    · exact absurd hgave hne
    · exact hnone d hd
  · rintro i rfl d hd
    simp only [Option.mem_def.mp hd, Option.all_some, Option.isNone_iff_eq_none] at hevent
    exact hevent
  · cases e with
    | clock p now now' =>
      intro hlate
      simp only [Bool.or_eq_true, decide_eq_true_eq, List.isEmpty_iff] at hevent
      rcases hevent with hearly | hempty
      · exact absurd hearly (UInt64.not_lt.mpr hlate)
      · exact hempty
    | _ => trivial

/-- A run with a check of every step. -/
def timelyRun (s : Punching) (es : List PunchEvent) : Option Punching :=
  runFrom (fun s e => (s.next e).filter (s.timelyNow e)) s es

theorem timelyRun_reach {es : List PunchEvent} (hs : s.Initial P key) (h : s.timelyRun es = some s') :
    Reach (Initial P key) TimelyStep s' := by
  have hreach : Reach (Initial P key) (fun s e s' => (s.next e).filter (s.timelyNow e) = some s') s' :=
    Reach.of_runFrom (.init hs) h
  refine hreach.mono fun s e s' hstep => ?_
  obtain ⟨hnext, hnow⟩ := Option.filter_eq_some_iff.mp hstep
  exact timely_of_now hnext hnow

/-- The address 10.0.0.2. -/
def localAddress : Endpoint := .v4 4000 ⟨[10, 0, 0, 2], rfl⟩

/-- Two peers with one candidate each, and 60 ms. -/
def begun : Punching where
  calls p := .start toyPrimitives (leBlock 32 0) p [localAddress] .inet 0 60

theorem begun_initial : begun.Initial toyPrimitives (leBlock 32 0) :=
  ⟨fun _ => [localAddress], fun _ => .inet, fun _ => 0, fun _ => 60, rfl⟩

theorem toy_distinct : Distinct toyPrimitives (leBlock 32 0) := by
  unfold Distinct
  decide +kernel

/-- The address that a NAT gives a datagram. -/
def natAddress : SockAddr := .inet 61000 ⟨[203, 0, 113, 5], rfl⟩

/-- What became of the calls. -/
def outcome (s : Punching) : List (PunchStage × Option Bool) :=
  [((s.calls true).stage, s.heard true), ((s.calls false).stage, s.heard false)]

/-- Each peer's probe reaches the other, and so do the answers. -/
def crossing : List PunchEvent :=
  [.clock true 0 0, .clock false 0 0, .deliver 0 false natAddress, .deliver 0 true natAddress,
    .poll false true, .receive false, .poll true true, .receive true, .deliver 0 true natAddress,
    .deliver 0 false natAddress, .receive true, .receive false]

/-- Only the sender's probe gets through; the answer to it does, and nothing is left to answer. -/
def oneWay : List PunchEvent :=
  [.clock true 0 0, .clock false 0 0, .lose 1, .deliver 0 false natAddress, .poll false true,
    .receive false, .deliver 0 true natAddress, .poll true true, .receive true, .receive false,
    .clock false 10 10, .poll false false, .clock false 60 60]

theorem punch_agreement_crossing : ∃ s, Reach (Initial toyPrimitives (leBlock 32 0)) TimelyStep s ∧
    s.outcome = [(.returned (some (.fromSockaddr natAddress)), some false),
      (.returned (some (.fromSockaddr natAddress)), some true)] ∧
    ((∀ p, s.Chose p → s.Chose !p) ↔ ∀ p, s.Chose p → s.heard p ≠ none) := by
  obtain ⟨s, hs, hout⟩ : ∃ s ∈ begun.timelyRun crossing,
      s.outcome = [(.returned (some (.fromSockaddr natAddress)), some false),
        (.returned (some (.fromSockaddr natAddress)), some true)] := by
    decide +kernel
  have hreach := timelyRun_reach begun_initial hs
  refine ⟨s, hreach, hout, punch_agreement toy_distinct hreach fun p => ?_⟩
  simp only [outcome, List.cons.injEq, Prod.mk.injEq, and_true] at hout
  cases p with
  | true => exact ⟨_, hout.1.1⟩
  | false => exact ⟨_, hout.2.1⟩

/-- **One peer can return true and the other false**, though every answer arrives at once: the receiver's
candidates do not have the address that the sender's datagrams come from, so none of its probes gets
through, and it sends no probe to the address it heard from. -/
theorem punch_alone : ∃ s, Reach (Initial toyPrimitives (leBlock 32 0)) TimelyStep s ∧
    s.outcome = [(.returned (some (.fromSockaddr natAddress)), none), (.returned none, some true)] ∧
    s.Chose true ∧ ¬ s.Chose false := by
  obtain ⟨s, hs, hout⟩ : ∃ s ∈ begun.timelyRun oneWay,
      s.outcome = [(.returned (some (.fromSockaddr natAddress)), none), (.returned none, some true)] := by
    decide +kernel
  refine ⟨s, timelyRun_reach begun_initial hs, hout, ?_⟩
  simp only [outcome, List.cons.injEq, Prod.mk.injEq, and_true] at hout
  refine ⟨⟨_, hout.1.1⟩, ?_⟩
  rintro ⟨chosen, h⟩
  rw [hout.2.1] at h
  cases h

end Punching

end DropZone
