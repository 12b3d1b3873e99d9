import Mathlib.Data.List.Infix
import Mathlib.Data.List.TakeWhile
import Mathlib.Logic.Function.Basic
import DropZone.Udp.Backed

/-!
# Two channels and the network between them

Each end is a `UdpEnd`. The network may hand an end any datagram that the other end gave to its kernel,
in any order and any number of times, as long as the numbers in it are not too old.

* `Duplex.Step`: one event at one end. `Duplex.SparingStep`: it spares the queue. `Duplex.GoodStep`: no call
  of `read_exactly` follows one that threw, either.
* `Conveyed`: what has arrived of the packets that were built. Each of its rules is one thing that
  the two channels do.
* `Backed.popped_delivered`, `deliverInOrder_conveyed`, `processPacket_inbox`: what the members do to
  what has arrived.
-/

namespace DropZone

open LittleEndian Serial StateSpec System

/-! ## The system -/

/-- The two ends. -/
abbrev Duplex := Bool → UdpEnd

namespace UdpEnd

/-- Fewer than 2 ^ 31 sequence numbers are newer than those in the datagram. -/
def Young (sender receiver : UdpEnd) (d : Datagram) : Prop :=
  (∀ handle ∈ d.packet, sender.channel.chunks.length ≤ handle + 2 ^ 31) ∧
    receiver.channel.chunks.length ≤ d.acked + 2 ^ 31

instance (sender receiver : UdpEnd) (d : Datagram) : Decidable (Young sender receiver d) :=
  inferInstanceAs (Decidable (_ ∧ _))

/-- The network hands over copies of what the other end sent. -/
def Arrives (sender receiver : UdpEnd) : UdpEvent → Prop
  | .datagram _ _ data _ _ _ => ∃ d ∈ sender.channel.wire, d.bytes = data ∧ Young sender receiver d
  | _ => True

instance (sender receiver : UdpEnd) (event : UdpEvent) : Decidable (Arrives sender receiver event) :=
  match event with
  | .datagram _ _ data _ _ _ =>
    inferInstanceAs (Decidable (∃ d ∈ sender.channel.wire, d.bytes = data ∧ Young sender receiver d))
  | .write _ | .read _ | .flush | .close | .retransmit _ _ | .packet _ _ | .filled | .sendBatch _
  | .received | .deliver | .ack _ _ _ | .resume _ _ _ _ => inferInstanceAs (Decidable True)

/-- Nothing is read after a call that threw. -/
def Unbroken (e : UdpEnd) (event : UdpEvent) : Prop := ∀ len, event = .read len → e.threw = none

instance (e : UdpEnd) (event : UdpEvent) : Decidable (e.Unbroken event) :=
  match event with
  | .read len => decidable_of_iff (e.threw = none) ⟨fun h _ _ => h, fun h => h len rfl⟩
  | .write _ | .flush | .close | .retransmit _ _ | .packet _ _ | .filled | .sendBatch _ | .datagram ..
  | .received | .deliver | .ack _ _ _ | .resume _ _ _ _ => isTrue nofun

end UdpEnd

namespace Duplex

open UdpEnd

def Started (s : Duplex) : Prop := ∀ i, (s i).Fresh

/-- One event at one end. -/
def next (s : Duplex) (l : Bool × UdpEvent) : Option Duplex :=
  if Arrives (s !l.1) (s l.1) l.2 then ((s l.1).next l.2).map (Function.update s l.1) else none

def Step (s : Duplex) (l : Bool × UdpEvent) (s' : Duplex) : Prop := s.next l = some s'

/-- A step whose datagram, if it is one, spares the queue. -/
def SparingStep (s : Duplex) (l : Bool × UdpEvent) (s' : Duplex) : Prop := Step s l s' ∧ l.2.Spares (s l.1)

def GoodStep (s : Duplex) (l : Bool × UdpEvent) (s' : Duplex) : Prop :=
  SparingStep s l s' ∧ (s l.1).Unbroken l.2

/-- A step, if it is a good one. -/
def goodNext (s : Duplex) (l : Bool × UdpEvent) : Option Duplex :=
  if l.2.Spares (s l.1) ∧ (s l.1).Unbroken l.2 then s.next l else none

theorem reach_good {s t : Duplex} {ls : List (Bool × UdpEvent)} (hs : s.Started)
    (h : runFrom goodNext s ls = some t) : Reach Started GoodStep t :=
  (Reach.of_guarded hs h).mono fun _ _ _ hstep => ⟨⟨hstep.1, hstep.2.1⟩, hstep.2.2⟩

theorem reach_sparing {s t : Duplex} {ls : List (Bool × UdpEvent)} (hs : s.Started)
    (h : runFrom goodNext s ls = some t) : Reach Started SparingStep t :=
  (reach_good hs h).mono fun _ _ _ hstep => hstep.1

theorem Step.cases {s s' : Duplex} {l : Bool × UdpEvent} (h : Step s l s') :
    ∃ e', (s l.1).Step l.2 e' ∧ s' = Function.update s l.1 e' ∧ Arrives (s !l.1) (s l.1) l.2 := by
  unfold Step next at h
  split at h
  · rename_i harrives
    obtain ⟨e', he, rfl⟩ := Option.map_eq_some_iff.mp h
    exact ⟨e', he, rfl, harrives⟩
  · cases h

end Duplex

/-! ## What has arrived -/

/-- What a channel has received. -/
structure Intake where
  moved : Nat
  /-- What was delivered and not yet read. -/
  delivered : Bytes
  reorder : List (UInt32 × Bytes)

/-- What a channel was given to send. -/
structure Outbox where
  chunks : List Bytes
  /-- How many packets are kept. -/
  kept : Nat
  /-- What is not yet in a packet. -/
  pending : Bytes

/-- The first `moved` packets have been delivered, the reorder buffer holds later ones, and packets are
kept until they have been delivered. -/
structure Conveyed (out : Outbox) (inn : Intake) (taken : Bytes) : Prop where
  moved_le : inn.moved ≤ out.chunks.length
  window : out.kept ≤ UdpTuning.maxCwnd
  acked : out.chunks.length ≤ inn.moved + out.kept
  stream : taken ++ inn.delivered = (out.chunks.take inn.moved).flatten
  reorder : ∀ entry ∈ inn.reorder, ∃ handle, entry.1 = UInt32.ofNat handle ∧ inn.moved ≤ handle ∧
    out.chunks[handle]? = some entry.2

variable {payload : Bytes}

namespace Conveyed

variable {out out' : Outbox} {inn inn' : Intake} {taken taken' : Bytes}

/-- A packet is built. -/
theorem fill (h : Conveyed out inn taken)
    (hchunks : out'.chunks = out.chunks ++ [payload]) (hkept : out'.kept = out.kept + 1)
    (hroom : out.kept < UdpTuning.maxCwnd) : Conveyed out' inn taken where
  moved_le := by
    rw [hchunks, List.length_append]
    exact h.moved_le.trans (Nat.le_add_right _ _)
  window := by
    rw [hkept]
    exact hroom
  acked := by
    have := h.acked
    rw [hchunks, hkept, List.length_append, List.length_singleton]
    omega
  stream := by
    rw [hchunks, List.take_append_of_le_length h.moved_le]
    exact h.stream
  reorder entry hentry := by
    obtain ⟨handle, hkey, hle, hpayload⟩ := h.reorder entry hentry
    refine ⟨handle, hkey, hle, ?_⟩
    rw [hchunks, List.getElem?_append_left (List.getElem?_eq_some_iff.mp hpayload).1, hpayload]

theorem pop (h : Conveyed out inn taken) (hchunks : out'.chunks = out.chunks)
    (hkept : out'.kept ≤ out.kept) (hacked : out.chunks.length ≤ inn.moved + out'.kept) :
    Conveyed out' inn taken where
  moved_le := hchunks ▸ h.moved_le
  window := hkept.trans h.window
  acked := hchunks ▸ hacked
  stream := hchunks ▸ h.stream
  reorder := hchunks ▸ h.reorder

theorem insert (h : Conveyed out inn taken) (hmoved : inn'.moved = inn.moved)
    (hdelivered : inn'.delivered = inn.delivered)
    (hreorder : ∀ entry ∈ inn'.reorder, entry ∈ inn.reorder ∨ ∃ handle, entry.1 = UInt32.ofNat handle ∧
      inn.moved ≤ handle ∧ out.chunks[handle]? = some entry.2) : Conveyed out inn' taken where
  moved_le := hmoved ▸ h.moved_le
  window := h.window
  acked := hmoved ▸ h.acked
  stream := by
    rw [hdelivered, hmoved]
    exact h.stream
  reorder entry hentry := by
    rw [hmoved]
    rcases hreorder entry hentry with hold | hnew
    · exact h.reorder entry hold
    · exact hnew

theorem next_entry (h : Conveyed out inn taken) {entry : UInt32 × Bytes} (hentry : entry ∈ inn.reorder)
    (hkey : entry.1 = UInt32.ofNat inn.moved) : out.chunks[inn.moved]? = some entry.2 := by
  obtain ⟨handle, hhandle, hle, hpayload⟩ := h.reorder entry hentry
  have hlt := (List.getElem?_eq_some_iff.mp hpayload).1
  have hwindow := h.window
  have hacked := h.acked
  simp only [UdpTuning.maxCwnd] at hwindow
  have hsame : handle = inn.moved := by
    refine ofNat_inj ?_ ?_ (hhandle.symm.trans hkey)
    · omega
    · omega
  rw [← hsame]
  exact hpayload

/-- A packet that is not too old and whose number is not behind is not delivered yet. -/
theorem later_of_serialDiff (h : Conveyed out inn taken) {handle : Nat}
    (hpayload : out.chunks[handle]? = some payload) (hyoung : out.chunks.length ≤ handle + 2 ^ 31)
    (hdiff : 0 ≤ serialDiff (UInt32.ofNat handle) (UInt32.ofNat inn.moved)) : inn.moved ≤ handle := by
  have hlt := (List.getElem?_eq_some_iff.mp hpayload).1
  have hwindow := h.window
  have hacked := h.acked
  have hmoved := h.moved_le
  simp only [UdpTuning.maxCwnd] at hwindow
  rw [serialDiff_ofNat (by omega) (by omega)] at hdiff
  omega

theorem deliver (h : Conveyed out inn taken) {entry : UInt32 × Bytes} (hentry : entry ∈ inn.reorder)
    (hkey : entry.1 = UInt32.ofNat inn.moved) (hmoved : inn'.moved = inn.moved + 1)
    (hdelivered : inn'.delivered = inn.delivered ++ entry.2)
    (hreorder : ∀ e ∈ inn'.reorder, e ∈ inn.reorder ∧ e.1 ≠ UInt32.ofNat inn.moved) :
    Conveyed out inn' taken where
  moved_le := by
    rw [hmoved]
    exact (List.getElem?_eq_some_iff.mp (h.next_entry hentry hkey)).1
  window := h.window
  acked := by
    have := h.acked
    omega
  stream := by
    have hnext := h.next_entry hentry hkey
    rw [hmoved, hdelivered, ← List.append_assoc, h.stream, List.take_add_one, hnext, List.flatten_append]
    simp
  reorder e he := by
    obtain ⟨hold, hne⟩ := hreorder e he
    obtain ⟨handle, hhandle, hle, hpayload⟩ := h.reorder e hold
    have hother : handle ≠ inn.moved := by
      rintro rfl
      exact hne hhandle
    exact ⟨handle, hhandle, by omega, hpayload⟩

/-- What was delivered is read. -/
theorem read (h : Conveyed out inn taken) (hmoved : inn'.moved = inn.moved)
    (hreorder : inn'.reorder = inn.reorder)
    (hread : taken' ++ inn'.delivered = taken ++ inn.delivered) : Conveyed out inn' taken' where
  moved_le := hmoved ▸ h.moved_le
  window := h.window
  acked := hmoved ▸ h.acked
  stream := by
    rw [hread, hmoved]
    exact h.stream
  reorder := by
    rw [hreorder, hmoved]
    exact h.reorder

end Conveyed

namespace ReliableUdpChannel

variable {F : Prop} {c c' : ReliableUdpChannel} {k k' : Flush} {header : UdpHeader}

def inbox (c : ReliableUdpChannel) : Intake :=
  ⟨c.moved, c.delivered.drop c.deliveredConsumed, c.reorderBuffer⟩

def outbox (c : ReliableUdpChannel) : Outbox :=
  ⟨c.chunks, c.unacknowledged.length, c.outgoing.drop c.outgoingConsumed⟩

/-- The cursors are inside their buffers. -/
structure Cursors (c : ReliableUdpChannel) : Prop where
  outgoing : c.outgoingConsumed ≤ c.outgoing.length
  delivered : c.deliveredConsumed ≤ c.delivered.length

/-- Nothing was taken in or given out. -/
structure Still (c c' : ReliableUdpChannel) : Prop where
  inbox : c'.inbox = c.inbox
  outbox : c'.outbox = c.outbox
  finished : c'.peerFinished = c.peerFinished
  cursors : c.Cursors → c'.Cursors

theorem Still.refl (c : ReliableUdpChannel) : Still c c := ⟨rfl, rfl, rfl, id⟩

theorem Still.trans {c'' : ReliableUdpChannel} (h : Still c c') (h' : Still c' c'') : Still c c'' :=
  ⟨h'.inbox.trans h.inbox, h'.outbox.trans h.outbox, h'.finished.trans h.finished,
    fun hc => h'.cursors (h.cursors hc)⟩

/-- What only sends. -/
def Remit.idle : Remit := { tells := fun _ => True, counts := True }

theorem Change.still (h : Change F .idle c c') : Still c c' := by
  cases h with
  | handedOver | keepRest | queue => exact ⟨rfl, rfl, rfl, fun hc => ⟨hc.outgoing, hc.delivered⟩⟩
  | filled _ h | inserted _ _ h | advanced _ h => exact h.elim
  | acknowledge h => exact h.elim
  | resent hfirst =>
    refine ⟨rfl, ?_, rfl, fun hc => ⟨hc.outgoing, hc.delivered⟩⟩
    simp only [ReliableUdpChannel.outbox, hfirst, List.length_cons]
  | other hcore hdata =>
    have hdata := hdata.resolve_left id
    simp only [Prod.mk.injEq] at hcore hdata
    refine ⟨?_, ?_, hdata.2.2.2.2, fun hc => ⟨?_, ?_⟩⟩ <;>
      simp only [ReliableUdpChannel.inbox, ReliableUdpChannel.outbox, hcore, hdata]
    · exact hc.outgoing
    · exact hc.delivered

theorem Path.still (h : Path True .idle c c') : Still c c' := by
  induction h with
  | refl => exact .refl c
  | tail _ hchange ih => exact ih.trans hchange.still

theorem still_processAck (ack : UInt32) (bits now : UInt64) (k : Flush) (c : ReliableUdpChannel) :
    let c' := final (processAck ack bits now k) c
    c'.inbox = c.inbox ∧ c'.peerFinished = c.peerFinished ∧ (c.Cursors → c'.Cursors) ∧
      c'.outbox = { c.outbox with kept := (c.remaining ack bits).length } := by
  intro c'
  obtain ⟨srtt, rttvar, rto, timeouts, heq⟩ := acknowledge_eq c ack bits now
  have hacked : Still (c.acknowledge ack bits now) c' := (path_processAck ack bits now k c).still
  rw [heq] at hacked
  exact ⟨hacked.inbox, hacked.finished, fun hc => hacked.cursors ⟨hc.outgoing, hc.delivered⟩,
    hacked.outbox⟩

theorem filled_outbox (hc : c.Cursors) (now : UInt64) (k : Flush) :
    let c' := final (fillPacket now k) c
    c'.inbox = c.inbox ∧ c'.peerFinished = c.peerFinished ∧ c'.Cursors ∧
      c'.outbox.kept = c.outbox.kept + 1 ∧
      ∃ payload, c'.outbox.chunks = c.outbox.chunks ++ [payload] ∧
        payload ++ c'.outbox.pending = c.outbox.pending := by
  intro c'
  have hstill : Still (c.filled now) c' := (path_queued c now k).still
  have hle : ((c.outgoing.drop c.outgoingConsumed).take kUdpMaxPayload).length ≤
      c.outgoing.length - c.outgoingConsumed := by
    rw [List.length_take, List.length_drop]
    exact Nat.min_le_right _ _
  have hout := hc.outgoing
  refine ⟨hstill.inbox, hstill.finished, hstill.cursors ⟨?_, hc.delivered⟩, ?_,
    (c.outgoing.drop c.outgoingConsumed).take kUdpMaxPayload, ?_, ?_⟩
  · change c.outgoingConsumed + _ ≤ c.outgoing.length
    omega
  · rw [hstill.outbox]
    exact List.length_append
  · rw [hstill.outbox]
    rfl
  · rw [hstill.outbox]
    change _ ++ c.outgoing.drop (c.outgoingConsumed + _) = c.outgoing.drop c.outgoingConsumed
    rw [← List.drop_drop]
    exact List.prefix_iff_eq_append.mp (List.take_prefix kUdpMaxPayload _)

theorem takeData_inbox (h : c' = final (takeData header payload) c) :
    c'.outbox = c.outbox ∧ c'.peerFinished = c.peerFinished ∧ (c.Cursors → c'.Cursors) ∧
      c'.inbox.moved = c.inbox.moved ∧ c'.inbox.delivered = c.inbox.delivered ∧
      ∀ entry ∈ c'.inbox.reorder, entry ∈ c.inbox.reorder ∨
        entry = (header.sequence, payload) ∧ 0 ≤ serialDiff header.sequence c.receiveNext := by
  rw [takeData, final_get_bind] at h
  split at h
  · subst h
    exact ⟨rfl, rfl, fun hc => ⟨hc.outgoing, hc.delivered⟩, rfl, rfl, fun _ h => .inl h⟩
  · rename_i hnew
    split at h
    · subst h
      exact ⟨rfl, rfl, id, rfl, rfl, fun _ h => .inl h⟩
    · subst h
      refine ⟨rfl, rfl, fun hc => ⟨hc.outgoing, hc.delivered⟩, rfl, rfl, fun entry hentry => ?_⟩
      change entry ∈ (if c.reorderBuffer.any (·.1 == header.sequence) then c.reorderBuffer
        else c.reorderBuffer ++ [(header.sequence, payload)]) at hentry
      split at hentry
      · exact .inl hentry
      · rcases List.mem_append.mp hentry with hold | hlast
        · exact .inl hold
        · exact .inr ⟨List.mem_singleton.mp hlast, Int.not_lt.mp hnew⟩

theorem dispatch_inbox (h : c' = final (dispatch header payload k k') c) :
    c'.outbox = c.outbox ∧ (c.Cursors → c'.Cursors) ∧
      c'.inbox.moved = c.inbox.moved ∧ c'.inbox.delivered = c.inbox.delivered ∧
      (c'.peerFinished = true → c.peerFinished = true ∨ header.type = .fin) ∧
      ∀ entry ∈ c'.inbox.reorder, entry ∈ c.inbox.reorder ∨ header.type = .data ∧
        entry = (header.sequence, payload) ∧ 0 ≤ serialDiff header.sequence c.receiveNext := by
  unfold dispatch at h
  split at h
  · rename_i htype
    obtain ⟨hout, hfinished, hcursors, hmoved, hdelivered, hreorder⟩ := takeData_inbox h
    refine ⟨hout, hcursors, hmoved, hdelivered, fun hf => .inl (hfinished ▸ hf), fun entry hentry => ?_⟩
    rcases hreorder entry hentry with hold | hnew
    · exact .inl hold
    · exact .inr ⟨htype, hnew⟩
  · rename_i htype
    rw [final_bind_ok (EStateM.run_modify ..)] at h
    have hstill : Still { c with peerFinished := true } c' := 
      h ▸ (path_sendControl (.inr (.inl rfl)) trivial k k').still
    refine ⟨hstill.outbox, fun hc => hstill.cursors ⟨hc.outgoing, hc.delivered⟩,
      congrArg Intake.moved hstill.inbox, congrArg Intake.delivered hstill.inbox, fun _ => .inr htype,
      fun entry hentry => .inl ?_⟩
    rw [hstill.inbox] at hentry
    exact hentry
  · subst h
    exact ⟨rfl, fun hc => ⟨hc.outgoing, hc.delivered⟩, rfl, rfl, .inl, fun _ => .inl⟩
  · subst h
    exact ⟨rfl, id, rfl, rfl, .inl, fun _ => .inl⟩

theorem processPacket_inbox {data : Bytes} (hparse : parseHeader data = some header)
    (hbacked : c.Backed F) (hspares : c.AckSpares header.ack) {now : UInt64} {k'' : Flush}
    (h : c' = final (processPacket data now k k' k'') c) :
    (c'.outbox = { c.outbox with kept := (c.remaining header.ack header.ackBits).length }) ∧
      (c.Cursors → c'.Cursors) ∧
      c'.inbox.moved = c.inbox.moved ∧ c'.inbox.delivered = c.inbox.delivered ∧
      (c'.peerFinished = true → c.peerFinished = true ∨ header.type = .fin) ∧
      ∀ entry ∈ c'.inbox.reorder, entry ∈ c.inbox.reorder ∨ header.type = .data ∧
        entry = (header.sequence, udpPayload header data) ∧
          0 ≤ serialDiff header.sequence (UInt32.ofNat c.moved) := by
  obtain ⟨hinbox, hfinished, hcursors, hout⟩ := still_processAck header.ack header.ackBits now k c
  have hacked := (hbacked.acknowledge hspares header.ackBits now).path
    (path_processAck (r := {}) header.ack header.ackBits now k c) fun _ _ _ => False.elim
  rw [processPacket_eq hparse] at h
  generalize hc₁ : final (processAck header.ack header.ackBits now k) c = c₁
    at hinbox hfinished hcursors hout hacked
  rcases final_bind_cases (processAck header.ack header.ackBits now k)
    (fun _ => dispatch header (udpPayload header data) k' k'') c with hfinal | ⟨_, hfinal⟩
  · rw [hfinal, hc₁] at h
    subst h
    exact ⟨hout, hcursors, congrArg Intake.moved hinbox, congrArg Intake.delivered hinbox,
      fun hf => .inl (hfinished ▸ hf), fun entry hentry => .inl (hinbox ▸ hentry)⟩
  · rw [hfinal, hc₁] at h
    obtain ⟨hout', hcursors', hmoved', hdelivered', hfinished', hreorder'⟩ := dispatch_inbox h
    have hmoved : c₁.moved = c.moved := congrArg Intake.moved hinbox
    refine ⟨hout'.trans hout, fun hc => hcursors' (hcursors hc), hmoved'.trans hmoved,
      hdelivered'.trans (congrArg Intake.delivered hinbox), fun hf => ?_, fun entry hentry => ?_⟩
    · rw [← hfinished]
      exact hfinished' hf
    · rcases hreorder' entry hentry with hold | ⟨htype, hentry, hdiff⟩
      · exact .inl (hinbox ▸ hold)
      · rw [hacked.received, hmoved] at hdiff
        exact .inr ⟨htype, hentry, hdiff⟩

theorem deliverLoop_conveyed {out : Outbox} {taken : Bytes} (n : Nat)
    (hreceived : c.receiveNext = UInt32.ofNat c.moved) (hc : c.Cursors)
    (h : Conveyed out c.inbox taken) :
    let c' := deliverLoop n c
    Conveyed out c'.inbox taken ∧ c'.outbox = c.outbox ∧ c'.peerFinished = c.peerFinished ∧
      c'.Cursors ∧ c.moved ≤ c'.moved := by
  induction n generalizing c with
  | zero => exact ⟨h, rfl, rfl, hc, Nat.le_refl _⟩
  | succ n ih =>
    unfold deliverLoop
    split
    · exact ⟨h, rfl, rfl, hc, Nat.le_refl _⟩
    · split
      · exact ⟨h, rfl, rfl, hc, Nat.le_refl _⟩
      · rename_i entry hfind
        have hmem : entry ∈ c.inbox.reorder := List.mem_of_find?_eq_some hfind
        have hkey : entry.1 = UInt32.ofNat c.inbox.moved := by
          have hsame : entry.1 = c.receiveNext := by simpa using List.find?_some hfind
          exact hsame.trans hreceived
        have hrest := ih (c := { c with
            delivered := c.delivered ++ entry.2
            reorderBuffer := c.reorderBuffer.filter (·.1 != c.receiveNext)
            receiveNext := c.receiveNext + 1
            moved := c.moved + 1 }) ?_ ⟨hc.outgoing, ?_⟩ (h.deliver hmem hkey rfl ?_ ?_)
        · exact ⟨hrest.1, hrest.2.1, hrest.2.2.1, hrest.2.2.2.1,
            (Nat.le_succ _).trans hrest.2.2.2.2⟩
        · dsimp only
          rw [hreceived]
          exact (UInt32.ofNat_add _ _).symm
        · dsimp only
          rw [List.length_append]
          exact hc.delivered.trans (Nat.le_add_right _ _)
        · exact List.drop_append_of_le_length hc.delivered
        · intro e he
          have hfilter := List.mem_filter.mp he
          refine ⟨hfilter.1, ?_⟩
          have hne : e.1 ≠ c.receiveNext := by simpa using hfilter.2
          rw [hreceived] at hne
          exact hne

theorem deliverInOrder_conveyed {out : Outbox} {taken : Bytes}
    (hreceived : c.receiveNext = UInt32.ofNat c.moved) (hc : c.Cursors)
    (h : Conveyed out c.inbox taken) :
    let c' := c.deliverInOrder
    Conveyed out c'.inbox taken ∧ c'.outbox = c.outbox ∧ c'.peerFinished = c.peerFinished ∧
      c'.Cursors ∧ c.moved ≤ c'.moved := by
  obtain ⟨hconveyed, hout, hfinished, hcursors, hmoved⟩ :=
    deliverLoop_conveyed c.reorderBuffer.length hreceived hc h
  unfold deliverInOrder
  generalize deliverLoop c.reorderBuffer.length c = c₁ at hconveyed hout hfinished hcursors hmoved ⊢
  dsimp only
  split
  · exact ⟨hconveyed, hout, hfinished, ⟨hcursors.outgoing, Nat.zero_le _⟩, hmoved⟩
  · exact ⟨hconveyed, hout, hfinished, hcursors, hmoved⟩

/-! ## Acknowledgements that are true -/

/-- An acknowledgement of packets that were delivered pops only such packets. -/
theorem Backed.popped_delivered (h : c.Backed F) {moved acked : Nat} (hmoved : moved ≤ c.chunks.length)
    (hkept : c.chunks.length ≤ moved + c.unacknowledged.length) (hacked : acked ≤ moved)
    (hyoung : c.chunks.length ≤ acked + 2 ^ 31) (bits : UInt64) :
    c.chunks.length ≤ moved + (c.remaining (UInt32.ofNat acked) bits).length := by
  have hlength := length_remaining c (UInt32.ofNat acked) bits
  have hwindow := h.window
  simp only [UdpTuning.maxCwnd] at hwindow
  rcases Nat.eq_zero_or_pos (c.unacknowledged.takeWhile (covered (UInt32.ofNat acked))).length with
    hnone | hpos
  · omega
  · -- the last packet that was popped
    obtain ⟨n, hn⟩ := Nat.exists_eq_succ_of_ne_zero hpos.ne'
    have hlt : n < (c.unacknowledged.takeWhile (covered (UInt32.ofNat acked))).length := by omega
    obtain ⟨p, hp⟩ : ∃ p, (c.unacknowledged.takeWhile (covered (UInt32.ofNat acked)))[n]? = some p :=
      ⟨_, List.getElem?_eq_getElem hlt⟩
    have hcovered : covered (UInt32.ofNat acked) p = true :=
      List.mem_takeWhile_imp (List.mem_of_getElem? hp)
    have hold : c.unacknowledged[n]? = some p :=
      getElem?_of_extends (List.takeWhile_prefix _) hp
    have hhandle := h.ordered n p hold
    have hdiff : serialDiff p.sequence (UInt32.ofNat acked) < 0 := by simpa [covered] using hcovered
    rw [(h.built p (List.mem_of_getElem? hold)).sequence, serialDiff_ofNat (by omega) (by omega)] at hdiff
    omega

theorem Copy.parse {chunks : List Bytes} {moved : Nat} {d : Datagram} (h : Copy chunks moved d)
    (hsmall : ∀ payload ∈ chunks, payload.length ≤ kUdpMaxPayload) :
    ∃ handle payload, d.packet = some handle ∧ chunks[handle]? = some payload ∧
      parseHeader d.bytes = some (dataHeader handle d.acked payload.length) ∧
      udpPayload (dataHeader handle d.acked payload.length) d.bytes = payload := by
  obtain ⟨handle, payload, hpacket, hpayload, hbytes⟩ := h.bytes
  have hle := hsmall payload (List.mem_of_getElem? hpayload)
  have hlength : (dataHeader handle d.acked payload.length).length.toNat = payload.length := by
    simp only [kUdpMaxPayload, kUdpDatagramSize, kUdpHeaderSize] at hle
    rw [dataHeader, UInt16.toNat_ofNat', Nat.mod_eq_of_lt (by omega)]
  refine ⟨handle, payload, hpacket, hpayload, ?_, ?_⟩
  · rw [hbytes]
    refine parseHeader_write ?_ ?_ (Nat.le_of_eq hlength)
    · intro code hcode
      cases hcode
    · rw [hlength]
      exact hle
  · rw [hbytes, udpPayload_write hlength]

theorem parse_controlHeader {type : UdpPacketType} (htype : type.Named) (acked : Nat) (bits : UInt64) :
    parseHeader (writeHeader (controlHeader type acked bits)) = some (controlHeader type acked bits) := by
  rw [← List.append_nil (writeHeader _)]
  exact parseHeader_write htype (Nat.zero_le _) (Nat.zero_le _)

theorem Genuine.parse {chunks : List Bytes} {moved : Nat} {d : Datagram} (h : Genuine chunks moved F d)
    (hsmall : ∀ payload ∈ chunks, payload.length ≤ kUdpMaxPayload) :
    d.acked ≤ moved ∧ ∃ header, parseHeader d.bytes = some header ∧
      header.ack = UInt32.ofNat d.acked ∧ (header.type = .fin → F) ∧
      (header.type = .data → ∃ handle payload, d.packet = some handle ∧ chunks[handle]? = some payload ∧
        header.sequence = UInt32.ofNat handle ∧ udpPayload header d.bytes = payload) := by
  rcases h with h | h
  · obtain ⟨handle, payload, hpacket, hpayload, hparse, hread⟩ := h.parse hsmall
    refine ⟨h.acked, _, hparse, rfl, fun hfin => ?_, fun _ => ?_⟩
    · cases hfin
    · exact ⟨handle, payload, hpacket, hpayload, rfl, hread⟩
  · obtain ⟨type, bits, htype, hbytes⟩ := h.bytes
    have hnamed : type.Named ∧ type ≠ .data ∧ (type = .fin → F) := by
      rcases htype with rfl | rfl | ⟨rfl, hF⟩
      · simp [UdpPacketType.Named]
      · simp [UdpPacketType.Named]
      · simp [UdpPacketType.Named, hF]
    refine ⟨h.acked, controlHeader type d.acked bits, ?_, rfl, hnamed.2.2,
      fun hdata => absurd hdata hnamed.2.1⟩
    rw [hbytes]
    exact parse_controlHeader hnamed.1 _ _

end ReliableUdpChannel

end DropZone
