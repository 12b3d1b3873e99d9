import DropZone.Server.Runs

/-!
# Serving connections (`server/src/connection.cpp`, `server/src/server.cpp`)

A shard serves one of its connections at a time: it flushes, reads until the socket has no more,
handles the frames that have arrived whole, and flushes again. Between two calls of a socket or of a
handler the other shards do the same with theirs.

* `Inbox`: `input_` and `input_consumed_`, with `compact` and `nextFrame`.
* `Phase`: where `service_connection` is with a connection.
* `Host.next`: one call of a socket or of a handler. A socket takes any number of bytes per flush and
  gives any bytes; events report any combination; wakes are drained in any order.

The poller is its registrations, `Host.interest`. `Host.received` and `Host.sent` are ghosts: what a
socket gave and took so far.
-/

namespace DropZone

open LittleEndian StateSpec System

def kReadBatch : Nat := 64 * 1024

def kMaxInputBuffer : Nat := kMaxFrameLength + kFrameHeaderSize + kReadBatch

def kRelayResumeThreshold : Nat := 1024 * 1024

/-! ## Input -/

/-- The input buffer of a connection. -/
structure Inbox where
  input : Bytes := []
  consumed : Nat := 0

namespace Inbox

/-- The bytes that no frame was made of yet. -/
def unread (b : Inbox) : Bytes := b.input.drop b.consumed

/-- `Connection::input_at_cap`. -/
def atCap (b : Inbox) : Bool := kMaxInputBuffer ≤ b.unread.length

/-- What `read_available` does before each `recv`. -/
def compact (b : Inbox) : Inbox :=
  if 0 < b.consumed ∧ (64 * 1024 ≤ b.consumed ∨ b.input.length / 2 ≤ b.consumed) then
    { input := b.unread }
  else b

def append (b : Inbox) (bytes : Bytes) : Inbox := { b with input := b.input ++ bytes }

/-- `Connection::next_frame`: a frame that has arrived whole, and the buffer without it. -/
def nextFrame (b : Inbox) : Except Failure (Option (Frame × Inbox)) :=
  if h : kFrameHeaderSize ≤ b.unread.length then
    match decodeFrameHeader ⟨b.unread.take 8, List.length_take_of_le h⟩ with
    | .error e => .error e
    | .ok header =>
      if b.unread.length < kFrameHeaderSize + header.length.toNat then .ok none
      else .ok (some
        ({ header := header, payload := (b.unread.drop 8).take header.length.toNat },
          { b with consumed := b.consumed + (kFrameHeaderSize + header.length.toNat) }))
  else .ok none

@[simp] theorem unread_compact (b : Inbox) : b.compact.unread = b.unread := by
  unfold compact
  split <;> rfl

@[simp] theorem atCap_compact (b : Inbox) : b.compact.atCap = b.atCap := by
  rw [atCap, unread_compact, atCap]

theorem atCap_eq_false {b : Inbox} : b.atCap = false ↔ b.unread.length < kMaxInputBuffer := by
  simp [atCap]

/-- `consumed` is within the buffer. -/
def WF (b : Inbox) : Prop := b.consumed ≤ b.input.length

theorem WF.unread_append {b : Inbox} (h : b.WF) (bytes : Bytes) :
    (b.append bytes).unread = b.unread ++ bytes :=
  List.drop_append_of_le_length h

theorem WF.append {b : Inbox} (h : b.WF) (bytes : Bytes) : (b.append bytes).WF := by
  simp only [WF, Inbox.append, List.length_append] at h ⊢
  omega

theorem WF.compact {b : Inbox} (h : b.WF) : b.compact.WF := by
  unfold Inbox.compact
  split
  · exact Nat.zero_le _
  · exact h

theorem nextFrame_some {b b' : Inbox} {f : Frame} (h : b.nextFrame = .ok (some (f, b'))) :
    ∃ block : Block 8, decodeFrameHeader block = .ok f.header ∧
      b.unread = block.toList ++ f.payload ++ b'.unread ∧
      f.payload.length = f.header.length.toNat ∧ b'.input = b.input ∧
      b'.consumed = b.consumed + (kFrameHeaderSize + f.payload.length) ∧ b'.WF := by
  unfold nextFrame at h
  split at h
  · rename_i h8
    split at h
    · cases h
    · rename_i header hheader
      split at h
      · cases h
      · rename_i hlen
        cases h
        have hpayload : ((b.unread.drop 8).take header.length.toNat).length = header.length.toNat := by
          rw [List.length_take, List.length_drop]
          simp only [kFrameHeaderSize] at hlen
          omega
        refine ⟨_, hheader, ?_, hpayload, rfl, by rw [hpayload], ?_⟩
        · have hrest : b.unread.drop (8 + header.length.toNat) =
              List.drop (b.consumed + (kFrameHeaderSize + header.length.toNat)) b.input := by
            rw [unread, List.drop_drop, kFrameHeaderSize]
          change _ = b.unread.take 8 ++ (b.unread.drop 8).take header.length.toNat ++
            List.drop (b.consumed + (kFrameHeaderSize + header.length.toNat)) b.input
          rw [← hrest, ← List.drop_drop, List.append_assoc, List.take_append_drop,
            List.take_append_drop]
        · simp only [WF, unread, List.length_drop] at hlen ⊢
          simp only [kFrameHeaderSize] at hlen h8 ⊢
          omega
  · cases h

theorem nextFrame_of_split {b : Inbox} {block : Block 8} {header : FrameHeader} {payload rest : Bytes}
    (hdecode : decodeFrameHeader block = .ok header)
    (hunread : b.unread = block.toList ++ payload ++ rest) (hlen : payload.length = header.length.toNat) :
    b.nextFrame = .ok (some (⟨header, payload⟩,
      { b with consumed := b.consumed + (kFrameHeaderSize + payload.length) })) ∧
    unread { b with consumed := b.consumed + (kFrameHeaderSize + payload.length) } = rest := by
  have h8 : block.toList.length = 8 := block.toList_length
  have htotal : b.unread.length = 8 + payload.length + rest.length := by
    rw [hunread, List.length_append, List.length_append, h8]
  have hhead : kFrameHeaderSize ≤ b.unread.length := by
    rw [htotal, kFrameHeaderSize]
    omega
  have hblock : (⟨b.unread.take 8, List.length_take_of_le hhead⟩ : Block 8) = block := by
    refine Subtype.ext ?_
    change b.unread.take 8 = block.toList
    rw [hunread, List.append_assoc, List.take_left' h8]
  have hpayload : (b.unread.drop 8).take payload.length = payload := by
    rw [hunread, List.append_assoc, List.drop_left' h8, List.take_left]
  have hwhole : (block.toList ++ payload).length = kFrameHeaderSize + payload.length := by
    rw [List.length_append, h8, kFrameHeaderSize]
  constructor
  · unfold nextFrame
    rw [dif_pos hhead, hblock, hdecode]
    dsimp only
    rw [← hlen, if_neg (by rw [htotal, kFrameHeaderSize]; omega), hpayload]
  · rw [unread, ← List.drop_drop]
    change b.unread.drop _ = rest
    rw [hunread, List.drop_left' hwhole]

theorem nextFrame_of_unread {b : Inbox} {type : MessageType} {payload rest : Bytes}
    (hnamed : type.Named) (hlen : payload.length ≤ kMaxFrameLength)
    (hunread : b.unread = frameBytes type payload ++ rest) :
    b.nextFrame = .ok (some (Frame.of type payload,
      { b with consumed := b.consumed + (frameBytes type payload).length })) := by
  have hlength : (UInt32.ofNat payload.length).toNat = payload.length := by
    rw [UInt32.toNat_ofNat', Nat.mod_eq_of_lt]
    simp only [kMaxFrameLength] at hlen
    omega
  have htotal : (frameBytes type payload).length = kFrameHeaderSize + payload.length := by
    rw [frameBytes, List.length_append, length_encodeFrameHeader, kFrameHeaderSize]
  rw [htotal]
  refine (nextFrame_of_split (decodeFrameHeader_block (h := (Frame.of type payload).header) rfl hnamed ?_)
    hunread hlength.symm).1
  rw [Frame.of, hlength]
  exact hlen

theorem nextFrame_of_unread_nil {b : Inbox} (h : b.unread = []) : b.nextFrame = .ok none := by
  unfold nextFrame
  rw [dif_neg]
  rw [h]
  decide

end Inbox

/-! ## Output -/

/-- What a socket does with one `flush_output`: the bytes that it takes in all, and whether it fails
when it takes no more. -/
structure Socket where
  taken : Nat
  broken : Bool := false

namespace Connection

/-- The bytes that the socket has not taken yet. -/
def unsent (x : Connection) : Bytes := x.output.drop x.outputSent

def flushOutput (x : Connection) (k : Socket) : Connection :=
  if x.pendingOutput ≤ k.taken then { x with output := [], outputSent := 0 }
  else { x with outputSent := x.outputSent + k.taken }

/-- What `flush_output` returns. -/
def flushes (x : Connection) (k : Socket) : Bool := x.pendingOutput ≤ k.taken || !k.broken

def wantsWrite (x : Connection) : Bool := 0 < x.pendingOutput

end Connection

/-! ## Where a shard is -/

structure ReadyEvent where
  readable : Bool := false
  writable : Bool := false
  closed : Bool := false

/-- Where `service_connection` is; `closed` is what the event said. -/
inductive Phase where
  /-- The connection is not being served. -/
  | rest
  /-- In the loop of `read_available`. -/
  | reading (closed : Bool)
  /-- In the loop over `next_frame`. -/
  | framing (closed stillOpen processed : Bool)
  /-- The last `flush_output` is next. -/
  | ending (closed stillOpen : Bool)
  deriving DecidableEq

/-- What the poller is asked to report. -/
structure Interest where
  readable : Bool := true
  writable : Bool := false
  deriving DecidableEq

structure Host where
  server : Server
  inbox : ConnId → Inbox := fun _ => {}
  phase : ConnId → Phase := fun _ => .rest
  interest : ConnId → Interest := fun _ => {}
  /-- All that the client's socket gave so far. -/
  received : ConnId → Bytes := fun _ => []
  /-- All that the client's socket took so far. -/
  sent : ConnId → Bytes := fun _ => []

/-- What `recv` returns. -/
inductive RecvResult where
  | data (bytes : Bytes)
  | closed
  | interrupted
  | again
  | failed

inductive HostEvent where
  /-- A client connects. -/
  | connect (env : Env) (addr : SockAddr)
  /-- The poller reports a connection: `service_connection` up to where it reads. -/
  | ready (env : Env) (c : ConnId) (event : ReadyEvent) (socket : Socket)
  /-- A wake is drained, with the same. -/
  | wake (env : Env) (c : ConnId) (socket : Socket)
  /-- One round of `read_available`. -/
  | recv (c : ConnId) (result : RecvResult)
  /-- One round of the loop over `next_frame`. -/
  | frame (env : Env) (c : ConnId)
  /-- The last flush and what follows it. -/
  | finish (c : ConnId) (socket : Socket)
  /-- A connection was idle for too long. -/
  | timeout (c : ConnId)
  /-- The shared-table part of maintenance. -/
  | expire (env : Env)

/-- After the first flush: the source of a relay that waits for `c`, whose record is `x`, reads
again. -/
def Server.resumeSource (s : Server) (x : Connection) : Server :=
  if x.state = .relaying ∧ x.pendingOutput ≤ kRelayResumeThreshold then
    match x.relayPeer with
    | some peer =>
      match s.connections peer with
      | some y =>
        if y.readPaused then
          { s.update peer fun y => { y with readPaused := false } with
            wakeQueue := s.wakeQueue ++ [peer] }
        else s
      | none => s
    | none => s
  else s

namespace Host

/-- The record of a connection that is there. -/
def record (h : Host) (c : ConnId) : Connection := (h.server.connections c).getD default

def goTo (h : Host) (c : ConnId) (phase : Phase) : Host :=
  { h with phase := Function.update h.phase c phase }

/-- `flush_output`. -/
def flush (h : Host) (c : ConnId) (k : Socket) : Host :=
  { h with
    server := h.server.update c (·.flushOutput k)
    sent := Function.update h.sent c (h.sent c ++ (h.record c).unsent.take k.taken) }

/-- `close_connection`, which ends `service_connection`. -/
def close (h : Host) (c : ConnId) : Host :=
  { h with server := final (closeConnection c) h.server }.goTo c .rest

/-- `service_connection` after its first flush. -/
def enter (h : Host) (c : ConnId) (event : ReadyEvent) : Host :=
  h.goTo c <|
    if !(h.record c).readPaused && (event.readable || (h.inbox c).atCap) then .reading event.closed
    else .ending event.closed true

/-- `service_connection` up to where it reads. -/
def serve (h : Host) (env : Env) (c : ConnId) (event : ReadyEvent) (k : Socket) : Host :=
  let h := { h with server := h.server.touched env c }
  if event.writable then
    if (h.record c).flushes k then
      let h := h.flush c k
      enter { h with server := h.server.resumeSource (h.record c) } c event
    else (h.flush c k).close c
  else h.enter c event

/-- The event that `drain_wake_queue` makes up. -/
def wakeEvent (h : Host) (c : ConnId) : ReadyEvent where
  readable := !(h.record c).readPaused
  writable := true

/-- One round of `read_available`. -/
def read (h : Host) (c : ConnId) (closed : Bool) (result : RecvResult) : Option Host :=
  let b := (h.inbox c).compact
  let h := { h with inbox := Function.update h.inbox c b }
  if b.atCap then some (h.goTo c (.framing closed true false))
  else match result with
    | .data bytes =>
      if 0 < bytes.length ∧ bytes.length ≤ kReadBatch then
        some { h with
          inbox := Function.update h.inbox c (b.append bytes)
          received := Function.update h.received c (h.received c ++ bytes) }
      else none
    | .interrupted => some h
    | .again => some (h.goTo c (.framing closed true false))
    | .closed => some (h.goTo c (.framing closed false false))
    | .failed => some (h.goTo c (.framing closed false false))

/-- Out of the loop over `next_frame`. -/
def leave (h : Host) (c : ConnId) (closed stillOpen processed : Bool) : Host :=
  h.goTo c <|
    if !stillOpen then .ending closed false
    else if (h.record c).closeRequested || (h.record c).readPaused then .ending closed true
    else if !processed || !(h.inbox c).atCap then .ending closed true
    else .reading closed

/-- One round of the loop over `next_frame`. -/
def handle (h : Host) (env : Env) (c : ConnId) (closed stillOpen processed : Bool) : Host :=
  match (h.inbox c).nextFrame with
  | .error e =>
    leave { h with server := h.server.update c (·.requestClose e.what) } c closed stillOpen processed
  | .ok none => h.leave c closed stillOpen processed
  | .ok (some (f, b)) =>
    let h := { h with
      server := h.server.processFrame env c f
      inbox := Function.update h.inbox c b }
    if (h.record c).closeRequested || (h.record c).readPaused then h.leave c closed stillOpen true
    else h.goTo c (.framing closed stillOpen true)

/-- The last flush of `service_connection` ends the connection. -/
def ends (x : Connection) (k : Socket) (closed stillOpen : Bool) : Bool :=
  !stillOpen || !x.flushes k ||
    ((x.closeRequested || closed) && !(x.flushOutput k).wantsWrite)

def updateInterest (h : Host) (c : ConnId) : Host :=
  let x := h.record c
  let interest := { readable := !x.readPaused && !x.closeRequested, writable := x.wantsWrite }
  { h with interest := Function.update h.interest c interest }

/-- The last flush and what follows it. -/
def conclude (h : Host) (c : ConnId) (k : Socket) (closed stillOpen : Bool) : Host :=
  if ends (h.record c) k closed stillOpen then (h.flush c k).close c
  else ((h.flush c k).updateInterest c).goTo c .rest

/-- One event, if it can happen. -/
def next (h : Host) : HostEvent → Option Host
  | .connect env addr => some { h with server := h.server.acceptConnection env addr }
  | .ready env c event k =>
    if h.server.alive c = true ∧ h.phase c = .rest then some (h.serve env c event k) else none
  | .wake env c k =>
    if c ∈ h.server.wakeQueue ∧ h.phase c = .rest then
      let drained := { h with server := { h.server with wakeQueue := h.server.wakeQueue.erase c } }
      some (if h.server.alive c then drained.serve env c (h.wakeEvent c) k else drained)
    else none
  | .recv c result =>
    match h.phase c with
    | .reading closed => h.read c closed result
    | _ => none
  | .frame env c =>
    match h.phase c, h.server.alive c with
    | .framing closed stillOpen processed, true => some (h.handle env c closed stillOpen processed)
    | _, _ => none
  | .finish c k =>
    match h.phase c, h.server.alive c with
    | .ending closed stillOpen, true => some (h.conclude c k closed stillOpen)
    | _, _ => none
  | .timeout c =>
    if h.server.alive c = true ∧ h.phase c = .rest then some (h.close c) else none
  | .expire env => some { h with server := h.server.expire env }

/-- The wakes without one for `c`. -/
def drained (h : Host) (c : ConnId) : Host :=
  { h with server := { h.server with wakeQueue := h.server.wakeQueue.erase c } }

/-- What each event comes to, and when it can happen. -/
inductive Happens (h : Host) : HostEvent → Host → Prop
  | connect (env : Env) (addr : SockAddr) :
      Happens h (.connect env addr) { h with server := h.server.acceptConnection env addr }
  | ready {env c event k} (alive : h.server.alive c = true) (rest : h.phase c = .rest) :
      Happens h (.ready env c event k) (h.serve env c event k)
  | wake {env c k} (alive : h.server.alive c = true) (rest : h.phase c = .rest) :
      Happens h (.wake env c k) ((h.drained c).serve env c (h.wakeEvent c) k)
  | drop {env c k} (gone : h.server.alive c = false) (rest : h.phase c = .rest) :
      Happens h (.wake env c k) (h.drained c)
  | recv {c result closed h'} (phase : h.phase c = .reading closed)
      (read : h.read c closed result = some h') : Happens h (.recv c result) h'
  | frame {env c closed stillOpen processed} (phase : h.phase c = .framing closed stillOpen processed)
      (alive : h.server.alive c = true) :
      Happens h (.frame env c) (h.handle env c closed stillOpen processed)
  | finish {c k closed stillOpen} (phase : h.phase c = .ending closed stillOpen)
      (alive : h.server.alive c = true) : Happens h (.finish c k) (h.conclude c k closed stillOpen)
  | timeout {c} (alive : h.server.alive c = true) (rest : h.phase c = .rest) :
      Happens h (.timeout c) (h.close c)
  | expire (env : Env) : Happens h (.expire env) { h with server := h.server.expire env }

theorem happens {h h' : Host} {e : HostEvent} (hnext : h.next e = some h') : h.Happens e h' := by
  cases e with
  | connect env addr =>
    cases hnext
    exact .connect env addr
  | ready env c event k | timeout c =>
    obtain ⟨⟨halive, hrest⟩, hnext⟩ := Option.ite_none_right_eq_some.mp hnext
    cases hnext
    constructor <;> assumption
  | wake env c k =>
    obtain ⟨⟨-, hrest⟩, hnext⟩ := Option.ite_none_right_eq_some.mp hnext
    cases hnext
    split
    · exact .wake ‹_› hrest
    · exact .drop (Bool.eq_false_iff.mpr ‹_›) hrest
  | recv c result =>
    dsimp only [next] at hnext
    split at hnext
    · exact .recv ‹_› hnext
    · cases hnext
  | frame env c | finish c k =>
    dsimp only [next] at hnext
    split at hnext
    · cases hnext
      constructor <;> assumption
    · cases hnext
  | expire env =>
    cases hnext
    exact .expire env

/-- The loop of `create_pairing` ends only if an id is left. -/
def Returns (h : Host) : HostEvent → Prop
  | .frame env c => ∀ f b, (h.inbox c).nextFrame = .ok (some (f, b)) →
      h.server.Returns (.frame env c f)
  | _ => True

def Step (h : Host) (e : HostEvent) (h' : Host) : Prop := h.next e = some h' ∧ h.Returns e

def Started (h : Host) : Prop := ∃ s : Server, s.Started ∧ h = { server := s }

theorem read_eq_some {h h' : Host} {c : ConnId} {closed : Bool} {result : RecvResult}
    (hread : h.read c closed result = some h') :
    (∃ bytes, bytes.length ≤ kReadBatch ∧ (h.inbox c).atCap = false ∧ h' = { h with
      inbox := Function.update h.inbox c ((h.inbox c).compact.append bytes)
      received := Function.update h.received c (h.received c ++ bytes) }) ∨
    h' = { h with inbox := Function.update h.inbox c (h.inbox c).compact } ∨
    ∃ stillOpen, h' = { h with inbox := Function.update h.inbox c (h.inbox c).compact }.goTo c
      (.framing closed stillOpen false) := by
  unfold read at hread
  dsimp only at hread
  split at hread
  · cases hread
    exact .inr (.inr ⟨true, rfl⟩)
  · rename_i hcap
    rw [Inbox.atCap_compact, Bool.not_eq_true] at hcap
    cases result with
    | data bytes =>
      dsimp only at hread
      split at hread
      · rename_i hlen
        cases hread
        exact .inl ⟨bytes, hlen.2, hcap, by simp⟩
      · cases hread
    | interrupted =>
      cases hread
      exact .inr (.inl rfl)
    | again =>
      cases hread
      exact .inr (.inr ⟨true, rfl⟩)
    | closed =>
      cases hread
      exact .inr (.inr ⟨false, rfl⟩)
    | failed =>
      cases hread
      exact .inr (.inr ⟨false, rfl⟩)

theorem read_server {h h' : Host} {c : ConnId} {closed : Bool} {result : RecvResult}
    (hread : h.read c closed result = some h') : h'.server = h.server := by
  obtain ⟨bytes, -, -, rfl⟩ | rfl | ⟨stillOpen, rfl⟩ := read_eq_some hread <;> rfl

end Host

/-! ## What an event does to pairings and parties -/

/-- An event of the server or none, between quiet changes. -/
def Server.Amounts (s s' : Server) : Prop :=
  ∃ a b, Quiet s a ∧ (a = b ∨ ∃ e, a.Step e b) ∧ Quiet b s'

section Amounts

variable {s s' s'' : Server} {c : ConnId}

theorem Quiet.amounts (h : Quiet s s') : s.Amounts s' := ⟨s, s, .refl s, .inl rfl, h⟩

theorem Server.Step.amounts {e : ServerEvent} (h : s.Step e s') : s.Amounts s' :=
  ⟨s, s', .refl s, .inr ⟨e, h⟩, .refl s'⟩

theorem Server.Amounts.after (h : Quiet s s') (h' : s'.Amounts s'') : s.Amounts s'' := by
  obtain ⟨a, b, ha, hab, hb⟩ := h'
  exact ⟨a, b, h.trans ha, hab, hb⟩

theorem Connection.flushOutput_party (x : Connection) (k : Socket) :
    (x.flushOutput k).party = x.party := by
  unfold Connection.flushOutput
  split <;> rfl

theorem Connection.flushOutput_readPaused (x : Connection) (k : Socket) :
    (x.flushOutput k).readPaused = x.readPaused := by
  unfold flushOutput
  split <;> rfl

theorem Connection.flushOutput_closeRequested (x : Connection) (k : Socket) :
    (x.flushOutput k).closeRequested = x.closeRequested := by
  unfold Connection.flushOutput
  split <;> rfl

theorem quiet_flush (h : Host) (c : ConnId) (k : Socket) : Quiet h.server (h.flush c k).server :=
  Quiet.update h.server c fun x _ =>
    ⟨x.flushOutput_party k, fun hx => (x.flushOutput_closeRequested k).trans hx⟩

theorem quiet_resumeSource (s : Server) (x : Connection) : Quiet s (s.resumeSource x) := by
  unfold Server.resumeSource
  split
  · split
    · rename_i peer _
      split
      · split
        · have hquiet : Quiet s (s.update peer fun y => { y with readPaused := false }) :=
            Quiet.update s peer fun _ _ => ⟨rfl, id⟩
          exact hquiet.trans (.same rfl rfl rfl rfl rfl)
        · exact .refl s
      · exact .refl s
    · exact .refl s
  · exact .refl s

theorem close_amounts {h : Host} (halive : h.server.alive c = true) :
    h.server.Amounts (h.close c).server :=
  Server.Step.amounts (e := .close c) ⟨if_pos halive, trivial⟩

theorem flush_close_amounts {h : Host} (halive : h.server.alive c = true) (k : Socket) :
    h.server.Amounts ((h.flush c k).close c).server := by
  have hquiet := quiet_flush h c k
  exact .after hquiet (close_amounts (by rw [hquiet.alive, halive]))

theorem serve_amounts {h : Host} (halive : h.server.alive c = true) (env : Env) (event : ReadyEvent)
    (k : Socket) : h.server.Amounts (h.serve env c event k).server := by
  have htouched := quiet_touched (c := c) h.server env
  unfold Host.serve
  dsimp only
  generalize hh : ({ h with server := h.server.touched env c } : Host) = h₁
  have hserver : h₁.server = h.server.touched env c := hh ▸ rfl
  rw [← hserver] at htouched
  split
  · split
    · exact ((htouched.trans (quiet_flush h₁ c k)).trans (quiet_resumeSource _ _)).amounts
    · exact .after htouched (flush_close_amounts (by rw [htouched.alive, halive]) k)
  · exact htouched.amounts

/-- Frames of `next_frame` are no longer than the wire format allows. -/
theorem Inbox.nextFrame_length {b b' : Inbox} {f : Frame} (h : b.nextFrame = .ok (some (f, b'))) :
    f.payload.length ≤ kMaxFrameLength := by
  obtain ⟨block, hdecode, -, hlen, -⟩ := Inbox.nextFrame_some h
  rw [hlen]
  exact decodeFrameHeader_length hdecode

theorem Host.Step.amounts {h h' : Host} {e : HostEvent} (hstep : h.Step e h') :
    h.server.Amounts h'.server := by
  obtain ⟨hnext, hreturns⟩ := hstep
  have hdrained : ∀ c, Quiet h.server (h.drained c).server := fun _ => .same rfl rfl rfl rfl rfl
  cases Host.happens hnext with
  | connect env addr => exact Server.Step.amounts (e := .connect env addr) ⟨rfl, trivial⟩
  | ready halive _ => exact serve_amounts halive _ _ _
  | @wake _ c _ halive _ =>
    exact .after (hdrained c) (serve_amounts (by rw [(hdrained c).alive, halive]) _ _ _)
  | @drop _ c _ _ _ => exact (hdrained c).amounts
  | recv _ hread =>
    rw [Host.read_server hread]
    exact (Quiet.refl _).amounts
  | @frame env c _ _ _ _ halive =>
    unfold Host.handle
    split
    · exact (Quiet.update h.server c (by simp)).amounts
    · exact (Quiet.refl _).amounts
    · rename_i f b hframe
      have hframed : h.server.Step (.frame env c f) (h.server.processFrame env c f) :=
        ⟨if_pos ⟨halive, Inbox.nextFrame_length hframe⟩, hreturns f b hframe⟩
      dsimp only
      split <;> exact hframed.amounts
  | @finish c k _ _ _ halive =>
    unfold Host.conclude
    split
    · exact flush_close_amounts halive k
    · exact (quiet_flush h c k).amounts
  | timeout halive _ => exact close_amounts halive
  | expire env => exact Server.Step.amounts (e := .expire env) ⟨rfl, trivial⟩

end Amounts

namespace Host

/-! ## Single steps -/

section Moves

variable {h : Host} {c : ConnId} {x : Connection} {b : Inbox} {closed stillOpen processed : Bool} {env : Env}

theorem record_of (hx : h.server.connections c = some x) : h.record c = x := by
  rw [record, hx]
  rfl

theorem alive_of (hx : h.server.connections c = some x) : h.server.alive c = true := by
  rw [Server.alive, hx]
  rfl

theorem step_ready (hphase : h.phase c = .rest) (hx : h.server.connections c = some x)
    (hreads : x.readPaused = false) (env : Env) (closed : Bool) :
    h.Step (.ready env c { readable := true, closed := closed } { taken := 0 })
      (goTo { h with server := h.server.touched env c } c (.reading closed)) := by
  have hrecord : record { h with server := h.server.touched env c } c =
      { x with lastActivityMs := env.nowMs } := by
    rw [record, Server.touched, Server.connections_update_self, hx]
    rfl
  refine ⟨?_, trivial⟩
  rw [next, if_pos ⟨alive_of hx, hphase⟩, serve]
  dsimp only
  rw [if_neg (by decide), enter, hrecord]
  simp [hreads]

theorem step_data (hphase : h.phase c = .reading closed) (hinbox : h.inbox c = b) (hcap : b.atCap = false)
    {bytes : Bytes} (hpos : 0 < bytes.length) (hlen : bytes.length ≤ kReadBatch) :
    h.Step (.recv c (.data bytes)) { h with
      inbox := Function.update h.inbox c (b.compact.append bytes)
      received := Function.update h.received c (h.received c ++ bytes) } := by
  refine ⟨?_, trivial⟩
  simp [next, hphase, hinbox, read, hcap, hpos, hlen]

/-- `read_available` stops at the cap, when the kernel has no more, and at the end of the stream. -/
theorem step_stops (hphase : h.phase c = .reading closed) (hinbox : h.inbox c = b) {result : RecvResult}
    (hstops : (b.atCap = true ∨ result = .again) ∧ stillOpen = true ∨
      b.atCap = false ∧ result = .closed ∧ stillOpen = false) :
    h.Step (.recv c result) (goTo { h with
      inbox := Function.update h.inbox c b.compact } c (.framing closed stillOpen false)) := by
  refine ⟨?_, trivial⟩
  obtain ⟨hcap | rfl, rfl⟩ | ⟨hcap, rfl, rfl⟩ := hstops <;> simp [next, read, *]

/-- A frame is handled that does not close the connection. -/
theorem step_frame {f : Frame} {b' : Inbox} {x' : Connection}
    (hphase : h.phase c = .framing closed stillOpen processed) (hinbox : h.inbox c = b)
    (hx : h.server.connections c = some x) (hframe : b.nextFrame = .ok (some (f, b')))
    (hreturns : h.server.Returns (.frame env c f))
    (hx' : (h.server.processFrame env c f).connections c = some x') (hopen : x'.closeRequested = false) :
    h.Step (.frame env c) (goTo { h with
      server := h.server.processFrame env c f
      inbox := Function.update h.inbox c b' } c
        (if x'.readPaused then .ending closed stillOpen else .framing closed stillOpen true)) := by
  have hrecord : record { h with
      server := h.server.processFrame env c f
      inbox := Function.update h.inbox c b' } c = x' := record_of hx'
  refine ⟨?_, fun g b'' hg => ?_⟩
  · rw [next, hphase, alive_of hx]
    dsimp only
    rw [handle, hinbox, hframe]
    dsimp only
    rw [hrecord, hopen]
    cases hpaused : x'.readPaused with
    | false => rfl
    | true => cases stillOpen <;> simp [leave, hrecord, hpaused]
  · rw [hinbox] at hg
    cases hframe.symm.trans hg
    exact hreturns

theorem step_noFrame (hphase : h.phase c = .framing closed stillOpen processed) (hinbox : h.inbox c = b)
    (hx : h.server.connections c = some x) (hnone : b.nextFrame = .ok none) (hcap : b.atCap = false)
    (env : Env) : h.Step (.frame env c) (h.goTo c (.ending closed stillOpen)) := by
  refine ⟨?_, fun g b' hg => ?_⟩
  · rw [next, hphase, alive_of hx]
    dsimp only
    rw [handle, hinbox, hnone]
    cases stillOpen <;> simp [leave, hinbox, hcap]
  · rw [hinbox, hnone] at hg
    cases hg

theorem ends_eq_false (hopen : x.closeRequested = false) (taken : Nat) :
    ends x { taken := taken } false true = false := by
  simp [ends, hopen, Connection.flushes]

/-- The last flush, when nobody wants the connection closed. -/
theorem step_finish (hphase : h.phase c = .ending false true) (hx : h.server.connections c = some x)
    (hopen : x.closeRequested = false) (taken : Nat) : h.Step (.finish c { taken := taken })
      (((h.flush c { taken := taken }).updateInterest c).goTo c .rest) := by
  refine ⟨?_, trivial⟩
  rw [next, hphase, alive_of hx]
  dsimp only
  rw [conclude, record_of hx, ends_eq_false hopen]
  rfl

end Moves

/-! ## A client that takes nothing -/

/-- In a run from `h₀`, in which only `c` was served, the server is now `s`, and `c` is at `phase` with
input `b`. The steps of the run meet `P`, which restricts last flushes only. -/
structure Serving (P : Host → HostEvent → Prop) (h₀ : Host) (c : ConnId) (s : Server) (phase : Phase)
    (b : Inbox) (h : Host) : Prop where
  reach : Reach Started (fun h e h' => h.Step e h' ∧ P h e) h
  free : ∀ {h e}, (∀ c k, e ≠ .finish c k) → P h e
  server : h.server = s
  phase : h.phase = Function.update h₀.phase c phase
  inbox : h.inbox = Function.update h₀.inbox c b

section Round

variable {P : Host → HostEvent → Prop} {h₀ h : Host} {c : ConnId} {s : Server}
variable {phase : Phase} {b : Inbox} {x : Connection}
  {env : Env}

theorem Serving.start (hr : Reach Started (fun h e h' => h.Step e h' ∧ P h e) h)
    (hfree : ∀ {h e}, (∀ c k, e ≠ .finish c k) → P h e) :
    Serving P h c h.server (h.phase c) (h.inbox c) h :=
  ⟨hr, hfree, rfl, (Function.update_eq_self _ _).symm, (Function.update_eq_self _ _).symm⟩

theorem Serving.phase_self (hs : Serving P h₀ c s phase b h) : h.phase c = phase := by
  rw [hs.phase, Function.update_self]

theorem Serving.inbox_self (hs : Serving P h₀ c s phase b h) : h.inbox c = b := by
  rw [hs.inbox, Function.update_self]

theorem Serving.phase_kept (hs : Serving P h₀ c s phase b h) : h.phase = Function.update h.phase c phase := by
  rw [hs.phase, Function.update_idem]

theorem Serving.inbox_kept (hs : Serving P h₀ c s phase b h) : h.inbox = Function.update h.inbox c b := by
  rw [hs.inbox, Function.update_idem]

theorem Serving.goTo {h' : Host} {s' : Server} {phase' : Phase} {b' : Inbox}
    (hs : Serving P h₀ c s phase b h) {e : HostEvent} (hstep : h.Step e h') (hP : P h e)
    (hserver : h'.server = s') (hphase : h'.phase = Function.update h.phase c phase')
    (hinbox : h'.inbox = Function.update h.inbox c b') : Serving P h₀ c s' phase' b' h' where
  reach := hs.reach.step ⟨hstep, hP⟩
  free := hs.free
  server := hserver
  phase := by rw [hphase, hs.phase, Function.update_idem]
  inbox := by rw [hinbox, hs.inbox, Function.update_idem]

theorem Serving.ready (hs : Serving P h₀ c s .rest b h) (hx : s.connections c = some x)
    (hpaused : x.readPaused = false) (env : Env) :
    ∃ h', Serving P h₀ c (s.touched env c) (.reading false) b h' :=
  ⟨_, hs.goTo (step_ready hs.phase_self (hs.server ▸ hx) hpaused env false) (hs.free nofun)
    (congrArg (Server.touched · env c) hs.server) rfl hs.inbox_kept⟩

theorem Serving.data (hs : Serving P h₀ c s (.reading false) b h) (hcap : b.atCap = false)
    (bytes : Bytes) (hpos : 0 < bytes.length) (hlen : bytes.length ≤ kReadBatch) :
    ∃ h', Serving P h₀ c s (.reading false) (b.compact.append bytes) h' :=
  ⟨_, hs.goTo (step_data hs.phase_self hs.inbox_self hcap hpos hlen) (hs.free nofun) hs.server
    hs.phase_kept rfl⟩

theorem Serving.again (hs : Serving P h₀ c s (.reading false) b h) :
    ∃ h', Serving P h₀ c s (.framing false true false) b.compact h' :=
  ⟨_, hs.goTo (step_stops hs.phase_self hs.inbox_self (.inl ⟨.inr rfl, rfl⟩)) (hs.free nofun) hs.server
    rfl rfl⟩

theorem Serving.frame {processed : Bool} {f : Frame} {b' : Inbox} {x₀ : Connection}
    (hs : Serving P h₀ c s (.framing false true processed) b h) (hx₀ : s.connections c = some x₀)
    (hframe : b.nextFrame = .ok (some (f, b'))) (hreturns : s.Returns (.frame env c f))
    (hx : (s.processFrame env c f).connections c = some x) (hopen : x.closeRequested = false) :
    ∃ h', Serving P h₀ c (s.processFrame env c f)
      (if x.readPaused then .ending false true else .framing false true true) b' h' := by
  have hserver := hs.server
  subst hserver
  exact ⟨_, hs.goTo (step_frame hs.phase_self hs.inbox_self hx₀ hframe hreturns hx hopen) (hs.free nofun)
    rfl rfl rfl⟩

theorem Serving.noFrame {processed : Bool} (hs : Serving P h₀ c s (.framing false true processed) b h)
    (hx : s.connections c = some x) (hunread : b.unread = []) :
    ∃ h', Serving P h₀ c s (.ending false true) b h' := by
  have hcap : b.atCap = false := by
    rw [Inbox.atCap_eq_false, hunread]
    decide
  exact ⟨_, hs.goTo (step_noFrame hs.phase_self hs.inbox_self (hs.server ▸ hx)
    (Inbox.nextFrame_of_unread_nil hunread) hcap { nowMs := 0 }) (hs.free nofun) hs.server rfl hs.inbox_kept⟩

theorem Serving.finish (hs : Serving P h₀ c s (.ending false true) b h) (hx : s.connections c = some x)
    (hopen : x.closeRequested = false) {taken : Nat}
    (hP : ∀ {h : Host}, h.server = s → P h (.finish c { taken := taken })) :
    ∃ h', Serving P h₀ c (s.update c (·.flushOutput { taken := taken })) .rest b h' :=
  ⟨_, hs.goTo (step_finish hs.phase_self (hs.server ▸ hx) hopen taken) (hP hs.server)
    (congrArg (Server.update · c _) hs.server) rfl hs.inbox_kept⟩

/-- A client sends a frame, which is handled, and takes nothing. -/
theorem Serving.round {type : MessageType} {payload : Bytes} {x' : Connection}
    (hs : Serving P h₀ c s .rest b h) (hx : s.connections c = some x) (hpaused : x.readPaused = false)
    (hwf : b.WF) (hunread : b.unread = []) (hnamed : type.Named)
    (hlen : kFrameHeaderSize + payload.length ≤ kReadBatch) (htype : type ≠ .sendRequest)
    (hx' : ((s.touched env c).processFrame env c (Frame.of type payload)).connections c = some x')
    (hopen : x'.closeRequested = false)
    (hP : ∀ {h : Host}, h.server = (s.touched env c).processFrame env c (Frame.of type payload) →
      P h (.finish c { taken := 0 })) :
    ∃ b' h', b'.WF ∧ b'.unread = [] ∧ Serving P h₀ c
      (((s.touched env c).processFrame env c (Frame.of type payload)).update c
        (·.flushOutput { taken := 0 })) .rest b' h' := by
  have hsize : (frameBytes type payload).length = kFrameHeaderSize + payload.length := by
    rw [frameBytes, List.length_append, length_encodeFrameHeader, kFrameHeaderSize]
  have hcap : b.atCap = false := by
    rw [Inbox.atCap_eq_false, hunread]
    decide
  -- the shard reads the frame, and then the socket has no more
  obtain ⟨h₁, h₁s⟩ := hs.ready hx hpaused env
  obtain ⟨h₂, h₂s⟩ := h₁s.data hcap (frameBytes type payload)
    (by rw [hsize, kFrameHeaderSize]; omega) (by rw [hsize]; exact hlen)
  obtain ⟨h₃, h₃s⟩ := h₂s.again
  generalize hb₃ : (b.compact.append (frameBytes type payload)).compact = b₃ at h₃s
  have hunread₃ : b₃.unread = frameBytes type payload ++ [] := by
    rw [← hb₃, Inbox.unread_compact, hwf.compact.unread_append, Inbox.unread_compact, hunread,
      List.nil_append, List.append_nil]
  have hwf₃ : b₃.WF := hb₃ ▸ (hwf.compact.append _).compact
  have hframe := Inbox.nextFrame_of_unread hnamed (by simp only [kReadBatch, kMaxFrameLength] at *; omega)
    hunread₃
  generalize hb₄ : ({ b₃ with consumed := b₃.consumed + (frameBytes type payload).length } : Inbox) = b₄
    at hframe
  obtain ⟨-, -, hsplit, -, -, -, hwf₄⟩ := Inbox.nextFrame_some hframe
  have hunread₄ : b₄.unread = [] := by
    rw [← hb₄, Inbox.unread, ← List.drop_drop]
    change b₃.unread.drop _ = []
    rw [hunread₃, List.append_nil, List.drop_length]
  -- then it is handled, which may pause the connection
  have hx₃ : (s.touched env c).connections c = some { x with lastActivityMs := env.nowMs } := by
    rw [Server.touched, Server.connections_update_self, hx]
    rfl
  obtain ⟨h₄, h₄s⟩ := Serving.frame h₃s hx₃ hframe (fun h => absurd h htype) hx' hopen
  cases hpaused' : x'.readPaused with
  | true =>
    rw [hpaused'] at h₄s
    obtain ⟨h₅, h₅s⟩ := Serving.finish h₄s hx' hopen hP
    exact ⟨b₄, h₅, hwf₄, hunread₄, h₅s⟩
  | false =>
    rw [hpaused'] at h₄s
    obtain ⟨h₅, h₅s⟩ := Serving.noFrame h₄s hx' hunread₄
    obtain ⟨h₆, h₆s⟩ := h₅s.finish hx' hopen hP
    exact ⟨b₄, h₆, hwf₄, hunread₄, h₆s⟩

/-- A wake is drained: the first flush, which takes nothing. -/
theorem Serving.wake (hs : Serving P h₀ c s .rest b h) (hx : s.connections c = some x)
    (hpaused : x.readPaused = false) (hwoken : c ∈ s.wakeQueue) {s' : Server} {x' : Connection}
    (hs' : ({ s with wakeQueue := s.wakeQueue.erase c }.touched env c).update c
      (·.flushOutput { taken := 0 }) = s') (hx' : s'.connections c = some x')
    (hpaused' : x'.readPaused = false) (hstay : s'.resumeSource x' = s') :
    ∃ h', Serving P h₀ c s' (.reading false) b h' := by
  have halive := alive_of (hs.server ▸ hx)
  have hevent : h.wakeEvent c = { readable := true, writable := true } := by
    rw [wakeEvent, record_of (hs.server ▸ hx), hpaused]
    rfl
  generalize hdrained : ({ h with server := { h.server with
    wakeQueue := h.server.wakeQueue.erase c } } : Host) = drained
  have hserver : ({ drained with server := drained.server.touched env c } : Host).server =
      { s with wakeQueue := s.wakeQueue.erase c }.touched env c := by
    rw [← hdrained, hs.server]
  have hinbox : drained.inbox = h.inbox := hdrained ▸ rfl
  have hphase : drained.phase = h.phase := hdrained ▸ rfl
  have hflushed : (flush { drained with server := drained.server.touched env c } c
      { taken := 0 }).server = s' := by
    rw [flush, hserver, hs']
  have hstep : h.Step (.wake env c { taken := 0 }) (enter { flush
      { drained with server := drained.server.touched env c } c { taken := 0 } with
        server := s' } c { readable := true, writable := true }) := by
    refine ⟨?_, trivial⟩
    rw [next, if_pos ⟨hs.server ▸ hwoken, hs.phase_self⟩]
    dsimp only
    rw [if_pos halive, hevent, hdrained, serve]
    dsimp only
    rw [if_pos rfl, if_pos (by simp [Connection.flushes]), record_of (hflushed ▸ hx'), hflushed, hstay]
  have hentered : enter { flush { drained with server := drained.server.touched env c } c
      { taken := 0 } with server := s' } c { readable := true, writable := true } =
      Host.goTo { flush { drained with server := drained.server.touched env c } c { taken := 0 } with
        server := s' } c (.reading false) := by
    rw [enter, record_of hx', hpaused']
    rfl
  rw [hentered] at hstep
  refine ⟨_, hs.goTo hstep (hs.free nofun) rfl ?_ ?_⟩
  · exact congrArg (Function.update · c (.reading false)) hphase
  · exact hinbox.trans hs.inbox_kept

/-- Nothing was sent to be read. -/
theorem Serving.idle (hs : Serving P h₀ c s (.reading false) b h) (hx : s.connections c = some x)
    (hopen : x.closeRequested = false) (hunread : b.unread = []) {taken : Nat}
    (hP : ∀ {h : Host}, h.server = s → P h (.finish c { taken := taken })) :
    ∃ h', Serving P h₀ c (s.update c (·.flushOutput { taken := taken })) .rest b.compact h' := by
  obtain ⟨h₁, h₁s⟩ := hs.again
  obtain ⟨h₂, h₂s⟩ := h₁s.noFrame hx (by rw [Inbox.unread_compact, hunread])
  exact h₂s.finish hx hopen hP

end Round

end Host

end DropZone
