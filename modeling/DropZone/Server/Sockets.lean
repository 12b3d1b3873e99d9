import DropZone.Server.Flags

/-!
# The sockets of the clients

A client sends bytes, which wait in the kernel until the server reads them, and closes its end. The
poller reports a socket once when something comes, so `service_connection` has to read until `EAGAIN`.

* `Remote`: the kernel's side of a connection, and what is remembered of its history.
* `Sockets.Step`: clients send and close, and the server goes on as in `Host.next`; `recv` gives what
  the kernel has.
* `framesIn`: the frames that are whole in a string of bytes.
* `readable_drained`: where a connection never has as many bytes waiting as the input buffer may hold,
  a readable event is served until `EAGAIN`; where it has as many at the start, it is not.
  `long_queue_left`: then bytes may stay in the kernel.

Most fields of `Remote` are ghosts.
-/

namespace DropZone

open LittleEndian StateSpec System

/-! ## Frames in a string of bytes -/

namespace Inbox

theorem nextFrame_cut {b : Inbox} {type : MessageType} {payload : Bytes} {n : Nat}
    (hnamed : type.Named) (hlen : payload.length ≤ kMaxFrameLength)
    (hunread : b.unread = (frameBytes type payload).take n) (hn : n < 8 + payload.length) :
    b.nextFrame = .ok none := by
  have hheader := length_encodeFrameHeader (Frame.of type payload).header
  have hbytes : frameBytes type payload = encodeFrameHeader (Frame.of type payload).header ++ payload :=
    rfl
  have hlength : (UInt32.ofNat payload.length).toNat = payload.length := by
    rw [UInt32.toNat_ofNat', Nat.mod_eq_of_lt]
    simp only [kMaxFrameLength] at hlen
    omega
  have htotal : b.unread.length = n := by
    rw [hunread, List.length_take_of_le]
    rw [hbytes, List.length_append, hheader]
    omega
  unfold nextFrame
  split
  · rename_i h8
    have h8n : 8 ≤ n := htotal ▸ h8
    have hblock : (⟨b.unread.take 8, List.length_take_of_le h8⟩ : Block 8) =
        (Frame.of type payload).header.block := by
      refine Subtype.ext ?_
      change b.unread.take 8 = encodeFrameHeader _
      rw [hunread, List.take_take, Nat.min_eq_left h8n, hbytes, List.take_left' hheader]
    rw [hblock, decodeFrameHeader_block (h := (Frame.of type payload).header) rfl hnamed
      (by rw [Frame.of, hlength]; exact hlen)]
    dsimp only [Frame.of]
    rw [hlength, if_pos (by rw [htotal, kFrameHeaderSize]; omega)]
  · rfl

theorem nextFrame_append {b b' : Inbox} {f : Frame} (h : b.nextFrame = .ok (some (f, b')))
    (more : Bytes) : ∃ b'' : Inbox, Inbox.nextFrame { input := b.unread ++ more } = .ok (some (f, b'')) ∧
      b''.unread = b'.unread ++ more := by
  obtain ⟨block, hdecode, hunread, hlen, -⟩ := nextFrame_some h
  have hsplit : ({ input := b.unread ++ more } : Inbox).unread =
      block.toList ++ f.payload ++ (b'.unread ++ more) := by
    change b.unread ++ more = _
    rw [hunread, List.append_assoc (block.toList ++ f.payload)]
  exact ⟨_, nextFrame_of_split hdecode hsplit hlen⟩

theorem nextFrame_unread {b : Inbox} (hnone : ∀ f b', b.nextFrame ≠ .ok (some (f, b'))) :
    ∀ f b', Inbox.nextFrame { input := b.unread } ≠ .ok (some (f, b')) := by
  intro f b' h
  obtain ⟨block, hdecode, hunread, hlen, -⟩ := nextFrame_some h
  exact hnone _ _ (nextFrame_of_split (b := b) hdecode hunread hlen).1

end Inbox

/-- The frames that are whole in front of `bytes`, with fuel. -/
def wholeFrames : Nat → Bytes → List Frame
  | 0, _ => []
  | n + 1, bytes =>
    match Inbox.nextFrame { input := bytes } with
    | .ok (some (f, b)) => f :: wholeFrames n b.unread
    | _ => []

/-- The frames that are whole in front of `bytes`. -/
def framesIn (bytes : Bytes) : List Frame := wholeFrames bytes.length bytes

theorem wholeFrames_fuel {n : Nat} {bytes : Bytes} (h : bytes.length ≤ n) :
    wholeFrames n bytes = framesIn bytes := by
  have hany : ∀ {k m : Nat} {bytes : Bytes}, bytes.length ≤ k → bytes.length ≤ m →
      wholeFrames k bytes = wholeFrames m bytes := by
    intro k
    induction k with
    | zero =>
      intro m bytes hk _
      have hnil : bytes = [] := List.length_eq_zero_iff.mp (Nat.le_zero.mp hk)
      subst hnil
      cases m with
      | zero => rfl
      | succ m =>
        rw [wholeFrames, wholeFrames, Inbox.nextFrame_of_unread_nil rfl]
    | succ k ih =>
      intro m bytes hk hm
      cases m with
      | zero =>
        have hnil : bytes = [] := List.length_eq_zero_iff.mp (Nat.le_zero.mp hm)
        subst hnil
        rw [wholeFrames, wholeFrames, Inbox.nextFrame_of_unread_nil rfl]
      | succ m =>
        rw [wholeFrames, wholeFrames]
        split
        · rename_i f b hframe
          -- a frame takes at least its header away
          obtain ⟨block, -, hunread, -⟩ := Inbox.nextFrame_some hframe
          have hlen := congrArg List.length hunread
          rw [List.length_append, List.length_append, block.toList_length] at hlen
          change bytes.length = _ at hlen
          exact congrArg (f :: ·) (ih (by omega) (by omega))
        · rfl
  exact hany h (Nat.le_refl _)

theorem framesIn_cons {b b' : Inbox} {f : Frame} (h : b.nextFrame = .ok (some (f, b')))
    (more : Bytes) : framesIn (b.unread ++ more) = f :: framesIn (b'.unread ++ more) := by
  obtain ⟨b'', hframe, hunread⟩ := Inbox.nextFrame_append h more
  obtain ⟨block, -, hsplit, -⟩ := Inbox.nextFrame_some hframe
  have hlen : (b.unread ++ more).length = 8 + f.payload.length + b''.unread.length := by
    have := congrArg List.length hsplit
    rwa [List.length_append, List.length_append, block.toList_length] at this
  obtain ⟨n, hn⟩ : ∃ n, (b.unread ++ more).length = n + 1 := ⟨7 + f.payload.length + b''.unread.length,
    by omega⟩
  rw [framesIn, hn, wholeFrames, hframe]
  dsimp only
  rw [wholeFrames_fuel (by omega), hunread]

theorem framesIn_nil {b : Inbox} (h : ∀ f b', b.nextFrame ≠ .ok (some (f, b'))) :
    framesIn b.unread = [] := by
  unfold framesIn
  cases b.unread.length with
  | zero => rfl
  | succ n =>
    rw [wholeFrames]
    split
    · rename_i f b' hframe
      exact absurd hframe (Inbox.nextFrame_unread h f b')
    · rfl

/-! ## Clients -/

/-- The kernel's side of a connection. -/
structure Remote where
  /-- What has arrived and was not read yet. -/
  queue : Bytes := []
  /-- The client has closed its end. -/
  hungUp : Bool := false
  /-- All that the client sent so far. -/
  stream : Bytes := []
  /-- The frames that were passed to `handle_frame`. -/
  handled : List Frame := []
  /-- A frame of the client requested the close of the connection, or could not be parsed. -/
  quit : Bool := false
  /-- The event that is being served reported the socket readable, and reading was not paused. -/
  asked : Bool := false
  /-- The last `recv` for that event returned `EAGAIN`. -/
  drained : Bool := false
  /-- What has arrived since the last `recv`. -/
  late : Bytes := []

structure Sockets where
  host : Host
  client : ConnId → Remote := fun _ => {}

inductive SocketEvent where
  /-- Bytes of a client arrive. -/
  | arrive (c : ConnId) (bytes : Bytes)
  | hangUp (c : ConnId)
  | host (e : HostEvent)

namespace Remote

/-- Bytes of the client arrive. -/
def sends (k : Remote) (bytes : Bytes) : Remote :=
  { k with queue := k.queue ++ bytes, stream := k.stream ++ bytes, late := k.late ++ bytes }

/-- `recv` returned. -/
def received (k : Remote) : RecvResult → Remote
  | .data bytes => { k with queue := k.queue.drop bytes.length, drained := false, late := [] }
  | .again => { k with drained := true, late := [] }
  | .closed | .failed | .interrupted => { k with drained := false, late := [] }

/-- What `recv` may return. -/
def Gives (k : Remote) : RecvResult → Prop
  | .data bytes => bytes <+: k.queue
  | .again => k.queue = [] ∧ k.hungUp = false
  | .closed => k.queue = [] ∧ k.hungUp = true
  | .interrupted | .failed => True

/-- A frame was passed to `handle_frame`, which did or did not request the close. -/
def handles (k : Remote) (f : Frame) (quits : Bool) : Remote :=
  { k with handled := k.handled ++ [f], quit := k.quit || quits }

end Remote

namespace Sockets

/-- What is known of one client changes. -/
def learn (w : Sockets) (c : ConnId) (k : Remote) : Sockets :=
  { w with client := Function.update w.client c k }

@[simp] theorem learn_host (w : Sockets) (c : ConnId) (k : Remote) : (w.learn c k).host = w.host := rfl

@[simp] theorem learn_client (w : Sockets) (c : ConnId) (k : Remote) : (w.learn c k).client c = k :=
  Function.update_self ..

/-- The bytes that wait for the server to handle them. -/
def load (w : Sockets) (c : ConnId) : Nat :=
  (w.host.inbox c).unread.length + (w.client c).queue.length

/-- The calls that the kernel answers as it may. At the cap nothing is received. -/
def Gives (w : Sockets) : HostEvent → Prop
  | .recv c result => (w.host.inbox c).atCap = false → (w.client c).Gives result
  | _ => True

/-- The frame that `c` has handled next requests its close. -/
def quits (w : Sockets) (env : Env) (c : ConnId) (f : Frame) : Bool :=
  !(w.host.record c).closeRequested &&
    ((w.host.server.processFrame env c f).connections c).any (·.closeRequested)

/-- What is remembered of an event of the server. -/
def noted (w : Sockets) : HostEvent → ConnId → Remote
  | .ready _ c event _ => Function.update w.client c { w.client c with
      asked := event.readable && !(w.host.record c).readPaused
      drained := false }
  | .wake _ c _ => Function.update w.client c { w.client c with
      asked := !(w.host.record c).readPaused
      drained := false }
  | .recv c result =>
    if (w.host.inbox c).atCap then w.client
    else Function.update w.client c ((w.client c).received result)
  | .frame env c =>
    match (w.host.inbox c).nextFrame with
    | .ok (some (f, _)) => Function.update w.client c ((w.client c).handles f (w.quits env c f))
    | .ok none => w.client
    | .error _ => Function.update w.client c { w.client c with quit := true }
  | .connect _ _ | .finish _ _ | .timeout _ | .expire _ => w.client

inductive Step : Sockets → SocketEvent → Sockets → Prop
  | arrive {w : Sockets} {c : ConnId} (bytes : Bytes) (alive : w.host.server.alive c = true)
      (opened : (w.client c).hungUp = false) :
      Step w (.arrive c bytes) (w.learn c ((w.client c).sends bytes))
  | hangUp {w : Sockets} {c : ConnId} (alive : w.host.server.alive c = true) :
      Step w (.hangUp c) (w.learn c { w.client c with hungUp := true })
  | host {w : Sockets} {e : HostEvent} {h : Host} (step : w.host.Step e h) (gives : w.Gives e) :
      Step w (.host e) { host := h, client := w.noted e }

def Started (w : Sockets) : Prop := ∃ h : Host, h.Started ∧ w = { host := h }

end Sockets

/-! ## What an event does to a connection's buffer and to where its shard is -/

namespace HostEvent

/-- The connection that the event serves. -/
def about : HostEvent → Option ConnId
  | .ready _ c _ _ | .wake _ c _ | .recv c _ | .frame _ c | .finish c _ | .timeout c => some c
  | .connect _ _ | .expire _ => none

end HostEvent

namespace Host

variable {h h' : Host} {c d : ConnId} {e : HostEvent}

theorem close_phase (h : Host) (c : ConnId) :
    (h.close c).phase = Function.update h.phase c .rest ∧ (h.close c).inbox = h.inbox := ⟨rfl, rfl⟩

theorem serve_phase (h : Host) (env : Env) (c : ConnId) (event : ReadyEvent) (k : Socket) :
    (h.serve env c event k).inbox = h.inbox ∧
      ∃ phase, (h.serve env c event k).phase = Function.update h.phase c phase := by
  unfold serve
  dsimp only
  repeat' split
  all_goals exact ⟨rfl, _, rfl⟩

theorem next_other (hn : h.next e = some h') (hc : e.about ≠ some c) :
    h'.phase c = h.phase c ∧ h'.inbox c = h.inbox c := by
  have hne : ∀ {d : ConnId}, some d ≠ some c → c ≠ d := fun hd he => hd (congrArg some he.symm)
  cases happens hn with
  | connect | drop | expire => exact ⟨rfl, rfl⟩
  | @ready env d event k _ _ =>
    obtain ⟨hinbox, phase, hphase⟩ := h.serve_phase env d event k
    rw [hphase, hinbox, Function.update_of_ne (hne hc)]
    exact ⟨rfl, rfl⟩
  | @wake env d k _ _ =>
    obtain ⟨hinbox, phase, hphase⟩ := (h.drained d).serve_phase env d (h.wakeEvent d) k
    rw [hphase, hinbox, Function.update_of_ne (hne hc)]
    exact ⟨rfl, rfl⟩
  | recv _ hread =>
    obtain ⟨bytes, -, -, rfl⟩ | rfl | ⟨stillOpen, rfl⟩ := read_eq_some hread <;>
      simp [goTo, Function.update_of_ne (hne hc)]
  | frame _ _ =>
    unfold handle leave
    split
    · simp [goTo, Function.update_of_ne (hne hc)]
    · simp [goTo, Function.update_of_ne (hne hc)]
    · dsimp only
      split <;> simp [goTo, Function.update_of_ne (hne hc)]
  | @finish d _ _ _ _ _ =>
    unfold conclude
    split
    · rw [(close_phase _ d).1, (close_phase _ d).2, Function.update_of_ne (hne hc)]
      exact ⟨rfl, rfl⟩
    · simp [goTo, updateInterest, flush, Function.update_of_ne (hne hc)]
  | @timeout d _ _ =>
    rw [(close_phase _ d).1, (close_phase _ d).2, Function.update_of_ne (hne hc)]
    exact ⟨rfl, rfl⟩

theorem record_readPaused : (h.record c).readPaused = true ↔ h.server.Paused c := by
  rw [record, Server.Paused]
  cases h.server.connections c <;> simp

theorem record_closeRequested : (h.record c).closeRequested = true ↔ h.server.Leaving c := by
  rw [record, Server.Leaving]
  cases h.server.connections c <;> simp

theorem enter_goes (h : Host) (c : ConnId) (event : ReadyEvent) :
    (h.enter c event).phase c = .reading event.closed ∧ ¬ h.server.Paused c ∨
      (h.enter c event).phase c = .ending event.closed true ∧
        (event.readable = true → h.server.Paused c) := by
  rw [← record_readPaused]
  unfold enter goTo
  dsimp only
  rw [Function.update_self]
  split
  · rename_i hreads
    rw [Bool.and_eq_true, Bool.not_eq_true'] at hreads
    exact .inl ⟨rfl, by rw [hreads.1]; decide⟩
  · rename_i hskips
    refine .inr ⟨rfl, fun hreadable => ?_⟩
    rw [hreadable, Bool.true_or, Bool.and_true, Bool.not_eq_true', Bool.not_eq_false] at hskips
    exact hskips

/-- It is entered, unless the first flush fails. -/
theorem serve_goes (h : Host) (env : Env) (c : ConnId) (event : ReadyEvent) (k : Socket)
    (hopen : (event.writable && !(h.record c).flushes k) = false) :
    (h.serve env c event k).phase c = .reading event.closed ∧
        ¬ (h.serve env c event k).server.Paused c ∨
      (h.serve env c event k).phase c = .ending event.closed true ∧
        (event.readable = true → h.server.Paused c) := by
  have hkept : ∀ {g : Host}, Raises (fun _ => False) (fun _ => False) h.server g.server →
      ∀ {P : Prop}, P ∨ (g.enter c event).phase c = .ending event.closed true ∧
        (event.readable = true → g.server.Paused c) →
      P ∨ (g.enter c event).phase c = .ending event.closed true ∧
        (event.readable = true → h.server.Paused c) := by
    intro g hraises P hor
    exact hor.imp_right fun ⟨hphase, hpaused⟩ =>
      ⟨hphase, fun hreadable => (hraises.paused c (hpaused hreadable)).resolve_right id⟩
  unfold serve
  dsimp only
  rw [record_touched]
  split
  · rename_i hwritable
    rw [hwritable, Bool.true_and, Bool.not_eq_false'] at hopen
    rw [if_pos hopen]
    refine hkept ?_ (enter_goes _ c event)
    exact ((touched_raises h env c).trans (flush_raises { h with server := h.server.touched env c } c
      k)).trans (Server.resumeSource_raises _ _)
  · exact hkept (touched_raises h env c) (enter_goes _ c event)

theorem serve_closed (h : Host) (env : Env) (c : ConnId) (event : ReadyEvent) (k : Socket)
    (hclosed : (event.writable && !(h.record c).flushes k) = true) :
    (h.serve env c event k).phase c = .rest := by
  rw [Bool.and_eq_true, Bool.not_eq_true'] at hclosed
  unfold serve
  dsimp only
  rw [record_touched, if_pos hclosed.1, if_neg (by rw [hclosed.2]; decide), (close_phase _ c).1,
    Function.update_self]

theorem read_goes {closed : Bool} {result : RecvResult} (hcap : (h.inbox c).atCap = false)
    (hread : h.read c closed result = some h') :
    (∃ bytes, result = .data bytes ∧ h'.phase c = h.phase c ∧
      h'.inbox c = (h.inbox c).compact.append bytes) ∨
    h'.inbox c = (h.inbox c).compact ∧ (result = .interrupted ∧ h'.phase c = h.phase c ∨
      result = .again ∧ h'.phase c = .framing closed true false ∨
      (result = .closed ∨ result = .failed) ∧ h'.phase c = .framing closed false false) := by
  unfold read at hread
  dsimp only at hread
  rw [Inbox.atCap_compact, hcap, if_neg (by decide)] at hread
  cases result with
  | data bytes =>
    obtain ⟨-, hread⟩ := Option.ite_none_right_eq_some.mp hread
    cases hread
    exact .inl ⟨bytes, rfl, rfl, Function.update_self ..⟩
  | interrupted =>
    cases hread
    exact .inr ⟨Function.update_self .., .inl ⟨rfl, rfl⟩⟩
  | again =>
    cases hread
    exact .inr ⟨Function.update_self .., .inr (.inl ⟨rfl, Function.update_self ..⟩)⟩
  | closed =>
    cases hread
    exact .inr ⟨Function.update_self .., .inr (.inr ⟨.inl rfl, Function.update_self ..⟩)⟩
  | failed =>
    cases hread
    exact .inr ⟨Function.update_self .., .inr (.inr ⟨.inr rfl, Function.update_self ..⟩)⟩

theorem leave_goes (h : Host) (c : ConnId) (closed stillOpen processed : Bool) :
    (h.leave c closed stillOpen processed).phase c = .ending closed stillOpen ∨
      (h.leave c closed stillOpen processed).phase c = .reading closed ∧ stillOpen = true ∧
        ¬ h.server.Paused c ∧ (h.inbox c).atCap = true := by
  rw [← record_readPaused]
  unfold leave goTo
  dsimp only
  rw [Function.update_self]
  cases stillOpen with
  | false => exact .inl rfl
  | true =>
    rw [if_neg (by decide)]
    split
    · exact .inl rfl
    · rename_i hstays
      rw [Bool.or_eq_true, not_or] at hstays
      split
      · exact .inl rfl
      · rename_i hfull
        exact .inr ⟨rfl, rfl, hstays.2, by simpa using (not_or.mp (mt (Bool.or_eq_true _ _).mpr hfull)).2⟩

/-- A connection that was asked to close or is paused reads no more. -/
theorem leave_ends (hflags : h.server.Leaving c ∨ h.server.Paused c) (closed stillOpen processed : Bool) :
    (h.leave c closed stillOpen processed).phase c = .ending closed stillOpen := by
  rw [← record_closeRequested, ← record_readPaused, ← Bool.or_eq_true] at hflags
  unfold leave goTo
  dsimp only
  rw [Function.update_self]
  cases stillOpen with
  | false => rfl
  | true => rw [if_neg (by decide), if_pos hflags]

theorem handle_goes (halive : h.server.alive c = true) (env : Env) (closed stillOpen processed : Bool)
    (hh' : h.handle env c closed stillOpen processed = h') :
    (∃ err, (h.inbox c).nextFrame = .error err ∧ h'.inbox c = h.inbox c ∧
      h'.phase c = .ending closed stillOpen) ∨
    ((h.inbox c).nextFrame = .ok none ∧ h'.server = h.server ∧ h'.inbox c = h.inbox c ∧
      (h'.phase c = .ending closed stillOpen ∨
        h'.phase c = .reading closed ∧ stillOpen = true ∧ ¬ h'.server.Paused c ∧
          (h'.inbox c).atCap = true)) ∨
    ∃ f b, (h.inbox c).nextFrame = .ok (some (f, b)) ∧ h'.server = h.server.processFrame env c f ∧
      h'.inbox c = b ∧ (h'.phase c = .ending closed stillOpen ∧
          (h'.server.Leaving c ∨ h'.server.Paused c) ∨
        h'.phase c = .framing closed stillOpen true ∧ ¬ h'.server.Paused c) := by
  subst hh'
  unfold handle
  split
  · rename_i err hframe
    refine .inl ⟨err, hframe, rfl, leave_ends (.inl ?_) _ _ _⟩
    exact Server.leaving_requestClose halive err.what
  · rename_i hframe
    exact .inr (.inl ⟨hframe, rfl, rfl, h.leave_goes c closed stillOpen processed⟩)
  · rename_i f b hframe
    refine .inr (.inr ⟨f, b, hframe, ?_⟩)
    generalize hg : ({ h with
      server := h.server.processFrame env c f
      inbox := Function.update h.inbox c b } : Host) = g
    have hserver : g.server = h.server.processFrame env c f := hg ▸ rfl
    have hinbox : g.inbox c = b := by
      rw [← hg]
      exact Function.update_self ..
    dsimp only
    split
    · rename_i hflags
      rw [Bool.or_eq_true, record_closeRequested, record_readPaused] at hflags
      exact ⟨hserver, hinbox, .inl ⟨leave_ends hflags _ _ _, hflags⟩⟩
    · rename_i hflags
      rw [Bool.or_eq_true, not_or, record_readPaused] at hflags
      exact ⟨hserver, hinbox, .inr ⟨Function.update_self .., hflags.2⟩⟩

theorem conclude_phase (h : Host) (c : ConnId) (k : Socket) (closed stillOpen : Bool) :
    (h.conclude c k closed stillOpen).phase c = .rest ∧
      (h.conclude c k closed stillOpen).inbox = h.inbox := by
  unfold conclude
  split
  · rw [(close_phase _ c).1, (close_phase _ c).2, Function.update_self]
    exact ⟨rfl, rfl⟩
  · exact ⟨Function.update_self .., rfl⟩

end Host

/-! ## What is left in the kernel -/

namespace SocketEvent

def about : SocketEvent → Option ConnId
  | .arrive c _ | .hangUp c => some c
  | .host e => e.about

end SocketEvent

namespace Sockets

variable {w w' : Sockets} {c : ConnId} {e : SocketEvent}

theorem noted_other {e : HostEvent} (w : Sockets) (hc : e.about ≠ some c) :
    w.noted e c = w.client c := by
  have hne : ∀ {d : ConnId}, some d ≠ some c → c ≠ d := fun hd he => hd (congrArg some he.symm)
  cases e with
  | connect | expire | finish | timeout => rfl
  | ready | wake => exact Function.update_of_ne (hne hc) _ _
  | recv d result =>
    rw [noted]
    split
    · rfl
    · exact Function.update_of_ne (hne hc) _ _
  | frame env d =>
    rw [noted]
    cases (w.host.inbox d).nextFrame with
    | error _ => exact Function.update_of_ne (hne hc) _ _
    | ok found =>
      cases found with
      | none => rfl
      | some _ => exact Function.update_of_ne (hne hc) _ _

/-- Nothing happens to the connections that the event is not about. -/
theorem Step.other (hs : w.Step e w') (hc : e.about ≠ some c) : w'.host.phase c = w.host.phase c ∧
    w'.host.inbox c = w.host.inbox c ∧ w'.client c = w.client c := by
  have hne : ∀ {d : ConnId}, some d ≠ some c → c ≠ d := fun hd he => hd (congrArg some he.symm)
  cases hs with
  | arrive | hangUp => exact ⟨rfl, rfl, Function.update_of_ne (hne hc) _ _⟩
  | host step _ =>
    obtain ⟨hphase, hinbox⟩ := Host.next_other step.1 hc
    exact ⟨hphase, hinbox, noted_other w hc⟩

end Sockets

/-- What an event of the server does to a connection that it is about: to where its shard is, to what was
read from it and to what is known of its client. -/
inductive ShardTurn : Phase → Inbox → Remote → Phase → Inbox → Remote → Prop
  | served {phase b k asked} (goes : phase = .rest ∨ (∃ closed, phase = .reading closed) ∨
      ∃ closed, phase = .ending closed true ∧ asked = false) :
      ShardTurn .rest b k phase b { k with asked := asked, drained := false }
  | ended {phase b k} : ShardTurn phase b k .rest b k
  | data {closed b k bytes} (room : b.atCap = false)
      (gives : bytes <+: k.queue) :
      ShardTurn (.reading closed) b k (.reading closed) (b.compact.append bytes) (k.received (.data bytes))
  | interrupted {closed b k} :
      ShardTurn (.reading closed) b k (.reading closed) b.compact (k.received .interrupted)
  | again {closed b k} (room : b.atCap = false) (empty : k.queue = []) :
      ShardTurn (.reading closed) b k (.framing closed true false) b.compact (k.received .again)
  | stopped {closed b k} :
      ShardTurn (.reading closed) b k (.framing closed false false) b.compact (k.received .closed)
  | full {closed b k} (cap : b.atCap = true) :
      ShardTurn (.reading closed) b k (.framing closed true false) b.compact k
  | framed {closed stillOpen processed quits b b' k f phase} (next : b.nextFrame = .ok (some (f, b')))
      (goes : phase = .ending closed stillOpen ∨ phase = .framing closed stillOpen true) :
      ShardTurn (.framing closed stillOpen processed) b k phase b' (k.handles f quits)
  | unframed {closed stillOpen processed quit b k phase}
      (goes : phase = .ending closed stillOpen ∨ phase = .reading closed ∧ b.atCap = true) :
      ShardTurn (.framing closed stillOpen processed) b k phase b { k with quit := quit }

namespace Sockets

variable {w w' : Sockets} {c : ConnId} {e : SocketEvent}

theorem turn_serve {h : Host} {env : Env} {event : ReadyEvent} {k : Socket} {asked : Bool}
    (hphase : w.host.phase c = .rest) (hinbox : h.inbox c = w.host.inbox c)
    (hserver : ∀ y, h.server.Paused y → w.host.server.Paused y)
    (hasked : asked = (event.readable && !(w.host.record c).readPaused)) :
    ShardTurn (w.host.phase c) (w.host.inbox c) (w.client c) ((h.serve env c event k).phase c)
      ((h.serve env c event k).inbox c) { w.client c with asked := asked, drained := false } := by
  rw [(h.serve_phase env c event k).1, hinbox, hphase]
  refine .served ?_
  cases hbroken : event.writable && !(h.record c).flushes k with
  | true => exact .inl (h.serve_closed env c event k hbroken)
  | false =>
    obtain ⟨hreads, -⟩ | ⟨hends, hpaused⟩ := h.serve_goes env c event k hbroken
    · exact .inr (.inl ⟨_, hreads⟩)
    · -- it was not asked to read, or it is paused
      refine .inr (.inr ⟨_, hends, ?_⟩)
      rw [hasked]
      cases hreadable : event.readable with
      | false => rfl
      | true => rw [Host.record_readPaused.mpr (hserver c (hpaused hreadable))]; rfl

theorem turn_recv {h : Host} {closed : Bool} {result : RecvResult} (hphase : w.host.phase c = .reading closed)
    (hread : w.host.read c closed result = some h) (hgives : w.Gives (.recv c result)) :
    ShardTurn (w.host.phase c) (w.host.inbox c) (w.client c) (h.phase c) (h.inbox c)
      (w.noted (.recv c result) c) := by
  dsimp only [noted]
  cases hcap : (w.host.inbox c).atCap with
  | true =>
    unfold Host.read at hread
    dsimp only at hread
    rw [Inbox.atCap_compact, hcap, if_pos rfl] at hread
    cases hread
    dsimp only [Host.goTo]
    rw [hphase, if_pos rfl, Function.update_self, Function.update_self]
    exact .full hcap
  | false =>
    rw [if_neg (by decide), Function.update_self]
    have hgives := hgives hcap
    obtain ⟨bytes, rfl, hgoes, hinbox⟩ | ⟨hinbox, ⟨rfl, hgoes⟩ | ⟨rfl, hgoes⟩ | ⟨rfl | rfl, hgoes⟩⟩ :=
      Host.read_goes hcap hread
    all_goals rw [hgoes, hinbox, hphase]
    · exact .data hcap hgives
    · exact .interrupted
    · exact .again hcap hgives.1
    · exact .stopped
    · exact .stopped

theorem turn_frame {env : Env} {closed stillOpen processed : Bool} (halive : w.host.server.alive c = true)
    (hphase : w.host.phase c = .framing closed stillOpen processed) {h : Host}
    (hhandle : w.host.handle env c closed stillOpen processed = h) :
    ShardTurn (w.host.phase c) (w.host.inbox c) (w.client c) (h.phase c) (h.inbox c)
      (w.noted (.frame env c) c) := by
  dsimp only [noted]
  rw [hphase]
  obtain ⟨_, hframe, hinbox, hgoes⟩ | ⟨hframe, -, hinbox, hgoes⟩ | ⟨f, b, hframe, -, hinbox, hgoes⟩ :=
    Host.handle_goes halive env closed stillOpen processed hhandle
  all_goals rw [hframe, hinbox]
  · dsimp only
    rw [Function.update_self]
    exact .unframed (.inl hgoes)
  · exact @ShardTurn.unframed _ _ _ (w.client c).quit _ _ _ (hgoes.imp_right fun h => ⟨h.1, hinbox ▸ h.2.2.2⟩)
  · dsimp only
    rw [Function.update_self]
    exact .framed hframe (hgoes.imp And.left And.left)

theorem turn_of_step {e : HostEvent} {h : Host} (step : w.host.Step e h) (gives : w.Gives e)
    (habout : e.about = some c) : ShardTurn (w.host.phase c) (w.host.inbox c) (w.client c) (h.phase c)
      (h.inbox c) (w.noted e c) := by
  cases Host.happens step.1 with
  | connect | expire => cases habout
  | ready _ hrest =>
    cases habout
    dsimp only [noted]
    rw [Function.update_self]
    exact turn_serve (h := w.host) hrest rfl (fun _ => id) rfl
  | wake _ hrest =>
    cases habout
    dsimp only [noted]
    rw [Function.update_self]
    refine turn_serve (h := w.host.drained c) hrest rfl (fun _ => id) ?_
    rw [Host.wakeEvent, Bool.and_self]
  | drop _ hrest =>
    cases habout
    dsimp only [noted, Host.drained]
    rw [Function.update_self, hrest]
    exact .served (.inl rfl)
  | recv hphase hread =>
    cases habout
    exact turn_recv hphase hread gives
  | frame hphase halive =>
    cases habout
    exact turn_frame halive hphase rfl
  | @finish _ k closed stillOpen _ _ =>
    cases habout
    obtain ⟨hrest, hinbox⟩ := w.host.conclude_phase c k closed stillOpen
    rw [hrest, hinbox]
    exact .ended
  | timeout _ _ =>
    cases habout
    rw [(Host.close_phase _ c).1, (Host.close_phase _ c).2, Function.update_self]
    exact .ended

/-- The bytes that arrive from `c` do not fill its input buffer. -/
def Modest (w : Sockets) (c : ConnId) : SocketEvent → Prop
  | .arrive d bytes => d = c → w.load c + bytes.length < kMaxInputBuffer
  | _ => True

end Sockets

namespace Remote

variable {k k' : Remote} {phase phase' : Phase} {b b' : Inbox}

/-- The last `recv` returned `EAGAIN`, and only later bytes are in the kernel. -/
def Emptied (k : Remote) : Prop := k.drained = true ∧ k.queue = k.late

theorem Emptied.sends (h : k.Emptied) (bytes : Bytes) : (k.sends bytes).Emptied :=
  ⟨h.1, congrArg (· ++ bytes) h.2⟩

/-- What holds of a connection that never fills its input buffer. -/
structure Below (k : Remote) (phase : Phase) (b : Inbox) : Prop where
  wf : b.WF
  load : b.unread.length + k.queue.length < kMaxInputBuffer
  framing : ∀ {closed processed}, phase = .framing closed true processed → k.Emptied
  ending : ∀ {closed}, phase = .ending closed true → k.asked = true → k.Emptied

theorem Below.atCap (h : k.Below phase b) : b.atCap = false :=
  Inbox.atCap_eq_false.mpr (Nat.lt_of_le_of_lt (Nat.le_add_right _ _) h.load)

theorem Below.turn (h : k.Below phase b) (ht : ShardTurn phase b k phase' b' k') : k'.Below phase' b' := by
  have hcap := h.atCap
  obtain ⟨hwf, hload, hframing, hending⟩ := h
  cases ht with
  | served hgoes =>
    obtain rfl | ⟨_, rfl⟩ | ⟨_, rfl, rfl⟩ := hgoes
    · exact ⟨hwf, hload, nofun, nofun⟩
    · exact ⟨hwf, hload, nofun, nofun⟩
    · exact ⟨hwf, hload, nofun, fun _ => nofun⟩
  | ended => exact ⟨hwf, hload, nofun, nofun⟩
  | @data _ _ _ bytes _ hgives =>
    obtain ⟨rest, hrest⟩ := hgives
    refine ⟨hwf.compact.append bytes, ?_, nofun, nofun⟩
    rw [hwf.compact.unread_append, Inbox.unread_compact, received, ← hrest, List.drop_left]
    rw [← hrest] at hload
    simp only [List.length_append] at hload ⊢
    omega
  | interrupted => exact ⟨hwf.compact, by rwa [Inbox.unread_compact], nofun, nofun⟩
  | again _ hempty =>
    exact ⟨hwf.compact, by rwa [Inbox.unread_compact], fun _ => ⟨rfl, hempty⟩, nofun⟩
  | stopped => exact ⟨hwf.compact, by rwa [Inbox.unread_compact], nofun, nofun⟩
  | full hfull => cases hcap.symm.trans hfull
  | @framed closed stillOpen _ _ _ _ _ _ _ hnext hgoes =>
    obtain ⟨block, -, hsplit, -, -, -, hwf'⟩ := Inbox.nextFrame_some hnext
    rw [hsplit, List.length_append] at hload
    refine ⟨hwf', Nat.lt_of_le_of_lt (Nat.add_le_add_right (Nat.le_add_left ..) _) hload, ?_, ?_⟩
    · rintro _ _ rfl
      obtain hgoes | hgoes := hgoes <;> cases hgoes
      exact hframing rfl
    · rintro _ rfl -
      obtain hgoes | hgoes := hgoes <;> cases hgoes
      exact hframing rfl
  | unframed hgoes =>
    refine ⟨hwf, hload, ?_, ?_⟩
    · rintro _ _ rfl
      obtain hgoes | ⟨hgoes, -⟩ := hgoes <;> cases hgoes
    · rintro _ rfl -
      obtain hgoes | ⟨hgoes, -⟩ := hgoes <;> cases hgoes
      exact hframing rfl

/-- What holds of a connection that is served while at least as much waits for it as the input buffer may
hold: whenever it is read from, the cap comes before the end of the queue. -/
structure Above (k : Remote) (phase : Phase) (b : Inbox) : Prop where
  wf : b.WF
  drained : k.drained = false
  brims : ∀ {closed}, phase = .reading closed → kMaxInputBuffer ≤ b.unread.length + k.queue.length

theorem Above.turn (h : k.Above phase b) (ht : ShardTurn phase b k phase' b' k') (hserved : phase ≠ .rest) :
    k'.Above phase' b' := by
  obtain ⟨hwf, hdrained, hbrims⟩ := h
  cases ht with
  | served _ => exact absurd rfl hserved
  | ended => exact ⟨hwf, hdrained, nofun⟩
  | @data _ _ _ bytes _ hgives =>
    obtain ⟨rest, hrest⟩ := hgives
    refine ⟨hwf.compact.append bytes, rfl, fun _ => ?_⟩
    have hload := hbrims rfl
    rw [hwf.compact.unread_append, Inbox.unread_compact, received, ← hrest, List.drop_left]
    rw [← hrest] at hload
    simp only [List.length_append] at hload ⊢
    omega
  | interrupted => exact ⟨hwf.compact, rfl, fun _ => by rw [Inbox.unread_compact]; exact hbrims rfl⟩
  | again hcap hempty =>
    -- `EAGAIN` only comes once all is read
    have hload := hbrims rfl
    rw [hempty] at hload
    exact absurd hload (Nat.not_le.mpr (Inbox.atCap_eq_false.mp hcap))
  | stopped => exact ⟨hwf.compact, rfl, nofun⟩
  | full _ => exact ⟨hwf.compact, hdrained, nofun⟩
  | framed hnext hgoes =>
    obtain ⟨_, -, -, -, -, -, hwf'⟩ := Inbox.nextFrame_some hnext
    refine ⟨hwf', hdrained, ?_⟩
    rintro _ rfl
    obtain hgoes | hgoes := hgoes <;> cases hgoes
  | unframed hgoes =>
    refine ⟨hwf, hdrained, ?_⟩
    rintro _ rfl
    obtain hgoes | ⟨-, hcap⟩ := hgoes
    · cases hgoes
    · rw [Inbox.atCap, decide_eq_true_iff] at hcap
      exact hcap.trans (Nat.le_add_right _ _)

end Remote

namespace Sockets

variable {w w' : Sockets} {c : ConnId} {e : SocketEvent}

abbrev Below (w : Sockets) (c : ConnId) : Prop := (w.client c).Below (w.host.phase c) (w.host.inbox c)

abbrev Above (w : Sockets) (c : ConnId) : Prop := (w.client c).Above (w.host.phase c) (w.host.inbox c)

/-- What an event preserves. -/
theorem Below.step (hw : w.Below c) (hs : w.Step e w') (hm : w.Modest c e) : w'.Below c := by
  by_cases habout : e.about = some c
  · cases hs with
    | arrive bytes _ _ =>
      cases habout
      have hm : w.load c + bytes.length < kMaxInputBuffer := hm rfl
      rw [Sockets.load] at hm
      rw [Below, learn_client]
      refine ⟨hw.wf, ?_, fun h => (hw.framing h).sends bytes, fun h hasked => (hw.ending h hasked).sends bytes⟩
      rw [learn_host, Remote.sends, List.length_append]
      omega
    | hangUp _ =>
      cases habout
      rw [Below, learn_client]
      exact ⟨hw.wf, hw.load, hw.framing, hw.ending⟩
    | host step gives => exact hw.turn (turn_of_step step gives habout)
  · obtain ⟨hphase, hinbox, hclient⟩ := hs.other habout
    rw [Below, hphase, hinbox, hclient]
    exact hw

/-- The connection is not being served, and less waits for it than the input buffer may hold. -/
def Resting (c : ConnId) (w : Sockets) : Prop :=
  w.host.phase c = .rest ∧ (w.host.inbox c).WF ∧ w.load c < kMaxInputBuffer

def ModestStep (c : ConnId) (w : Sockets) (e : SocketEvent) (w' : Sockets) : Prop :=
  w.Step e w' ∧ w.Modest c e

/-- The connection is read from, nothing was received yet, and at least as much waits for it as the input
buffer may hold. -/
def Brimming (c : ConnId) (w : Sockets) : Prop :=
  (∃ closed, w.host.phase c = .reading closed) ∧ (w.host.inbox c).WF ∧ kMaxInputBuffer ≤ w.load c ∧
    (w.client c).drained = false

/-- A step before `service_connection` returns. -/
def ServedStep (c : ConnId) (w : Sockets) (e : SocketEvent) (w' : Sockets) : Prop :=
  w.Step e w' ∧ w.host.phase c ≠ .rest

theorem Above.step (hw : w.Above c) (hs : w.ServedStep c e w') : w'.Above c := by
  obtain ⟨hs, hserved⟩ := hs
  by_cases habout : e.about = some c
  · cases hs with
    | arrive bytes _ _ =>
      cases habout
      rw [Above, learn_client]
      refine ⟨hw.wf, hw.drained, fun h => (hw.brims h).trans ?_⟩
      rw [learn_host, Remote.sends, List.length_append]
      omega
    | hangUp _ =>
      cases habout
      rw [Above, learn_client]
      exact ⟨hw.wf, hw.drained, hw.brims⟩
    | host step gives => exact hw.turn (turn_of_step step gives habout) hserved
  · obtain ⟨hphase, hinbox, hclient⟩ := hs.other habout
    rw [Above, hphase, hinbox, hclient]
    exact hw

theorem Resting.below (hw : w.Resting c) : w.Below c := by
  obtain ⟨hrest, hwf, hload⟩ := hw
  refine ⟨hwf, hload, fun h => ?_, fun h => ?_⟩
  all_goals cases hrest.symm.trans h

theorem Started.resting (hw : w.Started) (c : ConnId) : w.Resting c := by
  obtain ⟨_, ⟨s, -, rfl⟩, rfl⟩ := hw
  exact ⟨rfl, Nat.zero_le _, show 0 < kMaxInputBuffer by decide⟩

end Sockets

/-! ## Runs with one client -/

/-- Nobody wants anything of the connection. -/
structure Connection.Calm (x : Connection) : Prop where
  reads : x.readPaused = false
  opened : x.closeRequested = false
  flushed : x.pendingOutput = 0

/-- Connection `c` is calm, at `phase`, with the input `b`, and its client is `k`. -/
structure Sockets.Standing (w : Sockets) (c : ConnId) (phase : Phase) (b : Inbox) (k : Remote) :
    Prop where
  record : ∃ x, w.host.server.connections c = some x ∧ x.Calm
  phase : w.host.phase c = phase
  inbox : w.host.inbox c = b
  client : w.client c = k

namespace Sockets

variable {w : Sockets} {c : ConnId} {b b' : Inbox} {k : Remote} {closed stillOpen processed : Bool}

theorem Standing.calm {phase : Phase} (h : w.Standing c phase b k) :
    w.host.server.alive c = true ∧ (w.host.record c).Calm := by
  obtain ⟨x, hx, hcalm⟩ := h.record
  rw [Host.record_of hx]
  exact ⟨Host.alive_of hx, hcalm⟩

theorem Standing.touched {phase : Phase} (h : w.Standing c phase b k) (env : Env) :
    ∃ x, (w.host.server.touched env c).connections c = some x ∧ x.Calm := by
  obtain ⟨x, hx, hcalm⟩ := h.record
  refine ⟨{ x with lastActivityMs := env.nowMs }, ?_, hcalm.reads, hcalm.opened, hcalm.flushed⟩
  rw [Server.touched, Server.connections_update_self, hx]
  rfl

theorem Standing.sends {phase : Phase} (h : w.Standing c phase b k) (hopen : k.hungUp = false)
    (bytes : Bytes) : ∃ w', w.Step (.arrive c bytes) w' ∧ w'.Standing c phase b (k.sends bytes) :=
  ⟨_, .arrive bytes h.calm.1 (h.client ▸ hopen), h.record, h.phase, h.inbox, by
    rw [learn_client, h.client]⟩

theorem Standing.hangsUp {phase : Phase} (h : w.Standing c phase b k) :
    ∃ w', w.Step (.hangUp c) w' ∧ w'.Standing c phase b { k with hungUp := true } :=
  ⟨_, .hangUp h.calm.1, h.record, h.phase, h.inbox, by rw [learn_client, h.client]⟩

theorem Standing.ready (h : w.Standing c .rest b k) (env : Env) (closed : Bool) :
    ∃ w', w.Step (.host (.ready env c { readable := true, closed := closed } { taken := 0 })) w' ∧
      w'.Standing c (.reading closed) b { k with asked := true, drained := false } := by
  obtain ⟨x, hx, hcalm⟩ := h.record
  refine ⟨_, .host (Host.step_ready h.phase hx hcalm.reads env closed) trivial, h.touched env,
    Function.update_self .., h.inbox, ?_⟩
  dsimp only [noted]
  rw [Function.update_self, h.client, h.calm.2.reads]
  rfl

theorem Standing.data (h : w.Standing c (.reading closed) b k) (hcap : b.atCap = false)
    {bytes : Bytes} (hgives : bytes <+: k.queue) (hpos : 0 < bytes.length)
    (hlen : bytes.length ≤ kReadBatch) :
    ∃ w', w.Step (.host (.recv c (.data bytes))) w' ∧
      w'.Standing c (.reading closed) (b.compact.append bytes) (k.received (.data bytes)) := by
  refine ⟨_, .host (Host.step_data h.phase h.inbox hcap hpos hlen) fun _ => ?_, h.record, h.phase,
    Function.update_self .., ?_⟩
  · rw [h.client]
    exact hgives
  · dsimp only [noted]
    rw [h.inbox, hcap, if_neg (by decide), Function.update_self, h.client]

theorem Standing.stops (h : w.Standing c (.reading closed) b k) (result : RecvResult)
    (hstops : (b.atCap = true ∨ result = .again) ∧ stillOpen = true ∨
      b.atCap = false ∧ result = .closed ∧ stillOpen = false)
    (hgives : b.atCap = false → k.Gives result) :
    ∃ w', w.Step (.host (.recv c result)) w' ∧ w'.Standing c (.framing closed stillOpen false) b.compact
      (if b.atCap then k else k.received result) := by
  refine ⟨_, .host (Host.step_stops h.phase h.inbox hstops) fun hcap => ?_, h.record,
    Function.update_self .., Function.update_self .., ?_⟩
  · rw [h.client]
    exact hgives (h.inbox ▸ hcap)
  · dsimp only [noted]
    rw [h.inbox]
    split
    · exact h.client
    · rw [Function.update_self, h.client]

theorem Standing.keepAlive {f : Frame} (h : w.Standing c (.framing closed stillOpen processed) b k)
    (hframe : b.nextFrame = .ok (some (f, b'))) (htype : f.header.type = .keepAlive) (env : Env) :
    ∃ w', w.Step (.host (.frame env c)) w' ∧
      w'.Standing c (.framing closed stillOpen true) b' (k.handles f false) := by
  have hserver : w.host.server.processFrame env c f = w.host.server.touched env c := by
    rw [Server.processFrame, handleFrame, htype]
    rfl
  obtain ⟨x₀, hx₀, -⟩ := h.record
  obtain ⟨x, hx, hcalm⟩ := h.touched env
  rw [← hserver] at hx
  have hstep := Host.step_frame h.phase h.inbox hx₀ hframe
    (fun hsend => absurd (htype.symm.trans hsend) (by decide)) hx hcalm.opened
  rw [hcalm.reads] at hstep
  refine ⟨_, .host hstep trivial, ⟨x, hx, hcalm⟩, Function.update_self .., Function.update_self .., ?_⟩
  have hquits : w.quits env c f = false := by
    rw [quits, hx, Option.any_some, hcalm.opened, Bool.and_false]
  dsimp only [noted]
  rw [h.inbox, hframe]
  dsimp only
  rw [Function.update_self, h.client, hquits]

theorem Standing.noFrame (h : w.Standing c (.framing closed stillOpen processed) b k)
    (hnone : b.nextFrame = .ok none) (hcap : b.atCap = false) (env : Env) :
    ∃ w', w.Step (.host (.frame env c)) w' ∧ w'.Standing c (.ending closed stillOpen) b k := by
  obtain ⟨x, hx, -⟩ := h.record
  refine ⟨_, .host (Host.step_noFrame h.phase h.inbox hx hnone hcap env) trivial, h.record,
    Function.update_self .., h.inbox, ?_⟩
  dsimp only [noted]
  rw [h.inbox, hnone]
  exact h.client

theorem Standing.finish (h : w.Standing c (.ending false true) b k) :
    w.host.closes (.finish c { taken := 0 }) = none ∧
      ∃ w', w.Step (.host (.finish c { taken := 0 })) w' ∧ w'.Standing c .rest b k := by
  obtain ⟨x, hx, hcalm⟩ := h.record
  have hflushed : x.flushOutput { taken := 0 } = { x with output := [], outputSent := 0 } :=
    if_pos (Nat.le_of_eq hcalm.flushed)
  refine ⟨?_, _, .host (Host.step_finish h.phase hx hcalm.opened 0) trivial,
    ⟨x.flushOutput { taken := 0 }, ?_, ?_⟩, Function.update_self .., h.inbox, h.client⟩
  · rw [Host.closes, h.phase]
    dsimp only
    rw [Host.ends_eq_false h.calm.2.opened]
    rfl
  · change (w.host.server.update c _).connections c = _
    rw [Server.connections_update_self, hx]
    rfl
  · rw [hflushed]
    exact ⟨hcalm.reads, hcalm.opened, rfl⟩

theorem Standing.served {phase : Phase} (h : w.Standing c phase b k) (hphase : phase ≠ .rest) {e : SocketEvent}
    {w' : Sockets} (hs : w.Step e w') : w.ServedStep c e w' := ⟨hs, h.phase ▸ hphase⟩

/-- Batches are read while there is room. -/
theorem Standing.fill (n : Nat) (h : w.Standing c (.reading closed) b k) {init : Sockets → Prop}
    (hr : Reach init (ServedStep c) w)
    (hwf : b.WF) (hnew : k.drained = false ∧ k.late = [])
    (hlen : n * kReadBatch ≤ k.queue.length)
    (hroom : b.unread.length + n * kReadBatch < kMaxInputBuffer + kReadBatch) :
    ∃ w' b', Reach init (ServedStep c) w' ∧ b'.WF ∧ b'.unread = b.unread ++ k.queue.take (n * kReadBatch) ∧
      w'.Standing c (.reading closed) b' { k with queue := k.queue.drop (n * kReadBatch) } := by
  induction n generalizing w b k with
  | zero =>
    rw [Nat.zero_mul, List.take_zero, List.append_nil, List.drop_zero]
    exact ⟨w, b, hr, hwf, rfl, h⟩
  | succ n ih =>
    rw [Nat.succ_mul] at hlen hroom ⊢
    have hbatch : 0 < kReadBatch := by decide
    have hfirst : (k.queue.take kReadBatch).length = kReadBatch := List.length_take_of_le (by omega)
    obtain ⟨w₁, hs₁, h₁⟩ := h.data (Inbox.atCap_eq_false.mpr (by omega))
      (List.take_prefix kReadBatch k.queue) (by rw [hfirst]; exact hbatch)
      (Nat.le_of_eq hfirst)
    have hunread : (b.compact.append (k.queue.take kReadBatch)).unread =
        b.unread ++ k.queue.take kReadBatch := by
      rw [hwf.compact.unread_append, Inbox.unread_compact]
    have hclient : k.received (.data (k.queue.take kReadBatch)) =
        { k with queue := k.queue.drop kReadBatch } := by
      rw [Remote.received, hfirst, ← hnew.1, ← hnew.2]
    rw [hclient] at h₁
    obtain ⟨w', b', hr', hwf', hunread', h'⟩ := ih h₁ (hr.step (h.served nofun hs₁)) (hwf.compact.append _) hnew
      (by rw [List.length_drop]; omega)
      (by rw [hunread, List.length_append, hfirst]; omega)
    refine ⟨w', b', hr', hwf', ?_, ?_⟩
    · rw [hunread', hunread, List.append_assoc, ← List.take_add, Nat.add_comm kReadBatch]
    · rw [List.drop_drop, Nat.add_comm kReadBatch] at h'
      exact h'

/-- After a hang-up, or at the end of the stream, the connection is closed. -/
theorem Standing.closes (h : w.Standing c (.ending closed stillOpen) b k)
    (hgone : closed = true ∨ stillOpen = false) :
    w.host.closes (.finish c { taken := 0 }) = some c ∧
      ∃ w', w.Step (.host (.finish c { taken := 0 })) w' := by
  have hflushed : (w.host.record c).flushOutput { taken := 0 } =
      { w.host.record c with output := [], outputSent := 0 } :=
    if_pos (Nat.le_of_eq h.calm.2.flushed)
  have hends : Host.ends (w.host.record c) { taken := 0 } closed stillOpen = true := by
    rw [Host.ends, hflushed]
    obtain rfl | rfl := hgone <;> simp [Connection.wantsWrite, Connection.pendingOutput]
  have hnext : w.host.next (.finish c { taken := 0 }) =
      some (w.host.conclude c { taken := 0 } closed stillOpen) := by
    rw [Host.next, h.phase, h.calm.1]
  refine ⟨?_, _, .host ⟨hnext, trivial⟩ trivial⟩
  rw [Host.closes, h.phase]
  dsimp only
  rw [if_pos hends]

end Sockets

theorem Sockets.met : ∃ w₀ w env addr, Sockets.Started w₀ ∧
    w₀.Step (.host (.connect env addr)) w ∧ w.Standing 1 .rest {} {} := by
  obtain ⟨x, hx, hreads, hopened, hflushed⟩ : ∃ x ∈ (Server.start.acceptConnection { nowMs := 0 }
      (.inet 4000 privateAddress)).connections 1,
      x.readPaused = false ∧ x.closeRequested = false ∧ x.pendingOutput = 0 := by
    decide +kernel
  exact ⟨_, _, { nowMs := 0 }, .inet 4000 privateAddress, ⟨_, ⟨_, Server.start_started, rfl⟩, rfl⟩,
    .host ⟨rfl, trivial⟩ trivial, ⟨x, hx, hreads, hopened, hflushed⟩, rfl, rfl, rfl⟩

/-- The longest frame that a client may send. -/
def longFrame : Bytes := frameBytes .keepAlive (List.replicate kMaxFrameLength 0)

theorem length_longFrame : longFrame.length = kFrameHeaderSize + kMaxFrameLength := by
  rw [longFrame, frameBytes, List.length_append, length_encodeFrameHeader, List.length_replicate,
    kFrameHeaderSize]

theorem nextFrame_longFrame {b : Inbox} {rest : Bytes} (hunread : b.unread = longFrame ++ rest) :
    ∃ b', b.nextFrame = .ok (some (Frame.of .keepAlive (List.replicate kMaxFrameLength 0), b')) ∧
      b'.unread = rest := by
  refine ⟨_, Inbox.nextFrame_of_unread trivial (Nat.le_of_eq List.length_replicate) hunread, ?_⟩
  rw [Inbox.unread, ← List.drop_drop]
  change b.unread.drop longFrame.length = rest
  rw [hunread, List.drop_left]

theorem framesIn_longFrames : framesIn (longFrame ++ longFrame) =
    [Frame.of .keepAlive (List.replicate kMaxFrameLength 0),
      Frame.of .keepAlive (List.replicate kMaxFrameLength 0)] := by
  obtain ⟨b, hfirst, hrest⟩ := nextFrame_longFrame (b := { input := longFrame ++ longFrame }) rfl
  have hlast : b.unread = longFrame ++ [] := by rw [hrest, List.append_nil]
  obtain ⟨b', hsecond, hempty⟩ := nextFrame_longFrame hlast
  have hcons := framesIn_cons hfirst []
  have hcons' := framesIn_cons hsecond []
  rw [List.append_nil] at hcons hcons'
  rw [List.append_nil, hcons', hempty] at hcons
  exact hcons

/-- A reachable state in a `service_connection` that has started to read a long queue. -/
def Sockets.Overfull (w : Sockets) : Prop :=
  Reach (fun w => Reach Sockets.Started Sockets.Step w ∧ w.Brimming 1) (Sockets.ServedStep 1) w

theorem Sockets.Overfull.reach {w : Sockets} (h : w.Overfull) : Reach Sockets.Started Sockets.Step w :=
  h.invariant (fun _ h => h.1) fun _ _ _ hw hs => hw.step hs.1

/-- `read_available` takes 34 batches of a long queue and stops at the cap. The client may have gone. -/
theorem cap_reached {bytes : Bytes} (hlen : 34 * kReadBatch ≤ bytes.length) (closed : Bool) :
    ∃ (w : Sockets) (b : Inbox) (k : Remote), w.Overfull ∧ w.Standing 1 (.framing closed true false) b k ∧
      b.unread = bytes.take (34 * kReadBatch) ∧ k.queue = bytes.drop (34 * kReadBatch) ∧
      k.stream = bytes ∧ k.handled = [] ∧ k.hungUp = closed ∧ k.quit = false ∧ k.asked = true ∧
      k.drained = false ∧ k.late = [] := by
  have hsplit : 34 * kReadBatch = kReadBatch + 33 * kReadBatch := by decide
  rw [hsplit] at hlen ⊢
  obtain ⟨w₀, w₁, env, addr, hstarted, hs₁, h₁⟩ := Sockets.met
  obtain ⟨w₂, hs₂, h₂⟩ := h₁.sends rfl bytes
  have hr₂ : Reach Sockets.Started Sockets.Step w₂ := .step (.step (.init hstarted) hs₁) hs₂
  obtain ⟨w₃, hr₃, h₃⟩ : ∃ w₃, Reach Sockets.Started Sockets.Step w₃ ∧ w₃.Standing 1 .rest {}
      { Remote.sends {} bytes with hungUp := closed } := by
    cases closed with
    | false => exact ⟨w₂, hr₂, h₂⟩
    | true =>
      obtain ⟨w₃, hs₃, h₃⟩ := h₂.hangsUp
      exact ⟨w₃, hr₂.step hs₃, h₃⟩
  -- the first batch, and all that fit
  obtain ⟨w₄, hs₄, h₄⟩ := h₃.ready { nowMs := 0 } closed
  have hfirst : (bytes.take kReadBatch).length = kReadBatch := List.length_take_of_le (by omega)
  have hr₄ : w₄.Overfull := by
    refine .init ⟨hr₃.step hs₄, ⟨_, h₄.phase⟩, by rw [h₄.inbox]; exact Nat.zero_le _, ?_, by rw [h₄.client]⟩
    have hcap : kMaxInputBuffer ≤ kReadBatch + 33 * kReadBatch := by decide
    rw [Sockets.load, h₄.inbox, h₄.client]
    exact (hcap.trans hlen).trans (Nat.le_add_left _ _)
  obtain ⟨w₅, hs₅, h₅⟩ := h₄.data (by decide) (List.take_prefix kReadBatch bytes)
    (by rw [hfirst]; decide) (Nat.le_of_eq hfirst)
  rw [Remote.received, hfirst] at h₅
  obtain ⟨w₆, b₆, hr₆, hwf₆, hunread₆, h₆⟩ := h₅.fill 33 (hr₄.step (h₄.served nofun hs₅)) (Nat.zero_le _)
    ⟨rfl, rfl⟩
    (by
      change _ ≤ (bytes.drop kReadBatch).length
      rw [List.length_drop]
      omega)
    (by
      change (bytes.take kReadBatch).length + _ < _
      rw [hfirst]
      decide)
  have hunread₆ : b₆.unread = bytes.take (kReadBatch + 33 * kReadBatch) := by
    rw [hunread₆]
    change bytes.take kReadBatch ++ (bytes.drop kReadBatch).take _ = _
    rw [← List.take_add]
  have hcap : b₆.atCap = true := by
    rw [Inbox.atCap, decide_eq_true_iff, hunread₆, List.length_take_of_le hlen]
    decide
  obtain ⟨w₇, hs₇, h₇⟩ := h₆.stops .interrupted (.inl ⟨.inl hcap, rfl⟩) fun h =>
    Bool.noConfusion (hcap.symm.trans h)
  rw [if_pos hcap] at h₇
  refine ⟨w₇, b₆.compact, _, hr₆.step (h₆.served nofun hs₇), h₇,
    by rw [Inbox.unread_compact, hunread₆], ?_, rfl, rfl, rfl, rfl, rfl, rfl, rfl⟩
  rw [← List.drop_drop]
  rfl

/-- Two of the longest frames: the first is handled, and then there is room for the rest, which is left
all the same. -/
theorem long_queue (closed : Bool) : ∃ (w : Sockets) (b : Inbox) (k : Remote), w.Overfull ∧
    w.Standing 1 (.ending closed true) b k ∧ k.stream = longFrame ++ longFrame ∧
    k.handled = [Frame.of .keepAlive (List.replicate kMaxFrameLength 0)] ∧ k.hungUp = closed ∧
    k.quit = false ∧ k.asked = true ∧ k.drained = false ∧ k.late = [] ∧ k.queue ≠ [] := by
  have hlong := length_longFrame
  have htotal : (longFrame ++ longFrame).length = 2 * (kFrameHeaderSize + kMaxFrameLength) := by
    rw [List.length_append, hlong, Nat.two_mul]
  have hbatches : 34 * kReadBatch = longFrame.length + 131064 := by
    rw [hlong]
    decide
  have hlen : 34 * kReadBatch ≤ (longFrame ++ longFrame).length := by
    rw [htotal]
    decide
  obtain ⟨w₁, b₁, k₁, hr₁, h₁, hunread₁, hqueue, hstream, hhandled, hkept⟩ := cap_reached hlen closed
  rw [hbatches, List.take_length_add_append] at hunread₁
  -- the first frame is whole, the second is not
  obtain ⟨b₂, hframe, hunread₂⟩ := nextFrame_longFrame hunread₁
  obtain ⟨w₂, hs₂, h₂⟩ := h₁.keepAlive hframe rfl { nowMs := 0 }
  have hnone : b₂.nextFrame = .ok none := by
    have hcut : b₂.unread = (frameBytes .keepAlive (List.replicate kMaxFrameLength 0)).take 131064 :=
      hunread₂
    refine Inbox.nextFrame_cut ?_ (Nat.le_of_eq List.length_replicate) hcut ?_
    · trivial
    · rw [List.length_replicate]
      decide
  have hcap : b₂.atCap = false := by
    rw [Inbox.atCap_eq_false, hunread₂, List.length_take_of_le]
    · decide
    · rw [hlong]
      decide
  obtain ⟨w₃, hs₃, h₃⟩ := h₂.noFrame hnone hcap { nowMs := 0 }
  refine ⟨w₃, b₂, _, (hr₁.step (h₁.served nofun hs₂)).step (h₂.served nofun hs₃), h₃, hstream, ?_,
    hkept.1, ?_, hkept.2.2.1, hkept.2.2.2.1,
    hkept.2.2.2.2, fun hnil => ?_⟩
  · rw [Remote.handles, hhandled, List.nil_append]
  · rw [Remote.handles, hkept.2.1, Bool.or_self]
  · have hleft := congrArg List.length hnil
    rw [Remote.handles, hqueue, List.length_drop, htotal] at hleft
    exact absurd hleft (by decide)

/-- **A readable event is served until `EAGAIN`** where less waits for the connection than the input
buffer may hold: when `service_connection` returns and the connection was not closed, only what arrived
since the last `recv` is in the kernel. Where at least as much waits when it starts to read, its last `recv`
does not return `EAGAIN`. -/
theorem readable_drained {w w' : Sockets} {c : ConnId} {k : Socket} (hs : w.Step (.host (.finish c k)) w') :
    (Reach (Sockets.Resting c) (Sockets.ModestStep c) w → w.host.closes (.finish c k) = none →
      (w.client c).asked = true →
        (w'.client c).drained = true ∧ (w'.client c).queue = (w'.client c).late) ∧
    (Reach (Sockets.Brimming c) (Sockets.ServedStep c) w → (w'.client c).drained = false) := by
  cases hs with
  | host step _ =>
    cases Host.happens step.1 with
    | @finish _ _ closed stillOpen hphase _ =>
      refine ⟨fun hr hopen hasked => ?_, fun hr => ?_⟩
      · -- at the end of the stream it would be closed
        cases stillOpen with
        | false => simp [Host.closes, hphase, Host.ends] at hopen
        | true =>
          have hbelow : w.Below c := Reach.invariant (I := (Sockets.Below · c))
            (fun _ hw => hw.below) (fun _ _ _ hw hs => hw.step hs.1 hs.2) hr
          exact hbelow.ending hphase hasked
      · have habove : w.Above c := Reach.invariant (I := (Sockets.Above · c))
          (fun _ hw => ⟨hw.2.1, hw.2.2.2, fun _ => hw.2.2.1⟩) (fun _ _ _ hw hs => hw.step hs) hr
        exact habove.drained

/-- A client that has sent a frame, which is read and handled; and one that has sent two of the longest. -/
theorem readable_drained_frame :
    (∃ w w', Reach (Sockets.Resting 1) (Sockets.ModestStep 1) w ∧ w.Step (.host (.finish 1 { taken := 0 })) w' ∧
      w.host.closes (.finish 1 { taken := 0 }) = none ∧ (w.client 1).asked = true ∧
      (w.client 1).stream = frameBytes .keepAlive [] ∧ (w.client 1).handled = [Frame.of .keepAlive []] ∧
      (w'.client 1).drained = true ∧ (w'.client 1).queue = (w'.client 1).late) ∧
    ∃ w w', Reach (Sockets.Brimming 1) (Sockets.ServedStep 1) w ∧
      w.Step (.host (.finish 1 { taken := 0 })) w' ∧ (w'.client 1).drained = false := by
  constructor
  · obtain ⟨w₀, w₁, env, addr, hstarted, hs₁, h₁⟩ := Sockets.met
    obtain ⟨w₂, hs₂, h₂⟩ := h₁.sends rfl (frameBytes .keepAlive [])
    obtain ⟨w₃, hs₃, h₃⟩ := h₂.ready { nowMs := 0 } false
    obtain ⟨w₄, hs₄, h₄⟩ := h₃.data (by decide) (List.prefix_refl _) (by decide) (by decide)
    obtain ⟨w₅, hs₅, h₅⟩ := h₄.stops .again (.inl ⟨.inr rfl, rfl⟩) fun _ => ⟨by decide, rfl⟩
    have hunread : (Inbox.compact (Inbox.append (Inbox.compact {}) (frameBytes .keepAlive []))).unread =
        frameBytes .keepAlive [] ++ [] := by decide
    have hnamed : MessageType.keepAlive.Named := trivial
    obtain ⟨w₆, hs₆, h₆⟩ := h₅.keepAlive (Inbox.nextFrame_of_unread hnamed (Nat.zero_le _) hunread) rfl
      { nowMs := 0 }
    obtain ⟨w₇, hs₇, h₇⟩ := h₆.noFrame (Inbox.nextFrame_of_unread_nil (by decide)) (by decide) { nowMs := 0 }
    obtain ⟨hopen, w₈, hs₈, -⟩ := h₇.finish
    have hmodest : w₁.Modest 1 (.arrive 1 (frameBytes .keepAlive [])) := by
      intro _
      rw [Sockets.load, h₁.inbox, h₁.client]
      decide
    have hr₂ : Reach (Sockets.Resting 1) (Sockets.ModestStep 1) w₂ :=
      .step (.step (.init (hstarted.resting 1)) ⟨hs₁, trivial⟩) ⟨hs₂, hmodest⟩
    have hr : Reach (Sockets.Resting 1) (Sockets.ModestStep 1) w₇ :=
      .step (.step (.step (.step (.step hr₂ ⟨hs₃, trivial⟩) ⟨hs₄, trivial⟩) ⟨hs₅, trivial⟩) ⟨hs₆, trivial⟩)
        ⟨hs₇, trivial⟩
    have hasked : (w₇.client 1).asked = true := by rw [h₇.client]; rfl
    refine ⟨w₇, w₈, hr, hs₈, hopen, hasked, ?_, ?_, (readable_drained hs₈).1 hr hopen hasked⟩
    all_goals rw [h₇.client]; rfl
  · obtain ⟨w, b, k, hr, h, -⟩ := long_queue false
    obtain ⟨-, w', hs, -⟩ := h.finish
    have hr : Reach (Sockets.Brimming 1) (Sockets.ServedStep 1) w :=
      hr.invariant (fun _ h => .init h.2) fun _ _ _ hw hs => hw.step hs
    exact ⟨w, w', hr, hs, (readable_drained hs).2 hr⟩

/-- A longer queue is left: `service_connection` returns, and bytes that had arrived before its last
`recv` are still in the kernel. -/
theorem long_queue_left : ∃ w w' x, Reach Sockets.Started Sockets.Step w ∧
    w.Step (.host (.finish 1 { taken := 0 })) w' ∧ (w.client 1).asked = true ∧
    w'.host.server.connections 1 = some x ∧ x.closeRequested = false ∧ x.readPaused = false ∧
    (w'.client 1).drained = false ∧ (w'.client 1).queue ≠ [] ∧ (w'.client 1).late = [] := by
  obtain ⟨w, b, k, hr, h, -, -, -, -, hasked, hdrained, hlate, hqueue⟩ := long_queue false
  obtain ⟨-, w', hs, h'⟩ := h.finish
  obtain ⟨x, hx, hcalm⟩ := h'.record
  refine ⟨w, w', x, hr.reach, hs, ?_, hx, hcalm.opened, hcalm.reads, ?_, ?_, ?_⟩
  · rw [h.client, hasked]
  all_goals rw [h'.client]
  · exact hdrained
  · exact hqueue
  · exact hlate

end DropZone
