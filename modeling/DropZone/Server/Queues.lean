import DropZone.Server.Service

/-!
# What handlers put in output queues

* `Writes strict T n s s'`: from `s` to `s'` at most `n` frames were enqueued, on connections in `T`, and
  the bytes of each went to the end of what its connection has not sent yet; no wake was lost. If
  `strict`, nobody was paused, attached to a peer or made to relay.
* `Server.addressees`: the connections that handling a frame may enqueue on.
-/

namespace DropZone

open LittleEndian StateSpec

/-- The bytes of the frames for `y`, in order. -/
def bytesFor (y : ConnId) (new : List (ConnId × Frame)) : Bytes :=
  new.flatMap fun e => if e.1 = y then e.2.bytes else []

theorem bytesFor_append (y : ConnId) (new new' : List (ConnId × Frame)) :
    bytesFor y (new ++ new') = bytesFor y new ++ bytesFor y new' :=
  List.flatMap_append

theorem length_bytesFor_le {y : ConnId} {new : List (ConnId × Frame)} {bound : Nat}
    (h : ∀ e ∈ new, e.2.bytes.length ≤ bound) : (bytesFor y new).length ≤ new.length * bound := by
  induction new with
  | nil => simp [bytesFor]
  | cons e new ih =>
    have hhead := h e (List.mem_cons_self ..)
    have htail := ih fun e he => h e (List.mem_cons_of_mem _ he)
    have hfirst : (if e.1 = y then e.2.bytes else []).length ≤ bound := by
      split
      · exact hhead
      · exact Nat.zero_le _
    rw [bytesFor, List.flatMap_cons, List.length_append, List.length_cons, Nat.succ_mul]
    rw [bytesFor] at htail
    omega

theorem bytesFor_eq_nil {y : ConnId} {new : List (ConnId × Frame)} (h : ∀ e ∈ new, e.1 ≠ y) :
    bytesFor y new = [] := by
  rw [bytesFor, List.flatMap_eq_nil_iff]
  intro e he
  rw [if_neg (h e he)]

namespace Connection

/-- What was sent is part of the buffer. -/
def Queued (x : Connection) : Prop := x.outputSent ≤ x.output.length

theorem length_unsent (x : Connection) : x.unsent.length = x.pendingOutput := by
  rw [unsent, List.length_drop, pendingOutput]

/-- Compaction drops only what was sent. -/
theorem Queued.append {x : Connection} (h : x.Queued) (bytes : Bytes) :
    (x.append bytes).Queued ∧ (x.append bytes).unsent = x.unsent ++ bytes := by
  unfold Connection.append
  split
  · rename_i hall
    refine ⟨Nat.zero_le _, ?_⟩
    have hnil : x.unsent = [] := by rw [unsent, hall.2, List.drop_length]
    rw [hnil]
    rfl
  · split
    · exact ⟨Nat.zero_le _, rfl⟩
    · refine ⟨?_, List.drop_append_of_le_length h⟩
      rw [Queued, List.length_append]
      exact Nat.le_add_right_of_le h

end Connection

/-- Nothing was done to the connection on account of a relay. -/
structure Connection.Undisturbed (x x' : Connection) : Prop where
  paused : x'.readPaused = x.readPaused
  peer : x'.relayPeer = x.relayPeer
  state : x'.state = .relaying → x.state = .relaying

theorem Connection.Undisturbed.refl (x : Connection) : x.Undisturbed x := ⟨rfl, rfl, id⟩

theorem Connection.Undisturbed.trans {x x' x'' : Connection} (h : x.Undisturbed x')
    (h' : x'.Undisturbed x'') : x.Undisturbed x'' :=
  ⟨h'.paused.trans h.paused, h'.peer.trans h.peer, fun hst => h.state (h'.state hst)⟩

/-- At most `n` frames were enqueued, on connections in `T`, each at the end of its queue. -/
def Writes (strict : Prop) (T : ConnId → Prop) (n : Nat) (s s' : Server) : Prop :=
  s.wakeQueue ⊆ s'.wakeQueue ∧ ∃ new, s'.log = s.log ++ new ∧ new.length ≤ n ∧
    (∀ e ∈ new, T e.1 ∧ e.2.bytes.length ≤ kFrameHeaderSize + kMaxFrameLength) ∧
    ∀ y x', s'.connections y = some x' → ∃ x, s.connections y = some x ∧
      (strict → x.Undisturbed x') ∧ (x.Queued → x'.Queued ∧ x'.unsent = x.unsent ++ bytesFor y new)

section Rules

variable {strict : Prop} {T : ConnId → Prop} {n m : Nat} {s s' s'' : Server} {α β : Type}

theorem Writes.trans (h : Writes strict T n s s') (h' : Writes strict T m s' s'') :
    Writes strict T (n + m) s s'' := by
  obtain ⟨hwakes, new, hlog, hlen, hto, hqueue⟩ := h
  obtain ⟨hwakes', new', hlog', hlen', hto', hqueue'⟩ := h'
  refine ⟨List.Subset.trans hwakes hwakes', new ++ new', by rw [hlog', hlog, List.append_assoc], ?_,
    fun e he => ?_, fun y x'' hx'' => ?_⟩
  · rw [List.length_append]
    omega
  · rcases List.mem_append.mp he with he | he
    · exact hto e he
    · exact hto' e he
  · obtain ⟨x', hx', hsame', hq'⟩ := hqueue' y x'' hx''
    obtain ⟨x, hx, hsame, hq⟩ := hqueue y x' hx'
    refine ⟨x, hx, fun hstrict => (hsame hstrict).trans (hsame' hstrict), fun hwf => ?_⟩
    obtain ⟨hwf', hunsent⟩ := hq hwf
    obtain ⟨hwf'', hunsent'⟩ := hq' hwf'
    exact ⟨hwf'', by rw [hunsent', hunsent, bytesFor_append, List.append_assoc]⟩

theorem Writes.mono {strict' : Prop} {T' : ConnId → Prop} (h : Writes strict T n s s')
    (hstrict : strict' → strict) (hT : ∀ y, T y → T' y) (hn : n ≤ m) : Writes strict' T' m s s' := by
  obtain ⟨hwakes, new, hlog, hlen, hto, hqueue⟩ := h
  refine ⟨hwakes, new, hlog, hlen.trans hn, fun e he => ⟨hT _ (hto e he).1, (hto e he).2⟩, ?_⟩
  intro y x' hx'
  obtain ⟨x, hx, hsame, hq⟩ := hqueue y x' hx'
  exact ⟨x, hx, fun hs => hsame (hstrict hs), hq⟩

theorem Writes.weaken (h : Writes strict T 0 s s') : Writes strict T n s s' :=
  h.mono id (fun _ => id) (Nat.zero_le n)

/-- Nothing was enqueued and no queue changed. -/
theorem Writes.none (hwakes : s.wakeQueue ⊆ s'.wakeQueue) (hlog : s'.log = s.log)
    (h : ∀ y x', s'.connections y = some x' → ∃ x, s.connections y = some x ∧
      x'.output = x.output ∧ x'.outputSent = x.outputSent ∧ (strict → x.Undisturbed x')) :
    Writes strict T 0 s s' := by
  refine ⟨hwakes, [], by rw [hlog, List.append_nil], Nat.le_refl _, by simp, fun y x' hx' => ?_⟩
  obtain ⟨x, hx, hout, hsent, hsame⟩ := h y x' hx'
  refine ⟨x, hx, hsame, fun hwf => ?_⟩
  rw [Connection.Queued, Connection.unsent, hout, hsent]
  exact ⟨hwf, (List.append_nil _).symm⟩

/-- The connections and the log are as before. -/
theorem Writes.same (hwakes : s.wakeQueue ⊆ s'.wakeQueue) (hlog : s'.log = s.log)
    (h : s'.connections = s.connections) : Writes strict T 0 s s' :=
  .none hwakes hlog fun _ x hx => ⟨x, h ▸ hx, rfl, rfl, fun _ => .refl x⟩

theorem Writes.refl (s : Server) : Writes strict T 0 s s := .same (List.Subset.refl _) rfl rfl

end Rules

/-! ## Primitives -/

section Primitives

variable {strict : Prop} {T : ConnId → Prop}

theorem Writes.update (s : Server) (c : ConnId) {f : Connection → Connection}
    (hf : ∀ x, (f x).output = x.output ∧ (f x).outputSent = x.outputSent ∧
      (strict → x.Undisturbed (f x))) :
    Writes strict T 0 s (s.update c f) := by
  refine .none (List.Subset.refl _) rfl fun y x' hx' => ?_
  by_cases hy : y = c
  · subst hy
    rw [Server.connections_update_self] at hx'
    obtain ⟨x, hx, rfl⟩ := Option.map_eq_some_iff.mp hx'
    exact ⟨x, hx, hf x⟩
  · rw [Server.connections_update_of_ne hy] at hx'
    exact ⟨x', hx', rfl, rfl, fun _ => .refl x'⟩

theorem Connection.requestClose_queue (x : Connection) (reason : Bytes) :
    (x.requestClose reason).output = x.output ∧ (x.requestClose reason).outputSent = x.outputSent ∧
      x.Undisturbed (x.requestClose reason) := by
  unfold requestClose
  split <;> exact ⟨rfl, rfl, rfl, rfl, id⟩

theorem Connection.undisturbed_append (x : Connection) (bytes : Bytes) :
    x.Undisturbed (x.append bytes) := by
  unfold append
  split
  · exact ⟨rfl, rfl, id⟩
  · split <;> exact ⟨rfl, rfl, id⟩

theorem writes_requestClose (c : ConnId) (reason : Bytes) :
    Moves (Writes strict T 0) (requestClose c reason) :=
  fun s => .update s c fun x =>
    ⟨(x.requestClose_queue reason).1, (x.requestClose_queue reason).2.1, fun _ =>
      (x.requestClose_queue reason).2.2⟩

theorem Frame.length_bytes (f : Frame) : f.bytes.length = kFrameHeaderSize + f.payload.length := by
  rw [Frame.bytes, List.length_append, length_encodeFrameHeader, kFrameHeaderSize]

theorem writes_enqueueFrame {c : ConnId} (hc : T c) (type : MessageType) (payload : Bytes) :
    Moves (Writes strict T 1) (enqueueFrame c type payload) := by
  intro s
  by_cases hlen : payload.length ≤ kMaxFrameLength
  · rw [final_of_ok (run_enqueueFrame s c hlen)]
    refine ⟨List.Subset.refl _, [(c, Frame.of type payload)], rfl, Nat.le_refl _, ?_,
      fun y x' hx' => ?_⟩
    · intro e he
      rw [List.mem_singleton.mp he, Frame.length_bytes]
      exact ⟨hc, Nat.add_le_add_left hlen _⟩
    · change (s.update c _).connections y = some x' at hx'
      by_cases hy : y = c
      · subst hy
        rw [Server.connections_update_self] at hx'
        obtain ⟨x, hx, rfl⟩ := Option.map_eq_some_iff.mp hx'
        refine ⟨x, hx, fun _ => x.undisturbed_append _, fun hwf => ?_⟩
        have hbytes : bytesFor y [(y, Frame.of type payload)] = (Frame.of type payload).bytes := by
          simp [bytesFor]
        rw [hbytes]
        exact hwf.append _
      · rw [Server.connections_update_of_ne hy] at hx'
        have hnil : bytesFor y [(c, Frame.of type payload)] = [] :=
          bytesFor_eq_nil (by simpa using Ne.symm hy)
        rw [hnil]
        exact ⟨x', hx', fun _ => .refl x', fun hwf => ⟨hwf, (List.append_nil _).symm⟩⟩
  · rw [enqueueFrame, if_pos (by omega)]
    exact (Writes.refl s).weaken

end Primitives

/-! ## Whom a frame concerns -/

namespace Server

def pending (s : Server) (c : ConnId) : Nat := ((s.connections c).map Connection.pendingOutput).getD 0

theorem pending_of {s : Server} {c : ConnId} {x : Connection} (h : s.connections c = some x) :
    s.pending c = x.pendingOutput := by
  rw [pending, h]
  rfl

/-- The ends of the pairing that a connection notes. -/
def parties (s : Server) (c : ConnId) : List ConnId :=
  match s.sessions.findPairing (s.pairingIdOf c) with
  | some pr => [pr.sender, pr.receiver]
  | none => []

/-- The peer that a connection is attached to. -/
def relayPeerId (s : Server) (c : ConnId) : Option ConnId := (s.connections c).bind (·.relayPeer)

/-- The connections that a frame of `c` may have a frame enqueued on. -/
def addressees (s : Server) (c : ConnId) (frame : Frame) : List ConnId :=
  match frame.header.type with
  | .sendRequest =>
    match SendRequest.decode frame.payload with
    | .ok request => c :: (s.sessions.lookup s.alive request.targetUsername).toList
    | .error _ => [c]
  | .accept | .relayOpen => c :: s.parties c
  | .reject => s.parties c
  | .relayData => c :: ((s.relayPeerId c).toList ++ s.parties c)
  | .relayClose => (s.relayPeerId c).toList
  | .keepAlive | .bye => []
  | _ => [c]

end Server

/-- The frames whose handlers pause and attach connections. -/
def MessageType.Relays (t : MessageType) : Prop := t = .relayOpen ∨ t = .relayData

end DropZone
