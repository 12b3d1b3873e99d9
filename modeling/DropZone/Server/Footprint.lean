import DropZone.Server.Queues

/-!
# What a handler may touch

What the handlers of `server.cpp` do to queues, flags and pairings is proved in one walk through them.

* `Raises T P s s'`: from `s` to `s'` only connections in `T` were asked to close and only connections
  in `P` were paused.
* `Scope`: whom a handler may send which frames, ask to close and pause, and whether it relays and
  pairs. `Walks k n s s'`: what happened from `s` to `s'` stays within the scope `k`, with at most `n`
  frames enqueued. Every primitive has a rule, and the rules compose.
* `processFrame_walks`, `closeConnection_walks`: a frame and the end of a connection.
-/

namespace DropZone

open LittleEndian StateSpec

def Server.Paused (s : Server) (c : ConnId) : Prop :=
  ∃ x, s.connections c = some x ∧ x.readPaused = true

/-- Only connections in `T` were asked to close, and only connections in `P` were paused. -/
structure Raises (T P : ConnId → Prop) (s s' : Server) : Prop where
  leaving : ∀ y, s'.Leaving y → s.Leaving y ∨ T y
  paused : ∀ y, s'.Paused y → s.Paused y ∨ P y

variable {f : Connection → Connection}

section Rules

variable {T P : ConnId → Prop} {s s' s'' : Server}

theorem Raises.same (h : s'.connections = s.connections) : Raises T P s s' := by
  constructor <;> rintro y ⟨x, hx, hflag⟩ <;> exact .inl ⟨x, h ▸ hx, hflag⟩

theorem Raises.refl (s : Server) : Raises T P s s := .same rfl

theorem Raises.trans (h : Raises T P s s') (h' : Raises T P s' s'') : Raises T P s s'' where
  leaving y hy := (h'.leaving y hy).elim (h.leaving y) .inr
  paused y hy := (h'.paused y hy).elim (h.paused y) .inr

theorem Raises.mono {T' P' : ConnId → Prop} (h : Raises T P s s') (hT : ∀ y, T y → T' y)
    (hP : ∀ y, P y → P' y) : Raises T' P' s s' where
  leaving y hy := (h.leaving y hy).imp_right (hT y)
  paused y hy := (h.paused y hy).imp_right (hP y)

instance : Std.Refl (Raises T P) := ⟨Raises.refl⟩

instance : IsTrans Server (Raises T P) := ⟨fun _ _ _ => Raises.trans⟩

theorem Raises.update (s : Server) (c : ConnId)
    (hleaving : ∀ x, (f x).closeRequested = true → x.closeRequested = true ∨ T c)
    (hpaused : ∀ x, (f x).readPaused = true → x.readPaused = true ∨ P c) :
    Raises T P s (s.update c f) := by
  have hfind : ∀ {y x'}, (s.update c f).connections y = some x' →
      s.connections y = some x' ∨ y = c ∧ ∃ x, s.connections y = some x ∧ f x = x' := by
    intro y x' hx'
    by_cases hy : y = c
    · subst hy
      rw [Server.connections_update_self] at hx'
      exact .inr ⟨rfl, Option.map_eq_some_iff.mp hx'⟩
    · rw [Server.connections_update_of_ne hy] at hx'
      exact .inl hx'
  constructor
  · rintro y ⟨x', hx', hflag⟩
    rcases hfind hx' with hx | ⟨rfl, x, hx, rfl⟩
    · exact .inl ⟨x', hx, hflag⟩
    · exact (hleaving x hflag).imp_left fun h => ⟨x, hx, h⟩
  · rintro y ⟨x', hx', hflag⟩
    rcases hfind hx' with hx | ⟨rfl, x, hx, rfl⟩
    · exact .inl ⟨x', hx, hflag⟩
    · exact (hpaused x hflag).imp_left fun h => ⟨x, hx, h⟩

/-- An update that leaves the flags alone. -/
theorem Raises.keep (s : Server) (c : ConnId)
    (hf : ∀ x, (f x).closeRequested = x.closeRequested ∧ (f x).readPaused = x.readPaused) :
    Raises T P s (s.update c f) :=
  .update s c (fun x h => .inl ((hf x).1 ▸ h)) fun x h => .inl ((hf x).2 ▸ h)

end Rules

section Primitives

variable {T P : ConnId → Prop}

theorem Connection.append_flags (x : Connection) (bytes : Bytes) :
    (x.append bytes).closeRequested = x.closeRequested ∧ (x.append bytes).readPaused = x.readPaused :=
  ⟨x.append_closeRequested bytes, (x.undisturbed_append bytes).paused⟩

theorem raises_enqueueFrame (c : ConnId) (type : MessageType) (payload : Bytes) :
    Moves (Raises T P) (enqueueFrame c type payload) := by
  intro s
  by_cases hlen : payload.length ≤ kMaxFrameLength
  · rw [final_of_ok (run_enqueueFrame s c hlen)]
    have happend : Raises T P s (s.update c (·.append (Frame.of type payload).bytes)) :=
      .keep s c fun x => x.append_flags _
    exact happend.trans (.same rfl)
  · rw [enqueueFrame, if_pos (by omega)]
    exact .refl s

theorem Raises.requestClose (s : Server) {c : ConnId} (hc : T c) (reason : Bytes) :
    Raises T P s (s.update c (·.requestClose reason)) := by
  refine .update s c (fun _ _ => .inr hc) fun x h => .inl ?_
  rwa [(x.requestClose_queue reason).2.2.paused] at h

end Primitives

theorem Connection.pendingOutput_append (x : Connection) (bytes : Bytes) :
    (x.append bytes).pendingOutput ≤ x.pendingOutput + bytes.length := by
  unfold Connection.append Connection.pendingOutput
  split
  · dsimp only
    omega
  · split
    · simp only [List.length_append, List.length_drop]
      omega
    · simp only [List.length_append]
      omega

theorem Server.pending_update {s : Server} {c : ConnId} {n : Nat}
    (hf : ∀ x, (f x).pendingOutput ≤ x.pendingOutput + n) (y : ConnId) :
    (s.update c f).pending y ≤ s.pending y + n := by
  unfold Server.pending
  by_cases hy : y = c
  · subst hy
    rw [Server.connections_update_self]
    cases s.connections y with
    | none => exact Nat.zero_le _
    | some x => exact hf x
  · rw [Server.connections_update_of_ne hy]
    exact Nat.le_add_right _ _

theorem Server.pending_keep {s : Server} {c : ConnId}
    (hf : ∀ x, (f x).pendingOutput = x.pendingOutput) (y : ConnId) :
    (s.update c f).pending y = s.pending y := by
  unfold Server.pending
  by_cases hy : y = c
  · subst hy
    rw [Server.connections_update_self]
    cases s.connections y with
    | none => rfl
    | some x => exact hf x
  · rw [Server.connections_update_of_ne hy]

theorem Server.pending_relaying (s : Server) (a b y : ConnId) :
    (s.relaying a b).pending y = s.pending y := by
  unfold Server.relaying
  rw [Server.pending_keep, Server.pending_keep, Server.pending_keep, Server.pending_keep]
  all_goals exact fun _ => rfl

/-! ## Scopes -/

/-- What a handler may do. -/
structure Scope where
  /-- A frame of this type may be enqueued on the connection. -/
  sends : ConnId → MessageType → Prop
  closes : ConnId → Prop := fun _ => False
  pauses : ConnId → Prop := fun _ => False
  /-- Nobody is paused, attached to a peer or made to relay. -/
  still : Prop := True
  /-- Nobody is paired. -/
  parts : Prop := True

/-- What happened stays within the scope, and at most `n` frames were enqueued. -/
structure Walks (k : Scope) (n : Nat) (s s' : Server) : Prop where
  writes : Writes k.still (fun y => ∃ t, k.sends y t) n s s'
  raises : Raises k.closes k.pauses s s'
  effect : k.parts → Effect k.sends s s'

section Rules

variable {k : Scope} {n m : Nat} {s s' s'' : Server} {α β : Type}

theorem Walks.trans (h : Walks k n s s') (h' : Walks k m s' s'') : Walks k (n + m) s s'' :=
  ⟨h.writes.trans h'.writes, h.raises.trans h'.raises, fun hk =>
    IsTrans.trans _ _ _ (h.effect hk) (h'.effect hk)⟩

/-- A part that enqueues nothing. -/
theorem Walks.after (h : Walks k 0 s s') (h' : Walks k n s' s'') : Walks k n s s'' :=
  Nat.zero_add n ▸ h.trans h'

theorem Walks.refl (s : Server) : Walks k n s s :=
  ⟨(Writes.refl s).weaken, .refl s, fun _ => Std.Refl.refl s⟩

theorem Walks.mono {k' : Scope} (h : Walks k n s s') (hsends : ∀ y t, k.sends y t → k'.sends y t)
    (hcloses : ∀ y, k.closes y → k'.closes y) (hpauses : ∀ y, k.pauses y → k'.pauses y)
    (hstill : k'.still → k.still) (hparts : k'.parts → k.parts) (hn : n ≤ m) : Walks k' m s s' where
  writes := h.writes.mono hstill (fun y ⟨t, ht⟩ => ⟨t, hsends y t ht⟩) hn
  raises := h.raises.mono hcloses hpauses
  effect hk := (h.effect (hparts hk)).mono hsends

theorem Walks.of_le (h : Walks k n s s') (hn : n ≤ m) : Walks k m s s' :=
  h.mono (fun _ _ => id) (fun _ => id) (fun _ => id) id id hn

instance : Std.Refl (Walks k n) := ⟨Walks.refl⟩

instance : IsTrans Server (Walks k 0) := ⟨fun _ _ _ => Walks.after⟩

theorem walks_after {p : ServerM α} {f : α → ServerM β} (hp : Moves (Walks k 0) p)
    (hf : ∀ a, Moves (Walks k n) (f a)) : Moves (Walks k n) (p >>= f) :=
  hp.bind_of hf (fun _ _ h => h.of_le (Nat.zero_le n)) fun _ _ _ => Walks.after

theorem walks_bind {p : ServerM α} {f : α → ServerM β} (hp : Moves (Walks k n) p)
    (hf : ∀ a, Moves (Walks k m) (f a)) : Moves (Walks k (n + m)) (p >>= f) :=
  hp.bind_of hf (fun _ _ h => h.of_le (Nat.le_add_right n m)) fun _ _ _ => Walks.trans

theorem walks_then {p : ServerM α} {f : α → ServerM β} (hp : Walks k n s (final p s))
    (hf : ∀ a, Moves (Walks k 0) (f a)) : Walks k n s (final (p >>= f) s) := by
  cases hrun : p.run s with
  | ok a s' =>
    rw [final_of_ok hrun] at hp
    rw [final_bind_ok hrun]
    exact hp.trans (hf a s')
  | error e s' =>
    rw [final_bind_error hrun]
    rwa [final, hrun] at hp

end Rules

/-! ## Primitives -/

/-- What a handler may change in a record, apart from its queue and its flags. -/
structure Scope.Edits (k : Scope) (x x' : Connection) : Prop where
  queue : (x'.output, x'.outputSent) = (x.output, x.outputSent)
  flags : (x'.closeRequested, x'.readPaused) = (x.closeRequested, x.readPaused)
  still : k.still → x'.relayPeer = x.relayPeer ∧ (x'.state = .relaying → x.state = .relaying)
  parts : k.parts → x'.pairingId = x.pairingId ∨ x'.pairingId = 0

section Primitives

variable {k : Scope} {n : Nat}

theorem Walks.same {s s' : Server} (hwakes : s.wakeQueue ⊆ s'.wakeQueue) (hlog : s'.log = s.log)
    (hc : s'.connections = s.connections)
    (ht : k.parts → TableShrinks s.sessions s'.sessions) : Walks k 0 s s' where
  writes := .same hwakes hlog hc
  raises := .same hc
  effect hk := by
    obtain ⟨hp, hcounter, hsalt⟩ := ht hk
    exact Shrinks.effect ⟨hp, fun x => .inl (by rw [Server.pairingIdOf, hc, Server.pairingIdOf]),
      hcounter, hsalt⟩ hlog

theorem Walks.update (s : Server) (c : ConnId)
    (hf : ∀ x, k.Edits x (f x)) : Walks k 0 s (s.update c f) where
  writes := .update s c fun x =>
    ⟨congrArg Prod.fst (hf x).queue, congrArg Prod.snd (hf x).queue, fun hk =>
      ⟨congrArg Prod.snd (hf x).flags, ((hf x).still hk).1, ((hf x).still hk).2⟩⟩
  raises := .keep s c fun x => ⟨congrArg Prod.fst (hf x).flags, congrArg Prod.snd (hf x).flags⟩
  effect hk := moves_update c (fun x => (hf x).parts hk) s

theorem walks_connection (c : ConnId) : Moves (Walks k 0) (connection c) := fun s => .refl s

theorem walks_get : Moves (Walks k 0) (get : ServerM Server) := fun s => .refl s

theorem walks_decoded {α : Type} (r : Except Failure α) : Moves (Walks k 0) (decoded r) := by
  cases r with
  | ok v => exact Moves.pure v
  | error e => exact Moves.throw e

theorem walks_update (c : ConnId) (hf : ∀ x, k.Edits x (f x)) :
    Moves (Walks k 0) (update c f) :=
  fun s => .update s c hf

theorem walks_sessions {α : Type} {f : (ConnId → Bool) → SessionTable → α × SessionTable}
    (hf : k.parts → ∀ alive t, TableShrinks t (f alive t).2) : Moves (Walks k 0) (sessions f) :=
  fun _ => .same (List.Subset.refl _) rfl rfl fun hk => hf hk _ _

theorem walks_table {α : Type} {f : (ConnId → Bool) → SessionTable → α × SessionTable}
    (hf : ∀ alive t, (f alive t).2.pairingPart = t.pairingPart) : Moves (Walks k 0) (sessions f) :=
  walks_sessions fun _ alive t => .of_part (hf alive t)

theorem walks_wakeFor (c : ConnId) : Moves (Walks k 0) (wakeFor c) :=
  fun _ => .same (List.subset_append_left _ _) rfl rfl fun _ => .refl _

theorem walks_allowRequest (key nowMs : UInt64) : Moves (Walks k 0) (allowRequest key nowMs) :=
  fun _ => .same (List.Subset.refl _) rfl rfl fun _ => .refl _

theorem walks_enqueueFrame {c : ConnId} {type : MessageType} (h : k.sends c type) (payload : Bytes) :
    Moves (Walks k 1) (enqueueFrame c type payload) :=
  fun s => ⟨writes_enqueueFrame ⟨type, h⟩ type payload s, raises_enqueueFrame c type payload s, fun _ =>
    moves_enqueueFrame h payload s⟩

theorem walks_enqueue {c : ConnId} {type : MessageType} {payload : Bytes} {p : Unit → ServerM Unit}
    (h : k.sends c type) (hp : ∀ u, Moves (Walks k n) (p u)) :
    Moves (Walks k (n + 1)) (enqueueFrame c type payload >>= p) :=
  Nat.add_comm 1 n ▸ walks_bind (walks_enqueueFrame h payload) hp

theorem Walks.requestClose (s : Server) {c : ConnId} (h : k.closes c) (reason : Bytes) :
    Walks k 0 s (s.update c (·.requestClose reason)) :=
  ⟨writes_requestClose c reason s, .requestClose s h reason, fun _ => moves_requestClose c reason s⟩

theorem walks_requestClose {c : ConnId} (h : k.closes c) (reason : Bytes) :
    Moves (Walks k 0) (requestClose c reason) :=
  fun s => .requestClose s h reason

theorem walks_rejectAndClose {c : ConnId} (hsends : k.sends c .reject) (hcloses : k.closes c)
    (reason : Bytes) : Moves (Walks k 1) (rejectAndClose c reason) :=
  walks_enqueue hsends fun _ => walks_requestClose hcloses reason

end Primitives

/-! ## Handlers -/

namespace Server

/-- The connections that a frame of `c` may have asked to close. -/
def dismissed (s : Server) (c : ConnId) (frame : Frame) : List ConnId :=
  match frame.header.type with
  | .reject => c :: s.parties c
  | .relayClose => c :: (s.relayPeerId c).toList
  | _ => [c]

/-- With the frame forwarded, more is pending for a peer of `c` than pauses the source. -/
def Floods (s : Server) (c : ConnId) (frame : Frame) : Prop :=
  ∃ p ∈ (s.relayPeerId c).toList ++ s.parties c,
    s.pending p + (kFrameHeaderSize + frame.payload.length) > kRelayPauseThreshold

instance (s : Server) (c : ConnId) (frame : Frame) : Decidable (s.Floods c frame) :=
  inferInstanceAs (Decidable (∃ p ∈ _, _))

end Server

/-- The handler may answer the connection it serves, and ask it to close. -/
structure Scope.Own (k : Scope) (c : ConnId) : Prop where
  sends : ∀ {t}, t ≠ .incoming ∧ t ≠ .matched → k.sends c t
  closes : k.closes c

theorem Scope.Own.reject {k : Scope} {c : ConnId} (own : k.Own c) (reason : Bytes) :
    Moves (Walks k 1) (rejectAndClose c reason) :=
  walks_rejectAndClose (own.sends (by decide)) own.closes reason

/-- The record of an idle connection is noted. -/
theorem Scope.Edits.keep {k : Scope} {x x' : Connection}
    (hq : (x'.output, x'.outputSent) = (x.output, x.outputSent))
    (hf : (x'.closeRequested, x'.readPaused) = (x.closeRequested, x.readPaused))
    (hr : x'.relayPeer = x.relayPeer) (hst : x'.state = .relaying → x.state = .relaying)
    (hid : x'.pairingId = x.pairingId) : k.Edits x x' :=
  ⟨hq, hf, fun _ => ⟨hr, hst⟩, fun _ => .inl hid⟩

section Handlers

variable {k : Scope} {c : ConnId} {frame : Frame}

theorem walks_claimUsername (hello : ClientHello) : Moves (Walks k 0) (claimUsername c hello) := by
  refine Moves.bind (walks_table fun alive t => (SessionTable.claim_others alive t _ c).1) fun result => ?_
  cases result with
  | granted =>
    refine Moves.bind (walks_update c fun _ => .keep rfl rfl rfl ?_ rfl) fun _ => Moves.pure _
    exact ConnectionState.noConfusion
  | alreadyClaimed => exact Moves.pure _
  | invalidUsername => exact Moves.pure _

theorem handleClientHello_walks (own : k.Own c) : Moves (Walks k 1) (handleClientHello c frame) := by
  refine walks_after (walks_decoded _) fun hello => walks_after (walks_connection c) fun conn => ?_
  dsimp only
  split
  · exact own.reject _
  · refine walks_after (walks_update c fun _ => .keep rfl rfl rfl id rfl) fun _ =>
      walks_after walks_get fun s => ?_
    split
    · exact walks_enqueueFrame (own.sends (by decide)) _
    · split
      · refine walks_after (walks_claimUsername hello) fun result =>
          walks_enqueue (own.sends (by decide)) fun _ => ?_
        split
        · exact Moves.pure _
        · exact walks_requestClose own.closes _
      · refine walks_after (walks_update c fun _ => .keep rfl rfl rfl ?_ rfl) fun _ =>
          walks_enqueueFrame (own.sends (by decide)) _
        exact ConnectionState.noConfusion

theorem handleGroupQuery_walks (own : k.Own c) : Moves (Walks k 1) (handleGroupQuery c frame) := by
  refine walks_after (walks_connection c) fun conn => ?_
  split
  · exact own.reject _
  · exact walks_after (walks_decoded _) fun query =>
      walks_after (walks_table fun alive t => (SessionTable.pruneGroup_others alive t _).1) fun _ =>
      walks_after (walks_table fun alive t => (SessionTable.pruneGroup_others alive t _).1) fun _ =>
      walks_enqueueFrame (own.sends (by decide)) _

theorem walks_leaveOtherGroup (joined name : Bytes) :
    Moves (Walks k 0) (leaveOtherGroup c joined name) := by
  unfold leaveOtherGroup
  split
  · exact Moves.bind (walks_table fun alive t => (SessionTable.leaveGroup_others alive t _ c).1) fun _ =>
      walks_update c fun _ => .keep rfl rfl rfl id rfl
  · exact Moves.pure _

theorem handleGroupJoin_walks (own : k.Own c) : Moves (Walks k 1) (handleGroupJoin c frame) := by
  refine walks_after (walks_connection c) fun conn => ?_
  split
  · exact own.reject _
  · refine walks_after (walks_decoded _) fun join => walks_after (walks_leaveOtherGroup _ _) fun _ =>
      walks_after (walks_table fun alive t => (SessionTable.joinGroup_others alive t _ _ c).1) fun outcome =>
      walks_after (walks_update c fun x => ?_) fun _ =>
      walks_after (walks_table fun alive t => (SessionTable.pruneGroup_others alive t _).1) fun _ =>
      walks_enqueueFrame (own.sends (by decide)) _
    split <;> exact .keep rfl rfl rfl id rfl

theorem handleGroupSendRequest_walks (env : Env) (own : k.Own c) :
    Moves (Walks k 1) (handleGroupSendRequest env c frame) := by
  refine walks_after (walks_connection c) fun conn => ?_
  split
  · exact own.reject _
  · refine walks_after (walks_allowRequest _ _) fun allowed => ?_
    split
    · exact own.reject _
    · exact walks_after (walks_decoded _) fun request => walks_after walks_get fun s =>
        walks_after (walks_table fun _ t => by
          rw [SessionTable.idleGroupMembers_snd]
          exact (SessionTable.pruneGroup_others _ t _).1) fun _ =>
        walks_enqueueFrame (own.sends (by decide)) _

theorem walks_introduce (env : Env) {r : ConnId} (hpairs : ¬ k.parts) (hr : k.sends r .incoming)
    (request : SendRequest) : Moves (Walks k 1) (introduce env c r request) := by
  have hpair : Moves (Walks k 0) (pair env c r) := by
    refine Moves.bind (walks_sessions fun hk => absurd hk hpairs) fun id =>
      Moves.bind (walks_update c fun _ => ⟨rfl, rfl, fun _ => ⟨rfl, ?_⟩, fun hk => absurd hk hpairs⟩)
        fun _ => Moves.bind (walks_update r fun _ => ⟨rfl, rfl, fun _ => ⟨rfl, ?_⟩, fun hk =>
          absurd hk hpairs⟩) fun _ => Moves.pure _
    · exact ConnectionState.noConfusion
    · exact ConnectionState.noConfusion
  exact walks_after hpair fun id => walks_after (walks_connection c) fun conn =>
    walks_enqueue hr fun _ => walks_wakeFor r

theorem matchRequest_walks (env : Env) (request : SendRequest) (s : Server) (own : k.Own c)
    (hpairs : ¬ k.parts)
    (hsends : ∀ r, s.sessions.lookup s.alive request.targetUsername = some r → k.sends r .incoming) :
    Walks k 1 s (final (matchRequest env c request) s) := by
  rw [matchRequest, final_bind_ok (run_sessions s _)]
  cases hlookup : s.sessions.lookup s.alive request.targetUsername with
  | none => exact own.reject _ s
  | some r =>
    dsimp only
    rw [final_bind_ok (run_connection s r)]
    split
    · exact own.reject _ s
    · exact walks_introduce env hpairs (hsends r hlookup) request s

theorem handleSendRequest_walks (env : Env) (s : Server) (own : k.Own c) (hpairs : ¬ k.parts)
    (hsends : ∀ request r, SendRequest.decode frame.payload = .ok request →
      s.sessions.lookup s.alive request.targetUsername = some r → k.sends r .incoming) :
    Walks k 1 s (final (handleSendRequest env c frame) s) := by
  rw [handleSendRequest, final_bind_ok (run_connection s c)]
  split
  · exact own.reject _ s
  · rw [final_bind_ok (run_allowRequest s _ _)]
    generalize s.rateLimiter.allowRequest ((s.connections c).getD default).rateLimitKey env.nowMs = charge
    have hcharged : Walks k 0 s { s with rateLimiter := charge.2 } :=
      .same (List.Subset.refl _) rfl rfl fun _ => .refl _
    refine hcharged.after ?_
    split
    · exact own.reject _ _
    · cases hdecode : SendRequest.decode frame.payload with
      | error e => exact .refl _
      | ok request =>
        rw [final_bind_ok (run_decoded _ request)]
        exact matchRequest_walks env request _ own hpairs fun r => hsends request r hdecode

theorem handleAccept_walks (s : Server) (own : k.Own c)
    (hsends : ∀ pr, s.sessions.pairings (s.pairingIdOf c) = some pr → k.sends pr.sender .matched) :
    Walks k 1 s (final (handleAccept c frame) s) := by
  rw [handleAccept, final_bind_ok (run_connection s c)]
  split
  · exact own.reject _ s
  · rw [final_bind_ok (run_sessions s _), pairingId_connection]
    dsimp only [SessionTable.findPairing]
    cases hpr : s.sessions.pairings (s.pairingIdOf c) with
    | none => exact own.reject _ s
    | some pr =>
      dsimp only
      rw [final_bind_ok (run_lock s pr.sender)]
      split
      · refine Walks.of_le (walks_update c ?_ s) (Nat.zero_le 1)
        exact fun _ => ⟨rfl, rfl, fun _ => ⟨rfl, ConnectionState.noConfusion⟩, fun _ => .inr rfl⟩
      · rename_i sender hlock
        obtain rfl := lock_eq_some hlock
        exact walks_after (walks_decoded _)
          (fun _ => walks_enqueue (hsends pr hpr) fun _ => walks_wakeFor _) s

theorem Connection.unpaired_edits (x : Connection) : k.Edits x x.unpaired := by
  refine ⟨rfl, rfl, fun _ => ⟨rfl, fun hst => ?_⟩, fun _ => .inr rfl⟩
  rw [Connection.unpaired] at hst
  dsimp only at hst
  split at hst
  · cases hst
  · exact hst

theorem handleReject_walks (s : Server)
    (hsends : ∀ pr, s.sessions.pairings (s.pairingIdOf c) = some pr →
      k.sends pr.sender .reject ∧ k.closes pr.sender) :
    Walks k 1 s (final (handleReject c frame) s) := by
  rw [handleReject, final_bind_ok (run_connection s c)]
  split
  · exact .refl s
  · rw [final_bind_ok (run_sessions s _), pairingId_connection]
    dsimp only [SessionTable.findPairing]
    cases hpr : s.sessions.pairings (s.pairingIdOf c) with
    | none => exact (walks_update c Connection.unpaired_edits s).of_le (Nat.zero_le 1)
    | some pr =>
      have hforward : Moves (Walks k 1) (forwardReject c pr frame.payload) := by
        intro s₁
        rw [forwardReject, final_bind_ok (run_lock s₁ pr.sender)]
        split
        · exact .refl s₁
        · rename_i sender hlock
          obtain rfl := lock_eq_some hlock
          split
          · exact walks_enqueue (hsends pr hpr).1 (fun _ =>
              Moves.bind (walks_requestClose (hsends pr hpr).2 _) fun _ => walks_wakeFor _) s₁
          · exact .refl s₁
      exact walks_bind hforward (fun _ => Moves.bind
        (walks_sessions fun _ _ t => tableShrinks_destroyPairing t _) fun _ =>
          walks_update c Connection.unpaired_edits) s

theorem walks_startRelaying (hrelays : ¬ k.still) (sender receiver : ConnId) :
    Moves (Walks k 0) (startRelaying sender receiver) := by
  have hstill : ∀ {p : Prop}, k.still → p := fun hk => absurd hk hrelays
  iterate 3 refine Moves.bind (walks_update _ fun _ => ⟨rfl, rfl, hstill, fun _ => .inl rfl⟩) fun _ => ?_
  exact walks_update _ fun _ => ⟨rfl, rfl, hstill, fun _ => .inl rfl⟩

theorem handleRelayOpen_walks (s : Server) (own : k.Own c) (hrelays : ¬ k.still)
    (hsends : ∀ pr, s.sessions.pairings (s.pairingIdOf c) = some pr →
      k.sends pr.sender .relayOpen ∧ k.sends pr.receiver .relayOpen) :
    Walks k 2 s (final (handleRelayOpen c) s) := by
  have hreject : ∀ reason, Walks k 2 s (final (rejectAndClose c reason) s) := fun reason =>
    (own.reject reason s).of_le (by omega)
  rw [handleRelayOpen, final_bind_ok (run_get s), final_bind_ok (run_connection s c)]
  split
  · exact hreject _
  split
  · exact hreject _
  rw [final_bind_ok (run_sessions s _), pairingId_connection]
  dsimp only [SessionTable.findPairing]
  cases hpr : s.sessions.pairings (s.pairingIdOf c) with
  | none => exact hreject _
  | some pr =>
    dsimp only
    rw [final_bind_ok (lockBoth_run s pr)]
    by_cases hboth : s.alive pr.sender = true ∧ s.alive pr.receiver = true
    · rw [if_pos hboth]
      refine walks_after (walks_sessions fun _ _ t => tableShrinks_requestRelay t _ _) (fun start => ?_) s
      split
      · exact walks_after (walks_startRelaying hrelays _ _) fun _ =>
          walks_enqueue (hsends pr hpr).1 fun _ => walks_enqueue (hsends pr hpr).2 fun _ =>
          Moves.bind (walks_wakeFor _) fun _ => walks_wakeFor _
      · exact Moves.pure _
    · rw [if_neg hboth]
      exact hreject _

/-- The source of a relay is paused, if `full`. -/
theorem Walks.pause (s : Server) (hrelays : ¬ k.still) {full : Prop} [Decidable full]
    (hpause : full → k.pauses c) :
    Walks k 0 s (s.update c fun x => if full then { x with readPaused := true } else x) := by
  refine ⟨.update s c fun x => ?_, .update s c (fun x h => .inl ?_) fun x h => ?_, fun _ =>
    moves_update c (fun x => .inl ?_) s⟩
  · split <;> exact ⟨rfl, rfl, fun hk => absurd hk hrelays⟩
  · split at h <;> exact h
  · split at h
    · rename_i hfull
      exact .inr (hpause hfull)
    · exact .inl h
  · split <;> rfl

theorem forward_walks (s : Server) {peer : ConnId} (hrelays : ¬ k.still)
    (hsends : k.sends peer .relayData)
    (hpause : s.pending peer + (kFrameHeaderSize + frame.payload.length) > kRelayPauseThreshold →
      k.pauses c) :
    Walks k 1 s (final (do
      enqueueFrame peer .relayData frame.payload
      let p ← connection peer
      update c fun x =>
        if p.pendingOutput > kRelayPauseThreshold then { x with readPaused := true } else x
      wakeFor peer) s) := by
  by_cases hlen : frame.payload.length ≤ kMaxFrameLength
  · have hqueued := walks_enqueueFrame hsends frame.payload s
    rw [final_of_ok (run_enqueueFrame s peer hlen)] at hqueued
    rw [final_bind_ok (run_enqueueFrame s peer hlen)]
    generalize hs₁ : ({ s.update peer (·.append (encodeFrameHeader
      (Frame.of .relayData frame.payload).header ++ frame.payload)) with
        log := s.log ++ [(peer, Frame.of .relayData frame.payload)] } : Server) = s₁ at hqueued ⊢
    have hpending : s₁.pending peer ≤ s.pending peer + (kFrameHeaderSize + frame.payload.length) := by
      rw [← hs₁]
      refine Server.pending_update (fun x => (x.pendingOutput_append _).trans ?_) peer
      exact Nat.add_le_add_left (Frame.length_bytes (Frame.of .relayData frame.payload)).le _
    have hrecord : ((s₁.connections peer).getD default).pendingOutput = s₁.pending peer := by
      rw [Server.pending]
      cases s₁.connections peer <;> rfl
    rw [final_bind_ok (run_connection s₁ peer), hrecord]
    refine hqueued.trans (Walks.after (.pause s₁ hrelays fun hlong => ?_) (walks_wakeFor peer _))
    exact hpause (Nat.lt_of_lt_of_le hlong hpending)
  · rw [enqueueFrame, if_pos (by omega)]
    exact .refl s

theorem attached_eq (s : Server) (c : ConnId) :
    ((s.connections c).getD default).relayPeer = s.relayPeerId c := by
  rw [Server.relayPeerId]
  cases s.connections c <;> rfl

theorem Server.parties_eq {s : Server} {pr : Pairing}
    (h : s.sessions.pairings (s.pairingIdOf c) = some pr) : s.parties c = [pr.sender, pr.receiver] := by
  simp [Server.parties, SessionTable.findPairing, h]

theorem handleRelayData_walks (s : Server) (own : k.Own c) (hrelays : ¬ k.still)
    (hsends : ∀ p ∈ (s.relayPeerId c).toList ++ s.parties c, k.sends p .relayData)
    (hpause : s.Floods c frame → k.pauses c) : Walks k 1 s (final (handleRelayData c frame) s) := by
  rw [handleRelayData, final_bind_ok (run_connection s c)]
  obtain ⟨p, hp, -, hrun⟩ | ⟨pr, -, -, hpr, -, -, -, hrun⟩ | hrun :=
    relayPeerOf_cases s c ((s.connections c).getD default)
  · rw [final_bind_ok hrun]
    rw [attached_eq] at hp
    have hmem : p ∈ (s.relayPeerId c).toList ++ s.parties c := by simp [hp]
    exact forward_walks s hrelays (hsends p hmem) fun hlong => hpause ⟨p, hmem, hlong⟩
  · rw [final_bind_ok hrun]
    rw [pairingId_connection] at hpr
    have hmem : (if pr.sender = c then pr.receiver else pr.sender) ∈
        (s.relayPeerId c).toList ++ s.parties c := by
      rw [Server.parties_eq hpr]
      split <;> simp
    refine Walks.after (walks_startRelaying hrelays pr.sender pr.receiver s)
      (forward_walks _ hrelays (hsends _ hmem) fun hlong => hpause ⟨_, hmem, ?_⟩)
    rwa [← s.pending_relaying pr.sender pr.receiver]
  · rw [final_bind_ok hrun]
    exact own.reject _ s

theorem handleRelayClose_walks (s : Server) (hc : k.closes c)
    (hpeer : ∀ p, s.relayPeerId c = some p → k.sends p .relayClose ∧ k.closes p) :
    Walks k 1 s (final (handleRelayClose c frame) s) := by
  rw [handleRelayClose, final_bind_ok (run_connection s c),
    final_bind_ok (attachedPeer_run s _), attached_eq]
  cases hp : (s.relayPeerId c).filter s.alive with
  | none => exact (walks_requestClose hc _ s).of_le (Nat.zero_le 1)
  | some p =>
    obtain ⟨hsends, hcloses⟩ := hpeer p (Option.filter_eq_some_iff.mp hp).1
    exact walks_enqueue hsends (fun _ => Moves.bind (walks_requestClose hcloses _) fun _ =>
      Moves.bind (walks_wakeFor p) fun _ => walks_requestClose hc _) s

end Handlers

/-! ## Dispatch -/

section Dispatch

variable (c : ConnId) (frame : Frame)

/-- What handling a frame of `c` may do. -/
def Server.scope (s : Server) : Scope where
  sends y t := y ∈ s.addressees c frame ∧ (frame.header.type ≠ .sendRequest → AnswerFrame s c y t ∧
    (frame.header.type ≠ .accept → frame.header.type ≠ .reject → QuietFrame c y t))
  closes y := y ∈ s.dismissed c frame
  pauses y := y = c ∧ frame.header.type = .relayData ∧ s.Floods c frame
  still := ¬ frame.header.type.Relays
  parts := frame.header.type ≠ .sendRequest

theorem Server.mem_dismissed_self (s : Server) : c ∈ s.dismissed c frame := by
  unfold Server.dismissed
  split <;> exact List.mem_cons_self

/-- A frame that answers nobody may be sent by any handler. -/
theorem Server.scope_sends {s : Server} {y : ConnId} {t : MessageType}
    (hy : y ∈ s.addressees c frame) (hi : t ≠ .incoming) (hm : t ≠ .matched)
    (hr : t = .reject → y = c) : (s.scope c frame).sends y t := by
  refine ⟨hy, fun _ => ⟨⟨hi, ?_⟩, fun _ _ => ⟨hi, hm, hr⟩⟩⟩
  rintro (rfl | rfl)
  · exact absurd rfl hm
  · exact .inl (hr rfl)

theorem handleFrame_walks (env : Env) (s : Server) :
    Walks (s.scope c frame) 2 s (final (handleFrame env c frame) s) := by
  have hone : ∀ {s' : Server}, Walks (s.scope c frame) 1 s s' → Walks (s.scope c frame) 2 s s' :=
    fun h => h.of_le (by omega)
  have hown : c ∈ s.addressees c frame → (s.scope c frame).Own c := fun hc =>
    ⟨fun ht => s.scope_sends c frame hc ht.1 ht.2 fun _ => rfl, s.mem_dismissed_self c frame⟩
  have hdismissed := s.mem_dismissed_self c frame
  cases htype : frame.header.type <;> simp only [handleFrame, htype]
  case clientHello =>
    exact hone (handleClientHello_walks (hown (by simp [Server.addressees, htype])) s)
  case groupQuery =>
    exact hone (handleGroupQuery_walks (hown (by simp [Server.addressees, htype])) s)
  case groupJoin =>
    exact hone (handleGroupJoin_walks (hown (by simp [Server.addressees, htype])) s)
  case groupSendRequest =>
    exact hone (handleGroupSendRequest_walks env (hown (by simp [Server.addressees, htype])) s)
  case sendRequest =>
    refine hone (handleSendRequest_walks env s (hown ?_) (· htype) fun request r hdecode hlookup => ?_)
    · simp only [Server.addressees, htype]
      split <;> exact List.mem_cons_self
    · exact ⟨by simp [Server.addressees, htype, hdecode, hlookup], fun h => absurd htype h⟩
  case accept =>
    refine hone (handleAccept_walks s (hown (by simp [Server.addressees, htype])) fun pr hpr => ?_)
    refine ⟨by simp [Server.addressees, htype, Server.parties_eq hpr], fun _ => ⟨⟨by decide, fun _ =>
      .inr ⟨pr, hpr, rfl⟩⟩, fun h => absurd htype h⟩⟩
  case reject =>
    refine hone (handleReject_walks s fun pr hpr => ⟨⟨?_, fun _ => ⟨⟨by decide, fun _ =>
      .inr ⟨pr, hpr, rfl⟩⟩, fun _ h => absurd htype h⟩⟩, ?_⟩)
    · simp [Server.addressees, htype, Server.parties_eq hpr]
    · simp [Server.scope, Server.dismissed, htype, Server.parties_eq hpr]
  case relayOpen =>
    refine handleRelayOpen_walks s (hown (by simp [Server.addressees, htype])) (· (.inl htype))
      fun pr hpr => ⟨s.scope_sends c frame ?_ (by decide) (by decide) MessageType.noConfusion,
        s.scope_sends c frame ?_ (by decide) (by decide) MessageType.noConfusion⟩ <;>
      simp [Server.addressees, htype, Server.parties_eq hpr]
  case relayData =>
    refine hone (handleRelayData_walks s (hown (by simp [Server.addressees, htype])) (· (.inr htype))
      (fun p hp => s.scope_sends c frame ?_ (by decide) (by decide) MessageType.noConfusion)
      fun hfloods => ⟨rfl, htype, hfloods⟩)
    simp only [Server.addressees, htype]
    exact List.mem_cons_of_mem _ hp
  case relayClose =>
    refine hone (handleRelayClose_walks s hdismissed fun p hp => ⟨s.scope_sends c frame ?_ (by decide)
      (by decide) MessageType.noConfusion, ?_⟩)
    · simp [Server.addressees, htype, hp]
    · simp [Server.scope, Server.dismissed, htype, hp]
  case keepAlive =>
    exact .refl s
  case bye =>
    exact (walks_requestClose hdismissed _ s).of_le (Nat.zero_le 2)
  all_goals exact hone ((hown (by simp [Server.addressees, htype])).reject _ s)

theorem relayPeerId_touched (s : Server) (env : Env) :
    (s.touched env c).relayPeerId c = s.relayPeerId c := by
  rw [Server.relayPeerId, Server.touched, Server.connections_update_self, Server.relayPeerId]
  cases s.connections c <;> rfl

theorem pairingIdOf_update (s : Server)
    (hf : ∀ x, (f x).pairingId = x.pairingId) : (s.update c f).pairingIdOf c = s.pairingIdOf c := by
  rw [Server.pairingIdOf, Server.connections_update_self, Option.map_map, Server.pairingIdOf]
  congr 2
  exact funext hf

theorem parties_update (s : Server)
    (hf : ∀ x, (f x).pairingId = x.pairingId) : (s.update c f).parties c = s.parties c := by
  rw [Server.parties, pairingIdOf_update c s hf]
  rfl

theorem parties_touched (s : Server) (env : Env) : (s.touched env c).parties c = s.parties c := by
  refine parties_update c s ?_
  exact fun _ => rfl

theorem addressees_touched (s : Server) (env : Env) :
    (s.touched env c).addressees c frame = s.addressees c frame := by
  have halive : (s.touched env c).alive = s.alive := alive_update s c _
  unfold Server.addressees
  rw [parties_touched, relayPeerId_touched, halive]
  rfl

theorem Server.Floods.of_touched {s : Server} {env : Env} (h : (s.touched env c).Floods c frame) :
    s.Floods c frame := by
  obtain ⟨p, hp, hlong⟩ := h
  rw [parties_touched, relayPeerId_touched] at hp
  rw [Server.touched, Server.pending_keep] at hlong
  · exact ⟨p, hp, hlong⟩
  · exact fun _ => rfl

/-- The time that `service_connection` notes first is no matter of the scope. -/
theorem Walks.of_touched {s s' : Server} {env : Env} {n : Nat}
    (h : Walks ((s.touched env c).scope c frame) n (s.touched env c) s') :
    Walks (s.scope c frame) n s s' := by
  have hid : (s.touched env c).pairingIdOf c = s.pairingIdOf c := by
    refine pairingIdOf_update c s ?_
    exact fun _ => rfl
  have htouch : Walks (s.scope c frame) 0 s (s.touched env c) :=
    .update s c fun _ => .keep rfl rfl rfl id rfl
  refine htouch.after (h.mono ?_ ?_ ?_ id id (Nat.le_refl n))
  · rintro y t ⟨hy, hframe⟩
    rw [addressees_touched] at hy
    refine ⟨hy, fun htype => ⟨⟨(hframe htype).1.1, fun ht => ?_⟩, (hframe htype).2⟩⟩
    have hanswer := (hframe htype).1.2 ht
    rwa [hid] at hanswer
  · intro y hy
    simp only [Server.scope, Server.dismissed, parties_touched, relayPeerId_touched] at hy ⊢
    exact hy
  · exact fun y hy => ⟨hy.1, hy.2.1, hy.2.2.of_touched⟩

theorem processFrame_walks (env : Env) (s : Server) :
    Walks (s.scope c frame) 2 s (s.processFrame env c frame) := by
  have h := (handleFrame_walks c frame env (s.touched env c)).of_touched
  rw [Server.processFrame]
  rw [final] at h
  split
  · rename_i hrun
    rwa [hrun] at h
  · rename_i hrun
    rw [hrun] at h
    exact h.trans (.requestClose _ (s.mem_dismissed_self c frame) _)

theorem processFrame_writes {strict : Prop} (hstrict : strict → ¬ frame.header.type.Relays) (env : Env)
    (s : Server) :
    Writes strict (· ∈ s.addressees c frame) 2 s (s.processFrame env c frame) :=
  (processFrame_walks c frame env s).writes.mono hstrict (fun _ ⟨_, h⟩ => h.1) (Nat.le_refl 2)

end Dispatch

/-! ## Closing -/

section Closing

variable (c : ConnId)

/-- What the end of a connection may do: tell the other end of its pairing. -/
def Server.lastScope (s : Server) : Scope where
  sends y t := y ∈ s.parties c ∧ QuietFrame c y t
  closes y := y ∈ s.parties c

theorem walks_releasePeer {k : Scope} {pr : Pairing}
    (h : ∀ y, y = pr.sender ∨ y = pr.receiver → k.sends y .relayClose ∧ k.closes y) :
    Moves (Walks k 1) (releasePeer c pr) := by
  intro s
  rw [releasePeer, final_bind_ok (run_lock s pr.sender), final_bind_ok (run_lock s pr.receiver)]
  have hsender : ∀ y, (if s.alive pr.sender then some pr.sender else none) = some y →
      k.sends y .relayClose ∧ k.closes y := fun y hy => h y (.inl (lock_eq_some hy))
  have hreceiver : ∀ y, (if s.alive pr.receiver then some pr.receiver else none) = some y →
      k.sends y .relayClose ∧ k.closes y := fun y hy => h y (.inr (lock_eq_some hy))
  generalize (if s.alive pr.sender then some pr.sender else none) = sender at hsender ⊢
  generalize (if s.alive pr.receiver then some pr.receiver else none) = receiver at hreceiver ⊢
  split
  · exact .refl s
  · rename_i other hother
    obtain ⟨hsends, hcloses⟩ : k.sends other .relayClose ∧ k.closes other := by
      split at hother
      · exact hreceiver other hother
      · exact hsender other hother
    split
    · exact .refl s
    · rw [final_bind_ok (run_connection s other)]
      split
      · refine Walks.of_le (walks_update other ?_ s) (Nat.zero_le 1)
        exact fun _ => ⟨rfl, rfl, fun _ => ⟨rfl, ConnectionState.noConfusion⟩, fun _ => .inr rfl⟩
      · exact walks_enqueue hsends (fun _ => Moves.bind (walks_requestClose hcloses _) fun _ =>
          walks_wakeFor other) s

theorem walks_releaseSessions {k : Scope} {x : Connection} {s : Server}
    (h : ∀ pr, s.sessions.pairings x.pairingId = some pr → ∀ y, y = pr.sender ∨ y = pr.receiver →
      k.sends y .relayClose ∧ k.closes y) :
    Walks k 1 s (final (releaseSessions c x) s) := by
  have hpart := s.departed_pairingPart c x
  rw [← SessionTable.pairings_eq hpart] at h
  rw [releaseSessions, final_bind_ok (run_sessions s _), final_bind_ok (run_sessions _ _)]
  have hdeparted : Walks k 0 s { s with sessions := s.departed c x } :=
    .same (List.Subset.refl _) rfl rfl fun _ => .of_part hpart
  refine hdeparted.after ?_
  split
  · exact .refl _
  · rw [final_bind_ok (run_sessions _ _)]
    split
    · rename_i pr hpr
      refine walks_bind (walks_releasePeer c (h pr hpr)) (fun _ => walks_sessions ?_) _
      exact fun _ _ t => tableShrinks_destroyPairing t _
    · exact .refl _

theorem closeConnection_walks (s : Server) :
    Walks (s.lastScope c) 1 s (final (closeConnection c) s) := by
  rw [closeConnection, final_bind_ok (run_connection s c)]
  split
  · exact .refl s
  · rw [final_bind_ok (run_update s c _)]
    have hmark : Walks (s.lastScope c) 0 s (s.update c fun x => { x with state := .closing }) :=
      .update s c fun _ => .keep rfl rfl rfl ConnectionState.noConfusion rfl
    refine hmark.after ?_
    refine walks_then (walks_releaseSessions c fun pr hpr y hy => ?_) fun _ s' => ?_
    · rw [pairingId_connection] at hpr
      have hmem : y ∈ s.parties c := by
        rw [Server.parties_eq hpr]
        simpa using hy
      exact ⟨⟨hmem, quietFrame_of_ne (by decide)⟩, hmem⟩
    · -- what is gone has no queue and no flags
      have hgone : ∀ {y x}, (s'.removed c).connections y = some x → s'.connections y = some x := by
        intro y x hx
        by_cases hy : y = c
        · subst hy
          simp [Server.removed] at hx
        · simpa [Server.removed, hy] using hx
      refine ⟨.none (List.Subset.refl _) rfl fun y x hx => ⟨x, hgone hx, rfl, rfl, fun _ => .refl x⟩,
        ⟨?_, ?_⟩, fun _ => (Shrinks.remove c s').effect rfl⟩
      all_goals
        rintro y ⟨x, hx, hflag⟩
        exact .inl ⟨x, hgone hx, hflag⟩

theorem closeConnection_writes {strict : Prop} (s : Server) :
    Writes strict (· ∈ s.parties c) 1 s (final (closeConnection c) s) :=
  (closeConnection_walks c s).writes.mono (fun _ => trivial) (fun _ ⟨_, h⟩ => h.1) (Nat.le_refl 1)

end Closing

end DropZone
