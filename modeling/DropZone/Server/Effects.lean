import DropZone.Server.Introduction

/-!
# What a handler can do

Every handler but a successful `handle_send_request` leaves the pairings and the connections'
pairing ids as they are or takes some away, and enqueues only certain frames.

* `Shrinks s s'`: no pairing and no pairing id of `s'` is new.
* `Effect P s s'`: `Shrinks`, and every frame enqueued in between has a connection and a type that
  satisfy `P`.
* `handleSendRequest_cases`, `introduce_spec`: a request that introduces, and what it enqueues.
* `Server.Numbers`: every pairing id was handed out, and only the parties of a pairing note its id.
-/

namespace DropZone

open LittleEndian StateSpec

def Server.pairingIdOf (s : Server) (c : ConnId) : UInt64 :=
  ((s.connections c).map (·.pairingId)).getD 0

def Server.logSince (s s' : Server) : List (ConnId × Frame) := s'.log.drop s.log.length

theorem logSince_of_append {s s' : Server} {new : List (ConnId × Frame)} (h : s'.log = s.log ++ new) :
    s.logSince s' = new := by
  rw [Server.logSince, h, List.drop_left]

/-- No pairing and no pairing id is new, and the id counter did not move. -/
structure Shrinks (s s' : Server) : Prop where
  pairings : ∀ p pr', s'.sessions.pairings p = some pr' →
    ∃ pr, s.sessions.pairings p = some pr ∧ pr'.parties = pr.parties
  ids : ∀ x, s'.pairingIdOf x = s.pairingIdOf x ∨ s'.pairingIdOf x = 0
  counter : s'.sessions.nextPairingCounter = s.sessions.nextPairingCounter
  salt : s'.sessions.pairingIdSalt = s.sessions.pairingIdSalt ∧
    s'.sessions.saltReady = s.sessions.saltReady

/-- `Shrinks`, and the frames enqueued in between satisfy `P`. -/
structure Effect (P : ConnId → MessageType → Prop) (s s' : Server) : Prop where
  shrinks : Shrinks s s'
  log : ∃ new, s'.log = s.log ++ new ∧ ∀ y f, (y, f) ∈ new → P y f.header.type

theorem Shrinks.refl (s : Server) : Shrinks s s where
  pairings _ pr h := ⟨pr, h, rfl⟩
  ids _ := Or.inl rfl
  counter := rfl
  salt := ⟨rfl, rfl⟩

theorem Shrinks.trans {s₁ s₂ s₃ : Server} (h : Shrinks s₁ s₂) (h' : Shrinks s₂ s₃) :
    Shrinks s₁ s₃ where
  pairings p pr₃ h₃ := by
    obtain ⟨pr₂, h₂, e₂⟩ := h'.pairings p pr₃ h₃
    obtain ⟨pr₁, h₁, e₁⟩ := h.pairings p pr₂ h₂
    exact ⟨pr₁, h₁, e₂.trans e₁⟩
  ids x := by
    rcases h'.ids x with e' | e'
    · rw [e']; exact h.ids x
    · exact Or.inr e'
  counter := h'.counter.trans h.counter
  salt := ⟨h'.salt.1.trans h.salt.1, h'.salt.2.trans h.salt.2⟩

instance (P : ConnId → MessageType → Prop) : Std.Refl (Effect P) where
  refl s := ⟨.refl s, [], (List.append_nil _).symm, by simp⟩

instance (P : ConnId → MessageType → Prop) : IsTrans Server (Effect P) where
  trans s₁ s₂ s₃ h h' := by
    obtain ⟨new, hl, hP⟩ := h.log
    obtain ⟨new', hl', hP'⟩ := h'.log
    refine ⟨h.shrinks.trans h'.shrinks, new ++ new', by rw [hl', hl, List.append_assoc], ?_⟩
    intro y f hf
    rcases List.mem_append.mp hf with hf | hf
    · exact hP y f hf
    · exact hP' y f hf

theorem Effect.mono {P Q : ConnId → MessageType → Prop} {s s' : Server} (h : Effect P s s')
    (hPQ : ∀ y t, P y t → Q y t) : Effect Q s s' := by
  obtain ⟨new, hl, hP⟩ := h.log
  exact ⟨h.shrinks, new, hl, fun y f hf => hPQ _ _ (hP y f hf)⟩

/-- A change that enqueues nothing. -/
theorem Shrinks.effect {P : ConnId → MessageType → Prop} {s s' : Server} (h : Shrinks s s')
    (hl : s'.log = s.log) : Effect P s s' :=
  ⟨h, [], by rw [hl, List.append_nil], by simp⟩

/-! ## Primitives -/

section Primitives

variable {P : ConnId → MessageType → Prop}

theorem Shrinks.update (s : Server) (c : ConnId) {f : Connection → Connection}
    (hf : ∀ x, (f x).pairingId = x.pairingId ∨ (f x).pairingId = 0) : Shrinks s (s.update c f) where
  pairings _ pr h := ⟨pr, h, rfl⟩
  ids x := by
    by_cases hx : x = c
    · subst hx
      simp only [Server.pairingIdOf, Server.update, Function.update_self]
      cases h : s.connections x with
      | none => exact Or.inl rfl
      | some conn => exact hf conn
    · simp [Server.pairingIdOf, Server.update, hx]
  counter := rfl
  salt := ⟨rfl, rfl⟩

theorem moves_update (c : ConnId) {f : Connection → Connection}
    (hf : ∀ x, (f x).pairingId = x.pairingId ∨ (f x).pairingId = 0) :
    Moves (Effect P) (update c f) :=
  fun s => (Shrinks.update s c hf).effect rfl

theorem moves_requestClose (c : ConnId) (reason : Bytes) :
    Moves (Effect P) (requestClose c reason) :=
  moves_update c fun x => Or.inl (x.requestClose_pairingId reason)

theorem moves_allowRequest (key nowMs : UInt64) : Moves (Effect P) (allowRequest key nowMs) :=
  fun _ => Shrinks.effect ⟨fun _ pr h => ⟨pr, h, rfl⟩, fun _ => Or.inl rfl, rfl, rfl, rfl⟩ rfl

theorem moves_enqueueFrame {c : ConnId} {type : MessageType} (hP : P c type) (payload : Bytes) :
    Moves (Effect P) (enqueueFrame c type payload) := by
  intro s
  by_cases hlen : payload.length ≤ kMaxFrameLength
  · rw [final_of_ok (run_enqueueFrame s c hlen)]
    have hs := Shrinks.update s c fun x => Or.inl (x.append_pairingId
      (encodeFrameHeader (Frame.of type payload).header ++ payload))
    refine ⟨⟨hs.pairings, hs.ids, hs.counter, hs.salt⟩, [(c, Frame.of type payload)], rfl, ?_⟩
    intro y f hf
    obtain ⟨rfl, rfl⟩ := Prod.mk.inj (List.mem_singleton.mp hf)
    exact hP
  · rw [enqueueFrame, if_pos (by omega)]
    exact Moves.throw _ s

theorem moves_rejectAndClose {c : ConnId} (hP : P c .reject) (reason : Bytes) :
    Moves (Effect P) (rejectAndClose c reason) :=
  (moves_enqueueFrame hP reason).bind fun _ => moves_requestClose c reason

/-- An operation of the session table that adds no pairing and leaves the id counter alone. -/
structure TableShrinks (t t' : SessionTable) : Prop where
  pairings : ∀ p pr', t'.pairings p = some pr' →
    ∃ pr, t.pairings p = some pr ∧ pr'.parties = pr.parties
  counter : t'.nextPairingCounter = t.nextPairingCounter
  salt : t'.pairingIdSalt = t.pairingIdSalt ∧ t'.saltReady = t.saltReady

/-! ## The session table -/

theorem TableShrinks.refl (t : SessionTable) : TableShrinks t t :=
  ⟨fun _ pr h => ⟨pr, h, rfl⟩, rfl, rfl, rfl⟩

theorem TableShrinks.of_part {t t' : SessionTable} (h : t'.pairingPart = t.pairingPart) :
    TableShrinks t t' := by
  obtain ⟨hc, hsalt⟩ := Prod.mk.inj (Prod.mk.inj h).2
  exact ⟨fun p pr hp => ⟨pr, by rwa [← SessionTable.pairings_eq h], rfl⟩, hc, Prod.mk.inj hsalt⟩

variable (alive : ConnId → Bool) (t : SessionTable)

theorem tableShrinks_requestRelay (id : UInt64) (fromSender : Bool) :
    TableShrinks t (t.requestRelay id fromSender).2 := by
  unfold SessionTable.requestRelay
  split
  · exact .refl t
  · rename_i p hp
    -- the flags change, the parties do not
    have key : ∀ q : Pairing, q.parties = p.parties →
        TableShrinks t { t with pairings := Function.update t.pairings id (some q) } := by
      intro q hq
      refine ⟨fun k pr' h => ?_, rfl, rfl, rfl⟩
      by_cases hk : k = id
      · subst hk
        simp only [Function.update_self, Option.some.injEq] at h
        exact ⟨p, hp, by rw [← h, hq]⟩
      · simp only [Function.update_of_ne hk] at h
        exact ⟨pr', h, rfl⟩
    dsimp only
    split
    · split
      · exact key _ rfl
      · exact key _ rfl
    · split
      · exact key _ rfl
      · exact key _ rfl

theorem tableShrinks_destroyPairing (id : UInt64) : TableShrinks t (t.destroyPairing id) := by
  refine ⟨fun k pr' h => ?_, rfl, rfl, rfl⟩
  by_cases hk : k = id
  · subst hk
    simp [SessionTable.destroyPairing] at h
  · simp only [SessionTable.destroyPairing, Function.update_of_ne hk] at h
    exact ⟨pr', h, rfl⟩

theorem tableShrinks_expirePairings (nowMs maxAgeMs : UInt64) :
    TableShrinks t (t.expirePairings alive nowMs maxAgeMs) := by
  refine ⟨fun k pr' h => ?_, rfl, rfl, rfl⟩
  simp only [SessionTable.expirePairings] at h
  split at h
  · rename_i p hp
    split at h
    · cases h
    · cases h
      exact ⟨_, hp, rfl⟩
  · cases h

end Primitives

/-! ## Quiet handlers -/

/-- A frame that a handler for `c` may enqueue without answering anybody: no introduction, no match
and a refusal only on `c` itself. -/
def QuietFrame (c y : ConnId) (t : MessageType) : Prop :=
  t ≠ .incoming ∧ t ≠ .matched ∧ (t = .reject → y = c)

theorem quietFrame_reject (c : ConnId) : QuietFrame c c .reject :=
  ⟨by decide, by decide, fun _ => rfl⟩

theorem quietFrame_of_ne {c y : ConnId} {t : MessageType}
    (h : t ≠ .incoming ∧ t ≠ .matched ∧ t ≠ .reject) : QuietFrame c y t :=
  ⟨h.1, h.2.1, fun e => absurd e h.2.2⟩

section Handlers

variable (c : ConnId) (frame : Frame)

theorem Shrinks.remove (s : Server) :
    Shrinks s { s with connections := Function.update s.connections c none } where
  pairings _ pr h := ⟨pr, h, rfl⟩
  ids x := by
    by_cases hx : x = c
    · subst hx
      exact Or.inr (by simp [Server.pairingIdOf])
    · exact Or.inl (by simp [Server.pairingIdOf, hx])
  counter := rfl
  salt := ⟨rfl, rfl⟩

theorem acceptConnection_effect (s : Server) (env : Env) (addr : SockAddr) :
    Effect (QuietFrame c) s (s.acceptConnection env addr) := by
  have hkeep : ∀ limiter, Shrinks s { s with rateLimiter := limiter } := fun _ =>
    ⟨fun _ pr h => ⟨pr, h, rfl⟩, fun _ => Or.inl rfl, rfl, rfl, rfl⟩
  unfold Server.acceptConnection
  dsimp only
  split
  · refine Shrinks.effect ⟨fun _ pr h => ⟨pr, h, rfl⟩, fun x => ?_, rfl, rfl, rfl⟩ rfl
    by_cases hx : x = s.nextConnectionId
    · exact Or.inr (by simp [Server.pairingIdOf, hx])
    · exact Or.inl (by simp [Server.pairingIdOf, hx])
  · exact (hkeep _).effect rfl

theorem expire_effect (s : Server) (env : Env) : Effect (QuietFrame c) s (s.expire env) := by
  obtain ⟨hp, hc, hs⟩ := tableShrinks_expirePairings s.alive s.sessions env.nowMs
    (s.options.pairingTimeoutSeconds.toUInt64 * 1000)
  exact Shrinks.effect ⟨hp, fun _ => Or.inl rfl, hc, hs⟩ rfl

/-! ## Answers -/

/-- A frame that an answer from `c` may enqueue in state `s`: a match or a refusal goes to `c`
itself or to the sender of the pairing that `c` is in. -/
def AnswerFrame (s : Server) (c y : ConnId) (t : MessageType) : Prop :=
  t ≠ .incoming ∧ (t = .matched ∨ t = .reject →
    y = c ∨ ∃ pr, s.sessions.pairings (s.pairingIdOf c) = some pr ∧ pr.sender = y)

theorem pairingId_connection (s : Server) :
    ((s.connections c).getD default).pairingId = s.pairingIdOf c := by
  unfold Server.pairingIdOf
  cases s.connections c <;> rfl

theorem lock_eq_some {s : Server} {x y : ConnId} (h : (if s.alive x then some x else none) = some y) :
    y = x := by
  by_cases ha : s.alive x
  · rw [if_pos ha] at h
    exact (Option.some.inj h).symm
  · rw [if_neg ha] at h
    cases h

/-! ## Requests -/

theorem lookup_eq_some {t : SessionTable} {alive : ConnId → Bool} {u : Bytes} {r : ConnId}
    (h : t.lookup alive u = some r) : alive r = true := by
  unfold SessionTable.lookup at h
  split at h
  · rename_i holder _
    by_cases ha : alive holder
    · rw [if_pos ha] at h
      rw [← Option.some.inj h, ha]
    · rw [if_neg ha] at h
      cases h
  · cases h

/-- A decoded request finds an idle receiver or is quiet. -/
theorem matchRequest_cases (env : Env) (request : SendRequest) (s : Server) :
    Effect (QuietFrame c) s (final (matchRequest env c request) s) ∨
      ∃ r receiver, s.sessions.lookup s.alive request.targetUsername = some r ∧
        s.connections r = some receiver ∧ receiver.state = .receiverIdle := by
  have hreject : ∀ reason, Moves (Effect (QuietFrame c)) (rejectAndClose c reason) :=
    moves_rejectAndClose (quietFrame_reject c)
  rw [matchRequest, final_bind_ok (run_sessions s _)]
  cases hlook : s.sessions.lookup s.alive request.targetUsername with
  | none => exact Or.inl (hreject _ s)
  | some r =>
    obtain ⟨receiver, hr⟩ := Option.isSome_iff_exists.mp (lookup_eq_some hlook)
    dsimp only
    rw [final_bind_ok (run_found hr)]
    by_cases hidle : receiver.state = .receiverIdle
    · exact Or.inr ⟨r, receiver, rfl, hr, hidle⟩
    · rw [if_pos hidle]
      exact Or.inl (hreject _ s)

/-- **A request introduces its sender or is quiet.** -/
theorem handleSendRequest_cases (env : Env) (s : Server) :
    Effect (QuietFrame c) s (final (handleSendRequest env c frame) s) ∨
      ∃ conn request r receiver, MayIntroduce s env c frame conn request r receiver := by
  have hreject : ∀ reason, Moves (Effect (QuietFrame c)) (rejectAndClose c reason) :=
    moves_rejectAndClose (quietFrame_reject c)
  rw [handleSendRequest, final_bind_ok (run_connection s c)]
  cases hc : s.connections c with
  | none => exact Or.inl (by rw [if_pos (by decide)]; exact hreject _ s)
  | some conn =>
    rw [Option.getD_some]
    by_cases hstate : conn.state = .senderIdle
    · have hcharge := moves_allowRequest (P := QuietFrame c) conn.rateLimitKey env.nowMs s
      rw [if_neg (not_not.mpr hstate), final_bind_ok (run_allowRequest s _ _)]
      rw [final_of_ok (run_allowRequest s _ _)] at hcharge
      by_cases hallow : (s.rateLimiter.allowRequest conn.rateLimitKey env.nowMs).1 = true
      · rw [if_neg (by simp [hallow])]
        cases hreq : SendRequest.decode frame.payload with
        | error e => exact Or.inl (IsTrans.trans _ _ _ hcharge (Std.Refl.refl _))
        | ok request =>
          rw [final_bind_ok (run_decoded _ _)]
          rcases matchRequest_cases c env request (s.charged env conn) with h | ⟨r, receiver, hl, hr, hi⟩
          · exact Or.inl (IsTrans.trans _ _ _ hcharge h)
          · exact Or.inr ⟨conn, request, r, receiver, hc, hstate, hallow, hreq, hl, hr, hi⟩
      · rw [if_pos (by simpa using hallow)]
        exact Or.inl (IsTrans.trans _ _ _ hcharge (hreject _ _))
    · rw [if_pos hstate]
      exact Or.inl (hreject _ s)

/-- What `introduce` does, whether or not the `Incoming` fits in a frame: the pairing is created and
stamped on both ends, and at most an `Incoming` is enqueued, on the receiver. -/
theorem introduce_spec (env : Env) (r : ConnId) (request : SendRequest) (s : Server) :
    (final (introduce env c r request) s).sessions = (s.paired env c r).sessions ∧
    (∀ x, (final (introduce env c r request) s).pairingIdOf x = (s.paired env c r).pairingIdOf x) ∧
    ∃ new, (final (introduce env c r request) s).log = s.log ++ new ∧
      (new = [] ∨ ∃ f, new = [(r, f)] ∧ f.header.type = .incoming) := by
  rw [introduce, final_bind_ok (run_pair s env c r), final_bind_ok (run_connection _ c)]
  generalize (introductionOf _ request _).encode = payload
  by_cases hlen : payload.length ≤ kMaxFrameLength
  · rw [final_bind_ok (run_enqueueFrame _ r hlen), final_of_ok (run_wakeFor _ r)]
    refine ⟨rfl, fun x => ?_, [(r, Frame.of .incoming payload)], rfl, Or.inr ⟨_, rfl, rfl⟩⟩
    by_cases hx : x = r
    · subst hx
      simp only [Server.pairingIdOf, Server.update, Function.update_self]
      cases (s.paired env c x).connections x <;> simp
    · simp [Server.pairingIdOf, Server.update, hx]
  · have herr : (enqueueFrame r .incoming payload).run (s.paired env c r) =
        .error (.error (text "refusing to enqueue an oversized frame")) (s.paired env c r) := by
      rw [enqueueFrame, if_pos (by omega)]
      rfl
    rw [final_bind_error herr]
    exact ⟨rfl, fun _ => rfl, [], (List.append_nil _).symm, Or.inl rfl⟩

end Handlers

/-! ## Pairing ids in use -/

/-- Every pairing id is one that was handed out, and only the parties of a pairing note its id. -/
structure Server.Numbers (s : Server) : Prop where
  numbered : s.sessions.Numbered
  used : ∀ x, s.pairingIdOf x = 0 ∨ s.sessions.Used (s.pairingIdOf x)
  known : ∀ x pr, s.sessions.pairings (s.pairingIdOf x) = some pr → x = pr.sender ∨ x = pr.receiver

section Numbers

variable {s s' : Server}

theorem Server.Numbers.start (hp : s.sessions.pairings = fun _ => none)
    (hc : s.connections = fun _ => none) : s.Numbers where
  numbered id pr h := by
    rw [hp] at h
    cases h
  used x := .inl (by rw [Server.pairingIdOf, hc]; rfl)
  known x pr h := by
    rw [hp] at h
    cases h

theorem used_of_shrinks (h : Shrinks s s') {id : UInt64} (hu : s.sessions.Used id) :
    s'.sessions.Used id := by
  obtain ⟨hready, k, hk, hid⟩ := hu
  exact ⟨by rw [h.salt.2, hready], k, by rw [h.counter]; exact hk, by rw [h.salt.1]; exact hid⟩

theorem Server.Numbers.shrinks (hs : s.Numbers) (h : Shrinks s s') : s'.Numbers where
  numbered id pr' hp := by
    obtain ⟨pr, hpr, -⟩ := h.pairings id pr' hp
    exact ⟨(hs.numbered id pr hpr).1, used_of_shrinks h (hs.numbered id pr hpr).2⟩
  used x := by
    rcases h.ids x with e | e
    · rw [e]
      exact (hs.used x).imp_right (used_of_shrinks h)
    · exact Or.inl e
  known x pr' hp := by
    obtain ⟨pr, hpr, hparties⟩ := h.pairings _ pr' hp
    rcases h.ids x with e | e
    · rw [e] at hpr
      rw [show pr'.sender = pr.sender from congrArg Prod.fst hparties,
        show pr'.receiver = pr.receiver from congrArg Prod.snd hparties]
      exact hs.known x pr hpr
    · rw [e] at hpr
      exact absurd rfl (hs.numbered 0 pr hpr).1

theorem paired_pairingIdOf {env : Env} {c r' x : ConnId} {conn receiver : Connection}
    (hc : s.connections c = some conn) (hr : s.connections r' = some receiver) :
    (s.paired env c r').pairingIdOf x =
      if x = c ∨ x = r' then s.nextPairingId env c r' else s.pairingIdOf x := by
  by_cases hxr : x = r'
  · subst hxr
    by_cases hxc : x = c
    · subst hxc
      simp [Server.pairingIdOf, Server.paired, Server.update, hc]
    · simp [Server.pairingIdOf, Server.paired, Server.update, hr, hxc]
  · by_cases hxc : x = c
    · subst hxc
      simp [Server.pairingIdOf, Server.paired, Server.update, hc, hxr]
    · simp [Server.pairingIdOf, Server.paired, Server.update, hxr, hxc]

/-- **A new pairing** has an id that nobody notes and no pairing has. -/
theorem Server.Numbers.paired (hs : s.Numbers) (env : Env) {c r : ConnId} {conn receiver : Connection}
    (hroom : s.sessions.nextPairingCounter.toNat + 2 < 2 ^ 64) (hc : s.connections c = some conn)
    (hr : s.connections r = some receiver) :
    s.sessions.pairings (s.nextPairingId env c r) = none ∧
      (∀ x, s.pairingIdOf x ≠ s.nextPairingId env c r) ∧
      (s.paired env c r).sessions.pairings =
        Function.update s.sessions.pairings (s.nextPairingId env c r)
          (some ⟨s.nextPairingId env c r, c, r, false, false, false, env.nowMs⟩) ∧
      (s.paired env c r).Numbers := by
  obtain ⟨id, t', hcreate, h0, hfresh, hused, hkeep, hpairings⟩ :=
    SessionTable.createPairing_spec hs.numbered hroom env.random env.nowMs c r
  have hid : s.nextPairingId env c r = id := by rw [Server.nextPairingId, hcreate]
  have hsess : (s.paired env c r).sessions = t' := by
    change (s.sessions.createPairing env.random env.nowMs c r).2 = t'
    rw [hcreate]
  have hids : ∀ x, (s.paired env c r).pairingIdOf x =
      if x = c ∨ x = r then id else s.pairingIdOf x := by
    intro x
    rw [paired_pairingIdOf hc hr, hid]
  have hnew : ∀ x, s.pairingIdOf x ≠ id := by
    intro x hx
    rcases hs.used x with hz | hu
    · exact h0 (hx.symm.trans hz)
    · exact hfresh (hx ▸ hu)
  rw [hid, hsess]
  refine ⟨?_, hnew, hpairings, ?_, fun x => ?_, fun x pr hpr => ?_⟩
  · refine Option.eq_none_iff_forall_ne_some.mpr fun pr hpr => hfresh ?_
    exact (hs.numbered id pr hpr).2
  · intro k pr hk
    rw [hsess] at hk ⊢
    rw [hpairings] at hk
    by_cases hkid : k = id
    · rw [hkid]
      exact ⟨h0, hused⟩
    · rw [Function.update_of_ne hkid] at hk
      exact ⟨(hs.numbered k pr hk).1, hkeep k (hs.numbered k pr hk).2⟩
  · rw [hids x, hsess]
    by_cases hx : x = c ∨ x = r
    · rw [if_pos hx]
      exact Or.inr hused
    · rw [if_neg hx]
      exact (hs.used x).imp_right (hkeep _)
  · rw [hids x, hsess, hpairings] at hpr
    by_cases hx : x = c ∨ x = r
    · rw [if_pos hx, Function.update_self] at hpr
      rw [← Option.some.inj hpr]
      exact hx
    · rw [if_neg hx, Function.update_of_ne (hnew x)] at hpr
      exact hs.known x pr hpr

end Numbers

end DropZone
