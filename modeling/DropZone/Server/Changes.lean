import DropZone.Server.Parties

/-!
# Everything a frame can change

* `Op c frame s s'`: the changes of parties and of the session table that handling a frame can make,
  one case per branch of a handler that makes one.
* `Does c frame s s'`: at most one `Op`, with quiet changes before and after.
* `processFrame_does`: a frame does no more than that.
-/

namespace DropZone

open LittleEndian StateSpec

theorem SessionTable.claim_refused {t : SessionTable} {alive : ConnId → Bool} {u : Bytes} {c : ConnId}
    (h : (t.claim alive u c).1 ≠ .granted) : (t.claim alive u c).2 = t := by
  unfold SessionTable.claim at h ⊢
  split at h
  · rename_i hinvalid
    rw [if_pos hinvalid]
  · rename_i hvalid
    rw [if_neg hvalid]
    split
    · split
      · rfl
      · rename_i hholder hdead
        rw [hholder] at h
        simp [hdead] at h
    · rename_i hfree
      rw [hfree] at h
      exact absurd rfl h

/-! ## Changes -/

namespace Server

def greeted (s : Server) (c : ConnId) (hello : ClientHello) : Server :=
  s.update c fun x => { x with hello := hello, helloReceived := true }

theorem update_greeted (s : Server) (c : ConnId) (hello : ClientHello) (t : SessionTable)
    (f : Connection → Connection) :
    { s.greeted c hello with sessions := t }.update c f =
      { s with sessions := t }.update c fun x => f { x with hello := hello, helloReceived := true } := by
  simp [greeted, update, Function.comp_def]

/-- A frame enqueued on `c`. -/
def enqueued (s : Server) (c : ConnId) (frame : Frame) : Server :=
  { s.update c (·.append (encodeFrameHeader frame.header ++ frame.payload)) with
    log := s.log ++ [(c, frame)] }

def relaying (s : Server) (sender receiver : ConnId) : Server :=
  (((s.update sender fun x => { x with relayPeer := some receiver }).update receiver
    fun x => { x with relayPeer := some sender }).update sender
    fun x => { x with state := .relaying }).update receiver fun x => { x with state := .relaying }

def leftOther (s : Server) (c : ConnId) (joined name : Bytes) : Server :=
  if joined ≠ [] ∧ joined ≠ name then
    { s with sessions := s.sessions.leaveGroup s.alive joined c }.update c
      fun x => { x with joinedGroup := [] }
  else s

/-- The server after `join_group` and what `handle_group_join` notes of it. -/
def joined (s : Server) (c : ConnId) (join : GroupJoin) : Server :=
  let r := s.sessions.joinGroup s.alive join.name join.verifier c
  { s with sessions := r.2 }.update c
    fun x => if r.1.isMember then { x with joinedGroup := join.name } else x

def pruned (s : Server) (name : Bytes) : Server :=
  { s with sessions := s.sessions.pruneGroup s.alive name }

/-- The roster that a sender is sent. -/
def roster (s : Server) (x : Connection) (name : Bytes) : GroupRoster :=
  { usernames := (s.sessions.idleGroupMembers s.connections name x.hello.username).1.map
      (·.claimedUsername) }

end Server

section Parties

variable {s : Server} {c : ConnId}

theorem ne_of_idle {x y : Connection} {r : ConnId} (hfound : s.connections c = some x)
    (hidle : x.state = .senderIdle) (hpeer : s.connections r = some y)
    (haccepting : y.state = .receiverIdle) : r ≠ c := by
  rintro rfl
  cases hfound.symm.trans hpeer
  cases hidle.symm.trans haccepting

theorem Server.party_paired_self {x : Connection} {r : ConnId} (env : Env)
    (hfound : s.connections c = some x) (hne : r ≠ c) :
    (s.paired env c r).party c =
      some { x.party with pairingId := s.nextPairingId env c r, state := .senderWaiting } := by
  rw [Server.party_of (paired_connections_sender env hfound hne)]
  rfl

theorem Server.party_paired_peer {y : Connection} {r : ConnId} (env : Env)
    (hpeer : s.connections r = some y) (hne : r ≠ c) :
    (s.paired env c r).party r =
      some { y.party with pairingId := s.nextPairingId env c r, state := .receiverMatched } := by
  simp [Server.paired, Server.party, Server.update, hpeer, hne, Connection.party]

theorem Server.party_paired_other {r y : ConnId} (env : Env) (hc : y ≠ c) (hr : y ≠ r) :
    (s.paired env c r).party y = s.party y := by
  simp [Server.paired, Server.party, Server.update, hc, hr]

theorem Server.party_relaying_other {a b y : ConnId} (ha : y ≠ a) (hb : y ≠ b) :
    (s.relaying a b).party y = s.party y := by
  simp [Server.relaying, Server.party, Server.update, ha, hb]

theorem Server.party_relaying {a b : ConnId} (hne : a ≠ b) {p q : Party} (hp : s.party a = some p)
    (hq : s.party b = some q) :
    (s.relaying a b).party a = some { p with relayPeer := some b, state := .relaying } ∧
      (s.relaying a b).party b = some { q with relayPeer := some a, state := .relaying } := by
  obtain ⟨x, hx, rfl⟩ := Server.party_eq_some hp
  obtain ⟨y, hy, rfl⟩ := Server.party_eq_some hq
  constructor
  · simp [Server.relaying, Server.party, Server.update, hx, hne, Connection.party]
  · simp [Server.relaying, Server.party, Server.update, hy, hne.symm, Connection.party]

end Parties

section Keeps

variable {α β : Type} {π : Party → α} {τ : SessionTable → β} {s₀ s : Server}

theorem Keeps.enqueued (h : Keeps π τ s₀ s) (c : ConnId) (f : Frame) :
    Keeps π τ s₀ (s.enqueued c f) :=
  Keeps.update h c fun x => congrArg π (x.append_party _)

theorem Keeps.relaying (h : Keeps π τ s₀ s) (a b : ConnId)
    (hπ : ∀ p r, π { p with relayPeer := r } = π p ∧ π { p with state := .relaying } = π p) :
    Keeps π τ s₀ (s.relaying a b) := by
  unfold Server.relaying
  refine (((h.update a ?_).update b ?_).update a ?_).update b ?_
  · exact fun x => (hπ x.party _).1
  · exact fun x => (hπ x.party _).1
  · exact fun x => (hπ x.party none).2
  · exact fun x => (hπ x.party none).2

theorem Keeps.pruned (h : Keeps π SessionTable.pairingPart s₀ s) (name : Bytes) :
    Keeps π SessionTable.pairingPart s₀ (s.pruned name) :=
  h.sessions (SessionTable.pruneGroup_others _ _ name).1

theorem Keeps.regrouped (h : Keeps π SessionTable.pairingPart s₀ s) (c : ConnId) (g : Bytes)
    (join : GroupJoin) (hπ : ∀ p j, π { p with joinedGroup := j } = π p) :
    Keeps π SessionTable.pairingPart s₀
      (((s.leftOther c g join.name).joined c join).pruned join.name) := by
  have hleft : Keeps π SessionTable.pairingPart s₀ (s.leftOther c g join.name) := by
    unfold Server.leftOther
    split
    · refine Keeps.update ?_ c fun x => hπ x.party []
      exact h.sessions (SessionTable.leaveGroup_others _ _ _ c).1
    · exact h
  refine Keeps.pruned (Keeps.update ?_ c fun x => ?_) join.name
  · exact hleft.sessions (SessionTable.joinGroup_others _ _ _ _ c).1
  · split
    · exact hπ x.party join.name
    · rfl

end Keeps

/-- The changes that handling `frame` from `c` can make. -/
inductive Op (c : ConnId) (frame : Frame) (s : Server) : Server → Prop
  | refused {x hello} (type : frame.header.type = .clientHello)
      (found : s.connections c = some x) (fresh : x.helloReceived = false) :
      Op c frame s (s.greeted c hello)
  | granted {x hello table}
      (type : frame.header.type = .clientHello) (found : s.connections c = some x)
      (fresh : x.helloReceived = false)
      (claim : s.sessions.claim s.alive hello.username c = (.granted, table)) :
      Op c frame s ({ s with sessions := table }.update c fun x => { x with
        hello := hello
        helloReceived := true
        claimedUsername := hello.username
        state := .receiverIdle })
  | welcomed {x hello} (type : frame.header.type = .clientHello)
      (found : s.connections c = some x) (fresh : x.helloReceived = false) :
      Op c frame s (s.update c fun x => { x with
        hello := hello
        helloReceived := true
        state := .senderIdle })
  | paired {x y r env} (type : frame.header.type = .sendRequest)
      (found : s.connections c = some x) (idle : x.state = .senderIdle)
      (peer : s.connections r = some y) (accepting : y.state = .receiverIdle) :
      Op c frame s (s.paired env c r)
  | orphaned {x pr} (type : frame.header.type = .accept)
      (found : s.connections c = some x) (state : x.state = .receiverMatched)
      (pairing : s.sessions.pairings x.pairingId = some pr) (gone : s.alive pr.sender = false) :
      Op c frame s (s.update c fun x => { x with state := .receiverIdle, pairingId := 0 })
  | withdrawn {x} (type : frame.header.type = .reject)
      (found : s.connections c = some x) (nonzero : x.pairingId ≠ 0)
      (stale : s.sessions.pairings x.pairingId = none) :
      Op c frame s (s.update c Connection.unpaired)
  | rejected {x pr} (type : frame.header.type = .reject)
      (found : s.connections c = some x) (nonzero : x.pairingId ≠ 0)
      (pairing : s.sessions.pairings x.pairingId = some pr)
      (told : pr.sender ≠ c → s.alive pr.sender = true → s.Leaving pr.sender) :
      Op c frame s ({ s with sessions := s.sessions.destroyPairing x.pairingId }.update c
        Connection.unpaired)
  | asked {x pr table}
      (type : frame.header.type = .relayOpen) (found : s.connections c = some x)
      (nonzero : x.pairingId ≠ 0) (pairing : s.sessions.pairings x.pairingId = some pr)
      (sender : s.alive pr.sender = true) (receiver : s.alive pr.receiver = true)
      (request : s.sessions.requestRelay x.pairingId (pr.sender == c) = (false, table)) :
      Op c frame s { s with sessions := table }
  | opened {x pr table}
      (type : frame.header.type = .relayOpen) (found : s.connections c = some x)
      (nonzero : x.pairingId ≠ 0) (pairing : s.sessions.pairings x.pairingId = some pr)
      (sender : s.alive pr.sender = true) (receiver : s.alive pr.receiver = true)
      (request : s.sessions.requestRelay x.pairingId (pr.sender == c) = (true, table)) :
      Op c frame s ((({ s with sessions := table }.relaying pr.sender pr.receiver).enqueued pr.sender
        (Frame.of .relayOpen [])).enqueued pr.receiver (Frame.of .relayOpen []))
  | forwarded {x peer} (type : frame.header.type = .relayData)
      (found : s.connections c = some x) (attached : x.relayPeer = some peer)
      (alive : s.alive peer = true) :
      Op c frame s (s.enqueued peer (Frame.of .relayData frame.payload))
  | recovered {x pr} (type : frame.header.type = .relayData)
      (found : s.connections c = some x)
      (detached : ∀ peer, x.relayPeer = some peer → s.alive peer = false)
      (nonzero : x.pairingId ≠ 0) (pairing : s.sessions.pairings x.pairingId = some pr)
      (active : pr.relayActive = true) (sender : s.alive pr.sender = true)
      (receiver : s.alive pr.receiver = true) :
      Op c frame s ((s.relaying pr.sender pr.receiver).enqueued
        (if pr.sender = c then pr.receiver else pr.sender) (Frame.of .relayData frame.payload))
  | queried {name} (type : frame.header.type = .groupQuery) :
      Op c frame s ((s.pruned name).pruned name)
  | unlisted {name} (type : frame.header.type = .groupSendRequest) :
      Op c frame s (s.pruned name)
  | listed {x name} (type : frame.header.type = .groupSendRequest)
      (found : s.connections c = some x) :
      Op c frame s ((s.pruned name).enqueued c
        (Frame.of .groupRoster (s.roster x name).encode))
  | grouped {x join} (type : frame.header.type = .groupJoin)
      (found : s.connections c = some x) (idle : x.state = .receiverIdle)
      (decoded : GroupJoin.decode frame.payload = .ok join) :
      Op c frame s (((s.leftOther c x.joinedGroup join.name).joined c join).pruned join.name)

theorem Server.Leaving.enqueued {s : Server} {y : ConnId} (h : s.Leaving y) (c : ConnId) (f : Frame) :
    (s.enqueued c f).Leaving y :=
  Server.Leaving.update h c fun x => x.append_closeRequested _

theorem Server.Leaving.relaying {s : Server} {y : ConnId} (h : s.Leaving y) (a b : ConnId) :
    (s.relaying a b).Leaving y := by
  unfold Server.relaying
  refine (((h.update a ?_).update b ?_).update a ?_).update b ?_ <;> exact fun _ => rfl

theorem Op.leaving {c y : ConnId} {frame : Frame} {s s' : Server} (h : Op c frame s s')
    (hy : s.Leaving y) : s'.Leaving y := by
  cases h with
  | refused _ _ _ => exact hy.update c fun _ => rfl
  | granted _ _ _ _ => exact Server.Leaving.update (by exact hy) c fun _ => rfl
  | welcomed _ _ _ => exact hy.update c fun _ => rfl
  | paired _ _ _ _ _ =>
    refine Server.Leaving.update ?_ _ fun _ => rfl
    exact Server.Leaving.update (by exact hy) c fun _ => rfl
  | orphaned _ _ _ _ _ => exact hy.update c fun _ => rfl
  | withdrawn _ _ _ _ => exact hy.update c fun _ => rfl
  | rejected _ _ _ _ _ => exact Server.Leaving.update (by exact hy) c fun _ => rfl
  | asked _ _ _ _ _ _ _ => exact hy
  | opened _ _ _ _ _ _ _ => exact ((Server.Leaving.relaying (by exact hy) _ _).enqueued _ _).enqueued _ _
  | forwarded _ _ _ _ => exact hy.enqueued _ _
  | recovered _ _ _ _ _ _ _ _ => exact (hy.relaying _ _).enqueued _ _
  | queried _ => exact hy
  | unlisted _ => exact hy
  | listed _ _ => exact Server.Leaving.enqueued (by exact hy) _ _
  | grouped _ _ _ _ =>
    refine Server.Leaving.update (s := { s.leftOther _ _ _ with sessions := _ }) ?_ c fun x => ?_
    · unfold Server.leftOther
      split
      · exact Server.Leaving.update (by exact hy) c fun _ => rfl
      · exact hy
    · split <;> rfl

/-- At most one change, between quiet ones. -/
def Does (c : ConnId) (frame : Frame) (s s' : Server) : Prop :=
  ∃ s₀ s₁, Quiet s s₀ ∧ (s₁ = s₀ ∨ Op c frame s₀ s₁) ∧ Quiet s₁ s'

section Handlers

variable {c : ConnId} {frame : Frame} {s s' s₀ : Server}

theorem Quiet.does (h : Quiet s s') : Does c frame s s' := ⟨s, s, .refl s, .inl rfl, h⟩

theorem Does.after (h : Does c frame s s₀) (hq : Quiet s₀ s') : Does c frame s s' := by
  obtain ⟨a, b, ha, hop, hb⟩ := h
  exact ⟨a, b, ha, hop, hb.trans hq⟩

theorem Does.before (hq : Quiet s s₀) (h : Does c frame s₀ s') : Does c frame s s' := by
  obtain ⟨a, b, ha, hop, hb⟩ := h
  exact ⟨a, b, hq.trans ha, hop, hb⟩

theorem Op.does (h : Op c frame s s₀) (hq : Quiet s₀ s') : Does c frame s s' :=
  ⟨s, s₀, .refl s, .inr h, hq⟩

/-- What quiet changes and the changes of a frame keep, the frame keeps. -/
theorem Does.keeps {I : Server → Prop} (h : Does c frame s s')
    (hquiet : ∀ s s', Quiet s s' → I s → I s') (hop : ∀ s s', Op c frame s s' → I s → I s')
    (hs : I s) : I s' := by
  obtain ⟨a, b, ha, hab, hb⟩ := h
  refine hquiet b s' hb ?_
  rcases hab with rfl | hab
  · exact hquiet s b ha hs
  · exact hop a b hab (hquiet s a ha hs)

variable {x : Connection}

theorem does_reject (reason : Bytes) : Does c frame s (final (rejectAndClose c reason) s) :=
  Quiet.does (quiet_rejectAndClose c reason s)

/-! ## Hello -/

theorem handleClientHello_does (htype : frame.header.type = .clientHello)
    (hfound : s.connections c = some x) :
    Does c frame s (final (handleClientHello c frame) s) := by
  rw [handleClientHello]
  cases hdecode : ClientHello.decode frame.payload with
  | error e => exact Quiet.does (.refl s)
  | ok hello =>
    rw [final_bind_ok (run_decoded s hello), final_bind_ok (run_found hfound)]
    dsimp only
    split
    · exact does_reject _
    · rename_i hnot
      rw [final_bind_ok (run_update s c _), final_bind_ok (run_get _)]
      change Does c frame s (final _ (s.greeted c hello))
      split
      · -- a receiver between transfers: only the stored hello changes
        rename_i hrefresh
        simp only [Bool.and_eq_true] at hrefresh
        have hgreeted : Quiet s (s.greeted c hello) := by
          refine Quiet.update s c fun y hy => ?_
          cases hfound.symm.trans hy
          simp [Connection.party, hrefresh.1.1.1]
        exact Quiet.does (hgreeted.trans (quiet_enqueueFrame c (by decide) _ _))
      · rename_i hrefresh
        have hfresh : x.helloReceived = false := by
          simp only [Bool.and_eq_true] at hnot hrefresh
          by_contra hreceived
          simp_all
        split
        · have halive : (s.greeted c hello).alive = s.alive := alive_update s c _
          rw [claimUsername, bind_assoc, final_bind_ok (run_sessions _ _), halive]
          have hrefused : (s.sessions.claim s.alive hello.username c).1 ≠ .granted →
              { s.greeted c hello with
                sessions := (s.sessions.claim s.alive hello.username c).2 } = s.greeted c hello := by
            intro hne
            rw [SessionTable.claim_refused hne]
            rfl
          split
          · rename_i hgranted
            rw [bind_assoc, final_bind_ok (run_update _ c _), Server.update_greeted]
            exact (Op.granted htype hfound hfresh (Prod.ext hgranted rfl)).does
              (((quiet_enqueueFrame c (by decide) _).bind fun _ => Moves.pure _) _)
          all_goals
            rename_i hresult
            change Does c frame s (final _ { s.greeted c hello with
              sessions := (s.sessions.claim s.alive hello.username c).2 })
            rw [hrefused (hresult.trans_ne ClaimResult.noConfusion)]
            exact (Op.refused htype hfound hfresh).does
              (((Moves.pure _).bind fun _ => (quiet_enqueueFrame c (by decide) _).bind fun _ =>
                quiet_requestClose c _) _)
        · rw [final_bind_ok (run_update _ c _),
            show (s.greeted c hello).update c _ = _ from Server.update_greeted s c hello s.sessions _]
          exact (Op.welcomed htype hfound hfresh).does (quiet_enqueueFrame c (by decide) _ _)

/-! ## Introductions -/

theorem introduce_does (env : Env) (htype : frame.header.type = .sendRequest)
    (hfound : s.connections c = some x) (hidle : x.state = .senderIdle) {r : ConnId} {y : Connection}
    (hpeer : s.connections r = some y) (haccepting : y.state = .receiverIdle)
    (request : SendRequest) : Does c frame s (final (introduce env c r request) s) := by
  rw [introduce, final_bind_ok (run_pair s env c r), final_bind_ok (run_connection _ c)]
  exact (Op.paired htype hfound hidle hpeer haccepting).does
    (((quiet_enqueueFrame r (by decide) _).bind fun _ => quiet_wakeFor r) _)

theorem matchRequest_does (env : Env) (htype : frame.header.type = .sendRequest)
    (hfound : s.connections c = some x) (hidle : x.state = .senderIdle) (request : SendRequest) :
    Does c frame s (final (matchRequest env c request) s) := by
  rw [matchRequest, final_bind_ok (run_sessions s _)]
  cases hlook : s.sessions.lookup s.alive request.targetUsername with
  | none => exact does_reject _
  | some r =>
    have halive : s.alive r = true := by
      unfold SessionTable.lookup at hlook
      split at hlook
      · split at hlook
        · cases hlook
          assumption
        · cases hlook
      · cases hlook
    obtain ⟨y, hy⟩ := Option.isSome_iff_exists.mp halive
    dsimp only
    rw [final_bind_ok (run_found hy)]
    split
    · exact does_reject _
    · rename_i haccepting
      exact introduce_does env htype hfound hidle hy (not_not.mp haccepting) request

theorem handleSendRequest_does (env : Env) (htype : frame.header.type = .sendRequest)
    (hfound : s.connections c = some x) :
    Does c frame s (final (handleSendRequest env c frame) s) := by
  rw [handleSendRequest, final_bind_ok (run_found hfound)]
  split
  · exact does_reject _
  · rename_i hidle
    rw [final_bind_ok (run_allowRequest s _ _)]
    have hcharge : Quiet s { s with
        rateLimiter := (s.rateLimiter.allowRequest x.rateLimitKey env.nowMs).2 } :=
      .same rfl rfl rfl rfl rfl
    refine Does.before hcharge ?_
    split
    · exact does_reject _
    · cases SendRequest.decode frame.payload with
      | error e => exact Quiet.does (.refl _)
      | ok request =>
        rw [final_bind_ok (run_decoded _ request)]
        exact matchRequest_does env htype (x := x) (by exact hfound) (not_not.mp hidle) request

theorem handleAccept_does (htype : frame.header.type = .accept)
    (hfound : s.connections c = some x) :
    Does c frame s (final (handleAccept c frame) s) := by
  rw [handleAccept, final_bind_ok (run_found hfound)]
  split
  · exact does_reject _
  · rename_i hstate
    rw [final_bind_ok (run_sessions s _)]
    dsimp only [SessionTable.findPairing]
    cases hpr : s.sessions.pairings x.pairingId with
    | none => exact does_reject _
    | some pr =>
      dsimp only
      rw [final_bind_ok (run_lock s pr.sender)]
      by_cases halive : s.alive pr.sender
      · rw [if_pos halive]
        exact Quiet.does (((quiet_decoded _).bind fun _ =>
          (quiet_enqueueFrame _ (by decide) _).bind fun _ => quiet_wakeFor _) s)
      · rw [if_neg halive]
        exact (Op.orphaned htype hfound (not_not.mp hstate) hpr (by simpa using halive)).does
          (.refl _)

/-- The refusal is passed on: unless the sender refuses itself, a sender that is still there is asked
to leave. -/
theorem forwardReject_spec (pr : Pairing) {payload : Bytes}
    (hlen : payload.length ≤ kMaxFrameLength) :
    ∃ s', (forwardReject c pr payload).run s = .ok () s' ∧ Quiet s s' ∧
      (pr.sender ≠ c → s.alive pr.sender = true → s'.Leaving pr.sender) := by
  rw [forwardReject, run_bind_ok (run_lock s pr.sender)]
  by_cases halive : s.alive pr.sender
  · rw [if_pos halive]
    dsimp only
    by_cases hself : pr.sender = c
    · rw [if_neg (not_not.mpr hself)]
      exact ⟨s, rfl, .refl s, fun hne => absurd hself hne⟩
    · rw [if_pos hself, run_bind_ok (run_enqueueFrame s pr.sender hlen)]
      have hquiet := ((quiet_enqueueFrame pr.sender (show MessageType.Plain .reject by decide) payload).bind
        fun _ => (quiet_requestClose pr.sender (text "the receiver declined")).bind fun _ =>
          quiet_wakeFor pr.sender) s
      rw [final_bind_ok (run_enqueueFrame s pr.sender hlen)] at hquiet
      refine ⟨_, rfl, hquiet, fun _ _ => ?_⟩
      refine Server.leaving_requestClose ?_ (text "the receiver declined")
      exact (congrFun (alive_update s pr.sender _) pr.sender).trans halive
  · rw [if_neg halive]
    exact ⟨s, rfl, .refl s, fun _ h => absurd h halive⟩

theorem handleReject_does (htype : frame.header.type = .reject)
    (hlen : frame.payload.length ≤ kMaxFrameLength) (hfound : s.connections c = some x) :
    Does c frame s (final (handleReject c frame) s) := by
  rw [handleReject, final_bind_ok (run_found hfound)]
  split
  · exact Quiet.does (.refl s)
  · rename_i hzero
    rw [final_bind_ok (run_sessions s _)]
    dsimp only [SessionTable.findPairing]
    cases hpr : s.sessions.pairings x.pairingId with
    | none => exact (Op.withdrawn htype hfound hzero hpr).does (.refl _)
    | some pr =>
      obtain ⟨s', hrun, hquiet, htold⟩ := forwardReject_spec (c := c) (s := s) pr hlen
      dsimp only
      rw [final_bind_ok hrun, final_bind_ok (run_sessions s' _)]
      obtain ⟨y, hy, hparty⟩ := hquiet.found hfound
      have hid : y.pairingId = x.pairingId := congrArg Party.pairingId hparty
      rw [← hid] at hzero hpr ⊢
      rw [← hquiet.sessions] at hpr
      refine Does.before hquiet ((Op.rejected htype hy hzero hpr fun hne halive => ?_).does (.refl _))
      rw [hquiet.alive] at halive
      exact htold hne halive

/-! ## Relay -/

theorem startRelaying_run (s : Server) (a b : ConnId) :
    (startRelaying a b).run s = .ok () (s.relaying a b) := rfl

theorem lockBoth_run (s : Server) (pr : Pairing) :
    (lockBoth pr).run s = .ok
      (if s.alive pr.sender = true ∧ s.alive pr.receiver = true then some (pr.sender, pr.receiver)
        else none) s := by
  rw [lockBoth, run_bind_ok (run_lock s pr.sender), run_bind_ok (run_lock s pr.receiver)]
  by_cases hsender : s.alive pr.sender = true <;> by_cases hreceiver : s.alive pr.receiver = true <;>
    simp [hsender, hreceiver]

theorem handleRelayOpen_does (htype : frame.header.type = .relayOpen)
    (hfound : s.connections c = some x) :
    Does c frame s (final (handleRelayOpen c) s) := by
  rw [handleRelayOpen, final_bind_ok (run_get s), final_bind_ok (run_found hfound)]
  split
  · exact does_reject _
  split
  · exact does_reject _
  rename_i hzero
  rw [final_bind_ok (run_sessions s _)]
  dsimp only [SessionTable.findPairing]
  cases hpr : s.sessions.pairings x.pairingId with
  | none => exact does_reject _
  | some pr =>
    dsimp only
    rw [final_bind_ok (lockBoth_run s pr)]
    by_cases hboth : s.alive pr.sender = true ∧ s.alive pr.receiver = true
    · rw [if_pos hboth]
      dsimp only
      rw [final_bind_ok (run_sessions s _)]
      split
      · rename_i hstart
        rw [final_bind_ok (startRelaying_run _ _ _),
          final_bind_ok (run_enqueueFrame _ _ (by decide)),
          final_bind_ok (run_enqueueFrame _ _ (by decide))]
        exact (Op.opened htype hfound hzero hpr hboth.1 hboth.2 (Prod.ext hstart rfl)).does
          (((quiet_wakeFor _).bind fun _ => quiet_wakeFor _) _)
      · rename_i hwait
        exact (Op.asked htype hfound hzero hpr hboth.1 hboth.2
          (Prod.ext (Bool.eq_false_iff.mpr hwait) rfl)).does (.refl _)
    · rw [if_neg hboth]
      exact does_reject _

theorem quiet_forwarded (c peer : ConnId) :
    Moves Quiet (do
      let p ← connection peer
      update c fun x =>
        if p.pendingOutput > kRelayPauseThreshold then { x with readPaused := true } else x
      wakeFor peer) := by
  refine (quiet_connection peer).bind fun p => Moves.bind (fun s => ?_) fun _ => quiet_wakeFor peer
  refine Quiet.update s c fun x _ => ?_
  split <;> exact ⟨rfl, id⟩

theorem attachedPeer_run (s : Server) (x : Connection) :
    (attachedPeer x).run s = .ok (x.relayPeer.filter s.alive) s := by
  unfold attachedPeer
  cases x.relayPeer with
  | none => rfl
  | some p => exact run_lock s p

/-- Where relayed data goes: to the attached peer, or to the other end of a pairing whose relay was
started. -/
theorem relayPeerOf_cases (s : Server) (c : ConnId) (x : Connection) :
    (∃ p, x.relayPeer = some p ∧ s.alive p = true ∧ (relayPeerOf c x).run s = .ok (some p) s) ∨
    (∃ pr, (∀ p, x.relayPeer = some p → s.alive p = false) ∧ x.pairingId ≠ 0 ∧
      s.sessions.pairings x.pairingId = some pr ∧ pr.relayActive = true ∧
      s.alive pr.sender = true ∧ s.alive pr.receiver = true ∧
      (relayPeerOf c x).run s = .ok (some (if pr.sender = c then pr.receiver else pr.sender))
        (s.relaying pr.sender pr.receiver)) ∨
    (relayPeerOf c x).run s = .ok none s := by
  rw [relayPeerOf, run_bind_ok (attachedPeer_run s x)]
  cases hattached : x.relayPeer.filter s.alive with
  | some p =>
    obtain ⟨hp, halive⟩ := Option.filter_eq_some_iff.mp hattached
    exact .inl ⟨p, hp, halive, rfl⟩
  | none =>
    have hdetached : ∀ p, x.relayPeer = some p → s.alive p = false := by
      intro p hp
      simpa [hp] using hattached
    refine .inr ?_
    dsimp only
    rw [run_bind_ok (run_sessions s _)]
    dsimp only [SessionTable.findPairing]
    cases hpr : s.sessions.pairings x.pairingId with
    | none => exact .inr rfl
    | some pr =>
      dsimp only
      by_cases hactive : x.pairingId ≠ 0 ∧ pr.relayActive = true
      · rw [if_pos hactive, run_bind_ok (lockBoth_run s pr)]
        by_cases hboth : s.alive pr.sender = true ∧ s.alive pr.receiver = true
        · rw [if_pos hboth]
          exact .inl ⟨pr, hdetached, hactive.1, rfl, hactive.2, hboth.1, hboth.2, rfl⟩
        · rw [if_neg hboth]
          exact .inr rfl
      · rw [if_neg hactive]
        exact .inr rfl

theorem handleRelayData_does (htype : frame.header.type = .relayData)
    (hlen : frame.payload.length ≤ kMaxFrameLength) (hfound : s.connections c = some x) :
    Does c frame s (final (handleRelayData c frame) s) := by
  rw [handleRelayData, final_bind_ok (run_found hfound)]
  obtain ⟨p, hp, halive, hrun⟩ | ⟨pr, hdetached, hzero, hpr, hactive, hsender, hreceiver, hrun⟩ | hrun :=
    relayPeerOf_cases s c x
  · rw [final_bind_ok hrun]
    dsimp only
    rw [final_bind_ok (run_enqueueFrame s p hlen)]
    exact (Op.forwarded htype hfound hp halive).does (quiet_forwarded c p _)
  · rw [final_bind_ok hrun]
    dsimp only
    rw [final_bind_ok (run_enqueueFrame _ _ hlen)]
    exact (Op.recovered htype hfound hdetached hzero hpr hactive hsender hreceiver).does
      (quiet_forwarded c _ _)
  · rw [final_bind_ok hrun]
    exact does_reject _

theorem quiet_handleRelayClose (c : ConnId) (frame : Frame) :
    Moves Quiet (handleRelayClose c frame) := by
  refine (quiet_connection c).bind fun conn => Moves.bind (fun s => ?_) fun attached => ?_
  · rw [final_of_ok (attachedPeer_run s conn)]
    exact .refl s
  · cases attached with
    | none => exact quiet_requestClose c _
    | some peer =>
      exact (quiet_enqueueFrame peer (by decide) _).bind fun _ =>
        (quiet_requestClose peer _).bind fun _ => (quiet_wakeFor peer).bind fun _ =>
          quiet_requestClose c _

/-! ## Groups -/

theorem handleGroupQuery_does (htype : frame.header.type = .groupQuery)
    (hfound : s.connections c = some x) :
    Does c frame s (final (handleGroupQuery c frame) s) := by
  rw [handleGroupQuery, final_bind_ok (run_found hfound)]
  split
  · exact does_reject _
  · cases GroupQuery.decode frame.payload with
    | error e => exact Quiet.does (.refl s)
    | ok query =>
      rw [final_bind_ok (run_decoded s query), final_bind_ok (run_sessions s _),
        final_bind_ok (run_sessions _ _)]
      exact (Op.queried htype).does (quiet_enqueueFrame c (by decide) _ _)

theorem leaveOtherGroup_run (s : Server) (c : ConnId) (joined name : Bytes) :
    (leaveOtherGroup c joined name).run s = .ok () (s.leftOther c joined name) := by
  unfold leaveOtherGroup Server.leftOther
  split <;> rfl

theorem handleGroupJoin_quiet {join : GroupJoin} (hfound : s.connections c = some x)
    (hidle : x.state = .receiverIdle) (hdecode : GroupJoin.decode frame.payload = .ok join) :
    Quiet (((s.leftOther c x.joinedGroup join.name).joined c join).pruned join.name)
      (final (handleGroupJoin c frame) s) := by
  rw [handleGroupJoin, final_bind_ok (run_found hfound),
    if_neg (not_not.mpr hidle), hdecode, final_bind_ok (run_decoded s join),
    final_bind_ok (leaveOtherGroup_run s c _ _), final_bind_ok (run_sessions _ _),
    final_bind_ok (run_update _ _ _), final_bind_ok (run_sessions _ _)]
  exact quiet_enqueueFrame c (by decide) _ _

theorem handleGroupJoin_does (htype : frame.header.type = .groupJoin)
    (hfound : s.connections c = some x) :
    Does c frame s (final (handleGroupJoin c frame) s) := by
  by_cases hidle : x.state = .receiverIdle
  · cases hdecode : GroupJoin.decode frame.payload with
    | error e =>
      rw [handleGroupJoin, final_bind_ok (run_found hfound),
        if_neg (not_not.mpr hidle), hdecode]
      exact Quiet.does (.refl s)
    | ok join =>
      exact (Op.grouped htype hfound hidle hdecode).does (handleGroupJoin_quiet hfound hidle hdecode)
  · rw [handleGroupJoin, final_bind_ok (run_found hfound), if_pos hidle]
    exact does_reject _

theorem sendRoster_does (htype : frame.header.type = .groupSendRequest)
    (hfound : s.connections c = some x) (name : Bytes) :
    Does c frame s (final (enqueueFrame c .groupRoster (s.roster x name).encode) (s.pruned name)) := by
  by_cases hlen : (s.roster x name).encode.length ≤ kMaxFrameLength
  · rw [final_of_ok (run_enqueueFrame _ c hlen)]
    exact (Op.listed htype hfound).does (.refl _)
  · rw [enqueueFrame, if_pos (not_le.mp hlen)]
    exact (Op.unlisted htype).does (.refl _)

theorem handleGroupSendRequest_does (env : Env) (htype : frame.header.type = .groupSendRequest)
    (hfound : s.connections c = some x) :
    Does c frame s (final (handleGroupSendRequest env c frame) s) := by
  rw [handleGroupSendRequest, final_bind_ok (run_found hfound)]
  split
  · exact does_reject _
  · rename_i hidle
    rw [final_bind_ok (run_allowRequest s _ _)]
    have hcharge : Quiet s { s with
        rateLimiter := (s.rateLimiter.allowRequest x.rateLimitKey env.nowMs).2 } :=
      .same rfl rfl rfl rfl rfl
    refine Does.before hcharge ?_
    split
    · exact does_reject _
    · cases GroupSendRequest.decode frame.payload with
      | error e => exact Quiet.does (.refl _)
      | ok request =>
        rw [final_bind_ok (run_decoded _ request), final_bind_ok (run_get _),
          final_bind_ok (run_sessions _ _)]
        dsimp only
        rw [SessionTable.idleGroupMembers_snd]
        exact sendRoster_does htype (x := x) (by exact hfound) request.name

/-! ## Dispatch -/

theorem handleFrame_does (env : Env) (hlen : frame.payload.length ≤ kMaxFrameLength)
    (hfound : s.connections c = some x) :
    Does c frame s (final (handleFrame env c frame) s) := by
  unfold handleFrame
  split
  · exact handleClientHello_does ‹_› hfound
  · exact handleSendRequest_does env ‹_› hfound
  · exact handleGroupQuery_does ‹_› hfound
  · exact handleGroupJoin_does ‹_› hfound
  · exact handleGroupSendRequest_does env ‹_› hfound
  · exact handleAccept_does ‹_› hfound
  · exact handleReject_does ‹_› hlen hfound
  · exact handleRelayOpen_does ‹_› hfound
  · exact handleRelayData_does ‹_› hlen hfound
  · exact Quiet.does (quiet_handleRelayClose c frame s)
  · exact Quiet.does (.refl s)
  · exact Quiet.does (quiet_requestClose c _ s)
  · exact does_reject _

theorem processFrame_quiet_after (s : Server) (env : Env) (c : ConnId) (frame : Frame) :
    Quiet (final (handleFrame env c frame) (s.touched env c)) (s.processFrame env c frame) := by
  rw [Server.processFrame, final]
  cases (handleFrame env c frame).run (s.touched env c) with
  | ok u s' => exact .refl s'
  | error e s' => exact Quiet.update s' c (by simp)

theorem processFrame_does (env : Env) (hlen : frame.payload.length ≤ kMaxFrameLength)
    (hfound : s.connections c = some x) :
    Does c frame s (s.processFrame env c frame) := by
  have htouch := quiet_touched c s env
  obtain ⟨y, hy, -⟩ := htouch.found hfound
  exact (Does.before htouch (handleFrame_does env hlen hy)).after
    (processFrame_quiet_after s env c frame)

end Handlers

end DropZone
