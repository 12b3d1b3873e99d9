import DropZone.Lib.StateSpec
import DropZone.Server.SessionTable
import DropZone.Server.RateLimiter

/-!
# The rendezvous server's handlers (`server/src/server.cpp`)

A handler runs to completion on the shard that owns the connection; it is a program over the
server's state, and an error it throws keeps what it did before. `processFrame` is the `try` around
`handle_frame`: the error's text becomes the reason to close the connection.

* `Server.log` is a ghost: every frame that was enqueued, with its connection, in order.
* `Env` is what a handler reads from outside: the clock and, once, a random salt.

Sockets, pollers and the accept queue are not modelled; the wake queue holds connection ids.
-/

namespace DropZone

open LittleEndian

structure ServerOptions where
  idleTimeoutSeconds : UInt32 := 300
  pairingTimeoutSeconds : UInt32 := 120
  rateLimits : RateLimits := {}
  allowRelay : Bool := true

structure Server where
  options : ServerOptions := {}
  connections : ConnId → Option Connection := fun _ => none
  nextConnectionId : ConnId := 1
  sessions : SessionTable := {}
  rateLimiter : RateLimiter
  wakeQueue : List ConnId := []
  /-- Every frame enqueued so far, with the connection it was enqueued on. -/
  log : List (ConnId × Frame) := []

/-- What one event reads from outside the server. -/
structure Env where
  nowMs : UInt64
  random : UInt64 := 0

/-- A connection exists. -/
def Server.alive (s : Server) (c : ConnId) : Bool := (s.connections c).isSome

/-- The server with a changed connection; nothing changes if there is none. -/
def Server.update (s : Server) (c : ConnId) (f : Connection → Connection) : Server :=
  { s with connections := Function.update s.connections c ((s.connections c).map f) }

abbrev ServerM := EStateM Failure Server

/-! ## Primitives -/

/-- The record behind a pointer to a live connection. -/
def connection (c : ConnId) : ServerM Connection := do
  let s ← get
  pure ((s.connections c).getD default)

def update (c : ConnId) (f : Connection → Connection) : ServerM Unit := modify (·.update c f)

/-- An operation of the session table. -/
def sessions {α : Type} (f : (ConnId → Bool) → SessionTable → α × SessionTable) : ServerM α := do
  let s ← get
  let r := f s.alive s.sessions
  set { s with sessions := r.2 }
  pure r.1

/-- `weak_ptr::lock`. -/
def lock (c : ConnId) : ServerM (Option ConnId) := do
  let s ← get
  pure (if s.alive c then some c else none)

def allowRequest (key nowMs : UInt64) : ServerM Bool := do
  let s ← get
  let r := s.rateLimiter.allowRequest key nowMs
  set { s with rateLimiter := r.2 }
  pure r.1

/-- A decoder's result, or its failure. -/
def decoded {α : Type} : Except Failure α → ServerM α
  | .ok v => pure v
  | .error e => throw e

def enqueueFrame (c : ConnId) (type : MessageType) (payload : Bytes) : ServerM Unit :=
  if payload.length > kMaxFrameLength then
    throw (.error (text "refusing to enqueue an oversized frame"))
  else
    let frame := Frame.of type payload
    modify fun s => { s.update c (·.append (encodeFrameHeader frame.header ++ payload)) with
      log := s.log ++ [(c, frame)] }

def wakeFor (c : ConnId) : ServerM Unit := modify fun s => { s with wakeQueue := s.wakeQueue ++ [c] }

def requestClose (c : ConnId) (reason : Bytes) : ServerM Unit := update c (·.requestClose reason)

def rejectAndClose (c : ConnId) (reason : Bytes) : ServerM Unit := do
  enqueueFrame c .reject reason
  requestClose c reason

theorem alive_update (s : Server) (c : ConnId) (f : Connection → Connection) :
    (s.update c f).alive = s.alive := by
  funext x
  by_cases hx : x = c
  · subst hx
    simp [Server.alive, Server.update]
  · simp [Server.alive, Server.update, hx]

section Run

variable (s : Server) (c : ConnId)

theorem run_get : (get : ServerM Server).run s = .ok s s := rfl

theorem run_connection : (connection c).run s = .ok ((s.connections c).getD default) s := rfl

theorem run_update (f : Connection → Connection) : (update c f).run s = .ok () (s.update c f) := rfl

theorem run_sessions {α : Type} (f : (ConnId → Bool) → SessionTable → α × SessionTable) :
    (sessions f).run s = .ok (f s.alive s.sessions).1 { s with sessions := (f s.alive s.sessions).2 } :=
  rfl

theorem run_lock : (lock c).run s = .ok (if s.alive c then some c else none) s := rfl

theorem run_allowRequest (key nowMs : UInt64) :
    (allowRequest key nowMs).run s = .ok (s.rateLimiter.allowRequest key nowMs).1
      { s with rateLimiter := (s.rateLimiter.allowRequest key nowMs).2 } := rfl

theorem run_decoded {α : Type} (v : α) : (decoded (.ok v)).run s = .ok v s := rfl

theorem run_wakeFor : (wakeFor c).run s = .ok () { s with wakeQueue := s.wakeQueue ++ [c] } := rfl

theorem run_enqueueFrame {type : MessageType} {payload : Bytes}
    (h : payload.length ≤ kMaxFrameLength) :
    (enqueueFrame c type payload).run s = .ok () { s.update c
        (·.append (encodeFrameHeader (Frame.of type payload).header ++ payload)) with
      log := s.log ++ [(c, Frame.of type payload)] } := by
  rw [enqueueFrame, if_neg (by omega)]
  rfl

end Run

theorem run_found {s : Server} {c : ConnId} {x : Connection} (h : s.connections c = some x) :
    (connection c).run s = .ok x s := by
  rw [run_connection, h]
  rfl

/-! ## Hello -/

/-- The reply to a hello, before the claim is settled. -/
def helloReply (options : ServerOptions) (observed : Endpoint) (hello : ClientHello) : ServerHello :=
  { idleTimeoutSeconds := options.idleTimeoutSeconds
    reflexiveTcp := observed
    reflexiveUdp := observed.setPort hello.udpPort }

/-- Settles a receiver's claim: the reply's verdict and text. -/
def claimUsername (c : ConnId) (hello : ClientHello) : ServerM (Bool × Bytes) := do
  let result ← sessions fun alive t => t.claim alive hello.username c
  match result with
  | .granted => do
    update c fun x => { x with claimedUsername := hello.username, state := .receiverIdle }
    pure (true, text "accepting as " ++ hello.username)
  | .alreadyClaimed =>
    pure (false, text "someone is already accepting as '" ++ hello.username ++ text "'")
  | .invalidUsername =>
    pure (false, text "'" ++ hello.username ++ text "' is not a usable username")

def handleClientHello (c : ConnId) (frame : Frame) : ServerM Unit := do
  let hello ← decoded (ClientHello.decode frame.payload)
  let conn ← connection c
  let refreshing := conn.helloReceived && conn.state == .receiverIdle &&
    hello.role == .receiver && hello.username == conn.claimedUsername
  if conn.helloReceived && !refreshing then
    rejectAndClose c (text "hello sent twice")
  else do
    update c fun x => { x with hello := hello, helloReceived := true }
    let s ← get
    let reply := helloReply s.options conn.observedEndpoint hello
    if refreshing then
      enqueueFrame c .serverHello { reply with
        claimAccepted := true
        message := text "still accepting as " ++ conn.claimedUsername }.encode
    else if hello.role = .receiver then do
      let (claimAccepted, message) ← claimUsername c hello
      enqueueFrame c .serverHello { reply with claimAccepted, message }.encode
      if claimAccepted then pure () else requestClose c message
    else do
      update c fun x => { x with state := .senderIdle }
      enqueueFrame c .serverHello { reply with claimAccepted := true }.encode

/-! ## Introductions -/

/-- A peer's own candidates and the address the server sees, with the port it listens on. -/
def Connection.candidates (x : Connection) : List Endpoint :=
  x.hello.localCandidates ++ [x.observedEndpoint.setPort x.hello.tcpPort]

/-- The sender's half of an introduction. -/
def introductionOf (x : Connection) (request : SendRequest) (pairingId : UInt64) :
    PeerIntroduction :=
  { username := x.hello.username
    identityKey := x.hello.identityKey
    sessionKey := x.hello.sessionKey
    candidates := x.candidates
    proof := request.proof
    signature := request.signature
    pairingId := pairingId
    transportHint := request.transportHint
    groupName := request.groupName }

/-- Creates the pairing of a sender and an idle receiver and stamps it on both. -/
def pair (env : Env) (c r : ConnId) : ServerM UInt64 := do
  let pairingId ← sessions fun _ t => t.createPairing env.random env.nowMs c r
  update c fun x => { x with pairingId := pairingId, state := .senderWaiting }
  update r fun x => { x with pairingId := pairingId, state := .receiverMatched }
  pure pairingId

/-- The last part of `handle_send_request`: the receiver is idle, so introduce the sender. -/
def introduce (env : Env) (c r : ConnId) (request : SendRequest) : ServerM Unit := do
  let pairingId ← pair env c r
  let conn ← connection c
  enqueueFrame r .incoming (introductionOf conn request pairingId).encode
  wakeFor r

/-- The part of `handle_send_request` after the request is decoded. -/
def matchRequest (env : Env) (c : ConnId) (request : SendRequest) : ServerM Unit := do
  let found ← sessions fun alive t => (t.lookup alive request.targetUsername, t)
  match found with
  | none =>
    rejectAndClose c (text "'" ++ request.targetUsername ++
      text "' is not accepting files right now")
  | some r => do
    let receiver ← connection r
    if receiver.state ≠ .receiverIdle then
      rejectAndClose c (text "'" ++ request.targetUsername ++
        text "' is busy with another transfer")
    else introduce env c r request

def handleSendRequest (env : Env) (c : ConnId) (frame : Frame) : ServerM Unit := do
  let conn ← connection c
  if conn.state ≠ .senderIdle then
    rejectAndClose c (text "only a sender that has said hello may request an introduction")
  else do
    let allowed ← allowRequest conn.rateLimitKey env.nowMs
    if !allowed then
      rejectAndClose c (text "too many requests, try again in a minute")
    else do
      let request ← decoded (SendRequest.decode frame.payload)
      matchRequest env c request

/-! ## Groups -/

def handleGroupQuery (c : ConnId) (frame : Frame) : ServerM Unit := do
  let conn ← connection c
  if !conn.helloReceived then
    rejectAndClose c (text "say hello before querying a group")
  else do
    let query ← decoded (GroupQuery.decode frame.payload)
    let exist ← sessions fun alive t => t.groupExists alive query.name
    let members ← sessions fun alive t => t.groupMemberCount alive query.name
    enqueueFrame c .groupStatus (GroupStatus.encode
      { exist := exist, memberCount := UInt32.ofNat members })

def groupMessage (name : Bytes) : GroupJoinOutcome → Bytes
  | .created => text "created group " ++ name
  | .joined => text "joined group " ++ name
  | .alreadyMember => text "already in group " ++ name
  | .wrongPassword => text "wrong password for group " ++ name
  | .full => text "group '" ++ name ++ text "' is full"
  | .invalidName => text "'" ++ name ++ text "' is not a usable group name"

/-- The outcomes after which the connection counts as a member. -/
def GroupJoinOutcome.isMember : GroupJoinOutcome → Bool
  | .created | .joined | .alreadyMember => true
  | _ => false

/-- Leaves the group joined before, unless it is the one to join now. -/
def leaveOtherGroup (c : ConnId) (joined name : Bytes) : ServerM Unit :=
  if joined ≠ [] ∧ joined ≠ name then do
    sessions fun alive t => ((), t.leaveGroup alive joined c)
    update c fun x => { x with joinedGroup := [] }
  else pure ()

def handleGroupJoin (c : ConnId) (frame : Frame) : ServerM Unit := do
  let conn ← connection c
  if conn.state ≠ .receiverIdle then
    rejectAndClose c (text "only a receiver that is accepting may join a group")
  else do
    let join ← decoded (GroupJoin.decode frame.payload)
    leaveOtherGroup c conn.joinedGroup join.name
    let outcome ← sessions fun alive t => t.joinGroup alive join.name join.verifier c
    update c fun x => if outcome.isMember then { x with joinedGroup := join.name } else x
    let members ← sessions fun alive t => t.groupMemberCount alive join.name
    enqueueFrame c .groupResult (GroupResult.encode
      { outcome := outcome
        message := groupMessage join.name outcome
        memberCount := UInt32.ofNat members })

def handleGroupSendRequest (env : Env) (c : ConnId) (frame : Frame) : ServerM Unit := do
  let conn ← connection c
  if conn.state ≠ .senderIdle then
    rejectAndClose c (text "only a sender that has said hello may request a group")
  else do
    let allowed ← allowRequest conn.rateLimitKey env.nowMs
    if !allowed then
      rejectAndClose c (text "too many requests, try again in a minute")
    else do
      let request ← decoded (GroupSendRequest.decode frame.payload)
      let s ← get
      let members ← sessions fun _ t =>
        t.idleGroupMembers s.connections request.name conn.hello.username
      enqueueFrame c .groupRoster (GroupRoster.encode { usernames := members.map (·.claimedUsername) })

/-! ## Answers -/

def handleAccept (c : ConnId) (frame : Frame) : ServerM Unit := do
  let conn ← connection c
  if conn.state ≠ .receiverMatched then
    rejectAndClose c (text "no introduction is waiting for a decision")
  else do
    let found ← sessions fun _ t => (t.findPairing conn.pairingId, t)
    match found with
    | none => rejectAndClose c (text "that introduction has expired")
    | some pairing => do
      let sender ← lock pairing.sender
      match sender with
      | none => update c fun x => { x with state := .receiverIdle, pairingId := 0 }
      | some sender => do
        let introduction ← decoded (PeerIntroduction.decode frame.payload)
        enqueueFrame sender .matched { introduction with
          pairingId := conn.pairingId
          candidates := conn.candidates }.encode
        wakeFor sender

/-- Passes a receiver's refusal on to the sender of the pairing. -/
def forwardReject (c : ConnId) (pairing : Pairing) (payload : Bytes) : ServerM Unit := do
  let sender ← lock pairing.sender
  match sender with
  | none => pure ()
  | some sender =>
    if sender ≠ c then do
      enqueueFrame sender .reject payload
      requestClose sender (text "the receiver declined")
      wakeFor sender
    else pure ()

/-- The connection is in no pairing any more; a matched receiver is idle again. -/
def Connection.unpaired (x : Connection) : Connection :=
  { x with
    pairingId := 0
    state := if x.state = .receiverMatched then .receiverIdle else x.state }

def handleReject (c : ConnId) (frame : Frame) : ServerM Unit := do
  let conn ← connection c
  if conn.pairingId = 0 then pure ()
  else do
    let found ← sessions fun _ t => (t.findPairing conn.pairingId, t)
    match found with
    | none => update c Connection.unpaired
    | some pairing => do
      forwardReject c pairing frame.payload
      sessions fun _ t => ((), t.destroyPairing conn.pairingId)
      update c Connection.unpaired

/-! ## Relay -/

/-- Attaches both sides of a pairing to each other and marks them as relaying. -/
def startRelaying (sender receiver : ConnId) : ServerM Unit := do
  update sender fun x => { x with relayPeer := some receiver }
  update receiver fun x => { x with relayPeer := some sender }
  update sender fun x => { x with state := .relaying }
  update receiver fun x => { x with state := .relaying }

/-- Both ends of a pairing, if both still exist. -/
def lockBoth (pairing : Pairing) : ServerM (Option (ConnId × ConnId)) := do
  let sender ← lock pairing.sender
  let receiver ← lock pairing.receiver
  match sender, receiver with
  | some sender, some receiver => pure (some (sender, receiver))
  | _, _ => pure none

def handleRelayOpen (c : ConnId) : ServerM Unit := do
  let s ← get
  let conn ← connection c
  if !s.options.allowRelay then
    rejectAndClose c (text "this server does not relay; a direct path is required")
  else if conn.pairingId = 0 then
    rejectAndClose c (text "no pairing to relay")
  else do
    let found ← sessions fun _ t => (t.findPairing conn.pairingId, t)
    match found with
    | none => rejectAndClose c (text "that pairing has expired")
    | some pairing => do
      let both ← lockBoth pairing
      match both with
      | none => rejectAndClose c (text "the other peer disconnected")
      | some (sender, receiver) => do
        let start ← sessions fun _ t => t.requestRelay conn.pairingId (sender == c)
        if start then do
          startRelaying sender receiver
          enqueueFrame sender .relayOpen []
          enqueueFrame receiver .relayOpen []
          wakeFor sender
          wakeFor receiver
        else pure ()

def kRelayPauseThreshold : Nat := 4 * 1024 * 1024

/-- `Connection::relay_peer`. -/
def attachedPeer (conn : Connection) : ServerM (Option ConnId) :=
  match conn.relayPeer with
  | some p => lock p
  | none => pure none

/-- The relay peer, recovered from an active pairing when it is not attached yet. -/
def relayPeerOf (c : ConnId) (conn : Connection) : ServerM (Option ConnId) := do
  let attached ← attachedPeer conn
  match attached with
  | some p => pure (some p)
  | none => do
    let found ← sessions fun _ t => (t.findPairing conn.pairingId, t)
    match found with
    | some pairing =>
      if conn.pairingId ≠ 0 ∧ pairing.relayActive then do
        let both ← lockBoth pairing
        match both with
        | some (sender, receiver) => do
          startRelaying sender receiver
          pure (some (if sender = c then receiver else sender))
        | none => pure none
      else pure none
    | none => pure none

def handleRelayData (c : ConnId) (frame : Frame) : ServerM Unit := do
  let conn ← connection c
  let peer ← relayPeerOf c conn
  match peer with
  | none => rejectAndClose c (text "this connection is not relaying")
  | some peer => do
    enqueueFrame peer .relayData frame.payload
    let p ← connection peer
    update c fun x => if p.pendingOutput > kRelayPauseThreshold then { x with readPaused := true } else x
    wakeFor peer

def handleRelayClose (c : ConnId) (frame : Frame) : ServerM Unit := do
  let conn ← connection c
  let attached ← attachedPeer conn
  match attached with
  | some peer => do
    enqueueFrame peer .relayClose frame.payload
    requestClose peer (text "the other peer closed the relay")
    wakeFor peer
    requestClose c (text "relay closed")
  | none => requestClose c (text "relay closed")

/-! ## Dispatch -/

def handleFrame (env : Env) (c : ConnId) (frame : Frame) : ServerM Unit :=
  match frame.header.type with
  | .clientHello => handleClientHello c frame
  | .sendRequest => handleSendRequest env c frame
  | .groupQuery => handleGroupQuery c frame
  | .groupJoin => handleGroupJoin c frame
  | .groupSendRequest => handleGroupSendRequest env c frame
  | .accept => handleAccept c frame
  | .reject => handleReject c frame
  | .relayOpen => handleRelayOpen c
  | .relayData => handleRelayData c frame
  | .relayClose => handleRelayClose c frame
  | .keepAlive => pure ()
  | .bye => requestClose c (text "peer said goodbye")
  | type => rejectAndClose c (text "a " ++ type.name ++ text " frame is not valid here")

/-- The server once `service_connection` has noted the connection's activity. -/
def Server.touched (s : Server) (env : Env) (c : ConnId) : Server :=
  s.update c fun x => { x with lastActivityMs := env.nowMs }

/-- A frame from connection `c`, with the `catch` of `service_connection`. -/
def Server.processFrame (s : Server) (env : Env) (c : ConnId) (frame : Frame) : Server :=
  match (handleFrame env c frame).run (s.touched env c) with
  | .ok _ s' => s'
  | .error e s' => s'.update c (·.requestClose e.what)

/-! ## Connections come and go -/

/-- One round of `accept_connections`, for a client at `addr`. -/
def Server.acceptConnection (s : Server) (env : Env) (addr : SockAddr) : Server :=
  let observed := Endpoint.fromSockaddr addr
  let key := s.rateLimiter.keyFor observed
  let (allowed, limiter) := s.rateLimiter.allowConnection key env.nowMs
  let s := { s with rateLimiter := limiter }
  if allowed then
    { s with
      nextConnectionId := s.nextConnectionId + 1
      connections := Function.update s.connections s.nextConnectionId (some
        { observedEndpoint := observed, rateLimitKey := key, lastActivityMs := env.nowMs }) }
  else s

/-- What `close_connection` does to the other end of the pairing. -/
def releasePeer (c : ConnId) (pairing : Pairing) : ServerM Unit := do
  let sender ← lock pairing.sender
  let receiver ← lock pairing.receiver
  match if sender = some c then receiver else sender with
  | none => pure ()
  | some other =>
    if other = c then pure ()
    else do
      let x ← connection other
      if receiver = some other ∧ x.state = .receiverMatched ∧ !pairing.relayActive then
        update other fun x => { x with state := .receiverIdle, pairingId := 0 }
      else do
        enqueueFrame other .relayClose (text "the other peer disconnected")
        requestClose other (text "the other peer disconnected")
        wakeFor other

/-- The table part of `close_connection`, on the connection's record from before. -/
def releaseSessions (c : ConnId) (conn : Connection) : ServerM Unit := do
  sessions fun alive t => ((), t.release alive conn.claimedUsername c)
  sessions fun alive t => ((), t.leaveGroup alive conn.joinedGroup c)
  if conn.pairingId = 0 then pure ()
  else do
    let found ← sessions fun _ t => (t.findPairing conn.pairingId, t)
    match found with
    | some pairing => do
      releasePeer c pairing
      sessions fun _ t => ((), t.destroyPairing conn.pairingId)
    | none => pure ()

/-- `Server::close_connection`. -/
def closeConnection (c : ConnId) : ServerM Unit := do
  let conn ← connection c
  if conn.state = .closing then pure ()
  else do
    update c fun x => { x with state := .closing }
    releaseSessions c conn
    modify fun s => { s with connections := Function.update s.connections c none }

/-- The shared-table part of `run_maintenance`. Idle connections are closed one by one. -/
def Server.expire (s : Server) (env : Env) : Server :=
  { s with
    sessions := s.sessions.expirePairings s.alive env.nowMs
      (s.options.pairingTimeoutSeconds.toUInt64 * 1000)
    rateLimiter := s.rateLimiter.evictIdle env.nowMs (10 * 60 * 1000) }

end DropZone
