import DropZone.Handshake.Crypto
import DropZone.Lib.StateSpec

/-!
# Getting introduced (`client/src/rendezvous.cpp`, `client/src/known_peers.cpp`)

The client's side of an introduction, through a server that may send anything.

* `requestIntroduction`: the sender's side, on whatever frame the server answers with.
* `awaitIntroduction`: the receiver's loop, on whatever the connection and the clock bring.
* `Client`: what the calls change: the recorded peers, the frames written, and, for the proofs,
  which introductions were answered and how.
* `answerIncoming_cases`: what the answer to an introduction can do.

The 250 ms pause after a wrong proof and the log lines are left out.
-/

namespace DropZone

open LittleEndian Parser StateSpec MonadExcept

/-! ## Known peers -/

structure KnownPeer where
  username : Bytes
  identityKey : Block 32
  firstSeen : UInt64
  deriving DecidableEq

/-- `KnownPeers`: the records, in the order of the file. -/
abbrev KnownPeers := List KnownPeer

inductive PinResult where
  | firstSight | same | changed
  deriving DecidableEq

namespace KnownPeers

def lookup (peers : KnownPeers) (username : Bytes) : Option KnownPeer :=
  peers.find? fun peer => peer.username = username

/-- `KnownPeers::check`. -/
def check (peers : KnownPeers) (username : Bytes) (identityKey : Block 32) : PinResult :=
  match lookup peers username with
  | none => .firstSight
  | some peer => if peer.identityKey = identityKey then .same else .changed

/-- The records after `KnownPeers::remember`: the first record of the name is overwritten, or a
new one is added at the end. -/
def remember (username : Bytes) (identityKey : Block 32) (now : UInt64) : KnownPeers → KnownPeers
  | [] => [{ username, identityKey, firstSeen := now }]
  | peer :: peers =>
    if peer.username = username then { peer with identityKey := identityKey } :: peers
    else peer :: remember username identityKey now peers

theorem lookup_remember (peers : KnownPeers) (username : Bytes) (identityKey : Block 32)
    (now : UInt64) :
    (lookup (remember username identityKey now peers) username).map KnownPeer.identityKey =
      some identityKey := by
  induction peers with
  | nil => simp [remember, lookup]
  | cons peer peers ih =>
    unfold remember
    split
    · rename_i h
      simp [lookup, h]
    · rename_i h
      simpa [lookup, h] using ih

theorem lookup_remember_other {peers : KnownPeers} {username other : Bytes} (h : other ≠ username)
    (identityKey : Block 32) (now : UInt64) :
    lookup (remember username identityKey now peers) other = lookup peers other := by
  induction peers with
  | nil => simp [remember, lookup, h.symm]
  | cons peer peers ih =>
    unfold remember
    split
    · rename_i hp
      have hne : ¬ peer.username = other := by rw [hp]; exact h.symm
      simp [lookup, hne]
    · by_cases ho : peer.username = other
      · simp [lookup, ho]
      · simpa [lookup, ho] using ih

end KnownPeers

/-! ## The client -/

/-- `Config`: `load_config` refuses an invalid username. -/
structure Config where
  username : Bytes
  valid : isValidUsername username = true

structure Introduction where
  peerUsername : Bytes
  peerIdentityKey : Block 32
  peerCandidates : List Endpoint
  pairingId : UInt64
  transportHint : TransportKind
  keys : SessionKeys
  deriving DecidableEq

/-- What the calls change. -/
structure Client where
  knownPeers : KnownPeers
  /-- The frames written on the control connection. -/
  written : List Frame := []
  /-- The introductions answered so far; `true` for Accept, `false` for Reject. -/
  answered : List (PeerIntroduction × Bool) := []

abbrev ClientM := EStateM Failure Client

/-- What the system calls of one answer bring. -/
structure Outside where
  /-- `std::time`. -/
  now : UInt64 := 0
  /-- What saving the known peers throws. -/
  save : Option Failure := none
  /-- What writing to the socket throws. -/
  write : Option Failure := none
  /-- `preferred_aead`. -/
  preferredAead : AeadAlgorithm := .aes256Gcm

/-- Throws what a call threw. -/
def raise : Option Failure → ClientM Unit
  | some e => throw e
  | none => pure ()

def sendFrame (o : Outside) (type : MessageType) (payload : Bytes) : ClientM Unit := do
  let _ ← ofExcept (writeFrame type payload)
  raise o.write
  modify fun c => { c with written := c.written ++ [Frame.of type payload] }

def toHex (data : Bytes) : Bytes :=
  data.flatMap fun b => [(text "0123456789abcdef").getD (b.toNat / 16) 0,
    (text "0123456789abcdef").getD (b.toNat % 16) 0]

def fingerprintOf (p : Primitives) (publicKey : Block 32) : Bytes :=
  toHex ((p.sha256 publicKey.toList).toList.take 16)

/-- The message of a refused identity. -/
def pinMismatch (p : Primitives) (previous : Option KnownPeer) (username : Bytes)
    (identityKey : Block 32) : Failure :=
  let previousFingerprint := match previous with
    | some peer => fingerprintOf p peer.identityKey
    | none => text "unknown"
  .userError (text "'" ++ username ++ text "' presented a different identity than last time.\n" ++
    text "  recorded:  " ++ previousFingerprint ++ text "\n" ++ text "  presented: " ++
    fingerprintOf p identityKey ++ text "\n" ++
    text "Either they reinstalled drop-zone, or somebody else has taken their " ++
    text "username.\nIf you are sure it is them, remove their line from " ++
    text "known_peers and try again.")

/-- `enforce_pinning`. The record is in memory before it is saved. -/
def enforcePinning (p : Primitives) (o : Outside) (username : Bytes) (identityKey : Block 32) :
    ClientM Unit := do
  let c ← get
  match KnownPeers.check c.knownPeers username identityKey with
  | .same => pure ()
  | .firstSight => do
    modify fun c => { c with knownPeers := .remember username identityKey o.now c.knownPeers }
    raise o.save
  | .changed => throw (pinMismatch p (KnownPeers.lookup c.knownPeers username) username identityKey)

/-! ## The sender's side -/

/-- The arguments of `request_introduction`. -/
structure Requester (p : Primitives) where
  config : Config
  identity : Ed25519KeyPair p
  sessionKeys : X25519KeyPair p
  targetUsername : Bytes
  publicPassword : Bytes
  transportHint : TransportKind
  /-- Empty for a personal send. -/
  groupName : Bytes
  /-- The command line refuses other group names. -/
  group_valid : groupName = [] ∨ isValidUsername groupName = true

namespace Requester

def passwordKey (q : Requester p) : Key :=
  derivePublicPasswordKey p q.publicPassword
    (if q.groupName = [] then q.targetUsername else q.groupName)

def proofInput (q : Requester p) : Bytes :=
  senderProofInput q.config.username q.targetUsername q.sessionKeys.publicKey q.identity.publicKey
    q.groupName

def request (q : Requester p) : SendRequest :=
  { targetUsername := q.targetUsername
    proof := p.hmacSha256 q.passwordKey.toList q.proofInput
    signature := p.ed25519Sign q.identity.secret q.proofInput
    transportHint := q.transportHint
    groupName := q.groupName }

/-- The handshake as the sender sees it, with the keys the reply presents. -/
def handshake (q : Requester p) (peer : PeerIntroduction) : Handshake :=
  { senderUsername := q.config.username
    receiverUsername := q.targetUsername
    senderSessionKey := q.sessionKeys.publicKey
    senderIdentityKey := q.identity.publicKey
    receiverSessionKey := peer.sessionKey
    receiverIdentityKey := peer.identityKey
    groupName := q.groupName }

/-- The checks of `request_introduction` on the reply, before pinning. -/
def checkReply (q : Requester p) (peer : PeerIntroduction) : Except Failure Unit :=
  let expectedInput := receiverProofInput (q.handshake peer)
  if peer.username ≠ q.targetUsername then
    .error (.error (text "the server introduced us to '" ++ peer.username ++ text "' instead of '" ++
      q.targetUsername ++ text "'"))
  else if peer.proof ≠ p.hmacSha256 q.passwordKey.toList expectedInput then
    .error (.userError (text "the reply from '" ++ q.targetUsername ++
      text "' did not match the public password.\nEither the password is wrong, or " ++
      text "something between you altered the introduction."))
  else if p.ed25519Verify peer.identityKey expectedInput peer.signature = false then
    .error (.userError (text "'" ++ q.targetUsername ++
      text "' could not prove it holds the identity key it presented"))
  else .ok ()

/-- What `request_introduction` returns once the secret is shared. -/
def introduction (q : Requester p) (o : Outside) (peer : PeerIntroduction) (shared : Block 32) :
    Introduction :=
  { peerUsername := peer.username
    peerIdentityKey := peer.identityKey
    peerCandidates := peer.candidates
    pairingId := peer.pairingId
    transportHint := peer.transportHint
    keys := deriveSessionKeys p o.preferredAead shared
      (transcriptHash p (q.handshake peer) q.request.proof peer.proof) true }

end Requester

/-- `request_introduction`; `reply` is what reading a frame gives. -/
def requestIntroduction (q : Requester p) (o : Outside) (reply : Except Failure Frame) :
    ClientM Introduction := do
  sendFrame o .sendRequest q.request.encode
  let frame ← ofExcept (reply >>= FramedStream.expect .matched)
  let peer ← ofExcept (PeerIntroduction.decode frame.payload)
  ofExcept (q.checkReply peer)
  enforcePinning p o q.targetUsername peer.identityKey
  let shared ← ofExcept (p.x25519Shared q.sessionKeys.secret peer.sessionKey)
  pure (q.introduction o peer shared)

/-! ## The receiver's side -/

/-- The arguments of `await_introduction`. -/
structure Acceptor (p : Primitives) where
  config : Config
  identity : Ed25519KeyPair p
  sessionKeys : X25519KeyPair p
  personalPasswordKey : Key
  groupPasswordKey : Option Key
  joinedGroup : Bytes
  ownTransportHint : TransportKind

namespace Acceptor

/-- The stretched key for an introduction that names `groupName`; none when this session has not
joined that group. -/
def passwordKey (a : Acceptor p) (groupName : Bytes) : Option Key :=
  if groupName = [] then some a.personalPasswordKey
  else if groupName = a.joinedGroup then a.groupPasswordKey
  else none

def senderInput (a : Acceptor p) (peer : PeerIntroduction) : Bytes :=
  senderProofInput peer.username a.config.username peer.sessionKey peer.identityKey peer.groupName

/-- The handshake as the receiver sees it, with the keys the introduction presents. -/
def handshake (a : Acceptor p) (peer : PeerIntroduction) : Handshake :=
  { senderUsername := peer.username
    receiverUsername := a.config.username
    senderSessionKey := peer.sessionKey
    senderIdentityKey := peer.identityKey
    receiverSessionKey := a.sessionKeys.publicKey
    receiverIdentityKey := a.identity.publicKey
    groupName := peer.groupName }

/-- The answer to an introduction, under the key that its proof was checked with. -/
def reply (a : Acceptor p) (peer : PeerIntroduction) (key : Key) : PeerIntroduction :=
  { username := a.config.username
    identityKey := a.identity.publicKey
    sessionKey := a.sessionKeys.publicKey
    proof := p.hmacSha256 key.toList (receiverProofInput (a.handshake peer))
    signature := p.ed25519Sign a.identity.secret (receiverProofInput (a.handshake peer))
    pairingId := peer.pairingId
    transportHint := if peer.transportHint ≠ .none then peer.transportHint else a.ownTransportHint
    groupName := peer.groupName }

/-- Why an introduction is rejected, if it is. -/
def refusal (a : Acceptor p) (peer : PeerIntroduction) : Except Bytes Key :=
  match a.passwordKey peer.groupName with
  | none => .error (text "not a member of that group")
  | some key =>
    if peer.proof ≠ p.hmacSha256 key.toList (a.senderInput peer) then
      .error (text "wrong public password")
    else if p.ed25519Verify peer.identityKey (a.senderInput peer) peer.signature = false then
      .error (text "the sender could not prove its identity")
    else .ok key

/-- What `await_introduction` hands out once the secret is shared. -/
def introduction (a : Acceptor p) (o : Outside) (peer : PeerIntroduction) (key : Key)
    (shared : Block 32) : Introduction :=
  { peerUsername := peer.username
    peerIdentityKey := peer.identityKey
    peerCandidates := peer.candidates
    pairingId := peer.pairingId
    transportHint := (a.reply peer key).transportHint
    keys := deriveSessionKeys p o.preferredAead shared
      (transcriptHash p (a.handshake peer) peer.proof (a.reply peer key).proof) false }

end Acceptor

/-- Notes how an introduction was answered. -/
def recordAnswer (peer : PeerIntroduction) (accepted : Bool) : ClientM Unit :=
  modify fun c => { c with answered := c.answered ++ [(peer, accepted)] }

/-- The body of the loop on a decoded Incoming: an answer, and the introduction if it is
accepted. -/
def answerIncoming (a : Acceptor p) (o : Outside) (peer : PeerIntroduction) :
    ClientM (Option Introduction) :=
  match a.refusal peer with
  | .error reason => do
    sendFrame o .reject reason
    recordAnswer peer false
    pure none
  | .ok key => do
    enforcePinning p o peer.username peer.identityKey
    sendFrame o .accept (a.reply peer key).encode
    recordAnswer peer true
    let shared ← ofExcept (p.x25519Shared a.sessionKeys.secret peer.sessionKey)
    pure (some (a.introduction o peer key shared))

/-- The body of the loop on a frame. -/
def awaitFrame (a : Acceptor p) (o : Outside) (frame : Frame) : ClientM (Option Introduction) :=
  if frame.header.type = .keepAlive then pure none
  else if frame.header.type = .reject ∨ frame.header.type = .relayClose then
    throw (.userError (text "the server closed this session: " ++ stopReason frame.payload))
  else if frame.header.type ≠ .incoming then
    throw (.error (text "the server sent an unexpected " ++ frame.header.type.name ++
      text " frame while waiting for a sender"))
  else do
    let peer ← ofExcept (PeerIntroduction.decode frame.payload)
    answerIncoming a o peer

def kKeepAliveIntervalMs : UInt64 := 25000

/-- What one turn of the loop meets: the clock at the deadline check, what is readable within a
second, and the clock again when nothing is. -/
structure Turn where
  clock : UInt64 := 0
  /-- What `read_frame` gives; none when nothing became readable. -/
  readable : Option (Except Failure Frame)
  later : UInt64 := 0
  afterKeepAlive : UInt64 := 0
  outside : Outside := {}

/-- The deadline has passed when the turn starts. A `deadline` of 0 is none. -/
def Turn.Expired (turn : Turn) (deadline : UInt64) : Prop := deadline ≠ 0 ∧ deadline ≤ turn.clock

instance (turn : Turn) (deadline : UInt64) : Decidable (turn.Expired deadline) :=
  inferInstanceAs (Decidable (_ ∧ _))

inductive Awaited where
  /-- Still waiting, with the time of the next keep-alive. -/
  | waiting (nextKeepAlive : UInt64)
  /-- `return false`. -/
  | timedOut
  /-- `return true`. -/
  | accepted (introduction : Introduction)
  deriving DecidableEq

/-- One turn of the loop of `await_introduction`. -/
def awaitTurn (a : Acceptor p) (deadline nextKeepAlive : UInt64) (turn : Turn) : ClientM Awaited :=
  if turn.Expired deadline then pure .timedOut
  else match turn.readable with
    | none =>
      if nextKeepAlive ≤ turn.later then do
        sendFrame turn.outside .keepAlive []
        pure (.waiting (turn.afterKeepAlive + kKeepAliveIntervalMs))
      else pure (.waiting nextKeepAlive)
    | some (.error e) => throw e
    | some (.ok frame) => do
      let answer ← awaitFrame a turn.outside frame
      match answer with
      | some introduction => pure (.accepted introduction)
      | none => pure (.waiting nextKeepAlive)

def awaitTurns (a : Acceptor p) (deadline : UInt64) : UInt64 → List Turn → ClientM Awaited
  | nextKeepAlive, [] => pure (.waiting nextKeepAlive)
  | nextKeepAlive, turn :: turns => do
    let awaited ← awaitTurn a deadline nextKeepAlive turn
    match awaited with
    | .waiting nextKeepAlive => awaitTurns a deadline nextKeepAlive turns
    | done => pure done

def awaitIntroduction (a : Acceptor p) (timeoutMs : UInt32) (start : UInt64) (turns : List Turn) :
    ClientM Awaited :=
  awaitTurns a (if timeoutMs = 0 then 0 else start + timeoutMs.toUInt64)
    (start + kKeepAliveIntervalMs) turns

/-! ## What a call can do -/

/-- The first record of `username` holds `identityKey`. -/
def KnownPeers.Pins (peers : KnownPeers) (username : Bytes) (identityKey : Block 32) : Prop :=
  (lookup peers username).map KnownPeer.identityKey = some identityKey

/-- What was pinned stays pinned. -/
def KnownPeers.Keeps (peers peers' : KnownPeers) : Prop :=
  ∀ u k, peers.Pins u k → peers'.Pins u k

namespace KnownPeers

variable {peers : KnownPeers} {u : Bytes} {k k' : Block 32}

instance : Decidable (peers.Pins u k) := inferInstanceAs (Decidable (_ = some k))

theorem Pins.unique (h : peers.Pins u k) (h' : peers.Pins u k') : k = k' :=
  Option.some_inj.mp (h.symm.trans h')

theorem pins_remember (peers : KnownPeers) (u : Bytes) (k : Block 32) (now : UInt64) :
    (peers.remember u k now).Pins u k :=
  lookup_remember ..

theorem pins_remember_iff {v : Bytes} {now : UInt64} :
    (peers.remember u k now).Pins v k' ↔ if v = u then k' = k else peers.Pins v k' := by
  split
  · rename_i h
    subst h
    exact ⟨fun h => h.unique (pins_remember ..), fun h => h ▸ pins_remember ..⟩
  · rename_i h
    rw [Pins, Pins, lookup_remember_other h]

theorem check_eq_same_iff : peers.check u k = .same ↔ peers.Pins u k := by
  unfold check Pins
  cases peers.lookup u with
  | none => simp
  | some peer => simp

theorem check_eq_changed_iff : peers.check u k = .changed ↔ ∃ k', peers.Pins u k' ∧ k' ≠ k := by
  unfold check Pins
  cases peers.lookup u with
  | none => simp
  | some peer => simp

/-- `remember` keeps what is pinned exactly when the name has no other key. -/
theorem keeps_remember_iff {now : UInt64} :
    peers.Keeps (peers.remember u k now) ↔ peers.check u k ≠ .changed := by
  rw [ne_eq, check_eq_changed_iff]
  constructor
  · rintro h ⟨k', hpin, hne⟩
    exact hne ((h u k' hpin).unique (pins_remember ..))
  · intro h v k' hpin
    rw [pins_remember_iff]
    split
    · rename_i hv
      subst hv
      exact Classical.not_not.mp fun hne => h ⟨k', hpin, hne⟩
    · exact hpin

end KnownPeers

theorem run_sendFrame (o : Outside) {type : MessageType} {payload : Bytes}
    (hsize : payload.length ≤ kMaxFrameLength) (c : Client) :
    (sendFrame o type payload).run c = match o.write with
      | none => .ok () { c with written := c.written ++ [Frame.of type payload] }
      | some e => .error e c := by
  have hw : ∃ bytes, writeFrame type payload = .ok bytes := ⟨_, if_neg (Nat.not_lt.mpr hsize)⟩
  obtain ⟨bytes, hw⟩ := hw
  unfold sendFrame
  rw [run_bind_ok (run_ofExcept_eq_ok.mpr ⟨hw, rfl⟩)]
  cases o.write <;> rfl

/-- A frame is written or the call throws and changes nothing. -/
theorem sendFrame_cases (o : Outside) (type : MessageType) (payload : Bytes) (c : Client) :
    (o.write = none ∧ (sendFrame o type payload).run c =
        .ok () { c with written := c.written ++ [Frame.of type payload] }) ∨
      ∃ e, (sendFrame o type payload).run c = .error e c := by
  by_cases hsize : payload.length ≤ kMaxFrameLength
  · rw [run_sendFrame o hsize]
    cases o.write with
    | none => exact .inl ⟨rfl, rfl⟩
    | some e => exact .inr ⟨e, rfl⟩
  · refine .inr ⟨.error (text "refusing to send an oversized frame"), ?_⟩
    unfold sendFrame writeFrame
    rw [if_pos (Nat.lt_of_not_le hsize)]
    rfl

theorem run_enforcePinning (o : Outside) (c : Client) (username : Bytes) (identityKey : Block 32) :
    (enforcePinning p o username identityKey).run c =
      match c.knownPeers.check username identityKey with
      | .same => .ok () c
      | .firstSight =>
        let c' := { c with knownPeers := .remember username identityKey o.now c.knownPeers }
        match o.save with
        | none => .ok () c'
        | some e => .error e c'
      | .changed => .error (pinMismatch p (c.knownPeers.lookup username) username identityKey) c := by
  unfold enforcePinning
  rw [run_bind_ok (show (get : ClientM Client).run c = .ok c c from rfl)]
  cases c.knownPeers.check username identityKey with
  | same => rfl
  | changed => rfl
  | firstSight => cases o.save <;> rfl

theorem enforcePinning_pinned (o : Outside) {c : Client} {username : Bytes} {identityKey : Block 32}
    (h : c.knownPeers.Pins username identityKey) :
    (enforcePinning p o username identityKey).run c = .ok () c := by
  rw [run_enforcePinning, KnownPeers.check_eq_same_iff.mpr h]

/-- `enforce_pinning` only adds to the records; when it returns, the key is pinned. -/
theorem enforcePinning_cases (o : Outside) (c : Client) (username : Bytes)
    (identityKey : Block 32) :
    ∃ peers, c.knownPeers.Keeps peers ∧
      ((enforcePinning p o username identityKey).run c = .ok () { c with knownPeers := peers } ∧
          peers.Pins username identityKey ∨
        ∃ e, (enforcePinning p o username identityKey).run c =
          .error e { c with knownPeers := peers }) := by
  rw [run_enforcePinning]
  cases hcheck : c.knownPeers.check username identityKey with
  | same => exact ⟨_, fun _ _ h => h, .inl ⟨rfl, KnownPeers.check_eq_same_iff.mp hcheck⟩⟩
  | changed => exact ⟨_, fun _ _ h => h, .inr ⟨_, rfl⟩⟩
  | firstSight =>
    have hne : c.knownPeers.check username identityKey ≠ .changed := by
      rw [hcheck]
      decide
    refine ⟨c.knownPeers.remember username identityKey o.now, KnownPeers.keeps_remember_iff.mpr hne, ?_⟩
    cases o.save with
    | none => exact .inl ⟨rfl, KnownPeers.pins_remember ..⟩
    | some e => exact .inr ⟨e, rfl⟩

/-- What `answerIncoming` can do: stop without an answer, reject, or accept. After an Accept the
key agreement can still throw. -/
theorem answerIncoming_cases (a : Acceptor p) (o : Outside) (peer : PeerIntroduction) (c : Client) :
    (∃ e peers, c.knownPeers.Keeps peers ∧
      (answerIncoming a o peer).run c = .error e { c with knownPeers := peers }) ∨
    (∃ reason, a.refusal peer = .error reason ∧
      (answerIncoming a o peer).run c = .ok none
        { c with written := c.written ++ [Frame.of .reject reason]
                 answered := c.answered ++ [(peer, false)] }) ∨
    (∃ key peers c', a.refusal peer = .ok key ∧ c.knownPeers.Keeps peers ∧
      peers.Pins peer.username peer.identityKey ∧ o.write = none ∧
      c' = { knownPeers := peers
             written := c.written ++ [Frame.of .accept (a.reply peer key).encode]
             answered := c.answered ++ [(peer, true)] } ∧
      (answerIncoming a o peer).run c =
        match p.x25519Shared a.sessionKeys.secret peer.sessionKey with
        | .ok shared => .ok (some (a.introduction o peer key shared)) c'
        | .error e => .error e c') := by
  unfold answerIncoming
  cases hr : a.refusal peer with
  | error reason =>
    rcases sendFrame_cases o .reject reason c with ⟨-, hs⟩ | ⟨e, hs⟩
    · refine .inr (.inl ⟨reason, rfl, ?_⟩)
      rw [run_bind_ok hs]
      rfl
    · refine .inl ⟨e, c.knownPeers, fun _ _ h => h, ?_⟩
      rw [run_bind, hs]
  | ok key =>
    obtain ⟨peers, hkeep, ⟨hp, hpin⟩ | ⟨e, hp⟩⟩ :=
      enforcePinning_cases (p := p) o c peer.username peer.identityKey
    · rcases sendFrame_cases o .accept (a.reply peer key).encode { c with knownPeers := peers }
        with ⟨hw, hs⟩ | ⟨e, hs⟩
      · refine .inr (.inr ⟨key, peers, _, rfl, hkeep, hpin, hw, rfl, ?_⟩)
        simp only
        rw [run_bind_ok hp, run_bind_ok hs]
        cases p.x25519Shared a.sessionKeys.secret peer.sessionKey <;> rfl
      · refine .inl ⟨e, peers, hkeep, ?_⟩
        simp only
        rw [run_bind_ok hp, run_bind, hs]
    · refine .inl ⟨e, peers, hkeep, ?_⟩
      simp only
      rw [run_bind, hp]

def Turn.incoming (turn : Turn) : Option PeerIntroduction :=
  match turn.readable with
  | some (.ok frame) =>
    if frame.header.type = .incoming then (PeerIntroduction.decode frame.payload).toOption else none
  | _ => none

theorem Turn.incoming_sound {turn : Turn} {peer : PeerIntroduction}
    (h : turn.incoming = some peer) :
    ∃ frame, turn.readable = some (.ok frame) ∧ frame.header.type = .incoming ∧
      PeerIntroduction.decode frame.payload = .ok peer := by
  unfold Turn.incoming at h
  split at h
  · rename_i frame hread
    split at h
    · rename_i htype
      cases hd : PeerIntroduction.decode frame.payload with
      | error e => rw [hd] at h; cases h
      | ok i => rw [hd] at h; cases h; exact ⟨frame, hread, htype, hd⟩
    · cases h
  · cases h

/-- What a turn makes of the answer to an introduction. -/
def Awaited.ofAnswer (nextKeepAlive : UInt64) : Option Introduction → Awaited
  | some introduction => .accepted introduction
  | none => .waiting nextKeepAlive

theorem awaitTurn_incoming (a : Acceptor p) {deadline : UInt64} (nextKeepAlive : UInt64)
    {turn : Turn} {peer : PeerIntroduction} (hpeer : turn.incoming = some peer)
    (htime : ¬ turn.Expired deadline) :
    awaitTurn a deadline nextKeepAlive turn =
      answerIncoming a turn.outside peer >>= fun answer =>
        pure (Awaited.ofAnswer nextKeepAlive answer) := by
  obtain ⟨frame, hread, htype, hdec⟩ := Turn.incoming_sound hpeer
  have hframe : awaitFrame a turn.outside frame = answerIncoming a turn.outside peer := by
    simp only [awaitFrame, htype, hdec]
    rfl
  unfold awaitTurn
  rw [if_neg htime, hread]
  simp only [hframe]
  congr 1
  funext answer
  cases answer <;> rfl

/-- Any other turn leaves the records and the answers alone, writes keep-alives at most, and accepts
nobody. -/
theorem awaitTurn_idle (a : Acceptor p) {deadline : UInt64} (nextKeepAlive : UInt64) {turn : Turn}
    (c : Client) (h : turn.incoming = none ∨ turn.Expired deadline) :
    (∃ written, (∀ f ∈ written, f ∈ c.written ∨ f.header.type = .keepAlive) ∧
      final (awaitTurn a deadline nextKeepAlive turn) c = { c with written := written }) ∧
    ∀ i c', (awaitTurn a deadline nextKeepAlive turn).run c ≠ .ok (.accepted i) c' := by
  have hsame : ∀ f ∈ c.written, f ∈ c.written ∨ f.header.type = .keepAlive := fun _ => .inl
  unfold awaitTurn
  by_cases htime : turn.Expired deadline
  · rw [if_pos htime]
    exact ⟨⟨c.written, hsame, rfl⟩, by rintro i c' ⟨⟩⟩
  have hnone := h.resolve_right htime
  rw [if_neg htime]
  cases hread : turn.readable with
  | none =>
    simp only
    split
    · rcases sendFrame_cases turn.outside .keepAlive [] c with ⟨-, hs⟩ | ⟨e, hs⟩
      · rw [final_bind_ok hs, run_bind_ok hs]
        refine ⟨⟨_, ?_, rfl⟩, by rintro i c' ⟨⟩⟩
        intro f hf
        rcases List.mem_append.mp hf with hf | hf
        · exact .inl hf
        · rw [List.mem_singleton.mp hf]
          exact .inr rfl
      · rw [final_bind_error hs, run_bind, hs]
        exact ⟨⟨c.written, hsame, rfl⟩, by rintro i c' ⟨⟩⟩
    · exact ⟨⟨c.written, hsame, rfl⟩, by rintro i c' ⟨⟩⟩
  | some read =>
    cases read with
    | error e => exact ⟨⟨c.written, hsame, rfl⟩, by rintro i c' ⟨⟩⟩
    | ok frame =>
      -- The frame is a keep-alive or makes the loop throw.
      have hframe : (awaitFrame a turn.outside frame).run c = .ok none c ∨
          ∃ e, (awaitFrame a turn.outside frame).run c = .error e c := by
        unfold awaitFrame
        split
        · exact .inl rfl
        split
        · exact .inr ⟨_, rfl⟩
        split
        · exact .inr ⟨_, rfl⟩
        · rename_i htype
          simp only [Turn.incoming, hread, not_not.mp htype, if_true] at hnone
          cases hd : PeerIntroduction.decode frame.payload with
          | error e => exact .inr ⟨e, rfl⟩
          | ok peer => rw [hd] at hnone; cases hnone
      simp only
      rcases hframe with hf | ⟨e, hf⟩
      · rw [final_bind_ok hf, run_bind_ok hf]
        exact ⟨⟨c.written, hsame, rfl⟩, by rintro i c' ⟨⟩⟩
      · rw [final_bind_error hf, run_bind, hf]
        exact ⟨⟨c.written, hsame, rfl⟩, by rintro i c' ⟨⟩⟩

end DropZone
