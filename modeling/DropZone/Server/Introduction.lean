import DropZone.Server.Handlers

/-!
# The introduction a receiver is sent

`handle_send_request` copies the sender's hello and request into an `Incoming` frame. The hello's
decoder takes up to 65535 candidates, the introduction has one more, and the list's length is
written as 16 bits.

* `handleSendRequest_introduces`: what the handler does when it introduces.
* `incoming_decodes_iff`: the receiver reads the introduction back exactly when the hello had fewer
  than 65535 candidates.
-/

namespace DropZone

open LittleEndian Parser StateSpec

/-- A sender that may now be introduced: the branch of `handle_send_request` past its checks. -/
structure MayIntroduce (s : Server) (env : Env) (c : ConnId) (frame : Frame) (conn : Connection)
    (request : SendRequest) (r : ConnId) (receiver : Connection) : Prop where
  connection : s.connections c = some conn
  state : conn.state = .senderIdle
  allowed : (s.rateLimiter.allowRequest conn.rateLimitKey env.nowMs).1 = true
  decoded : SendRequest.decode frame.payload = .ok request
  target : s.sessions.lookup s.alive request.targetUsername = some r
  found : s.connections r = some receiver
  idle : receiver.state = .receiverIdle

/-- The id that `create_pairing` picks. -/
def Server.nextPairingId (s : Server) (env : Env) (c r : ConnId) : UInt64 :=
  (s.sessions.createPairing env.random env.nowMs c r).1

/-- The server after `pair`. -/
def Server.paired (s : Server) (env : Env) (c r : ConnId) : Server :=
  let id := s.nextPairingId env c r
  ({ s with sessions := (s.sessions.createPairing env.random env.nowMs c r).2 }.update c
    fun x => { x with pairingId := id, state := .senderWaiting }).update r
    fun x => { x with pairingId := id, state := .receiverMatched }

theorem run_pair (s : Server) (env : Env) (c r : ConnId) :
    (pair env c r).run s = .ok (s.nextPairingId env c r) (s.paired env c r) := rfl

theorem paired_connections_sender {s : Server} {c r : ConnId} {conn : Connection} (env : Env)
    (hc : s.connections c = some conn) (hne : r ≠ c) :
    (s.paired env c r).connections c =
      some { conn with pairingId := s.nextPairingId env c r, state := .senderWaiting } := by
  simp [Server.paired, Server.update, hc, Ne.symm hne]

/-- The length of an encoded introduction, which no list of candidates makes too long for a frame. -/
theorem length_introduction_le {i : PeerIntroduction} (hu : i.username.length ≤ 64)
    (hg : i.groupName.length ≤ 64) (hc : i.candidates.length ≤ 2 ^ 16) :
    i.encode.length ≤ kMaxFrameLength := by
  have hes := length_flatMap_putEndpoint_le i.candidates
  have hgroup : (putGroupName i.groupName).length ≤ 68 := by
    unfold putGroupName
    split <;> simp [putString, putBytes, putU32]
    omega
  simp only [PeerIntroduction.encode, putString, putBytes, putEndpoints, putU8, putU16, putU32, putU64,
    List.length_append, length_leBytes, List.Vector.toList_length, List.length_cons,
    List.length_nil, kMaxFrameLength]
  omega

/-- A hello that the server accepted, seen from an address. -/
structure SaidHello (conn : Connection) (payload : Bytes) (addr : SockAddr) : Prop where
  hello : ClientHello.decode payload = .ok conn.hello
  observed : conn.observedEndpoint = .fromSockaddr addr

theorem SaidHello.candidates_unmapped {conn : Connection} {payload : Bytes} {addr : SockAddr}
    (h : SaidHello conn payload addr) : ∀ e ∈ conn.candidates, e.Unmapped := by
  obtain ⟨-, -, hun⟩ := ClientHello.decode_sound h.hello
  intro e he
  rcases List.mem_append.mp he with he | he
  · exact hun e he
  · rw [List.mem_singleton.mp he, h.observed]
    exact Endpoint.setPort_unmapped (Endpoint.fromSockaddr_unmapped addr) _

variable {s : Server} {env : Env} {c r : ConnId} {frame : Frame} {conn receiver : Connection}
  {request : SendRequest} {payload : Bytes} {addr : SockAddr}

theorem MayIntroduce.ne (h : MayIntroduce s env c frame conn request r receiver) : r ≠ c := by
  rintro rfl
  have hs := h.state
  rw [Option.some.inj (h.connection.symm.trans h.found), h.idle] at hs
  cases hs

def Server.charged (s : Server) (env : Env) (conn : Connection) : Server :=
  { s with rateLimiter := (s.rateLimiter.allowRequest conn.rateLimitKey env.nowMs).2 }

/-- Past its checks, `handle_send_request` is `introduce`. -/
theorem handleSendRequest_eq_introduce (h : MayIntroduce s env c frame conn request r receiver) :
    (handleSendRequest env c frame).run s = (introduce env c r request).run (s.charged env conn) := by
  rw [handleSendRequest, run_bind_ok (run_found h.connection),
    if_neg (not_not.mpr h.state), run_bind_ok (run_allowRequest s _ _), h.allowed]
  change (decoded (SendRequest.decode frame.payload) >>= _).run (s.charged env conn) = _
  rw [h.decoded, run_bind_ok (run_decoded _ _), matchRequest, run_bind_ok (run_sessions _ _)]
  have ht : (s.charged env conn).sessions.lookup (s.charged env conn).alive request.targetUsername =
    some r := h.target
  simp only [ht]
  rw [run_bind_ok (run_connection _ _)]
  have hf : (s.charged env conn).connections r = some receiver := h.found
  rw [hf, Option.getD_some, if_neg (not_not.mpr h.idle)]

theorem length_introductionOf_le (h : MayIntroduce s env c frame conn request r receiver)
    (hh : SaidHello conn payload addr) (pairingId : UInt64) :
    (introductionOf conn request pairingId).encode.length ≤ kMaxFrameLength := by
  obtain ⟨hu, hc, -⟩ := ClientHello.decode_sound hh.hello
  have hg := (SendRequest.decode_sound h.decoded).2
  refine length_introduction_le (isValidUsername_length hu).2 ?_ ?_
  · rcases hg with hg | hg
    · rw [introductionOf, hg]
      simp
    · exact (isValidUsername_length hg).2
  · simp only [introductionOf, Connection.candidates, List.length_append, List.length_singleton]
    omega

/-- `handle_send_request` past its checks: it returns, and enqueues one `Incoming` with the sender's
introduction on the receiver and nothing else. -/
theorem handleSendRequest_introduces (h : MayIntroduce s env c frame conn request r receiver)
    (hh : SaidHello conn payload addr) :
    ∃ s', (handleSendRequest env c frame).run s = .ok () s' ∧
      s'.log = s.log ++
        [(r, Frame.of .incoming (introductionOf conn request (s.nextPairingId env c r)).encode)] := by
  have hlen := length_introductionOf_le h hh (s.nextPairingId env c r)
  have hc : (s.charged env conn).connections c = some conn := h.connection
  rw [handleSendRequest_eq_introduce h, introduce, run_bind_ok (run_pair _ _ _ _),
    run_bind_ok (run_found (paired_connections_sender env hc h.ne))]
  exact ⟨_, (run_bind_ok (run_enqueueFrame _ r hlen)).trans (run_wakeFor _ r), rfl⟩

/-! ## Reading it back -/

theorem reads_takeEndpoints_zero : Reads takeEndpoints (putU16 0) [] :=
  @reads_takeEndpoints [] (by simp) (by simp)

/-- An introduction whose number of candidates is a multiple of `2 ^ 16` announces none. -/
theorem candidates_eq_nil_of_wrapped {i j : PeerIntroduction} (hu : isValidUsername i.username = true)
    (hc : UInt16.ofNat i.candidates.length = 0) (hd : PeerIntroduction.decode i.encode = .ok j) :
    j.candidates = [] := by
  obtain ⟨rest, hr⟩ := decodeWith_eq_ok.mp hd
  simp only [PeerIntroduction.encode, List.append_assoc, putEndpoints, hc] at hr
  obtain ⟨k, _, hr, hgroup⟩ := run_bind_eq_ok.mp hr
  rw [PeerIntroduction.ungroupedDecoder, run_bind_ok (reads_takeName _ hu _),
    run_bind_ok (reads_takeFixed i.identityKey (by omega) _),
    run_bind_ok (reads_takeFixed i.sessionKey (by omega) _),
    run_bind_ok (reads_takeEndpoints_zero _)] at hr
  -- whatever the fields after the list are read as, the list is already settled
  obtain ⟨proof, _, -, hr⟩ := run_bind_eq_ok.mp hr
  obtain ⟨signature, _, -, hr⟩ := run_bind_eq_ok.mp hr
  obtain ⟨pairingId, _, -, hr⟩ := run_bind_eq_ok.mp hr
  obtain ⟨hint, _, -, hr⟩ := run_bind_eq_ok.mp hr
  cases hr
  obtain ⟨group, _, -, hgroup⟩ := run_bind_eq_ok.mp hgroup
  cases hgroup
  rfl

/-- **The receiver reads the introduction back exactly when the hello had fewer than 65535
candidates.** For any hello and request the decoders accepted and any observed address, the handler
returns and enqueues one `Incoming`; its payload decodes to the sender's fields, the pairing id and
the sender's candidates followed by the reflexive endpoint, unless there are 65536 of them. -/
theorem incoming_decodes_iff (h : MayIntroduce s env c frame conn request r receiver)
    (hh : SaidHello conn payload addr) :
    ∃ s' incoming, (handleSendRequest env c frame).run s = .ok () s' ∧
      s'.log = s.log ++ [(r, Frame.of .incoming incoming)] ∧
      (PeerIntroduction.decode incoming = .ok
          { username := conn.hello.username
            identityKey := conn.hello.identityKey
            sessionKey := conn.hello.sessionKey
            candidates := conn.hello.localCandidates ++
              [(Endpoint.fromSockaddr addr).setPort conn.hello.tcpPort]
            proof := request.proof
            signature := request.signature
            pairingId := s.nextPairingId env c r
            transportHint := request.transportHint
            groupName := request.groupName } ↔
        conn.hello.localCandidates.length < 65535) := by
  obtain ⟨s', hrun, hlog⟩ := handleSendRequest_introduces h hh
  refine ⟨s', _, hrun, hlog, ?_⟩
  obtain ⟨hu, hc, -⟩ := ClientHello.decode_sound hh.hello
  rw [← hh.observed]
  constructor
  · intro hd
    by_contra hlen
    have hwrap : UInt16.ofNat (introductionOf conn request (s.nextPairingId env c r)).candidates.length
        = 0 := by
      have : conn.hello.localCandidates.length = 65535 := by omega
      simp [introductionOf, Connection.candidates, this]
    have := candidates_eq_nil_of_wrapped hu hwrap hd
    simp at this
  · intro hlen
    refine PeerIntroduction.decode_encode (i := introductionOf conn request _)
      ⟨hu, ?_, hh.candidates_unmapped, (SendRequest.decode_sound h.decoded).2⟩
    simp only [introductionOf, Connection.candidates, List.length_append, List.length_singleton]
    omega

/-! ## A sender and a receiver -/

def requestForR : SendRequest :=
  { targetUsername := text "r", proof := .replicate 32 0, signature := .replicate 64 0 }

def plainHello (role : ClientRole) (username : Bytes) : ClientHello :=
  { role := role, username := username, identityKey := .replicate 32 0, sessionKey := .replicate 32 0 }

def privateAddress : Block 4 := ⟨[10, 0, 0, 1], rfl⟩

def greeted (hello : ClientHello) : Connection :=
  { state := .senderIdle, hello := hello, helloReceived := true,
    observedEndpoint := .v4 4000 privateAddress }

/-- A sender with this hello as connection 1 and the idle receiver `r` as connection 2. -/
def twoPeers (hello : ClientHello) : Server :=
  { rateLimiter := { saltedHash := fun _ => 0 }
    sessions := { claims := fun u => if u = text "r" then some 2 else none }
    connections := fun c =>
      if c = 1 then some (greeted hello)
      else if c = 2 then some { state := .receiverIdle, claimedUsername := text "r" }
      else none }

theorem twoPeers_mayIntroduce (hello : ClientHello) :
    MayIntroduce (twoPeers hello) { nowMs := 0 } 1 (Frame.of .sendRequest requestForR.encode)
      (greeted hello) requestForR 2 { state := .receiverIdle, claimedUsername := text "r" } where
  connection := rfl
  state := rfl
  allowed := by
    change (({ saltedHash := fun _ => 0 } : RateLimiter).allowRequest 0 0).1 = true
    decide +kernel
  decoded := by decide +kernel
  target := by rfl
  found := rfl
  idle := rfl

theorem twoPeers_saidHello {hello : ClientHello} {payload : Bytes}
    (hd : ClientHello.decode payload = .ok hello) :
    SaidHello (greeted hello) payload (.inet 4000 privateAddress) := ⟨hd, rfl⟩

/-- A hello with as many candidates as the decoder takes. -/
def crowdedHello : ClientHello :=
  { role := .sender, username := text "s", identityKey := .replicate 32 0,
    sessionKey := .replicate 32 0, localCandidates := .replicate 65535 .unspecified }

theorem length_crowdedHello : crowdedHello.localCandidates.length = 65535 := List.length_replicate

theorem crowdedHello_wellFormed : crowdedHello.WellFormed where
  username := by decide
  count := by rw [length_crowdedHello]; omega
  unmapped := by
    intro e he
    rw [(List.mem_replicate.mp he).2]
    trivial

/-- Past a wrapped count, two empty candidates are read as a proof of length 0. -/
theorem decode_of_wrapped {i : PeerIntroduction} {es : List Endpoint}
    (hu : isValidUsername i.username = true) (hc : UInt16.ofNat i.candidates.length = 0)
    (hes : i.candidates = .unspecified :: .unspecified :: es) :
    PeerIntroduction.decode i.encode =
      .error (.error (text "expected a 32 byte field but the frame declares 0")) := by
  have hflat : i.candidates.flatMap putEndpoint =
      putU32 0 ++ ([0, 0] ++ es.flatMap putEndpoint) := by
    rw [hes]
    rfl
  simp only [PeerIntroduction.decode, decodeWith, PeerIntroduction.encode, List.append_assoc,
    putEndpoints, hc]
  rw [hflat, List.append_assoc, PeerIntroduction.decoder, withGroupName, StateT.run_bind,
    PeerIntroduction.ungroupedDecoder, run_bind_ok (reads_takeName _ hu _),
    run_bind_ok (reads_takeFixed i.identityKey (by omega) _),
    run_bind_ok (reads_takeFixed i.sessionKey (by omega) _),
    run_bind_ok (reads_takeEndpoints_zero _), StateT.run_bind, takeFixed,
    run_bind_ok (reads_takeU32 0 _)]
  rfl

/-- **The receiver cannot read an introduction with 65536 candidates.** The server accepts the
crowded hello and the request, and what it enqueues on the receiver makes the decoder throw. -/
theorem incoming_not_decodable :
    ClientHello.decode crowdedHello.encode = .ok crowdedHello ∧
    ∃ s' incoming,
      (handleSendRequest { nowMs := 0 } 1 (Frame.of .sendRequest requestForR.encode)).run
        (twoPeers crowdedHello) = .ok () s' ∧
      s'.log = [(2, Frame.of .incoming incoming)] ∧
      PeerIntroduction.decode incoming =
        .error (.error (text "expected a 32 byte field but the frame declares 0")) := by
  have hd := ClientHello.decode_encode crowdedHello_wellFormed
  refine ⟨hd, ?_⟩
  obtain ⟨s', hrun, hlog⟩ := handleSendRequest_introduces (twoPeers_mayIntroduce crowdedHello)
    (twoPeers_saidHello hd)
  refine ⟨s', _, hrun, hlog, decode_of_wrapped (by decide) ?_ rfl⟩
  have hlen : (greeted crowdedHello).hello.localCandidates.length = 65535 := length_crowdedHello
  rw [introductionOf, Connection.candidates, List.length_append, hlen, List.length_singleton]
  rfl

/-- A sender with one candidate is introduced and read back, with the address that the server saw. -/
theorem incoming_decodes_candidate :
    ∃ s' incoming,
      (handleSendRequest { nowMs := 0 } 1 (Frame.of .sendRequest requestForR.encode)).run
        (twoPeers { crowdedHello with localCandidates := [.v4 80 privateAddress] }) = .ok () s' ∧
      s'.log = [(2, Frame.of .incoming incoming)] ∧
      PeerIntroduction.decode incoming = .ok
        { username := text "s", identityKey := .replicate 32 0, sessionKey := .replicate 32 0
          candidates := [.v4 80 privateAddress, .v4 0 privateAddress], proof := .replicate 32 0
          signature := .replicate 64 0, pairingId := 1, transportHint := .none, groupName := [] } := by
  have hd : ClientHello.decode (ClientHello.encode { crowdedHello with
    localCandidates := [.v4 80 privateAddress] }) =
      .ok { crowdedHello with localCandidates := [.v4 80 privateAddress] } := by decide +kernel
  obtain ⟨s', incoming, hrun, hlog, hiff⟩ := incoming_decodes_iff (twoPeers_mayIntroduce _)
    (twoPeers_saidHello hd)
  exact ⟨s', incoming, hrun, hlog, hiff.mpr (by decide)⟩

end DropZone
