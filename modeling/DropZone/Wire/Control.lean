import DropZone.Wire.Frame

/-!
# Control-plane messages (`common/src/protocol.cpp`)

The messages between a client and the rendezvous server. Each has `encode`, a `decoder` that runs
over the payload's bytes and `decode`, which runs it on a whole payload and ignores what is left.

* `format`: the encoder, the decoder and the messages that survive both, which `WellFormed` names.
* `ClientHello.decode_sound`, `SendRequest.decode_sound`: what the server knows of a message it
  accepted.
-/

namespace DropZone

open LittleEndian Parser

def kMaxUsernameLength : Nat := 64

def kMaxGroupMembers : Nat := 32

/-! ## Names -/

/-- `a`-`z`, `0`-`9`, `-`, `_` and `.`. -/
def usernameChar (c : UInt8) : Bool :=
  (97 ≤ c && c ≤ 122) || (48 ≤ c && c ≤ 57) || c == 45 || c == 95 || c == 46

/-- `is_valid_username`: also the rule for group names. -/
def isValidUsername (username : Bytes) : Bool :=
  username.length != 0 && username.length ≤ kMaxUsernameLength && username.all usernameChar &&
    username.head? != some 46

theorem isValidUsername_length {u : Bytes} (h : isValidUsername u = true) :
    0 < u.length ∧ u.length ≤ 64 := by
  simp only [isValidUsername, Bool.and_eq_true, bne_iff_ne, decide_eq_true_eq] at h
  have hmax : kMaxUsernameLength = 64 := rfl
  omega

/-! ## Enumerations -/

inductive TransportKind where
  | none | directTcp | holePunchUdp | serverRelay
  deriving DecidableEq

namespace TransportKind

def toU8 : TransportKind → UInt8
  | none => 0 | directTcp => 1 | holePunchUdp => 2 | serverRelay => 3

/-- The kind of a byte, if it has one. -/
def ofU8? (b : UInt8) : Option TransportKind :=
  match b.toNat with
  | 0 => some .none | 1 => some .directTcp | 2 => some .holePunchUdp | 3 => some .serverRelay
  | _ => Option.none

theorem ofU8?_toU8 (k : TransportKind) : ofU8? k.toU8 = some k := by cases k <;> rfl

end TransportKind

inductive ClientRole where
  | receiver | sender
  deriving DecidableEq

namespace ClientRole

def toU8 : ClientRole → UInt8
  | receiver => 1 | sender => 2

def ofU8? (b : UInt8) : Option ClientRole :=
  match b.toNat with
  | 1 => some .receiver | 2 => some .sender | _ => Option.none

theorem ofU8?_toU8 (r : ClientRole) : ofU8? r.toU8 = some r := by cases r <;> rfl

end ClientRole

inductive GroupJoinOutcome where
  | created | joined | wrongPassword | invalidName | full | alreadyMember
  deriving DecidableEq

namespace GroupJoinOutcome

def toU8 : GroupJoinOutcome → UInt8
  | created => 1 | joined => 2 | wrongPassword => 3 | invalidName => 4 | full => 5
  | alreadyMember => 6

def ofU8? (b : UInt8) : Option GroupJoinOutcome :=
  match b.toNat with
  | 1 => some .created | 2 => some .joined | 3 => some .wrongPassword | 4 => some .invalidName
  | 5 => some .full | 6 => some .alreadyMember | _ => Option.none

theorem ofU8?_toU8 (o : GroupJoinOutcome) : ofU8? o.toU8 = some o := by cases o <;> rfl

end GroupJoinOutcome

/-- Reads a byte that `ofU8?` has to know. -/
def takeEnum {α : Type} (ofU8? : UInt8 → Option α) (unknown : Bytes) : Reader α := do
  let b ← takeU8
  match ofU8? b with
  | some v => pure v
  | none => throw (.error unknown)

/-- Reads a string that has to be a valid name. -/
def takeName (invalid : Bytes) : Reader Bytes := do
  let name ← takeString
  check (isValidUsername name = true) (.error invalid)
  pure name

/-- The optional last field of an introduction: a group name, empty when there is none. -/
def putGroupName (groupName : Bytes) : Bytes :=
  if groupName = [] then [] else putString groupName

def takeGroupName (invalid : Bytes) : Reader Bytes := do
  let left ← remaining
  if left = 0 then pure []
  else do
    let groupName ← takeString
    check (groupName = [] ∨ isValidUsername groupName = true) (.error invalid)
    pure groupName

/-- A decoder whose last field is the optional group name. -/
def withGroupName {α : Type} (body : Reader α) (invalid : Bytes) (set : α → Bytes → α) : Reader α := do
  let m ← body
  let groupName ← takeGroupName invalid
  pure (set m groupName)

/-- Runs a decoder on a whole payload. -/
def decodeWith {α : Type} (decoder : Reader α) (payload : Bytes) : Except Failure α :=
  (decoder.run payload).map Prod.fst

/-! ## ClientHello -/

structure ClientHello where
  role : ClientRole := .receiver
  username : Bytes
  identityKey : Block 32
  sessionKey : Block 32
  tcpPort : UInt16 := 0
  udpPort : UInt16 := 0
  localCandidates : List Endpoint := []
  deriving DecidableEq

namespace ClientHello

def encode (h : ClientHello) : Bytes :=
  putU8 h.role.toU8 ++ putString h.username ++ putBytes h.identityKey.toList ++
    putBytes h.sessionKey.toList ++ putU16 h.tcpPort ++ putU16 h.udpPort ++
    putEndpoints h.localCandidates

def decoder : Reader ClientHello := do
  let role ← takeEnum ClientRole.ofU8? (text "ClientHello carries an unknown role")
  let username ← takeName (text "ClientHello carries an invalid username")
  let identityKey ← takeFixed 32
  let sessionKey ← takeFixed 32
  let tcpPort ← takeU16
  let udpPort ← takeU16
  let localCandidates ← takeEndpoints
  pure { role, username, identityKey, sessionKey, tcpPort, udpPort, localCandidates }

def decode (payload : Bytes) : Except Failure ClientHello := decodeWith decoder payload

end ClientHello

/-! ## ServerHello -/

structure ServerHello where
  claimAccepted : Bool := true
  message : Bytes := []
  reflexiveTcp : Endpoint := .unspecified
  reflexiveUdp : Endpoint := .unspecified
  idleTimeoutSeconds : UInt32 := 300
  deriving DecidableEq

namespace ServerHello

def encode (h : ServerHello) : Bytes :=
  putBool h.claimAccepted ++ putString h.message ++ putEndpoint h.reflexiveTcp ++
    putEndpoint h.reflexiveUdp ++ putU32 h.idleTimeoutSeconds

def decoder : Reader ServerHello := do
  let claimAccepted ← takeBool
  let message ← takeString
  let reflexiveTcp ← takeEndpoint
  let reflexiveUdp ← takeEndpoint
  let idleTimeoutSeconds ← takeU32
  pure { claimAccepted, message, reflexiveTcp, reflexiveUdp, idleTimeoutSeconds }

def decode (payload : Bytes) : Except Failure ServerHello := decodeWith decoder payload

end ServerHello

/-! ## SendRequest -/

structure SendRequest where
  targetUsername : Bytes
  proof : Block 32
  signature : Block 64
  transportHint : TransportKind := .none
  groupName : Bytes := []
  deriving DecidableEq

namespace SendRequest

def encode (r : SendRequest) : Bytes :=
  putString r.targetUsername ++ putBytes r.proof.toList ++ putBytes r.signature.toList ++
    putU8 r.transportHint.toU8 ++ putGroupName r.groupName

/-- The fields before the group name. -/
def ungroupedDecoder : Reader SendRequest := do
  let targetUsername ← takeName (text "SendRequest names an invalid username")
  let proof ← takeFixed 32
  let signature ← takeFixed 64
  let transportHint ← takeEnum TransportKind.ofU8? (text "SendRequest names an unknown transport")
  pure { targetUsername, proof, signature, transportHint }

def decoder : Reader SendRequest :=
  withGroupName ungroupedDecoder (text "SendRequest names an invalid group") fun r groupName =>
    { r with groupName }

def decode (payload : Bytes) : Except Failure SendRequest := decodeWith decoder payload

end SendRequest

/-! ## PeerIntroduction -/

structure PeerIntroduction where
  username : Bytes
  identityKey : Block 32
  sessionKey : Block 32
  candidates : List Endpoint := []
  proof : Block 32
  signature : Block 64
  pairingId : UInt64 := 0
  transportHint : TransportKind := .none
  groupName : Bytes := []
  deriving DecidableEq

namespace PeerIntroduction

def encode (i : PeerIntroduction) : Bytes :=
  putString i.username ++ putBytes i.identityKey.toList ++ putBytes i.sessionKey.toList ++
    putEndpoints i.candidates ++ putBytes i.proof.toList ++ putBytes i.signature.toList ++
    putU64 i.pairingId ++ putU8 i.transportHint.toU8 ++ putGroupName i.groupName

/-- The fields before the group name. -/
def ungroupedDecoder : Reader PeerIntroduction := do
  let username ← takeName (text "peer introduction carries an invalid username")
  let identityKey ← takeFixed 32
  let sessionKey ← takeFixed 32
  let candidates ← takeEndpoints
  let proof ← takeFixed 32
  let signature ← takeFixed 64
  let pairingId ← takeU64
  let transportHint ←
    takeEnum TransportKind.ofU8? (text "peer introduction names an unknown transport")
  pure { username, identityKey, sessionKey, candidates, proof, signature, pairingId, transportHint }

def decoder : Reader PeerIntroduction :=
  withGroupName ungroupedDecoder (text "peer introduction names an invalid group") fun i groupName =>
    { i with groupName }

def decode (payload : Bytes) : Except Failure PeerIntroduction := decodeWith decoder payload

end PeerIntroduction

/-! ## Groups -/

/-- `GroupQuery`: does this group exist? -/
structure GroupQuery where
  name : Bytes
  deriving DecidableEq

def GroupQuery.encode (q : GroupQuery) : Bytes := putString q.name

def GroupQuery.decoder : Reader GroupQuery := do
  let name ← takeName (text "GroupQuery names an invalid group")
  pure { name }

def GroupQuery.decode (payload : Bytes) : Except Failure GroupQuery := decodeWith decoder payload

structure GroupStatus where
  exist : Bool := false
  memberCount : UInt32 := 0
  deriving DecidableEq

def GroupStatus.encode (s : GroupStatus) : Bytes := putBool s.exist ++ putU32 s.memberCount

def GroupStatus.decoder : Reader GroupStatus := do
  let exist ← takeBool
  let memberCount ← takeU32
  pure { exist, memberCount }

def GroupStatus.decode (payload : Bytes) : Except Failure GroupStatus := decodeWith decoder payload

structure GroupJoin where
  name : Bytes
  verifier : Block 32
  deriving DecidableEq

def GroupJoin.encode (j : GroupJoin) : Bytes := putString j.name ++ putBytes j.verifier.toList

def GroupJoin.decoder : Reader GroupJoin := do
  let name ← takeName (text "GroupJoin names an invalid group")
  let verifier ← takeFixed 32
  pure { name, verifier }

def GroupJoin.decode (payload : Bytes) : Except Failure GroupJoin := decodeWith decoder payload

structure GroupResult where
  outcome : GroupJoinOutcome := .joined
  message : Bytes := []
  memberCount : UInt32 := 0
  deriving DecidableEq

def GroupResult.encode (r : GroupResult) : Bytes :=
  putU8 r.outcome.toU8 ++ putString r.message ++ putU32 r.memberCount

def GroupResult.decoder : Reader GroupResult := do
  let outcome ← takeEnum GroupJoinOutcome.ofU8? (text "GroupResult carries an unknown outcome")
  let message ← takeString
  let memberCount ← takeU32
  pure { outcome, message, memberCount }

def GroupResult.decode (payload : Bytes) : Except Failure GroupResult := decodeWith decoder payload

structure GroupSendRequest where
  name : Bytes
  deriving DecidableEq

def GroupSendRequest.encode (r : GroupSendRequest) : Bytes := putString r.name

def GroupSendRequest.decoder : Reader GroupSendRequest := do
  let name ← takeName (text "GroupSendRequest names an invalid group")
  pure { name }

def GroupSendRequest.decode (payload : Bytes) : Except Failure GroupSendRequest :=
  decodeWith decoder payload

structure GroupRoster where
  usernames : List Bytes := []
  deriving DecidableEq

def GroupRoster.encode (r : GroupRoster) : Bytes :=
  putU16 (UInt16.ofNat r.usernames.length) ++ r.usernames.flatMap putString

def GroupRoster.decoder : Reader GroupRoster := do
  let n ← takeU16
  check (n.toNat ≤ kMaxGroupMembers)
    (.error (text "GroupRoster lists more members than the protocol allows"))
  let usernames ← count (takeName (text "GroupRoster names an invalid username")) n.toNat
  pure { usernames }

def GroupRoster.decode (payload : Bytes) : Except Failure GroupRoster := decodeWith decoder payload

/-! ## Reading back -/

variable {payload : Bytes} {α : Type} {i : PeerIntroduction}

theorem decodeWith_eq_ok {decoder : Reader α} {v : α} :
    decodeWith decoder payload = .ok v ↔ ∃ rest, decoder.run payload = .ok (v, rest) := by
  unfold decodeWith
  cases h : decoder.run payload with
  | error e => simp [Except.map]
  | ok r =>
    obtain ⟨w, rest⟩ := r
    simp [Except.map]

theorem reads_takeEnum {ofU8? : UInt8 → Option α} {b : UInt8} {v : α} (unknown : Bytes)
    (h : ofU8? b = some v) : Reads (takeEnum ofU8? unknown) (putU8 b) v := by
  refine (reads_takeU8 b).bind_nil ?_
  rw [h]
  exact Reads.pure v

theorem reads_takeName {name : Bytes} (invalid : Bytes) (h : isValidUsername name = true) :
    Reads (takeName invalid) (putString name) name := by
  have hlen := isValidUsername_length h
  exact (reads_takeString (by omega)).bind_nil ((reads_check h).nil_bind (Reads.pure name))

theorem finishes_takeGroupName {groupName : Bytes} (invalid : Bytes)
    (h : groupName = [] ∨ isValidUsername groupName = true) :
    Finishes (takeGroupName invalid) (putGroupName groupName) groupName := by
  by_cases he : groupName = []
  · rw [he]
    rfl
  · have hv : isValidUsername groupName = true := h.resolve_left he
    have hlen := isValidUsername_length hv
    rw [putGroupName, if_neg he, Finishes, takeGroupName, run_bind_ok (run_remaining _),
      if_neg (by simp [putString, putBytes, putU32])]
    exact ((reads_takeString (by omega)).bind_nil
      ((reads_check h).nil_bind (Reads.pure groupName))).finishes

theorem finishes_withGroupName {body : Reader α} {bytes : Bytes} {m : α}
    (hbody : Reads body bytes m) {groupName : Bytes} (invalid : Bytes) (set : α → Bytes → α)
    (h : groupName = [] ∨ isValidUsername groupName = true) :
    Finishes (withGroupName body invalid set) (bytes ++ putGroupName groupName) (set m groupName) := by
  refine hbody.bind_finishes ?_
  unfold Finishes
  rw [run_bind_ok (finishes_takeGroupName invalid h)]
  rfl

theorem decode_of_finishes {decoder : Reader α} {v : α}
    (h : Finishes decoder payload v) : decodeWith decoder payload = .ok v :=
  decodeWith_eq_ok.mpr ⟨[], h⟩

/-! ## What the fields' decoders accept -/

theorem yields_takeName (invalid : Bytes) :
    Yields (takeName invalid) fun name => isValidUsername name = true :=
  (yields_any _).bind fun _ _ => (yields_check _ _).bind fun _ h => Yields.pure h

theorem yields_takeGroupName (invalid : Bytes) :
    Yields (takeGroupName invalid) fun g => g = [] ∨ isValidUsername g = true := by
  refine (yields_any _).bind fun left _ => ?_
  split
  · exact Yields.pure (Or.inl rfl)
  · exact (yields_any _).bind fun _ _ => (yields_check _ _).bind fun _ h => Yields.pure h

theorem yields_withGroupName {body : Reader α} (invalid : Bytes) (set : α → Bytes → α)
    {P : α → Prop}
    (hbody : Yields body fun m => ∀ g, g = [] ∨ isValidUsername g = true → P (set m g)) :
    Yields (withGroupName body invalid set) P :=
  hbody.bind fun _ hm => (yields_takeGroupName invalid).bind fun g hg => Yields.pure (hm g hg)

/-! ## Formats -/

/-- What `ClientHello.decode` accepts. -/
structure ClientHello.WellFormed (h : ClientHello) : Prop where
  username : isValidUsername h.username = true
  count : h.localCandidates.length < 2 ^ 16
  unmapped : ∀ e ∈ h.localCandidates, e.Unmapped

def ClientHello.format : Format Failure ClientHello where
  encode := encode
  decoder := decoder
  Valid := WellFormed
  finishes {h} hw := by
    simp only [encode, List.append_assoc]
    refine (reads_takeEnum _ (ClientRole.ofU8?_toU8 h.role)).bind_finishes ?_
    refine (reads_takeName _ hw.username).bind_finishes ?_
    refine (reads_takeFixed h.identityKey (by omega)).bind_finishes ?_
    refine (reads_takeFixed h.sessionKey (by omega)).bind_finishes ?_
    refine (reads_takeU16 h.tcpPort).bind_finishes ?_
    refine (reads_takeU16 h.udpPort).bind_finishes ?_
    refine Reads.finishes ((reads_takeEndpoints hw.count hw.unmapped).bind_nil ?_)
    exact Reads.pure h
  yields := (yields_any _).bind fun _ _ => (yields_takeName _).bind fun _ hu =>
    (yields_any _).bind fun _ _ => (yields_any _).bind fun _ _ => (yields_any _).bind fun _ _ =>
    (yields_any _).bind fun _ _ => yields_takeEndpoints.bind fun _ hc =>
    Yields.pure ⟨hu, hc.1, hc.2⟩

theorem ClientHello.decode_encode {h : ClientHello} (hw : h.WellFormed) :
    decode h.encode = .ok h := decode_of_finishes (format.finishes hw)

/-- A hello that the server accepts has a valid name and fewer than `2 ^ 16` candidates. -/
theorem ClientHello.decode_sound {h : ClientHello} (hd : decode payload = .ok h) :
    isValidUsername h.username = true ∧ h.localCandidates.length < 2 ^ 16 ∧
      ∀ e ∈ h.localCandidates, e.Unmapped := by
  obtain ⟨rest, hr⟩ := decodeWith_eq_ok.mp hd
  obtain ⟨husername, hcount, hunmapped⟩ := format.yields hr
  exact ⟨husername, hcount, hunmapped⟩

/-- What `ServerHello.decode` accepts. -/
structure ServerHello.WellFormed (h : ServerHello) : Prop where
  message : h.message.length < 2 ^ 32
  tcp : h.reflexiveTcp.Unmapped
  udp : h.reflexiveUdp.Unmapped

def ServerHello.format : Format Failure ServerHello where
  encode := encode
  decoder := decoder
  Valid := WellFormed
  finishes {h} hw := by
    simp only [encode, List.append_assoc]
    refine (reads_takeBool h.claimAccepted).bind_finishes ?_
    refine (reads_takeString hw.message).bind_finishes ?_
    refine (reads_takeEndpoint hw.tcp).bind_finishes ?_
    refine (reads_takeEndpoint hw.udp).bind_finishes ?_
    exact ((reads_takeU32 h.idleTimeoutSeconds).bind_nil (Reads.pure h)).finishes
  yields := (yields_any _).bind fun _ _ => yields_takeString.bind fun _ hm =>
    yields_takeEndpoint.bind fun _ ht => yields_takeEndpoint.bind fun _ hu =>
    (yields_any _).bind fun _ _ => Yields.pure ⟨hm, ht, hu⟩

/-- What `SendRequest.decode` accepts. -/
structure SendRequest.WellFormed (r : SendRequest) : Prop where
  username : isValidUsername r.targetUsername = true
  group : r.groupName = [] ∨ isValidUsername r.groupName = true

theorem SendRequest.encode_eq (r : SendRequest) :
    r.encode = { r with groupName := [] }.encode ++ putGroupName r.groupName := by
  simp [encode, putGroupName]

theorem SendRequest.reads_ungrouped {r : SendRequest} (h : isValidUsername r.targetUsername = true) :
    Reads ungroupedDecoder { r with groupName := [] }.encode { r with groupName := [] } := by
  simp only [encode, putGroupName, if_pos, List.append_assoc]
  refine (reads_takeName _ h).bind ?_
  refine (reads_takeFixed r.proof (by omega)).bind ?_
  refine (reads_takeFixed r.signature (by omega)).bind ?_
  exact (reads_takeEnum _ (TransportKind.ofU8?_toU8 r.transportHint)).bind (Reads.pure _)

def SendRequest.format : Format Failure SendRequest where
  encode := encode
  decoder := decoder
  Valid := WellFormed
  finishes {r} h := by
    rw [encode_eq]
    exact finishes_withGroupName (reads_ungrouped h.username) _ _ h.group
  yields := yields_withGroupName _ _ ((yields_takeName _).bind fun _ hu => (yields_any _).bind fun _ _ =>
    (yields_any _).bind fun _ _ => (yields_any _).bind fun _ _ => Yields.pure fun _ hg => ⟨hu, hg⟩)

/-- A request that the server accepts names a valid user and no group or a valid one. -/
theorem SendRequest.decode_sound {r : SendRequest} (hd : decode payload = .ok r) :
    isValidUsername r.targetUsername = true ∧
      (r.groupName = [] ∨ isValidUsername r.groupName = true) := by
  obtain ⟨rest, hr⟩ := decodeWith_eq_ok.mp hd
  obtain ⟨husername, hgroup⟩ := format.yields hr
  exact ⟨husername, hgroup⟩

/-- What `PeerIntroduction.decode` accepts. -/
structure PeerIntroduction.WellFormed (i : PeerIntroduction) : Prop where
  username : isValidUsername i.username = true
  count : i.candidates.length < 2 ^ 16
  unmapped : ∀ e ∈ i.candidates, e.Unmapped
  group : i.groupName = [] ∨ isValidUsername i.groupName = true

theorem PeerIntroduction.encode_eq (i : PeerIntroduction) :
    i.encode = { i with groupName := [] }.encode ++ putGroupName i.groupName := by
  simp [encode, putGroupName]

theorem PeerIntroduction.reads_ungrouped (h : i.WellFormed) :
    Reads ungroupedDecoder { i with groupName := [] }.encode { i with groupName := [] } := by
  simp only [encode, putGroupName, if_pos, List.append_assoc]
  refine (reads_takeName _ h.username).bind ?_
  refine (reads_takeFixed i.identityKey (by omega)).bind ?_
  refine (reads_takeFixed i.sessionKey (by omega)).bind ?_
  refine (reads_takeEndpoints h.count h.unmapped).bind ?_
  refine (reads_takeFixed i.proof (by omega)).bind ?_
  refine (reads_takeFixed i.signature (by omega)).bind ?_
  refine (reads_takeU64 i.pairingId).bind ?_
  exact (reads_takeEnum _ (TransportKind.ofU8?_toU8 i.transportHint)).bind (Reads.pure _)

def PeerIntroduction.format : Format Failure PeerIntroduction where
  encode := encode
  decoder := decoder
  Valid := WellFormed
  finishes {i} h := by
    rw [encode_eq]
    exact finishes_withGroupName (reads_ungrouped h) _ _ h.group
  yields := yields_withGroupName _ _ ((yields_takeName _).bind fun _ hu => (yields_any _).bind fun _ _ =>
    (yields_any _).bind fun _ _ => yields_takeEndpoints.bind fun _ hc => (yields_any _).bind fun _ _ =>
    (yields_any _).bind fun _ _ => (yields_any _).bind fun _ _ => (yields_any _).bind fun _ _ =>
    Yields.pure fun _ hg => ⟨hu, hc.1, hc.2, hg⟩)

theorem PeerIntroduction.decode_encode (h : i.WellFormed) :
    decode i.encode = .ok i := decode_of_finishes (format.finishes h)

/-- An introduction that a client accepts names a valid user and no group or a valid one. -/
theorem PeerIntroduction.decode_sound (hd : decode payload = .ok i) :
    isValidUsername i.username = true ∧
      (i.groupName = [] ∨ isValidUsername i.groupName = true) := by
  obtain ⟨rest, hr⟩ := decodeWith_eq_ok.mp hd
  obtain ⟨husername, -, -, hgroup⟩ := format.yields hr
  exact ⟨husername, hgroup⟩

def GroupQuery.format : Format Failure GroupQuery where
  encode := encode
  decoder := decoder
  Valid q := isValidUsername q.name = true
  finishes {q} h := ((reads_takeName _ h).bind_nil (Reads.pure q)).finishes
  yields := (yields_takeName _).bind fun _ h => Yields.pure h

def GroupStatus.format : Format Failure GroupStatus where
  encode := encode
  decoder := decoder
  Valid _ := True
  finishes {s} _ :=
    (reads_takeBool s.exist).bind_finishes
      ((reads_takeU32 s.memberCount).bind_nil (Reads.pure s)).finishes
  yields := yields_any _

def GroupJoin.format : Format Failure GroupJoin where
  encode := encode
  decoder := decoder
  Valid j := isValidUsername j.name = true
  finishes {j} h :=
    (reads_takeName _ h).bind_finishes
      ((reads_takeFixed j.verifier (by omega)).bind_nil (Reads.pure j)).finishes
  yields := (yields_takeName _).bind fun _ h => (yields_any _).bind fun _ _ => Yields.pure h

theorem GroupJoin.decode_valid {join : GroupJoin}
    (h : GroupJoin.decode payload = .ok join) : isValidUsername join.name = true := by
  obtain ⟨rest, hr⟩ := decodeWith_eq_ok.mp h
  exact format.yields hr

def GroupResult.format : Format Failure GroupResult where
  encode := encode
  decoder := decoder
  Valid r := r.message.length < 2 ^ 32
  finishes {r} h := by
    simp only [encode, List.append_assoc]
    refine (reads_takeEnum _ (GroupJoinOutcome.ofU8?_toU8 r.outcome)).bind_finishes ?_
    refine (reads_takeString h).bind_finishes ?_
    exact ((reads_takeU32 r.memberCount).bind_nil (Reads.pure r)).finishes
  yields := (yields_any _).bind fun _ _ => yields_takeString.bind fun _ h =>
    (yields_any _).bind fun _ _ => Yields.pure h

def GroupSendRequest.format : Format Failure GroupSendRequest where
  encode := encode
  decoder := decoder
  Valid r := isValidUsername r.name = true
  finishes {r} h := ((reads_takeName _ h).bind_nil (Reads.pure r)).finishes
  yields := (yields_takeName _).bind fun _ h => Yields.pure h

/-- What `GroupRoster.decode` accepts. -/
structure GroupRoster.WellFormed (r : GroupRoster) : Prop where
  count : r.usernames.length ≤ kMaxGroupMembers
  usernames : ∀ u ∈ r.usernames, isValidUsername u = true

def GroupRoster.format : Format Failure GroupRoster where
  encode := encode
  decoder := decoder
  Valid := WellFormed
  finishes {r} h := by
    have hn : (UInt16.ofNat r.usernames.length).toNat = r.usernames.length :=
      Nat.mod_eq_of_lt (Nat.lt_of_le_of_lt h.count (by decide))
    refine (reads_takeU16 _).bind_finishes ?_
    rw [hn]
    refine Reads.finishes ((reads_check h.count).nil_bind ?_)
    exact (reads_count fun u hu => reads_takeName _ (h.usernames u hu)).bind_nil (Reads.pure r)
  yields := (yields_any _).bind fun _ _ => (yields_check _ _).bind fun _ hn =>
    (yields_count (yields_takeName _) _).bind fun _ hus => Yields.pure ⟨hus.1 ▸ hn, hus.2⟩

theorem GroupRoster.decode_encode {r : GroupRoster} (hlen : r.usernames.length ≤ kMaxGroupMembers)
    (hvalid : ∀ u ∈ r.usernames, isValidUsername u = true) : decode r.encode = .ok r :=
  decode_of_finishes (format.finishes ⟨hlen, hvalid⟩)

end DropZone
