import DropZone.Wire.Transfer

/-!
# Every message on the wire

The reply to a reflexive probe, and all messages of the protocol side by side.

* `MessageKind`: the kinds of messages; `Value`, `encode`, `decode` and `WellFormed` of each.
* `wire_round_trip`: a well-formed message of any kind survives the wire; `long_reason_lost`: a text
  of `2 ^ 32` bytes does not, for its length is written in 32 bits.
* `truncation_detected`: no decoder accepts a cut message, but for a cut right before the optional
  group name at the end of a request or an introduction.
-/

namespace DropZone

open LittleEndian Parser

/-- The endpoints that are not mapped are those that the code makes. -/
theorem Endpoint.unmapped_iff {e : Endpoint} :
    e.Unmapped ↔ e = .unspecified ∨ ∃ a, e = .fromSockaddr a := by
  constructor
  · intro h
    cases e with
    | unspecified => exact .inl rfl
    | v4 port address => exact .inr ⟨.inet port address, rfl⟩
    | v6 port address =>
      refine .inr ⟨.inet6 port address, ?_⟩
      rw [fromSockaddr, if_neg (by simpa [Unmapped] using h)]
  · rintro (rfl | ⟨a, rfl⟩)
    · trivial
    · exact fromSockaddr_unmapped a

/-! ## The reflexive reply -/

def kReflexiveReplyMagic : Bytes := text "DZR2"

/-- `encode_reflexive_reply`, into a buffer of `capacity` bytes. -/
def encodeReflexiveReply (observed : Endpoint) (capacity : Nat) : Except Failure Bytes :=
  let bytes := kReflexiveReplyMagic ++ putEndpoint observed
  if bytes.length > capacity then
    .error (.error (text "reflexive reply does not fit in the datagram buffer"))
  else .ok bytes

/-- `decode_reflexive_reply`: a malformed reply is no reply. -/
def decodeReflexiveReply (data : Bytes) : Option Endpoint :=
  if data.length < kReflexiveReplyMagic.length then none
  else if data.take kReflexiveReplyMagic.length ≠ kReflexiveReplyMagic then none
  else (decodeWith takeEndpoint (data.drop kReflexiveReplyMagic.length)).toOption

theorem encodeReflexiveReply_eq_ok {observed : Endpoint} {capacity : Nat} {bytes : Bytes} :
    encodeReflexiveReply observed capacity = .ok bytes ↔
      (kReflexiveReplyMagic ++ putEndpoint observed).length ≤ capacity ∧
        bytes = kReflexiveReplyMagic ++ putEndpoint observed := by
  simp only [encodeReflexiveReply]
  split
  · rename_i h
    exact ⟨nofun, fun h' => absurd h'.1 (Nat.not_le.mpr h)⟩
  · rename_i h
    exact ⟨fun h' => ⟨Nat.not_lt.mp h, (Except.ok.inj h').symm⟩, fun h' => by rw [h'.2]⟩

theorem encodeReflexiveReply_fits (observed : Endpoint) {capacity : Nat} (h : 23 ≤ capacity) :
    encodeReflexiveReply observed capacity = .ok (kReflexiveReplyMagic ++ putEndpoint observed) := by
  refine encodeReflexiveReply_eq_ok.mpr ⟨?_, rfl⟩
  have hmagic : kReflexiveReplyMagic.length = 4 := rfl
  have := length_putEndpoint_le observed
  rw [List.length_append]
  omega

theorem decodeReflexiveReply_magic (rest : Bytes) :
    decodeReflexiveReply (kReflexiveReplyMagic ++ rest) = (decodeWith takeEndpoint rest).toOption := by
  rw [decodeReflexiveReply, List.length_append, if_neg (by omega), List.take_left,
    if_neg (not_not.mpr rfl), List.drop_left]

/-! ## Kinds of messages -/

/-- The messages that are the whole payload of a frame. -/
inductive PayloadKind where
  | clientHello | serverHello | sendRequest | peerIntroduction | groupQuery | groupStatus | groupJoin
  | groupResult | groupSendRequest | groupRoster | transferOffer | transferDecision
  deriving DecidableEq

namespace PayloadKind

@[reducible] def Value : PayloadKind → Type
  | clientHello => ClientHello
  | serverHello => ServerHello
  | sendRequest => SendRequest
  | peerIntroduction => PeerIntroduction
  | groupQuery => GroupQuery
  | groupStatus => GroupStatus
  | groupJoin => GroupJoin
  | groupResult => GroupResult
  | groupSendRequest => GroupSendRequest
  | groupRoster => GroupRoster
  | transferOffer => TransferOffer
  | transferDecision => TransferDecision

def format : (k : PayloadKind) → Format Failure k.Value
  | clientHello => ClientHello.format
  | serverHello => ServerHello.format
  | sendRequest => SendRequest.format
  | peerIntroduction => PeerIntroduction.format
  | groupQuery => GroupQuery.format
  | groupStatus => GroupStatus.format
  | groupJoin => GroupJoin.format
  | groupResult => GroupResult.format
  | groupSendRequest => GroupSendRequest.format
  | groupRoster => GroupRoster.format
  | transferOffer => TransferOffer.format
  | transferDecision => TransferDecision.format

end PayloadKind

inductive MessageKind where
  | frameHeader
  | payload (k : PayloadKind)
  | chunkHeader
  | reflexiveReply
  deriving DecidableEq

namespace MessageKind

@[reducible] def Value : MessageKind → Type
  | frameHeader => FrameHeader
  | payload k => k.Value
  | chunkHeader => ChunkHeader
  | reflexiveReply => Endpoint

/-- The encoder of each kind; only the reflexive reply is written into a buffer of limited size. -/
def encode (capacity : Nat) : (k : MessageKind) → k.Value → Except Failure Bytes
  | frameHeader, m => .ok (encodeFrameHeader m)
  | payload k, m => .ok (k.format.encode m)
  | chunkHeader, m => .ok (encodeChunkHeader m)
  | reflexiveReply, m => encodeReflexiveReply m capacity

/-- The decoder of each kind; the two headers are decoded from buffers of just their size. -/
def decode : (k : MessageKind) → Bytes → Option k.Value
  | frameHeader, bytes =>
    if h : bytes.length = kFrameHeaderSize then (decodeFrameHeader ⟨bytes, h⟩).toOption else none
  | payload k, bytes => (decodeWith k.format.decoder bytes).toOption
  | chunkHeader, bytes =>
    if bytes.length = kChunkHeaderSize then some (decodeChunkHeader bytes) else none
  | reflexiveReply, bytes => decodeReflexiveReply bytes

/-- Names are valid, paths safe, numbers in range, endpoints made by the code, texts shorter than
`2 ^ 32` bytes. -/
def WellFormed : (k : MessageKind) → k.Value → Prop
  | frameHeader, m => m.version = kProtocolVersion ∧ m.type.Named ∧ m.length.toNat ≤ kMaxFrameLength
  | payload k, m => k.format.Valid m
  | chunkHeader, _ => True
  | reflexiveReply, m => m.Unmapped

/-- The kinds that are decoded through a `PayloadReader`. -/
def viaReader : MessageKind → Bool
  | payload _ | reflexiveReply => true
  | frameHeader | chunkHeader => false

/-- The optional last field; other messages have none. -/
def groupName : (k : MessageKind) → k.Value → Bytes
  | payload .sendRequest, m => m.groupName
  | payload .peerIntroduction, m => m.groupName
  | _, _ => []

/-- The message without its group name. -/
def ungrouped : (k : MessageKind) → k.Value → k.Value
  | payload .sendRequest, m => { m with groupName := [] }
  | payload .peerIntroduction, m => { m with groupName := [] }
  | _, m => m

end MessageKind

/-! ## Round trips -/

theorem toOption_eq_some {ε α : Type} {r : Except ε α} {v : α} : r.toOption = some v ↔ r = .ok v := by
  cases r with
  | error e => exact ⟨nofun, nofun⟩
  | ok w => exact ⟨fun h => congrArg _ (Option.some.inj h), fun h => congrArg _ (Except.ok.inj h)⟩

theorem PayloadKind.decode_encode (k : PayloadKind) {m : k.Value} (h : k.format.Valid m) :
    (MessageKind.payload k).decode (k.format.encode m) = some m :=
  toOption_eq_some.mpr (decode_of_finishes (k.format.finishes h))

/-- **Every well-formed message survives the wire.** -/
theorem wire_round_trip (k : MessageKind) (m : k.Value) (hm : k.WellFormed m) (capacity : Nat) :
    (∀ bytes, k.encode capacity m = .ok bytes → k.decode bytes = some m) ∧
      (23 ≤ capacity → ∃ bytes, k.encode capacity m = .ok bytes) := by
  cases k with
  | frameHeader =>
    refine ⟨fun bytes h => ?_, fun _ => ⟨_, rfl⟩⟩
    cases h
    rw [MessageKind.decode, dif_pos (show _ = kFrameHeaderSize from length_encodeFrameHeader m)]
    exact toOption_eq_some.mpr (decodeFrameHeader_block hm.1 hm.2.1 hm.2.2)
  | payload k =>
    refine ⟨fun bytes h => ?_, fun _ => ⟨_, rfl⟩⟩
    cases h
    exact k.decode_encode hm
  | chunkHeader =>
    refine ⟨fun bytes h => ?_, fun _ => ⟨_, rfl⟩⟩
    cases h
    have hback := decodeChunkHeader_encode m []
    rw [List.append_nil] at hback
    rw [MessageKind.decode, if_pos (length_encodeChunkHeader m), hback]
  | reflexiveReply =>
    refine ⟨fun bytes h => ?_, fun h => ⟨_, encodeReflexiveReply_fits m h⟩⟩
    rw [(encodeReflexiveReply_eq_ok.mp h).2]
    refine (decodeReflexiveReply_magic _).trans (toOption_eq_some.mpr ?_)
    exact decode_of_finishes (reads_takeEndpoint hm).finishes

/-- A request for a group. -/
def groupRequest : SendRequest :=
  { targetUsername := text "r", proof := .replicate 32 0, signature := .replicate 64 0
    groupName := text "g" }

theorem groupRequest_wellFormed : groupRequest.WellFormed := ⟨by decide, .inr (by decide)⟩

theorem wire_round_trip_groupRequest :
    (MessageKind.payload .sendRequest).WellFormed groupRequest ∧
      (∀ bytes, (MessageKind.payload .sendRequest).encode 32 groupRequest = .ok bytes →
        (MessageKind.payload .sendRequest).decode bytes = some groupRequest) ∧
      (23 ≤ 32 → ∃ bytes, (MessageKind.payload .sendRequest).encode 32 groupRequest = .ok bytes) := by
  exact ⟨groupRequest_wellFormed,
    wire_round_trip (.payload .sendRequest) groupRequest groupRequest_wellFormed 32⟩

/-- The length of a text is written in 32 bits. A reason whose length is written as 0 and that begins
with four zeros reads as an empty one, and those zeros as an empty output directory. -/
theorem TransferDecision.decode_wrapped {tail : Bytes} (h : (tail.length + 4) % 2 ^ 32 = 0) :
    decode (encode { accepted := true, reason := [0, 0, 0, 0] ++ tail }) =
      .ok { accepted := true } := by
  have hzero : putU32 (UInt32.ofNat ([0, 0, 0, 0] ++ tail).length) = [0, 0, 0, 0] := by
    have hlen : ([0, 0, 0, 0] ++ tail : Bytes).length = tail.length + 4 := by simp
    rw [putU32, hlen, UInt32.toNat_ofNat', h]
    rfl
  refine decodeWith_eq_ok.mpr ⟨tail ++ putString [], ?_⟩
  simp only [encode, putString, putBytes, hzero, List.append_assoc]
  rfl

/-- A decision whose reason has `2 ^ 32` bytes. -/
def longDecision : TransferDecision :=
  { accepted := true, reason := [0, 0, 0, 0] ++ List.replicate (2 ^ 32 - 4) 0 }

/-- **A text of `2 ^ 32` bytes is lost.** -/
theorem long_reason_lost : TransferDecision.decode longDecision.encode = .ok { accepted := true } ∧
    longDecision ≠ { accepted := true } := by
  refine ⟨TransferDecision.decode_wrapped ?_, fun h => ?_⟩
  · rw [List.length_replicate]
    simp
  · have hreason := congrArg TransferDecision.reason h
    rw [longDecision, List.cons_append] at hreason
    exact List.cons_ne_nil _ _ hreason

/-! ## Cut messages -/

theorem stable_takeRaw (n : Nat) : Stable (takeRaw n) := stable_exactly _ n

theorem stable_takeU8 : Stable takeU8 := (stable_takeRaw 1).bind fun _ => Stable.pure _

theorem stable_takeU16 : Stable takeU16 := (stable_takeRaw 2).bind fun _ => Stable.pure _

theorem stable_takeU32 : Stable takeU32 := (stable_takeRaw 4).bind fun _ => Stable.pure _

theorem stable_takeU64 : Stable takeU64 := (stable_takeRaw 8).bind fun _ => Stable.pure _

theorem stable_takeBool : Stable takeBool := stable_takeU8.bind fun _ => Stable.pure _

theorem stable_takeString : Stable takeString :=
  stable_takeU32.bind fun _ => (stable_takeRaw _).bind fun _ => Stable.pure _

theorem stable_takeFixed (n : Nat) : Stable (takeFixed n) :=
  stable_takeU32.bind fun _ => (stable_check _ _).bind fun _ => stable_takeRaw n

theorem stable_takeEndpoint : Stable takeEndpoint := by
  refine stable_takeU8.bind fun family => stable_takeU16.bind fun port => ?_
  split
  · exact (stable_takeRaw 4).bind fun _ => Stable.pure _
  · split
    · exact (stable_takeRaw 16).bind fun _ => Stable.pure _
    · split
      · exact Stable.pure _
      · exact stable_throw _

theorem stable_takeEndpoints : Stable takeEndpoints :=
  stable_takeU16.bind fun n => (stable_count stable_takeEndpoint n.toNat).after_room _ _

theorem stable_takeEnum {α : Type} (ofU8? : UInt8 → Option α) (unknown : Bytes) :
    Stable (takeEnum ofU8? unknown) := by
  refine stable_takeU8.bind fun b => ?_
  cases ofU8? b with
  | none => exact stable_throw _
  | some v => exact Stable.pure v

theorem stable_takeName (invalid : Bytes) : Stable (takeName invalid) :=
  stable_takeString.bind fun _ => (stable_check _ _).bind fun _ => Stable.pure _

theorem stable_takeEntry : Stable takeEntry :=
  stable_takeString.bind fun _ => (stable_check _ _).bind fun _ => stable_takeU64.bind fun _ =>
    stable_takeU32.bind fun _ => (stable_takeFixed 32).bind fun _ => Stable.pure _

/-- The messages without an optional last field. -/
theorem PayloadKind.stable {k : PayloadKind} (hr : k ≠ sendRequest) (hi : k ≠ peerIntroduction) :
    Stable k.format.decoder := by
  cases k with
  | sendRequest => exact absurd rfl hr
  | peerIntroduction => exact absurd rfl hi
  | clientHello =>
    exact (stable_takeEnum _ _).bind fun _ => (stable_takeName _).bind fun _ =>
      (stable_takeFixed 32).bind fun _ => (stable_takeFixed 32).bind fun _ =>
      stable_takeU16.bind fun _ => stable_takeU16.bind fun _ => stable_takeEndpoints.bind fun _ =>
      Stable.pure _
  | serverHello =>
    exact stable_takeBool.bind fun _ => stable_takeString.bind fun _ =>
      stable_takeEndpoint.bind fun _ => stable_takeEndpoint.bind fun _ => stable_takeU32.bind fun _ =>
      Stable.pure _
  | groupQuery => exact (stable_takeName _).bind fun _ => Stable.pure _
  | groupStatus => exact stable_takeBool.bind fun _ => stable_takeU32.bind fun _ => Stable.pure _
  | groupJoin =>
    exact (stable_takeName _).bind fun _ => (stable_takeFixed 32).bind fun _ => Stable.pure _
  | groupResult =>
    exact (stable_takeEnum _ _).bind fun _ => stable_takeString.bind fun _ =>
      stable_takeU32.bind fun _ => Stable.pure _
  | groupSendRequest => exact (stable_takeName _).bind fun _ => Stable.pure _
  | groupRoster =>
    exact stable_takeU16.bind fun _ => (stable_check _ _).bind fun _ =>
      (stable_count (stable_takeName _) _).bind fun _ => Stable.pure _
  | transferOffer =>
    exact (stable_takeName _).bind fun _ => stable_takeString.bind fun _ =>
      stable_takeBool.bind fun _ => (stable_takeEnum _ _).bind fun _ => stable_takeBool.bind fun _ =>
      stable_takeU32.bind fun _ => (stable_check _ _).bind fun _ => stable_takeU64.bind fun _ =>
      stable_takeU32.bind fun _ => (stable_check _ _).bind fun _ =>
      (stable_count stable_takeEntry _).bind fun _ => (stable_check _ _).bind fun _ => Stable.pure _
  | transferDecision =>
    exact stable_takeBool.bind fun _ => stable_takeString.bind fun _ =>
      stable_takeString.bind fun _ => Stable.pure _

/-! ### The optional group name -/

section

variable {α : Type} {body : Reader α} {invalid : Bytes} {set : α → Bytes → α} {bytes cut : Bytes}
  {m : α}

/-- A cut within the group name. -/
theorem takeGroupName_cut (invalid : Bytes) {groupName : Bytes}
    (hvalid : groupName = [] ∨ isValidUsername groupName = true) (hcut : cut <+: putGroupName groupName)
    (hne : cut ≠ putGroupName groupName) (hnil : cut ≠ []) :
    ∃ e, (takeGroupName invalid).run cut = .error e := by
  have hgroup : groupName ≠ [] := by
    rintro rfl
    exact hnil (List.prefix_nil.mp hcut)
  have hlen := isValidUsername_length (hvalid.resolve_left hgroup)
  rw [putGroupName, if_neg hgroup] at hcut hne
  obtain ⟨e, he⟩ := stable_takeString.fails_of_prefix (reads_takeString (by omega)).finishes hcut hne
  refine ⟨e, ?_⟩
  rw [takeGroupName, run_bind_ok (run_remaining cut),
    if_neg (mt List.length_eq_zero_iff.mp hnil), StateT.run_bind, he]
  rfl

/-- Before the group name begins the cut is found; where it begins, there is none; and within it, the
cut is found again. -/
theorem withGroupName_cut (hstable : Stable body) (hbody : Finishes body bytes m) {groupName : Bytes}
    (hvalid : groupName = [] ∨ isValidUsername groupName = true)
    (hcut : cut <+: bytes ++ putGroupName groupName) (hne : cut ≠ bytes ++ putGroupName groupName) :
    (cut = bytes → (withGroupName body invalid set).run cut = .ok (set m [], [])) ∧
      (cut ≠ bytes → ∃ e, (withGroupName body invalid set).run cut = .error e) := by
  constructor
  · rintro rfl
    rw [withGroupName, run_bind_ok hbody]
    rfl
  · intro hcb
    rcases Nat.le_total cut.length bytes.length with hle | hle
    · have hshort : cut <+: bytes := List.prefix_of_prefix_length_le hcut (List.prefix_append ..) hle
      obtain ⟨e, he⟩ := hstable.fails_of_prefix hbody hshort hcb
      refine ⟨e, ?_⟩
      rw [withGroupName, StateT.run_bind, he]
      rfl
    · obtain ⟨rest, rfl⟩ := List.prefix_of_prefix_length_le (List.prefix_append ..) hcut hle
      rw [List.prefix_append_right_inj] at hcut
      obtain ⟨e, he⟩ := takeGroupName_cut invalid hvalid hcut
        (fun h => hne (by rw [h])) (fun h => hcb (by rw [h, List.append_nil]))
      refine ⟨e, ?_⟩
      rw [withGroupName, run_bind_ok (hstable.reads hbody rest), StateT.run_bind, he]
      rfl

end

theorem decodeWith_of_error {α : Type} {decoder : Reader α} {payload : Bytes}
    (h : ∃ e, decoder.run payload = .error e) : (decodeWith decoder payload).toOption = none := by
  obtain ⟨e, he⟩ := h
  rw [decodeWith, he]
  rfl

/-- A message whose last field is the optional group name, cut anywhere. -/
theorem cut_grouped {α : Type} {decoder body : Reader α} {invalid : Bytes} {set : α → Bytes → α}
    (hdecoder : decoder = withGroupName body invalid set) (hstable : Stable body) {m : α}
    {start groupName cut : Bytes} (hbody : Reads body start m)
    (hvalid : groupName = [] ∨ isValidUsername groupName = true)
    (hcut : cut <+: start ++ putGroupName groupName) (hne : cut ≠ start ++ putGroupName groupName) :
    (groupName ≠ [] ∧ start = cut → (decodeWith decoder cut).toOption = some (set m [])) ∧
      (¬ (groupName ≠ [] ∧ start = cut) → (decodeWith decoder cut).toOption = none) := by
  subst hdecoder
  have h := @withGroupName_cut _ _ invalid set _ _ _ hstable hbody.finishes _ hvalid hcut hne
  refine ⟨fun hc => ?_, fun hc => decodeWith_of_error (h.2 ?_)⟩
  · exact toOption_eq_some.mpr (decodeWith_eq_ok.mpr ⟨[], h.1 hc.2.symm⟩)
  · -- without a group name the cut would be the whole message
    rintro rfl
    refine hc ⟨?_, rfl⟩
    rintro rfl
    exact hne (List.append_nil cut).symm

/-- **A cut message does not decode**, but for a request or an introduction whose group name is cut
off just where it begins: that decodes to the message without a group. -/
theorem truncation_detected (k : MessageKind) (hk : k.viaReader = true) (m : k.Value) (capacity : Nat)
    {bytes cut : Bytes} (hbytes : k.encode capacity m = .ok bytes) (hback : k.decode bytes = some m)
    (hcut : cut <+: bytes) (hne : cut ≠ bytes) :
    (k.groupName m ≠ [] ∧ k.encode capacity (k.ungrouped m) = .ok cut →
        k.decode cut = some (k.ungrouped m)) ∧
      (¬ (k.groupName m ≠ [] ∧ k.encode capacity (k.ungrouped m) = .ok cut) → k.decode cut = none) := by
  cases k with
  | frameHeader => cases hk
  | chunkHeader => cases hk
  | reflexiveReply =>
    refine ⟨fun h => absurd rfl h.1, fun _ => ?_⟩
    rw [(encodeReflexiveReply_eq_ok.mp hbytes).2] at hback hcut hne
    rcases Nat.lt_or_ge cut.length kReflexiveReplyMagic.length with hlt | hle
    · exact if_pos hlt
    · obtain ⟨rest, rfl⟩ := List.prefix_of_prefix_length_le (List.prefix_append ..) hcut hle
      rw [List.prefix_append_right_inj] at hcut
      refine (decodeReflexiveReply_magic rest).trans (decodeWith_of_error ?_)
      rw [MessageKind.decode, decodeReflexiveReply_magic, toOption_eq_some, decodeWith_eq_ok] at hback
      obtain ⟨_, hrun⟩ := hback
      have hfinishes := (reads_takeEndpoint (yields_takeEndpoint hrun)).finishes
      exact stable_takeEndpoint.fails_of_prefix hfinishes hcut fun h => hne (by rw [h])
  | payload k =>
    cases hbytes
    obtain ⟨rest, hrun⟩ := decodeWith_eq_ok.mp (toOption_eq_some.mp hback)
    have hvalid : k.format.Valid m := k.format.yields hrun
    cases k with
    | sendRequest =>
      have hstable : Stable SendRequest.ungroupedDecoder :=
        (stable_takeName _).bind fun _ => (stable_takeFixed 32).bind fun _ =>
          (stable_takeFixed 64).bind fun _ => (stable_takeEnum _ _).bind fun _ => Stable.pure _
      change cut <+: SendRequest.encode m at hcut
      change cut ≠ SendRequest.encode m at hne
      rw [SendRequest.encode_eq m] at hcut hne
      have h := cut_grouped (rfl : SendRequest.decoder = _) hstable (SendRequest.reads_ungrouped hvalid.username)
        hvalid.group hcut hne
      exact ⟨fun hc => h.1 ⟨hc.1, Except.ok.inj hc.2⟩,
        fun hc => h.2 fun hc' => hc ⟨hc'.1, congrArg _ hc'.2⟩⟩
    | peerIntroduction =>
      have hstable : Stable PeerIntroduction.ungroupedDecoder :=
        (stable_takeName _).bind fun _ => (stable_takeFixed 32).bind fun _ =>
          (stable_takeFixed 32).bind fun _ => stable_takeEndpoints.bind fun _ =>
          (stable_takeFixed 32).bind fun _ => (stable_takeFixed 64).bind fun _ =>
          stable_takeU64.bind fun _ => (stable_takeEnum _ _).bind fun _ => Stable.pure _
      change cut <+: PeerIntroduction.encode m at hcut
      change cut ≠ PeerIntroduction.encode m at hne
      rw [PeerIntroduction.encode_eq m] at hcut hne
      have h := cut_grouped (rfl : PeerIntroduction.decoder = _) hstable (PeerIntroduction.reads_ungrouped hvalid)
        hvalid.group hcut hne
      exact ⟨fun hc => h.1 ⟨hc.1, Except.ok.inj hc.2⟩,
        fun hc => h.2 fun hc' => hc ⟨hc'.1, congrArg _ hc'.2⟩⟩
    | _ =>
      refine ⟨fun h => absurd rfl h.1, fun _ => decodeWith_of_error ?_⟩
      have hfinishes := Format.finishes _ hvalid
      exact Stable.fails_of_prefix (PayloadKind.stable (by nofun) (by nofun)) hfinishes hcut hne

/-- The request of `groupRequest` with its group name cut off. -/
theorem truncation_detected_groupRequest :
    ∃ bytes cut, (MessageKind.payload .sendRequest).encode 0 groupRequest = .ok bytes ∧
      (MessageKind.payload .sendRequest).decode bytes = some groupRequest ∧ cut <+: bytes ∧
      cut ≠ bytes ∧
      (MessageKind.payload .sendRequest).decode cut = some { groupRequest with groupName := [] } := by
  have hback := PayloadKind.decode_encode .sendRequest groupRequest_wellFormed
  have hcut : { groupRequest with groupName := [] }.encode <+: groupRequest.encode :=
    ⟨_, (SendRequest.encode_eq groupRequest).symm⟩
  have hne : { groupRequest with groupName := [] }.encode ≠ groupRequest.encode := by decide +kernel
  refine ⟨_, _, rfl, hback, hcut, hne, ?_⟩
  exact (truncation_detected (.payload .sendRequest) rfl groupRequest 0 rfl hback hcut hne).1
    ⟨by decide, rfl⟩

end DropZone
