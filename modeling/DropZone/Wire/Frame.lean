import DropZone.Wire.Payload

/-!
# Frames (`common/src/frame.cpp`, `client/src/channel.cpp`)

Everything on a connection is a frame: an 8-byte header and `length` bytes of payload.

* `decodeFrameHeader`: the checks on version and length.
* `writeFrame`, `readFrame`: one frame on a byte stream; `Channel.expect`, `FramedStream.expect`: its type.
* `reads_readFrame`: a written frame reads back; `incremental_readFrame`: a frame that has arrived
  reads the same whatever follows.
-/

namespace DropZone

open LittleEndian Parser

def kProtocolVersion : UInt8 := 1

def kFrameHeaderSize : Nat := 8

def kMaxFrameLength : Nat := 2 * 1024 * 1024

/-- `MessageType`. The header's byte is cast without a check, so any code can occur. -/
inductive MessageType where
  | clientHello | serverHello | sendRequest | incoming | accept | reject | matched | relayOpen
  | relayData | relayClose | keepAlive | bye | groupQuery | groupStatus | groupJoin | groupResult
  | groupSendRequest | groupRoster | offer | decision | chunk | transferEnd | transferAck | abort
  | other (code : UInt8)
  deriving DecidableEq

namespace MessageType

/-- The byte of a message type. -/
def toU8 : MessageType → UInt8
  | clientHello => 1 | serverHello => 2 | sendRequest => 3 | incoming => 4 | accept => 5
  | reject => 6 | matched => 7 | relayOpen => 8 | relayData => 9 | relayClose => 10
  | keepAlive => 11 | bye => 12 | groupQuery => 13 | groupStatus => 14 | groupJoin => 15
  | groupResult => 16 | groupSendRequest => 17 | groupRoster => 18 | offer => 32 | decision => 33
  | chunk => 34 | transferEnd => 35 | transferAck => 36 | abort => 37
  | other code => code

/-- `static_cast<MessageType>` of a header byte. -/
def ofU8 (code : UInt8) : MessageType :=
  match code.toNat with
  | 1 => clientHello | 2 => serverHello | 3 => sendRequest | 4 => incoming | 5 => accept
  | 6 => reject | 7 => matched | 8 => relayOpen | 9 => relayData | 10 => relayClose
  | 11 => keepAlive | 12 => bye | 13 => groupQuery | 14 => groupStatus | 15 => groupJoin
  | 16 => groupResult | 17 => groupSendRequest | 18 => groupRoster | 32 => offer | 33 => decision
  | 34 => chunk | 35 => transferEnd | 36 => transferAck | 37 => abort
  | _ => other code

/-- `message_type_name`. -/
def name : MessageType → Bytes
  | clientHello => text "ClientHello" | serverHello => text "ServerHello"
  | sendRequest => text "SendRequest" | incoming => text "Incoming" | accept => text "Accept"
  | reject => text "Reject" | matched => text "Matched" | relayOpen => text "RelayOpen"
  | relayData => text "RelayData" | relayClose => text "RelayClose"
  | keepAlive => text "KeepAlive" | bye => text "Bye" | groupQuery => text "GroupQuery"
  | groupStatus => text "GroupStatus" | groupJoin => text "GroupJoin"
  | groupResult => text "GroupResult" | groupSendRequest => text "GroupSendRequest"
  | groupRoster => text "GroupRoster" | offer => text "Offer" | decision => text "Decision"
  | chunk => text "Chunk" | transferEnd => text "TransferEnd" | transferAck => text "TransferAck"
  | abort => text "Abort"
  | other _ => text "unknown"

/-- A type of the protocol, not a stray code. -/
def Named : MessageType → Prop
  | other _ => False
  | _ => True

theorem ofU8_toU8 {t : MessageType} (h : t.Named) : ofU8 t.toU8 = t := by
  cases t <;> first | rfl | exact h.elim

end MessageType

structure FrameHeader where
  version : UInt8 := kProtocolVersion
  type : MessageType := .keepAlive
  flags : UInt16 := 0
  length : UInt32 := 0
  deriving DecidableEq

/-- A frame in memory. -/
structure Frame where
  header : FrameHeader
  payload : Bytes
  deriving DecidableEq

def encodeFrameHeader (header : FrameHeader) : Bytes :=
  putU8 header.version ++ putU8 header.type.toU8 ++ putU16 header.flags ++ putU32 header.length

/-- The bytes of a frame on the wire. -/
def Frame.bytes (f : Frame) : Bytes := encodeFrameHeader f.header ++ f.payload

/-- The eight header bytes, with the checks on version and length. -/
def decodeFrameHeader (bytes : Block 8) : Except Failure FrameHeader :=
  let version := bytes.get 0
  let length := UInt32.ofNat (leNat (bytes.toList.drop 4))
  if version ≠ kProtocolVersion then
    .error (.error (text "peer speaks drop-zone protocol version " ++ decimal version.toNat ++
      text ", this build speaks " ++ decimal kProtocolVersion.toNat))
  else if length.toNat > kMaxFrameLength then
    .error (.error (text "frame length " ++ decimal length.toNat ++ text " exceeds the " ++
      decimal kMaxFrameLength ++ text " byte limit"))
  else
    .ok { version := version
          type := .ofU8 (bytes.get 1)
          flags := UInt16.ofNat (leNat ((bytes.toList.drop 2).take 2))
          length := length }

/-- The bytes of one frame. -/
def frameBytes (type : MessageType) (payload : Bytes) (flags : UInt16 := 0) : Bytes :=
  encodeFrameHeader { type := type, flags := flags, length := UInt32.ofNat payload.length } ++ payload

/-- `write_frame`. -/
def writeFrame (type : MessageType) (payload : Bytes) (flags : UInt16 := 0) :
    Except Failure Bytes :=
  if payload.length > kMaxFrameLength then
    .error (.error (text "refusing to send an oversized frame"))
  else .ok (frameBytes type payload flags)

/-- `read_exactly` on a stream that ends: `stop` is what the transport throws there. -/
def readExactly (stop : Failure) (len : Nat) : Parser Failure (Block len) :=
  exactly (fun _ _ => stop) len

/-- `read_frame`. -/
def readFrame (stop : Failure) : Parser Failure Frame := do
  let bytes ← readExactly stop kFrameHeaderSize
  let header ← (decodeFrameHeader bytes : Except Failure FrameHeader)
  let payload ← readExactly stop header.length.toNat
  pure { header := header, payload := payload.toList }

/-- The reason a stopping frame carries. -/
def stopReason (payload : Bytes) : Bytes :=
  if payload = [] then text "no reason given" else payload

/-- `Channel::read_expected`, on a frame that was read. -/
def Channel.expect (expected : MessageType) (frame : Frame) : Except Failure Frame :=
  if frame.header.type = expected then .ok frame
  else if frame.header.type = .abort then
    .error (.userError (text "the other side stopped the transfer: " ++ stopReason frame.payload))
  else
    .error (.error (text "expected a " ++ expected.name ++ text " frame but the peer sent a " ++
      frame.header.type.name))

/-- `FramedStream::read_expected`, on a frame that was read. -/
def FramedStream.expect (expected : MessageType) (frame : Frame) : Except Failure Frame :=
  if frame.header.type = expected then .ok frame
  else if frame.header.type = .abort ∨ frame.header.type = .reject then
    .error (.userError (text "peer aborted the transfer: " ++ stopReason frame.payload))
  else
    .error (.error (text "expected a " ++ expected.name ++ text " frame but received a " ++
      frame.header.type.name))

/-- The frame that `writeFrame type payload flags` puts on the wire. -/
def Frame.of (type : MessageType) (payload : Bytes) (flags : UInt16 := 0) : Frame :=
  { header := { type := type, flags := flags, length := UInt32.ofNat payload.length }
    payload := payload }

/-! ## Reading a written frame back -/

theorem length_encodeFrameHeader (h : FrameHeader) : (encodeFrameHeader h).length = 8 := by
  simp [encodeFrameHeader, putU8, putU16, putU32]

/-- The encoded header as the eight bytes it is. -/
def FrameHeader.block (h : FrameHeader) : Block 8 :=
  ⟨encodeFrameHeader h, length_encodeFrameHeader h⟩

theorem decodeFrameHeader_length {block : Block 8} {h : FrameHeader}
    (hd : decodeFrameHeader block = .ok h) : h.length.toNat ≤ kMaxFrameLength := by
  unfold decodeFrameHeader at hd
  dsimp only at hd
  split at hd
  · cases hd
  · split at hd
    · cases hd
    · rename_i hlen
      cases hd
      exact Nat.not_lt.mp hlen

theorem decodeFrameHeader_block {h : FrameHeader} (hv : h.version = kProtocolVersion)
    (ht : h.type.Named) (hl : h.length.toNat ≤ kMaxFrameLength) :
    decodeFrameHeader h.block = .ok h := by
  have h0 : h.block.get 0 = h.version := rfl
  have h1 : h.block.get 1 = h.type.toU8 := rfl
  have h2 : (h.block.toList.drop 2).take 2 = putU16 h.flags := by
    simp [FrameHeader.block, encodeFrameHeader, putU8, putU16, List.Vector.toList, List.drop_append]
  have h4 : h.block.toList.drop 4 = putU32 h.length := by
    simp [FrameHeader.block, encodeFrameHeader, putU8, putU16, List.Vector.toList]
  have hflags : UInt16.ofNat (leNat (putU16 h.flags)) = h.flags := by
    rw [putU16, leNat_leBytes_of_lt h.flags.toNat_lt, UInt16.ofNat_toNat]
  have hlen : UInt32.ofNat (leNat (putU32 h.length)) = h.length := by
    rw [putU32, leNat_leBytes_of_lt h.length.toNat_lt, UInt32.ofNat_toNat]
  simp only [decodeFrameHeader, h0, h1, h2, h4, hlen, hflags, MessageType.ofU8_toU8 ht]
  rw [if_neg (not_not.mpr hv), if_neg (by omega)]

/-- A written frame reads back, whatever follows it on the stream. -/
theorem reads_readFrame (stop : Failure) {type : MessageType} {payload bytes : Bytes}
    {flags : UInt16} (ht : type.Named) (h : writeFrame type payload flags = .ok bytes) :
    Reads (readFrame stop) bytes (Frame.of type payload flags) := by
  unfold writeFrame at h
  split at h
  · cases h
  · rename_i hsize
    cases h
    have hlen : (UInt32.ofNat payload.length).toNat = payload.length := by
      rw [UInt32.toNat_ofNat', Nat.mod_eq_of_lt]
      simp only [kMaxFrameLength] at hsize
      omega
    refine (reads_exactly _ (FrameHeader.block _)).bind ?_
    rw [decodeFrameHeader_block rfl ht (by rw [hlen]; omega)]
    refine Reads.nil_bind (Reads.pure _) ?_
    exact (reads_exactly _ ⟨payload, hlen.symm⟩).bind_nil (Reads.pure _)

theorem writeFrame_eq {payload : Bytes} (h : payload.length ≤ kMaxFrameLength) (type : MessageType)
    (flags : UInt16 := 0) : writeFrame type payload flags = .ok (frameBytes type payload flags) :=
  if_neg (Nat.not_lt.mpr h)

theorem incremental_readFrame (stop : Failure) : Incremental stop (readFrame stop) :=
  (incremental_exactly stop _).bind fun _ => (Incremental.lift stop _).bind fun _ =>
    (incremental_exactly stop _).bind fun _ => Incremental.pure stop _

theorem readFrame_nil (stop : Failure) : (readFrame stop).run [] = .error stop := rfl

end DropZone
