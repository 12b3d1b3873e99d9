import DropZone.Wire.Payload

/-!
# Datagrams of the hole-punched tier (`client/src/reliable_udp.cpp`)

* `UdpHeader`, `writeHeader`, `parseHeader`: the 22 bytes in front of every payload.
* `parseHeader_write`: a header that was written is read back, with the payload it announces.
-/

namespace DropZone

open LittleEndian

def kUdpDatagramSize : Nat := 1200

def kUdpHeaderSize : Nat := 22

def kUdpMaxPayload : Nat := kUdpDatagramSize - kUdpHeaderSize

/-- `kMagic`. -/
def kUdpMagic : Bytes := [68, 81]

/-- `UdpPacketType`. A byte that names no type is kept. -/
inductive UdpPacketType where
  | punch
  | punchAck
  | data
  | ack
  | fin
  | finAck
  | unknown (code : UInt8)
  deriving DecidableEq

namespace UdpPacketType

def toU8 : UdpPacketType → UInt8
  | punch => 1
  | punchAck => 2
  | data => 3
  | ack => 4
  | fin => 5
  | finAck => 6
  | unknown code => code

def ofU8 (code : UInt8) : UdpPacketType :=
  if code = 1 then punch
  else if code = 2 then punchAck
  else if code = 3 then data
  else if code = 4 then ack
  else if code = 5 then fin
  else if code = 6 then finAck
  else unknown code

/-- The code has a name for it. -/
def Named (t : UdpPacketType) : Prop := ∀ code, t ≠ unknown code

theorem ofU8_toU8 {t : UdpPacketType} (h : t.Named) : ofU8 t.toU8 = t := by
  cases t with
  | unknown code => exact absurd rfl (h code)
  | _ => rfl

end UdpPacketType

/-- `ParsedHeader`. -/
structure UdpHeader where
  type : UdpPacketType
  sequence : UInt32
  ack : UInt32
  ackBits : UInt64
  length : UInt16
  deriving DecidableEq

/-- `write_header`. -/
def writeHeader (h : UdpHeader) : Bytes :=
  kUdpMagic ++ putU8 h.type.toU8 ++ putU8 0 ++ putU32 h.sequence ++ putU32 h.ack ++
    putU64 h.ackBits ++ putU16 h.length

/-- The number in `n` bytes from `offset` on. -/
def loadAt (data : Bytes) (offset n : Nat) : Nat := leNat ((data.drop offset).take n)

/-- `parse_header`. -/
def parseHeader (data : Bytes) : Option UdpHeader :=
  if data.length < kUdpHeaderSize then none
  else if data.take 2 ≠ kUdpMagic then none
  else
    let header : UdpHeader :=
      { type := .ofU8 (UInt8.ofNat (loadAt data 2 1))
        sequence := UInt32.ofNat (loadAt data 4 4)
        ack := UInt32.ofNat (loadAt data 8 4)
        ackBits := UInt64.ofNat (loadAt data 12 8)
        length := UInt16.ofNat (loadAt data 20 2) }
    if header.length.toNat > kUdpMaxPayload then none
    else if data.length < kUdpHeaderSize + header.length.toNat then none
    else some header

/-- The payload that a header announces. -/
def udpPayload (h : UdpHeader) (data : Bytes) : Bytes :=
  (data.drop kUdpHeaderSize).take h.length.toNat

@[simp] theorem length_writeHeader (h : UdpHeader) : (writeHeader h).length = kUdpHeaderSize := by
  simp [writeHeader, kUdpMagic, putU8, putU16, putU32, putU64, kUdpHeaderSize]

/-- A field is read from where it was written. -/
theorem loadAt_split {data b : Bytes} {offset n x : Nat} (h : b ++ leBytes n x <+: data)
    (hb : b.length = offset) (hx : x < 256 ^ n) : loadAt data offset n = x := by
  obtain ⟨a, rfl⟩ := h
  rw [loadAt, List.append_assoc, List.drop_left' hb, List.take_left' (length_leBytes n x),
    leNat_leBytes_of_lt hx]

theorem parseHeader_write {h : UdpHeader} {payload : Bytes} (hnamed : h.type.Named)
    (hmax : h.length.toNat ≤ kUdpMaxPayload) (hlen : h.length.toNat ≤ payload.length) :
    parseHeader (writeHeader h ++ payload) = some h := by
  have hsize : (writeHeader h ++ payload).length = kUdpHeaderSize + payload.length := by
    rw [List.length_append, length_writeHeader]
  have hmagic : (writeHeader h ++ payload).take 2 = kUdpMagic := by
    simp only [writeHeader, List.append_assoc]
    exact List.take_left' rfl
  -- each field in turn, after the bytes of those before it
  have htype : loadAt (writeHeader h ++ payload) 2 1 = h.type.toU8.toNat := by
    have hbyte : putU8 h.type.toU8 = leBytes 1 h.type.toU8.toNat := by simp [putU8, leBytes]
    refine loadAt_split ?_ (b := kUdpMagic) rfl h.type.toU8.toNat_lt
    exact ⟨_, by simp only [writeHeader, hbyte, List.append_assoc]; rfl⟩
  have hsequence : loadAt (writeHeader h ++ payload) 4 4 = h.sequence.toNat := by
    refine loadAt_split ?_ (b := kUdpMagic ++ putU8 h.type.toU8 ++ putU8 0) rfl h.sequence.toNat_lt
    exact ⟨_, by simp only [writeHeader, putU32, List.append_assoc]; rfl⟩
  have hack : loadAt (writeHeader h ++ payload) 8 4 = h.ack.toNat := by
    refine loadAt_split ?_
      (b := kUdpMagic ++ putU8 h.type.toU8 ++ putU8 0 ++ putU32 h.sequence) ?_ h.ack.toNat_lt
    · exact ⟨_, by simp only [writeHeader, putU32, List.append_assoc]; rfl⟩
    · simp [kUdpMagic, putU8, putU32]
  have hbits : loadAt (writeHeader h ++ payload) 12 8 = h.ackBits.toNat := by
    refine loadAt_split ?_
      (b := kUdpMagic ++ putU8 h.type.toU8 ++ putU8 0 ++ putU32 h.sequence ++ putU32 h.ack) ?_
      h.ackBits.toNat_lt
    · exact ⟨_, by simp only [writeHeader, putU64, List.append_assoc]; rfl⟩
    · simp [kUdpMagic, putU8, putU32]
  have hlength : loadAt (writeHeader h ++ payload) 20 2 = h.length.toNat := by
    refine loadAt_split ?_ (b := kUdpMagic ++ putU8 h.type.toU8 ++ putU8 0 ++ putU32 h.sequence ++
      putU32 h.ack ++ putU64 h.ackBits) ?_ h.length.toNat_lt
    · exact ⟨_, by simp only [writeHeader, putU16, List.append_assoc]; rfl⟩
    · simp [kUdpMagic, putU8, putU32, putU64]
  unfold parseHeader
  rw [if_neg (by rw [hsize]; omega), if_neg (not_not.mpr hmagic), htype, hsequence, hack, hbits, hlength]
  simp only [UInt8.ofNat_toNat, UInt16.ofNat_toNat, UInt32.ofNat_toNat, UInt64.ofNat_toNat,
    UdpPacketType.ofU8_toU8 hnamed]
  rw [if_neg (Nat.not_lt.mpr hmax), if_neg (by rw [hsize]; omega)]

theorem udpPayload_write {h : UdpHeader} {payload : Bytes} (hlen : h.length.toNat = payload.length) :
    udpPayload h (writeHeader h ++ payload) = payload := by
  rw [udpPayload, List.drop_left' (length_writeHeader h), hlen, List.take_length]

end DropZone
