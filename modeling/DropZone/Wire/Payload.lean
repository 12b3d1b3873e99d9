import DropZone.Lib.Parser

/-!
# Payload fields (`common/src/frame.cpp`, `common/src/socket.cpp`)

The writer and the reader that every message is made of. A writer function is the bytes it
appends; a reader function is a `Parser` over what is left of the payload.

* `Failure`: what the code throws, with its text.
* `Endpoint`: what `Endpoint::operator==` compares. The scope id and the flow label of an IPv6
  address are not carried on the wire and not compared.
* `reads_takeX`: reading a field back from its own encoding.
-/

namespace DropZone

open LittleEndian Parser

/-- A fixed array of `n` bytes. -/
abbrev Block (n : Nat) := List.Vector UInt8 n

/-- The bytes of an ASCII literal of the source. -/
def text (s : String) : Bytes := s.toList.map fun c => c.toNat.toUInt8

/-- `std::to_string` of an unsigned number. -/
def decimal (n : Nat) : Bytes := text (toString n)

/-- What the code throws (`common/include/dz/error.hpp`). -/
inductive Failure where
  /-- `Error`. -/
  | error (what : Bytes)
  /-- `UserError`. -/
  | userError (what : Bytes)
  /-- `PeerClosed`. -/
  | peerClosed
  deriving DecidableEq

/-- `exception::what`. -/
def Failure.what : Failure → Bytes
  | .error w => w
  | .userError w => w
  | .peerClosed => text "peer closed the connection"

/-! ## Endpoints -/

/-- A socket address as the kernel reports it. -/
inductive SockAddr where
  | inet (port : UInt16) (address : Block 4)
  | inet6 (port : UInt16) (address : Block 16)
  deriving DecidableEq

/-- An address and port, or nothing (`AF_UNSPEC`). -/
inductive Endpoint where
  | unspecified
  | v4 (port : UInt16) (address : Block 4)
  | v6 (port : UInt16) (address : Block 16)
  deriving DecidableEq

/-- `IN6_IS_ADDR_V4MAPPED`: the address is `::ffff:a.b.c.d`. -/
def isV4Mapped (address : Block 16) : Bool :=
  address.toList.take 12 == [0, 0, 0, 0, 0, 0, 0, 0, 0, 0, 255, 255]

namespace Endpoint

/-- `Endpoint::from_sockaddr`: a mapped IPv4 address is unwrapped. -/
def fromSockaddr : SockAddr → Endpoint
  | .inet port address => .v4 port address
  | .inet6 port address =>
    if isV4Mapped address then .v4 port (address.drop 12) else .v6 port address

/-- `Endpoint::set_port`. -/
def setPort : Endpoint → UInt16 → Endpoint
  | .unspecified, _ => .unspecified
  | .v4 _ address, port => .v4 port address
  | .v6 _ address, port => .v6 port address

/-- The endpoint is not a mapped IPv4 address in IPv6 form. -/
def Unmapped : Endpoint → Prop
  | .v6 _ address => isV4Mapped address = false
  | _ => True

theorem fromSockaddr_unmapped (a : SockAddr) : (fromSockaddr a).Unmapped := by
  cases a with
  | inet port address => trivial
  | inet6 port address =>
    by_cases h : isV4Mapped address
    · simp only [fromSockaddr, if_pos h, Unmapped]
    · simp only [fromSockaddr, if_neg h, Unmapped]
      simpa using h

theorem setPort_unmapped {e : Endpoint} (h : e.Unmapped) (port : UInt16) :
    (e.setPort port).Unmapped := by
  cases e with
  | unspecified => trivial
  | v4 p a => trivial
  | v6 p a => exact h

end Endpoint

/-! ## Writer -/

def putU8 (value : UInt8) : Bytes := [value]

def putU16 (value : UInt16) : Bytes := leBytes 2 value.toNat

def putU32 (value : UInt32) : Bytes := leBytes 4 value.toNat

def putU64 (value : UInt64) : Bytes := leBytes 8 value.toNat

def putBool (value : Bool) : Bytes := putU8 (if value then 1 else 0)

/-- Length prefix and bytes; the length is cast to 32 bits. -/
def putBytes (data : Bytes) : Bytes := putU32 (UInt32.ofNat data.length) ++ data

def putString (s : Bytes) : Bytes := putBytes s

def putEndpoint : Endpoint → Bytes
  | .v4 port address => putU8 4 ++ putU16 port ++ address.toList
  | .v6 port address => putU8 6 ++ putU16 port ++ address.toList
  | .unspecified => putU8 0 ++ putU16 0

/-- The number of endpoints is cast to 16 bits. -/
def putEndpoints (endpoints : List Endpoint) : Bytes :=
  putU16 (UInt16.ofNat endpoints.length) ++ endpoints.flatMap putEndpoint

/-! ## Reader -/

/-- `PayloadReader`: what is left of the payload is the state. -/
abbrev Reader (α : Type) := Parser Failure α

/-- The failure of `PayloadReader::need`. -/
def truncated (count remaining : Nat) : Failure :=
  .error (text "frame payload is truncated: needed " ++ decimal count ++ text " more bytes, have " ++
    decimal remaining)

def takeRaw (len : Nat) : Reader (Block len) := exactly truncated len

def takeU8 : Reader UInt8 := do
  let b ← takeRaw 1
  pure b.head

def takeU16 : Reader UInt16 := do
  let b ← takeRaw 2
  pure (UInt16.ofNat (leNat b.toList))

def takeU32 : Reader UInt32 := do
  let b ← takeRaw 4
  pure (UInt32.ofNat (leNat b.toList))

def takeU64 : Reader UInt64 := do
  let b ← takeRaw 8
  pure (UInt64.ofNat (leNat b.toList))

def takeBool : Reader Bool := do
  let b ← takeU8
  pure (b != 0)

def takeBytes : Reader Bytes := do
  let len ← takeU32
  let b ← takeRaw len.toNat
  pure b.toList

def takeString : Reader Bytes := takeBytes

/-- A length-prefixed blob that has to be exactly `expectedLen` bytes. -/
def takeFixed (expectedLen : Nat) : Reader (Block expectedLen) := do
  let len ← takeU32
  check (len.toNat = expectedLen)
    (.error (text "expected a " ++ decimal expectedLen ++
      text " byte field but the frame declares " ++ decimal len.toNat))
  takeRaw expectedLen

def takeEndpoint : Reader Endpoint := do
  let family ← takeU8
  let port ← takeU16
  if family = 4 then do
    let address ← takeRaw 4
    pure (.fromSockaddr (.inet port address))
  else if family = 6 then do
    let address ← takeRaw 16
    pure (.fromSockaddr (.inet6 port address))
  else if family = 0 then pure .unspecified
  else throw (.error (text "unknown address family tag " ++ decimal family.toNat ++ text " in frame"))

def takeEndpoints : Reader (List Endpoint) := do
  let n ← takeU16
  let left ← remaining
  check (n.toNat * 3 ≤ left)
    (.error (text "endpoint list count " ++ decimal n.toNat ++ text " does not fit in the frame"))
  count takeEndpoint n.toNat

/-! ## Reading back -/

theorem reads_takeRaw {n : Nat} (v : Block n) : Reads (takeRaw n) v.toList v :=
  reads_exactly truncated v

/-- The block of the `n` low bytes of `x`. -/
def leBlock (n x : Nat) : Block n := ⟨leBytes n x, length_leBytes n x⟩

theorem reads_takeU8 (v : UInt8) : Reads takeU8 (putU8 v) v :=
  (reads_takeRaw (n := 1) ⟨[v], rfl⟩).bind_nil (Reads.pure v)

theorem reads_takeU16 (v : UInt16) : Reads takeU16 (putU16 v) v := by
  refine (reads_takeRaw (leBlock 2 v.toNat)).bind_nil ?_
  have h : UInt16.ofNat (leNat (leBlock 2 v.toNat).toList) = v := by
    rw [leBlock, List.Vector.toList_mk, leNat_leBytes_of_lt v.toNat_lt, UInt16.ofNat_toNat]
  rw [h]
  exact Reads.pure v

theorem reads_takeU32 (v : UInt32) : Reads takeU32 (putU32 v) v := by
  refine (reads_takeRaw (leBlock 4 v.toNat)).bind_nil ?_
  have h : UInt32.ofNat (leNat (leBlock 4 v.toNat).toList) = v := by
    rw [leBlock, List.Vector.toList_mk, leNat_leBytes_of_lt v.toNat_lt, UInt32.ofNat_toNat]
  rw [h]
  exact Reads.pure v

theorem reads_takeU64 (v : UInt64) : Reads takeU64 (putU64 v) v := by
  refine (reads_takeRaw (leBlock 8 v.toNat)).bind_nil ?_
  have h : UInt64.ofNat (leNat (leBlock 8 v.toNat).toList) = v := by
    rw [leBlock, List.Vector.toList_mk, leNat_leBytes_of_lt v.toNat_lt, UInt64.ofNat_toNat]
  rw [h]
  exact Reads.pure v

theorem reads_takeBool (v : Bool) : Reads takeBool (putBool v) v := by
  refine (reads_takeU8 (if v then 1 else 0)).bind_nil ?_
  cases v <;> exact Reads.pure _

/-- A byte string shorter than 4 GiB reads back from its length-prefixed form. -/
theorem reads_takeBytes {data : Bytes} (h : data.length < 2 ^ 32) :
    Reads takeBytes (putBytes data) data := by
  refine (reads_takeU32 _).bind ?_
  have hlen : (UInt32.ofNat data.length).toNat = data.length := by
    rw [UInt32.toNat_ofNat', Nat.mod_eq_of_lt h]
  rw [hlen]
  exact (reads_takeRaw (n := data.length) ⟨data, rfl⟩).bind_nil (Reads.pure data)

theorem reads_takeString {s : Bytes} (h : s.length < 2 ^ 32) :
    Reads takeString (putString s) s := reads_takeBytes h

theorem reads_takeFixed {n : Nat} (v : Block n) (hn : n < 2 ^ 32) :
    Reads (takeFixed n) (putBytes v.toList) v := by
  have hlen : (UInt32.ofNat v.toList.length).toNat = n := by
    rw [UInt32.toNat_ofNat', List.Vector.toList_length, Nat.mod_eq_of_lt hn]
  refine (reads_takeU32 _).bind ?_
  refine (reads_check ?_).nil_bind (reads_takeRaw v)
  exact hlen

theorem reads_takeEndpoint {e : Endpoint} (h : e.Unmapped) :
    Reads takeEndpoint (putEndpoint e) e := by
  cases e with
  | unspecified => exact (reads_takeU8 0).bind ((reads_takeU16 0).bind_nil (Reads.pure _))
  | v4 port address =>
    rw [putEndpoint, List.append_assoc]
    exact (reads_takeU8 4).bind ((reads_takeU16 port).bind
      ((reads_takeRaw address).bind_nil (Reads.pure _)))
  | v6 port address =>
    rw [putEndpoint, List.append_assoc]
    refine (reads_takeU8 6).bind ((reads_takeU16 port).bind ((reads_takeRaw address).bind_nil ?_))
    have hv : Endpoint.fromSockaddr (.inet6 port address) = .v6 port address := by
      rw [Endpoint.fromSockaddr, if_neg (by simpa [Endpoint.Unmapped] using h)]
    rw [hv]
    exact Reads.pure _

theorem three_le_length_putEndpoint (e : Endpoint) : 3 ≤ (putEndpoint e).length := by
  cases e <;> simp [putEndpoint, putU8, putU16]

theorem length_putEndpoint_le (e : Endpoint) : (putEndpoint e).length ≤ 19 := by
  cases e <;> simp [putEndpoint, putU8, putU16]

theorem three_mul_le_length_flatMap (es : List Endpoint) :
    es.length * 3 ≤ (es.flatMap putEndpoint).length := by
  induction es with
  | nil => simp
  | cons e es ih =>
    have := three_le_length_putEndpoint e
    rw [List.flatMap_cons, List.length_append, List.length_cons]
    omega

theorem length_flatMap_putEndpoint_le (es : List Endpoint) :
    (es.flatMap putEndpoint).length ≤ 19 * es.length := by
  induction es with
  | nil => simp
  | cons e es ih =>
    have := length_putEndpoint_le e
    rw [List.flatMap_cons, List.length_append, List.length_cons]
    omega

/-- Fewer than `2 ^ 16` unmapped endpoints read back from their list. -/
theorem reads_takeEndpoints {es : List Endpoint} (hlen : es.length < 2 ^ 16)
    (hes : ∀ e ∈ es, e.Unmapped) : Reads takeEndpoints (putEndpoints es) es := by
  have hn : (UInt16.ofNat es.length).toNat = es.length := by
    rw [UInt16.toNat_ofNat', Nat.mod_eq_of_lt hlen]
  refine (reads_takeU16 _).bind ?_
  intro rest
  have hfit : es.length * 3 ≤ (es.flatMap putEndpoint ++ rest).length := by
    have := three_mul_le_length_flatMap es
    rw [List.length_append]
    omega
  rw [run_bind_ok (run_remaining _), run_bind_ok (run_check_eq_ok (u := ()).mpr ⟨by rwa [hn], rfl⟩), hn]
  exact reads_count (fun e he => reads_takeEndpoint (hes e he)) rest

/-! ## What the reader accepts -/

theorem yields_takeEndpoint : Yields takeEndpoint Endpoint.Unmapped := by
  refine (yields_any _).bind fun family _ => (yields_any _).bind fun port _ => ?_
  split
  · exact (yields_any _).bind fun a _ => Yields.pure (Endpoint.fromSockaddr_unmapped _)
  · split
    · exact (yields_any _).bind fun a _ => Yields.pure (Endpoint.fromSockaddr_unmapped _)
    · split
      · exact Yields.pure trivial
      · exact yields_throw _ _

/-- A list the reader accepts has at most `2 ^ 16 - 1` endpoints, none of them mapped. -/
theorem yields_takeEndpoints :
    Yields takeEndpoints fun es => es.length < 2 ^ 16 ∧ ∀ e ∈ es, e.Unmapped := by
  refine (yields_any _).bind fun n _ => (yields_any _).bind fun left _ =>
    (yields_any _).bind fun _ _ => (yields_count yields_takeEndpoint _).mono ?_
  rintro es ⟨hlen, hes⟩
  exact ⟨hlen ▸ n.toNat_lt, hes⟩

theorem yields_takeString : Yields takeString fun s => s.length < 2 ^ 32 := by
  refine (yields_any _).bind fun len _ => (yields_any _).bind fun b _ => Yields.pure ?_
  rw [List.Vector.toList_length]
  exact len.toNat_lt

end DropZone
