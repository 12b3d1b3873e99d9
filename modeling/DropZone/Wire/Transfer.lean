import DropZone.Handshake.Crypto

/-!
# Data-plane messages (`common/src/protocol.cpp`)

The offer, the chunk header and the decision, and the check on a peer's paths.

* `TransferOffer.format`, `TransferDecision.format`: encoder, decoder and the messages that survive
  both, which `WellFormed` names.
* `decodeChunkHeader_encode`: a chunk header reads back from its 24 bytes.
-/

namespace DropZone

open LittleEndian Parser

def kMaxPathLength : Nat := 1024

def kMaxManifestEntries : Nat := 200000

def kChunkHeaderSize : Nat := 24

def kAeadTagSize : Nat := 16

/-! ## Paths -/

/-- A path component that is not empty, `.` or `..`. -/
def safeComponent (component : Bytes) : Bool :=
  component != [] && component != text "." && component != text ".."

/-- The loop over the components of a path; `component` is what was read of the current one. -/
def safeComponents (component : Bytes) : Bytes → Bool
  | [] => safeComponent component
  | c :: rest =>
    if c = 47 then safeComponent component && safeComponents [] rest
    else safeComponents (component ++ [c]) rest

/-- `is_safe_relative_path`. -/
def isSafeRelativePath (path : Bytes) : Bool :=
  path != [] && path.length ≤ kMaxPathLength && path.head? != some 47 && !path.contains 92 &&
    !path.contains 0 && safeComponents [] path

/-- The failure of `sanitize_relative_path`. -/
def unsafePath (path : Bytes) : Failure :=
  .error (text "the peer sent an unsafe path and the transfer was stopped: '" ++ path ++ text "'")

/-! ## The offer -/

namespace AeadAlgorithm

def toU8 : AeadAlgorithm → UInt8
  | aes256Gcm => 1 | chaCha20Poly1305 => 2

def ofU8? (b : UInt8) : Option AeadAlgorithm :=
  match b.toNat with
  | 1 => some .aes256Gcm | 2 => some .chaCha20Poly1305 | _ => none

theorem ofU8?_toU8 (a : AeadAlgorithm) : ofU8? a.toU8 = some a := by cases a <;> rfl

end AeadAlgorithm

structure ManifestEntry where
  path : Bytes
  size : UInt64
  mode : UInt32 := 0o644
  digest : Block 32
  deriving DecidableEq

structure TransferOffer where
  senderUsername : Bytes
  displayName : Bytes
  entries : List ManifestEntry
  totalBytes : UInt64
  encryptPayload : Bool := true
  algorithm : AeadAlgorithm := .aes256Gcm
  chunkSize : UInt32
  digestsPresent : Bool := false
  deriving DecidableEq

def putEntry (entry : ManifestEntry) : Bytes :=
  putString entry.path ++ putU64 entry.size ++ putU32 entry.mode ++ putBytes entry.digest.toList

/-- One turn of the loop over the entries. Only permission bits are kept. -/
def takeEntry : Reader ManifestEntry := do
  let path ← takeString
  check (isSafeRelativePath path = true) (unsafePath path)
  let size ← takeU64
  let mode ← takeU32
  let digest ← takeFixed 32
  pure { path, size, mode := mode &&& 0o777, digest }

/-- The sum of the sizes, modulo `2 ^ 64` as the code adds them. -/
def summedSize (entries : List ManifestEntry) : UInt64 :=
  entries.foldl (fun sum entry => sum + entry.size) 0

/-- The largest chunk an offer may name. -/
def kMaxChunkSize : Nat := kMaxFrameLength - kChunkHeaderSize - kAeadTagSize

namespace TransferOffer

def encode (o : TransferOffer) : Bytes :=
  putString o.senderUsername ++ putString o.displayName ++ putBool o.encryptPayload ++
    putU8 o.algorithm.toU8 ++ putBool o.digestsPresent ++ putU32 o.chunkSize ++
    putU64 o.totalBytes ++ putU32 (UInt32.ofNat o.entries.length) ++ o.entries.flatMap putEntry

def decoder : Reader TransferOffer := do
  let senderUsername ← takeName (text "offer carries an invalid sender username")
  let displayName ← takeString
  let encryptPayload ← takeBool
  let algorithm ← takeEnum AeadAlgorithm.ofU8? (text "offer names an unknown cipher")
  let digestsPresent ← takeBool
  let chunkSize ← takeU32
  check (chunkSize ≠ 0 ∧ chunkSize.toNat ≤ kMaxChunkSize)
    (.error (text "offer names an unusable chunk size"))
  let totalBytes ← takeU64
  let n ← takeU32
  check (n.toNat ≤ kMaxManifestEntries)
    (.error (text "offer lists " ++ decimal n.toNat ++ text " files, more than the " ++
      decimal kMaxManifestEntries ++ text " allowed"))
  let entries ← count takeEntry n.toNat
  check (summedSize entries = totalBytes)
    (.error (text "offer's declared total does not match the sum of its files"))
  pure { senderUsername, displayName, entries, totalBytes, encryptPayload, algorithm, chunkSize,
         digestsPresent }

def decode (data : Bytes) : Except Failure TransferOffer := decodeWith decoder data

end TransferOffer

/-! ## Chunks and the decision -/

structure ChunkHeader where
  fileIndex : UInt32
  plaintextLength : UInt32
  offset : UInt64
  counter : UInt64
  deriving DecidableEq

def encodeChunkHeader (header : ChunkHeader) : Bytes :=
  putU32 header.fileIndex ++ putU32 header.plaintextLength ++ putU64 header.offset ++
    putU64 header.counter

/-- The header in the first 24 bytes of a chunk. -/
def decodeChunkHeader (bytes : Bytes) : ChunkHeader :=
  { fileIndex := UInt32.ofNat (leNat (bytes.take 4))
    plaintextLength := UInt32.ofNat (leNat ((bytes.drop 4).take 4))
    offset := UInt64.ofNat (leNat ((bytes.drop 8).take 8))
    counter := UInt64.ofNat (leNat ((bytes.drop 16).take 8)) }

structure TransferDecision where
  accepted : Bool := false
  reason : Bytes := []
  outputDirectory : Bytes := []
  deriving DecidableEq

namespace TransferDecision

def encode (d : TransferDecision) : Bytes :=
  putBool d.accepted ++ putString d.reason ++ putString d.outputDirectory

def decoder : Reader TransferDecision := do
  let accepted ← takeBool
  let reason ← takeString
  let outputDirectory ← takeString
  pure { accepted, reason, outputDirectory }

def decode (payload : Bytes) : Except Failure TransferDecision := decodeWith decoder payload

end TransferDecision

/-! ## Reading back -/

theorem length_encodeChunkHeader (h : ChunkHeader) :
    (encodeChunkHeader h).length = kChunkHeaderSize := by
  simp [encodeChunkHeader, putU32, putU64, kChunkHeaderSize]

theorem decodeChunkHeader_encode (h : ChunkHeader) (body : Bytes) :
    decodeChunkHeader (encodeChunkHeader h ++ body) = h := by
  have h0 : (encodeChunkHeader h ++ body).take 4 = putU32 h.fileIndex := by
    simp [encodeChunkHeader, putU32, putU64]
  have h4 : ((encodeChunkHeader h ++ body).drop 4).take 4 = putU32 h.plaintextLength := by
    simp [encodeChunkHeader, putU32, putU64]
  have h8 : ((encodeChunkHeader h ++ body).drop 8).take 8 = putU64 h.offset := by
    simp [encodeChunkHeader, putU32, putU64, List.drop_append, List.take_append]
  have h16 : ((encodeChunkHeader h ++ body).drop 16).take 8 = putU64 h.counter := by
    simp [encodeChunkHeader, putU32, putU64, List.drop_append, List.drop_eq_nil_of_le]
  simp only [decodeChunkHeader, h0, h4, h8, h16, putU32, putU64]
  rw [leNat_leBytes_of_lt h.fileIndex.toNat_lt, leNat_leBytes_of_lt h.plaintextLength.toNat_lt,
    leNat_leBytes_of_lt h.offset.toNat_lt, leNat_leBytes_of_lt h.counter.toNat_lt]
  simp

/-- What an offer's decoder accepts of an entry. -/
structure ManifestEntry.WellFormed (entry : ManifestEntry) : Prop where
  path : isSafeRelativePath entry.path = true
  mode : entry.mode &&& 0o777 = entry.mode

theorem isSafeRelativePath_length {path : Bytes} (h : isSafeRelativePath path = true) :
    0 < path.length ∧ path.length ≤ 1024 := by
  simp only [isSafeRelativePath, Bool.and_eq_true, bne_iff_ne, decide_eq_true_eq] at h
  have hne : path ≠ [] := h.1.1.1.1.1
  have hmax : kMaxPathLength = 1024 := rfl
  have hlen : path.length ≤ kMaxPathLength := h.1.1.1.1.2
  exact ⟨List.length_pos_iff.mpr hne, by omega⟩

theorem reads_takeEntry {entry : ManifestEntry} (h : entry.WellFormed) :
    Reads takeEntry (putEntry entry) entry := by
  have hlen := isSafeRelativePath_length h.path
  simp only [putEntry, List.append_assoc]
  refine (reads_takeString (by omega)).bind ((reads_check h.path).nil_bind ?_)
  refine (reads_takeU64 entry.size).bind ((reads_takeU32 entry.mode).bind ?_)
  refine (reads_takeFixed entry.digest (by omega)).bind_nil ?_
  rw [h.mode]
  exact Reads.pure _

/-- What an offer's decoder accepts. -/
structure TransferOffer.WellFormed (o : TransferOffer) : Prop where
  username : isValidUsername o.senderUsername = true
  displayName : o.displayName.length < 2 ^ 32
  chunkSize : o.chunkSize ≠ 0 ∧ o.chunkSize.toNat ≤ kMaxChunkSize
  count : o.entries.length ≤ kMaxManifestEntries
  entries : ∀ entry ∈ o.entries, entry.WellFormed
  total : summedSize o.entries = o.totalBytes

theorem yields_takeEntry : Yields takeEntry ManifestEntry.WellFormed := by
  refine (yields_any _).bind fun _ _ => (yields_check _ _).bind fun _ hpath =>
    (yields_any _).bind fun _ _ => (yields_any _).bind fun mode _ => (yields_any _).bind fun _ _ =>
    Yields.pure ⟨hpath, ?_⟩
  rw [UInt32.and_assoc, UInt32.and_self]

def TransferOffer.format : Format Failure TransferOffer where
  encode := encode
  decoder := decoder
  Valid := WellFormed
  finishes {o} h := by
    have hn : (UInt32.ofNat o.entries.length).toNat = o.entries.length := by
      have := h.count
      have hmax : kMaxManifestEntries = 200000 := rfl
      rw [UInt32.toNat_ofNat', Nat.mod_eq_of_lt (by omega)]
    simp only [encode, List.append_assoc]
    refine (reads_takeName _ h.username).bind_finishes ?_
    refine (reads_takeString h.displayName).bind_finishes ?_
    refine (reads_takeBool o.encryptPayload).bind_finishes ?_
    refine (reads_takeEnum _ (AeadAlgorithm.ofU8?_toU8 o.algorithm)).bind_finishes ?_
    refine (reads_takeBool o.digestsPresent).bind_finishes ?_
    refine (reads_takeU32 o.chunkSize).bind_finishes ?_
    refine (reads_check h.chunkSize).nil_bind_finishes ?_
    refine (reads_takeU64 o.totalBytes).bind_finishes ?_
    refine (reads_takeU32 _).bind_finishes ?_
    refine (reads_check (by rw [hn]; exact h.count)).nil_bind_finishes ?_
    rw [hn]
    refine Reads.finishes ((reads_count fun e he => reads_takeEntry (h.entries e he)).bind_nil ?_)
    exact (reads_check h.total).nil_bind (Reads.pure o)
  yields := by
    refine (yields_takeName _).bind fun _ hu => yields_takeString.bind fun _ hd =>
      (yields_any _).bind fun _ _ => (yields_any _).bind fun _ _ => (yields_any _).bind fun _ _ =>
      (yields_any _).bind fun _ _ => (yields_check _ _).bind fun _ hc => (yields_any _).bind fun _ _ =>
      (yields_any _).bind fun n _ => (yields_check _ _).bind fun _ hn =>
      (yields_count yields_takeEntry _).bind fun es hes => (yields_check _ _).bind fun _ ht =>
      Yields.pure ?_
    exact ⟨hu, hd, hc, hes.1 ▸ hn, hes.2, ht⟩

theorem TransferOffer.decode_encode {o : TransferOffer} (h : o.WellFormed) :
    decode o.encode = .ok o := decode_of_finishes (format.finishes h)

/-- What `TransferDecision.decode` accepts. -/
structure TransferDecision.WellFormed (d : TransferDecision) : Prop where
  reason : d.reason.length < 2 ^ 32
  outputDirectory : d.outputDirectory.length < 2 ^ 32

def TransferDecision.format : Format Failure TransferDecision where
  encode := encode
  decoder := decoder
  Valid := WellFormed
  finishes {d} h := by
    simp only [encode, List.append_assoc]
    refine (reads_takeBool d.accepted).bind_finishes ?_
    refine (reads_takeString h.reason).bind_finishes ?_
    exact ((reads_takeString h.outputDirectory).bind_nil (Reads.pure d)).finishes
  yields := (yields_any _).bind fun _ _ => yields_takeString.bind fun _ hr =>
    yields_takeString.bind fun _ ho => Yields.pure ⟨hr, ho⟩

theorem TransferDecision.decode_encode {d : TransferDecision} (hr : d.reason.length < 2 ^ 32)
    (ho : d.outputDirectory.length < 2 ^ 32) : decode d.encode = .ok d :=
  decode_of_finishes (format.finishes ⟨hr, ho⟩)

end DropZone
