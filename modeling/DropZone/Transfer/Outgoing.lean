import Mathlib.Data.List.Pairwise
import DropZone.Transfer.Receiver

/-!
# What the sender sends (`client/src/sender.cpp`, `client/src/manifest.cpp`)

The manifest, the offer, and the plan that cuts the files into chunks.

* `Manifest`, `LocalFile`: with what `build_manifest` makes sure of as fields.
* `planChunks`: every chunk of every file, in order; `planFile_pairwise`, `planFile_total`: the
  chunks of a file lie side by side and add up to it.
* `Sending.offer`, `Sending.sealedPayload`, `Sending.plainPayload`: the bytes of the offer and of a
  chunk.
* `Sending.sealedMessages`: everything that is sealed in a session.
-/

namespace DropZone

open LittleEndian Parser Pieces

/-! ## The manifest -/

/-- A file to send, as `lstat` reported it: only permission bits, and a size that fits an `off_t`. -/
structure LocalFile where
  sourcePath : Bytes
  relativePath : Bytes
  size : UInt64
  mode : UInt32
  size_lt : size.toNat < 2 ^ 63
  mode_masked : mode &&& 0o777 = mode

/-- `Manifest`, as `build_manifest` makes it. -/
structure Manifest where
  files : List LocalFile
  totalBytes : UInt64
  displayName : Bytes
  nonempty : files ≠ []
  count_le : files.length ≤ kMaxManifestEntries
  safe : ∀ file ∈ files, isSafeRelativePath file.relativePath = true
  total_eq : files.foldl (fun sum file => sum + file.size) 0 = totalBytes

/-- The refusal of `build_manifest` for the first path that is not safe. -/
def unsafeInput (files : List LocalFile) : Option Failure :=
  (files.find? fun file => !isSafeRelativePath file.relativePath).map fun file =>
    .error (text "refusing to send '" ++ file.sourcePath ++
      text "' under the unsafe relative path '" ++ file.relativePath ++ text "'")

variable {chunk : ChunkPlan} {files : List LocalFile}

theorem safe_of_unsafeInput (h : unsafeInput files = none) :
    ∀ file ∈ files, isSafeRelativePath file.relativePath = true := by
  simpa [unsafeInput] using h

/-- `build_manifest`, from the files that the walk over the inputs found. -/
def buildManifest (files : List LocalFile) (displayName : Bytes) : Except Failure Manifest :=
  if hempty : files = [] then
    .error (.userError (text "nothing to send: no regular files were found"))
  else if hcount : kMaxManifestEntries < files.length then
    .error (.userError (text "that is " ++ decimal files.length ++ text " files, more than the " ++
      decimal kMaxManifestEntries ++ text " drop-zone will send in one transfer"))
  else
    match hsafe : unsafeInput files with
    | some e => .error e
    | none =>
      .ok { files := files
            totalBytes := files.foldl (fun sum file => sum + file.size) 0
            displayName := displayName
            nonempty := hempty
            count_le := Nat.le_of_not_lt hcount
            safe := safe_of_unsafeInput hsafe
            total_eq := rfl }

/-- `to_wire_entries`, with the digests of `compute_digests` if they are asked for. -/
def toWireEntries (manifest : Manifest) (digest : LocalFile → Block 32) : List ManifestEntry :=
  manifest.files.map fun file =>
    { path := file.relativePath, size := file.size, mode := file.mode, digest := digest file }

/-! ## The plan -/

structure ChunkPlan where
  fileIndex : UInt32
  offset : UInt64
  length : UInt32
  deriving DecidableEq

/-- `std::min<std::uint64_t>`. -/
def minU64 (a b : UInt64) : UInt64 := if b < a then b else a

/-- The loop over one file, for at most `fuel` turns. -/
def planFile (index : UInt32) (size : UInt64) (chunkSize : UInt32) :
    (fuel : Nat) → (offset : UInt64) → List ChunkPlan
  | 0, _ => []
  | fuel + 1, offset =>
    if offset < size then
      ⟨index, offset, (minU64 chunkSize.toUInt64 (size - offset)).toUInt32⟩ ::
        planFile index size chunkSize fuel (offset + chunkSize.toUInt64)
    else []

/-- `plan_chunks`. A file has at most one chunk for each of its bytes. -/
def planChunks (files : List LocalFile) (chunkSize : UInt32) : List ChunkPlan :=
  files.zipIdx.flatMap fun p =>
    planFile (UInt32.ofNat p.2) p.1.size chunkSize p.1.size.toNat 0

/-- The header of the chunk at `index` of the plan. -/
def ChunkPlan.header (chunk : ChunkPlan) (index : Nat) : ChunkHeader :=
  ⟨chunk.fileIndex, chunk.length, chunk.offset, UInt64.ofNat index⟩

/-! ## The bytes -/

/-- What `send_transfer` is called with. The source files do not change while they are sent, so
their contents are a parameter. -/
structure Sending where
  aead : Aead
  sha256 : Bytes → Block 32
  keys : SessionKeys
  ownUsername : Bytes
  manifest : Manifest
  /-- The contents of the files, by source path. -/
  source : Disk
  overRelay : Bool := false
  encrypt : Bool := true
  computeDigests : Bool := false
  chunkSize : UInt32
  /-- The nonce that `seal_standalone` draws for the offer. -/
  offerNonce : Block 12
  /-- `options.workers`, or one per core. -/
  workers : Nat
  workers_pos : 0 < workers
  /-- An `unsigned`. -/
  workers_lt : workers < 2 ^ 32
  username_valid : isValidUsername ownUsername = true
  name_lt : manifest.displayName.length < 2 ^ 32
  chunk_usable : chunkSize ≠ 0 ∧ chunkSize.toNat ≤ kMaxChunkSize
  unchanged : ∀ file ∈ manifest.files, (source file.sourcePath).length = file.size.toNat
  /-- The plan is a `std::vector` of 24-byte structures. -/
  plan_lt : (planChunks manifest.files chunkSize).length < 2 ^ 59

/-- The cipher's tag in the flags of the offer's frame. -/
def AeadAlgorithm.tag : AeadAlgorithm → UInt16
  | aes256Gcm => 1 | chaCha20Poly1305 => 2

namespace Sending

variable (t : Sending)

def entries : List ManifestEntry :=
  toWireEntries t.manifest fun file =>
    if t.computeDigests then t.sha256 (t.source file.sourcePath) else List.Vector.replicate 32 0

/-- The offer that `send_offer` encodes. -/
def offer : TransferOffer where
  senderUsername := t.ownUsername
  displayName := t.manifest.displayName
  entries := t.entries
  totalBytes := t.manifest.totalBytes
  encryptPayload := t.encrypt
  algorithm := t.keys.algorithm
  chunkSize := t.chunkSize
  digestsPresent := t.computeDigests

/-- The payload of the offer's frame. -/
def offerPayload : Bytes :=
  sealStandalone t.aead t.keys.algorithm t.keys.offerKey t.offerNonce kInfoOfferKey t.offer.encode

def plan : List ChunkPlan := planChunks t.manifest.files t.chunkSize

/-- The contents of the file at an index. -/
def contents (index : Nat) : Bytes :=
  match t.manifest.files[index]? with
  | some file => t.source file.sourcePath
  | none => []

def chunkData (chunk : ChunkPlan) : Bytes :=
  ((t.contents chunk.fileIndex.toNat).drop chunk.offset.toNat).take chunk.length.toNat

/-- The payload of a chunk's frame on the plaintext path. -/
def plainPayload (index : Nat) (chunk : ChunkPlan) : Bytes :=
  encodeChunkHeader (chunk.header index) ++ t.chunkData chunk

/-- The payload of a chunk's frame on the encrypted path: the job that seals it. -/
def sealedPayload (index : Nat) (chunk : ChunkPlan) : Bytes :=
  let aad := encodeChunkHeader (chunk.header index)
  aad ++ t.aead.sealBytes t.keys.algorithm t.keys.sendKey
    (buildNonce t.keys.sendNoncePrefix (UInt64.ofNat index)) aad (t.chunkData chunk)

def chunkMessage (index : Nat) (chunk : ChunkPlan) : Sealed :=
  ⟨t.keys.algorithm, t.keys.sendKey, buildNonce t.keys.sendNoncePrefix (UInt64.ofNat index),
    encodeChunkHeader (chunk.header index), t.chunkData chunk⟩

/-- Everything the sender seals in a session: its offer and its chunks. -/
def sealedMessages : List Sealed :=
  ⟨t.keys.algorithm, t.keys.offerKey, t.offerNonce, kInfoOfferKey, t.offer.encode⟩ ::
    t.plan.zipIdx.map fun p => t.chunkMessage p.2 p.1

end Sending

/-! ## The chunks of a file lie side by side -/

section Plan

variable {index : UInt32} {size : UInt64} {chunkSize : UInt32}

theorem planFile_step (chunkSize : UInt32) {offset : UInt64} (hsize : size.toNat < 2 ^ 63) (hlt : offset < size) :
    (minU64 chunkSize.toUInt64 (size - offset)).toUInt32.toNat =
        min chunkSize.toNat (size.toNat - offset.toNat) ∧
      (offset + chunkSize.toUInt64).toNat = offset.toNat + chunkSize.toNat := by
  have hlt' : offset.toNat < size.toNat := UInt64.lt_iff_toNat_lt.mp hlt
  have hc := chunkSize.toNat_lt
  have hsub : (size - offset).toNat = size.toNat - offset.toNat :=
    UInt64.toNat_sub_of_le _ _ (UInt64.le_of_lt hlt)
  constructor
  · have hmin : (minU64 chunkSize.toUInt64 (size - offset)).toNat =
        min chunkSize.toNat (size.toNat - offset.toNat) := by
      unfold minU64
      split
      · rename_i h
        rw [UInt64.lt_iff_toNat_lt, hsub, UInt32.toNat_toUInt64] at h
        rw [hsub]
        omega
      · rename_i h
        rw [UInt64.lt_iff_toNat_lt, hsub, UInt32.toNat_toUInt64] at h
        rw [UInt32.toNat_toUInt64]
        omega
    rw [UInt64.toNat_toUInt32, hmin, Nat.mod_eq_of_lt (by omega)]
  · rw [UInt64.toNat_add, UInt32.toNat_toUInt64, Nat.mod_eq_of_lt (by omega)]

/-- A chunk that the loop over a file plans from `offset` on. -/
structure PlannedFrom (index : UInt32) (size : UInt64) (chunkSize : UInt32) (offset : Nat)
    (chunk : ChunkPlan) : Prop where
  index_eq : chunk.fileIndex = index
  from_offset : offset ≤ chunk.offset.toNat
  inside : chunk.offset.toNat + chunk.length.toNat ≤ size.toNat
  length_le : chunk.length.toNat ≤ chunkSize.toNat

theorem mem_planFile (hsize : size.toNat < 2 ^ 63) {fuel : Nat} {offset : UInt64}
    (h : chunk ∈ planFile index size chunkSize fuel offset) :
    PlannedFrom index size chunkSize offset.toNat chunk := by
  induction fuel generalizing offset with
  | zero => cases h
  | succ fuel ih =>
    unfold planFile at h
    split at h
    · rename_i hlt
      obtain ⟨hlen, hnext⟩ := planFile_step chunkSize hsize hlt
      have hlt' : offset.toNat < size.toNat := UInt64.lt_iff_toNat_lt.mp hlt
      rcases List.mem_cons.mp h with rfl | h
      · refine ⟨rfl, Nat.le_refl _, ?_, ?_⟩
        · simp only [hlen]
          omega
        · simp only [hlen]
          omega
      · have hrest := ih h
        exact ⟨hrest.index_eq, by have := hrest.from_offset; omega, hrest.inside,
          hrest.length_le⟩
    · cases h

/-- `a` ends before `b` starts. -/
def ChunkPlan.Before (a b : ChunkPlan) : Prop :=
  a.offset.toNat + a.length.toNat ≤ b.offset.toNat

theorem planFile_pairwise (hsize : size.toNat < 2 ^ 63) (fuel : Nat) (offset : UInt64) :
    (planFile index size chunkSize fuel offset).Pairwise ChunkPlan.Before := by
  induction fuel generalizing offset with
  | zero => exact List.Pairwise.nil
  | succ fuel ih =>
    unfold planFile
    split
    · rename_i hlt
      obtain ⟨hlen, hnext⟩ := planFile_step chunkSize hsize hlt
      refine List.Pairwise.cons (fun b hb => ?_) (ih _)
      have hfrom := (mem_planFile hsize hb).from_offset
      simp only [ChunkPlan.Before, hlen]
      omega
    · exact List.Pairwise.nil

/-- Where a chunk goes. -/
def ChunkPlan.span (chunk : ChunkPlan) : Span := (chunk.offset.toNat, chunk.length.toNat)

/-- The lengths of the chunks planned from `offset` on add up to what is left of the file. -/
theorem planFile_total (hchunk : chunkSize ≠ 0) (hsize : size.toNat < 2 ^ 63) {fuel : Nat}
    {offset : UInt64} (hfuel : size.toNat ≤ offset.toNat + fuel) :
    total ((planFile index size chunkSize fuel offset).map ChunkPlan.span) =
      size.toNat - offset.toNat := by
  have hpos : 0 < chunkSize.toNat :=
    Nat.pos_of_ne_zero fun h => hchunk (UInt32.toNat.inj h)
  induction fuel generalizing offset with
  | zero =>
    have hle : size.toNat ≤ offset.toNat := hfuel
    simp only [planFile, List.map_nil, total, List.foldr_nil]
    omega
  | succ fuel ih =>
    unfold planFile
    split
    · rename_i hlt
      obtain ⟨hlen, hnext⟩ := planFile_step chunkSize hsize hlt
      have hlt' : offset.toNat < size.toNat := UInt64.lt_iff_toNat_lt.mp hlt
      rw [List.map_cons, total_cons, ih (by omega), ChunkPlan.span, hlen, hnext]
      dsimp only
      omega
    · rename_i hge
      have hle : size.toNat ≤ offset.toNat := by
        rw [UInt64.not_lt] at hge
        exact UInt64.le_iff_toNat_le.mp hge
      simp only [List.map_nil, total, List.foldr_nil]
      omega

end Plan

theorem mem_planChunks {chunkSize : UInt32}
    (hcount : files.length ≤ kMaxManifestEntries)
    (h : chunk ∈ planChunks files chunkSize) :
    ∃ file, files[chunk.fileIndex.toNat]? = some file ∧
      PlannedFrom chunk.fileIndex file.size chunkSize 0 chunk := by
  obtain ⟨⟨file, i⟩, hmem, hchunk⟩ := List.mem_flatMap.mp h
  have hfile : files[i]? = some file := List.mem_zipIdx_iff_getElem?.mp hmem
  have hplanned := mem_planFile file.size_lt hchunk
  have hlt : i < files.length := (List.getElem?_eq_some_iff.mp hfile).1
  have hi : chunk.fileIndex.toNat = i := by
    rw [hplanned.index_eq, UInt32.toNat_ofNat', Nat.mod_eq_of_lt]
    simp only [kMaxManifestEntries] at hcount
    omega
  refine ⟨file, hi ▸ hfile, ?_⟩
  rw [hplanned.index_eq]
  exact hplanned

/-- The chunks of one file come in order, one after the other. -/
theorem planChunks_pairwise (chunkSize : UInt32)
    (hcount : files.length ≤ kMaxManifestEntries) :
    (planChunks files chunkSize).Pairwise fun a b => a.fileIndex = b.fileIndex → a.Before b := by
  rw [planChunks, List.pairwise_flatMap]
  constructor
  · rintro ⟨file, i⟩ -
    refine (planFile_pairwise file.size_lt file.size.toNat 0).imp ?_
    intro a b h _
    exact h
  · -- Chunks of different files have different indices.
    have hidx : files.zipIdx.Pairwise fun p q => p.2 < q.2 := by
      rw [← List.pairwise_map, List.zipIdx_map_snd]
      exact List.pairwise_lt_range'
    refine hidx.imp_of_mem ?_
    rintro ⟨f, i⟩ ⟨g, j⟩ hf hg hij a ha b hb heq
    have hi := (List.getElem?_eq_some_iff.mp (List.mem_zipIdx_iff_getElem?.mp hf)).1
    have hj := (List.getElem?_eq_some_iff.mp (List.mem_zipIdx_iff_getElem?.mp hg)).1
    rw [(mem_planFile f.size_lt ha).index_eq, (mem_planFile g.size_lt hb).index_eq] at heq
    have hnat := congrArg UInt32.toNat heq
    simp only [kMaxManifestEntries] at hcount
    rw [UInt32.toNat_ofNat', UInt32.toNat_ofNat', Nat.mod_eq_of_lt (by omega),
      Nat.mod_eq_of_lt (by omega)] at hnat
    dsimp only at hij
    omega

namespace Sending

variable {t : Sending}

theorem mem_plan (h : chunk ∈ t.plan) :
    ∃ file, t.manifest.files[chunk.fileIndex.toNat]? = some file ∧
      PlannedFrom chunk.fileIndex file.size t.chunkSize 0 chunk :=
  mem_planChunks t.manifest.count_le h

/-- Two chunks of the plan that are of one file do not overlap. -/
theorem plan_apart {j k : Nat} {a b : ChunkPlan} (ha : t.plan[j]? = some a)
    (hb : t.plan[k]? = some b) (hne : j ≠ k) (hfile : a.fileIndex = b.fileIndex) :
    Disjoint (Span.positions (a.offset.toNat, a.length.toNat))
      (Span.positions (b.offset.toNat, b.length.toNat)) := by
  have hpw : t.plan.Pairwise fun a b => a.fileIndex = b.fileIndex → a.Before b :=
    planChunks_pairwise t.chunkSize t.manifest.count_le
  rw [List.pairwise_iff_getElem] at hpw
  obtain ⟨hj, rfl⟩ := List.getElem?_eq_some_iff.mp ha
  obtain ⟨hk, rfl⟩ := List.getElem?_eq_some_iff.mp hb
  rw [Finset.disjoint_left]
  intro x hx hx'
  have h1 := Finset.mem_Ico.mp hx
  have h2 := Finset.mem_Ico.mp hx'
  rcases Nat.lt_or_gt_of_ne hne with hlt | hlt
  · have hbefore := hpw j k hj hk hlt hfile
    simp only [ChunkPlan.Before] at hbefore
    omega
  · have hbefore := hpw k j hk hj hlt hfile.symm
    simp only [ChunkPlan.Before] at hbefore
    omega

/-- A chunk's bytes are the piece of its file that its header names. -/
theorem chunkData_piece (h : chunk ∈ t.plan) :
    (t.chunkData chunk).length = chunk.length.toNat ∧
      PieceOf (t.contents chunk.fileIndex.toNat) (chunk.offset.toNat, t.chunkData chunk) := by
  obtain ⟨file, hfile, hplanned⟩ := mem_plan h
  have hlen : (t.contents chunk.fileIndex.toNat).length = file.size.toNat := by
    rw [contents, hfile]
    exact t.unchanged file (List.mem_of_getElem? hfile)
  have hinside := hplanned.inside
  have hdata : (t.chunkData chunk).length = chunk.length.toNat := by
    rw [chunkData, List.length_take, List.length_drop, hlen]
    omega
  refine ⟨hdata, ?_, ?_⟩
  · simp only [hdata, hlen]
    exact hinside
  · simp only [hdata]
    rfl

/-- The sender's offer is one that the receiver's decoder accepts. -/
theorem offer_wellFormed (t : Sending) : t.offer.WellFormed where
  username := t.username_valid
  displayName := t.name_lt
  chunkSize := t.chunk_usable
  count := by
    simp only [offer, entries, toWireEntries, List.length_map]
    exact t.manifest.count_le
  entries entry hentry := by
    obtain ⟨file, hfile, rfl⟩ := List.mem_map.mp hentry
    exact ⟨t.manifest.safe file hfile, file.mode_masked⟩
  total := by
    simp only [summedSize, offer, entries, toWireEntries, List.foldl_map]
    exact t.manifest.total_eq

theorem entries_getElem? {i : Nat} {file : LocalFile} (h : t.manifest.files[i]? = some file) :
    ∃ entry, t.offer.entries[i]? = some entry ∧ entry.size = file.size ∧
      entry.path = file.relativePath := by
  simp [offer, entries, toWireEntries, h]

/-! ## What was sealed -/

/-- Under the offer's associated data only the offer was sealed. -/
theorem sealed_offer {m : Sealed} (hm : m ∈ t.sealedMessages) (haad : m.aad = kInfoOfferKey) :
    m.plaintext = t.offer.encode := by
  rcases List.mem_cons.mp hm with rfl | hm
  · rfl
  · obtain ⟨⟨chunk, k⟩, -, rfl⟩ := List.mem_map.mp hm
    have hlen := congrArg List.length haad
    rw [chunkMessage, length_encodeChunkHeader] at hlen
    cases hlen

/-- Under 24 bytes of associated data only chunks were sealed, each under its own header. -/
theorem sealed_chunk {m : Sealed} (hm : m ∈ t.sealedMessages)
    (haad : m.aad.length = kChunkHeaderSize) :
    ∃ k chunk, t.plan[k]? = some chunk ∧ m = t.chunkMessage k chunk := by
  rcases List.mem_cons.mp hm with rfl | hm
  · cases haad
  · obtain ⟨⟨chunk, k⟩, hmem, rfl⟩ := List.mem_map.mp hm
    exact ⟨k, chunk, List.mem_zipIdx_iff_getElem?.mp hmem, rfl⟩

end Sending

end DropZone
