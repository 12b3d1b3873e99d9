import Mathlib.Algebra.Ring.Nat
import DropZone.Transfer.Manifest

/-!
# How large an offer gets (`send_offer`)

The offer goes out as one frame, sealed, so that its entries have to fit `kMaxFrameLength`. Nothing in
`build_manifest` sees to that.

* `FileSystem.weight`: the bytes that the files below the inputs take in an offer; `buildManifest_weight`.
* `offer_fits`: an offer is sent and read back exactly if it is not too large. `large_offer_refused`: a manifest
  within the limit on its entries cannot be offered.
-/

namespace DropZone

open LittleEndian Parser

def kDefaultChunkSize : UInt32 := 1024 * 1024

/-- The offer of `send_offer` with the default options. -/
def Manifest.offer (manifest : Manifest) (username : Bytes) (algorithm : AeadAlgorithm) :
    TransferOffer where
  senderUsername := username
  displayName := manifest.displayName
  entries := toWireEntries manifest fun _ => List.Vector.replicate 32 0
  totalBytes := manifest.totalBytes
  algorithm := algorithm
  chunkSize := kDefaultChunkSize

theorem Sending.offer_eq {t : Sending} (hencrypt : t.encrypt = true) (hdigests : t.computeDigests = false)
    (hchunk : t.chunkSize = kDefaultChunkSize) :
    t.offer = t.manifest.offer t.ownUsername t.keys.algorithm := by
  rw [Sending.offer, Manifest.offer, Sending.entries, hencrypt, hdigests, hchunk]
  rfl

/-! ## Sizes -/

/-- The bytes of a file's entry in an offer. -/
def LocalFile.weight (file : LocalFile) : Nat := 52 + file.relativePath.length

def weightOf (files : List LocalFile) : Nat := (files.map LocalFile.weight).sum

theorem length_putEntry (entry : ManifestEntry) : (putEntry entry).length = 52 + entry.path.length := by
  simp only [putEntry, putString, putBytes, putU32, putU64, List.length_append, length_leBytes,
    List.Vector.toList_length]
  omega

theorem length_encode_offer (manifest : Manifest) (username : Bytes) (algorithm : AeadAlgorithm) :
    (manifest.offer username algorithm).encode.length =
      27 + username.length + manifest.displayName.length + weightOf manifest.files := by
  have hentries : ((manifest.offer username algorithm).entries.flatMap putEntry).length =
      weightOf manifest.files := by
    rw [List.length_flatMap, Manifest.offer, toWireEntries, List.map_map, weightOf]
    refine congrArg List.sum (List.map_congr_left fun file _ => ?_)
    exact length_putEntry _
  rw [TransferOffer.encode, List.length_append, hentries]
  simp only [Manifest.offer, putString, putBytes, putBool, putU8, putU32, putU64, List.length_append,
    length_leBytes, List.length_singleton]
  omega

theorem weightOf_flatMap {ι : Type} (part : ι → List LocalFile) (places : List ι) :
    weightOf (places.flatMap part) = (places.map fun i => weightOf (part i)).sum := by
  induction places with
  | nil => rfl
  | cons i places ih =>
    rw [List.flatMap_cons, List.map_cons, List.sum_cons, ← ih, weightOf, List.map_append, List.sum_append]
    rfl

namespace FileSystem

variable (fs : FileSystem)

/-- What a name in a directory weighs, where `before` bytes stand before it in an entry's path. -/
def weightEntry (below : Bytes → Nat → Nat) (directory : Bytes) (before : Nat) (name : Bytes) : Nat :=
  let path := joinPath directory name
  match fs.lstat path with
  | .error _ => 0
  | .ok st =>
    match st.kind with
    | .directory => below path (before + name.length + 1)
    | .regular => 52 + (before + name.length)
    | .link | .other => 0

def weightDirectory : (fuel : Nat) → (directory : Bytes) → (before : Nat) → Nat
  | 0, _, _ => 0
  | fuel + 1, directory, before =>
    match fs.readdir directory with
    | .error _ => 0
    | .ok names => ((sortedNames names).map (fs.weightEntry (weightDirectory fuel) directory before)).sum

def weightInput (home : Option Bytes) (input : Bytes) : Nat :=
  let path := expandUserPath home input
  match fs.lstat path with
  | .error _ => 0
  | .ok st =>
    match st.kind with
    | .directory => fs.weightDirectory kPathMax path (front (baseName path)).length
    | .regular => 52 + (baseName path).length
    | .link | .other => 0

/-- The bytes that the regular files below the inputs take in an offer. -/
def weight (home : Option Bytes) (inputs : List Bytes) : Nat := (inputs.map (fs.weightInput home)).sum

variable {fs} {files : List LocalFile}

theorem walkEntry_weight {walk : Bytes → Bytes → Except Failure (List LocalFile)}
    {below : Bytes → Nat → Nat} (hwalk : ∀ {directory dirPrefix files},
      walk directory dirPrefix = .ok files → weightOf files = below directory (front dirPrefix).length)
    {directory dirPrefix name : Bytes} (hname : name ≠ [])
    (h : fs.walkEntry walk directory dirPrefix name = .ok files) :
    weightOf files = fs.weightEntry below directory (front dirPrefix).length name := by
  have hne : relativePath dirPrefix name ≠ [] := by
    rw [relativePath_eq]
    exact List.append_ne_nil_of_right_ne_nil _ hname
  have hlen : (relativePath dirPrefix name).length = (front dirPrefix).length + name.length := by
    rw [relativePath_eq, List.length_append]
  unfold walkEntry at h
  unfold weightEntry
  dsimp only at h ⊢
  cases hst : fs.lstat (joinPath directory name) with
  | error errno =>
    rw [hst] at h
    cases h
  | ok st =>
    rw [hst] at h
    dsimp only at h ⊢
    cases hkind : st.kind with
    | directory =>
      rw [hkind] at h
      rw [hwalk h, front, if_neg hne, List.length_append, hlen]
      rfl
    | regular =>
      rw [hkind] at h
      cases h
      rw [← hlen]
      rfl
    | link | other =>
      rw [hkind] at h
      cases h
      rfl

theorem walkDirectory_weight {fuel : Nat} {directory dirPrefix : Bytes}
    (h : fs.walkDirectory fuel directory dirPrefix = .ok files) :
    weightOf files = fs.weightDirectory fuel directory (front dirPrefix).length := by
  induction fuel generalizing directory dirPrefix files with
  | zero => cases h
  | succ fuel ih =>
    unfold walkDirectory at h
    unfold weightDirectory
    cases hnames : fs.readdir directory with
    | error errno =>
      rw [hnames] at h
      cases h
    | ok names =>
      rw [hnames] at h
      obtain ⟨hfound, rfl⟩ := collect_ok h
      rw [weightOf_flatMap]
      refine congrArg List.sum (List.map_congr_left fun name hname => ?_)
      exact walkEntry_weight ih (fs.name_ok hnames name (mem_sortedNames hname)).1 (hfound name hname)

theorem takeInput_weight {home : Option Bytes} {input : Bytes}
    (h : fs.takeInput home input = .ok files) : weightOf files = fs.weightInput home input := by
  unfold takeInput at h
  unfold weightInput
  dsimp only at h ⊢
  cases hst : fs.lstat (expandUserPath home input) with
  | error errno =>
    rw [hst] at h
    cases h
  | ok st =>
    rw [hst] at h
    dsimp only at h ⊢
    cases hkind : st.kind with
    | directory =>
      rw [hkind] at h
      exact walkDirectory_weight h
    | regular =>
      rw [hkind] at h
      cases h
      rfl
    | link | other =>
      rw [hkind] at h
      cases h

theorem buildManifest_weight {home : Option Bytes} {inputs : List Bytes} {manifest : Manifest}
    (h : fs.buildManifest home inputs = .ok manifest) : weightOf manifest.files = fs.weight home inputs := by
  obtain ⟨hfound, hfiles⟩ := collect_ok (buildManifest_ok h).1
  rw [hfiles, weightOf_flatMap]
  exact congrArg List.sum (List.map_congr_left fun input hinput => takeInput_weight (hfound input hinput))

/-- The bytes of the sealed offer: nonce, fields, names, entries and tag. -/
def offerSize (fs : FileSystem) (home : Option Bytes) (inputs : List Bytes) (username : Bytes) : Nat :=
  kAeadNonceSize + (27 + username.length + (displayName home inputs).length + fs.weight home inputs) +
    kAeadTagSize

end FileSystem

theorem Manifest.offer_wellFormed (manifest : Manifest) {username : Bytes}
    (husername : isValidUsername username = true) (hname : manifest.displayName.length < 2 ^ 32)
    (algorithm : AeadAlgorithm) : (manifest.offer username algorithm).WellFormed where
  username := husername
  displayName := hname
  chunkSize := by
    change kDefaultChunkSize ≠ 0 ∧ kDefaultChunkSize.toNat ≤ kMaxChunkSize
    decide
  count := by
    change (toWireEntries manifest _).length ≤ _
    rw [toWireEntries, List.length_map]
    exact manifest.count_le
  entries entry h := by
    obtain ⟨file, hfile, rfl⟩ := List.mem_map.mp h
    exact ⟨manifest.safe file hfile, file.mode_masked⟩
  total := by
    change summedSize (toWireEntries manifest _) = manifest.totalBytes
    rw [summedSize, toWireEntries, List.foldl_map]
    exact manifest.total_eq

section Offer

variable {fs : FileSystem} {home : Option Bytes} {inputs : List Bytes} {manifest : Manifest}

/-- The bytes that `send_offer` puts into the offer's frame. -/
def Manifest.sealedOffer (manifest : Manifest) (aead : Aead) (algorithm : AeadAlgorithm) (key : Key)
    (nonce : Block 12) (username : Bytes) : Bytes :=
  sealStandalone aead algorithm key nonce kInfoOfferKey (manifest.offer username algorithm).encode

theorem length_sealedOffer (h : fs.buildManifest home inputs = .ok manifest) (aead : Aead)
    (algorithm : AeadAlgorithm) (key : Key) (nonce : Block 12) (username : Bytes) :
    (manifest.sealedOffer aead algorithm key nonce username).length =
      fs.offerSize home inputs username := by
  rw [Manifest.sealedOffer, sealStandalone, List.length_append, aead.length_seal, nonce.toList_length,
    length_encode_offer, FileSystem.buildManifest_weight h, (FileSystem.buildManifest_ok h).2,
    FileSystem.offerSize, kAeadNonceSize]
  omega

/-- **What `build_manifest` accepts can be offered** exactly if its entries fit a frame: the frame is sent,
and the receiver reads the same entries and the same total. -/
theorem offer_fits {aead : Aead} (hundo : aead.Undoes) {username : Bytes}
    (h : fs.buildManifest home inputs = .ok manifest) (husername : isValidUsername username = true)
    (algorithm : AeadAlgorithm) (key : Key) (nonce : Block 12) :
    fs.offerSize home inputs username ≤ kMaxFrameLength ↔
    (manifest.sealedOffer aead algorithm key nonce username).length ≤ kMaxFrameLength ∧
    writeFrame .offer (manifest.sealedOffer aead algorithm key nonce username) algorithm.tag =
      .ok (frameBytes .offer (manifest.sealedOffer aead algorithm key nonce username) algorithm.tag) ∧
    ∃ plain offer, openStandalone aead algorithm key kInfoOfferKey
        (manifest.sealedOffer aead algorithm key nonce username) = some plain ∧
      TransferOffer.decode plain = .ok offer ∧
      offer.entries = toWireEntries manifest (fun _ => List.Vector.replicate 32 0) ∧
      offer.totalBytes = manifest.totalBytes := by
  rw [← length_sealedOffer h aead algorithm key nonce]
  refine ⟨fun hlen => ?_, And.left⟩
  have hsize := length_sealedOffer h aead algorithm key nonce username
  have hname : manifest.displayName.length < 2 ^ 32 := by
    rw [(FileSystem.buildManifest_ok h).2]
    simp only [FileSystem.offerSize, kMaxFrameLength] at hsize hlen
    omega
  refine ⟨hlen, writeFrame_eq hlen _ _, (manifest.offer username algorithm).encode,
    manifest.offer username algorithm, ?_, ?_, rfl, rfl⟩
  · exact openStandalone_seal hundo ..
  · exact TransferOffer.decode_encode (manifest.offer_wellFormed husername hname algorithm)

end Offer

/-- One small file. -/
theorem offer_fits_single : ∃ manifest, allRegular.buildManifest none [text "x"] = .ok manifest ∧
    allRegular.offerSize none [text "x"] (text "u") ≤ kMaxFrameLength ∧
    (manifest.sealedOffer (clearAead fun _ => true) .aes256Gcm (List.Vector.replicate 32 0)
      (List.Vector.replicate 12 0) (text "u")).length ≤ kMaxFrameLength := by
  have hfound : collect (allRegular.takeInput none) [text "x"] =
      .ok [FileSystem.oneByte.file (text "x") (baseName (text "x"))] := by
    rw [collect, takeInput_allRegular (by decide) (by decide)]
    rfl
  obtain ⟨manifest, hbuild, -⟩ := FileSystem.buildManifest_of hfound (by simp)
    (by simp [kMaxManifestEntries]) (by simp only [List.mem_singleton, forall_eq]; decide)
  have hsize : allRegular.offerSize none [text "x"] (text "u") ≤ kMaxFrameLength := by decide +kernel
  exact ⟨manifest, hbuild, hsize, ((offer_fits clearAead_undoes hbuild (by decide) _ _ _).mp hsize).1⟩

/-! ## A directory with many files -/

def letter (n : Nat) : UInt8 := UInt8.ofNat (97 + n % 16)

theorem letter_toNat (n : Nat) : (letter n).toNat = 97 + n % 16 := by
  rw [letter, UInt8.toNat_ofNat', Nat.mod_eq_of_lt]
  omega

/-- The `n`-th of 65536 names. -/
def manyName (n : Nat) : Bytes := [letter (n / 4096), letter (n / 256), letter (n / 16), letter n]

def manyNames : List Bytes := (List.range 65536).map manyName

theorem manyName_inj {n m : Nat} (hn : n < 65536) (hm : m < 65536) (h : manyName n = manyName m) : n = m := by
  simp only [manyName, List.cons.injEq, and_true, ← UInt8.toNat_inj, letter_toNat] at h
  omega

theorem letter_ne {c : UInt8} (h : c.toNat < 97) (n : Nat) : letter n ≠ c := by
  intro he
  have := congrArg UInt8.toNat he
  rw [letter_toNat] at this
  omega

theorem manyNames_nodup : manyNames.Nodup := by
  refine List.Nodup.map_on (fun n hn m hm h => ?_) List.nodup_range
  exact manyName_inj (List.mem_range.mp hn) (List.mem_range.mp hm) h

theorem manyNames_ok : ∀ name ∈ manyNames, name ≠ [] ∧ 47 ∉ name := by
  intro name h
  obtain ⟨n, -, rfl⟩ := List.mem_map.mp h
  have hslash : ∀ n, 47 ≠ letter n := fun n => (letter_ne (by decide) n).symm
  refine ⟨List.cons_ne_nil _ _, ?_⟩
  simp [manyName, hslash]

def manyFiles : FileSystem := .flat (fun _ => true) (text "d") manyNames manyNames_nodup manyNames_ok

theorem manyName_safe (n : Nat) : isSafeRelativePath (text "d/" ++ manyName n) = true := by
  have hslash : ∀ n, letter n ≠ 47 := letter_ne (by decide)
  have hback : ∀ n, 92 ≠ letter n := fun n => (letter_ne (by decide) n).symm
  have hzero : ∀ n, 0 ≠ letter n := fun n => (letter_ne (by decide) n).symm
  have htext : text "d/" = [100, 47] ∧ text "." = [46] ∧ text ".." = [46, 46] := by decide
  rw [htext.1, manyName]
  simp [isSafeRelativePath, safeComponents, safeComponent, kMaxPathLength, hslash, hback, hzero, htext.2]

def manyFile (name : Bytes) : LocalFile := FileSystem.oneByte.file (text "d/" ++ name) (text "d/" ++ name)

theorem walkEntry_manyFiles (walk : Bytes → Bytes → Except Failure (List LocalFile)) (n : Nat) :
    manyFiles.walkEntry walk (text "d") (text "d") (manyName n) = .ok [manyFile (manyName n)] := by
  have hne : manyName n ≠ [] := List.cons_ne_nil _ _
  have hhead : (manyName n).head? ≠ some 47 := by
    simpa [manyName] using letter_ne (by decide) _
  have hpath : joinPath (text "d") (manyName n) = text "d/" ++ manyName n := by
    unfold joinPath
    rw [if_neg (by decide), if_neg hne, if_neg hhead, if_neg (by decide)]
    rfl
  have hlen : (text "d/" ++ manyName n).length = 6 := by
    rw [List.length_append]
    rfl
  have hstat : manyFiles.lstat (text "d/" ++ manyName n) = .ok FileSystem.oneByte := by
    refine FileSystem.flat_lstat (List.append_ne_nil_of_right_ne_nil _ hne) ?_ (fun h => ?_) rfl
    · rw [hlen]
      decide
    · rw [h] at hlen
      cases hlen
  unfold FileSystem.walkEntry
  dsimp only
  rw [hpath, hstat]
  rfl

theorem length_sortedNames : (FileSystem.sortedNames manyNames).length = 65536 := by
  have hall : manyNames.filter (fun name => name != text "." && name != text "..") = manyNames := by
    refine List.filter_eq_self.mpr fun name hname => ?_
    obtain ⟨n, -, rfl⟩ := List.mem_map.mp hname
    have htext : text "." = [46] ∧ text ".." = [46, 46] := by decide
    simp [manyName, htext]
  rw [FileSystem.sortedNames, List.length_mergeSort, hall, manyNames, List.length_map, List.length_range]

theorem manyFiles_manifest : ∃ manifest, manyFiles.buildManifest none [text "d"] = .ok manifest ∧
    manifest.files = (FileSystem.sortedNames manyNames).map manyFile := by
  have hentry : ∀ name ∈ FileSystem.sortedNames manyNames,
      manyFiles.walkEntry (manyFiles.walkDirectory 4095) (text "d") (text "d") name =
        .ok [manyFile name] := by
    intro name hname
    obtain ⟨n, -, rfl⟩ := List.mem_map.mp (FileSystem.mem_sortedNames hname)
    exact walkEntry_manyFiles _ n
  have hwalk : manyFiles.walkDirectory kPathMax (text "d") (text "d") =
      .ok ((FileSystem.sortedNames manyNames).map manyFile) := by
    change manyFiles.walkDirectory (4095 + 1) (text "d") (text "d") = _
    unfold FileSystem.walkDirectory
    rw [show manyFiles.readdir (text "d") = .ok manyNames from FileSystem.flat_readdir]
    dsimp only
    rw [collect_of_ok hentry, List.map_eq_flatMap]
  have hinput : manyFiles.takeInput none (text "d") =
      .ok ((FileSystem.sortedNames manyNames).map manyFile) := by
    have hpath : expandUserPath none (text "d") = text "d" ∧ baseName (text "d") = text "d" := by decide
    unfold FileSystem.takeInput
    dsimp only
    rw [hpath.1, hpath.2, show manyFiles.lstat (text "d") = .ok FileSystem.folder from
      FileSystem.flat_lstat_directory (by decide) (by decide)]
    exact hwalk
  have hfound : collect (manyFiles.takeInput none) [text "d"] =
      .ok ((FileSystem.sortedNames manyNames).map manyFile) := by
    rw [collect, hinput, collect]
    exact congrArg Except.ok (List.append_nil _)
  have hlength : ((FileSystem.sortedNames manyNames).map manyFile).length = 65536 := by
    rw [List.length_map, length_sortedNames]
  refine FileSystem.buildManifest_of hfound ?_ ?_ ?_
  · exact List.ne_nil_of_length_pos (by rw [hlength]; decide)
  · rw [hlength]
    decide
  · intro file hfile
    obtain ⟨name, hname, rfl⟩ := List.mem_map.mp hfile
    obtain ⟨n, -, rfl⟩ := List.mem_map.mp (FileSystem.mem_sortedNames hname)
    exact manyName_safe n

/-- A directory with 65536 files is within the limit on entries, but its offer is refused. -/
theorem large_offer_refused : ∃ manifest, manyFiles.buildManifest none [text "d"] = .ok manifest ∧
    ∀ aead algorithm key nonce username,
      kMaxFrameLength < (manifest.sealedOffer aead algorithm key nonce username).length ∧
      writeFrame .offer (manifest.sealedOffer aead algorithm key nonce username) algorithm.tag =
        .error (.error (text "refusing to send an oversized frame")) := by
  obtain ⟨manifest, hbuild, hfiles⟩ := manyFiles_manifest
  refine ⟨manifest, hbuild, fun aead algorithm key nonce username => ?_⟩
  have hweight : weightOf manifest.files = 65536 * 58 := by
    have heach : ∀ file ∈ manifest.files, file.weight = 58 := by
      rw [hfiles]
      intro file hfile
      obtain ⟨name, hname, rfl⟩ := List.mem_map.mp hfile
      obtain ⟨n, -, rfl⟩ := List.mem_map.mp (FileSystem.mem_sortedNames hname)
      rfl
    rw [weightOf, List.map_congr_left heach, List.map_const', List.sum_replicate_nat, hfiles,
      List.length_map, length_sortedNames]
  have hlen : kMaxFrameLength < (manifest.sealedOffer aead algorithm key nonce username).length := by
    rw [length_sealedOffer hbuild, FileSystem.offerSize, ← FileSystem.buildManifest_weight hbuild, hweight]
    simp only [kMaxFrameLength]
    omega
  refine ⟨hlen, ?_⟩
  unfold writeFrame
  rw [if_pos hlen]

end DropZone
