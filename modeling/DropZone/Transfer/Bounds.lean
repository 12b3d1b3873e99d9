import Mathlib.Algebra.Ring.Nat
import DropZone.Transfer.ReceiverSteps

/-!
# The sums that a receiver checks

Two checks of the receiver add numbers of the sender in 64 bits: the total of an offer and the end of
a chunk. Either sum wraps for some numbers, and the check then compares something else.

* `offeredSizes`: the sizes in the bytes of an offer. `declared_total`: the total that was declared is
  their sum exactly where that is less than `2 ^ 64`. `wrapped_total_accepted`: two files can be offered
  with a total of nothing.
* `chunk_inside`: a chunk that is accepted is inside its file exactly where its end does not wrap.
  `wrapped_chunk_accepted`: one that starts at the last offset there is passes for the start of a file.
-/

namespace DropZone

open LittleEndian Parser Pieces

/-! ## Sizes on the wire -/

/-- What follows a string. -/
def skipString (bs : Bytes) : Bytes := bs.drop (4 + leNat (bs.take 4))

/-- The sizes in the next `n` entries. Behind a size are the mode and the digest with its length. -/
def entrySizes : Nat → Bytes → List Nat
  | 0, _ => []
  | n + 1, bs => leNat ((skipString bs).take 8) :: entrySizes n ((skipString bs).drop 48)

/-- The sizes in an offer. Between the names and the number of entries are three single bytes, the
size of a chunk and the total. -/
def offeredSizes (bs : Bytes) : List Nat :=
  entrySizes (leNat (((skipString (skipString bs)).drop 15).take 4))
    ((skipString (skipString bs)).drop 19)

variable {bs rest : Bytes}

theorem run_takeRaw {n : Nat} {b : Block n} (h : (takeRaw n).run bs = .ok (b, rest)) :
    b.toList = bs.take n ∧ rest = bs.drop n := by
  obtain rfl := run_exactly_eq_ok.mp h
  have hlen : b.toList.length = n := b.2
  exact ⟨(List.take_left' hlen).symm, (List.drop_left' hlen).symm⟩

theorem run_takeU8 {v : UInt8} (h : takeU8.run bs = .ok (v, rest)) : rest = bs.drop 1 := by
  obtain ⟨b, mid, hraw, hpure⟩ := run_bind_eq_ok.mp h
  cases hpure
  exact (run_takeRaw hraw).2

theorem run_takeBool {v : Bool} (h : takeBool.run bs = .ok (v, rest)) : rest = bs.drop 1 := by
  obtain ⟨b, mid, hu8, hpure⟩ := run_bind_eq_ok.mp h
  cases hpure
  exact run_takeU8 hu8

theorem run_takeU32 {v : UInt32} (h : takeU32.run bs = .ok (v, rest)) :
    v.toNat = leNat (bs.take 4) ∧ rest = bs.drop 4 := by
  obtain ⟨b, mid, hraw, hpure⟩ := run_bind_eq_ok.mp h
  cases hpure
  obtain ⟨hb, hrest⟩ := run_takeRaw hraw
  have hlt : leNat b.toList < 2 ^ 32 := by
    have := leNat_lt b.toList
    rwa [List.Vector.toList_length] at this
  refine ⟨?_, hrest⟩
  rw [UInt32.toNat_ofNat', Nat.mod_eq_of_lt hlt, hb]

theorem run_takeU64 {v : UInt64} (h : takeU64.run bs = .ok (v, rest)) :
    v.toNat = leNat (bs.take 8) ∧ rest = bs.drop 8 := by
  obtain ⟨b, mid, hraw, hpure⟩ := run_bind_eq_ok.mp h
  cases hpure
  obtain ⟨hb, hrest⟩ := run_takeRaw hraw
  have hlt : leNat b.toList < 2 ^ 64 := by
    have := leNat_lt b.toList
    rwa [List.Vector.toList_length] at this
  refine ⟨?_, hrest⟩
  rw [UInt64.toNat_ofNat', Nat.mod_eq_of_lt hlt, hb]

theorem run_takeString {s : Bytes} (h : takeString.run bs = .ok (s, rest)) : rest = skipString bs := by
  obtain ⟨len, mid, hlen, h⟩ := run_bind_eq_ok.mp h
  obtain ⟨b, mid', hraw, hpure⟩ := run_bind_eq_ok.mp h
  cases hpure
  obtain ⟨hvalue, rfl⟩ := run_takeU32 hlen
  rw [(run_takeRaw hraw).2, List.drop_drop, hvalue]
  rfl

theorem run_takeName {invalid name : Bytes} (h : (takeName invalid).run bs = .ok (name, rest)) :
    rest = skipString bs := by
  obtain ⟨s, mid, hs, h⟩ := run_bind_eq_ok.mp h
  obtain ⟨u, mid', hcheck, hpure⟩ := run_bind_eq_ok.mp h
  cases hpure
  rw [← (run_check_eq_ok.mp hcheck).2]
  exact run_takeString hs

theorem run_takeEnum {α : Type} {ofU8? : UInt8 → Option α} {unknown : Bytes} {v : α}
    (h : (takeEnum ofU8? unknown).run bs = .ok (v, rest)) : rest = bs.drop 1 := by
  obtain ⟨b, mid, hu8, h⟩ := run_bind_eq_ok.mp h
  rw [← run_takeU8 hu8]
  cases hv : ofU8? b with
  | none =>
    rw [hv] at h
    cases h
  | some w =>
    rw [hv] at h
    cases h
    rfl

theorem run_takeFixed {n : Nat} {b : Block n} (h : (takeFixed n).run bs = .ok (b, rest)) :
    rest = bs.drop (4 + n) := by
  obtain ⟨len, mid, hlen, h⟩ := run_bind_eq_ok.mp h
  obtain ⟨u, mid', hcheck, hraw⟩ := run_bind_eq_ok.mp h
  obtain ⟨-, rfl⟩ := run_check_eq_ok.mp hcheck
  rw [(run_takeRaw hraw).2, (run_takeU32 hlen).2, List.drop_drop]

theorem run_takeEntry {entry : ManifestEntry} (h : takeEntry.run bs = .ok (entry, rest)) :
    entry.size.toNat = leNat ((skipString bs).take 8) ∧ rest = (skipString bs).drop 48 := by
  obtain ⟨path, bs₁, hpath, h⟩ := run_bind_eq_ok.mp h
  obtain ⟨u, bs₂, hsafe, h⟩ := run_bind_eq_ok.mp h
  obtain ⟨size, bs₃, hsize, h⟩ := run_bind_eq_ok.mp h
  obtain ⟨mode, bs₄, hmode, h⟩ := run_bind_eq_ok.mp h
  obtain ⟨digest, bs₅, hdigest, hpure⟩ := run_bind_eq_ok.mp h
  cases hpure
  obtain rfl := run_takeString hpath
  obtain ⟨-, rfl⟩ := run_check_eq_ok.mp hsafe
  obtain ⟨hvalue, rfl⟩ := run_takeU64 hsize
  refine ⟨hvalue, ?_⟩
  rw [run_takeFixed hdigest, (run_takeU32 hmode).2, List.drop_drop, List.drop_drop]

theorem run_takeEntries {n : Nat} {entries : List ManifestEntry}
    (h : (count takeEntry n).run bs = .ok (entries, rest)) :
    entries.map (fun entry => entry.size.toNat) = entrySizes n bs := by
  induction n generalizing bs entries with
  | zero =>
    cases h
    rfl
  | succ n ih =>
    obtain ⟨entry, mid, hentry, h⟩ := run_bind_eq_ok.mp h
    obtain ⟨entries, mid', hentries, hpure⟩ := run_bind_eq_ok.mp h
    cases hpure
    obtain ⟨hsize, rfl⟩ := run_takeEntry hentry
    rw [List.map_cons, hsize, ih hentries]
    rfl

theorem run_decoder {offer : TransferOffer} (h : TransferOffer.decoder.run bs = .ok (offer, rest)) :
    offer.entries.map (fun entry => entry.size.toNat) = offeredSizes bs := by
  obtain ⟨name, bs₁, hname, h⟩ := run_bind_eq_ok.mp h
  obtain ⟨display, bs₂, hdisplay, h⟩ := run_bind_eq_ok.mp h
  obtain ⟨encrypt, bs₃, hencrypt, h⟩ := run_bind_eq_ok.mp h
  obtain ⟨algorithm, bs₄, halgorithm, h⟩ := run_bind_eq_ok.mp h
  obtain ⟨digests, bs₅, hdigests, h⟩ := run_bind_eq_ok.mp h
  obtain ⟨chunkSize, bs₆, hchunk, h⟩ := run_bind_eq_ok.mp h
  obtain ⟨u₇, bs₇, husable, h⟩ := run_bind_eq_ok.mp h
  obtain ⟨total, bs₈, htotal, h⟩ := run_bind_eq_ok.mp h
  obtain ⟨n, bs₉, hn, h⟩ := run_bind_eq_ok.mp h
  obtain ⟨u₁₀, bs₁₀, hallowed, h⟩ := run_bind_eq_ok.mp h
  obtain ⟨entries, bs₁₁, hentries, h⟩ := run_bind_eq_ok.mp h
  obtain ⟨u₁₂, bs₁₂, hsum, hpure⟩ := run_bind_eq_ok.mp h
  cases hpure
  -- the fields before the number of entries, one after the other
  have hfields : bs₈ = (skipString (skipString bs)).drop 15 := by
    rw [(run_takeU64 htotal).2, ← (run_check_eq_ok.mp husable).2, (run_takeU32 hchunk).2,
      run_takeBool hdigests, run_takeEnum halgorithm, run_takeBool hencrypt, run_takeString hdisplay,
      run_takeName hname]
    simp only [List.drop_drop]
  obtain ⟨hcount, rfl⟩ := run_takeU32 hn
  obtain ⟨-, rfl⟩ := run_check_eq_ok.mp hallowed
  rw [run_takeEntries hentries, hcount, hfields, List.drop_drop]
  rfl

theorem TransferOffer.decode_sizes {offer : TransferOffer} (h : TransferOffer.decode bs = .ok offer) :
    offer.entries.map (fun entry => entry.size.toNat) = offeredSizes bs ∧ offer.WellFormed := by
  obtain ⟨rest, hrun⟩ := decodeWith_eq_ok.mp h
  exact ⟨run_decoder hrun, TransferOffer.format.yields hrun⟩

/-! ## The total -/

/-- The sum that the code takes, from `sum` on. -/
theorem toNat_summed (entries : List ManifestEntry) (sum : UInt64) :
    (entries.foldl (fun sum entry => sum + entry.size) sum).toNat =
      (sum.toNat + (entries.map fun entry => entry.size.toNat).sum) % 2 ^ 64 := by
  induction entries generalizing sum with
  | nil => exact (Nat.mod_eq_of_lt sum.toNat_lt).symm
  | cons entry entries ih =>
    rw [List.foldl_cons, ih, UInt64.toNat_add, List.map_cons, List.sum_cons, Nat.mod_add_mod,
      Nat.add_assoc]

/-- The total that an offer declares is the sum of the sizes of its files exactly where that sum is not
too large. -/
theorem declared_total {offer : TransferOffer} (hdecode : TransferOffer.decode bs = .ok offer) :
    offer.totalBytes.toNat = (offer.entries.map fun entry => entry.size.toNat).sum ↔
      (offeredSizes bs).sum < 2 ^ 64 := by
  obtain ⟨hsizes, hformed⟩ := TransferOffer.decode_sizes hdecode
  have hsum := toNat_summed offer.entries 0
  change (summedSize offer.entries).toNat = _ at hsum
  rw [hformed.total, hsizes, UInt64.toNat_zero, Nat.zero_add] at hsum
  have hlt := offer.totalBytes.toNat_lt
  rw [hsizes]
  constructor
  · intro htotal
    omega
  · intro hfits
    rw [hsum, Nat.mod_eq_of_lt hfits]

/-- An offer of files of the given sizes, with the sum that the code takes. -/
def sizedOffer (sizes : List UInt64) : TransferOffer where
  senderUsername := text "alice"
  displayName := text "stuff"
  entries := sizes.map fun size =>
    { path := text "a.bin", size := size, digest := List.Vector.replicate 32 0 }
  totalBytes := sizes.foldl (· + ·) 0
  chunkSize := 1024 * 1024

theorem sizedOffer_wellFormed {sizes : List UInt64} (h : sizes.length ≤ kMaxManifestEntries) :
    (sizedOffer sizes).WellFormed where
  username := by
    change isValidUsername (text "alice") = true
    decide
  displayName := by
    change (text "stuff").length < 2 ^ 32
    decide
  chunkSize := by
    change (1024 * 1024 : UInt32) ≠ 0 ∧ (1024 * 1024 : UInt32).toNat ≤ kMaxChunkSize
    decide
  count := by
    rw [sizedOffer, List.length_map]
    exact h
  entries entry hentry := by
    obtain ⟨size, -, rfl⟩ := List.mem_map.mp hentry
    have hpath : isSafeRelativePath (text "a.bin") = true := by decide
    have hmode : (0o644 : UInt32) &&& 0o777 = 0o644 := by decide
    exact ⟨hpath, hmode⟩
  total := by
    simp only [sizedOffer, summedSize, List.foldl_map]

theorem sizedOffer_decode {sizes : List UInt64} (h : sizes.length ≤ kMaxManifestEntries) :
    TransferOffer.decode (sizedOffer sizes).encode = .ok (sizedOffer sizes) :=
  TransferOffer.decode_encode (sizedOffer_wellFormed h)

theorem declared_total_pair : ∃ offer, TransferOffer.decode (sizedOffer [100, 50]).encode = .ok offer ∧
    (offeredSizes (sizedOffer [100, 50]).encode).sum < 2 ^ 64 ∧
    offer.totalBytes.toNat = (offer.entries.map fun entry => entry.size.toNat).sum := by
  have hdecode : TransferOffer.decode (sizedOffer [100, 50]).encode = .ok (sizedOffer [100, 50]) :=
    sizedOffer_decode (by decide)
  have hfits : (offeredSizes (sizedOffer [100, 50]).encode).sum < 2 ^ 64 := by
    rw [← (TransferOffer.decode_sizes hdecode).1]
    decide
  exact ⟨_, hdecode, hfits, (declared_total hdecode).mpr hfits⟩

/-- Two files of `2 ^ 63` bytes are offered with a total of 0. -/
theorem wrapped_total_accepted : ∃ bs offer, TransferOffer.decode bs = .ok offer ∧
    offer.totalBytes = 0 ∧ (offer.entries.map fun entry => entry.size.toNat).sum = 2 ^ 64 :=
  ⟨_, sizedOffer [0x8000000000000000, 0x8000000000000000], sizedOffer_decode (by decide), by decide,
    by decide +kernel⟩

/-! ## The end of a chunk -/

theorem validateChunk_length {header : ChunkHeader} {files : List OutputFile} {expected : UInt64}
    {maxSize : UInt32} (h : validateChunk header files expected maxSize = .ok ()) :
    header.plaintextLength ≤ maxSize := by
  unfold validateChunk at h
  split at h
  · cases h
  · split at h
    · cases h
    · rename_i hlength
      exact UInt32.not_lt.mp hlength

/-- A chunk that is accepted is inside its file, so that writing it leaves the file as long as it was,
exactly where its end does not wrap. -/
theorem chunk_inside {offer : TransferOffer} (hdecode : TransferOffer.decode bs = .ok offer)
    {files : List OutputFile}
    (hfiles : files.map OutputFile.expectedSize = offer.entries.map ManifestEntry.size)
    {header : ChunkHeader} {expected : UInt64}
    (hvalid : validateChunk header files expected offer.chunkSize = .ok ()) :
    header.plaintextLength.toNat ≤ kMaxChunkSize ∧
    ∃ file, files[header.fileIndex.toNat]? = some file ∧
      (offer.entries[header.fileIndex.toNat]?).map ManifestEntry.size = some file.expectedSize ∧
      ((header.offset.toNat + header.plaintextLength.toNat ≤ file.expectedSize.toNat ∧
        ∀ contents data : Bytes, contents.length = file.expectedSize.toNat →
          data.length = header.plaintextLength.toNat →
            (overlay contents header.offset.toNat data).length = contents.length) ↔
        header.offset.toNat + header.plaintextLength.toNat < 2 ^ 64) := by
  obtain ⟨-, hformed⟩ := TransferOffer.decode_sizes hdecode
  obtain ⟨⟨size, hsize, hbound⟩, -⟩ := validateChunk_ok hvalid
  have hlength := UInt32.le_iff_toNat_le.mp (validateChunk_length hvalid)
  refine ⟨hlength.trans hformed.chunkSize.2, ?_⟩
  have hentry := hsize
  rw [hfiles, List.getElem?_map] at hentry
  rw [List.getElem?_map] at hsize
  obtain ⟨file, hfile, rfl⟩ := Option.map_eq_some_iff.mp hsize
  refine ⟨file, hfile, hentry, ?_⟩
  constructor
  · rintro ⟨hinside, -⟩
    have hlt := file.expectedSize.toNat_lt
    omega
  · intro hwrap
    have hinside : header.offset.toNat + header.plaintextLength.toNat ≤ file.expectedSize.toNat := by
      have hle := UInt64.le_iff_toNat_le.mp hbound
      rwa [UInt64.toNat_add, UInt32.toNat_toUInt64, Nat.mod_eq_of_lt hwrap] at hle
    refine ⟨hinside, fun contents data hcontents hdata => ?_⟩
    apply length_overlay
    omega

def sizedOutput (size : UInt64) : OutputFile where
  path := text "out/a.bin"
  expectedSize := size
  mode := 0o644

theorem chunk_inside_last : ∃ (offer : TransferOffer) (header : ChunkHeader),
    TransferOffer.decode (sizedOffer [100]).encode = .ok offer ∧
    validateChunk header [sizedOutput 100] 7 offer.chunkSize = .ok () ∧
    header.offset.toNat + header.plaintextLength.toNat ≤ 100 := by
  have hdecode : TransferOffer.decode (sizedOffer [100]).encode = .ok (sizedOffer [100]) :=
    sizedOffer_decode (by decide)
  have hvalid : validateChunk ⟨0, 40, 60, 7⟩ [sizedOutput 100] 7 (sizedOffer [100]).chunkSize = .ok () :=
    by decide
  have hfiles : [sizedOutput 100].map OutputFile.expectedSize =
      (sizedOffer [100]).entries.map ManifestEntry.size := rfl
  obtain ⟨-, file, hfile, -, hiff⟩ := chunk_inside hdecode hfiles hvalid
  cases hfile
  exact ⟨_, _, hdecode, hvalid, (hiff.mpr (by decide)).1⟩

/-- A file of one byte is opened, and two bytes for it at the last offset that there is are accepted. -/
theorem wrapped_chunk_accepted : ∃ (bs : Bytes) (offer : TransferOffer) (paths : List Bytes)
    (files : List OutputFile) (disk : Disk) (header : ChunkHeader),
    TransferOffer.decode bs = .ok offer ∧
    resolveOutputPaths (text "out") offer.entries = .ok paths ∧
    openOutputs {} 0 offer.entries paths (fun _ => []) = .ok (files, disk) ∧
    validateChunk header files 0 offer.chunkSize = .ok () ∧
    ∃ file, files[header.fileIndex.toNat]? = some file ∧ file.expectedSize = 1 ∧
      file.expectedSize.toNat < header.offset.toNat + header.plaintextLength.toNat := by
  have hvalid : validateChunk ⟨0, 2, 0xffffffffffffffff, 0⟩ [sizedOutput 1] 0 (sizedOffer [1]).chunkSize =
      .ok () := by decide +kernel
  have hpaths : resolveOutputPaths (text "out") (sizedOffer [1]).entries = .ok [text "out/a.bin"] := by
    decide +kernel
  exact ⟨_, sizedOffer [1], _, [sizedOutput 1], _, _, sizedOffer_decode (by decide), hpaths, rfl, hvalid,
    sizedOutput 1, rfl, rfl, by decide +kernel⟩

end DropZone
