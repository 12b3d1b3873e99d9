import DropZone.Handshake.PeersFile

/-!
# The lines of a known_peers file

A known_peers file may have been written by hand. `load` reads each line with a string stream; here the
lines are those of any file, and their words are what stands between white space.

* `KnownPeers.kept`: the first two words are a valid username and 64 hexadecimal digits.
* `KnownPeers.reads_filterMap`: the records are those of the lines that are kept, in their order.
* `KnownPeers.firstLine`: the first such line of a username, which alone `check` goes by.
-/

namespace DropZone

open LittleEndian

/-- The words of a line. -/
def words (line : Bytes) : List Bytes := (line.splitOnP isSpace).filter (· ≠ [])

def isHexDigit (c : UInt8) : Bool := isDigit c || (97 ≤ c && c ≤ 102) || (65 ≤ c && c ≤ 70)

namespace KnownPeers

/-- The first two words are a valid username and 64 hexadecimal digits. -/
def kept (line : Bytes) : Bool :=
  match words line with
  | username :: keyHex :: _ => isValidUsername username && keyHex.length == 64 && keyHex.all isHexDigit
  | _ => false

/-- The record has the username and the key that the first two words of the line say. -/
def Reads (line : Bytes) (peer : KnownPeer) : Prop :=
  ∃ keyHex rest, words line = peer.username :: keyHex :: rest ∧
    fromHex keyHex = some peer.identityKey.toList

/-- The first line of a file that is kept for a username. -/
def firstLine (file username : Bytes) : Option Bytes :=
  (getLines [] file).find? fun line => kept line && (words line).head? == some username

end KnownPeers

/-! ## Words -/

theorem words_space {c : UInt8} (h : isSpace c = true) (s : Bytes) : words (c :: s) = words s := by
  unfold words
  rw [List.splitOnP_cons_eq_if_modifyHead, if_pos h, List.filter_cons_of_neg (by simp)]

theorem words_dropWhile (s : Bytes) : words (s.dropWhile isSpace) = words s := by
  induction s with
  | nil => rfl
  | cons c s ih =>
    by_cases hc : isSpace c = true
    · rw [List.dropWhile_cons_of_pos hc, ih, words_space hc]
    · rw [List.dropWhile_cons_of_neg hc]

/-- A word, and then the end of the line or white space. -/
theorem words_append {w s : Bytes} (hw : ∀ c ∈ w, isSpace c = false) (hne : w ≠ [])
    (hs : ∀ c ∈ s.head?, isSpace c = true) : words (w ++ s) = w :: words s := by
  cases s with
  | nil =>
    rw [words, List.append_nil, List.splitOnP_eq_singleton hw]
    simp [words, hne]
  | cons c s =>
    have hc := hs c rfl
    rw [words_space hc, words, List.splitOnP_append_cons_of_forall_mem hw c hc]
    simp [words, hne]

/-- `>>` takes the first word, if there is one. -/
theorem words_takeWord (s : Bytes) :
    words s = if (takeWord s).1 = [] then [] else (takeWord s).1 :: words (takeWord s).2 := by
  rw [← words_dropWhile]
  unfold takeWord
  dsimp only
  generalize ht : s.dropWhile isSpace = t
  have hhead : ∀ c ∈ t.head?, isSpace c = false := by
    intro c hc
    have := List.head?_dropWhile_not isSpace s
    rw [ht, hc] at this
    exact this
  have hsplit := List.takeWhile_append_dropWhile (p := fun c => !isSpace c) (l := t)
  split
  · rename_i hnone
    cases t with
    | nil => rfl
    | cons c t =>
      rw [List.takeWhile_cons_of_pos (by rw [hhead c rfl]; rfl)] at hnone
      cases hnone
  · rename_i hword
    nth_rw 1 [← hsplit]
    refine words_append (fun c hc => ?_) hword fun c hc => ?_
    · simpa using List.mem_takeWhile_imp hc
    · have := List.head?_dropWhile_not (fun c => !isSpace c) t
      rw [hc] at this
      simpa using this

/-! ## Keys -/

theorem hexValue_isSome (c : UInt8) : (hexValue c).isSome = isHexDigit c := by
  unfold hexValue isHexDigit isDigit
  split
  · simp_all
  · split
    · simp_all
    · split <;> simp_all

theorem fromHex_isSome (hex : Bytes) :
    (fromHex hex).isSome = (hex.length % 2 == 0 && hex.all isHexDigit) := by
  fun_induction fromHex hex with
  | case1 => rfl
  | case2 => rfl
  | case3 c d hex ih =>
    have heven : (c :: d :: hex).length % 2 = hex.length % 2 :=
      Nat.add_mod_right hex.length 2
    rw [heven, List.all_cons, List.all_cons, ← hexValue_isSome c, ← hexValue_isSome d]
    cases hexValue c with
    | none => simp
    | some high =>
      cases hexValue d with
      | none => simp
      | some low =>
        rw [Option.isSome_some, Bool.true_and, Option.isSome_some, Bool.true_and, ← ih]
        cases fromHex hex <;> rfl

theorem length_fromHex {hex key : Bytes} (h : fromHex hex = some key) : hex.length = 2 * key.length := by
  fun_induction fromHex hex generalizing key with
  | case1 =>
    cases h
    rfl
  | case2 => cases h
  | case3 c d hex ih =>
    simp only [bind, Option.bind_eq_some_iff, pure, Option.some_inj] at h
    obtain ⟨_, -, _, -, rest, hrest, rfl⟩ := h
    have := ih hrest
    simp only [List.length_cons]
    omega

/-- A key is 64 hexadecimal digits. -/
theorem exists_key_iff (hex : Bytes) :
    (∃ key : Block 32, fromHex hex = some key.toList) ↔ hex.length = 64 ∧ hex.all isHexDigit = true := by
  constructor
  · rintro ⟨key, hkey⟩
    have hsome := fromHex_isSome hex
    rw [hkey, Option.isSome_some, eq_comm, Bool.and_eq_true] at hsome
    exact ⟨by rw [length_fromHex hkey, key.toList_length], hsome.2⟩
  · rintro ⟨hlen, hdigits⟩
    obtain ⟨key, hkey⟩ := Option.isSome_iff_exists.mp
      (show (fromHex hex).isSome = true by rw [fromHex_isSome, hlen, hdigits]; rfl)
    have := length_fromHex hkey
    exact ⟨⟨key, by omega⟩, hkey⟩

namespace KnownPeers

variable {l : Bytes} {peer : KnownPeer}

/-- A line that begins with `#` has no valid username. -/
theorem not_kept_comment (h : l.head? = some 35) : kept l = false := by
  cases l with
  | nil => cases h
  | cons c s =>
    cases h
    have hspace : isSpace 35 = false := by decide
    have hword : (takeWord (35 :: s)).1 = 35 :: s.takeWhile (!isSpace ·) := by
      simp [takeWord, hspace]
    rw [kept, words_takeWord, hword, if_neg (List.cons_ne_nil _ _)]
    split
    · rename_i username keyHex rest hwords
      obtain ⟨rfl, -⟩ := List.cons.inj hwords
      have hchar : usernameChar 35 = false := by decide
      simp [isValidUsername, hchar]
    · rfl

/-- The first two words, where both are there. -/
theorem words_two (hname : (takeWord l).1 ≠ []) (hkey : (takeWord (takeWord l).2).1 ≠ []) :
    words l = (takeWord l).1 :: (takeWord (takeWord l).2).1 :: words (takeWord (takeWord l).2).2 := by
  rw [words_takeWord, if_neg hname, words_takeWord (takeWord l).2, if_neg hkey]

theorem not_kept_short (h : (takeWord l).1 = [] ∨ (takeWord (takeWord l).2).1 = []) : kept l = false := by
  rw [kept, words_takeWord]
  split
  · rename_i username keyHex rest hwords
    split at hwords
    · cases hwords
    · rename_i hname
      rw [words_takeWord, if_pos (h.resolve_left hname)] at hwords
      cases hwords
  · rfl

/-- A line gives a record exactly if it is kept, and then the one that its words say. -/
theorem loadLine_spec (l : Bytes) :
    if kept l then ∃ peer, loadLine l = some peer ∧ Reads l peer else loadLine l = none := by
  unfold loadLine
  by_cases hskip : l = [] ∨ l.head? = some 35
  · have hnot : kept l = false := by
      rcases hskip with rfl | hcomment
      · rfl
      · exact not_kept_comment hcomment
    rw [hnot, if_pos hskip]
    exact rfl
  · rw [if_neg hskip]
    dsimp only
    by_cases hshort : (takeWord l).1 = [] ∨ (takeWord (takeWord l).2).1 = []
    · rw [not_kept_short hshort, if_pos hshort]
      exact rfl
    · obtain ⟨hname, hkey⟩ := not_or.mp hshort
      have hwords := words_two hname hkey
      have hkept : kept l = (isValidUsername (takeWord l).1 &&
          (takeWord (takeWord l).2).1.length == 64 && (takeWord (takeWord l).2).1.all isHexDigit) := by
        rw [kept, hwords]
      have hdigits := exists_key_iff (takeWord (takeWord l).2).1
      rw [if_neg hshort, hkept]
      by_cases hvalid : isValidUsername (takeWord l).1 = true
      · rw [if_pos hvalid, hvalid, Bool.true_and]
        cases hhex : fromHex (takeWord (takeWord l).2).1 with
        | none =>
          rw [if_neg]
          rw [Bool.and_eq_true, beq_iff_eq, ← hdigits, hhex]
          rintro ⟨key, hnone⟩
          cases hnone
        | some key =>
          by_cases hlen : key.length = 32
          · rw [if_pos]
            · exact ⟨_, dif_pos hlen, _, _, hwords, hhex⟩
            · rw [Bool.and_eq_true, beq_iff_eq, ← hdigits]
              exact ⟨⟨key, hlen⟩, hhex⟩
          · rw [if_neg]
            · exact dif_neg hlen
            · rw [Bool.and_eq_true, beq_iff_eq, ← hdigits, hhex]
              rintro ⟨key', hsame⟩
              cases hsame
              exact hlen key'.toList_length
      · rw [if_neg hvalid, if_neg (by simp [hvalid])]

theorem loadLine_of_kept (h : kept l = true) : ∃ peer, loadLine l = some peer ∧ Reads l peer := by
  have hspec := loadLine_spec l
  rwa [if_pos h] at hspec

theorem loadLine_of_not_kept (h : kept l = false) : loadLine l = none := by
  have hspec := loadLine_spec l
  rwa [if_neg (by rw [h]; decide)] at hspec

/-! ## Files -/

/-- The records of the lines that are kept, in their order. -/
theorem reads_filterMap (ls : List Bytes) : List.Forall₂ Reads (ls.filter kept) (ls.filterMap loadLine) := by
  induction ls with
  | nil => exact .nil
  | cons l ls ih =>
    by_cases hl : kept l = true
    · obtain ⟨peer, hload, hreads⟩ := loadLine_of_kept hl
      rw [List.filter_cons_of_pos hl, List.filterMap_cons_some hload]
      exact .cons hreads ih
    · rw [List.filter_cons_of_neg hl,
        List.filterMap_cons_none (loadLine_of_not_kept (Bool.not_eq_true _ ▸ hl))]
      exact ih

/-- The record of a username is that of the first line that is kept for it. -/
theorem lookup_load (file u : Bytes) :
    (load (some file)).lookup u = (firstLine file u).bind loadLine := by
  unfold load firstLine KnownPeers.lookup
  dsimp only
  induction getLines [] file with
  | nil => rfl
  | cons l ls ih =>
    by_cases hl : kept l = true
    · obtain ⟨peer, hload, keyHex, rest, hwords, -⟩ := loadLine_of_kept hl
      rw [List.filterMap_cons_some hload]
      by_cases hu : peer.username = u
      · rw [List.find?_cons_of_pos (by simpa using hu),
          List.find?_cons_of_pos (by simp [hl, hwords, hu]), Option.bind_some, hload]
      · rw [List.find?_cons_of_neg (by simpa using hu),
          List.find?_cons_of_neg (by simp [hwords, hu]), ih]
    · rw [List.filterMap_cons_none (loadLine_of_not_kept (Bool.not_eq_true _ ▸ hl)),
        List.find?_cons_of_neg (by simp [hl]), ih]

/-- **The known_peers file.** What was saved is loaded. Of any file, the lines that are kept are those whose
first two words are a valid username and 64 hexadecimal digits, and `check` goes by the first of them for
the username. -/
theorem known_peers_file :
    (∀ peers : KnownPeers, (∀ peer ∈ peers, isValidUsername peer.username = true) →
      load (some peers.contents) = peers) ∧
    (∀ file, List.Forall₂ Reads ((getLines [] file).filter kept) (load (some file))) ∧
    ∀ file file' u, firstLine file u = firstLine file' u →
      ∀ k, (load (some file)).check u k = (load (some file')).check u k := by
  refine ⟨fun peers h => load_contents h, fun file => reads_filterMap _, fun file file' u h k => ?_⟩
  rw [check, check, lookup_load, lookup_load, h]

def bobLine (digit : UInt8) : Bytes := text "bob " ++ List.replicate 64 digit ++ [10]

/-- A record is read back, and a second line for `bob` does not matter. -/
theorem known_peers_file_bob :
    load (some (contents [⟨text "bob", List.Vector.replicate 32 7, 5⟩])) =
      [⟨text "bob", List.Vector.replicate 32 7, 5⟩] ∧
    ∀ k, (load (some (bobLine 48 ++ bobLine 49))).check (text "bob") k =
      (load (some (bobLine 48))).check (text "bob") k :=
  ⟨known_peers_file.1 _ (by decide), known_peers_file.2.2 _ _ _ (by decide +kernel)⟩

end KnownPeers

end DropZone
