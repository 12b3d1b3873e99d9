import Mathlib.Data.List.TakeWhile
import DropZone.Handshake.Rendezvous

/-!
# The known_peers file (`client/src/known_peers.cpp`)

* `KnownPeers.contents`: what `save_unlocked` writes.
* `KnownPeers.load`: what `load` reads out of any file, line by line.
* `KnownPeers.load_contents`: records of valid usernames are read back as they were written.
-/

namespace DropZone

open LittleEndian

/-! ## Reading -/

/-- The lines that `std::getline` gives; `line` is what was read of the first. -/
def getLines (line : Bytes) : Bytes → List Bytes
  | [] => if line = [] then [] else [line]
  | c :: cs => if c = 10 then line :: getLines [] cs else getLines (line ++ [c]) cs

/-- `isspace` in the C locale. -/
def isSpace (c : UInt8) : Bool := c == 32 || (9 ≤ c && c ≤ 13)

def isDigit (c : UInt8) : Bool := 48 ≤ c && c ≤ 57

/-- `>>` into a string: the word and what is left; the word is empty where the stream fails. -/
def takeWord (s : Bytes) : Bytes × Bytes :=
  ((s.dropWhile isSpace).takeWhile (!isSpace ·), (s.dropWhile isSpace).dropWhile (!isSpace ·))

/-- The number that decimal digits stand for. -/
def digitsValue (digits : Bytes) : Nat := digits.foldl (fun n c => 10 * n + (c.toNat - 48)) 0

/-- `>>` into a `std::uint64_t`: 0 where there are no digits, the largest value where there are too
many; a sign is taken too. -/
def readUInt64 (s : Bytes) : UInt64 :=
  let s := s.dropWhile isSpace
  let negative := s.head? == some 45
  let digits := (if negative || s.head? == some 43 then s.tail else s).takeWhile isDigit
  if 2 ^ 64 ≤ digitsValue digits then UInt64.ofNat (2 ^ 64 - 1)
  else if negative then UInt64.ofNat (2 ^ 64 - digitsValue digits)
  else UInt64.ofNat (digitsValue digits)

def hexValue (c : UInt8) : Option Nat :=
  if 48 ≤ c ∧ c ≤ 57 then some (c.toNat - 48)
  else if 97 ≤ c ∧ c ≤ 102 then some (c.toNat - 97 + 10)
  else if 65 ≤ c ∧ c ≤ 70 then some (c.toNat - 65 + 10)
  else none

def fromHex : Bytes → Option Bytes
  | [] => some []
  | [_] => none
  | c :: d :: hex => do
    let high ← hexValue c
    let low ← hexValue d
    let rest ← fromHex hex
    pure (UInt8.ofNat (16 * high + low) :: rest)

namespace KnownPeers

/-- What `load` makes of a line. -/
def loadLine (line : Bytes) : Option KnownPeer :=
  if line = [] ∨ line.head? = some 35 then none
  else
    let (username, rest) := takeWord line
    let (keyHex, rest) := takeWord rest
    if username = [] ∨ keyHex = [] then none
    else if isValidUsername username = true then
      match fromHex keyHex with
      | some key =>
        if h : key.length = 32 then
          some { username, identityKey := ⟨key, h⟩, firstSeen := readUInt64 rest }
        else none
      | none => none
    else none

/-- `KnownPeers::load`; `none` is a file that is not there. -/
def load : Option Bytes → KnownPeers
  | some file => (getLines [] file).filterMap loadLine
  | none => []

/-! ## Writing -/

def header : List Bytes :=
  [text "# drop-zone known peers.",
   text "# One line per peer: username, Ed25519 identity key, and when it was first",
   text "# seen. Delete a line to forget a peer -- the next transfer will then treat",
   text "# them as new. A key that changes unexpectedly means either the peer",
   text "# reinstalled or somebody else has taken their username."]

def line (peer : KnownPeer) : Bytes :=
  peer.username ++ text " " ++ toHex peer.identityKey.toList ++ text " " ++ decimal peer.firstSeen.toNat

/-- What `save_unlocked` writes. -/
def contents (peers : KnownPeers) : Bytes := (header ++ peers.map line).flatMap (· ++ [10])

end KnownPeers

/-! ## Reading back -/

theorem getLines_line {l : Bytes} (h : 10 ∉ l) (acc rest : Bytes) :
    getLines acc (l ++ 10 :: rest) = (acc ++ l) :: getLines [] rest := by
  induction l generalizing acc with
  | nil => simp [getLines]
  | cons c l ih =>
    obtain ⟨hc, hl⟩ := List.ne_and_not_mem_of_not_mem_cons h
    rw [List.cons_append, getLines, if_neg (Ne.symm hc), ih hl, List.append_assoc]
    rfl

/-- Lines that are written one after the other are read one after the other. -/
theorem getLines_flatMap {ls : List Bytes} (h : ∀ l ∈ ls, 10 ∉ l) :
    getLines [] (ls.flatMap (· ++ [10])) = ls := by
  induction ls with
  | nil => rfl
  | cons l ls ih =>
    rw [List.flatMap_cons, List.append_assoc, List.singleton_append,
      getLines_line (h l List.mem_cons_self), ih fun l' hl' => h l' (List.mem_cons_of_mem _ hl'),
      List.nil_append]

theorem takeWord_word {w rest : Bytes} (h : ∀ c ∈ w, isSpace c = false) (hne : w ≠ []) :
    takeWord (w ++ 32 :: rest) = (w, 32 :: rest) := by
  have hdrop : (w ++ 32 :: rest).dropWhile isSpace = w ++ 32 :: rest := by
    cases w with
    | nil => exact absurd rfl hne
    | cons c w => exact List.dropWhile_cons_of_neg (by simp [h c])
  have hstop : (!isSpace 32) = false := rfl
  have hword : ∀ c ∈ w, (!isSpace c) = true := fun c hc => by rw [h c hc]; rfl
  unfold takeWord
  rw [hdrop, List.takeWhile_append_of_pos hword, List.dropWhile_append_of_pos hword,
    List.takeWhile_cons_of_neg (by rw [hstop]; decide), List.dropWhile_cons_of_neg (by rw [hstop]; decide),
    List.append_nil]

theorem takeWord_space (s : Bytes) : takeWord (32 :: s) = takeWord s := by
  unfold takeWord
  rw [List.dropWhile_cons_of_pos (by rfl)]

theorem hexValue_digit {n : Nat} (h : n < 16) :
    hexValue ((text "0123456789abcdef").getD n 0) = some n := by
  have hall : ∀ n < 16, hexValue ((text "0123456789abcdef").getD n 0) = some n := by decide
  exact hall n h

theorem fromHex_toHex (data : Bytes) : fromHex (toHex data) = some data := by
  induction data with
  | nil => rfl
  | cons b data ih =>
    have hb := b.toNat_lt
    have hbyte : UInt8.ofNat (16 * (b.toNat / 16) + b.toNat % 16) = b := by
      rw [Nat.div_add_mod, UInt8.ofNat_toNat]
    rw [toHex, List.flatMap_cons, List.cons_append, List.cons_append, List.nil_append, fromHex,
      hexValue_digit (by omega), hexValue_digit (by omega), ← toHex, ih]
    exact congrArg (fun c => some (c :: data)) hbyte

theorem mem_toHex {data : Bytes} {c : UInt8} (h : c ∈ toHex data) : usernameChar c = true := by
  have hall : ∀ n < 16, usernameChar ((text "0123456789abcdef").getD n 0) = true := by decide
  obtain ⟨b, -, hc⟩ := List.mem_flatMap.mp h
  have hb := b.toNat_lt
  simp only [List.mem_cons, List.not_mem_nil, or_false] at hc
  rcases hc with rfl | rfl
  · exact hall _ (by omega)
  · exact hall _ (by omega)

theorem isSpace_of_usernameChar {c : UInt8} (h : usernameChar c = true) : isSpace c = false := by
  simp only [usernameChar, isSpace, Bool.or_eq_true, Bool.and_eq_true, Bool.or_eq_false_iff,
    decide_eq_true_eq, beq_iff_eq, beq_eq_false_iff_ne, Bool.and_eq_false_iff, decide_eq_false_iff_not,
    UInt8.le_iff_toNat_le, ← UInt8.toNat_inj, ne_eq, UInt8.reduceToNat] at h ⊢
  omega

/-- The bytes of the characters that `std::to_string` makes. -/
theorem toNat_of_mem_toDigits {n : Nat} {d : Char} (h : d ∈ Nat.toDigits 10 n) :
    48 ≤ d.toNat ∧ d.toNat ≤ 57 ∧ d.toNat.toUInt8.toNat = d.toNat := by
  have hdigit := Nat.isDigit_of_mem_toDigits (by decide) (by decide) h
  simp only [Char.isDigit, Bool.and_eq_true, decide_eq_true_eq, ge_iff_le, UInt32.le_iff_toNat_le] at hdigit
  have hle : 48 ≤ d.toNat ∧ d.toNat ≤ 57 := hdigit
  refine ⟨hle.1, hle.2, ?_⟩
  rw [Nat.toUInt8_eq, UInt8.toNat_ofNat']
  omega

theorem decimal_eq (n : Nat) : decimal n = (Nat.toDigits 10 n).map fun d => d.toNat.toUInt8 := by
  rw [decimal, Nat.toString_eq_repr, text, Nat.toList_repr]

theorem isDigit_of_mem_decimal {n : Nat} {c : UInt8} (h : c ∈ decimal n) : isDigit c = true := by
  rw [decimal_eq] at h
  obtain ⟨d, hd, rfl⟩ := List.mem_map.mp h
  obtain ⟨hlo, hhi, hval⟩ := toNat_of_mem_toDigits hd
  simp only [isDigit, Bool.and_eq_true, decide_eq_true_eq, UInt8.le_iff_toNat_le, hval]
  exact ⟨hlo, hhi⟩

theorem digitsValue_decimal (n : Nat) : digitsValue (decimal n) = n := by
  have hvalue : ∀ (ds : List Char) (acc : Nat), (∀ d ∈ ds, d ∈ Nat.toDigits 10 n) →
      (ds.map fun d => d.toNat.toUInt8).foldl (fun n c => 10 * n + (c.toNat - 48)) acc =
        Nat.ofDigitChars 10 ds acc := by
    intro ds
    induction ds with
    | nil => exact fun _ _ => rfl
    | cons d ds ih =>
      intro acc h
      rw [List.map_cons, List.foldl_cons, (toNat_of_mem_toDigits (h d List.mem_cons_self)).2.2]
      exact ih _ fun d' hd' => h d' (List.mem_cons_of_mem _ hd')
  rw [digitsValue, decimal_eq, hvalue _ 0 fun _ h => h]
  exact Nat.ofDigitChars_toDigits (by decide) (by decide)

/-- A number that was written after a blank is read back. -/
theorem readUInt64_decimal (v : UInt64) : readUInt64 (32 :: decimal v.toNat) = v := by
  have hhead : ∃ c cs, decimal v.toNat = c :: cs ∧ isDigit c = true := by
    have hne : decimal v.toNat ≠ [] := by
      rw [decimal_eq]
      exact fun h => absurd (List.map_eq_nil_iff.mp h) (List.ne_nil_of_length_pos Nat.length_toDigits_pos)
    obtain ⟨c, cs, hcs⟩ := List.exists_cons_of_ne_nil hne
    exact ⟨c, cs, hcs, isDigit_of_mem_decimal (hcs ▸ List.mem_cons_self)⟩
  obtain ⟨c, cs, hcs, hc⟩ := hhead
  have hrange : 48 ≤ c.toNat ∧ c.toNat ≤ 57 := by
    simpa only [isDigit, Bool.and_eq_true, decide_eq_true_eq, UInt8.le_iff_toNat_le,
      UInt8.reduceToNat] using hc
  have hspace : isSpace c = false := by
    refine isSpace_of_usernameChar ?_
    rw [isDigit] at hc
    rw [usernameChar, hc, Bool.or_true, Bool.true_or, Bool.true_or, Bool.true_or]
  have hsign : ∀ d : UInt8, d.toNat < 48 → (decimal v.toNat).head? ≠ some d := by
    intro d hd h
    rw [hcs, List.head?_cons, Option.some_inj] at h
    rw [h] at hrange
    omega
  have hdrop : (32 :: decimal v.toNat).dropWhile isSpace = decimal v.toNat := by
    rw [List.dropWhile_cons_of_pos (by rfl), hcs, List.dropWhile_cons_of_neg (by rw [hspace]; decide)]
  have hdigits : (decimal v.toNat).takeWhile isDigit = decimal v.toNat :=
    List.takeWhile_eq_self_iff.mpr fun _ h => isDigit_of_mem_decimal h
  have hminus : ((decimal v.toNat).head? == some 45) = false :=
    beq_eq_false_iff_ne.mpr (hsign 45 (by decide))
  have hplus : ((decimal v.toNat).head? == some 43) = false :=
    beq_eq_false_iff_ne.mpr (hsign 43 (by decide))
  unfold readUInt64
  simp only [hdrop, hminus, hplus, Bool.or_false, Bool.false_eq_true, if_false, hdigits,
    digitsValue_decimal]
  rw [if_neg (Nat.not_le.mpr v.toNat_lt), UInt64.ofNat_toNat]

namespace KnownPeers

variable {peer : KnownPeer}

theorem usernameChar_of_valid {u : Bytes} (h : isValidUsername u = true) :
    ∀ c ∈ u, usernameChar c = true := by
  simp only [isValidUsername, Bool.and_eq_true, List.all_eq_true] at h
  exact h.1.2

/-- A record that was written is read back. -/
theorem loadLine_line (h : isValidUsername peer.username = true) : loadLine (line peer) = some peer := by
  have hname : peer.username ≠ [] := List.ne_nil_of_length_pos (isValidUsername_length h).1
  have hkey : toHex peer.identityKey.toList ≠ [] := by
    intro hnil
    have hread := fromHex_toHex peer.identityKey.toList
    rw [hnil, fromHex, Option.some_inj] at hread
    have hlen := peer.identityKey.toList_length
    rw [← hread] at hlen
    cases hlen
  have hword : ∀ c ∈ peer.username, isSpace c = false := fun c hc =>
    isSpace_of_usernameChar (usernameChar_of_valid h c hc)
  have hhex : ∀ c ∈ toHex peer.identityKey.toList, isSpace c = false := fun c hc =>
    isSpace_of_usernameChar (mem_toHex hc)
  have hline : line peer = peer.username ++ 32 :: (toHex peer.identityKey.toList ++
      32 :: decimal peer.firstSeen.toNat) := by
    have hblank : text " " = [32] := by decide
    simp [line, hblank]
  have hfirst : takeWord (line peer) = (peer.username, 32 :: (toHex peer.identityKey.toList ++
      32 :: decimal peer.firstSeen.toNat)) := by
    rw [hline, takeWord_word hword hname]
  have hsecond : takeWord (32 :: (toHex peer.identityKey.toList ++ 32 :: decimal peer.firstSeen.toNat)) =
      (toHex peer.identityKey.toList, 32 :: decimal peer.firstSeen.toNat) := by
    rw [takeWord_space, takeWord_word hhex hkey]
  have hshown : ¬ (line peer = [] ∨ (line peer).head? = some 35) := by
    obtain ⟨c, cs, hcs⟩ := List.exists_cons_of_ne_nil hname
    have hc : c ≠ 35 := by
      rintro rfl
      exact absurd (usernameChar_of_valid h 35 (hcs ▸ List.mem_cons_self)) (by decide)
    rw [hline, hcs]
    simp [hc]
  unfold loadLine
  rw [if_neg hshown, hfirst]
  simp only [hsecond]
  rw [if_neg (not_or.mpr ⟨hname, hkey⟩), if_pos h, fromHex_toHex]
  simp only [List.Vector.toList_length, dite_true, readUInt64_decimal]
  rfl

theorem newline_not_mem_line (h : isValidUsername peer.username = true) : 10 ∉ line peer := by
  have hnot : ∀ c : UInt8, usernameChar c = true → 10 ≠ c := by
    rintro c hc rfl
    exact absurd hc (by decide)
  have hdigit : 10 ∉ decimal peer.firstSeen.toNat := fun hmem =>
    absurd (isDigit_of_mem_decimal hmem) (by decide)
  have hblank : 10 ∉ text " " := by decide
  simp only [line, List.mem_append, not_or]
  exact ⟨⟨⟨⟨fun hmem => hnot _ (usernameChar_of_valid h _ hmem) rfl, hblank⟩,
    fun hmem => hnot _ (mem_toHex hmem) rfl⟩, hblank⟩, hdigit⟩

/-- **What was saved is loaded.** -/
theorem load_contents {peers : KnownPeers} (h : ∀ peer ∈ peers, isValidUsername peer.username = true) :
    load (some peers.contents) = peers := by
  have hlines : ∀ l ∈ header ++ peers.map line, 10 ∉ l := by
    intro l hl
    rcases List.mem_append.mp hl with hl | hl
    · have hheader : ∀ l ∈ header, 10 ∉ l := by decide +kernel
      exact hheader l hl
    · obtain ⟨peer, hpeer, rfl⟩ := List.mem_map.mp hl
      exact newline_not_mem_line (h peer hpeer)
  have hheader : header.filterMap loadLine = [] := by decide +kernel
  rw [load, contents, getLines_flatMap hlines, List.filterMap_append, hheader, List.nil_append,
    List.filterMap_map]
  refine (List.filterMap_congr fun peer hpeer => loadLine_line (h peer hpeer)).trans ?_
  exact List.filterMap_some

/-- Every record that is loaded is one of a valid username. -/
theorem valid_of_mem_load {file : Option Bytes} (h : peer ∈ load file) :
    isValidUsername peer.username = true := by
  cases file with
  | none => cases h
  | some file =>
    obtain ⟨l, -, hl⟩ := List.mem_filterMap.mp h
    unfold loadLine at hl
    simp only at hl
    split at hl
    · cases hl
    · split at hl
      · cases hl
      · split at hl
        · rename_i hvalid
          split at hl
          · split at hl
            · cases hl
              exact hvalid
            · cases hl
          · cases hl
        · cases hl

end KnownPeers

end DropZone
