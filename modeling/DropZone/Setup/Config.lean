import Mathlib.Data.List.DropRight
import DropZone.Handshake.PeersFile
import DropZone.Transfer.Manifest

/-!
# The configuration file (`client/src/config.cpp`)

`save_config` writes one setting a line and quotes strings without escaping anything. `load_config` reads
line by line: it trims, splits at the first `=`, and takes one layer of quotes off.

* `Config.contents`, `loadConfig`: what is written, and what is made of any file.
* `loadLine_setting`: a line with a setting gives its key and its value.
* `config_round_trip`: a configuration is read back exactly if neither the host nor the output directory
  has a line break. `broken_directory`: an output directory that is not.
-/

namespace DropZone

open LittleEndian

namespace Setup

def kDefaultServerHost : Bytes := text "129.153.161.241"

def kDefaultServerPort : UInt16 := 47654

structure Config where
  username : Bytes := []
  serverHost : Bytes := kDefaultServerHost
  serverPort : UInt16 := kDefaultServerPort
  defaultOutputDirectory : Bytes := []
  encryptByDefault : Bool := true
  verifyDigests : Bool := false
  promptBeforeAccepting : Bool := true
  keystoreSalt : Block 16 := List.Vector.replicate 16 0
  directory : Bytes

/-! ## Reading -/

def isBlank (c : UInt8) : Bool := c == 32 || c == 9

def trim (s : Bytes) : Bytes := (s.dropWhile isBlank).rdropWhile fun c => isBlank c || c == 13

/-- One layer of double quotes is taken off. -/
def unquote (s : Bytes) : Bytes :=
  if 2 ≤ s.length ∧ s.head? = some 34 ∧ s.getLast? = some 34 then (s.drop 1).take (s.length - 2) else s

def parseBool (s : Bytes) (fallback : Bool) : Bool :=
  if s = text "true" ∨ s = text "yes" ∨ s = text "1" then true
  else if s = text "false" ∨ s = text "no" ∨ s = text "0" then false
  else fallback

/-- `std::from_chars` into an `unsigned`: what follows the digits does not matter. -/
def fromChars (s : Bytes) : Option Nat :=
  let digits := s.takeWhile isDigit
  if digits = [] ∨ 2 ^ 32 ≤ digitsValue digits then none else some (digitsValue digits)

namespace Config

def setPort (config : Config) (value : Bytes) : Config :=
  match fromChars value with
  | some port =>
    if 0 < port ∧ port ≤ 65535 then { config with serverPort := UInt16.ofNat port } else config
  | none => config

def setSalt (config : Config) (value : Bytes) : Except Failure Config :=
  match fromHex value with
  | some salt =>
    if h : salt.length = 16 then .ok { config with keystoreSalt := ⟨salt, h⟩ }
    else .error malformed
  | none => .error malformed
where
  malformed : Failure :=
    .error (text "config.toml has a malformed keystore_salt; the identity cannot be unlocked")

/-- What `load_config` does with a key and its value; `home` is the variable `HOME`. -/
def set (home : Option Bytes) (config : Config) (key value : Bytes) : Except Failure Config :=
  if key = text "username" then .ok { config with username := value }
  else if key = text "server_host" then .ok { config with serverHost := value }
  else if key = text "server_port" then .ok (config.setPort value)
  else if key = text "output_directory" then
    .ok { config with defaultOutputDirectory := expandUserPath home value }
  else if key = text "encrypt" then .ok { config with encryptByDefault := parseBool value true }
  else if key = text "verify_digests" then .ok { config with verifyDigests := parseBool value false }
  else if key = text "prompt_before_accepting" then
    .ok { config with promptBeforeAccepting := parseBool value true }
  else if key = text "keystore_salt" then config.setSalt value
  else .ok config

/-- One round of the loop of `load_config`. -/
def loadLine (home : Option Bytes) (config : Config) (line : Bytes) : Except Failure Config :=
  let view := trim line
  if view = [] ∨ view.head? = some 35 ∨ view.head? = some 91 then .ok config
  else
    match view.dropWhile (· != 61) with
    | [] => .ok config
    | _ :: value => config.set home (trim (view.takeWhile (· != 61))) (unquote (trim value))

/-- The checks after the loop. -/
def checked (config : Config) : Except Failure Config :=
  if config.username = [] then .error (.error (text "config.toml does not name a username"))
  else if isValidUsername config.username = false then
    .error (.error (text "config.toml names an invalid username: '" ++ config.username ++ text "'"))
  else if config.serverHost = [] then .error (.error (text "config.toml does not name a server"))
  else .ok config

end Config

/-- `load_config`; `none` is a file that is not there. -/
def loadConfig (home : Option Bytes) (directory : Bytes) : Option Bytes → Except Failure Config
  | none => .error (.userError (text "no drop-zone configuration found at '" ++
      joinPath directory (text "config.toml") ++ text "'. Run `drop-zone setup` first."))
  | some file => do
    let config ← (getLines [] file).foldlM (Config.loadLine home) { directory := directory }
    config.checked

/-! ## Writing -/

def comment (s : String) : Bytes := 35 :: text s

def heading (s : String) : Bytes := 91 :: text s

def setting (key : String) (value : Bytes) : Bytes := text key ++ 32 :: 61 :: 32 :: value

def quoted (s : Bytes) : Bytes := 34 :: (s ++ [34])

def flag (b : Bool) : Bytes := if b then text "true" else text "false"

def Config.lines (config : Config) : List Bytes :=
  [comment " drop-zone client configuration.",
   comment "",
   comment " Written by `drop-zone setup`. Safe to edit by hand; it holds no secrets.",
   comment " The private password is never stored -- it only unlocks identity.key. The",
   comment " public password is sealed inside identity.key, not written here, so reading",
   comment " this file is not enough to receive files as this user.",
   [],
   heading "identity]",
   setting "username" (quoted config.username),
   comment " Random per installation, so the same password on two machines does not",
   comment " produce the same key for identity.key.",
   setting "keystore_salt" (quoted (toHex config.keystoreSalt.toList)),
   [],
   heading "server]",
   comment " The rendezvous server only introduces peers; files never pass through it",
   comment " unless neither side can open a direct path.",
   setting "server_host" (quoted config.serverHost),
   setting "server_port" (decimal config.serverPort.toNat),
   [],
   heading "transfers]",
   comment " Where received files go when `drop-zone accept` is given no -o. Empty (the",
   comment " setup default) means whichever directory the command was run from. Change",
   comment " this with `drop-zone set-output DIR`, or override it for one run with -o.",
   setting "output_directory" (quoted config.defaultOutputDirectory),
   comment " Encrypt file contents end to end. Turn it off only on a network you trust:",
   comment " the handshake stays encrypted either way, but the file bytes would not be.",
   setting "encrypt" (flag config.encryptByDefault),
   comment " Hash every file and compare. Costs an extra read pass on both sides and adds",
   comment " nothing when encryption is on, which is why it is off by default.",
   setting "verify_digests" (flag config.verifyDigests),
   comment " Ask before accepting each transfer. Set to false for an unattended receiver.",
   setting "prompt_before_accepting" (flag config.promptBeforeAccepting)]

/-- What `save_config` writes. -/
def Config.contents (config : Config) : Bytes := config.lines.flatMap (· ++ [10])

/-- `resolve_configured_output_directory`, in the working directory `cwd`. -/
def resolveConfiguredOutputDirectory (home : Option Bytes) (cwd requested : Bytes) : Bytes :=
  let path := expandUserPath home requested
  if path = [] ∨ path = text "." ∨ path = text "./" then []
  else if path.head? = some 47 then path
  else joinPath cwd path

/-- What `setup` and `set-output` store. -/
def Storable (directory : Bytes) : Prop :=
  directory = [] ∨ ∃ home cwd requested, cwd.head? = some 47 ∧
    resolveConfiguredOutputDirectory home cwd requested = directory

/-! ## Fixed texts -/

theorem text_ofList (l : List Char) : text (String.ofList l) = l.map fun c => c.toNat.toUInt8 := by
  rw [text, String.toList_ofList]

theorem text_ne {l l' : List Char}
    (h : (l.map fun c => c.toNat.toUInt8) ≠ l'.map fun c => c.toNat.toUInt8) :
    text (String.ofList l) ≠ text (String.ofList l') := by
  rwa [text_ofList, text_ofList]

variable {s : Bytes} {l : List Char}

theorem text_ne_nil (h : l.isEmpty = false) : text (String.ofList l) ≠ [] := by
  rw [text_ofList, ne_eq, List.map_eq_nil_iff]
  rintro rfl
  cases h

theorem forall_text {p : UInt8 → Bool}
    (h : (l.all fun c => p c.toNat.toUInt8) = true) : ∀ c ∈ text (String.ofList l), p c = true := by
  rw [text_ofList, ← List.all_eq_true, List.all_map]
  exact h

theorem newline_text (h : (l.all fun c => c.toNat.toUInt8 != 10) = true) :
    10 ∉ text (String.ofList l) := by
  have hall := forall_text (p := (· != 10)) h
  exact fun hmem => bne_iff_ne.mp (hall 10 hmem) rfl

theorem Storable.absolute {directory : Bytes} (h : Storable directory) :
    directory = [] ∨ directory.head? = some 47 := by
  rcases h with rfl | ⟨home, cwd, requested, hcwd, rfl⟩
  · exact .inl rfl
  · unfold resolveConfiguredOutputDirectory
    dsimp only
    split
    · exact .inl rfl
    · split
      · rename_i hslash
        exact .inr hslash
      · right
        unfold joinPath
        cases cwd with
        | nil => cases hcwd
        | cons c cwd =>
          cases hcwd
          rw [if_neg (List.cons_ne_nil _ _)]
          repeat' split
          all_goals rfl

theorem Storable.expandUserPath {directory : Bytes} (h : Storable directory) (home : Option Bytes) :
    expandUserPath home directory = directory := by
  refine if_neg fun htilde => ?_
  have htilde' : directory.take 2 = [126, 47] := htilde.trans (text_ofList _)
  rcases h.absolute with rfl | hslash
  · cases htilde'
  · cases directory with
    | nil => cases hslash
    | cons c s =>
      cases hslash
      cases htilde'

/-! ## One line -/

/-- Nothing of it would be trimmed. -/
structure Tight (s : Bytes) : Prop where
  head : ∃ c ∈ s.head?, isBlank c = false
  last : ∃ c ∈ s.getLast?, (isBlank c || c == 13) = false

theorem Tight.dropWhile (h : Tight s) : s.dropWhile isBlank = s := by
  obtain ⟨c, hc, hblank⟩ := h.head
  cases s with
  | nil => cases hc
  | cons d s =>
    cases hc
    exact List.dropWhile_cons_of_neg (by rw [hblank]; decide)

theorem Tight.rdropWhile (h : Tight s) :
    s.rdropWhile (fun c => isBlank c || c == 13) = s := by
  obtain ⟨c, hc, hblank⟩ := h.last
  rw [List.rdropWhile_eq_self_iff]
  intro hne
  rw [Option.mem_def, List.getLast?_eq_some_getLast hne, Option.some_inj] at hc
  rw [hc, hblank]
  decide

theorem Tight.trim (h : Tight s) : trim s = s := by
  rw [Setup.trim, h.dropWhile, h.rdropWhile]

theorem Tight.append {s t : Bytes} (hs : Tight s) (ht : Tight t) (m : Bytes) : Tight (s ++ m ++ t) := by
  obtain ⟨c, hc, hblank⟩ := hs.head
  obtain ⟨d, hd, hblank'⟩ := ht.last
  refine ⟨⟨c, ?_, hblank⟩, d, ?_, hblank'⟩
  · rw [Option.mem_def] at hc ⊢
    rw [List.append_assoc, List.head?_append, hc]
    rfl
  · rw [Option.mem_def] at hd ⊢
    rw [List.getLast?_append, hd]
    rfl

theorem tight_of_all (hne : s ≠ []) (h : ∀ c ∈ s, (isBlank c || c == 13) = false) :
    Tight s := by
  refine ⟨⟨s.head hne, List.head?_eq_some_head hne, ?_⟩, s.getLast hne, List.getLast?_eq_some_getLast hne,
    h _ (List.getLast_mem hne)⟩
  exact (Bool.or_eq_false_iff.mp (h _ (List.head_mem hne))).1

theorem not_blank_of_usernameChar {c : UInt8} (h : usernameChar c = true) :
    (isBlank c || c == 13) = false ∧ c ≠ 61 ∧ c ≠ 35 ∧ c ≠ 91 ∧ c ≠ 10 ∧ c ≠ 34 := by
  simp only [usernameChar, isBlank, Bool.or_eq_true, Bool.and_eq_true, Bool.or_eq_false_iff,
    decide_eq_true_eq, beq_iff_eq, beq_eq_false_iff_ne, UInt8.le_iff_toNat_le, ← UInt8.toNat_inj, ne_eq,
    UInt8.reduceToNat] at h ⊢
  omega

theorem tight_of_usernameChar (hne : s ≠ []) (h : ∀ c ∈ s, usernameChar c = true) : Tight s :=
  tight_of_all hne fun c hc => (not_blank_of_usernameChar (h c hc)).1

theorem getLast?_quoted (s : Bytes) : (quoted s).getLast? = some 34 := by
  rw [quoted, ← List.cons_append]
  exact List.getLast?_concat

theorem tight_quoted (s : Bytes) : Tight (quoted s) :=
  ⟨⟨34, rfl, by decide⟩, 34, getLast?_quoted s, by decide⟩

theorem unquote_quoted (s : Bytes) : unquote (quoted s) = s := by
  have hshape : 2 ≤ (quoted s).length ∧ (quoted s).head? = some 34 ∧ (quoted s).getLast? = some 34 :=
    ⟨by simp [quoted], rfl, getLast?_quoted s⟩
  rw [unquote, if_pos hshape]
  simp [quoted]

theorem unquote_of_usernameChar (h : ∀ c ∈ s, usernameChar c = true) : unquote s = s := by
  refine if_neg fun hshape => ?_
  have hmem := List.mem_of_mem_head? hshape.2.1
  exact (not_blank_of_usernameChar (h _ hmem)).2.2.2.2.2 rfl

namespace Config

variable {home : Option Bytes} {config config' : Config} {value : Bytes}

theorem loadLine_marked {c : UInt8} (hc : c = 35 ∨ c = 91) (s : Bytes) :
    config.loadLine home (c :: s) = .ok config := by
  have hblank : isBlank c = false := by rcases hc with rfl | rfl <;> decide
  have hkept : (isBlank c || c == 13) = false := by rcases hc with rfl | rfl <;> decide
  have hhead : (trim (c :: s)).head? = some c := by
    rw [trim, List.dropWhile_cons_of_neg (by rw [hblank]; decide), List.rdropWhile, List.head?_reverse,
      List.reverse_cons, List.dropWhile_append]
    split
    · rw [List.dropWhile_cons_of_neg (by rw [hkept]; decide)]
      rfl
    · exact List.getLast?_concat
  rw [loadLine, if_pos]
  rw [hhead]
  rcases hc with rfl | rfl
  · exact .inr (.inl rfl)
  · exact .inr (.inr rfl)

@[simp] theorem loadLine_comment (s : String) : config.loadLine home (comment s) = .ok config :=
  loadLine_marked (.inl rfl) _

@[simp] theorem loadLine_heading (s : String) : config.loadLine home (heading s) = .ok config :=
  loadLine_marked (.inr rfl) _

theorem loadLine_setting {key : String} (hne : text key ≠ [])
    (hkey : ∀ c ∈ text key, usernameChar c = true) (hvalue : Tight value) :
    config.loadLine home (setting key value) = config.set home (text key) (unquote value) := by
  have htight : Tight (text key) := tight_of_usernameChar hne hkey
  have hline : setting key value = text key ++ [32] ++ 61 :: 32 :: value := by simp [setting]
  have htrim : trim (setting key value) = setting key value := by
    refine Tight.trim ?_
    have := htight.append hvalue [32, 61, 32]
    simpa [setting] using this
  have hequals : ∀ c ∈ text key ++ [32], (c != 61) = true := by
    intro c hc
    rcases List.mem_append.mp hc with hc | hc
    · exact bne_iff_ne.mpr (not_blank_of_usernameChar (hkey c hc)).2.1
    · rw [List.mem_singleton.mp hc]
      decide
  have hbefore : trim (text key ++ [32]) = text key := by
    obtain ⟨c, cs, hcs⟩ := List.exists_cons_of_ne_nil hne
    have hdrop : (text key ++ [32]).dropWhile isBlank = text key ++ [32] := by
      have hblank := not_blank_of_usernameChar (hkey c (hcs ▸ List.mem_cons_self))
      rw [hcs]
      exact List.dropWhile_cons_of_neg (by rw [(Bool.or_eq_false_iff.mp hblank.1).1]; decide)
    rw [trim, hdrop, List.rdropWhile_concat_pos _ _ _ (by rfl), htight.rdropWhile]
  have hafter : trim (32 :: value) = value := by
    rw [trim, List.dropWhile_cons_of_pos (by rfl), ← trim, hvalue.trim]
  have hmark : ¬ (setting key value = [] ∨ (setting key value).head? = some 35 ∨
      (setting key value).head? = some 91) := by
    obtain ⟨c, cs, hcs⟩ := List.exists_cons_of_ne_nil hne
    obtain ⟨-, -, hhash, hbracket, -, -⟩ := not_blank_of_usernameChar (hkey c (hcs ▸ List.mem_cons_self))
    rw [setting, hcs]
    simp [hhash, hbracket]
  unfold loadLine
  dsimp only
  rw [htrim, if_neg hmark, hline, List.dropWhile_append_of_pos hequals,
    List.takeWhile_append_of_pos hequals, List.dropWhile_cons_of_neg (by decide),
    List.takeWhile_cons_of_neg (by decide), List.append_nil, hbefore]
  dsimp only
  rw [hafter]

theorem loadLine_key
    (hkey : (!l.isEmpty && l.all fun c => usernameChar c.toNat.toUInt8) = true) (hvalue : Tight value) :
    config.loadLine home (setting (String.ofList l) value) =
      config.set home (text (String.ofList l)) (unquote value) := by
  obtain ⟨hne, hall⟩ := (Bool.and_eq_true _ _).mp hkey
  exact loadLine_setting (text_ne_nil (by simpa using hne)) (forall_text hall) hvalue

theorem loadLine_username (v : Bytes) : config.loadLine home (setting "username" (quoted v)) =
    .ok { config with username := v } := by
  refine (loadLine_key (by decide) (tight_quoted v)).trans ?_
  rw [unquote_quoted]
  exact if_pos rfl

theorem loadLine_serverHost (v : Bytes) : config.loadLine home (setting "server_host" (quoted v)) =
    .ok { config with serverHost := v } := by
  refine (loadLine_key (by decide) (tight_quoted v)).trans ?_
  rw [unquote_quoted]
  exact (if_neg (text_ne (by decide))).trans <|
    if_pos rfl

theorem decimal_ne_nil (n : Nat) : decimal n ≠ [] := by
  rw [decimal_eq]
  exact fun h => absurd (List.map_eq_nil_iff.mp h) (List.ne_nil_of_length_pos Nat.length_toDigits_pos)

theorem usernameChar_of_mem_decimal {n : Nat} {c : UInt8} (h : c ∈ decimal n) : usernameChar c = true := by
  have hdigit := isDigit_of_mem_decimal h
  rw [isDigit] at hdigit
  rw [usernameChar, hdigit, Bool.or_true, Bool.true_or, Bool.true_or, Bool.true_or]

theorem fromChars_decimal {n : Nat} (h : n < 2 ^ 32) : fromChars (decimal n) = some n := by
  have hdigits : (decimal n).takeWhile isDigit = decimal n :=
    List.takeWhile_eq_self_iff.mpr fun _ hc => isDigit_of_mem_decimal hc
  rw [fromChars, hdigits, digitsValue_decimal]
  exact if_neg (not_or.mpr ⟨decimal_ne_nil n, Nat.not_le.mpr h⟩)

theorem setPort_decimal {port : UInt16} (h : port ≠ 0) :
    config.setPort (decimal port.toNat) = { config with serverPort := port } := by
  have hlt := port.toNat_lt
  have hpos : port.toNat ≠ 0 := fun hzero => h (UInt16.toNat_inj.mp hzero)
  rw [setPort, fromChars_decimal (by omega)]
  dsimp only
  rw [if_pos (by omega), UInt16.ofNat_toNat]

theorem loadLine_serverPort {port : UInt16} (h : port ≠ 0) :
    config.loadLine home (setting "server_port" (decimal port.toNat)) =
      .ok { config with serverPort := port } := by
  have hchars : ∀ c ∈ decimal port.toNat, usernameChar c = true := fun c => usernameChar_of_mem_decimal
  refine (loadLine_key (by decide) (tight_of_usernameChar (decimal_ne_nil _) hchars)).trans ?_
  rw [unquote_of_usernameChar hchars, ← setPort_decimal h]
  repeat refine (if_neg (text_ne (by decide))).trans ?_
  exact if_pos rfl

theorem loadLine_outputDirectory (v : Bytes) : config.loadLine home (setting "output_directory" (quoted v)) =
    .ok { config with defaultOutputDirectory := expandUserPath home v } := by
  refine (loadLine_key (by decide) (tight_quoted v)).trans ?_
  rw [unquote_quoted]
  repeat refine (if_neg (text_ne (by decide))).trans ?_
  exact if_pos rfl

theorem usernameChar_of_mem_flag {b : Bool} : ∀ c ∈ flag b, usernameChar c = true := by
  cases b
  · exact forall_text (by decide)
  · exact forall_text (by decide)

theorem tight_flag (b : Bool) : Tight (flag b) := by
  refine tight_of_usernameChar ?_ usernameChar_of_mem_flag
  cases b
  · exact show text "false" ≠ [] from text_ne_nil (by decide)
  · exact show text "true" ≠ [] from text_ne_nil (by decide)

theorem parseBool_flag (b fallback : Bool) : parseBool (flag b) fallback = b := by
  cases b
  · refine (if_neg ?_).trans (if_pos (.inl rfl))
    exact not_or.mpr ⟨text_ne (by decide), not_or.mpr ⟨text_ne (by decide), text_ne (by decide)⟩⟩
  · exact if_pos (.inl rfl)

theorem loadLine_encrypt (b : Bool) : config.loadLine home (setting "encrypt" (flag b)) =
    .ok { config with encryptByDefault := b } := by
  refine (loadLine_key (by decide) (tight_flag b)).trans ?_
  rw [unquote_of_usernameChar usernameChar_of_mem_flag]
  repeat refine (if_neg (text_ne (by decide))).trans ?_
  exact (if_pos rfl).trans (by rw [parseBool_flag])

theorem loadLine_verifyDigests (b : Bool) : config.loadLine home (setting "verify_digests" (flag b)) =
    .ok { config with verifyDigests := b } := by
  refine (loadLine_key (by decide) (tight_flag b)).trans ?_
  rw [unquote_of_usernameChar usernameChar_of_mem_flag]
  repeat refine (if_neg (text_ne (by decide))).trans ?_
  exact (if_pos rfl).trans (by rw [parseBool_flag])

theorem loadLine_promptBeforeAccepting (b : Bool) :
    config.loadLine home (setting "prompt_before_accepting" (flag b)) =
    .ok { config with promptBeforeAccepting := b } := by
  refine (loadLine_key (by decide) (tight_flag b)).trans ?_
  rw [unquote_of_usernameChar usernameChar_of_mem_flag]
  repeat refine (if_neg (text_ne (by decide))).trans ?_
  exact (if_pos rfl).trans (by rw [parseBool_flag])

theorem setSalt_toHex (salt : Block 16) :
    config.setSalt (toHex salt.toList) = .ok { config with keystoreSalt := salt } := by
  rw [setSalt, fromHex_toHex]
  exact dif_pos salt.toList_length

theorem loadLine_keystoreSalt (salt : Block 16) :
    config.loadLine home (setting "keystore_salt" (quoted (toHex salt.toList))) =
      .ok { config with keystoreSalt := salt } := by
  refine (loadLine_key (by decide) (tight_quoted _)).trans ?_
  rw [unquote_quoted, ← setSalt_toHex]
  repeat refine (if_neg (text_ne (by decide))).trans ?_
  exact if_pos rfl

/-! ## Whole files -/

theorem ok_bind (f : Config → Except Failure Config) : (Except.ok config >>= f) = f config := rfl

theorem foldlM_lines (hport : config.serverPort ≠ 0)
    (hdir : expandUserPath home config.defaultOutputDirectory = config.defaultOutputDirectory) :
    config.lines.foldlM (loadLine home) { directory := config.directory } = .ok config := by
  simp only [lines, List.foldlM_cons, List.foldlM_nil, loadLine_comment, loadLine_heading,
    loadLine_username, loadLine_serverHost, loadLine_serverPort hport, loadLine_outputDirectory,
    loadLine_encrypt, loadLine_verifyDigests, loadLine_promptBeforeAccepting, loadLine_keystoreSalt, ok_bind,
    hdir]
  rfl

theorem checked_eq (hvalid : isValidUsername config.username = true) (hhost : config.serverHost ≠ []) :
    config.checked = .ok config := by
  have hname : config.username ≠ [] := List.ne_nil_of_length_pos (isValidUsername_length hvalid).1
  rw [checked, if_neg hname, if_neg (by rw [hvalid]; decide), if_neg hhost]

theorem newline_of_usernameChar (h : ∀ c ∈ s, usernameChar c = true) : 10 ∉ s :=
  fun hmem => (not_blank_of_usernameChar (h 10 hmem)).2.2.2.2.1 rfl

theorem newline_quoted (h : 10 ∉ s) : 10 ∉ quoted s := by simp [quoted, h]

theorem newline_setting {key : String} (hkey : 10 ∉ text key) (h : 10 ∉ value) :
    10 ∉ setting key value := by
  simp [setting, hkey, h]

theorem newline_lines (hvalid : isValidUsername config.username = true) (hhost : 10 ∉ config.serverHost)
    (hdir : 10 ∉ config.defaultOutputDirectory) : ∀ l ∈ config.lines, 10 ∉ l := by
  have hname := newline_quoted (newline_of_usernameChar (KnownPeers.usernameChar_of_valid hvalid))
  have hsalt := newline_quoted (newline_of_usernameChar fun c (hc : c ∈ toHex config.keystoreSalt.toList) =>
    mem_toHex hc)
  have hport := newline_of_usernameChar fun c (hc : c ∈ decimal config.serverPort.toNat) =>
    usernameChar_of_mem_decimal hc
  have hflag := fun b => newline_of_usernameChar (usernameChar_of_mem_flag (b := b))
  simp only [lines, List.forall_mem_cons, List.not_mem_nil, false_imp_iff, implies_true, and_true,
    not_false_eq_true, true_and]
  repeat' apply And.intro
  all_goals first
    | exact List.not_mem_cons_of_ne_of_not_mem (by decide) (newline_text (by decide))
    | exact newline_setting (newline_text (by decide)) hname
    | exact newline_setting (newline_text (by decide)) hsalt
    | exact newline_setting (newline_text (by decide)) hport
    | exact newline_setting (newline_text (by decide)) (hflag _)
    | exact newline_setting (newline_text (by decide)) (newline_quoted hhost)
    | exact newline_setting (newline_text (by decide)) (newline_quoted hdir)

/-! ## Line breaks -/

/-- No string of the configuration that the file gives has a line break. -/
structure Clean (config : Config) : Prop where
  host : 10 ∉ config.serverHost
  directory : 10 ∉ config.defaultOutputDirectory

theorem newline_getLines {file acc l : Bytes} (hacc : 10 ∉ acc) (h : l ∈ getLines acc file) : 10 ∉ l := by
  induction file generalizing acc with
  | nil =>
    unfold getLines at h
    split at h
    · cases h
    · rwa [List.mem_singleton.mp h]
  | cons c cs ih =>
    unfold getLines at h
    split at h
    · rcases List.mem_cons.mp h with rfl | h
      · exact hacc
      · exact ih List.not_mem_nil h
    · rename_i hc
      refine ih ?_ h
      simpa [hacc] using Ne.symm hc

theorem trim_sublist (s : Bytes) : (trim s).Sublist s :=
  (List.rdropWhile_prefix _ _).sublist.trans (List.dropWhile_sublist _)

theorem unquote_sublist (s : Bytes) : (unquote s).Sublist s := by
  unfold unquote
  split
  · exact (List.take_sublist _ _).trans (List.drop_sublist _ _)
  · exact .refl s

theorem Clean.setPort (h : config.Clean) (value : Bytes) : (config.setPort value).Clean := by
  unfold Config.setPort
  split
  · split
    · exact ⟨h.host, h.directory⟩
    · exact h
  · exact h

theorem Clean.setSalt (h : config.Clean) (hok : config.setSalt value = .ok config') :
    config'.Clean := by
  unfold Config.setSalt at hok
  split at hok
  · split at hok
    · cases hok
      exact ⟨h.host, h.directory⟩
    · cases hok
  · cases hok

theorem Clean.set {key value : Bytes} (h : config.Clean) (hvalue : 10 ∉ value)
    (hok : config.set none key value = .ok config') : config'.Clean := by
  have hexpand : expandUserPath none value = value := by
    unfold expandUserPath
    split <;> rfl
  unfold Config.set at hok
  rw [hexpand] at hok
  repeat' split at hok
  · cases hok
    exact ⟨h.host, h.directory⟩
  · cases hok
    exact ⟨hvalue, h.directory⟩
  · cases hok
    exact h.setPort value
  · cases hok
    exact ⟨h.host, hvalue⟩
  · cases hok
    exact ⟨h.host, h.directory⟩
  · cases hok
    exact ⟨h.host, h.directory⟩
  · cases hok
    exact ⟨h.host, h.directory⟩
  · exact h.setSalt hok
  · cases hok
    exact h

theorem Clean.loadLine {line : Bytes} (h : config.Clean) (hline : 10 ∉ line)
    (hok : config.loadLine none line = .ok config') : config'.Clean := by
  unfold Config.loadLine at hok
  dsimp only at hok
  split at hok
  · cases hok
    exact h
  · split at hok
    · cases hok
      exact h
    · rename_i c value hvalue
      refine h.set (fun hmem => hline ?_) hok
      have hview : value.Sublist (trim line) :=
        (List.sublist_cons_self c value).trans (hvalue ▸ List.dropWhile_sublist _)
      exact ((unquote_sublist _).trans ((trim_sublist _).trans (hview.trans (trim_sublist _)))).mem hmem

theorem Clean.foldlM {ls : List Bytes} (h : config.Clean) (hls : ∀ l ∈ ls, 10 ∉ l)
    (hok : ls.foldlM (Config.loadLine none) config = .ok config') : config'.Clean := by
  induction ls generalizing config with
  | nil =>
    cases hok
    exact h
  | cons l ls ih =>
    rw [List.foldlM_cons] at hok
    cases hl : config.loadLine none l with
    | error e =>
      rw [hl] at hok
      cases hok
    | ok config₁ =>
      rw [hl] at hok
      exact ih (h.loadLine (hls l List.mem_cons_self) hl) (fun l' hl' => hls l' (List.mem_cons_of_mem _ hl'))
        hok

theorem clean_of_loadConfig {directory file : Bytes} {config : Config}
    (h : loadConfig none directory (some file) = .ok config) : config.Clean := by
  replace h : ((getLines [] file).foldlM (Config.loadLine none) { directory := directory } >>=
      Config.checked) = .ok config := h
  cases hfold : (getLines [] file).foldlM (Config.loadLine none) { directory := directory } with
  | error e =>
    rw [hfold] at h
    cases h
  | ok config₁ =>
    rw [hfold] at h
    have hhost : 10 ∉ kDefaultServerHost := newline_text (by decide)
    have hclean := Clean.foldlM ⟨hhost, List.not_mem_nil⟩
      (fun l hl => newline_getLines List.not_mem_nil hl) hfold
    have hsame : config₁.checked = .ok config := h
    unfold checked at hsame
    repeat' split at hsame
    all_goals cases hsame
    exact hclean

/-- Without line breaks, all is read back. -/
theorem loadConfig_contents (hvalid : isValidUsername config.username = true)
    (hhost : config.serverHost ≠ []) (hport : config.serverPort ≠ 0)
    (hstored : Storable config.defaultOutputDirectory) (hhostLine : 10 ∉ config.serverHost)
    (hdirLine : 10 ∉ config.defaultOutputDirectory) (home : Option Bytes) :
    loadConfig home config.directory (some config.contents) = .ok config := by
  rw [loadConfig, contents, getLines_flatMap (newline_lines hvalid hhostLine hdirLine),
    foldlM_lines hport (hstored.expandUserPath home), ok_bind, checked_eq hvalid hhost]

/-- **A configuration is read back**, whatever `HOME` is, exactly if neither the host nor the output
directory has a line break. -/
theorem config_round_trip (config : Config) (hvalid : isValidUsername config.username = true)
    (hhost : config.serverHost ≠ []) (hport : config.serverPort ≠ 0)
    (hstored : Storable config.defaultOutputDirectory) :
    (∀ home, loadConfig home config.directory (some config.contents) = .ok config) ↔
      10 ∉ config.serverHost ∧ 10 ∉ config.defaultOutputDirectory := by
  constructor
  · intro h
    exact ⟨(clean_of_loadConfig (h none)).host, (clean_of_loadConfig (h none)).directory⟩
  · rintro ⟨hhostLine, hdirLine⟩ home
    exact loadConfig_contents hvalid hhost hport hstored hhostLine hdirLine home

/-- Quotes, blanks and `=` do no harm. -/
theorem config_round_trip_quotes :
    loadConfig none (text "/c") (some (Config.contents
      { username := text "bob", serverHost := text "a\"b = #", directory := text "/c" })) =
      .ok { username := text "bob", serverHost := text "a\"b = #", directory := text "/c" } := by
  refine (config_round_trip { username := text "bob", serverHost := text "a\"b = #", directory := text "/c" }
    (by decide) (by decide) (by decide) (.inl rfl)).mpr ⟨by decide, by decide⟩ none

/-- An output directory that `set-output` stores, with a line break. -/
theorem broken_directory : ∃ config : Config, isValidUsername config.username = true ∧
    config.serverHost ≠ [] ∧ config.serverPort ≠ 0 ∧ Storable config.defaultOutputDirectory ∧
    loadConfig none config.directory (some config.contents) ≠ .ok config := by
  refine ⟨{ username := text "bob", defaultOutputDirectory := 47 :: text "a\nb", directory := text "/c" },
    by decide, by decide, by decide, ?_, fun h => ?_⟩
  · exact .inr ⟨none, [47], 47 :: text "a\nb", rfl, by decide⟩
  · exact absurd (clean_of_loadConfig h).directory (by decide)

end Config

end Setup

end DropZone
