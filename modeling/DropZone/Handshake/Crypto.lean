import DropZone.Wire.Control

/-!
# Keys and transcripts (`common/src/crypto.cpp`, `common/src/protocol.cpp`,
`client/src/rendezvous.cpp`)

The primitives are parameters (`Primitives`); what is modelled is which bytes go into them.

* `senderProofInput`, `receiverProofInput`, `transcriptInput`: length-prefixed fields in the order
  the code appends them.
* `appendFields_inj`: the fields can be read back, so equal bytes have equal fields.
* `receiverProofInput_inj`: equal receiver proofs are about the same handshake, whether it is a
  personal one or a group one.
* `deriveSessionKeys`: every key of a session; `SessionKeys.Mirror`: what the two ends of one
  session hold.
-/

namespace DropZone

open LittleEndian Parser

/-- `Key`: 32 secret bytes. -/
abbrev Key := Block 32

inductive AeadAlgorithm where
  | aes256Gcm | chaCha20Poly1305
  deriving DecidableEq

/-- The cryptographic primitives the code calls. A failure of libcrypto itself is not modelled,
except where it depends on what the peer sent (`x25519Shared`). -/
structure Primitives where
  sha256 : Bytes → Block 32
  hmacSha256 : (key : Bytes) → (data : Bytes) → Block 32
  hkdfSha256 : (secret : Bytes) → (salt : Bytes) → (info : Bytes) → (len : Nat) → Block len
  /-- `scrypt_derive` with the default `ScryptParams`, 32 bytes out. -/
  scryptDerive : (password : Bytes) → (salt : Bytes) → Key
  x25519Public : (secret : Block 32) → Block 32
  /-- Throws for a peer key of low order. -/
  x25519Shared : (ownSecret : Block 32) → (peerPublic : Block 32) → Except Failure (Block 32)
  ed25519Public : (secret : Block 32) → Block 32
  ed25519Sign : (secret : Block 32) → (message : Bytes) → Block 64
  ed25519Verify : (publicKey : Block 32) → (message : Bytes) → (signature : Block 64) → Bool

variable {p : Primitives}

/-- `X25519KeyPair`, as `x25519_generate` makes it. -/
structure X25519KeyPair (p : Primitives) where
  secret : Block 32
  publicKey : Block 32
  public_eq : publicKey = p.x25519Public secret

/-- `Ed25519KeyPair`: the public half is recomputed from the private half on unlock. -/
structure Ed25519KeyPair (p : Primitives) where
  secret : Block 32
  publicKey : Block 32
  public_eq : publicKey = p.ed25519Public secret

/-- What two honest ends compute from each other's public key agrees. -/
def Primitives.X25519Commutes (p : Primitives) : Prop :=
  ∀ (a b shared : Block 32), p.x25519Shared a (p.x25519Public b) = .ok shared →
    p.x25519Shared b (p.x25519Public a) = .ok shared

/-! ## The public password -/

def publicPasswordSalt (receiverUsername : Bytes) : Bytes :=
  text "drop-zone/v1 public-password/" ++ receiverUsername

def derivePublicPasswordKey (p : Primitives) (password receiverUsername : Bytes) : Key :=
  p.scryptDerive password (publicPasswordSalt receiverUsername)

/-! ## Proof inputs -/

def kInfoDataKeySenderToReceiver : Bytes := text "drop-zone/v1 data sender->receiver"
def kInfoDataKeyReceiverToSender : Bytes := text "drop-zone/v1 data receiver->sender"
def kInfoNoncePrefixSenderToReceiver : Bytes := text "drop-zone/v1 nonce sender->receiver"
def kInfoNoncePrefixReceiverToSender : Bytes := text "drop-zone/v1 nonce receiver->sender"
def kInfoOfferKey : Bytes := text "drop-zone/v1 sealed offer"
def kInfoTransportHandshake : Bytes := text "drop-zone/v1 transport handshake"
def kMacContextSenderProof : Bytes := text "drop-zone/v1 sender proof"
def kMacContextReceiverProof : Bytes := text "drop-zone/v1 receiver proof"
def kMacContextGroupSenderProof : Bytes := text "drop-zone/v1 group sender proof"
def kMacContextGroupReceiverProof : Bytes := text "drop-zone/v1 group receiver proof"
def kSignContextTranscript : Bytes := text "drop-zone/v1 transcript signature"

/-- `append_field`: a 32-bit length and the bytes. -/
def appendField (out data : Bytes) : Bytes :=
  out ++ (putU32 (UInt32.ofNat data.length) ++ data)

/-- `append_field` on each field in turn. -/
def appendFields (fields : List Bytes) : Bytes := fields.foldl appendField []

/-- The context of a proof and, for a group, the group's name. -/
def proofContext (personal group : Bytes) (groupName : Bytes) : List Bytes :=
  if groupName = [] then [personal] else [group, groupName]

/-- `sender_proof_input`: the bytes the sender's proof and signature cover. -/
def senderProofInput (senderUsername receiverUsername : Bytes)
    (senderSessionKey senderIdentityKey : Block 32) (groupName : Bytes) : Bytes :=
  appendFields (proofContext kMacContextSenderProof kMacContextGroupSenderProof groupName ++
    [senderUsername, receiverUsername, senderSessionKey.toList, senderIdentityKey.toList])

/-- What the two ends of an introduction have to agree on. -/
structure Handshake where
  senderUsername : Bytes
  receiverUsername : Bytes
  senderSessionKey : Block 32
  senderIdentityKey : Block 32
  receiverSessionKey : Block 32
  receiverIdentityKey : Block 32
  groupName : Bytes
  deriving DecidableEq

/-- `receiver_proof_input`: the bytes the receiver's proof and signature cover. -/
def receiverProofInput (h : Handshake) : Bytes :=
  appendFields (proofContext kMacContextReceiverProof kMacContextGroupReceiverProof h.groupName ++
    [h.senderUsername, h.receiverUsername, h.senderSessionKey.toList, h.senderIdentityKey.toList,
     h.receiverSessionKey.toList, h.receiverIdentityKey.toList])

/-- The bytes that `transcript_hash` hashes. -/
def transcriptInput (h : Handshake) (senderProof receiverProof : Block 32) : Bytes :=
  appendFields [kSignContextTranscript, h.senderUsername, h.receiverUsername,
    h.senderSessionKey.toList, h.senderIdentityKey.toList, h.receiverSessionKey.toList,
    h.receiverIdentityKey.toList, senderProof.toList, receiverProof.toList]

def transcriptHash (p : Primitives) (h : Handshake) (senderProof receiverProof : Block 32) :
    Block 32 :=
  p.sha256 (transcriptInput h senderProof receiverProof)

/-! ## Session keys -/

structure SessionKeys where
  sendKey : Key
  receiveKey : Key
  sendNoncePrefix : Block 4
  receiveNoncePrefix : Block 4
  offerKey : Key
  handshakeKey : Key
  algorithm : AeadAlgorithm
  deriving DecidableEq

/-- `derive_session_keys`; `preferredAead` is this CPU's choice. -/
def deriveSessionKeys (p : Primitives) (preferredAead : AeadAlgorithm) (shared : Block 32)
    (transcript : Block 32) (isSender : Bool) : SessionKeys :=
  let expand (info : Bytes) (len : Nat) : Block len :=
    p.hkdfSha256 shared.toList transcript.toList info len
  let senderToReceiver := expand kInfoDataKeySenderToReceiver 32
  let receiverToSender := expand kInfoDataKeyReceiverToSender 32
  let senderPrefix := expand kInfoNoncePrefixSenderToReceiver 4
  let receiverPrefix := expand kInfoNoncePrefixReceiverToSender 4
  { sendKey := if isSender then senderToReceiver else receiverToSender
    receiveKey := if isSender then receiverToSender else senderToReceiver
    sendNoncePrefix := if isSender then senderPrefix else receiverPrefix
    receiveNoncePrefix := if isSender then receiverPrefix else senderPrefix
    offerKey := expand kInfoOfferKey 32
    handshakeKey := expand kInfoTransportHandshake 32
    algorithm := preferredAead }

/-- What the two ends of one session hold: the directions are swapped, the rest is shared. The
algorithm is each CPU's own; the receiver follows the one in the offer. -/
structure SessionKeys.Mirror (a b : SessionKeys) : Prop where
  send_key : a.sendKey = b.receiveKey
  receive_key : a.receiveKey = b.sendKey
  send_nonce : a.sendNoncePrefix = b.receiveNoncePrefix
  receive_nonce : a.receiveNoncePrefix = b.sendNoncePrefix
  offer_key : a.offerKey = b.offerKey
  handshake_key : a.handshakeKey = b.handshakeKey

theorem deriveSessionKeys_mirror (p : Primitives) (x y : AeadAlgorithm) (shared : Block 32)
    (transcript : Block 32) :
    (deriveSessionKeys p x shared transcript true).Mirror
      (deriveSessionKeys p y shared transcript false) := by
  constructor <;> simp only [deriveSessionKeys, if_true, Bool.false_eq_true, if_false]

/-! ## Reading the fields back -/

theorem foldl_appendField (out : Bytes) (fields : List Bytes) :
    fields.foldl appendField out = out ++ fields.flatMap putBytes := by
  induction fields generalizing out with
  | nil => simp
  | cons f fs ih => rw [List.foldl_cons, ih, List.flatMap_cons, appendField, List.append_assoc]; rfl

/-- Fields shorter than 4 GiB are determined by their concatenation. -/
theorem appendFields_inj {fs gs : List Bytes} (hf : ∀ f ∈ fs, f.length < 2 ^ 32)
    (hg : ∀ g ∈ gs, g.length < 2 ^ 32) (h : appendFields fs = appendFields gs) : fs = gs := by
  simp only [appendFields, foldl_appendField, List.nil_append] at h
  induction fs generalizing gs with
  | nil =>
    cases gs with
    | nil => rfl
    | cons g gs => simp [putBytes, putU32, leBytes] at h
  | cons f fs ih =>
    cases gs with
    | nil => simp [putBytes, putU32, leBytes] at h
    | cons g gs =>
      rw [List.flatMap_cons, List.flatMap_cons] at h
      obtain ⟨rfl, htail⟩ := (reads_takeBytes (hf f List.mem_cons_self)).cancel
        (reads_takeBytes (hg g List.mem_cons_self)) h
      rw [ih (fun x hx => hf x (List.mem_cons_of_mem _ hx))
        (fun x hx => hg x (List.mem_cons_of_mem _ hx)) htail]

/-- A name that fits a length field. Valid names and the empty group name do. -/
def Fits (name : Bytes) : Prop := name.length < 2 ^ 32

theorem fits_of_valid {name : Bytes} (h : isValidUsername name = true) : Fits name := by
  have := isValidUsername_length h
  unfold Fits
  omega

theorem fits_of_group {name : Bytes} (h : name = [] ∨ isValidUsername name = true) : Fits name := by
  rcases h with rfl | h
  · simp [Fits]
  · exact fits_of_valid h

theorem fits_key (k : Block 32) : Fits k.toList := by
  unfold Fits
  rw [List.Vector.toList_length]
  decide

structure Handshake.Fits (h : Handshake) : Prop where
  sender : DropZone.Fits h.senderUsername
  receiver : DropZone.Fits h.receiverUsername
  group : DropZone.Fits h.groupName

theorem fits_proofContext {personal group groupName : Bytes} (hp : Fits personal) (hg : Fits group)
    (hn : Fits groupName) : ∀ f ∈ proofContext personal group groupName, Fits f := by
  intro f hf
  unfold proofContext at hf
  split at hf <;> simp only [List.mem_cons, List.not_mem_nil, or_false] at hf
  · exact hf ▸ hp
  · rcases hf with rfl | rfl
    · exact hg
    · exact hn

/-- The two contexts separate personal proofs from group proofs, and a group proof names its
group. -/
theorem proofContext_inj {personal group g g' : Bytes} {rest rest' : List Bytes}
    (hne : personal ≠ group)
    (h : proofContext personal group g ++ rest = proofContext personal group g' ++ rest') :
    g = g' ∧ rest = rest' := by
  unfold proofContext at h
  by_cases hg : g = [] <;> by_cases hg' : g' = []
  · rw [if_pos hg, if_pos hg'] at h
    exact ⟨hg.trans hg'.symm, by simpa using h⟩
  · rw [if_pos hg, if_neg hg'] at h
    exact absurd (List.cons.inj h).1 hne
  · rw [if_neg hg, if_pos hg'] at h
    exact absurd (List.cons.inj h).1.symm hne
  · rw [if_neg hg, if_neg hg'] at h
    simpa using h

theorem fits_proof {personal group groupName : Bytes} {names : List Bytes} {keys : List (Block 32)}
    (hp : Fits personal) (hg : Fits group) (hn : Fits groupName) (hnames : ∀ name ∈ names, Fits name) :
    ∀ f ∈ proofContext personal group groupName ++ (names ++ keys.map List.Vector.toList), Fits f := by
  intro f hmem
  rcases List.mem_append.mp hmem with hmem | hmem
  · exact fits_proofContext hp hg hn f hmem
  · rcases List.mem_append.mp hmem with hmem | hmem
    · exact hnames f hmem
    · obtain ⟨key, -, rfl⟩ := List.mem_map.mp hmem
      exact fits_key key

theorem fits_pair {a b : Bytes} (ha : Fits a) (hb : Fits b) : ∀ name ∈ [a, b], Fits name := by
  intro name hmem
  simp only [List.mem_cons, List.not_mem_nil, or_false] at hmem
  rcases hmem with rfl | rfl
  · exact ha
  · exact hb

/-- Equal receiver proof inputs are about the same handshake. -/
theorem receiverProofInput_inj {h h' : Handshake} (hf : h.Fits) (hf' : h'.Fits)
    (heq : receiverProofInput h = receiverProofInput h') : h = h' := by
  have hcontext : Fits kMacContextReceiverProof ∧ Fits kMacContextGroupReceiverProof := by
    unfold Fits
    decide
  have hfits : ∀ k : Handshake, k.Fits → ∀ f ∈ proofContext kMacContextReceiverProof
      kMacContextGroupReceiverProof k.groupName ++ ([k.senderUsername, k.receiverUsername] ++
        [k.senderSessionKey, k.senderIdentityKey, k.receiverSessionKey, k.receiverIdentityKey].map
          List.Vector.toList), Fits f := fun k hk =>
    fits_proof hcontext.1 hcontext.2 hk.group (fits_pair hk.sender hk.receiver)
  obtain ⟨hgroup, hrest⟩ := proofContext_inj (by decide)
    (appendFields_inj (hfits h hf) (hfits h' hf') heq)
  simp only [List.map_cons, List.map_nil, List.cons_append, List.nil_append, List.cons.injEq,
    and_true] at hrest
  obtain ⟨h1, h2, h3, h4, h5, h6⟩ := hrest
  cases h
  cases h'
  simp only [Handshake.mk.injEq]
  exact ⟨h1, h2, Subtype.ext h3, Subtype.ext h4, Subtype.ext h5, Subtype.ext h6, hgroup⟩

/-- Sender proof inputs of a personal and of a group introduction differ; those of two groups
differ in the group. -/
theorem senderProofInput_group {su ru : Bytes} {sk ik : Block 32} {g g' : Bytes} (hs : Fits su)
    (hr : Fits ru) (hg : Fits g) (hg' : Fits g')
    (heq : senderProofInput su ru sk ik g = senderProofInput su ru sk ik g') : g = g' := by
  have hcontext : Fits kMacContextSenderProof ∧ Fits kMacContextGroupSenderProof := by
    unfold Fits
    decide
  have hfits : ∀ k : Bytes, Fits k → ∀ f ∈ proofContext kMacContextSenderProof
      kMacContextGroupSenderProof k ++ ([su, ru] ++ [sk, ik].map List.Vector.toList), Fits f :=
    fun k hk => fits_proof hcontext.1 hcontext.2 hk (fits_pair hs hr)
  exact (proofContext_inj (by decide) (appendFields_inj (hfits g hg) (hfits g' hg') heq)).1

end DropZone
