import DropZone.Handshake.Crypto

/-!
# What is signed and hashed

Six byte strings go into MACs, signatures and hashes of one handshake: the sender's and the receiver's
proof, each for one peer or for a group, the transcript, and the verifier of a group. The first five are
fields with their lengths; the last is not.

* `ProofInput`: one of the six with its fields; `ProofInput.encode`: its bytes.
* `encode_determines`: the bytes determine which of the six it is and every field.
-/

namespace DropZone

open LittleEndian Parser

def kMacContextGroupVerifier : Bytes := text "drop-zone/v1 group verifier"

/-- The bytes that `derive_group_verifier` authenticates. -/
def groupVerifierInput (groupName : Bytes) : Bytes :=
  kMacContextGroupVerifier ++ text "/" ++ groupName

/-- Which of the six. -/
inductive ProofForm where
  | sender | groupSender | receiver | groupReceiver | transcript | groupVerifier
  deriving DecidableEq

namespace ProofForm

/-- The context that it names. -/
def context : ProofForm → Bytes
  | sender => kMacContextSenderProof
  | groupSender => kMacContextGroupSenderProof
  | receiver => kMacContextReceiverProof
  | groupReceiver => kMacContextGroupReceiverProof
  | transcript => kSignContextTranscript
  | groupVerifier => kMacContextGroupVerifier

/-- The length of a context, and the first letter after what all of them begin with. -/
def mark : ProofForm → Nat × UInt8
  | sender => (25, 115)
  | groupSender => (31, 103)
  | receiver => (27, 114)
  | groupReceiver => (33, 103)
  | transcript => (33, 116)
  | groupVerifier => (27, 103)

theorem mark_eq (f : ProofForm) : (f.context.length, f.context.getD 13 0) = f.mark := by
  cases f <;> decide +kernel

theorem context_inj {f g : ProofForm} (h : f.context = g.context) : f = g := by
  have hmark : f.mark = g.mark := by rw [← mark_eq f, ← mark_eq g, h]
  revert hmark
  cases f <;> cases g <;> decide

theorem length_context (f : ProofForm) : f.context.length = f.mark.1 := congrArg Prod.fst (mark_eq f)

theorem fits_context (f : ProofForm) : Fits f.context := by
  rw [Fits, length_context]
  cases f <;> decide

/-- A length before a context does not begin as a context does. -/
theorem head_length (f : ProofForm) :
    (putU32 (UInt32.ofNat f.context.length)).head? ≠ kMacContextGroupVerifier.head? := by
  have hletter : kMacContextGroupVerifier.head? = some 100 := by decide +kernel
  rw [hletter, length_context]
  cases f <;> decide

end ProofForm

/-- What is encoded, with its fields. -/
inductive ProofInput where
  | sender (senderUsername receiverUsername : Bytes) (senderSessionKey senderIdentityKey : Block 32)
  | groupSender (groupName : Bytes) (named : groupName ≠ []) (senderUsername receiverUsername : Bytes)
      (senderSessionKey senderIdentityKey : Block 32)
  | receiver (senderUsername receiverUsername : Bytes) (senderSessionKey senderIdentityKey
      receiverSessionKey receiverIdentityKey : Block 32)
  | groupReceiver (groupName : Bytes) (named : groupName ≠ []) (senderUsername receiverUsername : Bytes)
      (senderSessionKey senderIdentityKey receiverSessionKey receiverIdentityKey : Block 32)
  | transcript (senderUsername receiverUsername : Bytes) (senderSessionKey senderIdentityKey
      receiverSessionKey receiverIdentityKey senderProof receiverProof : Block 32)
  | groupVerifier (groupName : Bytes)

namespace ProofInput

/-- The bytes that the code makes of it. A proof without a group's name is one for a single peer. -/
def encode : ProofInput → Bytes
  | .sender su ru sk ik => senderProofInput su ru sk ik []
  | .groupSender g _ su ru sk ik => senderProofInput su ru sk ik g
  | .receiver su ru sk ik rk ri => receiverProofInput ⟨su, ru, sk, ik, rk, ri, []⟩
  | .groupReceiver g _ su ru sk ik rk ri => receiverProofInput ⟨su, ru, sk, ik, rk, ri, g⟩
  | .transcript su ru sk ik rk ri sp rp => transcriptInput ⟨su, ru, sk, ik, rk, ri, []⟩ sp rp
  | .groupVerifier g => groupVerifierInput g

def form : ProofInput → ProofForm
  | .sender .. => .sender
  | .groupSender .. => .groupSender
  | .receiver .. => .receiver
  | .groupReceiver .. => .groupReceiver
  | .transcript .. => .transcript
  | .groupVerifier _ => .groupVerifier

/-- The fields after the context. -/
def operands : ProofInput → List Bytes
  | .sender su ru sk ik => [su, ru, sk.toList, ik.toList]
  | .groupSender g _ su ru sk ik => [g, su, ru, sk.toList, ik.toList]
  | .receiver su ru sk ik rk ri => [su, ru, sk.toList, ik.toList, rk.toList, ri.toList]
  | .groupReceiver g _ su ru sk ik rk ri => [g, su, ru, sk.toList, ik.toList, rk.toList, ri.toList]
  | .transcript su ru sk ik rk ri sp rp =>
    [su, ru, sk.toList, ik.toList, rk.toList, ri.toList, sp.toList, rp.toList]
  | .groupVerifier g => [g]

/-- Every field is shorter than 4 GiB. -/
def Fit (x : ProofInput) : Prop := ∀ field ∈ x.operands, Fits field

variable {x y : ProofInput}

/-- All but the verifier are encoded as fields with their lengths. -/
theorem encode_of_form (h : x.form ≠ .groupVerifier) :
    x.encode = appendFields (x.form.context :: x.operands) := by
  cases x with
  | sender su ru sk ik => rfl
  | groupSender g named su ru sk ik =>
    rw [encode, senderProofInput, proofContext, if_neg named]
    rfl
  | receiver su ru sk ik rk ri => rfl
  | groupReceiver g named su ru sk ik rk ri =>
    rw [encode, receiverProofInput, proofContext, if_neg named]
    rfl
  | transcript su ru sk ik rk ri sp rp => rfl
  | groupVerifier g => exact absurd rfl h

theorem eq_of_verifier (h : x.form = .groupVerifier) : ∃ g, x = .groupVerifier g := by
  cases x with
  | groupVerifier g => exact ⟨g, rfl⟩
  | sender | groupSender | receiver | groupReceiver | transcript => cases h

/-- The fields after the context are the arguments. -/
theorem eq_of_operands (hform : x.form = y.form) (hoperands : x.operands = y.operands) : x = y := by
  have hblock : ∀ a b : Block 32, a.toList = b.toList ↔ a = b := fun _ _ =>
    List.Vector.toList_injective.eq_iff
  cases x with
  | sender su ru sk ik =>
    cases y with
    | sender su' ru' sk' ik' =>
      simp only [operands, List.cons.injEq, hblock, and_true] at hoperands
      obtain ⟨rfl, rfl, rfl, rfl⟩ := hoperands
      rfl
    | _ => cases hform
  | groupSender g named su ru sk ik =>
    cases y with
    | groupSender g' named' su' ru' sk' ik' =>
      simp only [operands, List.cons.injEq, hblock, and_true] at hoperands
      obtain ⟨rfl, rfl, rfl, rfl, rfl⟩ := hoperands
      rfl
    | _ => cases hform
  | receiver su ru sk ik rk ri =>
    cases y with
    | receiver su' ru' sk' ik' rk' ri' =>
      simp only [operands, List.cons.injEq, hblock, and_true] at hoperands
      obtain ⟨rfl, rfl, rfl, rfl, rfl, rfl⟩ := hoperands
      rfl
    | _ => cases hform
  | groupReceiver g named su ru sk ik rk ri =>
    cases y with
    | groupReceiver g' named' su' ru' sk' ik' rk' ri' =>
      simp only [operands, List.cons.injEq, hblock, and_true] at hoperands
      obtain ⟨rfl, rfl, rfl, rfl, rfl, rfl, rfl⟩ := hoperands
      rfl
    | _ => cases hform
  | transcript su ru sk ik rk ri sp rp =>
    cases y with
    | transcript su' ru' sk' ik' rk' ri' sp' rp' =>
      simp only [operands, List.cons.injEq, hblock, and_true] at hoperands
      obtain ⟨rfl, rfl, rfl, rfl, rfl, rfl, rfl, rfl⟩ := hoperands
      rfl
    | _ => cases hform
  | groupVerifier g =>
    cases y with
    | groupVerifier g' =>
      cases hoperands
      rfl
    | _ => cases hform

theorem fits_fields (h : x.Fit) : ∀ field ∈ x.form.context :: x.operands, Fits field := by
  intro field hmem
  rcases List.mem_cons.mp hmem with rfl | hmem
  · exact x.form.fits_context
  · exact h field hmem

/-- A verifier is told from all others by its first byte, which is a letter. -/
theorem encode_ne_verifier (h : x.form ≠ .groupVerifier) (g : Bytes) :
    x.encode ≠ groupVerifierInput g := by
  intro heq
  have hhead := congrArg List.head? heq
  rw [encode_of_form h, appendFields, foldl_appendField, List.nil_append, List.flatMap_cons] at hhead
  exact x.form.head_length hhead

end ProofInput

/-- The bytes determine which of the six they were made as, and every field. -/
theorem encode_determines {x y : ProofInput} (hx : x.Fit) (hy : y.Fit) (h : x.encode = y.encode) :
    x.form = y.form ∧ x = y := by
  by_cases hxv : x.form = .groupVerifier <;> by_cases hyv : y.form = .groupVerifier
  · obtain ⟨g, rfl⟩ := ProofInput.eq_of_verifier hxv
    obtain ⟨g', rfl⟩ := ProofInput.eq_of_verifier hyv
    obtain rfl : g = g' := List.append_cancel_left h
    exact ⟨rfl, rfl⟩
  · obtain ⟨g, rfl⟩ := ProofInput.eq_of_verifier hxv
    exact absurd h.symm (ProofInput.encode_ne_verifier hyv g)
  · obtain ⟨g, rfl⟩ := ProofInput.eq_of_verifier hyv
    exact absurd h (ProofInput.encode_ne_verifier hxv g)
  · rw [ProofInput.encode_of_form hxv, ProofInput.encode_of_form hyv] at h
    have hfields := appendFields_inj (ProofInput.fits_fields hx) (ProofInput.fits_fields hy) h
    obtain ⟨hcontext, hoperands⟩ := List.cons.inj hfields
    have hform := ProofForm.context_inj hcontext
    exact ⟨hform, ProofInput.eq_of_operands hform hoperands⟩

/-- A group's name in which its verifier's context stands again. -/
theorem encode_determines_nested : ∃ x y : ProofInput, x.Fit ∧ y.Fit ∧ x.encode = y.encode ∧
    x.form = y.form ∧ x = y := by
  have hfit : ∀ name : Bytes, Fits name → (ProofInput.groupVerifier name).Fit := by
    intro name hname field hmem
    rw [List.mem_singleton.mp hmem]
    exact hname
  have hname : Fits (groupVerifierInput (text "friends")) := by
    unfold Fits
    decide
  exact ⟨_, _, hfit _ hname, hfit _ hname, rfl, encode_determines (hfit _ hname) (hfit _ hname) rfl⟩

end DropZone
