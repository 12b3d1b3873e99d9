import DropZone.Wire.Transfer

/-!
# Sealing and the worker pool (`common/src/crypto.cpp`, `common/src/aead_pool.cpp`)

* `Aead`: the cipher as a parameter, with the lengths it produces.
* `Aead.Ideal keys msgs`: nothing opens under the keys but what is listed; `Aead.Undoes`: what was
  sealed opens again.
* `AeadPool`: the pool between its mutex-protected steps: `submit`, a worker's `take` and `finish`,
  `drain`. A step that gives `none` waits.
-/

namespace DropZone

open LittleEndian

def kAeadNonceSize : Nat := 12

/-- The cipher. `openBytes` gives none when the tag does not verify. -/
structure Aead where
  sealBytes : AeadAlgorithm → Key → (nonce : Block 12) → (aad plaintext : Bytes) → Bytes
  openBytes : AeadAlgorithm → Key → (nonce : Block 12) → (aad ciphertext : Bytes) → Option Bytes
  length_seal : ∀ alg key nonce aad plaintext,
    (sealBytes alg key nonce aad plaintext).length = plaintext.length + kAeadTagSize
  length_open : ∀ alg key nonce aad ciphertext plaintext,
    openBytes alg key nonce aad ciphertext = some plaintext →
      ciphertext.length = plaintext.length + kAeadTagSize

/-- A message that was sealed. -/
structure Sealed where
  algorithm : AeadAlgorithm
  key : Key
  nonce : Block 12
  aad : Bytes
  plaintext : Bytes
  deriving DecidableEq

/-- Under the keys in `keys`, only the messages listed open: what opens under a key, a nonce and
associated data was sealed under them. -/
def Aead.Ideal (A : Aead) (keys : List Key) (msgs : List Sealed) : Prop :=
  ∀ alg key nonce aad ciphertext plaintext, key ∈ keys →
    A.openBytes alg key nonce aad ciphertext = some plaintext →
      ⟨alg, key, nonce, aad, plaintext⟩ ∈ msgs

/-- What was sealed opens again. -/
def Aead.Undoes (A : Aead) : Prop :=
  ∀ alg key nonce aad plaintext,
    A.openBytes alg key nonce aad (A.sealBytes alg key nonce aad plaintext) = some plaintext

/-- `build_nonce`. -/
def buildNonce (noncePrefix : Block 4) (counter : UInt64) : Block 12 :=
  ⟨noncePrefix.toList ++ putU64 counter, by simp [putU64]⟩

/-- `seal_standalone`, with the nonce it draws. -/
def sealStandalone (A : Aead) (algorithm : AeadAlgorithm) (key : Key) (nonce : Block 12)
    (aad plaintext : Bytes) : Bytes :=
  nonce.toList ++ A.sealBytes algorithm key nonce aad plaintext

def openStandalone (A : Aead) (algorithm : AeadAlgorithm) (key : Key) (aad sealed : Bytes) :
    Option Bytes :=
  if h : kAeadNonceSize + kAeadTagSize ≤ sealed.length then
    A.openBytes algorithm key
      ⟨sealed.take 12, List.length_take_of_le (Nat.le_of_add_right_le h)⟩ aad (sealed.drop 12)
  else none

theorem openStandalone_some {A : Aead} {algorithm : AeadAlgorithm} {key : Key} {aad sealed : Bytes}
    {plaintext : Bytes} (h : openStandalone A algorithm key aad sealed = some plaintext) :
    ∃ nonce, A.openBytes algorithm key nonce aad (sealed.drop 12) = some plaintext := by
  unfold openStandalone at h
  split at h
  · exact ⟨_, h⟩
  · cases h

theorem openStandalone_seal {A : Aead} (hundo : A.Undoes) (algorithm : AeadAlgorithm) (key : Key)
    (nonce : Block 12) (aad plaintext : Bytes) :
    openStandalone A algorithm key aad (sealStandalone A algorithm key nonce aad plaintext) =
      some plaintext := by
  have hn : nonce.toList.length = 12 := nonce.toList_length
  have hlen : kAeadNonceSize + kAeadTagSize ≤
      (sealStandalone A algorithm key nonce aad plaintext).length := by
    rw [sealStandalone, List.length_append, A.length_seal, hn]
    simp only [kAeadNonceSize]
    omega
  have htake : (sealStandalone A algorithm key nonce aad plaintext).take 12 = nonce.toList :=
    List.take_left' hn
  have hdrop : (sealStandalone A algorithm key nonce aad plaintext).drop 12 =
      A.sealBytes algorithm key nonce aad plaintext := List.drop_left' hn
  unfold openStandalone
  rw [dif_pos hlen, hdrop]
  have hnonce : (⟨(sealStandalone A algorithm key nonce aad plaintext).take 12,
      List.length_take_of_le (Nat.le_of_add_right_le hlen)⟩ : Block 12) = nonce :=
    Subtype.ext htake
  rw [hnonce]
  exact hundo ..

/-- A cipher that hides nothing: sixteen zero bytes for a tag, and only the messages that `opens`
allows are opened. It stands for the cipher in concrete runs. -/
def clearAead (opens : Sealed → Bool) : Aead where
  sealBytes _ _ _ _ plaintext := plaintext ++ List.replicate kAeadTagSize 0
  openBytes alg key nonce aad ciphertext :=
    let plaintext := ciphertext.take (ciphertext.length - kAeadTagSize)
    if ciphertext = plaintext ++ List.replicate kAeadTagSize 0 ∧
        opens ⟨alg, key, nonce, aad, plaintext⟩ = true then some plaintext
    else none
  length_seal := by simp
  length_open := by
    intro alg key nonce aad ciphertext plaintext h
    dsimp only at h
    split at h
    · rename_i hc
      cases h
      have hlen := congrArg List.length hc.1
      rwa [List.length_append, List.length_replicate] at hlen
    · cases h

theorem clearAead_ideal (keys : List Key) (msgs : List Sealed) :
    (clearAead fun m => decide (m ∈ msgs)).Ideal keys msgs := by
  intro alg key nonce aad ciphertext plaintext _ h
  simp only [clearAead] at h
  split at h
  · rename_i hc
    cases h
    exact of_decide_eq_true hc.2
  · cases h

theorem clearAead_undoes : (clearAead fun _ => true).Undoes := by
  intro alg key nonce aad plaintext
  simp [clearAead]

/-! ## The pool -/

/-- `AeadPool`: the jobs waiting, the jobs that workers are running, and the first failure. -/
structure AeadPool (J : Type) where
  queue : List J := []
  active : List J := []
  firstError : Option Failure := none

namespace AeadPool

variable {J : Type}

/-- `AeadPool::submit`: waits for space, or rethrows the first failure. -/
def submit (depth : Nat) (pool : AeadPool J) (job : J) : Option (Except Failure (AeadPool J)) :=
  match pool.firstError with
  | some e => some (.error e)
  | none =>
    if pool.queue.length < depth then some (.ok { pool with queue := pool.queue ++ [job] })
    else none

/-- One of `workers` idle workers takes the job at the front of the queue. -/
def take (workers : Nat) (pool : AeadPool J) : Option (AeadPool J) :=
  match pool.queue with
  | [] => none
  | job :: queue =>
    if pool.active.length < workers then
      some { pool with queue := queue, active := pool.active ++ [job] }
    else none

/-- The worker running `active[i]` is done; the first failure is kept. -/
def finish (pool : AeadPool J) (i : Nat) (error : Option Failure) : AeadPool J :=
  { pool with
    active := pool.active.eraseIdx i
    firstError := pool.firstError.or error }

/-- `AeadPool::drain`: waits until nothing is queued or running, then rethrows the first failure,
which it clears. -/
def drain (pool : AeadPool J) : Option (AeadPool J × Option Failure) :=
  if pool.queue = [] ∧ pool.active = [] then
    some ({ pool with firstError := none }, pool.firstError)
  else none

theorem submit_of_clean {pool : AeadPool J} (h : pool.firstError = none) (depth : Nat) (job : J) :
    pool.submit depth job =
      if pool.queue.length < depth then some (.ok { pool with queue := pool.queue ++ [job] })
      else none := by
  unfold submit
  split
  · rename_i e he
    rw [h] at he
    cases he
  · rfl

end AeadPool

end DropZone
