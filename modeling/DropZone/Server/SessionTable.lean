import Mathlib.Logic.Function.Basic
import DropZone.Wire.Control

/-!
# Connections and the session table (`server/src/connection.cpp`, `server/src/session_table.cpp`)

A connection is named by a `ConnId`; a weak pointer to it is the id, and `lock` succeeds while the
server still has the connection. The table's maps are functions from keys to entries.

* `Connection.append`: `enqueue_frame` on the output buffer, with its compaction.
* `SessionTable.createPairing`: the salted counter; `createPairing_spec` says which id it picks
  while the counter has not wrapped around.
-/

namespace DropZone

open LittleEndian

/-- A connection object. -/
abbrev ConnId := Nat

/-! ## Connections -/

inductive ConnectionState where
  | awaitingHello | receiverIdle | receiverMatched | senderIdle | senderWaiting | relaying | closing
  deriving DecidableEq

structure Connection where
  state : ConnectionState := .awaitingHello
  hello : ClientHello := { username := [], identityKey := .replicate 32 0, sessionKey := .replicate 32 0 }
  helloReceived : Bool := false
  claimedUsername : Bytes := []
  pairingId : UInt64 := 0
  joinedGroup : Bytes := []
  relayPeer : Option ConnId := none
  observedEndpoint : Endpoint := .unspecified
  rateLimitKey : UInt64 := 0
  lastActivityMs : UInt64 := 0
  output : Bytes := []
  outputSent : Nat := 0
  readPaused : Bool := false
  closeRequested : Bool := false
  closeReason : Bytes := []

instance : Inhabited Connection := ⟨{}⟩

namespace Connection

/-- `Connection::pending_output`. -/
def pendingOutput (c : Connection) : Nat := c.output.length - c.outputSent

/-- The buffer part of `Connection::enqueue_frame`: compact, then append. -/
def append (c : Connection) (bytes : Bytes) : Connection :=
  if 0 < c.outputSent ∧ c.outputSent = c.output.length then
    { c with output := bytes, outputSent := 0 }
  else if 64 * 1024 < c.outputSent then
    { c with output := c.output.drop c.outputSent ++ bytes, outputSent := 0 }
  else { c with output := c.output ++ bytes }

/-- `Connection::request_close`: the first reason stays. -/
def requestClose (c : Connection) (reason : Bytes) : Connection :=
  if c.closeRequested then c else { c with closeRequested := true, closeReason := reason }

@[simp] theorem append_pairingId (c : Connection) (b : Bytes) :
    (c.append b).pairingId = c.pairingId := by
  unfold append; split <;> [rfl; (split <;> rfl)]

@[simp] theorem requestClose_pairingId (c : Connection) (r : Bytes) :
    (c.requestClose r).pairingId = c.pairingId := by
  unfold requestClose; split <;> rfl

end Connection

/-! ## The table -/

structure Pairing where
  id : UInt64
  sender : ConnId
  receiver : ConnId
  senderWantsRelay : Bool := false
  receiverWantsRelay : Bool := false
  relayActive : Bool := false
  createdMs : UInt64
  deriving DecidableEq

/-- The sender and the receiver of a pairing. -/
def Pairing.parties (pr : Pairing) : ConnId × ConnId := (pr.sender, pr.receiver)

structure Group where
  verifier : Block 32
  members : List ConnId
  deriving DecidableEq

inductive ClaimResult where
  | granted | alreadyClaimed | invalidUsername
  deriving DecidableEq

structure SessionTable where
  claims : Bytes → Option ConnId := fun _ => none
  pairings : UInt64 → Option Pairing := fun _ => none
  groups : Bytes → Option Group := fun _ => none
  nextPairingCounter : UInt64 := 1
  pairingIdSalt : UInt64 := 0
  saltReady : Bool := false

namespace SessionTable

section

-- whether a connection still exists, for `weak_ptr::lock` and `weak_ptr::expired`
variable (alive : ConnId → Bool)

def claim (t : SessionTable) (username : Bytes) (c : ConnId) : ClaimResult × SessionTable :=
  if !isValidUsername username then (.invalidUsername, t)
  else
    match t.claims username with
    | some holder =>
      if alive holder then (.alreadyClaimed, t)
      else (.granted, { t with claims := Function.update t.claims username (some c) })
    | none => (.granted, { t with claims := Function.update t.claims username (some c) })

def release (t : SessionTable) (username : Bytes) (c : ConnId) : SessionTable :=
  if username = [] then t
  else
    match t.claims username with
    | some holder =>
      if !alive holder || holder == c then
        { t with claims := Function.update t.claims username none }
      else t
    | none => t

def lookup (t : SessionTable) (username : Bytes) : Option ConnId :=
  match t.claims username with
  | some holder => if alive holder then some holder else none
  | none => none

def expirePairings (t : SessionTable) (nowMs maxAgeMs : UInt64) : SessionTable :=
  { t with pairings := fun id =>
      match t.pairings id with
      | some p =>
        if (!alive p.sender && !alive p.receiver) || decide (nowMs - p.createdMs > maxAgeMs) then none
        else some p
      | none => none }

/-- The table with this entry for the group. -/
def setGroup (t : SessionTable) (name : Bytes) (g : Option Group) : SessionTable :=
  { t with groups := Function.update t.groups name g }

/-- `SessionTable::prune_group_locked` and the erasure its callers do when nobody is left. -/
def pruneGroup (t : SessionTable) (name : Bytes) : SessionTable :=
  match t.groups name with
  | some g =>
    let members := g.members.filter alive
    t.setGroup name (if members = [] then none else some { g with members := members })
  | none => t

def groupExists (t : SessionTable) (name : Bytes) : Bool × SessionTable :=
  let t := t.pruneGroup alive name
  ((t.groups name).isSome, t)

def groupMemberCount (t : SessionTable) (name : Bytes) : Nat × SessionTable :=
  let t := t.pruneGroup alive name
  (((t.groups name).map (·.members.length)).getD 0, t)

def joinGroup (t : SessionTable) (name : Bytes) (verifier : Block 32) (c : ConnId) :
    GroupJoinOutcome × SessionTable :=
  if !isValidUsername name then (.invalidName, t)
  else
    let t := t.pruneGroup alive name
    match t.groups name with
    | none =>
      (.created, t.setGroup name (some ⟨verifier, [c]⟩))
    | some g =>
      if c ∈ g.members then (.alreadyMember, t)
      else if g.verifier ≠ verifier then (.wrongPassword, t)
      else if kMaxGroupMembers ≤ g.members.length then (.full, t)
      else (.joined, t.setGroup name (some { g with members := g.members ++ [c] }))

def leaveGroup (t : SessionTable) (name : Bytes) (c : ConnId) : SessionTable :=
  if name = [] then t
  else
    match t.groups name with
    | some g =>
      let members := g.members.filter fun m => alive m && m != c
      t.setGroup name (if members = [] then none else some { g with members := members })
    | none => t

end

/-- `SessionTable::idle_group_members`, with the live connections at hand. -/
def idleGroupMembers (t : SessionTable) (connections : ConnId → Option Connection)
    (name skipUsername : Bytes) : List Connection × SessionTable :=
  let t := t.pruneGroup (fun c => (connections c).isSome) name
  match t.groups name with
  | none => ([], t)
  | some g =>
    ((g.members.filterMap connections).filter fun m =>
      m.state == .receiverIdle && !(skipUsername != [] && m.claimedUsername == skipUsername), t)

theorem idleGroupMembers_snd (t : SessionTable) (connections : ConnId → Option Connection)
    (name skipUsername : Bytes) :
    (t.idleGroupMembers connections name skipUsername).2 =
      t.pruneGroup (fun c => (connections c).isSome) name := by
  unfold idleGroupMembers
  dsimp only
  split <;> rfl

/-- The loop of `create_pairing`: the next counter value whose id is not 0 and not in use, and the
counter after it. The fuel is the number of counter values there are. -/
def nextId (pairings : UInt64 → Option Pairing) (salt : UInt64) : Nat → UInt64 → UInt64 × UInt64
  | 0, counter => (0, counter)
  | fuel + 1, counter =>
    let id := counter ^^^ salt
    if id = 0 ∨ (pairings id).isSome then nextId pairings salt fuel (counter + 1)
    else (id, counter + 1)

/-- `SessionTable::create_pairing`; `random` is the salt drawn if there is none yet. -/
def createPairing (t : SessionTable) (random nowMs : UInt64) (sender receiver : ConnId) :
    UInt64 × SessionTable :=
  let salt := if t.saltReady then t.pairingIdSalt else random
  let (id, counter) := nextId t.pairings salt (2 ^ 64) t.nextPairingCounter
  (id, { t with
    pairingIdSalt := salt
    saltReady := true
    nextPairingCounter := counter
    pairings := Function.update t.pairings id
      (some { id := id, sender := sender, receiver := receiver, createdMs := nowMs }) })

def findPairing (t : SessionTable) (id : UInt64) : Option Pairing := t.pairings id

/-- `SessionTable::request_relay`: true when both sides have now asked for the first time. -/
def requestRelay (t : SessionTable) (id : UInt64) (fromSender : Bool) : Bool × SessionTable :=
  match t.pairings id with
  | none => (false, t)
  | some p =>
    let p := if fromSender then { p with senderWantsRelay := true }
      else { p with receiverWantsRelay := true }
    if p.senderWantsRelay && p.receiverWantsRelay && !p.relayActive then
      (true, { t with pairings := Function.update t.pairings id (some { p with relayActive := true }) })
    else (false, { t with pairings := Function.update t.pairings id (some p) })

def destroyPairing (t : SessionTable) (id : UInt64) : SessionTable :=
  { t with pairings := Function.update t.pairings id none }

/-! ## What an operation leaves alone -/

/-- The part of the table that the pairing operations work on. -/
def pairingPart (t : SessionTable) : (UInt64 → Option Pairing) × UInt64 × UInt64 × Bool :=
  (t.pairings, t.nextPairingCounter, t.pairingIdSalt, t.saltReady)

theorem pairings_eq {t t' : SessionTable} (h : t'.pairingPart = t.pairingPart) :
    t'.pairings = t.pairings := congrArg Prod.fst h

section

variable (alive : ConnId → Bool) (t : SessionTable)

theorem claim_others (u : Bytes) (c : ConnId) :
    (t.claim alive u c).2.pairingPart = t.pairingPart ∧
      (t.claim alive u c).2.groups = t.groups := by
  unfold claim
  split
  · exact ⟨rfl, rfl⟩
  · split
    · split <;> exact ⟨rfl, rfl⟩
    · exact ⟨rfl, rfl⟩

variable {alive t} in
theorem claim_pairings {u : Bytes} {c : ConnId} {result : ClaimResult} {table : SessionTable}
    (h : t.claim alive u c = (result, table)) : table.pairings = t.pairings := by
  have hpart := pairings_eq (claim_others alive t u c).1
  rwa [h] at hpart

theorem release_others (u : Bytes) (c : ConnId) :
    (t.release alive u c).pairingPart = t.pairingPart ∧ (t.release alive u c).groups = t.groups := by
  unfold release
  split
  · exact ⟨rfl, rfl⟩
  · split
    · split <;> exact ⟨rfl, rfl⟩
    · exact ⟨rfl, rfl⟩

theorem pruneGroup_others (name : Bytes) :
    (t.pruneGroup alive name).pairingPart = t.pairingPart ∧
      (t.pruneGroup alive name).claims = t.claims := by
  unfold pruneGroup
  split <;> exact ⟨rfl, rfl⟩

theorem joinGroup_others (name : Bytes) (v : Block 32) (c : ConnId) :
    (t.joinGroup alive name v c).2.pairingPart = t.pairingPart ∧
      (t.joinGroup alive name v c).2.claims = t.claims := by
  have h := pruneGroup_others alive t name
  unfold joinGroup
  split
  · exact ⟨rfl, rfl⟩
  · dsimp only
    split
    · exact h
    · split
      · exact h
      · split
        · exact h
        · split <;> exact h

theorem leaveGroup_others (name : Bytes) (c : ConnId) :
    (t.leaveGroup alive name c).pairingPart = t.pairingPart ∧
      (t.leaveGroup alive name c).claims = t.claims := by
  unfold leaveGroup
  split
  · exact ⟨rfl, rfl⟩
  · split <;> exact ⟨rfl, rfl⟩

theorem requestRelay_others (id : UInt64) (fromSender : Bool) :
    (t.requestRelay id fromSender).2.groups = t.groups ∧
      (t.requestRelay id fromSender).2.claims = t.claims := by
  unfold requestRelay
  split
  · exact ⟨rfl, rfl⟩
  · dsimp only
    split <;> split <;> exact ⟨rfl, rfl⟩

end

/-- A pairing that a tick leaves was there before, and is not old. -/
theorem expirePairings_some {alive : ConnId → Bool} {t : SessionTable} {nowMs maxAgeMs id : UInt64}
    {pr : Pairing} (h : (t.expirePairings alive nowMs maxAgeMs).pairings id = some pr) :
    t.pairings id = some pr ∧ ¬ nowMs - pr.createdMs > maxAgeMs := by
  unfold expirePairings at h
  dsimp only at h
  split at h
  · rename_i p hp
    split at h
    · cases h
    · rename_i hkeep
      cases h
      simp only [Bool.or_eq_true, decide_eq_true_eq, not_or] at hkeep
      exact ⟨hp, hkeep.2⟩
  · cases h

theorem destroyPairing_eq_some {t : SessionTable} {id k : UInt64} {pr : Pairing} :
    (t.destroyPairing id).pairings k = some pr ↔ k ≠ id ∧ t.pairings k = some pr := by
  by_cases hk : k = id
  · simp [destroyPairing, hk]
  · simp [destroyPairing, hk]

theorem destroyPairing_none {t : SessionTable} {id : UInt64} (h : t.pairings id = none) :
    t.destroyPairing id = t := by
  rw [destroyPairing, ← h, Function.update_eq_self]

/-! ## Pairing ids -/

/-- The id was made from an earlier value of the counter. -/
def Used (t : SessionTable) (id : UInt64) : Prop :=
  t.saltReady = true ∧ ∃ k, k < t.nextPairingCounter ∧ id = k ^^^ t.pairingIdSalt

/-- Every pairing has an id that is not 0 and was made from an earlier value of the counter. -/
def Numbered (t : SessionTable) : Prop := ∀ id pr, t.pairings id = some pr → id ≠ 0 ∧ t.Used id

theorem nextId_succ (pairings : UInt64 → Option Pairing) (salt : UInt64) (fuel : Nat)
    (counter : UInt64) :
    nextId pairings salt (fuel + 1) counter =
      if counter ^^^ salt = 0 ∨ (pairings (counter ^^^ salt)).isSome then
        nextId pairings salt fuel (counter + 1)
      else (counter ^^^ salt, counter + 1) := rfl

/-- While none of the ids from `counter` on is in use and the counter does not wrap around, the
loop takes the first of the next two that is not 0. -/
theorem nextId_spec {pairings : UInt64 → Option Pairing} {salt counter : UInt64} {fuel : Nat}
    (hfree : ∀ k, counter ≤ k → pairings (k ^^^ salt) = none)
    (hroom : counter.toNat + 2 < 2 ^ 64) :
    ∃ k, counter ≤ k ∧ k.toNat + 1 < 2 ^ 64 ∧ k ^^^ salt ≠ 0 ∧
      nextId pairings salt (fuel + 2) counter = (k ^^^ salt, k + 1) := by
  have hnext : (counter + 1).toNat = counter.toNat + 1 := by
    rw [UInt64.toNat_add]
    exact Nat.mod_eq_of_lt (by simp; omega)
  have hle : counter ≤ counter + 1 := by
    rw [UInt64.le_iff_toNat_le, hnext]
    omega
  by_cases h0 : counter ^^^ salt = 0
  · have h1 : counter + 1 ^^^ salt ≠ 0 := by
      intro h1
      have heq : counter = counter + 1 := (UInt64.xor_left_inj salt).mp (h0.trans h1.symm)
      have := congrArg UInt64.toNat heq
      omega
    refine ⟨counter + 1, hle, by omega, h1, ?_⟩
    rw [nextId_succ, if_pos (Or.inl h0), nextId_succ, if_neg]
    simp [h1, hfree _ hle]
  · refine ⟨counter, UInt64.le_refl _, by omega, h0, ?_⟩
    rw [nextId_succ, if_neg]
    simp [h0, hfree counter (UInt64.le_refl _)]

theorem createPairing_eq {t : SessionTable} {random salt id counter : UInt64}
    (hsalt : (if t.saltReady then t.pairingIdSalt else random) = salt)
    (hnext : nextId t.pairings salt (2 ^ 64) t.nextPairingCounter = (id, counter))
    (nowMs : UInt64) (c r : ConnId) :
    t.createPairing random nowMs c r = (id, { t with
      pairingIdSalt := salt
      saltReady := true
      nextPairingCounter := counter
      pairings := Function.update t.pairings id
        (some { id := id, sender := c, receiver := r, createdMs := nowMs }) }) := by
  simp only [createPairing, hsalt, hnext]

/-- **A new pairing has an id that was never used**, while the counter is not about to wrap. -/
theorem createPairing_spec {t : SessionTable} (hn : t.Numbered)
    (hroom : t.nextPairingCounter.toNat + 2 < 2 ^ 64) (random nowMs : UInt64) (c r : ConnId) :
    ∃ id t', t.createPairing random nowMs c r = (id, t') ∧ id ≠ 0 ∧ ¬ t.Used id ∧ t'.Used id ∧
      (∀ x, t.Used x → t'.Used x) ∧
      t'.pairings = Function.update t.pairings id
        (some { id := id, sender := c, receiver := r, createdMs := nowMs }) := by
  generalize hsalt : (if t.saltReady then t.pairingIdSalt else random) = salt
  have hfree : ∀ k, t.nextPairingCounter ≤ k → t.pairings (k ^^^ salt) = none := by
    intro k hk
    cases hp : t.pairings (k ^^^ salt) with
    | none => rfl
    | some pr =>
      exfalso
      obtain ⟨-, hready, k', hk', hid⟩ := hn _ pr hp
      rw [if_pos hready] at hsalt
      rw [← hsalt, UInt64.xor_left_inj] at hid
      subst hid
      exact absurd hk' (UInt64.not_lt.mpr hk)
  obtain ⟨k, hk, hk1, h0, hnext⟩ := @nextId_spec _ _ _ (2 ^ 64 - 2) hfree hroom
  have hkn : (k + 1).toNat = k.toNat + 1 := by
    rw [UInt64.toNat_add]
    exact Nat.mod_eq_of_lt hk1
  rw [UInt64.le_iff_toNat_le] at hk
  refine ⟨k ^^^ salt, _, createPairing_eq hsalt hnext nowMs c r, h0, ?_, ?_, ?_, rfl⟩
  · rintro ⟨hready, k', hk', hid⟩
    rw [if_pos hready] at hsalt
    rw [hsalt, UInt64.xor_left_inj] at hid
    subst hid
    rw [UInt64.lt_iff_toNat_lt] at hk'
    omega
  · exact ⟨rfl, k, by rw [UInt64.lt_iff_toNat_lt, hkn]; omega, rfl⟩
  · rintro x ⟨hready, k', hk', rfl⟩
    rw [if_pos hready] at hsalt
    rw [UInt64.lt_iff_toNat_lt] at hk'
    exact ⟨rfl, k', by rw [UInt64.lt_iff_toNat_lt, hkn]; omega, by rw [hsalt]⟩

/-- If the loop of `create_pairing` comes past an id that is free, it ends with a free one. -/
theorem nextId_free (pairings : UInt64 → Option Pairing) (salt : UInt64) {counter : UInt64}
    {fuel i : Nat} (hi : i < fuel) (hzero : counter + UInt64.ofNat i ^^^ salt ≠ 0)
    (hfree : pairings (counter + UInt64.ofNat i ^^^ salt) = none) :
    (nextId pairings salt fuel counter).1 ≠ 0 ∧
      pairings (nextId pairings salt fuel counter).1 = none := by
  induction fuel generalizing counter i with
  | zero => omega
  | succ fuel ih =>
    rw [nextId_succ]
    split
    · rename_i hbad
      cases i with
      | zero => simp_all
      | succ j =>
        have hnext : counter + UInt64.ofNat (j + 1) = counter + 1 + UInt64.ofNat j := by
          rw [UInt64.ofNat_add]
          grind
        rw [hnext] at hzero hfree
        exact ih (by omega) hzero hfree
    · rename_i hgood
      simpa [not_or] using hgood

/-- **A new pairing has a free id**, if there is any. -/
theorem createPairing_free {t : SessionTable} {id : UInt64} (hid : id ≠ 0) (hfree : t.pairings id = none)
    (random nowMs : UInt64) (c r : ConnId) :
    (t.createPairing random nowMs c r).1 ≠ 0 ∧
      t.pairings (t.createPairing random nowMs c r).1 = none := by
  generalize hsalt : (if t.saltReady then t.pairingIdSalt else random) = salt
  have hreach : t.nextPairingCounter +
      UInt64.ofNat ((id ^^^ salt) - t.nextPairingCounter).toNat ^^^ salt = id := by
    have hcancel : ∀ a b : UInt64, a + (b - a) = b := by grind
    rw [UInt64.ofNat_toNat, hcancel, UInt64.xor_assoc, UInt64.xor_self, UInt64.xor_zero]
  have h := nextId_free t.pairings salt
    (UInt64.toNat_lt ((id ^^^ salt) - t.nextPairingCounter))
    (by rw [hreach]; exact hid) (by rw [hreach]; exact hfree)
  simpa only [createPairing, hsalt] using h

/-! ## Relay requests -/

/-- A request notes the side that asked; the relay starts once both have. -/
theorem requestRelay_spec {t table : SessionTable} {id : UInt64} {pr : Pairing} {fromSender start : Bool}
    (hpr : t.pairings id = some pr) (h : t.requestRelay id fromSender = (start, table)) :
    ∃ pr', table.pairings = Function.update t.pairings id (some pr') ∧ pr'.sender = pr.sender ∧
      pr'.receiver = pr.receiver ∧ (start = false → pr'.relayActive = pr.relayActive) ∧
      (start = true → pr.relayActive = false ∧ pr'.relayActive = true) := by
  rw [requestRelay, hpr] at h
  cases fromSender
  all_goals
    simp only [Bool.false_eq_true, if_true, if_false] at h
    split at h
    · rename_i hstart
      simp only [Bool.and_eq_true, Bool.not_eq_true'] at hstart
      cases h
      exact ⟨_, rfl, rfl, rfl, nofun, fun _ => ⟨hstart.2, rfl⟩⟩
    · cases h
      exact ⟨_, rfl, rfl, rfl, fun _ => rfl, nofun⟩

/-- The pairings after one of them has changed. -/
theorem pairings_update_cases {t table : SessionTable} {id id' : UInt64} {pr pr' : Pairing}
    (ht : table.pairings = Function.update t.pairings id (some pr))
    (h : table.pairings id' = some pr') :
    id' = id ∧ pr' = pr ∨ id' ≠ id ∧ t.pairings id' = some pr' := by
  rw [ht] at h
  by_cases hid : id' = id
  · subst hid
    rw [Function.update_self, Option.some.injEq] at h
    exact .inl ⟨rfl, h.symm⟩
  · rw [Function.update_of_ne hid] at h
    exact .inr ⟨hid, h⟩

end SessionTable

end DropZone
