import DropZone.Handshake.Agreement
import DropZone.Lib.System

/-!
# The first tier: direct TCP (`client/src/transport_tcp.cpp`)

The sender dials all candidates of the receiver at once; the receiver accepts. Both take one connection
at a time and exchange proofs over it with blocking reads, the dialler in the order of the candidates,
the listener in the order in which connections complete.

* `Tier.next`: one call of either side, or one event of the network, for candidates that all reach the
  listener. Connections complete at each side in any order.
* `Tier.CrossWait`: each side waits for the other's proof on a connection of its own.
* `no_cross_wait`: that does not happen where the dialler takes connections in the order in which they
  reach the listener. `candidates_cross`: it happens otherwise.
-/

namespace DropZone

open LittleEndian System

/-! ## The proofs -/

def kDialledTag : Bytes := text "drop-zone/v1 tcp handshake dialled"

def kAcceptedTag : Bytes := text "drop-zone/v1 tcp handshake accepted"

/-- What both sides know of the session. -/
structure TcpSession where
  p : Primitives
  handshakeKey : Key

namespace TcpSession

def computeProof (t : TcpSession) (tag : Bytes) : Bytes :=
  (t.p.hmacSha256 t.handshakeKey.toList tag).toList

/-- The proof that `authenticate` sends. -/
def own (t : TcpSession) (dialled : Bool) : Bytes :=
  t.computeProof (if dialled then kDialledTag else kAcceptedTag)

/-- The proof that `authenticate` wants to read. -/
def expected (t : TcpSession) (dialled : Bool) : Bytes :=
  t.computeProof (if dialled then kAcceptedTag else kDialledTag)

theorem length_own (t : TcpSession) (dialled : Bool) : (t.own dialled).length = 32 :=
  List.Vector.toList_length _

end TcpSession

/-! ## The two sides -/

/-- What `connect_status` reports. -/
inductive ConnectStatus where
  | trying
  | connected
  | failed
  deriving DecidableEq

/-- A connection, from the dialler's socket to the listener's. -/
structure Line where
  status : ConnectStatus := .trying
  /-- The connection is complete at the listener. -/
  landed : Bool := false
  /-- What the dialler has written. -/
  toListener : Bytes := []
  /-- What the listener has written. -/
  toDialler : Bytes := []
  /-- The dialler has closed its socket. -/
  dropped : Bool := false
  /-- The listener has closed its socket. -/
  hungUp : Bool := false

/-- Where `connect_to_peer` is. -/
inductive DiallerPlace where
  /-- At `poll`. -/
  | polling
  /-- In the loop over the attempts; `rest` is what `poll` has reported and was not looked at yet. -/
  | sweeping (rest : List Nat)
  /-- In `authenticate`, before `write_all`. -/
  | writing (i : Nat) (rest : List Nat)
  /-- In `authenticate`, at `read_exact`. -/
  | reading (i : Nat) (rest : List Nat)
  | returned (channel : Option Nat)
  deriving DecidableEq

/-- Where `wait_for_peer` is. -/
inductive ListenerPlace where
  /-- At `wait_readable`. -/
  | waiting
  | writing (j : Nat)
  | reading (j : Nat)
  | returned (channel : Option Nat)
  deriving DecidableEq

structure Tier where
  /-- The connects that could be started; they are numbered in the order of the candidates. -/
  dialled : Nat
  /-- The attempts that are left. -/
  attempts : List Nat := List.range dialled
  line : Nat → Line := fun _ => {}
  /-- The connections to accept, in the order in which they were completed. -/
  queue : List Nat := []
  dialler : DiallerPlace := .polling
  listener : ListenerPlace := .waiting

inductive TierEvent where
  /-- A connect is complete at the dialler, or has failed. -/
  | complete (i : Nat)
  | refuse (i : Nat)
  /-- A connection is complete at the listener. -/
  | land (i : Nat)
  /-- `poll` returns. -/
  | poll
  /-- One turn of the loop over the attempts, or its end. -/
  | sweep
  | dialWrite (ok : Bool)
  | dialRead
  /-- `read_exact` finds the connection closed. -/
  | dialClosed
  /-- The read fails: `SO_RCVTIMEO` has passed, and then the wait that `read_exact` goes on with. -/
  | dialTimeout
  /-- The budget is used up, or no attempt is left. -/
  | dialGiveUp
  | accept
  | listenWrite (ok : Bool)
  | listenRead
  | listenClosed
  /-- As for the dialler. -/
  | listenTimeout
  | listenGiveUp

namespace Tier

def set (s : Tier) (i : Nat) (f : Line → Line) : Tier :=
  { s with line := Function.update s.line i (f (s.line i)) }

/-- The dialler's attempt `i` was not the peer: it is erased. -/
def drop (s : Tier) (i : Nat) (rest : List Nat) : Tier :=
  { s.set i fun l => { l with dropped := true } with
    attempts := s.attempts.erase i, dialler := .sweeping rest }

/-- The dialler returns, which closes all other attempts. -/
def dialReturn (s : Tier) (channel : Option Nat) : Tier :=
  { s with
    line := fun i => if i ∈ s.attempts ∧ some i ≠ channel then { s.line i with dropped := true } else s.line i
    dialler := .returned channel }

/-- The listener's connection `j` was not the peer. -/
def hangUp (s : Tier) (j : Nat) : Tier :=
  { s.set j fun l => { l with hungUp := true } with listener := .waiting }

/-- The dialler waits for bytes that are not there. -/
def DiallerBlocked (s : Tier) (i : Nat) : Prop := (s.line i).toDialler.length < 32 ∧ (s.line i).hungUp = false

def ListenerBlocked (s : Tier) (j : Nat) : Prop :=
  (s.line j).toListener.length < 32 ∧ (s.line j).dropped = false

instance (s : Tier) (i : Nat) : Decidable (s.DiallerBlocked i) :=
  inferInstanceAs (Decidable (_ ∧ _))

instance (s : Tier) (j : Nat) : Decidable (s.ListenerBlocked j) :=
  inferInstanceAs (Decidable (_ ∧ _))

def dialNext (t : TcpSession) (s : Tier) : TierEvent → Option Tier
  | .poll =>
    match s.dialler with
    | .polling => some { s with
        dialler := .sweeping (s.attempts.filter fun i => (s.line i).status ≠ .trying) }
    | _ => none
  | .sweep =>
    match s.dialler with
    | .sweeping [] => some { s with dialler := .polling }
    | .sweeping (i :: rest) =>
      match (s.line i).status with
      | .trying => some { s with dialler := .sweeping rest }
      | .connected => some { s with dialler := .writing i rest }
      | .failed => some (s.drop i rest)
    | _ => none
  | .dialWrite ok =>
    match s.dialler with
    | .writing i rest =>
      if ok then
        some { s.set i fun l => { l with toListener := l.toListener ++ t.own true } with
          dialler := .reading i rest }
      else some (s.drop i rest)
    | _ => none
  | .dialRead =>
    match s.dialler with
    | .reading i rest =>
      if 32 ≤ (s.line i).toDialler.length then
        if (s.line i).toDialler.take 32 = t.expected true then some (s.dialReturn (some i))
        else some (s.drop i rest)
      else none
    | _ => none
  | .dialClosed =>
    match s.dialler with
    | .reading i rest => if (s.line i).hungUp then some (s.drop i rest) else none
    | _ => none
  | .dialTimeout =>
    match s.dialler with
    | .reading i rest => if s.DiallerBlocked i then some (s.drop i rest) else none
    | _ => none
  | .dialGiveUp =>
    match s.dialler with
    | .polling => some (s.dialReturn none)
    | _ => none
  | _ => none

def listenNext (t : TcpSession) (s : Tier) : TierEvent → Option Tier
  | .accept =>
    match s.listener, s.queue with
    | .waiting, j :: queue => some { s with queue := queue, listener := .writing j }
    | _, _ => none
  | .listenWrite ok =>
    match s.listener with
    | .writing j =>
      if ok then
        some { s.set j fun l => { l with toDialler := l.toDialler ++ t.own false } with
          listener := .reading j }
      else some (s.hangUp j)
    | _ => none
  | .listenRead =>
    match s.listener with
    | .reading j =>
      if 32 ≤ (s.line j).toListener.length then
        if (s.line j).toListener.take 32 = t.expected false then
          some { s with listener := .returned (some j) }
        else some (s.hangUp j)
      else none
    | _ => none
  | .listenClosed =>
    match s.listener with
    | .reading j => if (s.line j).dropped then some (s.hangUp j) else none
    | _ => none
  | .listenTimeout =>
    match s.listener with
    | .reading j => if s.ListenerBlocked j then some (s.hangUp j) else none
    | _ => none
  | .listenGiveUp =>
    match s.listener with
    | .waiting => some { s with listener := .returned none }
    | _ => none
  | _ => none

/-- One event, if it can happen. -/
def next (t : TcpSession) (s : Tier) : TierEvent → Option Tier
  | .complete i =>
    if i < s.dialled ∧ (s.line i).status = .trying then
      some (s.set i fun l => { l with status := .connected })
    else none
  | .refuse i =>
    if i < s.dialled ∧ (s.line i).status = .trying then
      some (s.set i fun l => { l with status := .failed })
    else none
  | .land i =>
    if i < s.dialled ∧ (s.line i).landed = false then
      some { s.set i fun l => { l with landed := true } with queue := s.queue ++ [i] }
    else none
  | e => (s.dialNext t e).or (s.listenNext t e)

/-- Any number of attempts, none of which is complete. -/
def Started (s : Tier) : Prop := ∃ n, s = { dialled := n }

/-- Both sides wait, on two connections. -/
def CrossWait (s : Tier) : Prop :=
  ∃ i rest j, i ≠ j ∧ s.dialler = .reading i rest ∧ s.DiallerBlocked i ∧ s.listener = .reading j ∧
    s.ListenerBlocked j

/-! ## The order in which connections are taken -/

def Dials (s : Tier) (i : Nat) : Prop :=
  ∃ rest, s.dialler = .writing i rest ∨ s.dialler = .reading i rest

def Holds (s : Tier) (j : Nat) : Prop := s.listener = .writing j ∨ s.listener = .reading j

def Accepted (s : Tier) (i : Nat) : Prop := (s.line i).landed = true ∧ i ∉ s.queue

/-- `i` is to be accepted before `j`. -/
def Ahead (s : Tier) (i j : Nat) : Prop := ∃ front back, s.queue = front ++ i :: back ∧ j ∉ front

/-- The listener has accepted `i`, or comes to it before any other connection that the dialler has
not closed. -/
def First (s : Tier) (i : Nat) : Prop :=
  s.Accepted i ∨ ∀ j, j ≠ i → (s.line j).dropped = false → ¬ s.Holds j ∧ (j ∈ s.queue → s.Ahead i j)

/-- The dialler takes connections in the order in which they reach the listener: it takes one that is
the first there, and no other one overtakes it. -/
def InOrder (s : Tier) : TierEvent → Prop
  | .sweep => ∀ i rest, s.dialler = .sweeping (i :: rest) → (s.line i).status = .connected → s.First i
  | .land j => ∀ i, s.Dials i → i ≠ j → (s.line i).landed = true
  | _ => True

def OrderedStep (t : TcpSession) (s : Tier) (e : TierEvent) (s' : Tier) : Prop :=
  s.next t e = some s' ∧ s.InOrder e

/-- What the listener knows of the connections it has accepted. -/
structure Queued (s : Tier) : Prop where
  nodup : s.queue.Nodup
  landed : ∀ i ∈ s.queue, (s.line i).landed = true
  held : ∀ j, s.Holds j → s.Accepted j
  /-- Whatever was accepted is held, has the listener's proof or was closed. -/
  accepted : ∀ i, s.Accepted i → s.Holds i ∨ 32 ≤ (s.line i).toDialler.length ∨ (s.line i).hungUp = true
  proved : ∀ j, s.listener = .reading j → 32 ≤ (s.line j).toDialler.length

/-- The listener is not behind the dialler. -/
structure Agreed (s : Tier) : Prop where
  queued : s.Queued
  first : ∀ i, s.Dials i → s.First i

theorem Agreed.not_crossWait {s : Tier} (hs : s.Agreed) : ¬ s.CrossWait := by
  rintro ⟨i, rest, j, hne, hdialler, ⟨hshort, hopen⟩, hlistener, -, hkept⟩
  have hholds : ∀ k, s.Holds k → k = j := by
    rintro k (hk | hk)
    · cases hlistener.symm.trans hk
    · cases hlistener.symm.trans hk
      rfl
  obtain haccepted | hothers := hs.first i ⟨rest, .inr hdialler⟩
  · obtain hheld | hproof | hclosed := hs.queued.accepted i haccepted
    · exact hne (hholds i hheld)
    · omega
    · cases hopen.symm.trans hclosed
  · exact (hothers j hne.symm hkept).1 (.inr hlistener)

/-! ## What the events do -/

/-- What the dialler's calls and the network may change without the listener's noticing. -/
structure Unnoticed (s s' : Tier) : Prop where
  queue : s'.queue = s.queue
  listener : s'.listener = s.listener
  landed : ∀ i, (s'.line i).landed = (s.line i).landed
  toDialler : ∀ i, (s'.line i).toDialler = (s.line i).toDialler
  hungUp : ∀ i, (s'.line i).hungUp = (s.line i).hungUp
  dropped : ∀ i, (s'.line i).dropped = false → (s.line i).dropped = false

section Unnoticed

variable {s s' : Tier}

theorem Unnoticed.refl_dialler (s : Tier) (place : DiallerPlace) (attempts : List Nat) :
    Unnoticed s { s with dialler := place, attempts := attempts } :=
  ⟨rfl, rfl, fun _ => rfl, fun _ => rfl, fun _ => rfl, fun _ => id⟩

theorem Unnoticed.accepted (h : Unnoticed s s') (i : Nat) : s'.Accepted i ↔ s.Accepted i := by
  rw [Accepted, Accepted, h.landed, h.queue]

theorem Unnoticed.holds (h : Unnoticed s s') (j : Nat) : s'.Holds j ↔ s.Holds j := by
  rw [Holds, Holds, h.listener]

theorem Unnoticed.queued (h : Unnoticed s s') (hs : s.Queued) : s'.Queued where
  nodup := h.queue ▸ hs.nodup
  landed i hi := by
    rw [h.landed]
    exact hs.landed i (h.queue ▸ hi)
  held j hj := (h.accepted j).mpr (hs.held j ((h.holds j).mp hj))
  accepted i hi := by
    rw [h.holds, h.toDialler, h.hungUp]
    exact hs.accepted i ((h.accepted i).mp hi)
  proved j hj := by
    rw [h.toDialler]
    exact hs.proved j (h.listener ▸ hj)

theorem Unnoticed.first (h : Unnoticed s s') {i : Nat} (hi : s.First i) : s'.First i := by
  refine hi.imp (h.accepted i).mpr fun hothers j hne hkept => ?_
  obtain ⟨hheld, hahead⟩ := hothers j hne (h.dropped j hkept)
  refine ⟨mt (h.holds j).mp hheld, fun hj => ?_⟩
  rw [Ahead, h.queue]
  exact hahead (h.queue ▸ hj)

/-- A change to one connection that the listener does not notice. -/
theorem Unnoticed.set (s : Tier) (i : Nat) {f : Line → Line}
    (hf : ∀ l, (f l).landed = l.landed ∧ (f l).toDialler = l.toDialler ∧ (f l).hungUp = l.hungUp ∧
      ((f l).dropped = false → l.dropped = false)) (place : DiallerPlace) (attempts : List Nat) :
    Unnoticed s { s.set i f with dialler := place, attempts := attempts } := by
  have hline : ∀ k, (s.set i f).line k = s.line k ∨ (s.set i f).line k = f (s.line k) := by
    intro k
    by_cases hk : k = i
    · subst hk
      exact .inr (Function.update_self ..)
    · exact .inl (Function.update_of_ne hk ..)
  refine ⟨rfl, rfl, fun k => ?_, fun k => ?_, fun k => ?_, fun k => ?_⟩
  all_goals
    dsimp only
    rcases hline k with hk | hk
    all_goals rw [hk]
  · exact (hf _).1
  · exact (hf _).2.1
  · exact (hf _).2.2.1
  · exact id
  · exact (hf _).2.2.2

end Unnoticed

section Steps

variable {t : TcpSession} {s s' : Tier} {e : TierEvent}

theorem unnoticed_drop (s : Tier) (i : Nat) (rest : List Nat) : Unnoticed s (s.drop i rest) := by
  refine Unnoticed.set s i ?_ _ _
  exact fun _ => ⟨rfl, rfl, rfl, Bool.noConfusion⟩

theorem unnoticed_status (s : Tier) (i : Nat) (status : ConnectStatus) :
    Unnoticed s (s.set i fun l => { l with status := status }) :=
  Unnoticed.set s i (f := fun l => { l with status := status }) (fun _ => ⟨rfl, rfl, rfl, id⟩) s.dialler
    s.attempts

theorem unnoticed_dialReturn (s : Tier) (channel : Option Nat) : Unnoticed s (s.dialReturn channel) := by
  refine ⟨rfl, rfl, fun i => ?_, fun i => ?_, fun i => ?_, fun i => ?_⟩
  all_goals
    dsimp only [dialReturn]
    split
  · rfl
  · rfl
  · rfl
  · rfl
  · rfl
  · rfl
  · exact Bool.noConfusion
  · exact id

/-- The dialler takes up a connection only from the list that `poll` reported. -/
def Takes (s : Tier) (e : TierEvent) (i : Nat) : Prop :=
  e = .sweep ∧ ∃ rest, s.dialler = .sweeping (i :: rest) ∧ (s.line i).status = .connected

theorem not_dials_of {place : DiallerPlace} (h : s.dialler = place)
    (hplace : ∀ i rest, place ≠ .writing i rest ∧ place ≠ .reading i rest) (i : Nat) : ¬ s.Dials i := by
  rintro ⟨rest, hi | hi⟩
  · exact (hplace i rest).1 (h.symm.trans hi)
  · exact (hplace i rest).2 (h.symm.trans hi)

theorem dialNext_unnoticed (h : s.dialNext t e = some s') :
    Unnoticed s s' ∧ ∀ i, s'.Dials i → s.Dials i ∨ s.Takes e i := by
  have hsweeping : ∀ {s' : Tier} {rest : List Nat}, s'.dialler = .sweeping rest → ∀ i, ¬ s'.Dials i :=
    fun h => not_dials_of h fun _ _ => ⟨DiallerPlace.noConfusion, DiallerPlace.noConfusion⟩
  have hreturned : ∀ {s' : Tier} {channel : Option Nat}, s'.dialler = .returned channel →
      ∀ i, ¬ s'.Dials i :=
    fun h => not_dials_of h fun _ _ => ⟨DiallerPlace.noConfusion, DiallerPlace.noConfusion⟩
  cases e with
  | complete | refuse | land | accept | listenWrite | listenRead | listenClosed | listenTimeout |
      listenGiveUp => cases h
  | poll =>
    dsimp only [dialNext] at h
    split at h
    · cases h
      exact ⟨.refl_dialler s _ _, fun i hi => absurd hi (hsweeping rfl i)⟩
    · cases h
  | sweep =>
    dsimp only [dialNext] at h
    split at h
    · cases h
      exact ⟨.refl_dialler s _ _, fun i hi => absurd hi (not_dials_of rfl
        (fun _ _ => ⟨DiallerPlace.noConfusion, DiallerPlace.noConfusion⟩) i)⟩
    · rename_i i rest hplace
      split at h
      · cases h
        exact ⟨.refl_dialler s _ _, fun i hi => absurd hi (hsweeping rfl i)⟩
      · rename_i hstatus
        cases h
        refine ⟨.refl_dialler s _ _, fun k hk => .inr ?_⟩
        obtain ⟨_, hk | hk⟩ := hk
        · cases hk
          exact ⟨rfl, rest, hplace, hstatus⟩
        · cases hk
      · cases h
        exact ⟨unnoticed_drop s i rest, fun k hk => absurd hk (hsweeping rfl k)⟩
    · cases h
  | dialWrite ok =>
    dsimp only [dialNext] at h
    split at h
    · rename_i i rest hplace
      split at h
      · cases h
        refine ⟨Unnoticed.set s i ?_ _ _, fun k hk => .inl ?_⟩
        · exact fun _ => ⟨rfl, rfl, rfl, id⟩
        · obtain ⟨_, hk | hk⟩ := hk
          · cases hk
          · cases hk
            exact ⟨rest, .inl hplace⟩
      · cases h
        exact ⟨unnoticed_drop s i rest, fun k hk => absurd hk (hsweeping rfl k)⟩
    · cases h
  | dialRead =>
    dsimp only [dialNext] at h
    split at h
    · rename_i i rest _
      obtain ⟨-, h⟩ := Option.ite_none_right_eq_some.mp h
      split at h
      · cases h
        exact ⟨unnoticed_dialReturn s _, fun k hk => absurd hk (hreturned rfl k)⟩
      · cases h
        exact ⟨unnoticed_drop s i rest, fun k hk => absurd hk (hsweeping rfl k)⟩
    · cases h
  | dialClosed | dialTimeout =>
    dsimp only [dialNext] at h
    split at h
    · rename_i i rest _
      obtain ⟨-, h⟩ := Option.ite_none_right_eq_some.mp h
      cases h
      exact ⟨unnoticed_drop s i rest, fun k hk => absurd hk (hsweeping rfl k)⟩
    · cases h
  | dialGiveUp =>
    dsimp only [dialNext] at h
    split at h
    · cases h
      exact ⟨unnoticed_dialReturn s _, fun k hk => absurd hk (hreturned rfl k)⟩
    · cases h

/-- The listener goes on with what it holds, or lets it go with its proof sent or the socket closed. -/
structure LetsGo (s s' : Tier) : Prop where
  queue : s'.queue = s.queue
  dialler : s'.dialler = s.dialler
  landed : ∀ i, (s'.line i).landed = (s.line i).landed
  dropped : ∀ i, (s'.line i).dropped = (s.line i).dropped
  toDialler : ∀ i, (s.line i).toDialler.length ≤ (s'.line i).toDialler.length
  hungUp : ∀ i, (s.line i).hungUp = true → (s'.line i).hungUp = true
  holds : ∀ j, s'.Holds j → s.Holds j
  done : ∀ i, s.Holds i →
    s'.Holds i ∨ 32 ≤ (s'.line i).toDialler.length ∨ (s'.line i).hungUp = true
  proved : ∀ j, s'.listener = .reading j → 32 ≤ (s'.line j).toDialler.length

theorem LetsGo.agreed (h : LetsGo s s') (hs : s.Agreed) : s'.Agreed := by
  have haccepted : ∀ i, s'.Accepted i ↔ s.Accepted i := fun i => by
    rw [Accepted, Accepted, h.landed, h.queue]
  refine ⟨⟨h.queue ▸ hs.queued.nodup, fun i hi => ?_, fun j hj => ?_, fun i hi => ?_, h.proved⟩, fun i hi => ?_⟩
  · rw [h.landed]
    exact hs.queued.landed i (h.queue ▸ hi)
  · exact (haccepted j).mpr (hs.queued.held j (h.holds j hj))
  · obtain hheld | hproof | hclosed := hs.queued.accepted i ((haccepted i).mp hi)
    · exact h.done i hheld
    · exact .inr (.inl (Nat.le_trans hproof (h.toDialler i)))
    · exact .inr (.inr (h.hungUp i hclosed))
  · have hdials : s.Dials i := by rwa [Dials, ← h.dialler]
    refine (hs.first i hdials).imp (haccepted i).mpr fun hothers j hne hkept => ?_
    obtain ⟨hheld, hahead⟩ := hothers j hne (h.dropped j ▸ hkept)
    refine ⟨mt (h.holds j) hheld, fun hj => ?_⟩
    rw [Ahead, h.queue]
    exact hahead (h.queue ▸ hj)

theorem letsGo_hangUp {j : Nat} (hplace : s.Holds j) : LetsGo s (s.hangUp j) := by
  have hline : ∀ k, (s.hangUp j).line k = s.line k ∨ (s.hangUp j).line k = { s.line k with hungUp := true } := by
    intro k
    by_cases hk : k = j
    · subst hk
      exact .inr (Function.update_self ..)
    · exact .inl (Function.update_of_ne hk ..)
  refine ⟨rfl, rfl, fun k => ?_, fun k => ?_, fun k => ?_, fun k hk => ?_, fun k hk => ?_, fun k hk => ?_,
    fun k hk => ?_⟩
  · rcases hline k with h | h <;> rw [h]
  · rcases hline k with h | h <;> rw [h]
  · rcases hline k with h | h <;> rw [h]
  · rcases hline k with h | h
    · rwa [h]
    · rw [h]
  · rcases hk with hk | hk <;> cases hk
  · have : k = j := by
      rcases hplace with hp | hp <;> rcases hk with hk | hk <;> cases hp.symm.trans hk <;> rfl
    subst this
    refine .inr (.inr ?_)
    change (Function.update s.line k _ k).hungUp = true
    rw [Function.update_self]
  · cases hk

theorem letsGo_write {j : Nat} (hplace : s.listener = .writing j) (t : TcpSession) :
    LetsGo s { s.set j fun l => { l with toDialler := l.toDialler ++ t.own false } with
      listener := .reading j } := by
  have hself : (s.set j fun l => { l with toDialler := l.toDialler ++ t.own false }).line j =
      { s.line j with toDialler := (s.line j).toDialler ++ t.own false } := Function.update_self ..
  have hproof : 32 ≤ ((s.line j).toDialler ++ t.own false).length := by
    rw [List.length_append, t.length_own]
    exact Nat.le_add_left _ _
  have hline : ∀ k, (s.set j fun l => { l with toDialler := l.toDialler ++ t.own false }).line k =
      s.line k ∨ (s.set j fun l => { l with toDialler := l.toDialler ++ t.own false }).line k =
        { s.line k with toDialler := (s.line k).toDialler ++ t.own false } := by
    intro k
    by_cases hk : k = j
    · subst hk
      exact .inr hself
    · exact .inl (Function.update_of_ne hk ..)
  refine ⟨rfl, rfl, fun k => ?_, fun k => ?_, fun k => ?_, fun k hk => ?_, fun k hk => ?_, fun k hk => ?_,
    fun k hk => ?_⟩
  · rcases hline k with h | h <;> rw [h]
  · rcases hline k with h | h <;> rw [h]
  · rcases hline k with h | h
    · rw [h]
    · rw [h, List.length_append]
      exact Nat.le_add_right _ _
  · rcases hline k with h | h <;> rwa [h]
  · rcases hk with hk | hk <;> cases hk
    exact .inl hplace
  · rcases hk with hk | hk <;> cases hplace.symm.trans hk
    exact .inl (.inr rfl)
  · cases hk
    rw [hself]
    exact hproof

theorem letsGo_return (hs : s.Agreed) (hplace : ∀ j, ¬ s.listener = .writing j) (channel : Option Nat) :
    LetsGo s { s with listener := .returned channel } where
  queue := rfl
  dialler := rfl
  landed _ := rfl
  dropped _ := rfl
  toDialler _ := Nat.le_refl _
  hungUp _ := id
  holds j hj := by rcases hj with hj | hj <;> cases hj
  done i hi := by
    rcases hi with hi | hi
    · exact absurd hi (hplace i)
    · exact .inr (.inl (hs.queued.proved i hi))
  proved j hj := by cases hj

/-- `accept`: what the dialler is waiting on comes first. -/
theorem Agreed.accept (hs : s.Agreed) {j : Nat} {queue : List Nat} (hwaiting : s.listener = .waiting)
    (hqueue : s.queue = j :: queue) : Agreed { s with queue := queue, listener := .writing j } := by
  have hnodup := hs.queued.nodup
  rw [hqueue, List.nodup_cons] at hnodup
  have hheld : ∀ {k}, Holds { s with queue := queue, listener := .writing j } k → k = j := by
    rintro k (hk | hk) <;> cases hk
    rfl
  have hrest : ∀ {k}, k ∈ queue → k ∈ s.queue := fun hk => hqueue ▸ List.mem_cons_of_mem _ hk
  have haccepted : ∀ {k}, s.Accepted k → Accepted { s with queue := queue, listener := .writing j } k :=
    fun hk => ⟨hk.1, fun hmem => hk.2 (hrest hmem)⟩
  have hnew : Accepted { s with queue := queue, listener := .writing j } j :=
    ⟨hs.queued.landed j (hqueue ▸ List.mem_cons_self), hnodup.1⟩
  refine ⟨⟨hnodup.2, fun i hi => hs.queued.landed i (hrest hi), fun k hk => hheld hk ▸ hnew, fun i hi => ?_,
    fun k hk => by cases hk⟩, fun i hi => ?_⟩
  · by_cases hij : i = j
    · exact .inl (.inl (hij ▸ rfl))
    · have hold : s.Accepted i := ⟨hi.1, fun hmem => by
        rw [hqueue, List.mem_cons] at hmem
        exact hmem.elim hij hi.2⟩
      obtain (hheld | hheld) | hproof := hs.queued.accepted i hold
      · cases hwaiting.symm.trans hheld
      · cases hwaiting.symm.trans hheld
      · exact .inr hproof
  · obtain hold | hothers := hs.first i hi
    · exact .inl (haccepted hold)
    · by_cases hij : i = j
      · exact .inl (hij ▸ hnew)
      · refine .inr fun k hne hkept => ?_
        -- whatever is accepted before `i` was closed by the dialler
        have hsplit : ∀ {k}, k ∈ s.queue → k ≠ i → (s.line k).dropped = false →
            ∃ front back, queue = front ++ i :: back ∧ k ∉ j :: front := by
          intro k hk hne hkept
          obtain ⟨front, back, hfront, hnot⟩ := (hothers k hne hkept).2 hk
          rw [hqueue] at hfront
          cases front with
          | nil =>
            cases hfront
            exact absurd rfl hij
          | cons _ front =>
            cases hfront
            exact ⟨front, back, rfl, hnot⟩
        refine ⟨fun hk => ?_, fun hk => ?_⟩
        · obtain rfl := hheld hk
          obtain ⟨_, _, -, hnot⟩ := hsplit (hqueue ▸ List.mem_cons_self) hne hkept
          exact hnot List.mem_cons_self
        · obtain ⟨front, back, hfront, hnot⟩ := hsplit (hrest hk) hne hkept
          exact ⟨front, back, hfront, fun h => hnot (List.mem_cons_of_mem _ h)⟩

theorem Agreed.listenNext (hs : s.Agreed) (h : s.listenNext t e = some s') : s'.Agreed := by
  cases e with
  | complete | refuse | land | poll | sweep | dialWrite | dialRead | dialClosed | dialTimeout |
      dialGiveUp => cases h
  | accept =>
    dsimp only [Tier.listenNext] at h
    split at h
    · rename_i hwaiting hqueue
      cases h
      exact hs.accept hwaiting hqueue
    · cases h
  | listenWrite ok =>
    dsimp only [Tier.listenNext] at h
    split at h
    · rename_i j hplace
      split at h
      · cases h
        exact (letsGo_write hplace t).agreed hs
      · cases h
        exact (letsGo_hangUp (.inl hplace)).agreed hs
    · cases h
  | listenRead =>
    dsimp only [Tier.listenNext] at h
    split at h
    · rename_i j hplace
      obtain ⟨-, h⟩ := Option.ite_none_right_eq_some.mp h
      split at h
      · cases h
        refine (letsGo_return hs (fun k hk => ?_) _).agreed hs
        cases hplace.symm.trans hk
      · cases h
        exact (letsGo_hangUp (.inr hplace)).agreed hs
    · cases h
  | listenClosed | listenTimeout =>
    dsimp only [Tier.listenNext] at h
    split at h
    · rename_i j hplace
      obtain ⟨-, h⟩ := Option.ite_none_right_eq_some.mp h
      cases h
      exact (letsGo_hangUp (.inr hplace)).agreed hs
    · cases h
  | listenGiveUp =>
    dsimp only [Tier.listenNext] at h
    split at h
    · rename_i hplace
      cases h
      refine (letsGo_return hs (fun k hk => ?_) _).agreed hs
      cases hplace.symm.trans hk
    · cases h

/-- A connection reaches the listener: it does not overtake the one that the dialler is waiting on. -/
theorem Agreed.land (hs : s.Agreed) {j : Nat} (hnew : (s.line j).landed = false)
    (horder : ∀ i, s.Dials i → i ≠ j → (s.line i).landed = true) :
    Agreed { s.set j fun l => { l with landed := true } with queue := s.queue ++ [j] } := by
  generalize hs' : ({ s.set j fun l => { l with landed := true } with
    queue := s.queue ++ [j] } : Tier) = s'
  have hqueue : s'.queue = s.queue ++ [j] := hs' ▸ rfl
  have hself : s'.line j = { s.line j with landed := true } := by
    rw [← hs']
    exact Function.update_self ..
  have hother : ∀ {k}, k ≠ j → s'.line k = s.line k := by
    intro k hk
    rw [← hs']
    exact Function.update_of_ne hk ..
  have hholds : ∀ k, s'.Holds k ↔ s.Holds k := fun k => by rw [← hs']; rfl
  have hnotin : j ∉ s.queue := fun h => by
    rw [hs.queued.landed j h] at hnew
    cases hnew
  have haccepted : ∀ k, s'.Accepted k ↔ s.Accepted k := by
    intro k
    by_cases hk : k = j
    · subst hk
      rw [Accepted, Accepted, hqueue, hnew]
      simp
    · rw [Accepted, Accepted, hother hk, hqueue, List.mem_append, List.mem_singleton]
      simp [hk]
  refine ⟨⟨?_, fun i hi => ?_, fun k hk => ?_, fun i hi => ?_, fun k hk => ?_⟩, fun i hi => ?_⟩
  · rw [hqueue, List.nodup_append]
    refine ⟨hs.queued.nodup, List.nodup_singleton _, fun a ha b hb => ?_⟩
    cases List.mem_singleton.mp hb
    exact fun h => hnotin (h ▸ ha)
  · by_cases hij : i = j
    · rw [hij, hself]
    · rw [hother hij]
      rw [hqueue, List.mem_append, List.mem_singleton] at hi
      exact hs.queued.landed i (hi.resolve_right hij)
  · exact (haccepted k).mpr (hs.queued.held k ((hholds k).mp hk))
  · have hold := (haccepted i).mp hi
    have hij : i ≠ j := fun h => by
      rw [h] at hold
      cases hnew.symm.trans hold.1
    rw [hholds, hother hij]
    exact hs.queued.accepted i hold
  · have hold : s.listener = .reading k := by rw [← hk, ← hs']; rfl
    have hkj : k ≠ j := fun h => by
      have := (hs.queued.held k (.inr hold)).1
      rw [h] at this
      cases hnew.symm.trans this
    rw [hother hkj]
    exact hs.queued.proved k hold
  · have hdials : s.Dials i := by
      rw [← hs'] at hi
      exact hi
    obtain hold | hothers := hs.first i hdials
    · exact .inl ((haccepted i).mpr hold)
    · by_cases hqueued : i ∈ s.queue ∨ i = j
      · refine .inr fun k hne hkept => ?_
        have hkept' : (s.line k).dropped = false := by
          by_cases hk : k = j
          · rw [hk, hself] at hkept
            rw [hk]
            exact hkept
          · rwa [hother hk] at hkept
        obtain ⟨hheld, hahead⟩ := hothers k hne hkept'
        refine ⟨mt (hholds k).mp hheld, fun hk => ?_⟩
        rw [hqueue, List.mem_append, List.mem_singleton] at hk
        rcases hk with hk | rfl
        · obtain ⟨front, back, hfront, hnot⟩ := hahead hk
          exact ⟨front, back ++ [j], by rw [hqueue, hfront, List.append_assoc]; rfl, hnot⟩
        · -- the new connection is behind `i`
          have hmem := hqueued.resolve_right hne.symm
          obtain ⟨front, back, hfront⟩ := List.append_of_mem hmem
          refine ⟨front, back ++ [k], by rw [hqueue, hfront, List.append_assoc]; rfl, fun hin => hnotin ?_⟩
          rw [hfront]
          exact List.mem_append_left _ hin
      · rw [not_or] at hqueued
        exact .inl ((haccepted i).mpr ⟨horder i hdials hqueued.2, hqueued.1⟩)

/-- What an event preserves. -/
theorem Agreed.step (hs : s.Agreed) (h : OrderedStep t s e s') : s'.Agreed := by
  obtain ⟨hn, horder⟩ := h
  have hcalls : (s.dialNext t e).or (s.listenNext t e) = some s' → s'.Agreed := by
    intro hcall
    cases hdial : s.dialNext t e with
    | none =>
      rw [hdial, Option.none_or] at hcall
      exact hs.listenNext hcall
    | some s₁ =>
      rw [hdial, Option.some_or] at hcall
      cases hcall
      obtain ⟨hunnoticed, hdials⟩ := dialNext_unnoticed hdial
      refine ⟨hunnoticed.queued hs.queued, fun i hi => hunnoticed.first ?_⟩
      rcases hdials i hi with hi | ⟨rfl, rest, hplace, hstatus⟩
      · exact hs.first i hi
      · exact horder i rest hplace hstatus
  have hquiet : ∀ {s'}, Unnoticed s s' → s'.dialler = s.dialler → s'.Agreed := by
    intro s' hunnoticed hdialler
    refine ⟨hunnoticed.queued hs.queued, fun i hi => hunnoticed.first (hs.first i ?_)⟩
    rwa [Dials, ← hdialler]
  cases e with
  | complete i =>
    obtain ⟨-, hn⟩ := Option.ite_none_right_eq_some.mp hn
    cases hn
    exact hquiet (unnoticed_status s i .connected) rfl
  | refuse i =>
    obtain ⟨-, hn⟩ := Option.ite_none_right_eq_some.mp hn
    cases hn
    exact hquiet (unnoticed_status s i .failed) rfl
  | land j =>
    obtain ⟨⟨-, hnew⟩, hn⟩ := Option.ite_none_right_eq_some.mp hn
    cases hn
    exact hs.land hnew horder
  | poll | sweep | dialWrite | dialRead | dialClosed | dialTimeout | dialGiveUp | accept | listenWrite |
      listenRead | listenClosed | listenTimeout | listenGiveUp => exact hcalls hn

theorem Started.agreed (hs : s.Started) : s.Agreed := by
  obtain ⟨n, rfl⟩ := hs
  refine ⟨⟨.nil, fun _ h => absurd h List.not_mem_nil, fun j hj => ?_, fun i hi => ?_, fun j hj => ?_⟩,
    fun i hi => ?_⟩
  · rcases hj with hj | hj <;> cases hj
  · cases hi.1
  · cases hj
  · obtain ⟨_, hi | hi⟩ := hi <;> cases hi

end Steps

end Tier

/-- **No cross-wait** in a run in which the dialler takes connections in the order in which they reach
the listener. -/
theorem no_cross_wait {t : TcpSession} {s : Tier} (hr : Reach Tier.Started (Tier.OrderedStep t) s) :
    ¬ s.CrossWait := by
  have hs : s.Agreed := Reach.invariant (I := Tier.Agreed) (fun _ h => h.agreed)
    (fun _ _ _ hs h => hs.step h) hr
  exact hs.not_crossWait

def toyDial : TcpSession := ⟨toyPrimitives, List.Vector.replicate 32 0⟩

/-- Two candidates, both of which are connected and reach the listener in order: both sides take the first. -/
theorem no_cross_wait_pair : ∃ s, Reach Tier.Started (Tier.OrderedStep toyDial) s ∧
    s.dialler = .reading 0 [1] ∧ s.listener = .reading 0 ∧ s.queue = [1] ∧
      (s.line 1).status = .connected ∧ (s.line 1).dropped = false ∧ ¬ s.CrossWait := by
  have hfirst : ∀ s : Tier, s.listener = .waiting → s.queue = [0, 1] → s.First 0 := by
    intro s hlistener hqueue
    refine .inr fun j _ _ => ⟨?_, fun _ => ⟨[], [1], hqueue, List.not_mem_nil⟩⟩
    rintro (hj | hj) <;> cases hlistener.symm.trans hj
  have hidle : ∀ {s : Tier} {j : Nat}, s.dialler = .polling → ∀ i, s.Dials i → i ≠ j →
      (s.line i).landed = true := by
    rintro s j hplace i ⟨_, hi | hi⟩ <;> cases hplace.symm.trans hi
  have hr : Reach Tier.Started (Tier.OrderedStep toyDial) { dialled := 2 } := .init ⟨2, rfl⟩
  have hr₁ := hr.step (e := TierEvent.complete 0) ⟨rfl, trivial⟩
  have hr₂ := hr₁.step (e := TierEvent.complete 1) ⟨rfl, trivial⟩
  have hr₃ := hr₂.step (e := TierEvent.land 0) ⟨rfl, hidle rfl⟩
  have hr₄ := hr₃.step (e := TierEvent.land 1) ⟨rfl, hidle rfl⟩
  have hr₅ := hr₄.step (e := TierEvent.poll) ⟨rfl, trivial⟩
  have hr₆ := hr₅.step (e := TierEvent.sweep) ⟨rfl, fun i rest hplace _ => by cases hplace; exact hfirst _ rfl rfl⟩
  have hr₇ := hr₆.step (e := TierEvent.dialWrite true) ⟨rfl, trivial⟩
  have hr₈ := hr₇.step (e := TierEvent.accept) ⟨rfl, trivial⟩
  have hr₉ := hr₈.step (e := TierEvent.listenWrite true) ⟨rfl, trivial⟩
  exact ⟨_, hr₉, rfl, rfl, rfl, rfl, rfl, no_cross_wait hr₉⟩

/-- Two candidates, of which the second reaches the listener first: the dialler sends its proof over the
first and waits there, the listener over the second. -/
theorem candidates_cross : ∃ s, Reach Tier.Started (fun s e s' => s.next toyDial e = some s') s ∧
    s.dialler = .reading 0 [1] ∧ s.listener = .reading 1 ∧ s.CrossWait := by
  have hr : Reach Tier.Started (fun s e s' => s.next toyDial e = some s') { dialled := 2 } :=
    .init ⟨2, rfl⟩
  have hr₁ := hr.step (e := TierEvent.complete 0) rfl
  have hr₂ := hr₁.step (e := TierEvent.complete 1) rfl
  have hr₃ := hr₂.step (e := TierEvent.land 1) rfl
  have hr₄ := hr₃.step (e := TierEvent.land 0) rfl
  have hr₅ := hr₄.step (e := TierEvent.poll) rfl
  have hr₆ := hr₅.step (e := TierEvent.sweep) rfl
  have hr₇ := hr₆.step (e := TierEvent.dialWrite true) rfl
  have hr₈ := hr₇.step (e := TierEvent.accept) rfl
  have hr₉ := hr₈.step (e := TierEvent.listenWrite true) rfl
  exact ⟨_, hr₉, rfl, rfl, 0, [1], 1, by decide, rfl, ⟨by decide, rfl⟩, rfl, by decide, rfl⟩

end DropZone
