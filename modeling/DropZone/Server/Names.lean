import DropZone.Server.Runs

/-!
# Usernames under any interleaving of shards

A shard runs the handlers of its own connections one after the other, and every call of the session
table is atomic; between two such calls any other shard may do anything. A connection's name goes
through `claim` and the store of `claimed_username` in its hello, and through `release` and the
removal in `close_connection`. The object may live on after that, as long as another shard has a
pointer to it.

* `Names.next`: one such step; `Names.Holds s c u`: `c` was granted `u` and has not released it.
* `username_exclusive`: who holds a name is who the table says, alone, and until its own release.
* `Server.Tidy.names`: an event of the server with atomic handlers is a sequence of these steps.
-/

namespace DropZone

open LittleEndian StateSpec System

/-- What a connection's shard has done of the handler that it is in. -/
inductive NameTask where
  /-- The shard is in no handler that touches the name. -/
  | free
  /-- `claim` has returned `Granted`; `claimed_username` is not stored yet. -/
  | granted (username : Bytes)
  /-- `close_connection` has begun. -/
  | closing
  /-- `close_connection` has called `release`. -/
  | released
  /-- The shard has no pointer to the connection any more. -/
  | dropped
  deriving DecidableEq

/-- A connection object, as far as its name goes. -/
structure Holder where
  helloReceived : Bool := false
  claimedUsername : Bytes := []
  task : NameTask := .free
  deriving DecidableEq

@[ext]
structure Names where
  sessions : SessionTable := {}
  holders : ConnId → Option Holder := fun _ => none
  nextId : ConnId := 1

inductive NameEvent where
  /-- A connection is accepted. -/
  | accept
  /-- `handle_client_hello` up to the call of `claim`. -/
  | hello (c : ConnId) (hello : ClientHello)
  /-- The rest of it: the name that was granted is stored. -/
  | store (c : ConnId)
  /-- `close_connection` begins. -/
  | close (c : ConnId)
  /-- `close_connection` releases the name. -/
  | release (c : ConnId)
  /-- `close_connection` ends. -/
  | drop (c : ConnId)
  /-- The last pointer to the connection is gone. -/
  | destroy (c : ConnId)
  /-- A call of `release` for a connection that does not hold the name. -/
  | stray (username : Bytes) (c : ConnId)
  /-- Anything that touches the table but not the names. -/
  | other (table : SessionTable)

/-- The connection was granted `u` and has not released it. -/
def Holder.Has (h : Holder) (u : Bytes) : Prop :=
  h.task = .granted u ∨ ((h.task = .free ∨ h.task = .closing) ∧ h.claimedUsername = u ∧ u ≠ [])

instance (h : Holder) (u : Bytes) : Decidable (h.Has u) := inferInstanceAs (Decidable (_ ∨ _))

/-- A name is noted only after a hello, and a hello claims only where none is noted. -/
structure Holder.Tame (h : Holder) : Prop where
  new : h.helloReceived = false → h.claimedUsername = []
  pending : ∀ u, h.task = .granted u → h.helloReceived = true ∧ h.claimedUsername = []

namespace Names

def alive (s : Names) (c : ConnId) : Bool := (s.holders c).isSome

def set (s : Names) (c : ConnId) (h : Option Holder) : Names :=
  { s with holders := Function.update s.holders c h }

def Holds (s : Names) (c : ConnId) (u : Bytes) : Prop := ∃ h, s.holders c = some h ∧ h.Has u

instance (s : Names) (c : ConnId) (u : Bytes) : Decidable (s.Holds c u) :=
  match hc : s.holders c with
  | none => isFalse (by rintro ⟨h, hh, -⟩; cases hc.symm.trans hh)
  | some h => decidable_of_iff (h.Has u)
      ⟨fun hu => ⟨h, hc, hu⟩, by rintro ⟨h', hh, hu⟩; cases hc.symm.trans hh; exact hu⟩

def greet (s : Names) (c : ConnId) (h : Holder) (hello : ClientHello) : Names :=
  if hello.role = .receiver then
    let r := s.sessions.claim s.alive hello.username c
    { s with sessions := r.2 }.set c (some { h with
      helloReceived := true
      task := if r.1 = ClaimResult.granted then .granted hello.username else .free })
  else s.set c (some { h with helloReceived := true })

/-- One step, if it can happen. A second hello refreshes or is refused, which leaves the name. -/
def next (s : Names) : NameEvent → Option Names
  | .accept => some { s.set s.nextId (some {}) with nextId := s.nextId + 1 }
  | .hello c hello => do
    let h ← s.holders c
    if h.task = .free then some (if h.helloReceived then s else s.greet c h hello) else none
  | .store c => do
    let h ← s.holders c
    match h.task with
    | .granted u => some (s.set c (some { h with claimedUsername := u, task := .free }))
    | _ => none
  | .close c => do
    let h ← s.holders c
    if h.task = .free then some (s.set c (some { h with task := .closing })) else none
  | .release c => do
    let h ← s.holders c
    if h.task = .closing then
      some ({ s with sessions := s.sessions.release s.alive h.claimedUsername c }.set c
        (some { h with task := .released }))
    else none
  | .drop c => do
    let h ← s.holders c
    if h.task = .released then some (s.set c (some { h with task := .dropped })) else none
  | .destroy c => do
    let h ← s.holders c
    if h.task = .dropped then some (s.set c none) else none
  | .stray u c =>
    if s.Holds c u then none else some { s with sessions := s.sessions.release s.alive u c }
  | .other table => some { s with sessions := { table with claims := s.sessions.claims } }

def Initial (s : Names) : Prop := s = {}

def Step (s : Names) (e : NameEvent) (s' : Names) : Prop := s.next e = some s'

section

variable {s s' : Names} {c d : ConnId} {h : Holder} {u : Bytes}

theorem holders_set_self (s : Names) (c : ConnId) (h : Option Holder) : (s.set c h).holders c = h :=
  Function.update_self ..

theorem holders_set_of_ne (hne : d ≠ c) (h : Option Holder) : (s.set c h).holders d = s.holders d :=
  Function.update_of_ne hne _ _

theorem holds_of (hc : s.holders c = some h) : s.Holds c u ↔ h.Has u :=
  ⟨fun ⟨_, hh, hu⟩ => by cases hc.symm.trans hh; exact hu, fun hu => ⟨h, hc, hu⟩⟩

theorem holds_set_self : (s.set c (some h)).Holds c u ↔ h.Has u := holds_of (holders_set_self ..)

theorem holds_set_of_ne (hne : d ≠ c) (h : Option Holder) : (s.set c h).Holds d u ↔ s.Holds d u := by
  unfold Holds
  rw [holders_set_of_ne hne]

theorem holds_set (hc : s.holders c = some h) {h' : Holder} (hh : ∀ u, h'.Has u ↔ h.Has u)
    (d : ConnId) (u : Bytes) : (s.set c (some h')).Holds d u ↔ s.Holds d u := by
  by_cases hd : d = c
  · subst hd
    rw [holds_set_self, hh, holds_of hc]
  · exact holds_set_of_ne hd _

theorem Holds.alive (hu : s.Holds c u) : s.alive c = true := by
  obtain ⟨h, hc, -⟩ := hu
  rw [Names.alive, hc]
  rfl

end

/-! ## Calls of the table -/

section

variable {t : SessionTable} {alive : ConnId → Bool} {u v : Bytes} {c d : ConnId}

/-- A claim is granted exactly if the name is valid and nobody who is there has it. -/
theorem claim_granted_iff :
    (t.claim alive u c).1 = .granted ↔
      isValidUsername u = true ∧ ∀ d, t.claims u = some d → alive d = false := by
  unfold SessionTable.claim
  cases hvalid : isValidUsername u with
  | false => simp
  | true =>
    cases hclaim : t.claims u with
    | none => simp
    | some d => cases halive : alive d <;> simp [halive]

theorem claim_table (h : (t.claim alive u c).1 = .granted) :
    (t.claim alive u c).2 = { t with claims := Function.update t.claims u (some c) } := by
  obtain ⟨hvalid, hdead⟩ := claim_granted_iff.mp h
  unfold SessionTable.claim
  rw [hvalid]
  cases hclaim : t.claims u with
  | none => simp
  | some d => simp [hdead d hclaim]

theorem claim_of_holder (hvalid : isValidUsername u = true) (hclaim : t.claims u = some d)
    (halive : alive d = true) : (t.claim alive u c).1 = .alreadyClaimed := by
  simp [SessionTable.claim, hvalid, hclaim, halive]

/-- A release takes the name from its holder only if that is the caller or is gone. -/
theorem release_claims_of_ne (hclaim : t.claims u = some d) (halive : alive d = true) (hne : d ≠ c) :
    (t.release alive u c).claims = t.claims := by
  unfold SessionTable.release
  split
  · rfl
  · simp [hclaim, halive, hne]

theorem release_claims_of_none (hclaim : t.claims u = none) :
    (t.release alive u c).claims = t.claims := by
  unfold SessionTable.release
  split
  · rfl
  · simp [hclaim]

theorem release_claims_other (hv : v ≠ u) : (t.release alive u c).claims v = t.claims v := by
  unfold SessionTable.release
  split
  · rfl
  · split
    · split
      · exact Function.update_of_ne hv _ _
      · rfl
    · rfl

theorem release_claims_le (h : (t.release alive v c).claims u = some d) : t.claims u = some d := by
  unfold SessionTable.release at h
  split at h
  · exact h
  · split at h
    · split at h
      · by_cases hu : u = v
        · subst hu
          cases (Function.update_self u none t.claims).symm.trans h
        · exact (Function.update_of_ne hu _ _).symm.trans h
      · exact h
    · exact h

theorem release_claims_self (hu : u ≠ []) (hclaim : t.claims u = some c) :
    (t.release alive u c).claims = Function.update t.claims u none := by
  simp [SessionTable.release, hu, hclaim]

end

/-! ## All that a step can do -/

/-- The name is granted, and not stored yet. -/
def granted (s : Names) (c : ConnId) (h : Holder) (u : Bytes) : Names :=
  { s with sessions := { s.sessions with claims := Function.update s.sessions.claims u (some c) } }.set c
    (some { h with helloReceived := true, task := .granted u })

inductive Does (s : Names) : NameEvent → Names → Prop
  | accepted : Does s .accept { s.set s.nextId (some {}) with nextId := s.nextId + 1 }
  | again {c hello h} (found : s.holders c = some h)
      (said : h.helloReceived = true) : Does s (.hello c hello) s
  | unnamed {c hello h} (found : s.holders c = some h)
      (free : h.task = .free) (new : h.helloReceived = false)
      (ungranted : hello.role = .receiver →
        (s.sessions.claim s.alive hello.username c).1 ≠ .granted) :
      Does s (.hello c hello) (s.set c (some { h with helloReceived := true }))
  | granted {c hello h} (found : s.holders c = some h)
      (free : h.task = .free) (new : h.helloReceived = false)
      (claim : (s.sessions.claim s.alive hello.username c).1 = .granted) :
      Does s (.hello c hello) (s.granted c h hello.username)
  | stored {c h u} (found : s.holders c = some h)
      (task : h.task = .granted u) :
      Does s (.store c) (s.set c (some { h with claimedUsername := u, task := .free }))
  | closed {c h} (found : s.holders c = some h) (free : h.task = .free) :
      Does s (.close c) (s.set c (some { h with task := .closing }))
  | released {c h} (found : s.holders c = some h) (closing : h.task = .closing) :
      Does s (.release c) ({ s with sessions := s.sessions.release s.alive h.claimedUsername c }.set c
        (some { h with task := .released }))
  | dropped {c h} (found : s.holders c = some h) (task : h.task = .released) :
      Does s (.drop c) (s.set c (some { h with task := .dropped }))
  | destroyed {c h} (found : s.holders c = some h) (task : h.task = .dropped) :
      Does s (.destroy c) (s.set c none)
  | strayed {c u} (stray : ¬ s.Holds c u) :
      Does s (.stray u c) { s with sessions := s.sessions.release s.alive u c }
  | other {table} :
      Does s (.other table) { s with sessions := { table with claims := s.sessions.claims } }

theorem greet_does {s : Names} {c : ConnId} {h : Holder} (hello : ClientHello)
    (hfound : s.holders c = some h) (hfree : h.task = .free) (hnew : h.helloReceived = false) :
    Does s (.hello c hello) (s.greet c h hello) := by
  have hsame : ({ h with helloReceived := true, task := .free } : Holder) =
      { h with helloReceived := true } := by rw [← hfree]
  unfold greet
  by_cases hrole : hello.role = .receiver
  · rw [if_pos hrole]
    dsimp only
    by_cases hclaim : (s.sessions.claim s.alive hello.username c).1 = .granted
    · rw [if_pos hclaim, claim_table hclaim]
      exact .granted hfound hfree hnew hclaim
    · rw [if_neg hclaim, SessionTable.claim_refused hclaim, hsame]
      exact .unnamed hfound hfree hnew fun _ => hclaim
  · rw [if_neg hrole]
    exact .unnamed hfound hfree hnew fun h => absurd h hrole

theorem next_hello {s : Names} {c : ConnId} {h : Holder} (hello : ClientHello)
    (hfound : s.holders c = some h) (hfree : h.task = .free) (hnew : h.helloReceived = false) :
    s.next (.hello c hello) = some (s.greet c h hello) := by
  rw [next, hfound, Option.bind_eq_bind, Option.bind_some, if_pos hfree, hnew]
  rfl

theorem next_does {s s' : Names} {e : NameEvent} (h : s.next e = some s') : Does s e s' := by
  cases e with
  | accept =>
    cases h
    exact .accepted
  | stray u c =>
    simp only [next, Option.ite_none_left_eq_some, Option.some.injEq] at h
    obtain ⟨hstray, rfl⟩ := h
    exact .strayed hstray
  | other table =>
    cases h
    exact .other
  | hello c hello =>
    obtain ⟨x, hx, hs⟩ := Option.bind_eq_some_iff.mp h
    simp only [Option.ite_none_right_eq_some, Option.some.injEq] at hs
    obtain ⟨hfree, rfl⟩ := hs
    cases hnew : x.helloReceived with
    | false => exact greet_does hello hx hfree hnew
    | true => exact .again hx hnew
  | store c =>
    obtain ⟨x, hx, hs⟩ := Option.bind_eq_some_iff.mp h
    split at hs
    · rename_i u htask
      cases hs
      exact .stored hx htask
    · cases hs
  | close c | release c | drop c | destroy c =>
    obtain ⟨x, hx, hs⟩ := Option.bind_eq_some_iff.mp h
    simp only [Option.ite_none_right_eq_some, Option.some.injEq] at hs
    obtain ⟨htask, rfl⟩ := hs
    constructor <;> assumption

/-! ## The invariant -/

def Tame (s : Names) : Prop := ∀ c h, s.holders c = some h → c < s.nextId ∧ h.Tame

/-- The table says who holds a name. -/
structure Inv (s : Names) : Prop where
  tame : s.Tame
  claims : ∀ c u, s.sessions.claims u = some c ↔ s.Holds c u
  valid : ∀ c u, s.Holds c u → isValidUsername u = true

section

variable {s s' : Names} {c d : ConnId} {h : Holder} {u : Bytes} {e : NameEvent}

theorem Tame.set (hs : s.Tame) (hc : c < s.nextId) {o : Option Holder} (ho : ∀ h, o = some h → h.Tame) :
    (s.set c o).Tame := by
  intro d k hk
  by_cases hd : d = c
  · subst hd
    rw [holders_set_self] at hk
    exact ⟨hc, ho k hk⟩
  · rw [holders_set_of_ne hd] at hk
    exact hs d k hk

theorem Does.tame (h : Does s e s') (hs : s.Tame) : s'.Tame := by
  cases h with
  | accepted =>
    have hlater : ({ s with nextId := s.nextId + 1 } : Names).Tame := fun c h hc =>
      ⟨Nat.lt_succ_of_lt (hs c h hc).1, (hs c h hc).2⟩
    refine hlater.set (Nat.lt_succ_self _) fun h hh => ?_
    cases hh
    exact ⟨fun _ => rfl, nofun⟩
  | again _ _ => exact hs
  | unnamed found free new _ =>
    obtain ⟨hc, hh⟩ := hs _ _ found
    refine hs.set hc fun h hh' => ?_
    cases hh'
    exact ⟨nofun, fun u hu => nomatch free.symm.trans hu⟩
  | granted found _ new _ =>
    obtain ⟨hc, hh⟩ := hs _ _ found
    refine Tame.set (by exact hs) hc fun h hh' => ?_
    cases hh'
    exact ⟨nofun, fun _ _ => ⟨rfl, hh.new new⟩⟩
  | stored found task =>
    obtain ⟨hc, hh⟩ := hs _ _ found
    refine hs.set hc fun h hh' => ?_
    cases hh'
    exact ⟨fun hnew => Bool.noConfusion (hnew.symm.trans (hh.pending _ task).1), nofun⟩
  | closed found _ | released found _ | dropped found _ =>
    obtain ⟨hc, hh⟩ := hs _ _ found
    refine Tame.set (by exact hs) hc fun h hh' => ?_
    cases hh'
    exact ⟨hh.new, nofun⟩
  | destroyed found _ => exact hs.set (hs _ _ found).1 nofun
  | strayed _ => exact hs
  | other => exact hs

/-- A step that changes neither the table of names nor who holds one. -/
theorem Inv.neutral (hs : s.Inv) (htame : s'.Tame) (hclaims : s'.sessions.claims = s.sessions.claims)
    (hholds : ∀ d u, s'.Holds d u ↔ s.Holds d u) : s'.Inv where
  tame := htame
  claims d u := by rw [hclaims, hholds, hs.claims]
  valid d u hu := hs.valid d u ((hholds d u).mp hu)

/-- The connection that is granted a name holds that one; nobody else held it. -/
theorem Inv.granted (hs : s.Inv) (found : s.holders c = some h) (free : h.task = .free)
    (new : h.helloReceived = false) (claim : (s.sessions.claim s.alive u c).1 = .granted)
    (htame : (s.granted c h u).Tame) : (s.granted c h u).Inv := by
  obtain ⟨hvalid, hdead⟩ := claim_granted_iff.mp claim
  have hnone : ∀ v, ¬ s.Holds c v := by
    intro v hv
    obtain hv | ⟨-, hv, hne⟩ := (holds_of found).mp hv
    · cases free.symm.trans hv
    · exact hne (hv.symm.trans ((hs.tame c h found).2.new new))
  have hholds : ∀ d v, (s.granted c h u).Holds d v ↔ (d = c ∧ v = u) ∨ s.Holds d v := by
    intro d v
    by_cases hd : d = c
    · subst hd
      rw [Names.granted, holds_set_self]
      simp [Holder.Has, hnone, eq_comm]
    · refine (holds_set_of_ne hd _).trans ?_
      simp [hd]
      rfl
  refine ⟨htame, fun d v => ?_, fun d v hv => ?_⟩
  · rw [hholds]
    change Function.update s.sessions.claims u (some c) v = some d ↔ _
    by_cases hv : v = u
    · subst hv
      rw [Function.update_self]
      constructor
      · rintro ⟨⟩
        exact .inl ⟨rfl, rfl⟩
      · rintro (⟨rfl, -⟩ | hd)
        · rfl
        · exact absurd (hdead d ((hs.claims d v).mpr hd)) (by rw [hd.alive]; decide)
    · rw [Function.update_of_ne hv, hs.claims]
      simp [hv]
  · obtain ⟨-, rfl⟩ | hd := (hholds d v).mp hv
    · exact hvalid
    · exact hs.valid d v hd

/-- The connection that releases its name holds none. -/
theorem Inv.released (hs : s.Inv) (found : s.holders c = some h) (closing : h.task = .closing) :
    ({ s with sessions := s.sessions.release s.alive h.claimedUsername c }.set c
      (some { h with task := .released })).Inv := by
  have hholds : ∀ d v, ({ s with sessions := s.sessions.release s.alive h.claimedUsername c }.set c
      (some { h with task := .released })).Holds d v ↔ d ≠ c ∧ s.Holds d v := by
    intro d v
    by_cases hd : d = c
    · subst hd
      rw [holds_set_self]
      simp [Holder.Has]
    · refine (holds_set_of_ne hd _).trans ?_
      simp [hd]
      rfl
  have hc : ∀ v, s.Holds c v ↔ h.claimedUsername = v ∧ v ≠ [] := by
    intro v
    rw [holds_of found]
    simp [Holder.Has, closing]
  refine ⟨(Does.released found closing).tame hs.tame, fun d v => ?_, fun d v hv => ?_⟩
  · rw [hholds]
    change (s.sessions.release s.alive h.claimedUsername c).claims v = some d ↔ _
    by_cases hu : h.claimedUsername = []
    · rw [SessionTable.release, if_pos hu, hs.claims]
      refine ⟨fun hd => ⟨?_, hd⟩, fun hd => hd.2⟩
      rintro rfl
      obtain ⟨hv, hne⟩ := (hc v).mp hd
      exact hne (hv.symm.trans hu)
    · have hself : s.Holds c h.claimedUsername := (hc _).mpr ⟨rfl, hu⟩
      rw [release_claims_self hu ((hs.claims _ _).mpr hself)]
      by_cases hv : v = h.claimedUsername
      · subst hv
        rw [Function.update_self]
        refine iff_of_false nofun ?_
        rintro ⟨hne, hd⟩
        cases ((hs.claims _ _).mpr hself).symm.trans ((hs.claims _ _).mpr hd)
        exact hne rfl
      · rw [Function.update_of_ne hv, hs.claims]
        refine ⟨fun hd => ⟨?_, hd⟩, fun hd => hd.2⟩
        rintro rfl
        exact hv ((hc v).mp hd).1.symm
  · exact hs.valid d v ((hholds d v).mp hv).2

theorem Inv.step (hs : s.Inv) (h : Does s e s') : s'.Inv := by
  have htame := h.tame hs.tame
  cases h with
  | accepted =>
    refine hs.neutral htame rfl fun d u => ?_
    by_cases hd : d = s.nextId
    · subst hd
      refine iff_of_false (fun hu => ?_) fun hu => ?_
      · obtain ⟨h, hh, hu⟩ := hu
        cases (holders_set_self s s.nextId (some {})).symm.trans hh
        simp [Holder.Has] at hu
      · obtain ⟨h, hh, -⟩ := hu
        exact absurd (hs.tame _ _ hh).1 (Nat.lt_irrefl _)
    · exact holds_set_of_ne hd _
  | again _ _ => exact hs
  | unnamed found _ _ _ => exact hs.neutral htame rfl (holds_set found fun u => Iff.rfl)
  | granted found free new claim => exact hs.granted found free new claim htame
  | @stored c h v found task =>
    have hvalid := hs.valid c v ((holds_of found).mpr (.inl task))
    refine hs.neutral htame rfl (holds_set found fun u => ?_)
    simp only [Holder.Has, task, reduceCtorEq, false_or, false_and, or_false, true_and,
      NameTask.granted.injEq, and_iff_left_iff_imp]
    rintro rfl rfl
    cases hvalid
  | closed found free =>
    refine hs.neutral htame rfl (holds_set found fun u => ?_)
    simp [Holder.Has, free]
  | released found closing => exact hs.released found closing
  | dropped found task =>
    refine hs.neutral htame rfl (holds_set found fun u => ?_)
    simp [Holder.Has, task]
  | @destroyed c h found task =>
    refine hs.neutral htame rfl fun d u => ?_
    by_cases hd : d = c
    · subst hd
      rw [holds_of found]
      refine iff_of_false ?_ (by simp [Holder.Has, task])
      rintro ⟨k, hk, -⟩
      cases (holders_set_self s d none).symm.trans hk
    · exact holds_set_of_ne hd _
  | @strayed c u stray =>
    refine hs.neutral htame ?_ fun _ _ => Iff.rfl
    cases hclaim : s.sessions.claims u with
    | none => exact release_claims_of_none hclaim
    | some d =>
      have hd := (hs.claims d u).mp hclaim
      refine release_claims_of_ne hclaim hd.alive ?_
      rintro rfl
      exact stray hd
  | other => exact hs.neutral htame rfl fun _ _ => Iff.rfl

theorem Inv.of_reach (h : Reach Initial Step s) : s.Inv := by
  refine h.invariant (fun s hs => ?_) fun _ _ _ hs h => hs.step (next_does h)
  cases hs
  refine ⟨nofun, fun c u => iff_of_false nofun ?_, ?_⟩
  · rintro ⟨h, hh, -⟩
    cases hh
  · rintro c u ⟨h, hh, -⟩
    cases hh

/-! ## Exclusivity -/

/-- Nothing but the release in its own `close_connection` takes a name from its holder. -/
theorem Holds.step (hu : s.Holds c u) (hs : s.Inv) (h : Does s e s') (hne : e ≠ .release c) :
    s'.Holds c u := by
  have hs' := hs.step h
  have hclaim := (hs.claims c u).mpr hu
  refine (hs'.claims c u).mp ?_
  cases h with
  | @granted d hello k found free new claim =>
    -- the name that is granted is another one
    obtain ⟨-, hdead⟩ := claim_granted_iff.mp claim
    have huv : u ≠ hello.username := by
      rintro rfl
      exact absurd (hdead c hclaim) (by rw [hu.alive]; decide)
    exact (Function.update_of_ne huv _ _).trans hclaim
  | @released d k found closing =>
    have hdc : c ≠ d := by
      rintro rfl
      exact hne rfl
    change (s.sessions.release s.alive k.claimedUsername d).claims u = some c
    by_cases hk : k.claimedUsername = u
    · rw [hk, release_claims_of_ne hclaim hu.alive hdc]
      exact hclaim
    · rw [release_claims_other (Ne.symm hk)]
      exact hclaim
  | @strayed d v stray =>
    change (s.sessions.release s.alive v d).claims u = some c
    by_cases hv : v = u
    · subst hv
      rw [release_claims_of_ne hclaim hu.alive]
      · exact hclaim
      · rintro rfl
        exact stray hu
    · rw [release_claims_other (Ne.symm hv)]
      exact hclaim
  | _ => exact hclaim

/-- The name that was released is free. -/
theorem Holds.released (hu : s.Holds c u) (hs : s.Inv) (h : s.Step (.release c) s') (d : ConnId) :
    (s'.sessions.claim s'.alive u d).1 = .granted := by
  have hdoes := next_does h
  have hs' := hs.step hdoes
  refine claim_granted_iff.mpr ⟨hs.valid c u hu, fun e he => ?_⟩
  have hclaim := (hs.claims c u).mpr hu
  cases hdoes with
  | @released _ k found closing =>
    obtain hg | ⟨-, hk, hne⟩ := (holds_of found).mp hu
    · cases closing.symm.trans hg
    · change (s.sessions.release s.alive k.claimedUsername c).claims u = some e at he
      rw [hk, release_claims_self hne hclaim, Function.update_self] at he
      cases he

/-- **A username has one holder.** Under any interleaving: at most one connection holds a name; from
the call of `claim` that grants it on, the holder is who `lookup` finds and every other claim is
refused, until the release in the holder's own `close_connection`; then everybody can claim it. -/
theorem username_exclusive (h : Reach Initial Step s) :
    (∀ c d u, s.Holds c u → s.Holds d u → c = d) ∧
    (∀ c hello s', (∃ k, s.holders c = some k ∧ k.helloReceived = false) → hello.role = .receiver →
      s.Step (.hello c hello) s' → (s.sessions.claim s.alive hello.username c).1 = .granted →
      s'.Holds c hello.username) ∧
    (∀ c u, s.Holds c u → s.sessions.lookup s.alive u = some c ∧
      (∀ d, (s.sessions.claim s.alive u d).1 = .alreadyClaimed) ∧
      (∀ e s', s.Step e s' → e ≠ .release c → s'.Holds c u) ∧
      ∀ s', s.Step (.release c) s' → ∀ d, (s'.sessions.claim s'.alive u d).1 = .granted) := by
  have hs := Inv.of_reach h
  refine ⟨fun c d u hc hd => ?_, fun c hello s' hfound hrole hstep hclaim => ?_, fun c u hu => ?_⟩
  · exact Option.some.inj (((hs.claims c u).mpr hc).symm.trans ((hs.claims d u).mpr hd))
  · obtain ⟨k, hk, hnew⟩ := hfound
    cases next_does hstep with
    | again found said =>
      cases hk.symm.trans found
      cases hnew.symm.trans said
    | unnamed found free new ungranted => exact absurd hclaim (ungranted hrole)
    | granted found free new _ => exact holds_set_self.mpr (.inl rfl)
  · have hclaim := (hs.claims c u).mpr hu
    refine ⟨?_, fun d => claim_of_holder (hs.valid c u hu) hclaim hu.alive,
      fun e s' hstep hne => hu.step hs (next_does hstep) hne, fun s' hstep d => hu.released hs hstep d⟩
    rw [SessionTable.lookup, hclaim]
    simp [hu.alive]

/-- Connection 1 accepts as `r`. -/
def accepting : List NameEvent := [.accept, .hello 1 (plainHello .receiver (text "r")), .store 1]

theorem accepting_holds : ∃ s ∈ runFrom next {} accepting, s.Holds 1 (text "r") := by
  decide +kernel

theorem username_exclusive_accepting : ∃ s, Reach Initial Step s ∧ s.Holds 1 (text "r") ∧
    s.sessions.lookup s.alive (text "r") = some 1 := by
  obtain ⟨s, hs, hu⟩ := accepting_holds
  have hreach : Reach Initial Step s := Reach.of_runFrom (.init rfl) hs
  exact ⟨s, hreach, hu, ((username_exclusive hreach).2.2 1 _ hu).1⟩

end

end Names

/-! ## Atomic handlers -/

def Party.holder (p : Party) : Holder :=
  { helloReceived := p.helloReceived, claimedUsername := p.claimedUsername }

/-- The names of a server between two handlers. -/
def Server.names (s : Server) : Names where
  sessions := s.sessions
  holders c := (s.party c).map Party.holder
  nextId := s.nextConnectionId

section

variable {s s' : Server} {c : ConnId} {f : Frame} {x : Connection}

theorem Server.names_alive (s : Server) : s.names.alive = s.alive := by
  funext c
  simp [Names.alive, Server.names, Server.alive, Server.party]

def Names.Path (n n' : Names) : Prop := ∃ es, runFrom Names.next n es = some n'

theorem Names.Path.refl (n : Names) : n.Path n := ⟨[], rfl⟩

theorem Names.Path.trans {a b c : Names} (h : a.Path b) (h' : b.Path c) : a.Path c := by
  obtain ⟨es, hes⟩ := h
  obtain ⟨es', hes'⟩ := h'
  exact ⟨es ++ es', by rw [runFrom_append, hes]; exact hes'⟩

theorem Names.Path.step {a b c : Names} {e : NameEvent} (h : a.Path b) (hs : b.next e = some c) :
    a.Path c :=
  h.trans ⟨[e], by rw [runFrom, hs]; rfl⟩

theorem Server.names_path (h : Keeps Party.holder SessionTable.claims s s')
    (hid : s'.nextConnectionId = s.nextConnectionId) : s.names.Path s'.names := by
  refine (Names.Path.refl s.names).step (e := .other s'.sessions) (congrArg some ?_)
  refine Names.ext ?_ (funext fun c => (h.1 c).symm) hid.symm
  change { s'.sessions with claims := s.sessions.claims } = s'.sessions
  rw [← h.2]

theorem Quiet.names (h : Quiet s s') : s'.names = s.names :=
  Names.ext h.sessions (funext fun c => congrArg (Option.map Party.holder) (h.parties c)) h.nextId

theorem Server.names_update_self (hfound : s.connections c = some x)
    (g : Connection → Connection) : (s.update c g).names.holders c = some (g x).party.holder := by
  change ((s.update c g).party c).map Party.holder = _
  rw [Server.party_update_self, hfound]
  rfl

theorem Server.names_update_of_ne {y : ConnId} (hy : y ≠ c) (g : Connection → Connection) :
    (s.update c g).names.holders y = s.names.holders y :=
  congrArg (Option.map Party.holder) (Server.party_update_of_ne hy g)

theorem Server.names_greeted (hfound : s.connections c = some x)
    (hfresh : x.helloReceived = false) {g : Connection → Connection}
    (hg : (g x).party.holder = { x.party.holder with helloReceived := true }) :
    s.names.Path (s.update c g).names := by
  refine (Names.Path.refl s.names).step (e := .hello c (plainHello .sender [])) ?_
  have hholder : s.names.holders c = some x.party.holder :=
    congrArg (Option.map Party.holder) (Server.party_of hfound)
  rw [Names.next_hello _ hholder rfl hfresh]
  refine congrArg some (Names.ext rfl (funext fun y => ?_) rfl)
  by_cases hy : y = c
  · subst hy
    rw [Server.names_update_self hfound, hg]
    exact Names.holders_set_self ..
  · rw [Server.names_update_of_ne hy]
    exact Names.holders_set_of_ne hy _

theorem Server.names_granted {hello : ClientHello} {table : SessionTable}
    (hfound : s.connections c = some x) (hfresh : x.helloReceived = false)
    (hclaim : s.sessions.claim s.alive hello.username c = (.granted, table)) :
    s.names.Path ({ s with sessions := table }.update c fun x => { x with
      hello := hello
      helloReceived := true
      claimedUsername := hello.username
      state := .receiverIdle }).names := by
  have hholder : s.names.holders c = some x.party.holder :=
    congrArg (Option.map Party.holder) (Server.party_of hfound)
  refine ((Names.Path.refl s.names).step
    (Names.next_hello { hello with role := .receiver } hholder rfl hfresh)).step (e := .store c) ?_
  have hgreet : s.names.greet c x.party.holder { hello with role := .receiver } =
      { s.names with sessions := table }.set c (some { x.party.holder with
        helloReceived := true
        task := .granted hello.username }) := by
    simp only [Names.greet, if_true, Server.names_alive]
    rw [show s.names.sessions = s.sessions from rfl, hclaim]
    rfl
  rw [hgreet, Names.next, Names.holders_set_self, Option.bind_eq_bind, Option.bind_some]
  refine congrArg some (Names.ext rfl (funext fun y => ?_) rfl)
  by_cases hy : y = c
  · subst hy
    rw [Server.names_update_self (s := { s with sessions := table }) hfound]
    exact Names.holders_set_self ..
  · rw [Server.names_update_of_ne hy]
    exact (Names.holders_set_of_ne hy _).trans (Names.holders_set_of_ne hy _)

theorem Keeps.prunedNames {α : Type} {π : Party → α} {s₀ : Server}
    (h : Keeps π SessionTable.claims s₀ s) (name : Bytes) :
    Keeps π SessionTable.claims s₀ (s.pruned name) :=
  h.sessions (SessionTable.pruneGroup_others _ _ name).2

theorem Keeps.regroupedNames (s : Server) (c : ConnId) (g : Bytes) (join : GroupJoin) :
    Keeps Party.holder SessionTable.claims s
      (((s.leftOther c g join.name).joined c join).pruned join.name) := by
  have hleft : Keeps Party.holder SessionTable.claims s (s.leftOther c g join.name) := by
    unfold Server.leftOther
    split
    · refine Keeps.update ?_ c fun _ => rfl
      exact (Keeps.refl s).sessions (SessionTable.leaveGroup_others _ _ _ c).2
    · exact .refl s
  refine Keeps.prunedNames (Keeps.update ?_ c fun x => ?_) join.name
  · exact hleft.sessions (SessionTable.joinGroup_others _ _ _ _ c).2
  · split <;> rfl

theorem Op.names (h : Op c f s s') : s.names.Path s'.names := by
  have hid := h.nextId
  cases h with
  | refused _ hfound hfresh => exact Server.names_greeted hfound hfresh rfl
  | granted _ hfound hfresh hclaim => exact Server.names_granted hfound hfresh hclaim
  | welcomed _ hfound hfresh => exact Server.names_greeted hfound hfresh rfl
  | paired _ _ _ _ _ =>
    refine Server.names_path ?_ hid
    refine Keeps.update ?_ _ fun _ => rfl
    refine Keeps.update ?_ c fun _ => rfl
    exact (Keeps.refl s).sessions rfl
  | orphaned _ _ _ _ _ => exact Server.names_path ((Keeps.refl s).update c fun _ => rfl) hid
  | withdrawn _ _ _ _ => exact Server.names_path ((Keeps.refl s).update c fun _ => rfl) hid
  | rejected _ _ _ _ _ =>
    refine Server.names_path (Keeps.update ?_ c fun _ => rfl) hid
    exact (Keeps.refl s).sessions rfl
  | @asked x pr table _ _ _ _ _ _ request =>
    have htable := (SessionTable.requestRelay_others s.sessions x.pairingId (pr.sender == c)).2
    rw [request] at htable
    exact Server.names_path ((Keeps.refl s).sessions htable) hid
  | @opened x pr table _ _ _ _ _ _ request =>
    have htable := (SessionTable.requestRelay_others s.sessions x.pairingId (pr.sender == c)).2
    rw [request] at htable
    refine Server.names_path (((Keeps.relaying ?_ _ _ fun _ _ => ⟨rfl, rfl⟩).enqueued _ _).enqueued _ _)
      hid
    exact (Keeps.refl s).sessions htable
  | forwarded _ _ _ _ => exact Server.names_path ((Keeps.refl s).enqueued _ _) hid
  | recovered _ _ _ _ _ _ _ _ =>
    exact Server.names_path (((Keeps.refl s).relaying _ _ fun _ _ => ⟨rfl, rfl⟩).enqueued _ _) hid
  | queried _ => exact Server.names_path (((Keeps.refl s).prunedNames _).prunedNames _) hid
  | unlisted _ => exact Server.names_path ((Keeps.refl s).prunedNames _) hid
  | listed _ _ => exact Server.names_path (((Keeps.refl s).prunedNames _).enqueued _ _) hid
  | grouped _ _ _ _ => exact Server.names_path (Keeps.regroupedNames s c _ _) hid

theorem Names.alive_set (n : Names) {k : Holder} (hfound : n.holders c = some k) (k' : Holder) :
    (n.set c (some k')).alive = n.alive := by
  funext d
  unfold Names.alive
  by_cases hd : d = c
  · subst hd
    rw [Names.holders_set_self, hfound]
    rfl
  · rw [Names.holders_set_of_ne hd]

/-- `close_connection` step by step, until nobody points to the connection any more. -/
theorem Names.close_path {n : Names} {k : Holder} (hfound : n.holders c = some k)
    (hfree : k.task = .free) {t : SessionTable}
    (ht : t.claims = (n.sessions.release n.alive k.claimedUsername c).claims) :
    n.Path ({ n with sessions := t }.set c none) := by
  have hnext : ∀ {m : Names} {k : Holder}, m.holders c = some k →
      (k.task = .closing → m.next (.release c) =
        some ({ m with sessions := m.sessions.release m.alive k.claimedUsername c }.set c
          (some { k with task := .released }))) ∧
      (k.task = .released → m.next (.drop c) = some (m.set c (some { k with task := .dropped }))) ∧
      (k.task = .dropped → m.next (.destroy c) = some (m.set c none)) := by
    intro m k hk
    simp only [Names.next, hk, Option.bind_eq_bind, Option.bind_some]
    exact ⟨fun h => if_pos h, fun h => if_pos h, fun h => if_pos h⟩
  have hclose : n.next (.close c) = some (n.set c (some { k with task := .closing })) := by
    rw [Names.next, hfound, Option.bind_eq_bind, Option.bind_some, if_pos hfree]
  have hself : ∀ (m : Names) k, (m.set c (some k)).holders c = some k :=
    fun m k => Names.holders_set_self m c (some k)
  have hrelease := (hnext (hself n { k with task := .closing })).1 rfl
  have hdrop := (hnext (m := { n.set c (some { k with task := .released }) with sessions := t })
    (hself n { k with task := .released })).2.1 rfl
  have hdestroy := (hnext (hself { n.set c (some { k with task := .released }) with sessions := t }
    { k with task := .dropped })).2.2 rfl
  refine ((((Names.Path.refl n).step hclose).step hrelease).step (e := .other t)
    (congrArg some ?_)).step hdrop |>.step (hdestroy.trans (congrArg some ?_))
  · refine Names.ext ?_ (Function.update_idem _ _ _) rfl
    change { t with claims := (n.sessions.release (n.set c _).alive k.claimedUsername c).claims } = t
    rw [Names.alive_set n hfound, ← ht]
  · refine Names.ext rfl ?_ rfl
    exact (Function.update_idem _ _ _).trans (Function.update_idem _ _ _)

/-- The end of a connection. -/
theorem Parted.names {freed : Option ConnId} (hfound : s.connections c = some x)
    (h : Parted c x freed s s') : s.names.Path s'.names := by
  have hholder : s.names.holders c = some x.party.holder :=
    congrArg (Option.map Party.holder) (Server.party_of hfound)
  have hclaims : s'.sessions.claims =
      (s.names.sessions.release s.names.alive x.party.holder.claimedUsername c).claims := by
    rw [Server.names_alive, h.sessions]
    have hleft := (SessionTable.leaveGroup_others s.alive
      (s.sessions.release s.alive x.claimedUsername c) x.joinedGroup c).2
    split
    · exact hleft
    · exact hleft
  refine (Names.close_path hholder rfl hclaims).trans ?_
  have hsame : { s.names with sessions := s'.sessions }.set c none = s'.names := by
    refine Names.ext rfl (funext fun y => ?_) h.nextId.symm
    by_cases hy : y = c
    · subst hy
      refine (Names.holders_set_self ..).trans ?_
      exact (congrArg (Option.map Party.holder) h.gone).symm
    · refine (Names.holders_set_of_ne hy _).trans ?_
      change (s.party y).map Party.holder = (s'.party y).map Party.holder
      rw [h.stay y hy, Option.map_map]
      refine congrArg (fun g => (s.party y).map g) (funext fun p => ?_)
      rw [Function.comp_apply]
      split <;> rfl
  rw [hsame]
  exact .refl _

/-- **The server with atomic handlers** does nothing to names that shards cannot do step by step. -/
theorem Server.Tidy.names (htidy : s.Tidy) {e : ServerEvent} (h : s.next e = some s') :
    s.names.Path s'.names := by
  cases Server.next_happens htidy h with
  | refused hquiet =>
    rw [hquiet.names]
    exact .refl _
  | admitted hadmitted =>
    refine (Names.Path.refl s.names).step (e := .accept) (congrArg some ?_)
    refine Names.ext hadmitted.sessions.symm (funext fun y => ?_) hadmitted.nextId.symm
    by_cases hy : y = s.nextConnectionId
    · subst hy
      refine (Names.holders_set_self ..).trans ?_
      exact (congrArg (Option.map Party.holder) hadmitted.new).symm
    · refine (Names.holders_set_of_ne hy _).trans ?_
      exact (congrArg (Option.map Party.holder) (hadmitted.others y hy)).symm
  | frame _ hdoes =>
    obtain ⟨a, b, ha, hab, hb⟩ := hdoes
    rw [← ha.names, hb.names]
    rcases hab with rfl | hop
    · exact .refl _
    · exact hop.names
  | closed hfound hparted => exact hparted.names hfound
  | expired => exact Server.names_path ((Keeps.refl s).sessions rfl) rfl

theorem Server.names_reach (h : Reach Server.Started Server.Step s) :
    Reach Names.Initial Names.Step s.names := by
  refine (h.invariant (I := fun t => t.Tidy ∧ Reach Names.Initial Names.Step t.names)
    (fun t ht => ⟨ht.tidy, ?_⟩) fun t e t' ht hstep => ?_).2
  · obtain ⟨options, rateLimiter, rfl⟩ := ht
    exact .init rfl
  · obtain ⟨htidy, hreach⟩ := ht
    obtain ⟨es, hes⟩ := htidy.names hstep.1
    exact ⟨htidy.step hstep.1, Reach.of_runFrom hreach hes⟩

end

/-- A client connects and claims a name. -/
theorem Server.names_reach_claimed : ∃ s : Server, s.names.sessions.claims (text "r") = some 1 ∧
    Reach Names.Initial Names.Step s.names := by
  let hello := Frame.of .clientHello (plainHello .receiver (text "r")).encode
  obtain ⟨s₁, hconnect, s, hframe, hclaims⟩ :
      ∃ s₁ ∈ Server.start.next (.connect { nowMs := 0 } (.inet 4000 privateAddress)),
        ∃ s ∈ s₁.next (.frame { nowMs := 0 } 1 hello), s.sessions.claims (text "r") = some 1 := by
    decide +kernel
  have hr : Reach Server.Started Server.Step s₁ := .step (.init Server.start_started) ⟨hconnect, trivial⟩
  exact ⟨s, hclaims, Server.names_reach (hr.step ⟨hframe, fun htype => absurd htype (by decide)⟩)⟩

end DropZone
