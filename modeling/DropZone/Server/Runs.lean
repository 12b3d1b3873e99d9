import DropZone.Server.Changes

/-!
# Runs of the server

Handlers run one at a time. A client may send any frame at any time, any connection may end at any
time, and maintenance may come at any time.

* `Server.next`: one event; `Server.Step`: an event that the server gets through.
* `Parted c x freed s s'`: what the end of connection `c` leaves behind.
* `Happens`, `Server.next_happens`: all that an event can do.
-/

namespace DropZone

open LittleEndian StateSpec System

inductive ServerEvent where
  /-- A client connects. -/
  | connect (env : Env) (addr : SockAddr)
  /-- A frame of a connection is handled. -/
  | frame (env : Env) (c : ConnId) (frame : Frame)
  /-- A connection ends: the peer is gone, timed out or was asked to leave. -/
  | close (c : ConnId)
  /-- The shared-table part of maintenance. -/
  | expire (env : Env)

namespace Server

/-- One event, if it can happen. `next_frame` hands out no longer frames. -/
def next (s : Server) : ServerEvent → Option Server
  | .connect env addr => some (s.acceptConnection env addr)
  | .frame env c f =>
    if s.alive c = true ∧ f.payload.length ≤ kMaxFrameLength then some (s.processFrame env c f)
    else none
  | .close c => if s.alive c = true then some (final (closeConnection c) s) else none
  | .expire env => some (s.expire env)

/-- The loop of `create_pairing` ends only if an id is left. -/
def Returns (s : Server) : ServerEvent → Prop
  | .frame _ _ f => f.header.type = .sendRequest → ∃ id, id ≠ 0 ∧ s.sessions.pairings id = none
  | _ => True

def Step (s : Server) (e : ServerEvent) (s' : Server) : Prop := s.next e = some s' ∧ s.Returns e

def Started (s : Server) : Prop := ∃ options rateLimiter, s = { options, rateLimiter }

/-- A server without options. -/
def start : Server := { rateLimiter := { saltedHash := fun _ => 0 } }

theorem start_started : start.Started := ⟨{}, _, rfl⟩

/-! ## The end of a connection -/

/-- The table without the name and the group of `c`. -/
def departed (s : Server) (c : ConnId) (x : Connection) : SessionTable :=
  (s.sessions.release s.alive x.claimedUsername c).leaveGroup s.alive x.joinedGroup c

theorem departed_pairingPart (s : Server) (c : ConnId) (x : Connection) :
    (s.departed c x).pairingPart = s.sessions.pairingPart :=
  (SessionTable.leaveGroup_others _ _ _ c).1.trans (SessionTable.release_others _ _ _ c).1

def removed (s : Server) (c : ConnId) : Server :=
  { s with connections := Function.update s.connections c none }

theorem party_removed_self (s : Server) (c : ConnId) : (s.removed c).party c = none := by
  simp [party, removed]

theorem party_removed_of_ne {s : Server} {c y : ConnId} (h : y ≠ c) :
    (s.removed c).party y = s.party y := by
  simp [party, removed, h]

theorem leaving_removed {s : Server} {c y : ConnId} (h : y ≠ c) :
    (s.removed c).Leaving y ↔ s.Leaving y := by
  simp [Leaving, removed, h]

end Server

/-- A matched receiver is idle again. -/
def Party.freed (p : Party) : Party := { p with state := .receiverIdle, pairingId := 0 }

/-- The other end of a pairing, as `close_connection` sees it. -/
def Pairing.other (pr : Pairing) (c : ConnId) : ConnId :=
  if pr.sender = c then pr.receiver else pr.sender

/-- What is left when `c`, whose record was `x`, has ended. -/
structure Parted (c : ConnId) (x : Connection) (freed : Option ConnId) (s s' : Server) : Prop where
  gone : s'.party c = none
  stay : ∀ y, y ≠ c →
    s'.party y = (s.party y).map fun p => if freed = some y then p.freed else p
  sessions : s'.sessions = if x.pairingId = 0 then s.departed c x
    else (s.departed c x).destroyPairing x.pairingId
  options : s'.options = s.options
  nextId : s'.nextConnectionId = s.nextConnectionId
  leaving : ∀ y, y ≠ c → s.Leaving y → s'.Leaving y
  log : ∃ new, s'.log = s.log ++ new ∧ ∀ e ∈ new, e.2.header.type.Plain
  /-- Whoever is free again was matched by the pairing. -/
  matched : ∀ r, freed = some r → x.pairingId ≠ 0 ∧ ∃ pr, s.sessions.pairings x.pairingId = some pr ∧
    pr.receiver = r ∧ r ≠ c ∧ pr.relayActive = false ∧
    ∃ y, s.connections r = some y ∧ y.state = .receiverMatched
  /-- The other end is free again or asked to leave. -/
  told : ∀ pr, x.pairingId ≠ 0 → s.sessions.pairings x.pairingId = some pr → pr.other c ≠ c →
    s.alive (pr.other c) = true → freed = some (pr.other c) ∨ s'.Leaving (pr.other c)

section Close

variable {c : ConnId} {x : Connection} {s s' : Server}

theorem Parted.freed_state {freed : Option ConnId} (h : Parted c x freed s s') {y : ConnId} {p : Party}
    (hfreed : freed = some y) (hp : s.party y = some p) : p.state = .receiverMatched := by
  obtain ⟨-, pr, -, rfl, -, -, z, hz, hstate⟩ := h.matched y hfreed
  cases hp.symm.trans (Server.party_of hz)
  exact hstate

theorem releasePeer_run (pr : Pairing) (hc : s.alive c = true) :
    ∃ s', (releasePeer c pr).run s = .ok () s' ∧
      ((Quiet s s' ∧ (pr.other c ≠ c → s.alive (pr.other c) = true → s'.Leaving (pr.other c))) ∨
      (pr.other c = pr.receiver ∧ pr.receiver ≠ c ∧ pr.relayActive = false ∧
        (∃ y, s.connections pr.receiver = some y ∧ y.state = .receiverMatched) ∧
        s' = s.update pr.receiver fun x => { x with state := .receiverIdle, pairingId := 0 })) := by
  rw [releasePeer, run_bind_ok (run_lock s pr.sender), run_bind_ok (run_lock s pr.receiver)]
  have hother : (if (if s.alive pr.sender = true then some pr.sender else none) = some c then
      (if s.alive pr.receiver = true then some pr.receiver else none)
      else if s.alive pr.sender = true then some pr.sender else none) =
      if s.alive (pr.other c) = true then some (pr.other c) else none := by
    unfold Pairing.other
    by_cases hsender : pr.sender = c
    · rw [if_pos hsender, hsender, if_pos hc, if_pos rfl]
    · rw [if_neg hsender, if_neg]
      split
      · simpa using hsender
      · exact nofun
  rw [hother]
  by_cases halive : s.alive (pr.other c) = true
  · rw [if_pos halive]
    dsimp only
    by_cases hself : pr.other c = c
    · rw [if_pos hself]
      exact ⟨s, rfl, .inl ⟨.refl s, fun h => absurd hself h⟩⟩
    · rw [if_neg hself, run_bind_ok (run_connection s (pr.other c))]
      by_cases hreset : (if s.alive pr.receiver = true then some pr.receiver else none) =
          some (pr.other c) ∧ ((s.connections (pr.other c)).getD default).state = .receiverMatched ∧
          (!pr.relayActive) = true
      · rw [if_pos hreset]
        have hreceiver : pr.other c = pr.receiver := by
          by_contra hne
          have hlock := hreset.1
          split at hlock
          · exact hne (Option.some.inj hlock).symm
          · cases hlock
        obtain ⟨y, hy⟩ := Option.isSome_iff_exists.mp halive
        have hmatched := hreset.2.1
        rw [hy, Option.getD_some] at hmatched
        have hactive := hreset.2.2
        rw [hreceiver] at hself hy ⊢
        exact ⟨_, rfl, .inr ⟨rfl, hself, by simpa using hactive, ⟨y, hy, hmatched⟩, rfl⟩⟩
      · rw [if_neg hreset]
        have hquiet := ((quiet_enqueueFrame (pr.other c) (show MessageType.Plain .relayClose by decide)
          (text "the other peer disconnected")).bind fun _ =>
            (quiet_requestClose (pr.other c) (text "the other peer disconnected")).bind fun _ =>
              quiet_wakeFor (pr.other c)) s
        refine ⟨_, rfl, .inl ⟨hquiet, fun _ _ => ?_⟩⟩
        refine Server.leaving_requestClose ?_ (text "the other peer disconnected")
        exact (congrFun (alive_update s (pr.other c) _) (pr.other c)).trans halive
  · rw [if_neg halive]
    exact ⟨s, rfl, .inl ⟨.refl s, fun _ h => absurd h halive⟩⟩

/-- The connection as `close_connection` marks it first, off the table of names and groups. -/
def Server.closing (s : Server) (c : ConnId) (x : Connection) : Server :=
  { s.update c fun y => { y with state := .closing } with sessions := s.departed c x }

theorem Server.closing_party_of_ne {y : ConnId} (h : y ≠ c) : (s.closing c x).party y = s.party y :=
  Server.party_update_of_ne h _

/-- The last steps of `close_connection`: the pairing is gone, then the connection. -/
theorem Parted.of_quiet {s₁ : Server} (hquiet : Quiet (s.closing c x) s₁)
    (hsessions : s'.sessions = if x.pairingId = 0 then s.departed c x
      else (s.departed c x).destroyPairing x.pairingId)
    (hsame : s' = { s₁ with sessions := s'.sessions })
    (htold : ∀ pr, x.pairingId ≠ 0 → s.sessions.pairings x.pairingId = some pr → pr.other c ≠ c →
      s.alive (pr.other c) = true → s₁.Leaving (pr.other c)) :
    Parted c x none s (s'.removed c) := by
  rw [hsame]
  have hstay : ∀ y, y ≠ c → s₁.party y = s.party y := fun y hy =>
    (hquiet.parties y).trans (Server.closing_party_of_ne hy)
  exact {
    gone := Server.party_removed_self _ c
    stay := fun y hy => by
      rw [Server.party_removed_of_ne hy]
      simp only [reduceCtorEq, if_false, Option.map_id']
      exact hstay y hy
    sessions := hsessions
    options := hquiet.options
    nextId := hquiet.nextId
    leaving := fun y hy hleaving => (Server.leaving_removed hy).mpr
      (hquiet.leaving y ((Server.Leaving.update_of_ne hy _).mpr hleaving))
    log := hquiet.log
    matched := nofun
    told := fun pr hzero hpr hne halive =>
      .inr ((Server.leaving_removed hne).mpr (htold pr hzero hpr hne halive)) }

/-- The same where the other end was a matched receiver, which is idle again. -/
theorem Parted.of_freed {pr : Pairing} (hzero : x.pairingId ≠ 0)
    (hpr : s.sessions.pairings x.pairingId = some pr) (hother : pr.other c = pr.receiver)
    (hne : pr.receiver ≠ c) (hactive : pr.relayActive = false)
    (hmatched : ∃ y, s.connections pr.receiver = some y ∧ y.state = .receiverMatched) :
    Parted c x (some pr.receiver) s (Server.removed { (s.closing c x).update pr.receiver
      (fun x => { x with state := .receiverIdle, pairingId := 0 }) with
        sessions := (s.departed c x).destroyPairing x.pairingId } c) where
  gone := Server.party_removed_self _ c
  stay y hy := by
    rw [Server.party_removed_of_ne hy]
    by_cases hyr : y = pr.receiver
    · subst hyr
      simp only [if_true]
      exact (Server.party_update_self (s.closing c x) pr.receiver _).trans (by
        rw [show (s.closing c x).connections pr.receiver = s.connections pr.receiver from
          Server.connections_update_of_ne hne _]
        cases h : s.connections pr.receiver with
        | none => simp [Server.party, h]
        | some z => simp [Server.party, h, Party.freed, Connection.party])
    · simp only [Option.some.injEq, Ne.symm hyr, if_false, Option.map_id']
      exact (Server.party_update_of_ne hyr _).trans (Server.closing_party_of_ne hy)
  sessions := by rw [if_neg hzero]; rfl
  options := rfl
  nextId := rfl
  leaving y hy hleaving := by
    refine (Server.leaving_removed hy).mpr ?_
    have hquiet := (Server.Leaving.update_of_ne hy fun y => { y with state := .closing }).mpr hleaving
    by_cases hyr : y = pr.receiver
    · subst hyr
      obtain ⟨z, hz, hclose⟩ := hquiet
      refine ⟨{ z with state := .receiverIdle, pairingId := 0 }, ?_, hclose⟩
      exact (Server.connections_update_self (s.closing c x) pr.receiver _).trans
        (congrArg (Option.map _) hz)
    · exact (Server.Leaving.update_of_ne hyr _).mpr hquiet
  log := ⟨[], (List.append_nil _).symm, by simp⟩
  matched r hr := by
    cases hr
    exact ⟨hzero, pr, hpr, rfl, hne, hactive, hmatched⟩
  told pr' _ hpr' _ _ := by
    cases hpr.symm.trans hpr'
    exact .inl (congrArg some hother.symm)

theorem closing_run (s : Server) (c : ConnId) (x : Connection) {α : Type} (m : ServerM α) :
    (do sessions fun alive t => ((), t.release alive x.claimedUsername c)
        sessions fun alive t => ((), t.leaveGroup alive x.joinedGroup c)
        m).run (s.update c fun y => { y with state := .closing }) = m.run (s.closing c x) := by
  have halive : (s.update c fun y => { y with state := .closing }).alive = s.alive :=
    alive_update s c _
  rw [run_bind_ok (run_sessions _ _), run_bind_ok (run_sessions _ _)]
  unfold Server.closing Server.departed
  rw [← halive]
  rfl

theorem releaseSessions_run (hfound : s.connections c = some x) :
    ∃ freed s₁, (releaseSessions c x).run (s.update c fun y => { y with state := .closing }) =
      .ok () s₁ ∧ Parted c x freed s (s₁.removed c) := by
  have halive : (s.closing c x).alive = s.alive := alive_update s c _
  have hc : (s.closing c x).alive c = true := by
    rw [halive, Server.alive, hfound]
    rfl
  have hpairings : (s.departed c x).pairings = s.sessions.pairings :=
    SessionTable.pairings_eq (s.departed_pairingPart c x)
  rw [releaseSessions, closing_run]
  by_cases hzero : x.pairingId = 0
  · rw [if_pos hzero]
    exact ⟨none, _, rfl, .of_quiet (.refl _) (by rw [if_pos hzero]; rfl) rfl
      fun _ h => absurd hzero h⟩
  · rw [if_neg hzero, run_bind_ok (run_sessions _ _)]
    dsimp only [SessionTable.findPairing]
    rw [show (s.closing c x).sessions.pairings = s.sessions.pairings from hpairings]
    cases hpr : s.sessions.pairings x.pairingId with
    | none =>
      refine ⟨none, s.closing c x, rfl, .of_quiet (.refl _) ?_ rfl fun pr _ h => ?_⟩
      · rw [if_neg hzero, SessionTable.destroyPairing_none (by rw [hpairings, hpr])]
        rfl
      · cases hpr.symm.trans h
    | some pr =>
      obtain ⟨s₁, hrun, hcases⟩ := releasePeer_run pr hc
      dsimp only
      rw [run_bind_ok (show (releasePeer c pr).run _ = _ from hrun), run_sessions s₁]
      obtain ⟨hquiet, htold⟩ | ⟨hother, hne, hactive, ⟨y, hy, hmatched⟩, rfl⟩ := hcases
      · refine ⟨none, _, rfl, .of_quiet hquiet ?_ rfl fun pr' _ hpr' hne halive' => ?_⟩
        · rw [if_neg hzero]
          exact congrArg (·.destroyPairing x.pairingId) hquiet.sessions
        · cases hpr.symm.trans hpr'
          exact htold hne (by rw [halive]; exact halive')
      · rw [show (s.closing c x).connections pr.receiver = s.connections pr.receiver from
          Server.connections_update_of_ne hne _] at hy
        exact ⟨some pr.receiver, _, rfl, .of_freed hzero hpr hother hne hactive ⟨y, hy, hmatched⟩⟩

/-- **The end of a connection.** -/
theorem closeConnection_parted (hfound : s.connections c = some x) (hopen : x.state ≠ .closing) :
    ∃ freed, Parted c x freed s (final (closeConnection c) s) := by
  obtain ⟨freed, s₁, hrun, hparted⟩ := releaseSessions_run hfound
  refine ⟨freed, ?_⟩
  rw [closeConnection, final_bind_ok (run_found hfound), if_neg hopen,
    final_bind_ok (run_update s c _), final_bind_ok hrun]
  exact hparted

end Close

/-! ## All that an event can do -/

/-- The party of a connection that was just accepted. -/
def Party.new : Party := (default : Connection).party

/-- `s` with one more connection. -/
structure Admitted (s s' : Server) : Prop where
  new : s'.party s.nextConnectionId = some Party.new
  others : ∀ y, y ≠ s.nextConnectionId → s'.party y = s.party y
  nextId : s'.nextConnectionId = s.nextConnectionId + 1
  sessions : s'.sessions = s.sessions
  options : s'.options = s.options
  leaving : ∀ y, y ≠ s.nextConnectionId → s.Leaving y → s'.Leaving y
  log : s'.log = s.log

def Server.Tidy (s : Server) : Prop :=
  s.Each fun c p => c < s.nextConnectionId ∧ p.state ≠ .closing

/-- All that an event can do. -/
inductive Happens (s : Server) : ServerEvent → Server → Prop
  | refused {env addr s'} (quiet : Quiet s s') :
      Happens s (.connect env addr) s'
  | admitted {env addr s'} (admitted : Admitted s s') :
      Happens s (.connect env addr) s'
  | frame {env c frame x s'}
      (found : s.connections c = some x) (does : Does c frame s s') :
      Happens s (.frame env c frame) s'
  | closed {c x freed s'}
      (found : s.connections c = some x) (parted : Parted c x freed s s') :
      Happens s (.close c) s'
  | expired {env} : Happens s (.expire env) (s.expire env)

section Steps

variable {s s' : Server} {e : ServerEvent} {Q : ConnId → Party → Prop}

theorem acceptConnection_happens (s : Server) (env : Env) (addr : SockAddr) :
    Happens s (.connect env addr) (s.acceptConnection env addr) := by
  unfold Server.acceptConnection
  dsimp only
  split
  · refine .admitted ⟨?_, fun y hy => ?_, rfl, rfl, rfl, fun y hy h => ?_, rfl⟩
    · simp [Server.party, Party.new, Connection.party, default]
    · simp [Server.party, hy]
    · obtain ⟨x, hx, hclose⟩ := h
      exact ⟨x, by simpa [hy] using hx, hclose⟩
  · exact .refused (.same rfl rfl rfl rfl rfl)

theorem Server.next_happens (htidy : s.Tidy) (h : s.next e = some s') : Happens s e s' := by
  cases e with
  | connect env addr =>
    cases h
    exact acceptConnection_happens s env addr
  | frame env c f =>
    dsimp only [Server.next] at h
    split at h
    · rename_i hguard
      cases h
      obtain ⟨x, hx⟩ := Option.isSome_iff_exists.mp hguard.1
      exact .frame hx (processFrame_does env hguard.2 hx)
    · cases h
  | close c =>
    dsimp only [Server.next] at h
    split at h
    · rename_i halive
      cases h
      obtain ⟨x, hx⟩ := Option.isSome_iff_exists.mp halive
      obtain ⟨freed, hparted⟩ := closeConnection_parted hx (htidy c _ (Server.party_of hx)).2
      exact .closed hx hparted
    · cases h
  | expire env =>
    cases h
    exact .expired

/-! ## Tidiness -/

theorem Server.Each.quiet (hs : s.Each Q) (h : Quiet s s') :
    s'.Each Q := by
  intro c p hp
  rw [h.parties c] at hp
  exact hs c p hp

theorem Server.Each.enqueued (hs : s.Each Q) (c : ConnId) (f : Frame) :
    (s.enqueued c f).Each Q :=
  Server.Each.update hs c fun x _ hx => by rwa [Connection.append_party]

theorem Server.Each.relaying (hs : s.Each Q) {a b : ConnId}
    (hQ : ∀ c p d, Q c p → Q c { p with relayPeer := some d } ∧ Q c { p with state := .relaying }) :
    (s.relaying a b).Each Q := by
  unfold Server.relaying
  refine (((hs.update a ?_).update b ?_).update a ?_).update b ?_
  · exact fun x _ hx => (hQ a _ b hx).1
  · exact fun x _ hx => (hQ b _ a hx).1
  · exact fun x _ hx => (hQ a _ a hx).2
  · exact fun x _ hx => (hQ b _ a hx).2

theorem Server.Each.paired (hs : s.Each Q) {c r : ConnId} {x y : Connection}
    (env : Env) (hfound : s.connections c = some x) (hpeer : s.connections r = some y) (hne : r ≠ c)
    (hc : Q c { x.party with pairingId := s.nextPairingId env c r, state := .senderWaiting })
    (hr : Q r { y.party with pairingId := s.nextPairingId env c r, state := .receiverMatched }) :
    (s.paired env c r).Each Q := by
  intro z p hp
  by_cases hzc : z = c
  · subst hzc
    cases (Server.party_paired_self env hfound hne).symm.trans hp
    exact hc
  · by_cases hzr : z = r
    · subst hzr
      cases (Server.party_paired_peer env hpeer hne).symm.trans hp
      exact hr
    · rw [Server.party_paired_other env hzc hzr] at hp
      exact hs z p hp

theorem Server.Each.regrouped (hs : s.Each Q) (c : ConnId) (g : Bytes)
    (join : GroupJoin) (hQ : ∀ c p j, Q c p → Q c { p with joinedGroup := j }) :
    (((s.leftOther c g join.name).joined c join).pruned join.name).Each Q := by
  have hleft : (s.leftOther c g join.name).Each Q := by
    unfold Server.leftOther
    split
    · exact Server.Each.update (by exact hs) c fun x _ h => hQ c x.party [] h
    · exact hs
  refine Server.Each.update (by exact hleft) c fun x _ h => ?_
  split
  · exact hQ c x.party join.name h
  · exact h

theorem Server.Each.parted (hs : s.Each Q) {c : ConnId} {x : Connection}
    {freed : Option ConnId} (h : Parted c x freed s s')
    (hfreed : ∀ y p, freed = some y → s.party y = some p → Q y p → Q y p.freed) : s'.Each Q := by
  intro y p hp
  by_cases hy : y = c
  · subst hy
    cases h.gone.symm.trans hp
  · rw [h.stay y hy] at hp
    obtain ⟨q, hq, rfl⟩ := Option.map_eq_some_iff.mp hp
    split
    · exact hfreed y q ‹_› hq (hs y q hq)
    · exact hs y q hq

theorem Server.Each.admitted (hs : s.Each Q) (h : Admitted s s')
    (hnew : Q s.nextConnectionId Party.new) : s'.Each Q := by
  intro y p hp
  by_cases hy : y = s.nextConnectionId
  · subst hy
    cases h.new.symm.trans hp
    exact hnew
  · rw [h.others y hy] at hp
    exact hs y p hp

theorem Server.Tidy.quiet (hs : s.Tidy) (h : Quiet s s') : s'.Tidy := by
  unfold Server.Tidy
  rw [h.nextId]
  exact Server.Each.quiet hs h

theorem Connection.unpaired_open (x : Connection) (h : x.party.state ≠ .closing) :
    x.unpaired.party.state ≠ .closing := by
  unfold Connection.unpaired Connection.party
  dsimp only
  split
  · exact nofun
  · exact h

theorem Op.nextId {c : ConnId} {f : Frame} (h : Op c f s s') :
    s'.nextConnectionId = s.nextConnectionId := by
  cases h with
  | grouped _ _ _ _ =>
    unfold Server.leftOther
    split <;> rfl
  | _ => rfl

theorem Op.tidy {c : ConnId} {f : Frame} (h : Op c f s s') (hs : s.Tidy) : s'.Tidy := by
  unfold Server.Tidy
  rw [h.nextId]
  have hrelaying : ∀ {t : Server} {a b : ConnId},
      t.Each (fun c p => c < s.nextConnectionId ∧ p.state ≠ .closing) →
      (t.relaying a b).Each fun c p => c < s.nextConnectionId ∧ p.state ≠ .closing :=
    fun ht => ht.relaying fun _ _ _ h => ⟨h, h.1, nofun⟩
  cases h with
  | refused _ _ _ => exact hs.update c fun _ _ h => h
  | granted _ _ _ _ =>
    exact Server.Each.update (by exact hs) c fun _ _ h => ⟨h.1, ConnectionState.noConfusion⟩
  | welcomed _ _ _ =>
    exact hs.update c fun _ _ h => ⟨h.1, ConnectionState.noConfusion⟩
  | paired _ hfound hidle hpeer haccepting =>
    refine hs.paired _ hfound hpeer (ne_of_idle hfound hidle hpeer haccepting)
      ⟨(hs _ _ (Server.party_of hfound)).1, ConnectionState.noConfusion⟩
      ⟨(hs _ _ (Server.party_of hpeer)).1, ConnectionState.noConfusion⟩
  | orphaned _ _ _ _ _ => exact hs.update c fun _ _ h => ⟨h.1, nofun⟩
  | withdrawn _ _ _ _ => exact hs.update c fun x _ h => ⟨h.1, x.unpaired_open h.2⟩
  | rejected _ _ _ _ _ => exact Server.Each.update hs c fun x _ h => ⟨h.1, x.unpaired_open h.2⟩
  | asked _ _ _ _ _ _ _ => exact hs
  | opened _ _ _ _ _ _ _ => exact ((hrelaying (by exact hs)).enqueued _ _).enqueued _ _
  | forwarded _ _ _ _ => exact hs.enqueued _ _
  | recovered _ _ _ _ _ _ _ _ => exact (hrelaying hs).enqueued _ _
  | queried _ => exact hs
  | unlisted _ => exact hs
  | listed _ _ => exact Server.Each.enqueued (by exact hs) _ _
  | grouped _ _ _ _ => exact hs.regrouped c _ _ fun _ _ _ h => h

theorem Server.Tidy.step (hs : s.Tidy) (h : s.next e = some s') : s'.Tidy := by
  cases Server.next_happens hs h with
  | refused hquiet => exact hs.quiet hquiet
  | admitted hadmitted =>
    intro c p hp
    rw [hadmitted.nextId]
    by_cases hc : c = s.nextConnectionId
    · subst hc
      cases hadmitted.new.symm.trans hp
      exact ⟨Nat.lt_succ_self _, nofun⟩
    · rw [hadmitted.others c hc] at hp
      exact ⟨Nat.lt_succ_of_lt (hs c p hp).1, (hs c p hp).2⟩
  | frame _ hdoes =>
    exact hdoes.keeps (fun a b hq ha => ha.quiet hq) (fun a b hop ha => hop.tidy ha) hs
  | closed _ hparted =>
    unfold Server.Tidy
    rw [hparted.nextId]
    exact hs.parted hparted fun _ _ _ _ h => ⟨h.1, ConnectionState.noConfusion⟩
  | expired => exact hs

theorem Server.Started.tidy (h : s.Started) : s.Tidy := by
  obtain ⟨options, rateLimiter, rfl⟩ := h
  intro c p hp
  cases hp

end Steps

end DropZone
