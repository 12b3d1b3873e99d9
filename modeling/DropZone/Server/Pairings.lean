import DropZone.Server.Runs

/-!
# Pairings

A pairing is in the session table, and each of its two connections has a state and notes its id.

* `Server.Consistent`: the parties of a pairing in the table are open, note its id, and are waiting,
  matched or relaying. Every event keeps that (`Server.PairingInv.step`).
* `Server.Waiting`: whoever is waiting, matched or relaying is in a pairing, or asked to leave. Three
  kinds of events break that (`Server.Orderly`).
-/

namespace DropZone

open LittleEndian StateSpec System

/-- The states of a connection that is in a pairing. -/
def ConnectionState.Engaged (st : ConnectionState) : Prop :=
  st = .senderWaiting ∨ st = .receiverMatched ∨ st = .relaying

instance (st : ConnectionState) : Decidable st.Engaged := inferInstanceAs (Decidable (_ ∨ _))

/-- An open connection notes the pairing `id` and is in state `st`. -/
def Server.Holds (s : Server) (c : ConnId) (id : UInt64) (st : ConnectionState) : Prop :=
  ∃ p, s.party c = some p ∧ p.pairingId = id ∧ p.state = st

/-- The parties of a pairing are as the pairing says. -/
structure Pairing.Sound (pr : Pairing) (s : Server) (id : UInt64) : Prop where
  id_ne : id ≠ 0
  ne : pr.sender ≠ pr.receiver
  sender : s.Holds pr.sender id (if pr.relayActive then .relaying else .senderWaiting)
  receiver : s.Holds pr.receiver id (if pr.relayActive then .relaying else .receiverMatched)

def Server.Consistent (s : Server) : Prop :=
  ∀ id pr, s.sessions.pairings id = some pr → pr.Sound s id

/-- Before its hello a connection is in no state but the first. -/
def Server.Shy (s : Server) : Prop :=
  s.Each fun _ p => p.helloReceived = false → p.state = .awaitingHello

variable {e : ServerEvent} {st : ConnectionState}

section Consistent

variable {s s' : Server} {c : ConnId} {f : Frame} {id : UInt64} {pr : Pairing}
variable {t : SessionTable} {freed : Option ConnId} {x : Connection} {p : Party}

theorem Server.Holds.congr {y : ConnId} (h : s.Holds y id st)
    (hy : s'.party y = s.party y) : s'.Holds y id st := by
  obtain ⟨p, hp, hid, hst⟩ := h
  exact ⟨p, hy.trans hp, hid, hst⟩

/-- A party of a pairing notes its id and is engaged. -/
theorem Pairing.Sound.engaged (h : pr.Sound s id) (hc : c = pr.sender ∨ c = pr.receiver)
    (hp : s.party c = some p) : p.pairingId = id ∧ p.state.Engaged := by
  rcases hc with rfl | rfl
  · obtain ⟨q, hq, hid, hst⟩ := h.sender
    cases hp.symm.trans hq
    refine ⟨hid, ?_⟩
    rw [hst]
    split <;> decide
  · obtain ⟨q, hq, hid, hst⟩ := h.receiver
    cases hp.symm.trans hq
    refine ⟨hid, ?_⟩
    rw [hst]
    split <;> decide

theorem Pairing.Sound.ne_of_not_engaged (h : pr.Sound s id) (hp : s.party c = some p)
    (hst : ¬ p.state.Engaged) : c ≠ pr.sender ∧ c ≠ pr.receiver :=
  ⟨fun hc => hst (h.engaged (.inl hc) hp).2, fun hc => hst (h.engaged (.inr hc) hp).2⟩

theorem Pairing.Sound.ne_of_id_ne (h : pr.Sound s id) (hp : s.party c = some p)
    (hid : p.pairingId ≠ id) : c ≠ pr.sender ∧ c ≠ pr.receiver :=
  ⟨fun hc => hid (h.engaged (.inl hc) hp).1, fun hc => hid (h.engaged (.inr hc) hp).1⟩

theorem Server.Holds.alive {y : ConnId} (h : s.Holds y id st) :
    s.alive y = true := by
  obtain ⟨p, hp, -⟩ := h
  rw [Server.alive_iff_party, hp]
  rfl

/-- Pairings may go, and what happens to connections outside those that stay does not matter. -/
theorem Server.Consistent.restrict (hs : s.Consistent)
    (hsub : ∀ {id pr}, s'.sessions.pairings id = some pr → s.sessions.pairings id = some pr)
    (hsame : ∀ {id pr y}, s'.sessions.pairings id = some pr → y = pr.sender ∨ y = pr.receiver →
      s'.proj (fun p => (p.state, p.pairingId)) y = s.proj (fun p => (p.state, p.pairingId)) y) :
    s'.Consistent := by
  intro id pr hpr
  have hsound := hs id pr (hsub hpr)
  have hkeep : ∀ {y st}, y = pr.sender ∨ y = pr.receiver → s.Holds y id st → s'.Holds y id st := by
    rintro y st hy ⟨p, hp, hid, hst⟩
    have h := hsame hpr hy
    unfold Server.proj at h
    rw [hp] at h
    obtain ⟨q, hq, hpq⟩ := Option.map_eq_some_iff.mp h
    rw [Prod.mk.injEq] at hpq
    exact ⟨q, hq, hpq.2.trans hid, hpq.1.trans hst⟩
  exact ⟨hsound.id_ne, hsound.ne, hkeep (.inl rfl) hsound.sender, hkeep (.inr rfl) hsound.receiver⟩

theorem Server.Consistent.keeps (hs : s.Consistent)
    (h : Keeps (fun p => (p.state, p.pairingId)) SessionTable.pairingPart s s') : s'.Consistent :=
  hs.restrict (fun hpr => SessionTable.pairings_eq h.2 ▸ hpr) fun _ _ => h.1 _

/-- A change to one connection that is a party of no pairing that stays. -/
theorem Server.Consistent.outsider (hs : s.Consistent)
    (hsub : ∀ {id pr}, s'.sessions.pairings id = some pr → s.sessions.pairings id = some pr)
    (hout : ∀ {id pr}, s'.sessions.pairings id = some pr → c ≠ pr.sender ∧ c ≠ pr.receiver)
    (hothers : ∀ y, y ≠ c → s'.party y = s.party y) : s'.Consistent :=
  hs.restrict hsub fun {id pr y} hpr hy => by
    have hyc : y ≠ c := by
      rintro rfl
      exact hy.elim (hout hpr).1 (hout hpr).2
    rw [Server.proj, Server.proj, hothers y hyc]

/-! ## The changes of a frame -/

/-- The entry of a pairing may change but for its parties and what they do. -/
theorem Server.Consistent.reflag {pr' : Pairing} (hs : s.Consistent)
    (hpr : s.sessions.pairings id = some pr) (ht : t.pairings = Function.update s.sessions.pairings id
      (some pr')) (hsender : pr'.sender = pr.sender) (hreceiver : pr'.receiver = pr.receiver)
    (hactive : pr'.relayActive = pr.relayActive) : Server.Consistent { s with sessions := t } := by
  intro id' pr'' hpr''
  obtain ⟨rfl, rfl⟩ | ⟨-, hpr''⟩ := SessionTable.pairings_update_cases ht hpr''
  · have hsound := hs id' pr hpr
    exact ⟨hsound.id_ne, by rw [hsender, hreceiver]; exact hsound.ne,
      by rw [hsender, hactive]; exact hsound.sender,
      by rw [hreceiver, hactive]; exact hsound.receiver⟩
  · have hsound := hs id' pr'' hpr''
    exact ⟨hsound.id_ne, hsound.ne, hsound.sender, hsound.receiver⟩

/-- A relay between the parties of a pairing, whose entry may change but for its parties. -/
theorem Server.Consistent.relaying {pr' : Pairing} (hs : s.Consistent)
    (hpr : s.sessions.pairings id = some pr) (ht : t.pairings = Function.update s.sessions.pairings id
      (some pr')) (hsender : pr'.sender = pr.sender) (hreceiver : pr'.receiver = pr.receiver)
    (hactive : pr'.relayActive = true) :
    ({ s with sessions := t }.relaying pr.sender pr.receiver).Consistent := by
  have hsound := hs id pr hpr
  obtain ⟨p, hp, hpid, -⟩ := hsound.sender
  obtain ⟨q, hq, hqid, -⟩ := hsound.receiver
  obtain ⟨hp', hq'⟩ := Server.party_relaying (s := { s with sessions := t }) hsound.ne hp hq
  intro id' pr'' hpr''
  obtain ⟨rfl, rfl⟩ | ⟨hid, hpr''⟩ := SessionTable.pairings_update_cases ht hpr''
  · refine ⟨hsound.id_ne, by rw [hsender, hreceiver]; exact hsound.ne, ?_, ?_⟩
    · rw [hactive, hsender]
      exact ⟨_, hp', hpid, rfl⟩
    · rw [hactive, hreceiver]
      exact ⟨_, hq', hqid, rfl⟩
  · -- another pairing has other parties
    have hsound' := hs id' pr'' hpr''
    have hne : ∀ {y st}, s.Holds y id' st → y ≠ pr.sender ∧ y ≠ pr.receiver := by
      rintro y st ⟨w, hw, hwid, -⟩
      constructor
      · rintro rfl
        cases hp.symm.trans hw
        exact hid (hwid.symm.trans hpid)
      · rintro rfl
        cases hq.symm.trans hw
        exact hid (hwid.symm.trans hqid)
    have hkeep : ∀ {y st}, s.Holds y id' st →
        ({ s with sessions := t }.relaying pr.sender pr.receiver).Holds y id' st := fun h =>
      h.congr (Server.party_relaying_other (hne h).1 (hne h).2)
    exact ⟨hsound'.id_ne, hsound'.ne, hkeep hsound'.sender, hkeep hsound'.receiver⟩

theorem Server.Consistent.paired {x y : Connection} {r : ConnId} {env : Env} (hs : s.Consistent)
    (hfound : s.connections c = some x) (hidle : x.state = .senderIdle)
    (hpeer : s.connections r = some y) (haccepting : y.state = .receiverIdle)
    (hid : s.nextPairingId env c r ≠ 0) : (s.paired env c r).Consistent := by
  have hne := ne_of_idle hfound hidle hpeer haccepting
  intro id pr hpr
  have hpairings : (s.paired env c r).sessions.pairings =
      Function.update s.sessions.pairings (s.nextPairingId env c r)
        (some ⟨s.nextPairingId env c r, c, r, false, false, false, env.nowMs⟩) := rfl
  rw [hpairings] at hpr
  by_cases hnew : id = s.nextPairingId env c r
  · subst hnew
    cases (Function.update_self ..).symm.trans hpr
    exact ⟨hid, hne.symm, ⟨_, Server.party_paired_self env hfound hne, rfl, rfl⟩,
      ⟨_, Server.party_paired_peer env hpeer hne, rfl, rfl⟩⟩
  · rw [Function.update_of_ne hnew] at hpr
    have hsound := hs id pr hpr
    have hc := hsound.ne_of_not_engaged (Server.party_of hfound) (by
      rw [show x.party.state = _ from hidle]; decide)
    have hr := hsound.ne_of_not_engaged (Server.party_of hpeer) (by
      rw [show y.party.state = _ from haccepting]; decide)
    exact ⟨hsound.id_ne, hsound.ne,
      hsound.sender.congr (Server.party_paired_other env hc.1.symm hr.1.symm),
      hsound.receiver.congr (Server.party_paired_other env hc.2.symm hr.2.symm)⟩

theorem Op.consistent (h : Op c f s s') (hs : s.Consistent) (hshy : s.Shy)
    (hroom : f.header.type = .sendRequest → ∃ id, id ≠ 0 ∧ s.sessions.pairings id = none) :
    s'.Consistent := by
  have hawaiting : ∀ {x : Connection}, s.connections c = some x → x.helloReceived = false →
      ∀ {id pr}, s.sessions.pairings id = some pr → c ≠ pr.sender ∧ c ≠ pr.receiver := by
    intro x hfound hfresh id pr hpr
    have hstate := hshy c _ (Server.party_of hfound) hfresh
    exact (hs id pr hpr).ne_of_not_engaged (Server.party_of hfound) (by rw [hstate]; decide)
  cases h with
  | refused _ _ _ => exact hs.keeps ((Keeps.refl s).update c fun _ => rfl)
  | granted _ hfound hfresh claim =>
    have htable := SessionTable.claim_pairings claim
    exact hs.outsider (c := c) (fun hpr => htable ▸ hpr)
      (fun hpr => hawaiting hfound hfresh (htable ▸ hpr)) fun y hy => Server.party_update_of_ne hy _
  | welcomed _ hfound hfresh =>
    exact hs.outsider (c := c) (fun hpr => hpr) (hawaiting hfound hfresh) fun y hy =>
      Server.party_update_of_ne hy _
  | paired htype hfound hidle hpeer haccepting =>
    obtain ⟨id, hid, hfree⟩ := hroom htype
    exact hs.paired hfound hidle hpeer haccepting (SessionTable.createPairing_free hid hfree _ _ _ _).1
  | orphaned _ _ _ hpr hgone =>
    cases (hs _ _ hpr).sender.alive.symm.trans hgone
  | withdrawn _ hfound _ hstale =>
    refine hs.outsider (c := c) (fun hpr => hpr) (fun {id pr} hpr => ?_) fun y hy =>
      Server.party_update_of_ne hy _
    refine (hs id pr hpr).ne_of_id_ne (Server.party_of hfound) fun hid => ?_
    rw [← hid] at hpr
    cases hstale.symm.trans hpr
  | rejected _ hfound _ hpr _ =>
    refine hs.outsider (c := c) (fun hpr => (SessionTable.destroyPairing_eq_some.mp hpr).2)
      (fun {id pr} hpr => ?_) fun y hy => Server.party_update_of_ne hy _
    obtain ⟨hne, hpr⟩ := SessionTable.destroyPairing_eq_some.mp hpr
    exact (hs id pr hpr).ne_of_id_ne (Server.party_of hfound) (Ne.symm hne)
  | asked _ _ _ hpr _ _ request =>
    obtain ⟨pr', htable, hsender, hreceiver, hsame, -⟩ := SessionTable.requestRelay_spec hpr request
    exact hs.reflag hpr htable hsender hreceiver (hsame rfl)
  | opened _ _ _ hpr _ _ request =>
    obtain ⟨pr', htable, hsender, hreceiver, -, hactive⟩ := SessionTable.requestRelay_spec hpr request
    refine (hs.relaying hpr htable hsender hreceiver (hactive rfl).2).keeps ?_
    exact ((Keeps.refl _).enqueued _ _).enqueued _ _
  | forwarded _ _ _ _ => exact hs.keeps ((Keeps.refl s).enqueued _ _)
  | recovered _ _ _ _ hpr hactive _ _ =>
    refine (hs.relaying hpr ?_ rfl rfl hactive).keeps ((Keeps.refl _).enqueued _ _)
    rw [← hpr, Function.update_eq_self]
  | queried _ => exact hs.keeps (((Keeps.refl s).pruned _).pruned _)
  | unlisted _ => exact hs.keeps ((Keeps.refl s).pruned _)
  | listed _ _ => exact hs.keeps (((Keeps.refl s).pruned _).enqueued _ _)
  | grouped _ _ _ _ => exact hs.keeps ((Keeps.refl s).regrouped c _ _ fun _ _ => rfl)

/-! ## Hello first -/

/-- The ends of a relay have said hello before. -/
theorem Server.Shy.relaying {a b : ConnId} (hs : s.Shy) (hs' : s.Consistent)
    (hpr : s.sessions.pairings id = some pr) (ha : a = pr.sender) (hb : b = pr.receiver) :
    ({ s with sessions := t }.relaying a b).Shy := by
  subst ha hb
  have hsound := hs' id pr hpr
  obtain ⟨p, hp, -⟩ := hsound.sender
  obtain ⟨q, hq, -⟩ := hsound.receiver
  have hsaid : ∀ {y : ConnId} {w : Party}, y = pr.sender ∨ y = pr.receiver → s.party y = some w →
      w.helloReceived = true := by
    intro y w hy hw
    by_contra hnot
    have hengaged := (hsound.engaged hy hw).2
    rw [hs y w hw (by simpa using hnot)] at hengaged
    revert hengaged
    decide
  obtain ⟨hp', hq'⟩ := Server.party_relaying (s := { s with sessions := t }) hsound.ne hp hq
  intro y w hw hfresh
  by_cases hys : y = pr.sender
  · subst hys
    cases hp'.symm.trans hw
    exact absurd (hsaid (.inl rfl) hp) (by simpa using hfresh)
  · by_cases hyr : y = pr.receiver
    · subst hyr
      cases hq'.symm.trans hw
      exact absurd (hsaid (.inr rfl) hq) (by simpa using hfresh)
    · rw [Server.party_relaying_other hys hyr] at hw
      exact hs y w hw hfresh

theorem Connection.unpaired_shy (x : Connection)
    (h : x.party.helloReceived = false → x.party.state = .awaitingHello)
    (hfresh : x.unpaired.party.helloReceived = false) : x.unpaired.party.state = .awaitingHello := by
  have hstate : x.state = .awaitingHello := h hfresh
  simp [Connection.unpaired, Connection.party, hstate]

theorem Op.shy (h : Op c f s s') (hs : s.Shy) (hs' : s.Consistent) : s'.Shy := by
  -- a connection in a later state has said hello
  have hsaid : ∀ {y : ConnId} {x : Connection}, s.connections y = some x →
      x.state ≠ .awaitingHello → x.helloReceived = true := by
    intro y x hx hst
    by_contra hnot
    exact hst (hs y x.party (Server.party_of hx) (by simpa [Connection.party] using hnot))
  cases h with
  | refused _ _ _ => exact Server.Each.update hs c fun _ _ _ h => Bool.noConfusion h
  | granted _ _ _ _ => exact Server.Each.update (by exact hs) c fun _ _ _ h => Bool.noConfusion h
  | welcomed _ _ _ => exact Server.Each.update hs c fun _ _ _ h => Bool.noConfusion h
  | @paired x y r env _ hfound hidle hpeer haccepting =>
    refine Server.Each.paired hs env hfound hpeer (ne_of_idle hfound hidle hpeer haccepting) ?_ ?_
    · exact fun h => absurd (hsaid hfound (by rw [hidle]; decide)) (Bool.eq_false_iff.mp h)
    · exact fun h => absurd (hsaid hpeer (by rw [haccepting]; decide)) (Bool.eq_false_iff.mp h)
  | orphaned _ hfound hstate _ _ =>
    refine Server.Each.update hs c fun z hz _ h => ?_
    cases hfound.symm.trans hz
    exact absurd (hsaid hfound (by rw [hstate]; decide)) (Bool.eq_false_iff.mp h)
  | withdrawn _ _ _ _ => exact Server.Each.update hs c fun x _ h => x.unpaired_shy h
  | rejected _ _ _ _ _ => exact Server.Each.update (by exact hs) c fun x _ h => x.unpaired_shy h
  | asked _ _ _ _ _ _ _ => exact hs
  | opened _ _ _ hpr _ _ _ =>
    exact Server.Each.enqueued (Server.Each.enqueued (hs.relaying hs' hpr rfl rfl) _ _) _ _
  | forwarded _ _ _ _ => exact Server.Each.enqueued hs _ _
  | recovered _ _ _ _ hpr _ _ _ => exact Server.Each.enqueued (hs.relaying hs' hpr rfl rfl) _ _
  | queried _ => exact hs
  | unlisted _ => exact hs
  | listed _ _ => exact Server.Each.enqueued (by exact hs) _ _
  | grouped _ _ _ _ => exact Server.Each.regrouped hs c _ _ fun _ _ _ h => h

/-! ## Every event -/

structure Server.PairingInv (s : Server) : Prop where
  tidy : s.Tidy
  shy : s.Shy
  consistent : s.Consistent

theorem Server.Consistent.admitted (hs : s.Consistent) (htidy : s.Tidy) (h : Admitted s s') :
    s'.Consistent := by
  refine hs.outsider (c := s.nextConnectionId) (fun hpr => h.sessions ▸ hpr) (fun {id pr} hpr => ?_)
    h.others
  rw [h.sessions] at hpr
  have hsound := hs id pr hpr
  have hfresh : ∀ {y st}, s.Holds y id st → s.nextConnectionId ≠ y := by
    rintro y st ⟨p, hp, -⟩ rfl
    exact Nat.lt_irrefl _ (htidy _ p hp).1
  exact ⟨hfresh hsound.sender, hfresh hsound.receiver⟩

/-- A pairing that is there after a connection ended was there before, and is none of that
connection. -/
theorem Parted.pairings (h : Parted c x freed s s')
    (hs : s.Consistent) (hpr : s'.sessions.pairings id = some pr) :
    s.sessions.pairings id = some pr ∧ x.pairingId ≠ id := by
  have hdeparted := SessionTable.pairings_eq (s.departed_pairingPart c x)
  rw [h.sessions] at hpr
  split at hpr
  · rename_i hzero
    rw [hdeparted] at hpr
    exact ⟨hpr, hzero ▸ (hs id pr hpr).id_ne.symm⟩
  · obtain ⟨hne, hpr⟩ := SessionTable.destroyPairing_eq_some.mp hpr
    rw [hdeparted] at hpr
    exact ⟨hpr, hne.symm⟩

theorem Server.Consistent.parted (hs : s.Consistent)
    (hfound : s.connections c = some x) (h : Parted c x freed s s') : s'.Consistent := by
  refine hs.restrict (fun hpr => (h.pairings hs hpr).1) fun {id pr y} hpr hy => ?_
  obtain ⟨hpr, hid⟩ := h.pairings hs hpr
  have hsound := hs id pr hpr
  have hyc : y ≠ c := by
    rintro rfl
    obtain ⟨hne₁, hne₂⟩ := hsound.ne_of_id_ne (Server.party_of hfound) hid
    exact hy.elim hne₁ hne₂
  -- whoever is free again was in the pairing that is gone
  have hfreed : freed ≠ some y := by
    intro hfreed
    obtain ⟨-, pr₀, hpr₀, rfl, -⟩ := h.matched y hfreed
    obtain ⟨q, hq, hqid, -⟩ := (hs _ _ hpr₀).receiver
    exact hid (hqid.symm.trans (hsound.engaged hy hq).1)
  rw [Server.proj, Server.proj, h.stay y hyc]
  simp only [hfreed, if_false, Option.map_id']

theorem Server.PairingInv.step (hs : s.PairingInv) (h : s.Step e s') :
    s'.PairingInv := by
  obtain ⟨hnext, hreturns⟩ := h
  have htidy := hs.tidy.step hnext
  cases Server.next_happens hs.tidy hnext with
  | refused hquiet =>
    exact ⟨htidy, Server.Each.quiet hs.shy hquiet, hs.consistent.keeps hquiet.keeps⟩
  | admitted hadmitted =>
    refine ⟨htidy, fun y p hp => ?_, hs.consistent.admitted hs.tidy hadmitted⟩
    by_cases hy : y = s.nextConnectionId
    · subst hy
      cases hadmitted.new.symm.trans hp
      exact fun _ => rfl
    · rw [hadmitted.others y hy] at hp
      exact hs.shy y p hp
  | frame _ hdoes =>
    obtain ⟨a, b, ha, hab, hb⟩ := hdoes
    have hshy : a.Shy := Server.Each.quiet hs.shy ha
    have hcons : a.Consistent := hs.consistent.keeps ha.keeps
    rcases hab with rfl | hop
    · exact ⟨htidy, Server.Each.quiet hshy hb, hcons.keeps hb.keeps⟩
    · refine ⟨htidy, Server.Each.quiet (hop.shy hshy hcons) hb, ?_⟩
      refine (hop.consistent hcons hshy ?_).keeps hb.keeps
      rw [ha.sessions]
      exact hreturns
  | closed hfound hparted =>
    refine ⟨htidy, Server.Each.parted hs.shy hparted fun y p hfreed hp h hfresh => ?_,
      hs.consistent.parted hfound hparted⟩
    cases (h hfresh).symm.trans (hparted.freed_state hfreed hp)
  | expired =>
    exact ⟨htidy, hs.shy, hs.consistent.restrict (fun h => (SessionTable.expirePairings_some h).1)
      fun _ _ => rfl⟩

/-! ## Pairing ids -/

theorem Server.pairingIdOf_eq (s : Server) (c : ConnId) :
    s.pairingIdOf c = (s.proj Party.pairingId c).getD 0 := by
  rw [Server.pairingIdOf, Server.proj, Server.party, Option.map_map]
  rfl

theorem Server.pairingIdOf_party (h : s.party c = some p) :
    s.pairingIdOf c = p.pairingId := by
  rw [Server.pairingIdOf_eq, Server.proj, h]
  rfl

theorem Keeps.shrinks (h : Keeps Party.pairingId SessionTable.pairingPart s s') : Shrinks s s' where
  pairings _ pr hpr := ⟨pr, SessionTable.pairings_eq h.2 ▸ hpr, rfl⟩
  ids x := .inl (by rw [Server.pairingIdOf_eq, h.1 x, Server.pairingIdOf_eq])
  counter := congrArg (fun q => q.2.1) h.2
  salt := ⟨congrArg (fun q => q.2.2.1) h.2, congrArg (fun q => q.2.2.2) h.2⟩

theorem Shrinks.sessions (h : TableShrinks s.sessions t) :
    Shrinks s { s with sessions := t } :=
  ⟨h.pairings, fun _ => .inl rfl, h.counter, h.salt⟩

/-- Only an introduction makes a pairing. -/
theorem Op.shrinks (h : Op c f s s') :
    Shrinks s s' ∨ ∃ x y r env, f.header.type = .sendRequest ∧ s.connections c = some x ∧
      x.state = .senderIdle ∧ s.connections r = some y ∧ y.state = .receiverIdle ∧
      s' = s.paired env c r := by
  cases h with
  | refused _ _ _ =>
    refine .inl (Keeps.shrinks ?_)
    exact (Keeps.refl s).update c fun _ => rfl
  | @granted x hello table _ _ _ claim =>
    have htable := (SessionTable.claim_others s.alive s.sessions hello.username c).1
    rw [claim] at htable
    refine .inl (Keeps.shrinks (Keeps.update ?_ c fun _ => rfl))
    exact (Keeps.refl s).sessions htable
  | welcomed _ _ _ =>
    refine .inl (Keeps.shrinks ?_)
    exact (Keeps.refl s).update c fun _ => rfl
  | paired htype hfound hidle hpeer haccepting =>
    exact .inr ⟨_, _, _, _, htype, hfound, hidle, hpeer, haccepting, rfl⟩
  | orphaned _ _ _ _ _ => exact .inl (Shrinks.update s c fun _ => .inr rfl)
  | withdrawn _ _ _ _ => exact .inl (Shrinks.update s c fun _ => .inr rfl)
  | @rejected x pr _ _ _ _ _ =>
    refine .inl ((Shrinks.sessions (tableShrinks_destroyPairing s.sessions x.pairingId)).trans ?_)
    exact Shrinks.update _ c fun _ => .inr rfl
  | @asked x pr table _ _ _ _ _ _ request =>
    have htable := tableShrinks_requestRelay s.sessions x.pairingId (pr.sender == c)
    rw [request] at htable
    exact .inl (.sessions htable)
  | @opened x pr table _ _ _ _ _ _ request =>
    have htable := tableShrinks_requestRelay s.sessions x.pairingId (pr.sender == c)
    rw [request] at htable
    refine .inl ((Shrinks.sessions htable).trans (Keeps.shrinks ?_))
    exact (((Keeps.refl _).relaying _ _ fun _ _ => ⟨rfl, rfl⟩).enqueued _ _).enqueued _ _
  | forwarded _ _ _ _ => exact .inl ((Keeps.refl s).enqueued _ _).shrinks
  | recovered _ _ _ _ _ _ _ _ =>
    exact .inl (((Keeps.refl s).relaying _ _ fun _ _ => ⟨rfl, rfl⟩).enqueued _ _).shrinks
  | queried _ => exact .inl (((Keeps.refl s).pruned _).pruned _).shrinks
  | unlisted _ => exact .inl ((Keeps.refl s).pruned _).shrinks
  | listed _ _ => exact .inl (((Keeps.refl s).pruned _).enqueued _ _).shrinks
  | grouped _ _ _ _ => exact .inl ((Keeps.refl s).regrouped c _ _ fun _ _ => rfl).shrinks

theorem Parted.shrinks (h : Parted c x freed s s')
    (hs : s.Consistent) : Shrinks s s' where
  pairings id pr hpr := ⟨pr, (h.pairings hs hpr).1, rfl⟩
  ids y := by
    by_cases hy : y = c
    · subst hy
      rw [Server.pairingIdOf_eq s', Server.proj, h.gone]
      exact .inr rfl
    · rw [Server.pairingIdOf_eq, Server.pairingIdOf_eq, Server.proj, Server.proj, h.stay y hy]
      cases s.party y with
      | none => exact .inl rfl
      | some p =>
        by_cases hfreed : freed = some y
        · exact .inr (by simp [hfreed, Party.freed])
        · exact .inl (by simp [hfreed])
  counter := by
    have hpart := s.departed_pairingPart c x
    rw [h.sessions]
    split
    · exact congrArg (fun q => q.2.1) hpart
    · exact congrArg (fun q => q.2.1) hpart
  salt := by
    have hpart := s.departed_pairingPart c x
    rw [h.sessions]
    split
    · exact ⟨congrArg (fun q => q.2.2.1) hpart, congrArg (fun q => q.2.2.2) hpart⟩
    · exact ⟨congrArg (fun q => q.2.2.1) hpart, congrArg (fun q => q.2.2.2) hpart⟩

/-- The counter of pairing ids is not about to wrap around. -/
def Server.Roomy (s : Server) : ServerEvent → Prop
  | .frame _ _ f => f.header.type = .sendRequest → s.sessions.nextPairingCounter.toNat + 2 < 2 ^ 64
  | _ => True

theorem Server.Numbers.step (hs : s.Numbers) (hinv : s.PairingInv)
    (hnext : s.next e = some s') (hroom : s.Roomy e) : s'.Numbers := by
  cases Server.next_happens hinv.tidy hnext with
  | refused hquiet => exact hs.shrinks (Keeps.shrinks hquiet.keeps)
  | admitted hadmitted =>
    refine hs.shrinks ⟨fun id pr hpr => ⟨pr, hadmitted.sessions ▸ hpr, rfl⟩, fun y => ?_,
      by rw [hadmitted.sessions], by rw [hadmitted.sessions], by rw [hadmitted.sessions]⟩
    by_cases hy : y = s.nextConnectionId
    · subst hy
      exact .inr (Server.pairingIdOf_party hadmitted.new)
    · exact .inl (by rw [Server.pairingIdOf_eq, Server.pairingIdOf_eq, Server.proj, Server.proj,
        hadmitted.others y hy])
  | frame _ hdoes =>
    obtain ⟨a, b, ha, hab, hb⟩ := hdoes
    have hsa := hs.shrinks (Keeps.shrinks ha.keeps)
    refine Server.Numbers.shrinks ?_ (Keeps.shrinks hb.keeps)
    rcases hab with rfl | hop
    · exact hsa
    · obtain hshrinks | ⟨x, y, r, env, htype, hfound, -, hpeer, -, rfl⟩ := hop.shrinks
      · exact hsa.shrinks hshrinks
      · exact (hsa.paired env (by rw [ha.sessions]; exact hroom htype) hfound hpeer).2.2.2
  | closed _ hparted => exact hs.shrinks (hparted.shrinks hinv.consistent)
  | @expired env => exact hs.shrinks (expire_effect (c := 0) s env).shrinks

/-! ## Engaged connections -/

/-- The pairing that an open connection notes is there, and the connection is a party of it. -/
def Server.InPairing (s : Server) (c : ConnId) (p : Party) : Prop :=
  ∃ pr, s.sessions.pairings p.pairingId = some pr ∧ (c = pr.sender ∨ c = pr.receiver)

/-- Whoever is engaged and not asked to leave is in a pairing. -/
def Server.Waiting (s : Server) : Prop :=
  ∀ c p, s.party c = some p → p.state.Engaged → ¬ s.Leaving c → s.InPairing c p

/-- A step that this holds across: an engaged connection was engaged before, in the same pairing. -/
theorem Server.Waiting.of (hs : s.Waiting) (hleaving : ∀ {y}, s.Leaving y → s'.Leaving y)
    (h : ∀ {y p'}, s'.party y = some p' → p'.state.Engaged → ¬ s.Leaving y → s'.InPairing y p' ∨
      ∃ p, s.party y = some p ∧ p.state.Engaged ∧ (s.InPairing y p → s'.InPairing y p')) :
    s'.Waiting := by
  intro y p' hp' hst hstay
  have hstay' : ¬ s.Leaving y := fun hl => hstay (hleaving hl)
  obtain hin | ⟨p, hp, hst', hin⟩ := h hp' hst hstay'
  · exact hin
  · exact hin (hs y p hp hst' hstay')

theorem Server.Waiting.keeps (hs : s.Waiting) (hleaving : ∀ {y}, s.Leaving y → s'.Leaving y)
    (h : Keeps (fun p => (p.state, p.pairingId)) SessionTable.pairingPart s s') : s'.Waiting := by
  refine hs.of hleaving fun {y p'} hp' hst _ => .inr ?_
  have hproj := h.1 y
  unfold Server.proj at hproj
  rw [hp'] at hproj
  obtain ⟨p, hp, hpp⟩ := Option.map_eq_some_iff.mp hproj.symm
  rw [Prod.mk.injEq] at hpp
  refine ⟨p, hp, hpp.1 ▸ hst, ?_⟩
  rintro ⟨pr, hpr, hy⟩
  exact ⟨pr, by rw [← hpp.2, SessionTable.pairings_eq h.2]; exact hpr, hy⟩

theorem Server.Waiting.disengaged (hs : s.Waiting) (hleaving : ∀ {y}, s.Leaving y → s'.Leaving y)
    (hself : ∀ {p}, s'.party c = some p → ¬ p.state.Engaged)
    (hothers : ∀ {y}, y ≠ c → s'.party y = s.party y)
    (hpairings : ∀ {y id pr}, y ≠ c → ¬ s.Leaving y → s.sessions.pairings id = some pr →
      y = pr.sender ∨ y = pr.receiver → s'.sessions.pairings id = some pr) : s'.Waiting := by
  refine hs.of hleaving fun {y p'} hp' hst hstay => .inr ?_
  have hyc : y ≠ c := by
    rintro rfl
    exact hself hp' hst
  rw [hothers hyc] at hp'
  refine ⟨p', hp', hst, ?_⟩
  rintro ⟨pr, hpr, hy⟩
  exact ⟨pr, hpairings hyc hstay hpr hy, hy⟩

/-- A relay between the parties of a pairing, whose entry may change but for its parties. -/
theorem Server.Waiting.relaying {pr' : Pairing} (hs : s.Waiting)
    (hcons : s.Consistent) (hpr : s.sessions.pairings id = some pr)
    (ht : t.pairings = Function.update s.sessions.pairings id (some pr'))
    (hsender : pr'.sender = pr.sender) (hreceiver : pr'.receiver = pr.receiver) :
    ({ s with sessions := t }.relaying pr.sender pr.receiver).Waiting := by
  have hsound := hcons id pr hpr
  obtain ⟨p, hp, hpid, -⟩ := hsound.sender
  obtain ⟨q, hq, hqid, -⟩ := hsound.receiver
  obtain ⟨hp', hq'⟩ := Server.party_relaying (s := { s with sessions := t }) hsound.ne hp hq
  have hpr' : t.pairings id = some pr' := by rw [ht, Function.update_self]
  refine hs.of (fun hy => Server.Leaving.relaying (by exact hy) _ _) fun {y w} hw hst _ => ?_
  by_cases hys : y = pr.sender
  · subst hys
    cases hp'.symm.trans hw
    exact .inl ⟨pr', by rw [← hpr', ← hpid]; rfl, .inl hsender.symm⟩
  · by_cases hyr : y = pr.receiver
    · subst hyr
      cases hq'.symm.trans hw
      exact .inl ⟨pr', by rw [← hpr', ← hqid]; rfl, .inr hreceiver.symm⟩
    · rw [Server.party_relaying_other hys hyr] at hw
      refine .inr ⟨w, hw, hst, ?_⟩
      rintro ⟨pr₀, hpr₀, hy⟩
      have hid : w.pairingId ≠ id := by
        intro hid
        cases hpr.symm.trans (hid ▸ hpr₀)
        exact hy.elim hys hyr
      exact ⟨pr₀, by rw [← hpr₀]; exact (congrFun ht _).trans (Function.update_of_ne hid _ _), hy⟩

/-- The frame is not the `Reject` of a connection that is in a pairing but not a matched receiver. -/
def Server.Declines (s : Server) (c : ConnId) (f : Frame) : Prop :=
  f.header.type = .reject → ∀ p, s.party c = some p → p.pairingId = 0 ∨ p.state = .receiverMatched

/-- A matched connection that notes a pairing is its receiver. -/
theorem Pairing.Sound.receiver_of_matched (h : pr.Sound s id) (hnum : s.Numbers)
    (hp : s.party c = some p) (hid : p.pairingId = id) (hpr : s.sessions.pairings id = some pr)
    (hst : p.state = .receiverMatched) : c = pr.receiver := by
  refine (hnum.known c pr ?_).resolve_left ?_
  · rw [Server.pairingIdOf_party hp, hid, hpr]
  · rintro rfl
    obtain ⟨q, hq, -, hqst⟩ := h.sender
    cases hp.symm.trans hq
    rw [hst] at hqst
    split at hqst <;> cases hqst

theorem Connection.unpaired_disengaged (h : x.state = .receiverMatched) :
    ¬ x.unpaired.party.state.Engaged := by
  simp only [Connection.unpaired, Connection.party, h, if_true]
  decide

theorem Op.waiting (h : Op c f s s') (hs : s.Waiting) (hcons : s.Consistent) (hnum : s.Numbers)
    (hroom : f.header.type = .sendRequest → s.sessions.nextPairingCounter.toNat + 2 < 2 ^ 64)
    (hdecl : s.Declines c f) : s'.Waiting := by
  have hleaving : ∀ {y}, s.Leaving y → s'.Leaving y := fun hy => h.leaving hy
  cases h with
  | refused _ _ _ => exact hs.keeps hleaving ((Keeps.refl s).update c fun _ => rfl)
  | granted _ hfound _ claim =>
    have htable := SessionTable.claim_pairings claim
    refine hs.disengaged hleaving (c := c) (fun hp => ?_) (fun hy => Server.party_update_of_ne hy _)
      fun _ _ hpr _ => htable ▸ hpr
    obtain ⟨z, -, rfl⟩ := Server.party_update_some hp
    exact of_decide_eq_false rfl
  | welcomed _ hfound _ =>
    refine hs.disengaged hleaving (c := c) (fun hp => ?_) (fun hy => Server.party_update_of_ne hy _)
      fun _ _ hpr _ => hpr
    obtain ⟨z, -, rfl⟩ := Server.party_update_some hp
    exact of_decide_eq_false rfl
  | @paired x y r env htype hfound hidle hpeer haccepting =>
    have hne := ne_of_idle hfound hidle hpeer haccepting
    obtain ⟨hfree, -, hpairings, -⟩ := hnum.paired env (hroom htype) hfound hpeer
    refine hs.of hleaving fun {z w} hw hst _ => ?_
    by_cases hzc : z = c
    · subst hzc
      cases (Server.party_paired_self env hfound hne).symm.trans hw
      exact .inl ⟨_, by rw [hpairings]; exact Function.update_self .., .inl rfl⟩
    · by_cases hzr : z = r
      · subst hzr
        cases (Server.party_paired_peer env hpeer hne).symm.trans hw
        exact .inl ⟨_, by rw [hpairings]; exact Function.update_self .., .inr rfl⟩
      · rw [Server.party_paired_other env hzc hzr] at hw
        refine .inr ⟨w, hw, hst, ?_⟩
        rintro ⟨pr, hpr, hz⟩
        have hid : w.pairingId ≠ s.nextPairingId env c r := by
          intro hid
          cases hfree.symm.trans (hid ▸ hpr)
        exact ⟨pr, by rw [hpairings, Function.update_of_ne hid]; exact hpr, hz⟩
  | orphaned _ _ _ hpr hgone => cases (hcons _ _ hpr).sender.alive.symm.trans hgone
  | withdrawn htype hfound hzero _ =>
    have hstate := (hdecl htype _ (Server.party_of hfound)).resolve_left hzero
    refine hs.disengaged hleaving (c := c) (fun hp => ?_) (fun hy => Server.party_update_of_ne hy _)
      fun _ _ hpr _ => hpr
    obtain ⟨z, hz, rfl⟩ := Server.party_update_some hp
    cases hfound.symm.trans hz
    exact Connection.unpaired_disengaged hstate
  | @rejected x pr htype hfound hzero hpr told =>
    have hstate := (hdecl htype _ (Server.party_of hfound)).resolve_left hzero
    have hsound := hcons _ _ hpr
    refine hs.disengaged hleaving (c := c) (fun hp => ?_) (fun hy => Server.party_update_of_ne hy _)
      fun {y id pr'} hyc hstay hpr' hy => ?_
    · obtain ⟨z, hz, rfl⟩ := Server.party_update_some hp
      cases hfound.symm.trans hz
      exact Connection.unpaired_disengaged hstate
    · refine SessionTable.destroyPairing_eq_some.mpr ⟨?_, hpr'⟩
      rintro rfl
      cases hpr.symm.trans hpr'
      -- the other party is the sender, which is asked to leave
      have hys : y = pr.sender := by
        refine hy.resolve_right fun hyr => hyc (hyr.trans ?_)
        exact (hsound.receiver_of_matched hnum (Server.party_of hfound) rfl hpr hstate).symm
      exact hstay (hys ▸ told (hys ▸ hyc) hsound.sender.alive)
  | @asked x pr table _ _ _ hpr _ _ request =>
    obtain ⟨pr', htable, hsender, hreceiver, -⟩ := SessionTable.requestRelay_spec hpr request
    refine hs.of hleaving fun {y w} hw hst _ => .inr ⟨w, hw, hst, ?_⟩
    rintro ⟨pr₀, hpr₀, hy⟩
    by_cases hid : w.pairingId = x.pairingId
    · cases hpr.symm.trans (hid ▸ hpr₀)
      refine ⟨pr', ?_, by rwa [hsender, hreceiver]⟩
      rw [hid]
      exact (congrFun htable _).trans (Function.update_self ..)
    · exact ⟨pr₀, (congrFun htable _).trans ((Function.update_of_ne hid _ _).trans hpr₀), hy⟩
  | opened _ _ _ hpr _ _ request =>
    obtain ⟨pr', htable, hsender, hreceiver, -⟩ := SessionTable.requestRelay_spec hpr request
    refine (hs.relaying hcons hpr htable hsender hreceiver).keeps
      (fun hy => (hy.enqueued _ _).enqueued _ _) ?_
    exact ((Keeps.refl _).enqueued _ _).enqueued _ _
  | forwarded _ _ _ _ => exact hs.keeps hleaving ((Keeps.refl s).enqueued _ _)
  | recovered _ _ _ _ hpr hactive _ _ =>
    refine (hs.relaying (t := s.sessions) hcons hpr ?_ rfl rfl).keeps (fun hy => hy.enqueued _ _)
      ((Keeps.refl _).enqueued _ _)
    rw [← hpr, Function.update_eq_self]
  | queried _ => exact hs.keeps hleaving (((Keeps.refl s).pruned _).pruned _)
  | unlisted _ => exact hs.keeps hleaving ((Keeps.refl s).pruned _)
  | listed _ _ => exact hs.keeps hleaving (((Keeps.refl s).pruned _).enqueued _ _)
  | grouped _ _ _ _ =>
    exact hs.keeps hleaving ((Keeps.refl s).regrouped c _ _ fun _ _ => rfl)

/-- The events of an orderly run: no tick drops a pairing whose parties are open, a connection in a
pairing sends `Reject` only as a matched receiver, and the counter of pairing ids does not wrap
around. -/
def Server.Orderly (s : Server) : ServerEvent → Prop
  | .frame env c f => s.Roomy (.frame env c f) ∧ s.Declines c f
  | .expire env => ∀ id pr, s.sessions.pairings id = some pr → s.alive pr.sender = true →
      s.alive pr.receiver = true → (s.expire env).sessions.pairings id = some pr
  | _ => True

theorem Server.Orderly.roomy (h : s.Orderly e) : s.Roomy e := by
  cases e with
  | frame env c f => exact h.1
  | _ => trivial

theorem Server.Waiting.parted (hs : s.Waiting)
    (hnum : s.Numbers) (hfound : s.connections c = some x)
    (h : Parted c x freed s s') : s'.Waiting := by
  intro y p' hp' hst hstay
  have hyc : y ≠ c := by
    rintro rfl
    cases h.gone.symm.trans hp'
  rw [h.stay y hyc] at hp'
  obtain ⟨p, hp, hpp⟩ := Option.map_eq_some_iff.mp hp'
  have hfreed : freed ≠ some y := by
    intro hfreed
    rw [if_pos hfreed] at hpp
    subst hpp
    exact absurd hst (of_decide_eq_false rfl)
  rw [if_neg hfreed] at hpp
  subst hpp
  obtain ⟨pr, hpr, hy⟩ := hs y p hp hst fun hl => hstay (h.leaving y hyc hl)
  refine ⟨pr, ?_, hy⟩
  have hdeparted := SessionTable.pairings_eq (s.departed_pairingPart c x)
  rw [h.sessions]
  split
  · rw [hdeparted]
    exact hpr
  · rename_i hzero
    refine SessionTable.destroyPairing_eq_some.mpr ⟨fun hid => ?_, by rw [hdeparted]; exact hpr⟩
    -- the other end of the pairing of `c` is free again or asked to leave
    rw [hid] at hpr
    have hc : c = pr.sender ∨ c = pr.receiver := by
      refine hnum.known c pr ?_
      rw [Server.pairingIdOf_party (Server.party_of hfound)]
      exact hpr
    have hother : pr.other c = y := by
      unfold Pairing.other
      split
      · rename_i hcs
        exact (hy.resolve_left fun hys => hyc (hys.trans hcs)).symm
      · rename_i hcs
        refine (hy.resolve_right fun hyr => hyc (hyr.trans ?_)).symm
        exact (hc.resolve_left (Ne.symm hcs)).symm
    obtain hfree | hleave := h.told pr hzero hpr (by rw [hother]; exact hyc)
      (by rw [hother, Server.alive_iff_party, hp]; rfl)
    · exact hfreed (hother ▸ hfree)
    · exact hstay (hother ▸ hleave)

theorem Server.Waiting.step (hs : s.Waiting) (hinv : s.PairingInv) (hnum : s.Numbers)
    (hnext : s.next e = some s') (horderly : s.Orderly e) : s'.Waiting := by
  cases Server.next_happens hinv.tidy hnext with
  | refused hquiet => exact hs.keeps (fun hy => hquiet.leaving _ hy) hquiet.keeps
  | admitted hadmitted =>
    intro y p hp hst hstay
    by_cases hy : y = s.nextConnectionId
    · subst hy
      cases hadmitted.new.symm.trans hp
      exact absurd hst (of_decide_eq_false rfl)
    · rw [hadmitted.others y hy] at hp
      rw [Server.InPairing, hadmitted.sessions]
      exact hs y p hp hst fun hl => hstay (hadmitted.leaving y hy hl)
  | frame _ hdoes =>
    obtain ⟨a, b, ha, hab, hb⟩ := hdoes
    have hsa := hs.keeps (fun hy => ha.leaving _ hy) ha.keeps
    refine Server.Waiting.keeps ?_ (fun hy => hb.leaving _ hy) hb.keeps
    rcases hab with rfl | hop
    · exact hsa
    · refine hop.waiting hsa (hinv.consistent.keeps ha.keeps) (hnum.shrinks (Keeps.shrinks ha.keeps))
        ?_ fun htype p hp => ?_
      · rw [ha.sessions]
        exact horderly.1
      · rw [ha.parties] at hp
        exact horderly.2 htype p hp
  | closed hfound hparted => exact hs.parted hnum hfound hparted
  | expired =>
    intro y p hp hst hstay
    obtain ⟨pr, hpr, hy⟩ := hs y p hp hst hstay
    have hsound := hinv.consistent _ _ hpr
    exact ⟨pr, horderly _ pr hpr hsound.sender.alive hsound.receiver.alive, hy⟩

/-! ## Runs -/

def Server.OrderlyStep (s : Server) (e : ServerEvent) (s' : Server) : Prop := s.Step e s' ∧ s.Orderly e

/-- The pairing that `c` notes is in the table with `c` as one party, and its other party is open and
notes the same id. -/
def Server.HasPairing (s : Server) (c : ConnId) (p : Party) : Prop :=
  ∃ pr, s.sessions.pairings p.pairingId = some pr ∧ (c = pr.sender ∨ c = pr.receiver) ∧
    ∃ q, s.party (pr.other c) = some q ∧ q.pairingId = p.pairingId

theorem Server.Started.pairingInv (h : s.Started) : s.PairingInv := by
  refine ⟨h.tidy, ?_, ?_⟩
  · obtain ⟨options, rateLimiter, rfl⟩ := h
    exact nofun
  · obtain ⟨options, rateLimiter, rfl⟩ := h
    exact nofun

theorem Server.PairingInv.of_reach (h : Reach Server.Started Server.Step s) : s.PairingInv :=
  h.invariant (fun _ h => h.pairingInv) fun _ _ _ hi hs => hi.step hs

structure Server.OrderlyInv (s : Server) : Prop extends s.PairingInv where
  numbers : s.Numbers
  waiting : s.Waiting

theorem Server.OrderlyInv.of_reach (h : Reach Server.Started Server.OrderlyStep s) :
    s.OrderlyInv := by
  refine h.invariant (fun t ht => ?_) fun t e t' hi ht => ?_
  · refine ⟨ht.pairingInv, ?_, ?_⟩
    · obtain ⟨options, rateLimiter, rfl⟩ := ht
      exact .start rfl rfl
    · obtain ⟨options, rateLimiter, rfl⟩ := ht
      exact nofun
  · obtain ⟨hstep, horderly⟩ := ht
    exact ⟨hi.toPairingInv.step hstep, hi.numbers.step hi.toPairingInv hstep.1 horderly.roomy,
      hi.waiting.step hi.toPairingInv hi.numbers hstep.1 horderly⟩

theorem Server.Consistent.hasPairing (hs : s.Consistent) (h : s.InPairing c p) :
    s.HasPairing c p := by
  obtain ⟨pr, hpr, hc⟩ := h
  have hsound := hs _ pr hpr
  refine ⟨pr, hpr, hc, ?_⟩
  unfold Pairing.other
  split
  · obtain ⟨q, hq, hid, -⟩ := hsound.receiver
    exact ⟨q, hq, hid⟩
  · obtain ⟨q, hq, hid, -⟩ := hsound.sender
    exact ⟨q, hq, hid⟩

/-- **Pairing consistency.** In every run a connection whose pairing is in the table is engaged in it,
with the other party. In an orderly run a connection that is not asked to leave is engaged exactly if
its pairing is there. -/
theorem pairing_consistency (h : Reach Server.Started Server.Step s) {p : Party}
    (hp : s.party c = some p) :
    (s.InPairing c p → p.state.Engaged ∧ s.HasPairing c p) ∧
      (Reach Server.Started Server.OrderlyStep s → ¬ s.Leaving c →
        (p.state.Engaged ↔ s.HasPairing c p)) := by
  have hcons := (Server.PairingInv.of_reach h).consistent
  have hengaged : s.InPairing c p → p.state.Engaged := by
    rintro ⟨pr, hpr, hc⟩
    exact ((hcons _ pr hpr).engaged hc hp).2
  refine ⟨fun hin => ⟨hengaged hin, hcons.hasPairing hin⟩, fun hreach hstay => ⟨fun hst => ?_, ?_⟩⟩
  · exact hcons.hasPairing ((Server.OrderlyInv.of_reach hreach).waiting c p hp hst hstay)
  · rintro ⟨pr, hpr, hc, -⟩
    exact hengaged ⟨pr, hpr, hc⟩

/-- A connection is in one pairing at most, and never on both sides of it. -/
theorem pairings_disjoint (h : Reach Server.Started Server.Step s) {id' : UInt64} {pr' : Pairing}
    (hpr : s.sessions.pairings id = some pr) (hpr' : s.sessions.pairings id' = some pr')
    (hc : c = pr.sender ∨ c = pr.receiver) (hc' : c = pr'.sender ∨ c = pr'.receiver) :
    id = id' ∧ pr.sender ≠ pr.receiver ∧ ∃ p, s.party c = some p ∧ p.pairingId = id := by
  have hcons := (Server.PairingInv.of_reach h).consistent
  -- the connection notes the number of every pairing that names it
  have hnotes : ∀ {i : UInt64} {q : Pairing}, s.sessions.pairings i = some q →
      c = q.sender ∨ c = q.receiver → ∃ p, s.party c = some p ∧ p.pairingId = i := by
    rintro i q hq (rfl | rfl)
    · obtain ⟨p, hp, hid, -⟩ := (hcons i q hq).sender
      exact ⟨p, hp, hid⟩
    · obtain ⟨p, hp, hid, -⟩ := (hcons i q hq).receiver
      exact ⟨p, hp, hid⟩
  obtain ⟨p, hp, hid⟩ := hnotes hpr hc
  obtain ⟨p', hp', hid'⟩ := hnotes hpr' hc'
  cases hp.symm.trans hp'
  exact ⟨hid.symm.trans hid', (hcons id pr hpr).ne, p, hp, hid⟩

end Consistent

/-! ## A pair -/

def pairedUp : List ServerEvent :=
  let env : Env := { nowMs := 0 }
  [.connect env (.inet 4000 privateAddress), .connect env (.inet 4001 privateAddress),
    .frame env 1 (Frame.of .clientHello (plainHello .receiver (text "r")).encode),
    .frame env 2 (Frame.of .clientHello (plainHello .sender (text "a")).encode),
    .frame env 2 (Frame.of .sendRequest requestForR.encode)]

/-- A check that implies `Returns` and `Orderly`. -/
def Server.orderlyNow (s : Server) : ServerEvent → Bool
  | .frame _ _ f => f.header.type != .reject && (s.sessions.pairings 9).isNone &&
      decide (s.sessions.nextPairingCounter.toNat + 2 < 2 ^ 64)
  | .expire _ => false
  | _ => true

theorem Server.orderlyStep_of_orderlyNow {s s' : Server}
    (h : s.next e = some s' ∧ s.orderlyNow e = true) : s.OrderlyStep e s' := by
  obtain ⟨hnext, hnow⟩ := h
  refine ⟨⟨hnext, ?_⟩, ?_⟩
  · cases e with
    | frame env c f =>
      simp only [orderlyNow, Bool.and_eq_true, Option.isNone_iff_eq_none] at hnow
      exact fun _ => ⟨9, by decide, hnow.1.2⟩
    | _ => trivial
  · cases e with
    | frame env c f =>
      simp only [orderlyNow, Bool.and_eq_true, decide_eq_true_eq, bne_iff_ne] at hnow
      exact ⟨fun _ => hnow.2, fun htype => absurd htype hnow.1.1⟩
    | expire env => cases hnow
    | _ => trivial

def pairedUpState : Option Server :=
  runFrom (fun s e => if s.orderlyNow e then s.next e else none) Server.start pairedUp

theorem pairedUpState_reach {s : Server} (h : pairedUpState = some s) :
    Reach Server.Started Server.OrderlyStep s :=
  (Reach.of_guarded Server.start_started h).mono fun _ _ _ => Server.orderlyStep_of_orderlyNow

/-- A connection's state, whether it is asked to leave and whether its pairing is there. -/
def Server.standing (s : Server) (c : ConnId) : Option (ConnectionState × Bool × Bool) :=
  (s.connections c).map fun x =>
    (x.state, x.closeRequested, (s.sessions.pairings x.pairingId).isSome)

theorem Server.standing_spec {s : Server} {c : ConnId} {leaving there : Bool}
    (h : s.standing c = some (st, leaving, there)) :
    ∃ p, s.party c = some p ∧ p.state = st ∧ (s.Leaving c ↔ leaving = true) ∧
      (there = false → ¬ s.HasPairing c p) := by
  obtain ⟨x, hx, hst⟩ := Option.map_eq_some_iff.mp h
  obtain ⟨rfl, rfl, rfl⟩ := hst
  refine ⟨x.party, Server.party_of hx, rfl, ⟨?_, fun hl => ⟨x, hx, hl⟩⟩, ?_⟩
  · rintro ⟨y, hy, hl⟩
    cases hx.symm.trans hy
    exact hl
  · rintro hnone ⟨pr, hpr, -⟩
    change s.sessions.pairings x.pairingId = some pr at hpr
    rw [hpr] at hnone
    cases hnone

theorem pairedUp_standing : pairedUpState.bind (·.standing 2) = some (.senderWaiting, false, true) := by
  decide +kernel

theorem pairing_consistency_pair : ∃ (s : Server) (p : Party), s.party 2 = some p ∧ p.state = .senderWaiting ∧
    (p.state.Engaged ↔ s.HasPairing 2 p) := by
  obtain ⟨s, hs, hstanding⟩ := Option.bind_eq_some_iff.mp pairedUp_standing
  obtain ⟨p, hp, hst, hleaving, -⟩ := Server.standing_spec hstanding
  have hreach := pairedUpState_reach hs
  exact ⟨s, p, hp, hst, (pairing_consistency (hreach.mono fun _ _ _ h => h.1) hp).2 hreach
    (fun h => nomatch hleaving.mp h)⟩

theorem pairings_disjoint_pair : ∃ (s : Server) (p : Party) (pr : Pairing), s.party 2 = some p ∧
    s.sessions.pairings p.pairingId = some pr ∧ pr.sender ≠ pr.receiver := by
  obtain ⟨s, hs, hstanding⟩ := Option.bind_eq_some_iff.mp pairedUp_standing
  obtain ⟨p, hp, hst, hleaving, -⟩ := Server.standing_spec hstanding
  have hreach := pairedUpState_reach hs
  obtain ⟨pr, hpr, hc⟩ := (Server.OrderlyInv.of_reach hreach).waiting 2 p hp (by rw [hst]; decide)
    fun h => nomatch hleaving.mp h
  exact ⟨s, p, pr, hp, hpr, (pairings_disjoint (hreach.mono fun _ _ _ h => h.1) hpr hpr hc hc).2.1⟩

theorem pairedUp_next (e : ServerEvent) (c : ConnId) (st : ConnectionState) (leaving : Bool)
    (hreturns : ∀ s : Server, s.Returns e)
    (h : (pairedUpState.bind (·.next e)).bind (·.standing c) = some (st, leaving, false)) :
    ∃ s p, Reach Server.Started Server.Step s ∧ s.party c = some p ∧ p.state = st ∧
      (s.Leaving c ↔ leaving = true) ∧ ¬ s.HasPairing c p := by
  obtain ⟨s', hs', hstanding⟩ := Option.bind_eq_some_iff.mp h
  obtain ⟨s, hs, hnext⟩ := Option.bind_eq_some_iff.mp hs'
  obtain ⟨p, hp, hst, hleaving, hnot⟩ := Server.standing_spec hstanding
  exact ⟨s', p, .step (e := e) ((pairedUpState_reach hs).mono fun _ _ _ h => h.1)
    ⟨hnext, hreturns s⟩, hp, hst, hleaving, hnot rfl⟩

/-- **Engaged without a pairing.** A declined sender waits to be closed; a pairing that is two minutes
old is dropped though both parties are there; a sender's own `Reject` drops it too. -/
theorem pairing_inconsistent :
    (∃ s p, Reach Server.Started Server.Step s ∧ s.party 2 = some p ∧ p.state = .senderWaiting ∧
      s.Leaving 2 ∧ ¬ s.HasPairing 2 p) ∧
    (∃ s p, Reach Server.Started Server.Step s ∧ s.party 1 = some p ∧ p.state = .receiverMatched ∧
      ¬ s.Leaving 1 ∧ ¬ s.HasPairing 1 p) ∧
    (∃ s p, Reach Server.Started Server.Step s ∧ s.party 1 = some p ∧ p.state = .receiverMatched ∧
      ¬ s.Leaving 1 ∧ ¬ s.HasPairing 1 p) := by
  obtain ⟨s, p, hs, hp, hst, hl, hnot⟩ :=
    pairedUp_next (.frame { nowMs := 0 } 1 (Frame.of .reject [])) 2 .senderWaiting true
      (fun _ => nofun) (by decide +kernel)
  refine ⟨⟨s, p, hs, hp, hst, hl.mpr rfl, hnot⟩, ?_, ?_⟩
  · obtain ⟨s, p, hs, hp, hst, hl, hnot⟩ :=
      pairedUp_next (.expire { nowMs := 120001 }) 1 .receiverMatched false
        (fun _ => trivial) (by decide +kernel)
    exact ⟨s, p, hs, hp, hst, (fun h => nomatch hl.mp h), hnot⟩
  · obtain ⟨s, p, hs, hp, hst, hl, hnot⟩ :=
      pairedUp_next (.frame { nowMs := 0 } 2 (Frame.of .reject [])) 1 .receiverMatched false
        (fun _ => nofun) (by decide +kernel)
    exact ⟨s, p, hs, hp, hst, (fun h => nomatch hl.mp h), hnot⟩

end DropZone
