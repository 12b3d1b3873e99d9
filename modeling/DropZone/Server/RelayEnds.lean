import DropZone.Server.Queues
import DropZone.Server.Pairings

/-!
# The two ends of a relay

`relay_peer_` is set on both ends of a pairing when its relay opens, and never cleared.

* `Server.Mutual`: the two ends of a relay point at each other as long as both are open.
* `Server.RelayInv`: what every run keeps of pairings and relays.
-/

namespace DropZone

open LittleEndian StateSpec System

namespace Server

theorem relayPeerId_eq (s : Server) (c : ConnId) : s.relayPeerId c = (s.party c).bind (·.relayPeer) := by
  rw [relayPeerId, party, Option.bind_map]
  rfl

theorem relayPeerId_of {s : Server} {c : ConnId} {x : Connection} (h : s.connections c = some x) :
    s.relayPeerId c = x.relayPeer := by
  rw [relayPeerId, h]
  rfl

/-- The ends of a relay point at each other. -/
structure Mutual (s : Server) : Prop where
  relaying : s.Each fun _ p => p.relayPeer ≠ none → p.state = .relaying
  active : ∀ {id pr}, s.sessions.pairings id = some pr → pr.relayActive = true →
    s.relayPeerId pr.sender = some pr.receiver ∧ s.relayPeerId pr.receiver = some pr.sender
  known : ∀ {a b}, s.relayPeerId a = some b → b < s.nextConnectionId
  back : ∀ {a b}, s.relayPeerId a = some b → s.alive b = true → s.relayPeerId b = some a

end Server

section Mutual

variable {s s' : Server} {c : ConnId} {f : Frame} {id : UInt64} {pr : Pairing}

theorem Server.Mutual.peer_eq_none (hs : s.Mutual) {p : Party} (hp : s.party c = some p)
    (hst : p.state ≠ .relaying) : s.relayPeerId c = none := by
  rw [Server.relayPeerId_eq, hp]
  by_contra hne
  exact hst (hs.relaying c p hp hne)

/-- No pointer changes and no relay becomes active. -/
theorem Server.Mutual.same (hs : s.Mutual) (hpeers : ∀ y, s'.relayPeerId y = s.relayPeerId y)
    (halive : ∀ y, s'.alive y = true → s.alive y = true)
    (hnext : s'.nextConnectionId = s.nextConnectionId)
    (hstates : s'.Each fun _ p => p.relayPeer ≠ none → p.state = .relaying)
    (hactive : ∀ {id pr}, s'.sessions.pairings id = some pr → pr.relayActive = true →
      ∃ pr₀, s.sessions.pairings id = some pr₀ ∧ pr₀.relayActive = true ∧ pr₀.parties = pr.parties) :
    s'.Mutual where
  relaying := hstates
  active {id pr} hpr ha := by
    obtain ⟨pr₀, hpr₀, ha₀, hparties⟩ := hactive hpr ha
    have hboth := hs.active hpr₀ ha₀
    rw [show pr₀.sender = pr.sender from congrArg Prod.fst hparties,
      show pr₀.receiver = pr.receiver from congrArg Prod.snd hparties] at hboth
    rw [hpeers, hpeers]
    exact hboth
  known {a b} h := by
    rw [hnext]
    rw [hpeers] at h
    exact hs.known h
  back {a b} h hb := by
    rw [hpeers] at h ⊢
    exact hs.back h (halive b hb)

theorem Keeps.alive {α β : Type} {π : Party → α} {τ : SessionTable → β} (h : Keeps π τ s s') (y : ConnId) :
    s'.alive y = s.alive y := by
  have hproj := congrArg Option.isSome (h.1 y)
  simpa [Server.proj, Server.party, Server.alive] using hproj

theorem Keeps.relayPeerId {β : Type} {τ : SessionTable → β} (h : Keeps Party.relayPeer τ s s') (y : ConnId) :
    s'.relayPeerId y = s.relayPeerId y := by
  have hproj := h.1 y
  rw [Server.relayPeerId_eq, Server.relayPeerId_eq]
  unfold Server.proj at hproj
  cases hp : s.party y with
  | none =>
    rw [hp, Option.map_none, Option.map_eq_none_iff] at hproj
    rw [hproj]
  | some p =>
    rw [hp, Option.map_some, Option.map_eq_some_iff] at hproj
    obtain ⟨q, hq, hpeer⟩ := hproj
    rw [hq]
    exact hpeer

/-- Nothing changes but what relays do not depend on. -/
theorem Server.Mutual.keeps (hs : s.Mutual)
    (h : Keeps (fun p => (p.state, p.relayPeer)) SessionTable.pairingPart s s')
    (hnext : s'.nextConnectionId = s.nextConnectionId) : s'.Mutual := by
  have hpeers : Keeps Party.relayPeer SessionTable.pairingPart s s' := by
    refine ⟨fun y => ?_, h.2⟩
    have hproj := congrArg (Option.map Prod.snd) (h.1 y)
    simpa [Server.proj, Option.map_map, Function.comp_def] using hproj
  refine hs.same hpeers.relayPeerId (fun y hy => h.alive y ▸ hy) hnext (fun y q hq hne => ?_)
    fun {id pr} hpr ha => ⟨pr, SessionTable.pairings_eq h.2 ▸ hpr, ha, rfl⟩
  have hproj := h.1 y
  rw [Server.proj, hq] at hproj
  obtain ⟨p, hp, hpq⟩ := Option.map_eq_some_iff.mp hproj.symm
  rw [Prod.mk.injEq] at hpq
  rw [← hpq.1]
  exact hs.relaying y p hp (hpq.2 ▸ hne)

theorem Server.Mutual.outsider {f : Connection → Connection} (hs : s.Mutual) {p : Party}
    (hp : s.party c = some p) (hst : p.state ≠ .relaying) (hf : ∀ x, (f x).relayPeer = x.relayPeer)
    {t : SessionTable} (hsub : ∀ {id pr}, t.pairings id = some pr → s.sessions.pairings id = some pr) :
    ({ s with sessions := t }.update c f).Mutual := by
  have hpeers : Keeps Party.relayPeer (fun _ => ()) s ({ s with sessions := t }.update c f) :=
    ((Keeps.refl s).sessions (t := t) rfl).update c hf
  have hnone := hs.peer_eq_none hp hst
  refine hs.same hpeers.relayPeerId (fun y hy => hpeers.alive y ▸ hy) rfl (fun y q hq hne => ?_)
    fun {id pr} hpr ha => ⟨pr, hsub hpr, ha, rfl⟩
  by_cases hy : y = c
  · subst hy
    have hpeer := hpeers.relayPeerId y
    rw [hnone, Server.relayPeerId_eq, hq] at hpeer
    exact absurd hpeer hne
  · rw [Server.party_update_of_ne hy] at hq
    exact hs.relaying y q hq hne

/-- A relay opens between the parties of a pairing, whose entry may change but for its parties. -/
theorem Server.Mutual.opened {t : SessionTable} {pr' : Pairing} (hs : s.Mutual) (htidy : s.Tidy)
    (hcons : s.Consistent) (hpr : s.sessions.pairings id = some pr) (hidle : pr.relayActive = false)
    (ht : t.pairings = Function.update s.sessions.pairings id (some pr'))
    (hparties : pr'.parties = pr.parties) :
    ({ s with sessions := t }.relaying pr.sender pr.receiver).Mutual := by
  have hsound := hcons id pr hpr
  obtain ⟨p, hp, hpid, hpst⟩ := hsound.sender
  obtain ⟨q, hq, hqid, hqst⟩ := hsound.receiver
  rw [hidle, if_neg (by decide)] at hpst hqst
  obtain ⟨hp', hq'⟩ := Server.party_relaying (s := { s with sessions := t }) hsound.ne hp hq
  have hother : ∀ {y}, y ≠ pr.sender → y ≠ pr.receiver →
      ({ s with sessions := t }.relaying pr.sender pr.receiver).party y = s.party y :=
    fun h h' => Server.party_relaying_other h h'
  -- before, neither end had a peer, so nobody pointed at them
  have hnoneS := hs.peer_eq_none hp (by rw [hpst]; decide)
  have hnoneR := hs.peer_eq_none hq (by rw [hqst]; decide)
  have hsender : ({ s with sessions := t }.relaying pr.sender pr.receiver).relayPeerId pr.sender =
      some pr.receiver := by
    rw [Server.relayPeerId_eq, hp']
    rfl
  have hreceiver : ({ s with sessions := t }.relaying pr.sender pr.receiver).relayPeerId pr.receiver =
      some pr.sender := by
    rw [Server.relayPeerId_eq, hq']
    rfl
  have hpeers : ∀ {y}, y ≠ pr.sender → y ≠ pr.receiver →
      ({ s with sessions := t }.relaying pr.sender pr.receiver).relayPeerId y = s.relayPeerId y := by
    intro y h h'
    rw [Server.relayPeerId_eq, hother h h', Server.relayPeerId_eq]
  have hends : ∀ y, y = pr.sender ∨ y = pr.receiver ∨ (y ≠ pr.sender ∧ y ≠ pr.receiver) := by
    intro y
    by_cases h : y = pr.sender
    · exact .inl h
    · by_cases h' : y = pr.receiver
      · exact .inr (.inl h')
      · exact .inr (.inr ⟨h, h'⟩)
  refine ⟨fun y w hw hne => ?_, fun {id' pr''} hpr'' ha => ?_, fun {a b} hab => ?_,
    fun {a b} hab hb => ?_⟩
  · rcases hends y with rfl | rfl | ⟨hy, hy'⟩
    · cases hp'.symm.trans hw
      rfl
    · cases hq'.symm.trans hw
      rfl
    · rw [hother hy hy'] at hw
      exact hs.relaying y w hw hne
  · obtain ⟨rfl, rfl⟩ | ⟨hid, hpr''⟩ := SessionTable.pairings_update_cases ht hpr''
    · rw [show pr''.sender = pr.sender from congrArg Prod.fst hparties,
        show pr''.receiver = pr.receiver from congrArg Prod.snd hparties]
      exact ⟨hsender, hreceiver⟩
    · have hsound' := hcons id' pr'' hpr''
      have hneS := hsound'.ne_of_id_ne hp (by rw [hpid]; exact Ne.symm hid)
      have hneR := hsound'.ne_of_id_ne hq (by rw [hqid]; exact Ne.symm hid)
      rw [hpeers hneS.1.symm hneR.1.symm, hpeers hneS.2.symm hneR.2.symm]
      exact hs.active hpr'' ha
  · rcases hends a with rfl | rfl | ⟨ha, ha'⟩
    · cases hsender.symm.trans hab
      exact (htidy _ q hq).1
    · cases hreceiver.symm.trans hab
      exact (htidy _ p hp).1
    · rw [hpeers ha ha'] at hab
      exact hs.known hab
  · rcases hends a with rfl | rfl | ⟨ha, ha'⟩
    · cases hsender.symm.trans hab
      exact hreceiver
    · cases hreceiver.symm.trans hab
      exact hsender
    · rw [hpeers ha ha'] at hab
      have halive : s.alive b = true := by
        rcases hends b with rfl | rfl | ⟨hb₁, hb₂⟩
        · exact hsound.sender.alive
        · exact hsound.receiver.alive
        · rw [Server.alive_iff_party, hother hb₁ hb₂] at hb
          rwa [Server.alive_iff_party]
      have hback := hs.back hab halive
      have hb₁ : b ≠ pr.sender := by
        rintro rfl
        cases hnoneS.symm.trans hback
      have hb₂ : b ≠ pr.receiver := by
        rintro rfl
        cases hnoneR.symm.trans hback
      rwa [hpeers hb₁ hb₂]

theorem Server.Mutual.relaying_keeps (hs : s.Mutual) (hcons : s.Consistent)
    (hpr : s.sessions.pairings id = some pr) (hactive : pr.relayActive = true) :
    Keeps (fun p => (p.state, p.relayPeer)) SessionTable.pairingPart s
      (s.relaying pr.sender pr.receiver) := by
  have hsound := hcons id pr hpr
  obtain ⟨p, hp, -, hpst⟩ := hsound.sender
  obtain ⟨q, hq, -, hqst⟩ := hsound.receiver
  rw [hactive, if_pos rfl] at hpst hqst
  obtain ⟨hp', hq'⟩ := Server.party_relaying hsound.ne hp hq
  obtain ⟨hpeer, hpeer'⟩ := hs.active hpr hactive
  rw [Server.relayPeerId_eq, hp] at hpeer
  rw [Server.relayPeerId_eq, hq] at hpeer'
  have hpeer : p.relayPeer = some pr.receiver := hpeer
  have hpeer' : q.relayPeer = some pr.sender := hpeer'
  refine ⟨fun y => ?_, rfl⟩
  unfold Server.proj
  by_cases hy : y = pr.sender
  · subst hy
    rw [hp', hp]
    simp [hpeer, hpst]
  · by_cases hy' : y = pr.receiver
    · subst hy'
      rw [hq', hq]
      simp [hpeer', hqst]
    · rw [Server.party_relaying_other hy hy']

theorem Op.mutual (h : Op c f s s') (hs : s.Mutual) (htidy : s.Tidy) (hshy : s.Shy)
    (hcons : s.Consistent) : s'.Mutual := by
  have hfresh : ∀ {x : Connection}, s.connections c = some x → x.helloReceived = false →
      x.party.state ≠ .relaying := by
    intro x hfound hnew hst
    cases (hshy c _ (Server.party_of hfound) hnew).symm.trans hst
  have hunpaired : ∀ {t : SessionTable},
      (∀ {id pr}, t.pairings id = some pr → s.sessions.pairings id = some pr) →
      ({ s with sessions := t }.update c Connection.unpaired).Mutual := by
    intro t hsub
    have hpeers : Keeps Party.relayPeer (fun _ => ()) s
        ({ s with sessions := t }.update c Connection.unpaired) :=
      ((Keeps.refl s).sessions (t := t) rfl).update c fun _ => rfl
    refine hs.same hpeers.relayPeerId (fun y hy => hpeers.alive y ▸ hy) rfl ?_
      fun {id pr} hpr ha => ⟨pr, hsub hpr, ha, rfl⟩
    refine Server.Each.update (s := { s with sessions := t }) (by exact hs.relaying) c fun x _ hx hne => ?_
    have hst : x.state = .relaying := hx hne
    rw [Connection.unpaired, Connection.party, if_neg (by rw [hst]; decide)]
    exact hst
  cases h with
  | refused _ _ _ => exact hs.keeps ((Keeps.refl s).update c fun _ => rfl) rfl
  | @granted x hello table _ hfound hnew claim =>
    refine hs.outsider (t := table) (Server.party_of hfound) (hfresh hfound hnew) ?_
      fun hpr => SessionTable.claim_pairings claim ▸ hpr
    exact fun _ => rfl
  | welcomed _ hfound hnew =>
    refine hs.outsider (t := s.sessions) (Server.party_of hfound) (hfresh hfound hnew) ?_ id
    exact fun _ => rfl
  | @paired x y r env _ hfound hidle hpeer haccepting =>
    have hpeers : Keeps Party.relayPeer (fun _ => ()) s (s.paired env c r) := by
      have htable : Keeps Party.relayPeer (fun _ => ()) s
          { s with sessions := (s.sessions.createPairing env.random env.nowMs c r).2 } :=
        (Keeps.refl s).sessions rfl
      refine (htable.update c ?_).update r ?_
      · exact fun _ => rfl
      · exact fun _ => rfl
    have hnone : x.relayPeer = none := by
      rw [← Server.relayPeerId_of hfound]
      exact hs.peer_eq_none (Server.party_of hfound) (by rw [show Party.state _ = _ from hidle]; decide)
    have hnone' : y.relayPeer = none := by
      rw [← Server.relayPeerId_of hpeer]
      exact hs.peer_eq_none (Server.party_of hpeer)
        (by rw [show Party.state _ = _ from haccepting]; decide)
    refine hs.same hpeers.relayPeerId (fun y hy => hpeers.alive y ▸ hy) rfl ?_ fun {id pr} hpr ha => ?_
    · exact hs.relaying.paired env hfound hpeer (ne_of_idle hfound hidle hpeer haccepting)
        (fun hne => absurd hnone hne) fun hne => absurd hnone' hne
    · change Function.update s.sessions.pairings (s.nextPairingId env c r)
        (some ⟨s.nextPairingId env c r, c, r, false, false, false, env.nowMs⟩) id = some pr at hpr
      by_cases hid : id = s.nextPairingId env c r
      · subst hid
        cases (Function.update_self ..).symm.trans hpr
        cases ha
      · rw [Function.update_of_ne hid] at hpr
        exact ⟨pr, hpr, ha, rfl⟩
  | orphaned _ hfound hstate _ _ =>
    refine hs.outsider (t := s.sessions) (Server.party_of hfound)
      (by rw [show Party.state _ = _ from hstate]; decide) ?_ id
    exact fun _ => rfl
  | withdrawn _ _ _ _ => exact hunpaired (t := s.sessions) id
  | rejected _ _ _ _ _ => exact hunpaired fun hpr => (SessionTable.destroyPairing_eq_some.mp hpr).2
  | @asked x pr _ _ _ _ hpr _ _ request =>
    obtain ⟨pr', htable, hsender, hreceiver, hsame, -⟩ := SessionTable.requestRelay_spec hpr request
    refine hs.same (fun _ => rfl) (fun _ => id) rfl hs.relaying fun {id' pr''} hpr'' ha => ?_
    obtain ⟨rfl, rfl⟩ | ⟨-, hpr''⟩ := SessionTable.pairings_update_cases htable hpr''
    · exact ⟨pr, hpr, hsame rfl ▸ ha, by rw [Pairing.parties, Pairing.parties, hsender, hreceiver]⟩
    · exact ⟨pr'', hpr'', ha, rfl⟩
  | opened _ _ _ hpr _ _ request =>
    obtain ⟨pr', htable, hsender, hreceiver, -, hidle⟩ := SessionTable.requestRelay_spec hpr request
    refine Server.Mutual.keeps (hs.opened htidy hcons hpr (hidle rfl).1 htable ?_)
      (((Keeps.refl _).enqueued _ _).enqueued _ _) rfl
    rw [Pairing.parties, Pairing.parties, hsender, hreceiver]
  | forwarded _ _ _ _ => exact hs.keeps ((Keeps.refl s).enqueued _ _) rfl
  | recovered _ _ _ _ hpr hactive _ _ =>
    exact hs.keeps ((hs.relaying_keeps hcons hpr hactive).enqueued _ _) rfl
  | queried _ => exact hs.keeps (((Keeps.refl s).pruned _).pruned _) rfl
  | unlisted _ => exact hs.keeps ((Keeps.refl s).pruned _) rfl
  | listed _ _ => exact hs.keeps (((Keeps.refl s).pruned _).enqueued _ _) rfl
  | grouped _ _ _ _ =>
    refine hs.keeps ((Keeps.refl s).regrouped c _ _ fun _ _ => rfl) ?_
    unfold Server.leftOther
    split <;> rfl

theorem Parted.mutual {x : Connection} {freed : Option ConnId} (h : Parted c x freed s s')
    (hs : s.Mutual) (hcons : s.Consistent) (hfound : s.connections c = some x) : s'.Mutual := by
  have hgone : s'.relayPeerId c = none := by
    rw [Server.relayPeerId_eq, h.gone]
    rfl
  have hpeers : ∀ {y}, y ≠ c → s'.relayPeerId y = s.relayPeerId y := by
    intro y hy
    rw [Server.relayPeerId_eq, Server.relayPeerId_eq, h.stay y hy]
    cases s.party y with
    | none => rfl
    | some p =>
      dsimp only [Option.map_some, Option.bind_some]
      split <;> rfl
  have hne : ∀ {a b}, s'.relayPeerId a = some b → a ≠ c := by
    rintro a b hab rfl
    cases hgone.symm.trans hab
  refine ⟨hs.relaying.parted h fun y p hfreed hp hst hpeer => ?_, fun {id pr} hpr ha => ?_,
    fun {a b} hab => ?_, fun {a b} hab hb => ?_⟩
  · cases (h.freed_state hfreed hp).symm.trans (hst hpeer)
  · obtain ⟨hpr, hid⟩ := h.pairings hcons hpr
    obtain ⟨hne₁, hne₂⟩ := (hcons id pr hpr).ne_of_id_ne (Server.party_of hfound) hid
    rw [hpeers hne₁.symm, hpeers hne₂.symm]
    exact hs.active hpr ha
  · rw [h.nextId]
    rw [hpeers (hne hab)] at hab
    exact hs.known hab
  · have hbc : b ≠ c := by
      rintro rfl
      rw [Server.alive_iff_party, h.gone] at hb
      cases hb
    have hb' : s.alive b = true := by
      rw [Server.alive_iff_party, h.stay b hbc, Option.isSome_map] at hb
      rwa [Server.alive_iff_party]
    rw [hpeers (hne hab)] at hab
    rw [hpeers hbc]
    exact hs.back hab hb'

theorem Server.Mutual.admitted (hs : s.Mutual) (htidy : s.Tidy) (h : Admitted s s') : s'.Mutual := by
  have hfresh : s.party s.nextConnectionId = none := by
    by_contra hne
    obtain ⟨p, hp⟩ := Option.ne_none_iff_exists'.mp hne
    exact Nat.lt_irrefl _ (htidy _ p hp).1
  have hpeers : ∀ y, s'.relayPeerId y = s.relayPeerId y := by
    intro y
    rw [Server.relayPeerId_eq, Server.relayPeerId_eq]
    by_cases hy : y = s.nextConnectionId
    · subst hy
      rw [h.new, hfresh]
      rfl
    · rw [h.others y hy]
  refine ⟨hs.relaying.admitted h fun hne => absurd rfl hne, fun hpr ha => ?_, fun {a b} hab => ?_,
    fun {a b} hab hb => ?_⟩
  · rw [hpeers, hpeers]
    exact hs.active (h.sessions ▸ hpr) ha
  · rw [hpeers] at hab
    rw [h.nextId]
    exact Nat.lt_succ_of_lt (hs.known hab)
  · rw [hpeers] at hab ⊢
    refine hs.back hab ?_
    rw [Server.alive_iff_party, h.others b (hs.known hab).ne] at hb
    rwa [Server.alive_iff_party]

structure Server.RelayInv (s : Server) : Prop extends s.PairingInv where
  mutually : s.Mutual

theorem Server.RelayInv.quiet (hs : s.RelayInv) (h : Quiet s s') : s'.RelayInv :=
  ⟨⟨hs.tidy.quiet h, hs.shy.quiet h, hs.consistent.keeps h.keeps⟩, hs.mutually.keeps h.keeps h.nextId⟩

theorem Server.RelayInv.step {e : ServerEvent} (hs : s.RelayInv) (h : s.Step e s') : s'.RelayInv := by
  refine ⟨hs.toPairingInv.step h, ?_⟩
  cases Server.next_happens hs.tidy h.1 with
  | refused hquiet => exact (hs.quiet hquiet).mutually
  | admitted hadmitted => exact hs.mutually.admitted hs.tidy hadmitted
  | frame _ hdoes =>
    obtain ⟨a, b, ha, hab, hb⟩ := hdoes
    have hsa := hs.quiet ha
    rcases hab with rfl | hop
    · exact (hsa.quiet hb).mutually
    · exact (hop.mutual hsa.mutually hsa.tidy hsa.shy hsa.consistent).keeps hb.keeps hb.nextId
  | closed hfound hparted => exact hparted.mutual hs.mutually hs.consistent hfound
  | expired =>
    exact hs.mutually.same (fun _ => rfl) (fun _ => id) rfl hs.mutually.relaying fun hpr ha =>
      ⟨_, (SessionTable.expirePairings_some hpr).1, ha, rfl⟩

end Mutual

theorem Server.RelayInv.amounts {s s' : Server} (hs : s.RelayInv) (h : s.Amounts s') :
    s'.RelayInv := by
  obtain ⟨a, b, ha, rfl | ⟨e, hstep⟩, hb⟩ := h
  · exact (hs.quiet ha).quiet hb
  · exact ((hs.quiet ha).step hstep).quiet hb

theorem Server.Started.relayInv {s : Server} (hs : s.Started) : s.RelayInv := by
  have hinv := hs.pairingInv
  obtain ⟨options, rateLimiter, rfl⟩ := hs
  refine ⟨hinv, fun c p hp => ?_, fun hpr => ?_, fun h => ?_, fun h => ?_⟩
  · cases hp
  · cases hpr
  · cases h
  · cases h

end DropZone
