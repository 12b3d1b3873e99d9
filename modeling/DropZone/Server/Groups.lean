import DropZone.Server.Runs

/-!
# Groups

A group's members are listed in the session table, and each connection notes the group it joined.

* `Grouped es s`: after the events `es`, the two agree, every member presented the group's verifier
  and no group is too large.
* `Grouped.step`: every event keeps that.
* `group_membership`: it holds in every run, a verifier stays while a member stays, a group that has
  nobody left is made afresh, and every roster that was sent can be decoded.
* `refused_join_keeps`: a join that is refused changes nothing for a receiver that had nothing to leave.
  `refused_join_leaves`: a receiver that is in another group loses it.
-/

namespace DropZone

open LittleEndian StateSpec System

def ServerEvent.Joins (c : ConnId) (join : GroupJoin) (e : ServerEvent) : Prop :=
  ∃ env f, e = .frame env c f ∧ f.header.type = .groupJoin ∧ GroupJoin.decode f.payload = .ok join

/-- The group that an open connection notes. -/
def Server.joinedOf (s : Server) : ConnId → Option Bytes := s.proj Party.joinedGroup

/-- Groups and connections agree after the events `es`. -/
structure Grouped (es : List ServerEvent) (s : Server) : Prop where
  member : ∀ {g G c}, s.sessions.groups g = some G → c ∈ G.members → s.joinedOf c = some g
  joined : ∀ {c g}, s.joinedOf c = some g → g ≠ [] → ∃ G, s.sessions.groups g = some G ∧ c ∈ G.members
  named : ∀ {g G}, s.sessions.groups g = some G → g ≠ []
  nonempty : ∀ {g G}, s.sessions.groups g = some G → G.members ≠ []
  nodup : ∀ {g G}, s.sessions.groups g = some G → G.members.Nodup
  small : ∀ {g G}, s.sessions.groups g = some G → G.members.length ≤ kMaxGroupMembers
  presented : ∀ {g G c}, s.sessions.groups g = some G → c ∈ G.members →
    ∃ e ∈ es, e.Joins c ⟨g, G.verifier⟩

/-! ## The group operations of the table -/

namespace SessionTable

variable {alive : ConnId → Bool} {t : SessionTable} {name : Bytes} {c : ConnId}

theorem pruneGroup_eq_self
    (h : ∀ G, t.groups name = some G → G.members ≠ [] ∧ ∀ m ∈ G.members, alive m = true) :
    t.pruneGroup alive name = t := by
  unfold pruneGroup
  split
  · rename_i G hG
    obtain ⟨hne, halive⟩ := h G hG
    have hfilter : G.members.filter alive = G.members := List.filter_eq_self.mpr halive
    dsimp only
    rw [hfilter, if_neg hne, setGroup, ← hG, Function.update_eq_self]
  · rfl

theorem leaveGroup_groups (alive : ConnId → Bool) (c : ConnId) {G : Group} (hname : name ≠ [])
    (hG : t.groups name = some G) :
    (t.leaveGroup alive name c).groups = Function.update t.groups name
      (if G.members.filter (fun m => alive m && m != c) = [] then none
        else some { G with members := G.members.filter fun m => alive m && m != c }) := by
  rw [leaveGroup, if_neg hname, hG]
  rfl

theorem leaveGroup_congr {t' : SessionTable} (h : t'.groups = t.groups) :
    (t'.leaveGroup alive name c).groups = (t.leaveGroup alive name c).groups := by
  by_cases hname : name = []
  · rw [leaveGroup, leaveGroup, if_pos hname, if_pos hname, h]
  · cases hG : t.groups name with
    | none =>
      rw [leaveGroup, leaveGroup, if_neg hname, if_neg hname, h, hG]
      exact h
    | some G =>
      rw [leaveGroup_groups alive c hname hG, leaveGroup_groups alive c hname (h ▸ hG), h]

end SessionTable

/-! ## What keeps the agreement -/

variable {es : List ServerEvent} {s s' : Server} {c : ConnId} {g : Bytes} {x : Connection} {f : Frame}

theorem Server.alive_of_joinedOf (h : s.joinedOf c = some g) : s.alive c = true := by
  obtain ⟨p, hp, -⟩ := Option.map_eq_some_iff.mp h
  rw [Server.alive_iff_party, hp]
  rfl

theorem Server.joinedOf_of (h : s.connections c = some x) :
    s.joinedOf c = some x.joinedGroup := by
  rw [Server.joinedOf, Server.proj, Server.party_of h]
  rfl

theorem Grouped.mono (hs : Grouped es s) (e : ServerEvent) : Grouped (es ++ [e]) s :=
  { hs with
    presented := fun hG hc => by
      obtain ⟨e', he', hjoins⟩ := hs.presented hG hc
      exact ⟨e', List.mem_append_left _ he', hjoins⟩ }

theorem Grouped.congr (hs : Grouped es s) (s' : Server) (hjoined : ∀ y, s'.joinedOf y = s.joinedOf y)
    (hgroups : s'.sessions.groups = s.sessions.groups) : Grouped es s' where
  member hG hc := by
    rw [hgroups] at hG
    rw [hjoined]
    exact hs.member hG hc
  joined hc hg := by
    rw [hjoined] at hc
    rw [hgroups]
    exact hs.joined hc hg
  named hG := hs.named (hgroups ▸ hG)
  nonempty hG := hs.nonempty (hgroups ▸ hG)
  nodup hG := hs.nodup (hgroups ▸ hG)
  small hG := hs.small (hgroups ▸ hG)
  presented hG hc := hs.presented (hgroups ▸ hG) hc

theorem Grouped.pruned (hs : Grouped es s) (name : Bytes) : s.pruned name = s := by
  have h : s.sessions.pruneGroup s.alive name = s.sessions :=
    SessionTable.pruneGroup_eq_self fun G hG =>
      ⟨hs.nonempty hG, fun m hm => Server.alive_of_joinedOf (hs.member hG hm)⟩
  rw [Server.pruned, h]

/-- The groups of `t'` are those of `t` without `c`. -/
structure Shed (c : ConnId) (t t' : SessionTable) : Prop where
  old : ∀ {g G'}, t'.groups g = some G' → G'.members ≠ [] ∧ c ∉ G'.members ∧
    ∃ G, t.groups g = some G ∧ G'.verifier = G.verifier ∧ G'.members.Sublist G.members
  kept : ∀ {g G y}, t.groups g = some G → y ∈ G.members → y ≠ c →
    ∃ G', t'.groups g = some G' ∧ y ∈ G'.members

theorem Grouped.leaveGroup (hs : Grouped es s) (hc : s.joinedOf c = some g) :
    Shed c s.sessions (s.sessions.leaveGroup s.alive g c) := by
  have hmember : ∀ {h H}, s.sessions.groups h = some H → c ∈ H.members → h = g := fun hH hcH =>
    Option.some.inj ((hs.member hH hcH).symm.trans hc)
  by_cases hg : g = []
  · rw [SessionTable.leaveGroup, if_pos hg]
    refine ⟨fun {h H} hH => ⟨hs.nonempty hH, fun hcH => ?_, H, hH, rfl, .refl _⟩,
      fun {h H y} hH hy _ => ⟨H, hH, hy⟩⟩
    exact hs.named hH ((hmember hH hcH).trans hg)
  · obtain ⟨G, hG, -⟩ := hs.joined hc hg
    have hgroups := SessionTable.leaveGroup_groups s.alive c hg hG
    constructor
    · intro h H' hH'
      rw [hgroups] at hH'
      by_cases hh : h = g
      · subst hh
        rw [Function.update_self] at hH'
        split at hH'
        · cases hH'
        · rename_i hne
          cases hH'
          exact ⟨hne, by simp, G, hG, rfl, List.filter_sublist⟩
      · rw [Function.update_of_ne hh] at hH'
        exact ⟨hs.nonempty hH', fun hcH => hh (hmember hH' hcH), H', hH', rfl, .refl _⟩
    · intro h H y hH hy hyc
      rw [hgroups]
      by_cases hh : h = g
      · subst hh
        cases hG.symm.trans hH
        have hyF : y ∈ G.members.filter fun m => s.alive m && m != c := by
          simp [hy, hyc, Server.alive_of_joinedOf (hs.member hG hy)]
        rw [Function.update_self, if_neg (List.ne_nil_of_mem hyF)]
        exact ⟨_, rfl, hyF⟩
      · rw [Function.update_of_ne hh]
        exact ⟨H, hH, hy⟩

/-- A connection is out of its group, for good or for another one. -/
theorem Grouped.shed (hs : Grouped es s) (h : Shed c s.sessions s'.sessions)
    (hothers : ∀ y, y ≠ c → s'.joinedOf y = s.joinedOf y)
    (hself : ∀ g, s'.joinedOf c = some g → g = []) : Grouped es s' where
  member hG hy := by
    obtain ⟨-, hc, G, hG', -, hsub⟩ := h.old hG
    rw [hothers _ fun hyc => hc (hyc ▸ hy)]
    exact hs.member hG' (hsub.subset hy)
  joined {y g} hy hg := by
    have hyc : y ≠ c := by
      rintro rfl
      exact hg (hself g hy)
    rw [hothers y hyc] at hy
    obtain ⟨G, hG, hyG⟩ := hs.joined hy hg
    exact h.kept hG hyG hyc
  named hG := by
    obtain ⟨-, -, G, hG', -⟩ := h.old hG
    exact hs.named hG'
  nonempty hG := (h.old hG).1
  nodup hG := by
    obtain ⟨-, -, G, hG', -, hsub⟩ := h.old hG
    exact (hs.nodup hG').sublist hsub
  small hG := by
    obtain ⟨-, -, G, hG', -, hsub⟩ := h.old hG
    exact hsub.length_le.trans (hs.small hG')
  presented hG hy := by
    obtain ⟨-, -, G, hG', hv, hsub⟩ := h.old hG
    rw [hv]
    exact hs.presented hG' (hsub.subset hy)

/-! ## Joining -/

theorem Server.joinedOf_left (hfound : s.connections c = some x) (table : SessionTable) :
    ({ s with sessions := table }.update c fun x => { x with joinedGroup := [] }).joinedOf c = some [] := by
  rw [Server.joinedOf, Server.proj, Server.party_update_self]
  simp [hfound, Connection.party]

theorem Grouped.leftOther (hs : Grouped es s) (hfound : s.connections c = some x)
    (name : Bytes) : Grouped es (s.leftOther c x.joinedGroup name) ∧
      ((s.leftOther c x.joinedGroup name).joinedOf c = some [] ∨
        (s.leftOther c x.joinedGroup name).joinedOf c = some name) := by
  have hc := Server.joinedOf_of hfound
  unfold Server.leftOther
  split
  · have hself := Server.joinedOf_left hfound (s.sessions.leaveGroup s.alive x.joinedGroup c)
    refine ⟨hs.shed (hs.leaveGroup hc) (fun y hy => ?_) fun g hg => ?_, .inl hself⟩
    · rw [Server.joinedOf, Server.proj, Server.party_update_of_ne hy]
      rfl
    · exact Option.some.inj (hg.symm.trans hself)
  · rename_i hstay
    refine ⟨hs, ?_⟩
    rw [hc]
    by_cases hnil : x.joinedGroup = []
    · exact .inl (congrArg some hnil)
    · exact .inr (congrArg some (by by_contra hne; exact hstay ⟨hnil, hne⟩))

/-- What a join comes to when every member of every group is there. -/
inductive JoinCase (s : Server) (c : ConnId) (join : GroupJoin) : GroupJoinOutcome → SessionTable → Prop
  | refused {outcome : GroupJoinOutcome} (no : outcome.isMember = false) :
      JoinCase s c join outcome s.sessions
  | again {G : Group} (found : s.sessions.groups join.name = some G) (member : c ∈ G.members) :
      JoinCase s c join .alreadyMember s.sessions
  | created (valid : isValidUsername join.name = true) (free : s.sessions.groups join.name = none) :
      JoinCase s c join .created (s.sessions.setGroup join.name (some ⟨join.verifier, [c]⟩))
  | joined {G : Group} (found : s.sessions.groups join.name = some G) (new : c ∉ G.members)
      (verifier : G.verifier = join.verifier) (room : G.members.length < kMaxGroupMembers) :
      JoinCase s c join .joined
        (s.sessions.setGroup join.name (some { G with members := G.members ++ [c] }))

theorem Grouped.joinGroup (hs : Grouped es s) (c : ConnId) (join : GroupJoin) :
    JoinCase s c join (s.sessions.joinGroup s.alive join.name join.verifier c).1
      (s.sessions.joinGroup s.alive join.name join.verifier c).2 := by
  have hprune : s.sessions.pruneGroup s.alive join.name = s.sessions :=
    congrArg Server.sessions (hs.pruned join.name)
  unfold SessionTable.joinGroup
  split
  · exact .refused rfl
  · rename_i hvalid
    dsimp only
    rw [hprune]
    split
    · rename_i hfree
      exact .created (by simpa using hvalid) hfree
    · rename_i G hG
      split
      · exact .again hG ‹_›
      · split
        · exact .refused rfl
        · split
          · exact .refused rfl
          · rename_i hnew hverifier hroom
            exact .joined hG hnew (not_not.mp hverifier) (Nat.lt_of_not_le hroom)

/-- A connection that is in no group becomes a member of one. -/
theorem Grouped.enter (hs : Grouped es s) {join : GroupJoin} {e : ServerEvent} {N : Group}
    (hjoins : e.Joins c join) (hname : join.name ≠ []) (hc : s.joinedOf c = some [])
    (hverifier : N.verifier = join.verifier) (hcN : c ∈ N.members) (hnodup : N.members.Nodup)
    (hsmall : N.members.length ≤ kMaxGroupMembers)
    (hold : ∀ y ∈ N.members, y ≠ c → ∃ G, s.sessions.groups join.name = some G ∧
      y ∈ G.members ∧ G.verifier = N.verifier)
    (hkept : ∀ G, s.sessions.groups join.name = some G → ∀ y ∈ G.members, y ∈ N.members)
    (hgroups : s'.sessions.groups = Function.update s.sessions.groups join.name (some N))
    (hself : s'.joinedOf c = some join.name) (hothers : ∀ y, y ≠ c → s'.joinedOf y = s.joinedOf y) :
    Grouped (es ++ [e]) s' := by
  -- a group of `s'` is the one that was joined, or one of `s` that `c` is not in
  have hcases : ∀ {g G}, s'.sessions.groups g = some G → (g = join.name ∧ G = N) ∨
      (g ≠ join.name ∧ s.sessions.groups g = some G ∧ c ∉ G.members) := by
    intro g G hG
    rw [hgroups] at hG
    by_cases hg : g = join.name
    · subst hg
      rw [Function.update_self] at hG
      exact .inl ⟨rfl, (Option.some.inj hG).symm⟩
    · rw [Function.update_of_ne hg] at hG
      refine .inr ⟨hg, hG, fun hcG => hs.named hG ?_⟩
      exact Option.some.inj ((hs.member hG hcG).symm.trans hc)
  constructor
  · intro g G y hG hy
    rcases hcases hG with ⟨rfl, rfl⟩ | ⟨-, hG', hcG⟩
    · by_cases hyc : y = c
      · rw [hyc, hself]
      · obtain ⟨G, hG', hyG, -⟩ := hold y hy hyc
        rw [hothers y hyc]
        exact hs.member hG' hyG
    · rw [hothers y fun hyc => hcG (hyc ▸ hy)]
      exact hs.member hG' hy
  · intro y g hy hg
    rw [hgroups]
    by_cases hyc : y = c
    · subst hyc
      cases hself.symm.trans hy
      exact ⟨N, Function.update_self .., hcN⟩
    · rw [hothers y hyc] at hy
      obtain ⟨G, hG, hyG⟩ := hs.joined hy hg
      by_cases hgn : g = join.name
      · subst hgn
        exact ⟨N, Function.update_self .., hkept G hG y hyG⟩
      · exact ⟨G, by rwa [Function.update_of_ne hgn], hyG⟩
  · intro g G hG
    rcases hcases hG with ⟨rfl, -⟩ | ⟨-, hG', -⟩
    · exact hname
    · exact hs.named hG'
  · intro g G hG
    rcases hcases hG with ⟨-, rfl⟩ | ⟨-, hG', -⟩
    · exact List.ne_nil_of_mem hcN
    · exact hs.nonempty hG'
  · intro g G hG
    rcases hcases hG with ⟨-, rfl⟩ | ⟨-, hG', -⟩
    · exact hnodup
    · exact hs.nodup hG'
  · intro g G hG
    rcases hcases hG with ⟨-, rfl⟩ | ⟨-, hG', -⟩
    · exact hsmall
    · exact hs.small hG'
  · intro g G y hG hy
    rcases hcases hG with ⟨rfl, rfl⟩ | ⟨-, hG', -⟩
    · by_cases hyc : y = c
      · rw [hverifier, hyc]
        exact ⟨e, List.mem_append_right _ (List.mem_singleton_self e), hjoins⟩
      · obtain ⟨G, hG', hyG, hv⟩ := hold y hy hyc
        rw [← hv]
        exact (hs.mono e).presented hG' hyG
    · exact (hs.mono e).presented hG' hy

theorem Grouped.joinGroup_free (hs : Grouped es s) {join : GroupJoin}
    (hvalid : isValidUsername join.name = true) (hfree : s.sessions.groups join.name = none) :
    s.sessions.joinGroup s.alive join.name join.verifier c =
      (.created, s.sessions.setGroup join.name (some ⟨join.verifier, [c]⟩)) := by
  have hprune : s.sessions.pruneGroup s.alive join.name = s.sessions :=
    congrArg Server.sessions (hs.pruned join.name)
  rw [SessionTable.joinGroup, if_neg (by simp [hvalid])]
  dsimp only
  rw [hprune, hfree]

theorem Server.joinedOf_joined_of_ne {join : GroupJoin} {y : ConnId} (hy : y ≠ c) :
    (s.joined c join).joinedOf y = s.joinedOf y := by
  unfold Server.joined Server.joinedOf Server.proj
  rw [Server.party_update_of_ne hy]
  rfl

theorem Server.joinedOf_joined_self (join : GroupJoin) {g : Bytes} (hc : s.joinedOf c = some g) :
    (s.joined c join).joinedOf c =
      some (if (s.sessions.joinGroup s.alive join.name join.verifier c).1.isMember then join.name
        else g) := by
  obtain ⟨p, hp, rfl⟩ := Option.map_eq_some_iff.mp hc
  obtain ⟨x, hx, rfl⟩ := Server.party_eq_some hp
  unfold Server.joined Server.joinedOf Server.proj
  rw [Server.party_update_self, show Server.connections { s with sessions := _ } c = some x from hx]
  dsimp only [Option.map]
  split <;> rfl

/-- Joining, after the other group was left. -/
theorem Grouped.join (hs : Grouped es s) {join : GroupJoin} {e : ServerEvent}
    (hjoins : e.Joins c join) (hc : s.joinedOf c = some [] ∨ s.joinedOf c = some join.name) :
    Grouped (es ++ [e]) (s.joined c join) := by
  have hothers : ∀ y, y ≠ c → (s.joined c join).joinedOf y = s.joinedOf y := fun y hy =>
    Server.joinedOf_joined_of_ne hy
  have hself : ∀ {g}, s.joinedOf c = some g → _ := Server.joinedOf_joined_self join
  have hgroups : (s.joined c join).sessions =
    (s.sessions.joinGroup s.alive join.name join.verifier c).2 := rfl
  have hcase := hs.joinGroup c join
  generalize (s.sessions.joinGroup s.alive join.name join.verifier c).2 = t at hcase hgroups
  generalize (s.sessions.joinGroup s.alive join.name join.verifier c).1 = outcome at hcase hself
  have hsame : ∀ g, s.joinedOf c = some g → (s.joined c join).joinedOf c = some g →
      t = s.sessions → Grouped (es ++ [e]) (s.joined c join) := by
    intro g hg hg' ht
    refine (hs.congr _ (fun y => ?_) (by rw [hgroups, ht])).mono e
    by_cases hy : y = c
    · rw [hy, hg, hg']
    · exact hothers y hy
  -- whoever is not in the group that it asks for is in none
  have hfree : join.name ≠ [] → (∀ G, s.sessions.groups join.name = some G → c ∉ G.members) →
      s.joinedOf c = some [] := by
    intro hname hnot
    refine hc.resolve_right fun h => ?_
    obtain ⟨G, hG, hcG⟩ := hs.joined h hname
    exact hnot G hG hcG
  cases hcase with
  | refused hno =>
    obtain ⟨g, hg⟩ : ∃ g, s.joinedOf c = some g := hc.elim (fun h => ⟨_, h⟩) fun h => ⟨_, h⟩
    exact hsame g hg (by rw [hself hg, hno]; rfl) rfl
  | again hG hcG =>
    have hg := hs.member hG hcG
    exact hsame join.name hg (by rw [hself hg]; rfl) rfl
  | created hvalid hnone =>
    have hname : join.name ≠ [] := by
      intro h
      rw [h] at hvalid
      cases hvalid
    have hnil := hfree hname (by simp [hnone])
    refine hs.enter (N := ⟨join.verifier, [c]⟩) hjoins hname hnil rfl (List.mem_singleton_self c)
      (List.nodup_singleton c) (show 1 ≤ 32 by decide)
      (fun y hy hyc => absurd (List.mem_singleton.mp hy) hyc) (by simp [hnone])
      (congrArg SessionTable.groups hgroups) (by rw [hself hnil]; rfl) hothers
  | @joined G hG hnew hverifier hroom =>
    have hnil := hfree (hs.named hG) fun G' hG' => by
      cases hG.symm.trans hG'
      exact hnew
    refine hs.enter (N := { G with members := G.members ++ [c] }) hjoins (hs.named hG) hnil hverifier
      (by simp) (List.nodup_append.mpr ⟨hs.nodup hG, List.nodup_singleton c, ?_⟩) ?_
      (fun y hy hyc => ?_) (fun G' hG' y hy => ?_) (congrArg SessionTable.groups hgroups)
      (by rw [hself hnil]; rfl) hothers
    · rintro y hy z hz rfl
      exact hnew (List.mem_singleton.mp hz ▸ hy)
    · rw [List.length_append]
      exact hroom
    · exact ⟨_, hG, by simpa [hyc] using hy, rfl⟩
    · cases hG.symm.trans hG'
      exact List.mem_append_left _ hy

/-! ## Every event -/

abbrev SameGroups : Server → Server → Prop := Keeps Party.joinedGroup SessionTable.groups

theorem Op.groups (hs : Grouped es s) (h : Op c f s s') :
    SameGroups s s' ∨ ∃ x join, s.connections c = some x ∧ f.header.type = .groupJoin ∧
      GroupJoin.decode f.payload = .ok join ∧
      s' = ((s.leftOther c x.joinedGroup join.name).joined c join).pruned join.name := by
  cases h with
  | refused _ _ _ => exact .inl ((Keeps.refl s).update c fun _ => rfl)
  | @granted x hello table _ _ _ claim =>
    have htable := (SessionTable.claim_others s.alive s.sessions hello.username c).2
    rw [claim] at htable
    refine .inl (Keeps.update ?_ c fun _ => rfl)
    exact (Keeps.refl s).sessions htable
  | welcomed _ _ _ => exact .inl ((Keeps.refl s).update c fun _ => rfl)
  | paired _ _ _ _ _ =>
    refine .inl (Keeps.update ?_ _ fun _ => rfl)
    refine Keeps.update ?_ c fun _ => rfl
    exact (Keeps.refl s).sessions rfl
  | orphaned _ _ _ _ _ => exact .inl ((Keeps.refl s).update c fun _ => rfl)
  | withdrawn _ _ _ _ => exact .inl ((Keeps.refl s).update c fun _ => rfl)
  | rejected _ _ _ _ _ =>
    refine .inl (Keeps.update ?_ c fun _ => rfl)
    exact (Keeps.refl s).sessions rfl
  | @asked x pr table _ _ _ _ _ _ request =>
    have htable := (SessionTable.requestRelay_others s.sessions x.pairingId (pr.sender == c)).1
    rw [request] at htable
    exact .inl ((Keeps.refl s).sessions htable)
  | @opened x pr table _ _ _ _ _ _ request =>
    have htable := (SessionTable.requestRelay_others s.sessions x.pairingId (pr.sender == c)).1
    rw [request] at htable
    refine .inl (((Keeps.relaying ?_ _ _ fun _ _ => ⟨rfl, rfl⟩).enqueued _ _).enqueued _ _)
    exact (Keeps.refl s).sessions htable
  | forwarded _ _ _ _ => exact .inl ((Keeps.refl s).enqueued _ _)
  | recovered _ _ _ _ _ _ _ _ =>
    exact .inl (((Keeps.refl s).relaying _ _ fun _ _ => ⟨rfl, rfl⟩).enqueued _ _)
  | queried _ =>
    rw [hs.pruned, hs.pruned]
    exact .inl (Keeps.refl s)
  | unlisted _ =>
    rw [hs.pruned]
    exact .inl (Keeps.refl s)
  | listed _ _ =>
    rw [hs.pruned]
    exact .inl ((Keeps.refl s).enqueued _ _)
  | grouped htype hfound _ hdecode => exact .inr ⟨_, _, hfound, htype, hdecode, rfl⟩

theorem Grouped.sameGroups (hs : Grouped es s) (h : SameGroups s s') : Grouped es s' :=
  hs.congr _ h.1 h.2

theorem Grouped.frame (hs : Grouped es s) {env : Env} (h : Does c f s s') :
    Grouped (es ++ [.frame env c f]) s' := by
  obtain ⟨a, b, ha, hab, hb⟩ := h
  have has := hs.sameGroups ha.keeps
  refine Grouped.sameGroups ?_ hb.keeps
  rcases hab with rfl | hab
  · exact has.mono _
  · rcases hab.groups has with hsame | ⟨x, join, hfound, htype, hdecode, rfl⟩
    · exact (has.sameGroups hsame).mono _
    · obtain ⟨hleft, hc⟩ := has.leftOther hfound join.name
      have hjoin := hleft.join (e := .frame env c f) ⟨env, f, rfl, htype, hdecode⟩ hc
      rw [hjoin.pruned]
      exact hjoin

theorem Grouped.admitted (hs : Grouped es s) (htidy : s.Tidy) (h : Admitted s s') :
    Grouped es s' := by
  have hfresh : s.party s.nextConnectionId = none :=
    Option.eq_none_iff_forall_ne_some.mpr fun p hp => Nat.lt_irrefl _ (htidy _ p hp).1
  refine hs.shed (c := s.nextConnectionId) ?_ (fun y hy => ?_) fun g hg => ?_
  · rw [h.sessions]
    refine ⟨fun {g G} hG => ⟨hs.nonempty hG, fun hmem => ?_, G, hG, rfl, .refl _⟩,
      fun {g G y} hG hy _ => ⟨G, hG, hy⟩⟩
    have hjoined := hs.member hG hmem
    rw [Server.joinedOf, Server.proj, hfresh] at hjoined
    cases hjoined
  · rw [Server.joinedOf, Server.proj, h.others y hy]
    rfl
  · rw [Server.joinedOf, Server.proj, h.new] at hg
    exact (Option.some.inj hg).symm

theorem Grouped.parted_shed (hs : Grouped es s) {freed : Option ConnId}
    (hfound : s.connections c = some x) (h : Parted c x freed s s') :
    Shed c s.sessions s'.sessions := by
  have hc := Server.joinedOf_of hfound
  have hgroups : s'.sessions.groups = (s.sessions.leaveGroup s.alive x.joinedGroup c).groups := by
    rw [h.sessions]
    have hdeparted : (s.departed c x).groups =
        (s.sessions.leaveGroup s.alive x.joinedGroup c).groups :=
      SessionTable.leaveGroup_congr (SessionTable.release_others _ _ _ c).2
    split
    · exact hdeparted
    · exact hdeparted
  have hshed := hs.leaveGroup hc
  refine ⟨fun hG => hshed.old (hgroups ▸ hG), fun hG hy hyc => ?_⟩
  rw [hgroups]
  exact hshed.kept hG hy hyc

theorem Grouped.parted (hs : Grouped es s) {freed : Option ConnId}
    (hfound : s.connections c = some x) (h : Parted c x freed s s') : Grouped es s' := by
  refine hs.shed (hs.parted_shed hfound h) (fun y hy => ?_) fun g hg => ?_
  · rw [Server.joinedOf, Server.proj, h.stay y hy, Option.map_map]
    refine congrArg (fun k => Option.map k (s.party y)) (funext fun p => ?_)
    dsimp only [Function.comp]
    split <;> rfl
  · rw [Server.joinedOf, Server.proj, h.gone] at hg
    cases hg

theorem Grouped.step (hs : Grouped es s) (htidy : s.Tidy) {e : ServerEvent}
    (h : s.next e = some s') : Grouped (es ++ [e]) s' := by
  cases Server.next_happens htidy h with
  | refused hquiet => exact (hs.sameGroups hquiet.keeps).mono _
  | admitted hadmitted => exact (hs.admitted htidy hadmitted).mono _
  | frame _ hdoes => exact hs.frame hdoes
  | closed hfound hparted => exact (hs.parted hfound hparted).mono _
  | @expired env => exact (hs.congr (s.expire env) (fun _ => rfl) rfl).mono _

/-! ## Rosters -/

/-- A receiver that is or was accepting has a valid name. -/
def Server.Named (s : Server) : Prop :=
  s.Each fun _ p => p.state = .receiverIdle ∨ p.state = .receiverMatched →
    isValidUsername p.claimedUsername = true

theorem SessionTable.claim_granted_valid {t t' : SessionTable} {alive : ConnId → Bool} {u : Bytes}
    (h : t.claim alive u c = (.granted, t')) : isValidUsername u = true := by
  unfold SessionTable.claim at h
  split at h
  · cases h
  · rename_i hvalid
    simpa using hvalid

theorem Connection.unpaired_named (x : Connection)
    (h : x.party.state = .receiverIdle ∨ x.party.state = .receiverMatched →
      isValidUsername x.party.claimedUsername = true) :
    x.unpaired.party.state = .receiverIdle ∨ x.unpaired.party.state = .receiverMatched →
      isValidUsername x.unpaired.party.claimedUsername = true := by
  intro hstate
  refine h ?_
  unfold Connection.unpaired Connection.party at hstate
  dsimp only at hstate
  split at hstate
  · exact .inr ‹_›
  · exact hstate

theorem Op.named (h : Op c f s s') (hs : s.Named) : s'.Named := by
  have hrelaying : ∀ {t : Server} {a b : ConnId}, t.Named → (t.relaying a b).Named :=
    fun ht => Server.Each.relaying ht fun _ _ _ h => ⟨h, nofun⟩
  cases h with
  | refused _ _ _ => exact Server.Each.update hs c fun _ _ h => h
  | granted _ _ _ claim =>
    exact Server.Each.update (by exact hs) c fun _ _ _ _ => SessionTable.claim_granted_valid claim
  | welcomed _ _ _ =>
    exact Server.Each.update hs c fun _ _ _ h => by simp [Connection.party] at h
  | @paired x y r env _ hfound hidle hpeer haccepting =>
    refine Server.Each.paired hs env hfound hpeer (ne_of_idle hfound hidle hpeer haccepting) ?_ ?_
    · exact fun h => by simp at h
    · exact fun _ => hs r y.party (Server.party_of hpeer) (.inl haccepting)
  | orphaned _ hfound hstate _ _ =>
    refine Server.Each.update hs c fun z hz h _ => h (.inr ?_)
    cases hfound.symm.trans hz
    exact hstate
  | withdrawn _ _ _ _ => exact Server.Each.update hs c fun x _ h => x.unpaired_named h
  | rejected _ _ _ _ _ => exact Server.Each.update (by exact hs) c fun x _ h => x.unpaired_named h
  | asked _ _ _ _ _ _ _ => exact hs
  | opened _ _ _ _ _ _ _ =>
    exact Server.Each.enqueued (Server.Each.enqueued (hrelaying (by exact hs)) _ _) _ _
  | forwarded _ _ _ _ => exact Server.Each.enqueued hs _ _
  | recovered _ _ _ _ _ _ _ _ => exact Server.Each.enqueued (hrelaying hs) _ _
  | queried _ => exact hs
  | unlisted _ => exact hs
  | listed _ _ => exact Server.Each.enqueued (by exact hs) _ _
  | grouped _ _ _ _ => exact Server.Each.regrouped hs c _ _ fun _ _ _ h => h

theorem Server.Named.step (hs : s.Named) (htidy : s.Tidy) {e : ServerEvent}
    (h : s.next e = some s') : s'.Named := by
  cases Server.next_happens htidy h with
  | refused hquiet => exact Server.Each.quiet hs hquiet
  | admitted hadmitted =>
    intro y p hp
    by_cases hy : y = s.nextConnectionId
    · subst hy
      cases hadmitted.new.symm.trans hp
      simp [Party.new, Connection.party, default]
    · rw [hadmitted.others y hy] at hp
      exact hs y p hp
  | frame _ hdoes =>
    exact hdoes.keeps (fun _ _ hq ha => Server.Each.quiet ha hq) (fun _ _ hop ha => hop.named ha) hs
  | closed _ hparted =>
    exact Server.Each.parted hs hparted fun y p hfreed hp h _ =>
      h (.inr (hparted.freed_state hfreed hp))
  | expired => exact hs

theorem Grouped.roster_decodes (hs : Grouped es s) (hnamed : s.Named) (x : Connection)
    (name : Bytes) : GroupRoster.decode (s.roster x name).encode = .ok (s.roster x name) := by
  have hprune : s.sessions.pruneGroup (fun c => (s.connections c).isSome) name = s.sessions :=
    congrArg Server.sessions (hs.pruned name)
  refine GroupRoster.decode_encode ?_ fun u hu => ?_
  · unfold Server.roster SessionTable.idleGroupMembers
    dsimp only
    rw [hprune, List.length_map]
    split
    · exact Nat.zero_le _
    · rename_i G hG
      exact (List.length_filter_le _ _).trans
        ((List.length_filterMap_le _ _).trans (hs.small hG))
  · unfold Server.roster SessionTable.idleGroupMembers at hu
    dsimp only at hu
    rw [hprune] at hu
    obtain ⟨m, hm, rfl⟩ := List.mem_map.mp hu
    split at hm
    · cases hm
    · obtain ⟨hm, hidle⟩ := List.mem_filter.mp hm
      obtain ⟨y, -, hy⟩ := List.mem_filterMap.mp hm
      refine hnamed y m.party (Server.party_of hy) (.inl ?_)
      simp only [Bool.and_eq_true, beq_iff_eq] at hidle
      exact hidle.1

/-- Every roster that was sent can be decoded. -/
def Server.RostersDecode (s : Server) : Prop :=
  ∀ y f, (y, f) ∈ s.log → f.header.type = .groupRoster → ∃ r, GroupRoster.decode f.payload = .ok r

theorem Server.RostersDecode.append (hs : s.RostersDecode) (new : List (ConnId × Frame))
    (hlog : s'.log = s.log ++ new)
    (hnew : ∀ e ∈ new, e.2.header.type = .groupRoster → ∃ r, GroupRoster.decode e.2.payload = .ok r) :
    s'.RostersDecode := by
  intro y f hf htype
  rw [hlog] at hf
  rcases List.mem_append.mp hf with hf | hf
  · exact hs y f hf htype
  · exact hnew (y, f) hf htype

theorem Server.RostersDecode.plain (hs : s.RostersDecode)
    (hlog : ∃ new, s'.log = s.log ++ new ∧ ∀ e ∈ new, e.2.header.type.Plain) : s'.RostersDecode := by
  obtain ⟨new, hlog, hplain⟩ := hlog
  exact hs.append _ hlog fun e he htype => absurd htype (hplain e he).2.2

theorem Op.rostersDecode (h : Op c f s s') (hg : Grouped es s) (hn : s.Named)
    (hs : s.RostersDecode) : s'.RostersDecode := by
  have henqueued : ∀ {t : Server} {y : ConnId} {g : Frame}, t.RostersDecode →
      g.header.type ≠ .groupRoster → (t.enqueued y g).RostersDecode := fun ht htype =>
    ht.append _ rfl fun e he h => by
      cases List.mem_singleton.mp he
      exact absurd h htype
  cases h with
  | opened _ _ _ _ _ _ _ =>
    refine henqueued (henqueued ?_ ?_) ?_
    · exact hs
    · simp [Frame.of]
    · simp [Frame.of]
  | forwarded _ _ _ _ => exact henqueued hs (by simp [Frame.of])
  | recovered _ _ _ _ _ _ _ _ => exact henqueued (by exact hs) (by simp [Frame.of])
  | @listed x name _ _ =>
    refine Server.RostersDecode.append (s := s.pruned name) (by exact hs) _ rfl fun e he _ => ?_
    cases List.mem_singleton.mp he
    exact ⟨_, hg.roster_decodes hn x name⟩
  | grouped _ _ _ _ =>
    refine hs.append [] ?_ (by simp)
    rw [List.append_nil]
    unfold Server.leftOther
    split <;> rfl
  | _ => exact hs

theorem Server.RostersDecode.step (hs : s.RostersDecode) (hg : Grouped es s) (hn : s.Named)
    (htidy : s.Tidy) {e : ServerEvent} (h : s.next e = some s') : s'.RostersDecode := by
  cases Server.next_happens htidy h with
  | refused hquiet => exact hs.plain hquiet.log
  | admitted hadmitted =>
    exact hs.append [] (by rw [hadmitted.log, List.append_nil]) (by simp)
  | frame _ hdoes =>
    obtain ⟨a, b, ha, hab, hb⟩ := hdoes
    refine Server.RostersDecode.plain ?_ hb.log
    rcases hab with rfl | hab
    · exact hs.plain ha.log
    · exact hab.rostersDecode (hg.sameGroups ha.keeps) (Server.Each.quiet hn ha) (hs.plain ha.log)
  | closed _ hparted => exact hs.plain hparted.log
  | expired => exact hs

/-! ## One event -/

/-- What an event may do to a group: the verifier stays, and whoever is new presented it. -/
structure GroupStep (e : ServerEvent) (t t' : SessionTable) : Prop where
  verifier : ∀ {g G G'}, t.groups g = some G → t'.groups g = some G' → G'.verifier = G.verifier
  admits : ∀ {g G' y}, t'.groups g = some G' → y ∈ G'.members →
    (∃ G, t.groups g = some G ∧ y ∈ G.members) ∨ e.Joins y ⟨g, G'.verifier⟩

variable {e : ServerEvent} {t t' : SessionTable}

theorem GroupStep.of_eq (h : t'.groups = t.groups) : GroupStep e t t' where
  verifier hG hG' := by
    rw [h, hG] at hG'
    cases hG'
    rfl
  admits hG' hy := .inl ⟨_, h ▸ hG', hy⟩

theorem Shed.groupStep (h : Shed c t t') : GroupStep e t t' where
  verifier hG hG' := by
    obtain ⟨-, -, G₀, hG₀, hv, -⟩ := h.old hG'
    cases hG.symm.trans hG₀
    exact hv
  admits hG' hy := by
    obtain ⟨-, -, G, hG, -, hsub⟩ := h.old hG'
    exact .inl ⟨G, hG, hsub.subset hy⟩

theorem GroupStep.trans {t₁ : SessionTable} {name : Bytes} (h : GroupStep e t t₁)
    (h' : GroupStep e t₁ t') (hbefore : t₁.groups name = t.groups name)
    (hafter : ∀ g, g ≠ name → t'.groups g = t₁.groups g) : GroupStep e t t' where
  verifier {g G G'} hG hG' := by
    by_cases hg : g = name
    · subst hg
      exact h'.verifier (hbefore ▸ hG) hG'
    · exact h.verifier hG (hafter g hg ▸ hG')
  admits hG' hy := by
    obtain ⟨G₁, hG₁, hyG₁⟩ | hjoins := h'.admits hG' hy
    · obtain hold | hjoins := h.admits hG₁ hyG₁
      · exact .inl hold
      · exact .inr (h'.verifier hG₁ hG' ▸ hjoins)
    · exact .inr hjoins

section Join

variable {join : GroupJoin} {outcome : GroupJoinOutcome}

theorem JoinCase.groups_of_ne (h : JoinCase s c join outcome t) (hg : g ≠ join.name) :
    t.groups g = s.sessions.groups g := by
  cases h with
  | refused _ => rfl
  | again _ _ => rfl
  | created _ _ => exact Function.update_of_ne hg _ _
  | joined _ _ _ _ => exact Function.update_of_ne hg _ _

theorem JoinCase.groupStep (h : JoinCase s c join outcome t) (hjoins : e.Joins c join) :
    GroupStep e s.sessions t := by
  have hne := fun {g : Bytes} (hg : g ≠ join.name) => h.groups_of_ne hg
  cases h with
  | refused _ => exact .of_eq rfl
  | again _ _ => exact .of_eq rfl
  | created _ hfree =>
    constructor
    · intro g G G' hG hG'
      have hg : g ≠ join.name := by
        rintro rfl
        cases hfree.symm.trans hG
      cases hG.symm.trans ((hne hg).symm.trans hG')
      rfl
    · intro g G' y hG' hy
      by_cases hg : g = join.name
      · subst hg
        cases (Function.update_self ..).symm.trans hG'
        cases List.mem_singleton.mp hy
        exact .inr hjoins
      · exact .inl ⟨G', (hne hg).symm.trans hG', hy⟩
  | @joined G₀ hG₀ _ hverifier _ =>
    constructor
    · intro g G G' hG hG'
      by_cases hg : g = join.name
      · subst hg
        cases hG₀.symm.trans hG
        cases (Function.update_self ..).symm.trans hG'
        rfl
      · cases hG.symm.trans ((hne hg).symm.trans hG')
        rfl
    · intro g G' y hG' hy
      by_cases hg : g = join.name
      · subst hg
        cases (Function.update_self ..).symm.trans hG'
        rcases List.mem_append.mp hy with hy | hy
        · exact .inl ⟨G₀, hG₀, hy⟩
        · cases List.mem_singleton.mp hy
          exact .inr (hverifier ▸ hjoins)
      · exact .inl ⟨G', (hne hg).symm.trans hG', hy⟩

theorem Grouped.leftOther_groupStep (hs : Grouped es s)
    (hfound : s.connections c = some x) (name : Bytes) :
    GroupStep e s.sessions (s.leftOther c x.joinedGroup name).sessions ∧
      (s.leftOther c x.joinedGroup name).sessions.groups name = s.sessions.groups name := by
  have hc := Server.joinedOf_of hfound
  unfold Server.leftOther
  split
  · rename_i hmove
    obtain ⟨G, hG, -⟩ := hs.joined hc hmove.1
    refine ⟨(hs.leaveGroup hc).groupStep, ?_⟩
    exact (congrFun (SessionTable.leaveGroup_groups s.alive c hmove.1 hG) name).trans
      (Function.update_of_ne (Ne.symm hmove.2) _ _)
  · exact ⟨.of_eq rfl, rfl⟩

theorem Grouped.regroup (hs : Grouped es s) (hfound : s.connections c = some x)
    (hjoins : e.Joins c join) : GroupStep e s.sessions
      (((s.leftOther c x.joinedGroup join.name).joined c join).pruned join.name).sessions := by
  obtain ⟨hleft, hc⟩ := hs.leftOther hfound join.name
  rw [(hleft.join hjoins hc).pruned]
  obtain ⟨hstep, hname⟩ := hs.leftOther_groupStep (e := e) hfound join.name
  have hcase := hleft.joinGroup c join
  exact hstep.trans (hcase.groupStep hjoins) hname fun g hg => hcase.groups_of_ne hg

end Join

theorem Grouped.groupStep (hs : Grouped es s) (htidy : s.Tidy) (h : s.next e = some s') :
    GroupStep e s.sessions s'.sessions := by
  cases Server.next_happens htidy h with
  | refused hquiet => exact .of_eq (by rw [hquiet.sessions])
  | admitted hadmitted => exact .of_eq (by rw [hadmitted.sessions])
  | @frame env c f x s' _ hdoes =>
    obtain ⟨a, b, ha, hab, hb⟩ := hdoes
    have has := hs.sameGroups ha.keeps
    rw [← ha.sessions, hb.sessions]
    rcases hab with rfl | hab
    · exact .of_eq rfl
    · rcases hab.groups has with hsame | ⟨x, join, hfound, htype, hdecode, rfl⟩
      · exact .of_eq hsame.2
      · exact has.regroup hfound ⟨env, f, rfl, htype, hdecode⟩
  | closed hfound hparted => exact (hs.parted_shed hfound hparted).groupStep
  | expired => exact .of_eq rfl

theorem Grouped.afresh (hs : Grouped es s) {env : Env} {join : GroupJoin}
    (hfound : s.connections c = some x) (hidle : x.state = .receiverIdle)
    (htype : f.header.type = .groupJoin) (hdecode : GroupJoin.decode f.payload = .ok join)
    (hfree : s.sessions.groups join.name = none) :
    (s.processFrame env c f).sessions.groups join.name = some ⟨join.verifier, [c]⟩ := by
  have htouch := quiet_touched c s env
  obtain ⟨y, hy, hparty⟩ := htouch.found hfound
  have hst := hs.sameGroups htouch.keeps
  have hquiet := handleGroupJoin_quiet hy ((congrArg Party.state hparty).trans hidle) hdecode
  rw [(processFrame_quiet_after s env c f).sessions, handleFrame, htype, hquiet.sessions]
  obtain ⟨hleft, hc⟩ := hst.leftOther hy join.name
  rw [(hleft.join ⟨env, f, rfl, htype, hdecode⟩ hc).pruned]
  have hfree' : ((s.touched env c).leftOther c y.joinedGroup join.name).sessions.groups join.name =
      none := by
    rw [(hst.leftOther_groupStep (e := .frame env c f) hy join.name).2, htouch.sessions, hfree]
  unfold Server.joined
  dsimp only
  rw [hleft.joinGroup_free (GroupJoin.decode_valid hdecode) hfree']
  exact Function.update_self ..

/-! ## Runs -/

/-- What is true of groups after the events `es`. -/
structure GroupsSound (es : List ServerEvent) (s : Server) : Prop where
  /-- An open connection is a live member of a group exactly if it notes that group. -/
  member_iff : ∀ c p g, s.party c = some p → g ≠ [] →
    ((∃ G, s.sessions.groups g = some G ∧ c ∈ G.members) ↔ p.joinedGroup = g)
  /-- Nobody is listed twice. -/
  once : ∀ g G, s.sessions.groups g = some G → G.members.Nodup
  single : ∀ c g g' G G', s.sessions.groups g = some G → s.sessions.groups g' = some G' →
    c ∈ G.members → c ∈ G'.members → g = g'
  small : ∀ g G, s.sessions.groups g = some G →
    (G.members.filter s.alive).length ≤ kMaxGroupMembers
  /-- Every member presented the verifier. -/
  presented : ∀ g G c, s.sessions.groups g = some G → c ∈ G.members →
    ∃ e ∈ es, e.Joins c ⟨g, G.verifier⟩
  rosters : s.RostersDecode

/-- A group without live members is made afresh by the next join. -/
def MadeAfresh (s : Server) (e : ServerEvent) (s' : Server) : Prop :=
  ∀ c x join, e.Joins c join → s.connections c = some x → x.state = .receiverIdle →
    (∀ G, s.sessions.groups join.name = some G → ∀ m ∈ G.members, s.alive m = false) →
    s'.sessions.groups join.name = some ⟨join.verifier, [c]⟩

theorem Grouped.madeAfresh (hs : Grouped es s) (h : s.next e = some s') : MadeAfresh s e s' := by
  rintro c x join ⟨env, f, rfl, htype, hdecode⟩ hfound hidle hgone
  dsimp only [Server.next] at h
  split at h
  · cases h
    refine hs.afresh hfound hidle htype hdecode ?_
    refine Option.eq_none_iff_forall_ne_some.mpr fun G hG => ?_
    obtain ⟨m, hm⟩ := List.exists_mem_of_ne_nil _ (hs.nonempty hG)
    have halive := Server.alive_of_joinedOf (hs.member hG hm)
    rw [hgone G hG m hm] at halive
    cases halive
  · cases h

structure GroupsInv (es : List ServerEvent) (s : Server) : Prop where
  grouped : Grouped es s
  tidy : s.Tidy
  named : s.Named
  rosters : s.RostersDecode

theorem GroupsInv.step (hs : GroupsInv es s) (h : s.next e = some s') : GroupsInv (es ++ [e]) s' where
  grouped := hs.grouped.step hs.tidy h
  tidy := hs.tidy.step h
  named := hs.named.step hs.tidy h
  rosters := hs.rosters.step hs.grouped hs.named hs.tidy h

theorem Server.Started.groupsInv (h : s.Started) : GroupsInv [] s := by
  obtain ⟨options, rateLimiter, rfl⟩ := h
  refine ⟨?_, Server.Started.tidy ⟨options, rateLimiter, rfl⟩, nofun, nofun⟩
  constructor <;> exact nofun

theorem GroupsInv.sound (hs : GroupsInv es s) : GroupsSound es s where
  member_iff c p g hp hg := by
    have hc : s.joinedOf c = some p.joinedGroup := by
      rw [Server.joinedOf, Server.proj, hp]
      rfl
    constructor
    · rintro ⟨G, hG, hcG⟩
      exact Option.some.inj (hc.symm.trans (hs.grouped.member hG hcG))
    · rintro rfl
      exact hs.grouped.joined hc hg
  once _ _ := hs.grouped.nodup
  single c g g' G G' hG hG' hc hc' :=
    Option.some.inj ((hs.grouped.member hG hc).symm.trans (hs.grouped.member hG' hc'))
  small g G hG := (List.length_filter_le _ _).trans (hs.grouped.small hG)
  presented _ _ _ := hs.grouped.presented
  rosters := hs.rosters

/-- **Groups in every run.** Members and connections agree, a verifier stays while the group is there,
whoever becomes a member presents it, and a group that nobody is left of is made afresh. -/
theorem group_membership {s₀ : Server} (h₀ : s₀.Started)
    (h : runFrom Server.next s₀ es = some s) :
    GroupsSound es s ∧ ∀ e s', s.next e = some s' →
      GroupStep e s.sessions s'.sessions ∧ MadeAfresh s e s' := by
  have hinv : GroupsInv es s :=
    runFrom_invariant h₀.groupsInv (fun _ _ _ _ hi hs => hi.step hs) h
  exact ⟨hinv.sound, fun e s' hs => ⟨hinv.grouped.groupStep hinv.tidy hs, hinv.grouped.madeAfresh hs⟩⟩

def joiningTwo : List ServerEvent :=
  let env : Env := { nowMs := 0 }
  [(1, text "a"), (2, text "b")].flatMap fun (c, username) =>
    [.connect env (.inet 4000 privateAddress),
      .frame env c (Frame.of .clientHello (plainHello .receiver username).encode),
      .frame env c (Frame.of .groupJoin (GroupJoin.encode ⟨text "g", .replicate 32 7⟩))]

theorem group_membership_two : ∃ s, runFrom Server.next Server.start joiningTwo = some s ∧
    s.sessions.groups (text "g") = some ⟨.replicate 32 7, [1, 2]⟩ ∧ GroupsSound joiningTwo s := by
  obtain ⟨s, hs, hgroup⟩ : ∃ s ∈ runFrom Server.next Server.start joiningTwo,
      s.sessions.groups (text "g") = some ⟨.replicate 32 7, [1, 2]⟩ := by
    decide +kernel
  exact ⟨s, hs, hgroup, (group_membership Server.start_started hs).1⟩

/-! ## Joins that are refused -/

/-- A join that does not make a member leaves the table as it was, or prunes the group. -/
theorem SessionTable.joinGroup_refused {alive : ConnId → Bool} {t : SessionTable} {name : Bytes}
    {verifier : Block 32} {c : ConnId} (h : (t.joinGroup alive name verifier c).1.isMember = false) :
    (t.joinGroup alive name verifier c).2 = t ∨
      (t.joinGroup alive name verifier c).2 = t.pruneGroup alive name := by
  unfold SessionTable.joinGroup at h ⊢
  dsimp only at h ⊢
  split
  · exact .inl rfl
  · right
    rename_i hvalid
    rw [if_neg hvalid] at h
    cases hgroup : (t.pruneGroup alive name).groups name with
    | none =>
      rw [hgroup] at h
      cases h
    | some G =>
      rw [hgroup] at h
      dsimp only at h ⊢
      by_cases hmember : c ∈ G.members
      · rw [if_pos hmember]
      · rw [if_neg hmember] at h ⊢
        by_cases hverifier : G.verifier ≠ verifier
        · rw [if_pos hverifier]
        · rw [if_neg hverifier] at h ⊢
          by_cases hfull : kMaxGroupMembers ≤ G.members.length
          · rw [if_pos hfull]
          · rw [if_neg hfull] at h
            cases h

theorem SessionTable.pruneGroup_groups_of_ne {alive : ConnId → Bool} {t : SessionTable} {name g : Bytes}
    (hg : g ≠ name) : (t.pruneGroup alive name).groups g = t.groups g := by
  unfold SessionTable.pruneGroup
  split
  · exact Function.update_of_ne hg _ _
  · rfl

theorem SessionTable.pruneGroup_pruneGroup (alive : ConnId → Bool) (t : SessionTable) (name : Bytes) :
    (t.pruneGroup alive name).pruneGroup alive name = t.pruneGroup alive name := by
  refine SessionTable.pruneGroup_eq_self fun G hG => ?_
  unfold SessionTable.pruneGroup at hG
  cases hold : t.groups name with
  | none =>
    rw [hold] at hG
    cases hold.symm.trans hG
  | some N =>
    rw [hold] at hG
    dsimp only [SessionTable.setGroup] at hG
    rw [Function.update_self] at hG
    split at hG
    · cases hG
    · rename_i hne
      cases hG
      exact ⟨hne, fun m hm => (List.mem_filter.mp hm).2⟩

theorem log_enqueueFrame (s : Server) (c : ConnId) (type : MessageType) (payload : Bytes) :
    (final (enqueueFrame c type payload) s).log = s.log ∨
      (final (enqueueFrame c type payload) s).log = s.log ++ [(c, Frame.of type payload)] := by
  by_cases hlen : payload.length ≤ kMaxFrameLength
  · rw [final_of_ok (run_enqueueFrame s c hlen)]
    exact .inr rfl
  · rw [enqueueFrame, if_pos (Nat.lt_of_not_le hlen)]
    exact .inl rfl

theorem log_rejectAndClose (s : Server) (c : ConnId) (reason : Bytes) :
    (final (rejectAndClose c reason) s).log = s.log ∨
      (final (rejectAndClose c reason) s).log = s.log ++ [(c, Frame.of .reject reason)] := by
  have hlog := log_enqueueFrame s c .reject reason
  rcases final_bind_cases (enqueueFrame c .reject reason) (fun _ => requestClose c reason) s with
    hfinal | ⟨_, hfinal⟩ <;> rw [rejectAndClose, hfinal]
  · exact hlog
  · exact hlog

/-- The outcome of a join, after the other group was left. -/
def Server.joinOutcome (s : Server) (c : ConnId) (x : Connection) (join : GroupJoin) : GroupJoinOutcome :=
  let s := s.leftOther c x.joinedGroup join.name
  (s.sessions.joinGroup s.alive join.name join.verifier c).1

/-- What is sent back for a `GroupJoin`: nothing, a refusal of the frame, or the outcome of the join. -/
theorem handleGroupJoin_log (frame : Frame) (hfound : s.connections c = some x) :
    (final (handleGroupJoin c frame) s).log = s.log ∨
      (∃ reason, (final (handleGroupJoin c frame) s).log = s.log ++ [(c, Frame.of .reject reason)]) ∨
      ∃ join reply, x.state = .receiverIdle ∧ GroupJoin.decode frame.payload = .ok join ∧
        reply.outcome = s.joinOutcome c x join ∧ (final (handleGroupJoin c frame) s).log =
          s.log ++ [(c, Frame.of .groupResult (GroupResult.encode reply))] := by
  rw [handleGroupJoin, final_bind_ok (run_found hfound)]
  by_cases hidle : x.state = .receiverIdle
  · rw [if_neg (not_not.mpr hidle)]
    cases hdecode : GroupJoin.decode frame.payload with
    | error e => exact .inl rfl
    | ok join =>
      have hleft : (s.leftOther c x.joinedGroup join.name).log = s.log := by
        unfold Server.leftOther
        split <;> rfl
      have hreply : ∀ (s₁ : Server) (reply : GroupResult), s₁.log = s.log →
          reply.outcome = s.joinOutcome c x join →
          let s' := final (enqueueFrame c .groupResult (GroupResult.encode reply)) s₁
          s'.log = s.log ∨ (∃ reason, s'.log = s.log ++ [(c, Frame.of .reject reason)]) ∨
            ∃ join' reply', x.state = .receiverIdle ∧ (.ok join : Except Failure GroupJoin) = .ok join' ∧
              reply'.outcome = s.joinOutcome c x join' ∧
              s'.log = s.log ++ [(c, Frame.of .groupResult (GroupResult.encode reply'))] := by
        intro s₁ reply hlog houtcome
        rcases log_enqueueFrame s₁ c .groupResult (GroupResult.encode reply) with h | h
        · exact .inl (h.trans hlog)
        · exact .inr (.inr ⟨join, reply, hidle, rfl, houtcome, hlog ▸ h⟩)
      rw [final_bind_ok (run_decoded s join), final_bind_ok (leaveOtherGroup_run s c _ _),
        final_bind_ok (run_sessions _ _), final_bind_ok (run_update _ _ _),
        final_bind_ok (run_sessions _ _)]
      exact hreply _ _ hleft rfl
  · rw [if_pos hidle]
    exact (log_rejectAndClose s c _).imp_right fun h => .inl ⟨_, h⟩

theorem GroupResult.outcome_of_encode {r r' : GroupResult} (h : r.encode = r'.encode) :
    r.outcome = r'.outcome := by
  have hhead : r.outcome.toU8 = r'.outcome.toU8 := (List.cons.inj h).1
  have hcode := congrArg GroupJoinOutcome.ofU8? hhead
  rw [GroupJoinOutcome.ofU8?_toU8, GroupJoinOutcome.ofU8?_toU8] at hcode
  exact Option.some.inj hcode

/-- What a join that is refused leaves: the group that the connection was in is left all the same, if it
is another one, and nothing else is changed. -/
theorem refused_join_ends {s : Server} {env : Env} {c : ConnId} {frame : Frame}
    {reply : GroupResult} (htype : frame.header.type = .groupJoin) (hfound : s.connections c = some x)
    (hsent : (s.processFrame env c frame).log =
      s.log ++ [(c, Frame.of .groupResult (GroupResult.encode reply))])
    (hrefused : reply.outcome = .wrongPassword ∨ reply.outcome = .full ∨ reply.outcome = .invalidName) :
    ∃ join, GroupJoin.decode frame.payload = .ok join ∧
      (∀ z, (s.processFrame env c frame).joinedOf z =
        ((s.touched env c).leftOther c x.joinedGroup join.name).joinedOf z) ∧
      (s.processFrame env c frame).sessions =
        (((s.touched env c).leftOther c x.joinedGroup join.name).pruned join.name).sessions := by
  have htouch := quiet_touched (c := c) s env
  have hafter := processFrame_quiet_after s env c frame
  have hhandle : handleFrame env c frame = handleGroupJoin c frame := by
    rw [handleFrame, htype]
  have hlog : (s.processFrame env c frame).log =
      (final (handleGroupJoin c frame) (s.touched env c)).log := by
    rw [Server.processFrame, hhandle, final]
    cases (handleGroupJoin c frame).run (s.touched env c) <;> rfl
  rw [hhandle] at hafter
  rw [hlog] at hsent
  obtain ⟨y, hy, hparty⟩ := htouch.found hfound
  have hold : (s.touched env c).log = s.log := rfl
  rcases handleGroupJoin_log frame hy with h | ⟨reason, h⟩ | ⟨join, reply', hidle, hdecode, hout, h⟩
  · rw [h, hold] at hsent
    cases List.self_eq_append_right.mp hsent
  · rw [h, hold] at hsent
    have hframe := List.append_cancel_left hsent
    cases congrArg (fun l => l.map fun e : ConnId × Frame => e.2.header.type) hframe
  · rw [h, hold] at hsent
    have hframe := List.append_cancel_left hsent
    have hpayload : reply'.encode = reply.encode :=
      congrArg (fun e : ConnId × Frame => e.2.payload) (List.cons.inj hframe).1
    have hsame := GroupResult.outcome_of_encode hpayload
    have hgroup : y.joinedGroup = x.joinedGroup := congrArg Party.joinedGroup hparty
    have hend := (handleGroupJoin_quiet hy hidle hdecode).trans hafter
    rw [Server.joinOutcome, hgroup] at hout
    rw [hgroup] at hend
    generalize hleft : (s.touched env c).leftOther c x.joinedGroup join.name = left at hout hend
    have hmember : (left.sessions.joinGroup left.alive join.name join.verifier c).1.isMember = false := by
      rw [← hout, hsame]
      rcases hrefused with hr | hr | hr <;> rw [hr] <;> rfl
    refine ⟨join, hdecode, fun z => ?_, ?_⟩
    · calc (s.processFrame env c frame).joinedOf z
          = (left.joined c join).joinedOf z := by
            rw [Server.joinedOf, Server.proj, hend.parties z]
            rfl
        _ = left.joinedOf z := by
            refine Server.proj_update _ c (fun x => ?_) z
            rw [hmember, if_neg Bool.false_ne_true]
        _ = _ := by rw [hleft]
    · have hpruned : (s.processFrame env c frame).sessions =
          (left.sessions.joinGroup left.alive join.name join.verifier c).2.pruneGroup left.alive
            join.name := by
        rw [hend.sessions, Server.pruned, show (left.joined c join).alive = left.alive from alive_update _ c _]
        rfl
      rw [hpruned, hleft]
      rcases SessionTable.joinGroup_refused hmember with hjoined | hjoined
      · rw [hjoined]
        rfl
      · rw [hjoined, SessionTable.pruneGroup_pruneGroup]
        rfl

/-- A join that is refused changes no membership and no group, but for members that are gone, exactly
where the connection is in no group or in the one it asks for. -/
theorem refused_join_keeps {s : Server} {env : Env} {c : ConnId} {x : Connection} {frame : Frame}
    {reply : GroupResult} (htype : frame.header.type = .groupJoin) (hfound : s.connections c = some x)
    (hsent : (s.processFrame env c frame).log =
      s.log ++ [(c, Frame.of .groupResult (GroupResult.encode reply))])
    (hrefused : reply.outcome = .wrongPassword ∨ reply.outcome = .full ∨ reply.outcome = .invalidName) :
    ((∀ y, (s.processFrame env c frame).joinedOf y = s.joinedOf y) ∧
      ∀ g, (s.processFrame env c frame).sessions.groups g = s.sessions.groups g ∨
        (s.processFrame env c frame).sessions.groups g = (s.sessions.pruneGroup s.alive g).groups g) ↔
    ∀ join, GroupJoin.decode frame.payload = .ok join →
      x.joinedGroup = [] ∨ x.joinedGroup = join.name := by
  obtain ⟨join, hdecode, hjoined, hsessions⟩ := refused_join_ends htype hfound hsent hrefused
  have htouched : ∀ z, (s.touched env c).joinedOf z = s.joinedOf z := fun z => by
    rw [Server.joinedOf, Server.proj, (quiet_touched (c := c) s env).parties z]
    rfl
  constructor
  · rintro ⟨hkeeps, -⟩ join' hdecode'
    cases hdecode.symm.trans hdecode'
    by_contra hneither
    have hleaves := not_or.mp hneither
    -- the connection is in no group after the join
    obtain ⟨y, hy, -⟩ := (quiet_touched (c := c) s env).found hfound
    have hnow := hkeeps c
    rw [hjoined, Server.leftOther, if_pos hleaves, Server.joinedOf_left hy,
      Server.joinedOf_of hfound] at hnow
    exact hleaves.1 (Option.some.inj hnow).symm
  · intro hstay
    have hleft : (s.touched env c).leftOther c x.joinedGroup join.name = s.touched env c := by
      refine if_neg fun hleaves => ?_
      rcases hstay join hdecode with hnone | hname
      · exact hleaves.1 hnone
      · exact hleaves.2 hname
    rw [hleft] at hjoined hsessions
    refine ⟨fun z => (hjoined z).trans (htouched z), fun g => ?_⟩
    have hprune : (s.processFrame env c frame).sessions = s.sessions.pruneGroup s.alive join.name := by
      rw [hsessions, Server.pruned, show (s.touched env c).alive = s.alive from alive_update s c _]
      rfl
    rw [hprune]
    by_cases hg : g = join.name
    · rw [hg]
      exact .inr rfl
    · exact .inl (SessionTable.pruneGroup_groups_of_ne hg)

def joiningApart : List ServerEvent :=
  let env : Env := { nowMs := 0 }
  [.connect env (.inet 4000 privateAddress), .connect env (.inet 4001 privateAddress),
    .frame env 1 (Frame.of .clientHello (plainHello .receiver (text "r")).encode),
    .frame env 2 (Frame.of .clientHello (plainHello .receiver (text "q")).encode),
    .frame env 1 (Frame.of .groupJoin (GroupJoin.encode ⟨text "g", .replicate 32 7⟩)),
    .frame env 2 (Frame.of .groupJoin (GroupJoin.encode ⟨text "h", .replicate 32 8⟩))]

/-- A join of the group "h" with another password. -/
def wrongJoin : Frame := Frame.of .groupJoin (GroupJoin.encode ⟨text "h", .replicate 32 7⟩)

def wrongPassword : GroupResult where
  outcome := .wrongPassword
  message := text "wrong password for group h"
  memberCount := 1

/-- A receiver that is in no group is told that the password is wrong. -/
theorem refused_join_keeps_stranger : ∃ s : Server, runFrom Server.next Server.start
      (joiningApart.eraseIdx 4) = some s ∧ s.sessions.groups (text "h") = some ⟨.replicate 32 8, [2]⟩ ∧
      (s.processFrame { nowMs := 0 } 1 wrongJoin).joinedOf 1 = some [] := by
  obtain ⟨s, hs, hsent, hgroup, x, hx, hnone⟩ : ∃ s ∈ runFrom Server.next Server.start
      (joiningApart.eraseIdx 4),
      (s.processFrame { nowMs := 0 } 1 wrongJoin).log =
        s.log ++ [(1, Frame.of .groupResult wrongPassword.encode)] ∧
      s.sessions.groups (text "h") = some ⟨.replicate 32 8, [2]⟩ ∧
      ∃ x ∈ s.connections 1, x.joinedGroup = [] := by
    decide +kernel
  have hkeeps := (refused_join_keeps (by rfl : wrongJoin.header.type = .groupJoin) hx hsent
    (.inl rfl)).mpr fun _ _ => .inl hnone
  refine ⟨s, hs, hgroup, ?_⟩
  rw [hkeeps.1 1, Server.joinedOf, Server.proj, Server.party, hx]
  exact congrArg some hnone

/-- The receiver leaves its own group for one that refuses it: it is in no group, and the group that it was
alone in is gone with its verifier. -/
theorem refused_join_leaves : ∃ s : Server, runFrom Server.next Server.start joiningApart = some s ∧
    let s' := s.processFrame { nowMs := 0 } 1 wrongJoin
    s'.log = s.log ++ [(1, Frame.of .groupResult wrongPassword.encode)] ∧
      s.joinedOf 1 = some (text "g") ∧ s'.joinedOf 1 = some [] ∧
      s.sessions.groups (text "g") = some ⟨.replicate 32 7, [1]⟩ ∧ s'.sessions.groups (text "g") = none := by
  change ∃ s ∈ runFrom Server.next Server.start joiningApart, _
  decide +kernel

end DropZone
