import DropZone.Server.Buffers
import DropZone.Server.RelayEnds

/-!
# Relay back-pressure

`handle_relay_data` pauses a source whose peer has too much pending, and the first flush of the peer's
`service_connection` resumes it. A source that is paused must have someone who will resume it.

* `Server.Watched`: the peer of a paused source has output pending or a wake queued. Every event keeps
  that but a last flush that takes all (`Host.Leaves`).
* `never_stranded`: so no source is stranded in runs without such flushes.
* `source_stranded`: a run with one.
-/

namespace DropZone

open LittleEndian StateSpec System

/-! ## Who resumes a paused source -/

/-- The peer that a paused source relays to will flush again, unless it is in `E`. -/
structure Server.Watched (E : ConnId → Prop) (s : Server) : Prop where
  queued : ∀ {c x}, s.connections c = some x → x.Queued
  attended : ∀ {a b x y}, s.connections a = some x → x.readPaused = true → x.relayPeer = some b →
    s.connections b = some y → y.state = .relaying → ¬ E b →
      0 < y.pendingOutput ∨ b ∈ s.wakeQueue

/-- What a step may do to a record without leaving a paused source alone. -/
structure Connection.Tends (x x' : Connection) : Prop where
  peer : x'.relayPeer = x.relayPeer
  state : x'.state = .relaying → x.state = .relaying
  paused : x'.readPaused = true → x.readPaused = true
  queued : x.Queued → x'.Queued ∧ x.pendingOutput ≤ x'.pendingOutput

theorem Connection.Tends.refl (x : Connection) : x.Tends x :=
  ⟨rfl, id, id, fun hq => ⟨hq, Nat.le_refl _⟩⟩

/-- No wake is dropped, and every record may have been changed so. -/
def Tends (s s' : Server) : Prop :=
  s.wakeQueue ⊆ s'.wakeQueue ∧
    ∀ y x', s'.connections y = some x' → ∃ x, s.connections y = some x ∧ x.Tends x'

section Watched

variable {E F : ConnId → Prop} {s s' s'' : Server} {c : ConnId}

theorem Tends.update (s : Server) (c : ConnId) {f : Connection → Connection}
    (hf : ∀ x : Connection, x.Tends (f x)) : Tends s (s.update c f) := by
  refine ⟨List.Subset.refl _, fun y x' hx' => ?_⟩
  by_cases hy : y = c
  · subst hy
    rw [Server.connections_update_self] at hx'
    obtain ⟨x, hx, rfl⟩ := Option.map_eq_some_iff.mp hx'
    exact ⟨x, hx, hf x⟩
  · rw [Server.connections_update_of_ne hy] at hx'
    exact ⟨x', hx', .refl x'⟩

theorem Tends.same (hw : s.wakeQueue ⊆ s'.wakeQueue) (hc : s'.connections = s.connections) :
    Tends s s' :=
  ⟨hw, fun _ x' hx' => ⟨x', hc ▸ hx', .refl x'⟩⟩

theorem Writes.tends {T : ConnId → Prop} {n : Nat} (h : Writes True T n s s') : Tends s s' := by
  obtain ⟨hwakes, new, -, -, -, hqueue⟩ := h
  refine ⟨hwakes, fun y x' hx' => ?_⟩
  obtain ⟨x, hx, hsame, hq⟩ := hqueue y x' hx'
  obtain ⟨hpaused, hpeer, hst⟩ := hsame trivial
  refine ⟨x, hx, hpeer, hst, fun h => hpaused ▸ h, fun hwf => ⟨(hq hwf).1, ?_⟩⟩
  rw [← x'.length_unsent, ← x.length_unsent, (hq hwf).2, List.length_append]
  exact Nat.le_add_right _ _

theorem Server.Watched.tends (hs : s.Watched E) (h : Tends s s') : s'.Watched E := by
  refine ⟨fun {c x'} hx' => ?_, fun {a b x' y'} hx' hpaused hpeer hy' hst hb => ?_⟩
  · obtain ⟨x, hx, ht⟩ := h.2 c x' hx'
    exact (ht.queued (hs.queued hx)).1
  · obtain ⟨x, hx, htx⟩ := h.2 a x' hx'
    obtain ⟨y, hy, hty⟩ := h.2 b y' hy'
    rcases hs.attended hx (htx.paused hpaused) (htx.peer ▸ hpeer) hy (hty.state hst) hb with
      hpos | hwake
    · exact .inl (hpos.trans_le (hty.queued (hs.queued hy)).2)
    · exact .inr (h.1 hwake)

theorem Server.Watched.update (hs : s.Watched E) {f : Connection → Connection}
    (hE : ∀ y, E y → F y) (hqueued : ∀ x, x.Queued → (f x).Queued)
    (hpeer : ∀ x, (f x).relayPeer = x.relayPeer) (hstate : ∀ x, (f x).state = x.state)
    (hpaused : ∀ x b, s.connections c = some x → x.relayPeer = some b →
      (f x).readPaused = true → x.readPaused = true ∨ F b)
    (hpending : F c ∨ ∀ x, (f x).pendingOutput = x.pendingOutput) : (s.update c f).Watched F := by
  have hcases : ∀ {y x'}, (s.update c f).connections y = some x' →
      ∃ x, s.connections y = some x ∧ (y = c ∧ x' = f x ∨ y ≠ c ∧ x' = x) := by
    intro y x' hx'
    by_cases hy : y = c
    · subst hy
      rw [Server.connections_update_self] at hx'
      obtain ⟨x, hx, rfl⟩ := Option.map_eq_some_iff.mp hx'
      exact ⟨x, hx, .inl ⟨rfl, rfl⟩⟩
    · rw [Server.connections_update_of_ne hy] at hx'
      exact ⟨x', hx', .inr ⟨hy, rfl⟩⟩
  refine ⟨fun {y x'} hx' => ?_, fun {a b x' y'} hx' hp hr hy' hst hb => ?_⟩
  · obtain ⟨x, hx, ⟨-, rfl⟩ | ⟨-, rfl⟩⟩ := hcases hx'
    · exact hqueued x (hs.queued hx)
    · exact hs.queued hx
  · obtain ⟨x, hx, hx'⟩ := hcases hx'
    obtain ⟨y, hy, hy'⟩ := hcases hy'
    have hr₀ : x.relayPeer = some b := by
      rcases hx' with ⟨-, rfl⟩ | ⟨-, rfl⟩
      · rwa [hpeer] at hr
      · exact hr
    have hp₀ : x.readPaused = true := by
      rcases hx' with ⟨rfl, rfl⟩ | ⟨-, rfl⟩
      · exact (hpaused x b hx hr₀ hp).resolve_right hb
      · exact hp
    have hst₀ : y.state = .relaying := by
      rcases hy' with ⟨-, rfl⟩ | ⟨-, rfl⟩
      · rwa [hstate] at hst
      · exact hst
    refine (hs.attended hx hp₀ hr₀ hy hst₀ fun h => hb (hE b h)).imp_left fun hpos => ?_
    rcases hy' with ⟨rfl, rfl⟩ | ⟨-, rfl⟩
    · rwa [hpending.resolve_left hb]
    · exact hpos

/-- A wake is taken from the queue. -/
theorem Server.Watched.drained (hs : s.Watched fun _ => False) (c : ConnId) :
    { s with wakeQueue := s.wakeQueue.erase c }.Watched (· = c) := by
  refine ⟨hs.queued, fun {a b x y} hx hpaused hpeer hy hst hb => ?_⟩
  refine (hs.attended hx hpaused hpeer hy hst id).imp_right fun hwake => ?_
  exact (List.mem_erase_of_ne hb).mpr hwake

theorem Server.Watched.settled (hs : s.Watched E)
    (h : ∀ {a b x y}, s.connections a = some x → x.readPaused = true → x.relayPeer = some b →
      s.connections b = some y → y.state = .relaying → E b → 0 < y.pendingOutput ∨ b ∈ s.wakeQueue) :
    s.Watched fun _ => False := by
  refine ⟨hs.queued, fun {a b x y} hx hpaused hpeer hy hst _ => ?_⟩
  by_cases hb : E b
  · exact h hx hpaused hpeer hy hst hb
  · exact hs.attended hx hpaused hpeer hy hst hb

theorem Server.Watched.woken (hs : s.Watched E) {w : List ConnId} (hw : s.wakeQueue ⊆ w)
    (h : ∀ {b y}, s.connections b = some y → E b → b ∈ w) :
    { s with wakeQueue := w }.Watched fun _ => False := by
  have htends : Tends s { s with wakeQueue := w } := .same hw rfl
  exact (hs.tends htends).settled fun _ _ _ hy _ hb => .inr (h hy hb)

end Watched

/-! ## Frames -/

section Frames

variable {s : Server} {c : ConnId} {frame : Frame} {x : Connection}

theorem relaying_connections {a b y : ConnId} {x' : Connection}
    (hx' : (s.relaying a b).connections y = some x') :
    s.connections y = some x' ∨
    ∃ x, (y = a ∨ y = b) ∧ s.connections y = some x ∧ x'.output = x.output ∧ x'.outputSent = x.outputSent ∧
      x'.readPaused = x.readPaused ∧ (x'.relayPeer = some a ∨ x'.relayPeer = some b) := by
  unfold Server.relaying at hx'
  by_cases hb : y = b
  · subst hb
    by_cases ha : y = a
    · subst ha
      simp only [Server.connections_update_self, Option.map_map, Option.map_eq_some_iff] at hx'
      obtain ⟨x, hx, rfl⟩ := hx'
      exact .inr ⟨x, .inl rfl, hx, rfl, rfl, rfl, .inl rfl⟩
    · simp only [Server.connections_update_self, Server.connections_update_of_ne ha, Option.map_map,
        Option.map_eq_some_iff] at hx'
      obtain ⟨x, hx, rfl⟩ := hx'
      exact .inr ⟨x, .inr rfl, hx, rfl, rfl, rfl, .inl rfl⟩
  · rw [Server.connections_update_of_ne hb] at hx'
    by_cases ha : y = a
    · subst ha
      simp only [Server.connections_update_self, Server.connections_update_of_ne hb,
        Option.map_map, Option.map_eq_some_iff] at hx'
      obtain ⟨x, hx, rfl⟩ := hx'
      exact .inr ⟨x, .inl rfl, hx, rfl, rfl, rfl, .inr rfl⟩
    · simp only [Server.connections_update_of_ne ha, Server.connections_update_of_ne hb] at hx'
      exact .inl hx'

theorem Server.Watched.relaying (hs : s.Watched fun _ => False) (a b : ConnId) :
    (s.relaying a b).Watched fun y => y = a ∨ y = b := by
  refine ⟨fun {y x'} hx' => ?_, fun {v w x' y'} hx' hpaused hpeer hy' hst hw => ?_⟩
  · rcases relaying_connections hx' with hx | ⟨x, -, hx, hout, hsent, -⟩
    · exact hs.queued hx
    · rw [Connection.Queued, hout, hsent]
      exact hs.queued hx
  · rcases relaying_connections hy' with hy | ⟨y, hends, -⟩
    · rcases relaying_connections hx' with hx | ⟨x, -, -, -, -, -, hends | hends⟩
      · exact hs.attended hx hpaused hpeer hy hst id
      · cases hends.symm.trans hpeer
        exact absurd (.inl rfl) hw
      · cases hends.symm.trans hpeer
        exact absurd (.inr rfl) hw
    · exact absurd hends hw

theorem alive_relaying (s : Server) (a b : ConnId) : (s.relaying a b).alive = s.alive := by
  unfold Server.relaying
  rw [alive_update, alive_update, alive_update, alive_update]

theorem relaying_tends {β : Type} {τ : SessionTable → β} {a b : ConnId}
    (h : Keeps (fun p => (p.state, p.relayPeer)) τ s (s.relaying a b)) :
    Tends s (s.relaying a b) := by
  refine ⟨List.Subset.refl _, fun y x' hx' => ?_⟩
  rcases relaying_connections hx' with hx | ⟨x, -, hx, hout, hsent, hpaused, -⟩
  · exact ⟨x', hx, .refl x'⟩
  · have hproj := h.1 y
    rw [Server.proj, Server.proj, Server.party_of hx, Server.party_of hx'] at hproj
    simp only [Option.map_some, Option.some.injEq, Prod.mk.injEq] at hproj
    refine ⟨x, hx, hproj.2, fun hst => hproj.1.symm.trans hst, fun h => hpaused ▸ h, fun hq => ?_⟩
    simp only [Connection.Queued, Connection.pendingOutput, hout, hsent] at hq ⊢
    exact ⟨hq, Nat.le_refl _⟩

theorem enqueueFrame_tends (s : Server) (y : ConnId) (type : MessageType) (payload : Bytes) :
    Tends s (final (enqueueFrame y type payload) s) :=
  (writes_enqueueFrame (T := fun _ => True) trivial type payload s : Writes True _ 1 _ _).tends

theorem rejectAndClose_tends (s : Server) (y : ConnId) (reason : Bytes) :
    Tends s (final (rejectAndClose y reason) s) :=
  (walks_rejectAndClose (k := { sends := fun _ _ => True, closes := fun _ => True }) trivial trivial
    reason s).writes.tends

theorem requestClose_tends (s : Server) (y : ConnId) (reason : Bytes) :
    Tends s (s.update y (·.requestClose reason)) :=
  (writes_requestClose (T := fun _ => True) y reason s : Writes True _ 0 _ _).tends

theorem touched_tends (s : Server) (env : Env) (y : ConnId) : Tends s (s.touched env y) :=
  .update s y fun _ => ⟨rfl, id, id, fun hq => ⟨hq, Nat.le_refl _⟩⟩

theorem handleRelayOpen_watched (hs : s.Watched fun _ => False) :
    (final (handleRelayOpen c) s).Watched fun _ => False := by
  rw [handleRelayOpen, final_bind_ok (run_get s), final_bind_ok (run_connection s c)]
  split
  · exact hs.tends (rejectAndClose_tends s c _)
  split
  · exact hs.tends (rejectAndClose_tends s c _)
  rw [final_bind_ok (run_sessions s _)]
  split
  · exact hs.tends (rejectAndClose_tends s c _)
  · rename_i pr _
    rw [final_bind_ok (lockBoth_run _ pr)]
    split
    · exact hs.tends (rejectAndClose_tends s c _)
    · rename_i sender receiver _
      rw [final_bind_ok (run_sessions _ _)]
      dsimp only
      generalize SessionTable.requestRelay _ _ _ = started
      have hs₁ : { s with sessions := started.2 }.Watched fun _ => False :=
        hs.tends (.same (List.Subset.refl _) rfl)
      split
      · -- both ends of the relay that opens are woken
        rw [final_bind_ok (startRelaying_run _ _ _)]
        have hs₂ := hs₁.relaying sender receiver
        generalize Server.relaying _ sender receiver = s₂ at hs₂ ⊢
        have hs₃ := hs₂.tends (enqueueFrame_tends s₂ sender .relayOpen [])
        rw [final_of_ok (run_enqueueFrame s₂ sender (by decide))] at hs₃
        rw [final_bind_ok (run_enqueueFrame s₂ sender (by decide))]
        generalize ({ s₂.update sender _ with log := _ } : Server) = s₃ at hs₃ ⊢
        have hs₄ := hs₃.tends (enqueueFrame_tends s₃ receiver .relayOpen [])
        rw [final_of_ok (run_enqueueFrame s₃ receiver (by decide))] at hs₄
        rw [final_bind_ok (run_enqueueFrame s₃ receiver (by decide))]
        generalize ({ s₃.update receiver _ with log := _ } : Server) = s₄ at hs₄ ⊢
        refine hs₄.woken (w := s₄.wakeQueue ++ [sender] ++ [receiver]) ?_ fun _ hends => ?_
        · exact fun y hy => List.mem_append_left _ (List.mem_append_left _ hy)
        · rcases hends with rfl | rfl <;> simp
      · exact hs₁

/-- The end of `handle_relay_data`: it wakes the peer of `c`, or `c` has none that is open. -/
theorem forward_watched {p : ConnId} (hs : s.Watched fun _ => False)
    (hlen : frame.payload.length ≤ kMaxFrameLength)
    (hc : ∀ b, s.relayPeerId c = some b → b = p ∨ s.alive b = false) :
    (final (do
      enqueueFrame p .relayData frame.payload
      let q ← connection p
      update c fun x =>
        if q.pendingOutput > kRelayPauseThreshold then { x with readPaused := true } else x
      wakeFor p) s).Watched fun _ => False := by
  have htends := enqueueFrame_tends s p .relayData frame.payload
  have halive : ∀ b, s.alive b = false → (final (enqueueFrame p .relayData frame.payload) s).alive b =
      false := by
    rw [final_of_ok (run_enqueueFrame s p hlen)]
    exact fun b hb => (congrFun (alive_update s p _) b).trans hb
  rw [final_of_ok (run_enqueueFrame s p hlen)] at htends halive
  rw [final_bind_ok (run_enqueueFrame s p hlen)]
  generalize ({ s.update p _ with log := _ } : Server) = s₁ at htends halive ⊢
  rw [final_bind_ok (run_connection s₁ p)]
  generalize (s₁.connections p).getD default = q
  have hs₂ : (s₁.update c fun x =>
      if q.pendingOutput > kRelayPauseThreshold then { x with readPaused := true } else x).Watched
      fun b => b = p ∨ s₁.alive b = false := by
    refine (hs.tends htends).update (fun _ => False.elim) ?_ ?_ ?_ (fun x b hx hpeer _ => .inr ?_)
      (.inr fun x => ?_)
    · intro x hq
      split <;> exact hq
    · intro x
      split <;> rfl
    · intro x
      split <;> rfl
    · obtain ⟨x₀, hx₀, ht⟩ := htends.2 c x hx
      exact (hc b (by rw [Server.relayPeerId_of hx₀, ← ht.peer, hpeer])).imp_right (halive b)
    · split <;> rfl
  have halive₂ := alive_update s₁ c fun x =>
    if q.pendingOutput > kRelayPauseThreshold then { x with readPaused := true } else x
  refine hs₂.woken (List.subset_append_left _ [p]) fun {b y} hy hb => ?_
  rcases hb with rfl | hdead
  · exact List.mem_append_right _ (List.mem_singleton_self b)
  · rw [← halive₂, Server.alive, hy] at hdead
    cases hdead

theorem handleRelayData_watched (hs : s.Watched fun _ => False) (hinv : s.RelayInv)
    (hlen : frame.payload.length ≤ kMaxFrameLength) (hx : s.connections c = some x) :
    (final (handleRelayData c frame) s).Watched fun _ => False := by
  rw [handleRelayData, final_bind_ok (run_found hx)]
  obtain ⟨p, hp, -, hrun⟩ | ⟨pr, hdetached, -, hpr, hactive, -, -, hrun⟩ | hrun :=
    relayPeerOf_cases s c x
  · rw [final_bind_ok hrun]
    refine forward_watched hs hlen fun b hb => .inl ?_
    rw [Server.relayPeerId_of hx, hp] at hb
    exact (Option.some.inj hb).symm
  · rw [final_bind_ok hrun]
    -- the ends of an active relay are attached already
    have htends := relaying_tends (hinv.mutually.relaying_keeps hinv.consistent hpr hactive)
    refine forward_watched (hs.tends htends) hlen fun b hb => .inr ?_
    obtain ⟨x', hx', hpeer⟩ := Option.bind_eq_some_iff.mp hb
    obtain ⟨x₀, hx₀, ht⟩ := htends.2 c x' hx'
    cases hx.symm.trans hx₀
    rw [alive_relaying]
    exact hdetached b (ht.peer ▸ hpeer)
  · rw [final_bind_ok hrun]
    exact hs.tends (rejectAndClose_tends s c _)

theorem processFrame_watched (hs : s.Watched fun _ => False) (hinv : s.RelayInv)
    (hlen : frame.payload.length ≤ kMaxFrameLength) (halive : s.alive c = true) (env : Env) :
    (s.processFrame env c frame).Watched fun _ => False := by
  by_cases htype : frame.header.type.Relays
  · have hs₁ := hs.tends (touched_tends s env c)
    have hinv₁ := hinv.quiet (quiet_touched (c := c) s env)
    have halive₁ := (congrFun (quiet_touched (c := c) s env).alive c).trans halive
    obtain ⟨x, hx⟩ := Option.isSome_iff_exists.mp halive₁
    have hhandled : (final (handleFrame env c frame) (s.touched env c)).Watched fun _ => False := by
      unfold handleFrame
      rcases htype with htype | htype
      · rw [htype]
        exact handleRelayOpen_watched hs₁
      · rw [htype]
        exact handleRelayData_watched hs₁ hinv₁ hlen hx
    rw [Server.processFrame]
    rw [final] at hhandled
    split
    · rename_i hrun
      rwa [hrun] at hhandled
    · rename_i e s' hrun
      rw [hrun] at hhandled
      exact hhandled.tends (requestClose_tends s' c e.what)
  · exact hs.tends (processFrame_writes c frame (fun _ => htype) env s).tends

end Frames

/-! ## Flushes -/

namespace Host

/-- The last flush does not take all that is pending for a connection that a paused source relays to,
unless it ends the connection. -/
def Leaves (h : Host) : HostEvent → Prop
  | .finish c k => ∀ closed stillOpen x peer y, h.phase c = .ending closed stillOpen →
      h.server.connections c = some x → ends x k closed stillOpen = false → x.state = .relaying →
      x.relayPeer = some peer → h.server.connections peer = some y → y.readPaused = true →
      c ∉ h.server.wakeQueue → k.taken < x.pendingOutput
  | _ => True

def LeavingStep (h : Host) (e : HostEvent) (h' : Host) : Prop := h.Step e h' ∧ h.Leaves e

end Host

section Flush

variable {E : ConnId → Prop} {s : Server} {h h' : Host} {c : ConnId} {k : Socket}

theorem Connection.flushOutput_state (x : Connection) (k : Socket) :
    (x.flushOutput k).state = x.state := congrArg Party.state (x.flushOutput_party k)

theorem Connection.flushOutput_relayPeer (x : Connection) (k : Socket) :
    (x.flushOutput k).relayPeer = x.relayPeer := congrArg Party.relayPeer (x.flushOutput_party k)

/-- A connection that was flushed is still to be attended. -/
theorem Server.Watched.flush (hs : s.Watched E) (hE : ∀ y, E y → y = c) (k : Socket) :
    (s.update c (·.flushOutput k)).Watched (· = c) := by
  refine hs.update hE (fun x hq => (hq.flushOutput k).1) (fun x => x.flushOutput_relayPeer k)
    (fun x => x.flushOutput_state k) (fun x b _ _ hp => .inl ?_) (.inl rfl)
  rwa [x.flushOutput_readPaused k] at hp

/-- A source whose peer has little pending is not paused after the first flush. -/
theorem resumeSource_resumes {x y : Connection} {a : ConnId} (hst : x.state = .relaying)
    (hpending : x.pendingOutput ≤ kRelayResumeThreshold) (hpeer : x.relayPeer = some a)
    (hy : (s.resumeSource x).connections a = some y) : y.readPaused = false := by
  unfold Server.resumeSource at hy
  rw [if_pos ⟨hst, hpending⟩, hpeer] at hy
  dsimp only at hy
  split at hy
  · rename_i y₀ hy₀
    split at hy
    · rw [Server.connections_update_self, hy₀] at hy
      cases hy
      rfl
    · rename_i hreads
      cases hy₀.symm.trans hy
      exact Bool.eq_false_iff.mpr hreads
  · rename_i hnone
    cases hnone.symm.trans hy

theorem resumeSource_tends (s : Server) (x : Connection) : Tends s (s.resumeSource x) := by
  unfold Server.resumeSource
  split
  · split
    · rename_i peer _
      split
      · split
        · have htends : Tends s (s.update peer fun y => { y with readPaused := false }) :=
            .update s peer fun _ => ⟨rfl, id, Bool.noConfusion, fun hq => ⟨hq, Nat.le_refl _⟩⟩
          exact ⟨List.subset_append_left _ _, htends.2⟩
        · exact .same (List.Subset.refl _) rfl
      · exact .same (List.Subset.refl _) rfl
    · exact .same (List.Subset.refl _) rfl
  · exact .same (List.Subset.refl _) rfl

/-- The end of a connection. -/
theorem Server.Watched.closed (hs : s.Watched E) (hE : ∀ y, E y → y = c) (halive : s.alive c = true)
    (htidy : s.Tidy) : (final (closeConnection c) s).Watched fun _ => False := by
  have htends := (closeConnection_writes c s : Writes True _ 1 _ _).tends
  refine (hs.tends htends).settled fun {a b x y} _ _ _ hy _ hb => ?_
  obtain rfl := hE b hb
  have hclose : s.next (.close b) = some (final (closeConnection b) s) := if_pos halive
  cases Server.next_happens htidy hclose with
  | closed _ hparted =>
    have hgone := hparted.gone
    rw [Server.party_of hy] at hgone
    cases hgone

theorem flush_close_watched (hs : h.server.Watched E) (hE : ∀ y, E y → y = c)
    (hinv : h.server.RelayInv) (halive : h.server.alive c = true) :
    ((h.flush c k).close c).server.Watched fun _ => False := by
  have hquiet := quiet_flush h c k
  refine (hs.flush hE k).closed (fun _ => id) ?_ (hinv.tidy.quiet hquiet)
  exact (congrFun hquiet.alive c).trans halive

/-- The first flush of `service_connection` attends to the source, if it takes all. -/
theorem resumeSource_watched {x : Connection} (hs : s.Watched (· = c)) (hinv : s.RelayInv)
    (hx : s.connections c = some x) : (s.resumeSource x).Watched fun _ => False := by
  have htends := resumeSource_tends s x
  refine (hs.tends htends).settled fun {a b w y} hw hpaused hpeer hy hst hb => ?_
  subst hb
  obtain ⟨w₀, hw₀, htw⟩ := htends.2 a w hw
  obtain ⟨y₀, hy₀, hty⟩ := htends.2 b y hy
  cases hx.symm.trans hy₀
  rcases Nat.eq_zero_or_pos x.pendingOutput with hzero | hpos
  · -- its peer is the source, which reads again
    have hback : x.relayPeer = some a := by
      have hback := hinv.mutually.back (a := a) (b := b)
        (by rw [Server.relayPeerId_of hw₀, ← htw.peer, hpeer]) (by rw [Server.alive, hx]; rfl)
      rwa [Server.relayPeerId_of hx] at hback
    have hreads := resumeSource_resumes (hty.state hst) (by rw [hzero]; exact Nat.zero_le _) hback hw
    cases hreads.symm.trans hpaused
  · exact .inl (hpos.trans_le (hty.queued (hs.queued hx)).2)

theorem flush_watched (hs : s.Watched fun _ => False) (hinv : s.RelayInv)
    (hleaves : ∀ x peer y, s.connections c = some x → x.state = .relaying → x.relayPeer = some peer →
      s.connections peer = some y → y.readPaused = true → c ∉ s.wakeQueue →
        k.taken < x.pendingOutput) :
    (s.update c (·.flushOutput k)).Watched fun _ => False := by
  refine (hs.flush (fun _ => False.elim) k).settled fun {a b w y} hw hpaused hpeer hy hst hb => ?_
  subst hb
  rw [Server.connections_update_self] at hy
  obtain ⟨x, hx, rfl⟩ := Option.map_eq_some_iff.mp hy
  rw [x.flushOutput_state] at hst
  by_cases hwoken : b ∈ s.wakeQueue
  · exact .inr hwoken
  · obtain ⟨w₀, hw₀, hpaused₀, hpeer₀⟩ : ∃ w₀, s.connections a = some w₀ ∧ w₀.readPaused = true ∧
        w₀.relayPeer = some b := by
      by_cases ha : a = b
      · subst ha
        rw [Server.connections_update_self, hx] at hw
        cases hw
        rw [x.flushOutput_readPaused] at hpaused
        rw [x.flushOutput_relayPeer] at hpeer
        exact ⟨x, hx, hpaused, hpeer⟩
      · rw [Server.connections_update_of_ne ha] at hw
        exact ⟨w, hw, hpaused, hpeer⟩
    have hback := hinv.mutually.back (a := a) (b := b) (by rw [Server.relayPeerId_of hw₀, hpeer₀])
      (by rw [Server.alive, hx]; rfl)
    rw [Server.relayPeerId_of hx] at hback
    have hlt := hleaves x a w₀ hx hst hback hw₀ hpaused₀ hwoken
    left
    rw [← Connection.length_unsent, ((hs.queued hx).flushOutput k).2, List.length_drop,
      Connection.length_unsent]
    exact Nat.sub_pos_of_lt hlt

theorem serve_watched {env : Env} {event : ReadyEvent} (hs : h.server.Watched E)
    (hE : ∀ y, E y → y = c ∧ event.writable = true) (hinv : h.server.RelayInv)
    (halive : h.server.alive c = true) : (h.serve env c event k).server.Watched fun _ => False := by
  have htouched := quiet_touched (c := c) h.server env
  unfold Host.serve
  dsimp only
  have hs₁ := hs.tends (touched_tends h.server env c)
  have hinv₁ := hinv.quiet htouched
  have halive₁ := (congrFun htouched.alive c).trans halive
  generalize hh : ({ h with server := h.server.touched env c } : Host) = h₁
  have hserver : h₁.server = h.server.touched env c := hh ▸ rfl
  rw [← hserver] at hs₁ hinv₁ halive₁
  split
  · split
    · obtain ⟨x, hx⟩ := Option.isSome_iff_exists.mp halive₁
      have hx₂ : (h₁.flush c k).server.connections c = some (x.flushOutput k) := by
        rw [Host.flush, Server.connections_update_self, hx]
        rfl
      have hs₂ : (h₁.flush c k).server.Watched (· = c) := hs₁.flush (fun y hy => (hE y hy).1) k
      have hs₃ := resumeSource_watched hs₂ (hinv₁.quiet (quiet_flush h₁ c k)) hx₂
      rw [← Host.record_of hx₂] at hs₃
      exact hs₃
    · exact flush_close_watched hs₁ (fun y hy => (hE y hy).1) hinv₁ halive₁
  · rename_i hread
    exact hs₁.settled fun _ _ _ _ _ hb => absurd (hE _ hb).2 hread

end Flush

/-! ## Every run -/

structure Host.Sustained (h : Host) : Prop where
  relays : h.server.RelayInv
  watched : h.server.Watched fun _ => False

/-- A new connection relays for nobody. -/
theorem Server.Watched.accepted {s : Server} (hs : s.Watched fun _ => False) (env : Env)
    (addr : SockAddr) : (s.acceptConnection env addr).Watched fun _ => False := by
  unfold Server.acceptConnection
  dsimp only
  split
  · refine ⟨fun {c x} hx => ?_, fun {a b x y} hx hpaused hpeer hy hst hb => ?_⟩
    · by_cases hc : c = s.nextConnectionId
      · subst hc
        simp only [Function.update_self, Option.some.injEq] at hx
        subst hx
        exact Nat.le_refl _
      · simp only [Function.update_of_ne hc] at hx
        exact hs.queued hx
    · by_cases ha : a = s.nextConnectionId
      · subst ha
        simp only [Function.update_self, Option.some.injEq] at hx
        subst hx
        cases hpaused
      · by_cases hb : b = s.nextConnectionId
        · subst hb
          simp only [Function.update_self, Option.some.injEq] at hy
          subst hy
          cases hst
        · simp only [Function.update_of_ne ha] at hx
          simp only [Function.update_of_ne hb] at hy
          exact hs.attended hx hpaused hpeer hy hst id
  · exact ⟨hs.queued, hs.attended⟩

theorem Host.Sustained.step {h h' : Host} {e : HostEvent} (hs : h.Sustained)
    (hstep : h.LeavingStep e h') : h'.Sustained := by
  obtain ⟨hstep, hleaves⟩ := hstep
  refine ⟨hs.relays.amounts hstep.amounts, ?_⟩
  obtain ⟨hnext, -⟩ := hstep
  obtain ⟨hinv, hw⟩ := hs
  cases Host.happens hnext with
  | connect env addr => exact hw.accepted env addr
  | ready halive _ => exact serve_watched hw (fun _ => False.elim) hinv halive
  | @wake _ c _ halive _ =>
    have hquiet : Quiet h.server (h.drained c).server := .same rfl rfl rfl rfl rfl
    refine serve_watched (hw.drained c) ?_ (hinv.quiet hquiet) halive
    exact fun y hy => ⟨hy, rfl⟩
  | @drop _ c _ hgone _ =>
    refine (hw.drained c).settled fun {a b x y} _ _ _ hy _ hb => absurd hgone ?_
    rw [← hb, Server.alive, show h.server.connections b = some y from hy]
    exact Bool.noConfusion
  | recv _ hread => rwa [Host.read_server hread]
  | @frame env c _ _ _ _ halive =>
    unfold Host.handle
    split
    · exact hw.tends (requestClose_tends _ c _)
    · exact hw
    · rename_i f b hframe
      have hw' := processFrame_watched hw hinv (Inbox.nextFrame_length hframe) halive env
      dsimp only
      split <;> exact hw'
  | @finish c k closed stillOpen hphase halive =>
    unfold Host.conclude
    split
    · exact flush_close_watched hw (fun _ => False.elim) hinv halive
    · rename_i hends
      refine flush_watched hw hinv fun x peer y hx hst hpeer hy hpaused hwoken => ?_
      rw [Host.record_of hx, Bool.not_eq_true] at hends
      exact hleaves closed stillOpen x peer y hphase hx hends hst hpeer hy hpaused hwoken
  | timeout halive _ => exact hw.closed (fun _ => False.elim) halive hinv.tidy
  | expire env => exact hw.tends (.same (List.Subset.refl _) rfl)

theorem Host.Started.sustained {h : Host} (hs : h.Started) : h.Sustained := by
  obtain ⟨s, hs, rfl⟩ := hs
  refine ⟨hs.relayInv, ?_⟩
  obtain ⟨options, rateLimiter, rfl⟩ := hs
  refine ⟨fun hx => ?_, fun hx => ?_⟩ <;> cases hx

/-- The source is paused, and nothing is left to be done that would resume it. -/
def Server.Stranded (s : Server) (source : ConnId) : Prop :=
  ∃ x peer y, s.connections source = some x ∧ x.readPaused = true ∧ x.closeRequested = false ∧
    x.relayPeer = some peer ∧ s.connections peer = some y ∧ y.state = .relaying ∧
    y.pendingOutput = 0 ∧ peer ∉ s.wakeQueue ∧ source ∉ s.wakeQueue

/-- **No source is stranded in a run in which no last flush takes all that is pending for the peer of
a paused source.** -/
theorem never_stranded {h : Host} (hr : Reach Host.Started Host.LeavingStep h) (source : ConnId) :
    ¬ h.server.Stranded source := by
  rintro ⟨x, peer, y, hx, hpaused, -, hpeer, hy, hst, hpending, hwoken, -⟩
  have hs : h.Sustained :=
    hr.invariant (I := Host.Sustained) (fun _ hs => hs.sustained) fun _ _ _ hs hstep => hs.step hstep
  rcases hs.watched.attended hx hpaused hpeer hy hst id with hpos | hwake
  · exact hpos.ne' hpending
  · exact hwoken hwake

/-! ## A relay whose receiver takes nothing -/

/-- A check that implies `LeavingStep`: the peer is not paused, and a pairing id is left. -/
def Host.leavingNext (h : Host) (e : HostEvent) : Option Host :=
  let unpaused := match e with
    | .finish c _ => (h.server.connections c).all fun x => x.relayPeer.all fun peer =>
        (h.server.connections peer).all fun y => !y.readPaused
    | _ => true
  if (h.server.sessions.pairings 9).isNone && unpaused then h.next e else none

theorem Host.leavingStep_of_leavingNext {h h' : Host} {e : HostEvent}
    (hnext : h.leavingNext e = some h') : h.LeavingStep e h' := by
  unfold leavingNext at hnext
  simp only [Option.ite_none_right_eq_some, Bool.and_eq_true, Option.isNone_iff_eq_none] at hnext
  obtain ⟨⟨hid, hunpaused⟩, hnext⟩ := hnext
  refine ⟨⟨hnext, ?_⟩, ?_⟩
  · cases e with
    | frame env c => exact fun _ _ _ _ => ⟨9, by decide, hid⟩
    | _ => trivial
  · cases e with
    | finish c k =>
      intro _ _ x peer y _ hx _ _ hpeer hy hpaused _
      simp [hx, hpeer, hy, hpaused] at hunpaused
    | _ => trivial

/-- The frame is sent, handled and answered. -/
def sendsFrame (c : ConnId) (type : MessageType) (payload : Bytes) : List HostEvent :=
  let env : Env := { nowMs := 0 }
  [.ready env c { readable := true } { taken := 0 }, .recv c (.data (frameBytes type payload)),
    .recv c .again, .frame env c, .frame env c, .finish c { taken := 4096 }]

/-- A wake is drained. -/
def drainsWake (c : ConnId) : List HostEvent :=
  let env : Env := { nowMs := 0 }
  [.wake env c { taken := 4096 }, .recv c .again, .frame env c, .finish c { taken := 0 }]

/-- Receiver 1 and sender 2 open a relay. -/
def relayOpening : List HostEvent :=
  let env : Env := { nowMs := 0 }
  [.connect env (.inet 4000 privateAddress), .connect env (.inet 4001 privateAddress)] ++
    sendsFrame 1 .clientHello (plainHello .receiver (text "r")).encode ++
    sendsFrame 2 .clientHello (plainHello .sender (text "a")).encode ++
    sendsFrame 2 .sendRequest requestForR.encode ++ drainsWake 1 ++
    sendsFrame 1 .relayOpen [] ++ sendsFrame 2 .relayOpen [] ++ drainsWake 1 ++ drainsWake 2

/-- Connection 1 has `n` bytes to take of a relay from connection 2. -/
structure Server.Pumps (n : Nat) (paused : Bool) (wakes : List ConnId) (s : Server)
    (x y : Connection) : Prop where
  receiver : s.connections 1 = some x
  source : s.connections 2 = some y
  relaying : x.state = .relaying
  reads : x.readPaused = false
  opened : x.closeRequested = false
  queued : x.Queued
  pending : x.pendingOutput = n
  back : x.relayPeer = some 2
  peer : y.relayPeer = some 1
  paused : y.readPaused = paused
  sourceOpened : y.closeRequested = false
  wakes : s.wakeQueue = wakes

/-- Neither is being served, and all that was read was handled. -/
def Host.Quiescent (h : Host) : Prop :=
  ∀ c, c = 1 ∨ c = 2 → h.phase c = .rest ∧ (h.inbox c).WF ∧ (h.inbox c).unread = []

theorem pumps_start : ∃ h x y, Reach Host.Started Host.LeavingStep h ∧ h.Quiescent ∧
    h.server.Pumps 0 false [] x y := by
  obtain ⟨h, hrun, x, hx, y, hy, hst, hreads, hopened, hqueued, hpending, hback, hpeer, hpaused, hopened',
      hwakes, hrest⟩ : ∃ h ∈ runFrom Host.leavingNext { server := Server.start } relayOpening,
      ∃ x ∈ h.server.connections 1, ∃ y ∈ h.server.connections 2, x.state = .relaying ∧
        x.readPaused = false ∧ x.closeRequested = false ∧ x.outputSent ≤ x.output.length ∧
        x.pendingOutput = 0 ∧ x.relayPeer = some 2 ∧ y.relayPeer = some 1 ∧ y.readPaused = false ∧
        y.closeRequested = false ∧ h.server.wakeQueue = [] ∧ ∀ c ∈ [1, 2], h.phase c = .rest ∧
          (h.inbox c).consumed ≤ (h.inbox c).input.length ∧ (h.inbox c).unread = [] := by
    decide +kernel
  have hr : Reach Host.Started Host.LeavingStep h :=
    (Reach.of_runFrom (.init ⟨_, Server.start_started, rfl⟩) hrun).mono fun _ _ _ =>
      Host.leavingStep_of_leavingNext
  exact ⟨h, x, y, hr, fun c hc => hrest c (by simpa using hc), hx, hy, hst, hreads, hopened, hqueued,
    hpending, hback, hpeer, hpaused, hopened', hwakes⟩

/-- What `handle_relay_data` does with a peer that is open. -/
theorem relayData_forwarded {s : Server} {c p : ConnId} {x y : Connection} {payload : Bytes} (env : Env)
    (hne : p ≠ c) (hx : s.connections c = some x) (hpeer : x.relayPeer = some p)
    (hy : s.connections p = some y) (hlen : payload.length ≤ kMaxFrameLength) :
    let y' := y.append (Frame.of .relayData payload).bytes
    (s.processFrame env c (Frame.of .relayData payload)).connections c = some { x with
      lastActivityMs := env.nowMs
      readPaused := x.readPaused || decide (y'.pendingOutput > kRelayPauseThreshold) } ∧
    (s.processFrame env c (Frame.of .relayData payload)).connections p = some y' ∧
    (s.processFrame env c (Frame.of .relayData payload)).wakeQueue = s.wakeQueue ++ [p] := by
  intro y'
  generalize hs₁ : s.touched env c = s₁
  have hx₁ : s₁.connections c = some { x with lastActivityMs := env.nowMs } := by
    rw [← hs₁, Server.touched, Server.connections_update_self, hx]
    rfl
  have hy₁ : s₁.connections p = some y := by
    rw [← hs₁, Server.touched, Server.connections_update_of_ne hne, hy]
  have hattached : (relayPeerOf c { x with lastActivityMs := env.nowMs }).run s₁ = .ok (some p) s₁ := by
    rw [relayPeerOf, run_bind_ok (attachedPeer_run s₁ _), show Connection.relayPeer _ = some p from hpeer,
      Option.filter_some, if_pos (by rw [Server.alive, hy₁]; rfl)]
    rfl
  have hrun : ∃ s₂ : Server, s₂.connections c = some { x with lastActivityMs := env.nowMs } ∧
      s₂.connections p = some y' ∧ s₂.wakeQueue = s.wakeQueue ∧
      (handleRelayData c (Frame.of .relayData payload)).run s₁ = .ok () { s₂.update c fun x =>
        if y'.pendingOutput > kRelayPauseThreshold then { x with readPaused := true } else x with
        wakeQueue := s₂.wakeQueue ++ [p] } := by
    refine ⟨{ s₁.update p (·.append (encodeFrameHeader (Frame.of .relayData payload).header ++
      payload)) with log := s₁.log ++ [(p, Frame.of .relayData payload)] }, ?_, ?_, ?_, ?_⟩
    · exact (Server.connections_update_of_ne (Ne.symm hne) _).trans hx₁
    · exact (Server.connections_update_self ..).trans (congrArg (Option.map _) hy₁)
    · rw [← hs₁]
      rfl
    · rw [handleRelayData, run_bind_ok (run_found hx₁),
        run_bind_ok hattached]
      dsimp only
      rw [run_bind_ok (run_enqueueFrame s₁ p
        (show (Frame.of .relayData payload).payload.length ≤ kMaxFrameLength from hlen)),
        run_bind_ok (run_connection _ p)]
      dsimp only
      rw [Server.connections_update_self, hy₁]
      rfl
  obtain ⟨s₂, hx₂, hy₂, hwakes, hrun⟩ := hrun
  rw [Server.processFrame, hs₁,
    show handleFrame env c (Frame.of .relayData payload) = handleRelayData c _ from rfl, hrun]
  refine ⟨?_, ?_, ?_⟩
  · dsimp only
    rw [Server.connections_update_self, hx₂, Option.map_some]
    by_cases hfull : y'.pendingOutput > kRelayPauseThreshold
    · simp [hfull]
    · simp [hfull]
  · exact (Server.connections_update_of_ne hne _).trans hy₂
  · exact congrArg (· ++ [p]) hwakes

section Pumps

variable {s : Server} {x y : Connection} {n : Nat} {paused : Bool} {wakes : List ConnId}

/-- Connection 2 sends a frame. -/
theorem Server.Pumps.data (hp : s.Pumps n false [] x y) {payload : Bytes} (env : Env)
    (hlen : payload.length ≤ kMaxFrameLength) :
    ∃ x' y', (s.processFrame env 2 (Frame.of .relayData payload)).Pumps
      (n + (kFrameHeaderSize + payload.length))
      (decide (n + (kFrameHeaderSize + payload.length) > kRelayPauseThreshold)) [1] x' y' := by
  obtain ⟨hy, hx, hwakes⟩ := relayData_forwarded env (by decide) hp.source hp.peer hp.receiver hlen
  obtain ⟨hqueued, hunsent⟩ := hp.queued.append (Frame.of .relayData payload).bytes
  have hpending : (x.append (Frame.of .relayData payload).bytes).pendingOutput =
      n + (kFrameHeaderSize + payload.length) := by
    rw [← Connection.length_unsent, hunsent, List.length_append, Frame.length_bytes,
      Connection.length_unsent, hp.pending]
    rfl
  have hreads : (x.append (Frame.of .relayData payload).bytes).readPaused = false := by
    unfold Connection.append
    split
    · exact hp.reads
    · split <;> exact hp.reads
  have hparty := x.append_party (Frame.of .relayData payload).bytes
  refine ⟨_, _, hx, hy, (congrArg Party.state hparty).trans hp.relaying, hreads,
    (x.append_closeRequested _).trans hp.opened, hqueued, hpending,
    (congrArg Party.relayPeer hparty).trans hp.back, hp.peer, ?_, hp.sourceOpened, ?_⟩
  · dsimp only
    rw [hpending, hp.paused, Bool.false_or]
  · rw [hwakes, hp.wakes]
    rfl

theorem Server.Pumps.touched (hp : s.Pumps n paused wakes x y) (env : Env) (c : ConnId)
    (hc : c = 1 ∨ c = 2) : ∃ x' y', (s.touched env c).Pumps n paused wakes x' y' := by
  rcases hc with rfl | rfl
  · exact ⟨{ x with lastActivityMs := env.nowMs }, y,
      { hp with
        receiver := by rw [Server.touched, Server.connections_update_self, hp.receiver]; rfl
        source := (Server.connections_update_of_ne (by decide) _).trans hp.source }⟩
  · exact ⟨x, { y with lastActivityMs := env.nowMs },
      { hp with
        receiver := (Server.connections_update_of_ne (by decide) _).trans hp.receiver
        source := by rw [Server.touched, Server.connections_update_self, hp.source]; rfl }⟩

/-- Connection 1 takes bytes. -/
theorem Server.Pumps.flush (hp : s.Pumps n paused wakes x y) (taken : Nat) :
    (s.update 1 (·.flushOutput { taken := taken })).Pumps (n - taken) paused wakes
      (x.flushOutput { taken := taken }) y where
  receiver := by rw [Server.connections_update_self, hp.receiver]; rfl
  source := (Server.connections_update_of_ne (by decide) _).trans hp.source
  relaying := (x.flushOutput_state _).trans hp.relaying
  reads := (x.flushOutput_readPaused _).trans hp.reads
  opened := (x.flushOutput_closeRequested _).trans hp.opened
  queued := (hp.queued.flushOutput _).1
  pending := by
    rw [← Connection.length_unsent, (hp.queued.flushOutput _).2, List.length_drop,
      Connection.length_unsent, hp.pending]
  back := (x.flushOutput_relayPeer _).trans hp.back
  peer := hp.peer
  paused := hp.paused
  sourceOpened := hp.sourceOpened
  wakes := hp.wakes

theorem Server.Pumps.flush_source (hp : s.Pumps n paused wakes x y) (k : Socket) :
    (s.update 2 (·.flushOutput k)).Pumps n paused wakes x (y.flushOutput k) :=
  { hp with
    receiver := (Server.connections_update_of_ne (by decide) _).trans hp.receiver
    source := by rw [Server.connections_update_self, hp.source]; rfl
    peer := (y.flushOutput_relayPeer k).trans hp.peer
    paused := (y.flushOutput_readPaused k).trans hp.paused
    sourceOpened := (y.flushOutput_closeRequested k).trans hp.sourceOpened }

theorem Server.Pumps.resumeSource (hp : s.Pumps n paused wakes x y)
    (hpaused : paused = true → kRelayResumeThreshold < n) : s.resumeSource x = s := by
  unfold Server.resumeSource
  split
  · rename_i hlow
    rw [hp.pending] at hlow
    rw [hp.back]
    dsimp only
    rw [hp.source]
    dsimp only
    rw [hp.paused, if_neg]
    exact fun h => Nat.not_lt.mpr hlow.2 (hpaused h)
  · rfl

theorem Server.Pumps.leaves_source {h : Host} (hp : h.server.Pumps n paused wakes x y) (k : Socket) :
    h.Leaves (.finish 2 k) := by
  intro _ _ y' peer x' _ hy _ _ hpeer hx hreads _
  cases hp.source.symm.trans hy
  cases hp.peer.symm.trans hpeer
  cases hp.receiver.symm.trans hx
  cases hp.reads.symm.trans hreads

theorem Server.Pumps.leaves {h : Host} {taken : Nat} (hp : h.server.Pumps n paused wakes x y)
    (htaken : paused = true → taken < n) : h.Leaves (.finish 1 { taken := taken }) := by
  intro _ _ x' peer y' _ hx _ _ hpeer hy hpaused _
  cases hp.receiver.symm.trans hx
  cases hp.back.symm.trans hpeer
  cases hp.source.symm.trans hy
  rw [hp.pending]
  exact htaken (hp.paused.symm.trans hpaused)

/-- Connection 2 sends a frame, and connection 1 takes `taken` bytes with the last flush of its wake. -/
theorem Server.Pumps.round {P : Host → HostEvent → Prop} (hP : ∀ {h e}, Host.Leaves h e → P h e) {h : Host}
    (hr : Reach Host.Started (fun h e h' => h.Step e h' ∧ P h e) h) (hq : h.Quiescent)
    (hp : h.server.Pumps n false [] x y) (payload : Bytes)
    (hlen : kFrameHeaderSize + payload.length ≤ kReadBatch) (taken : Nat)
    (hlast : ∀ {h : Host} {x y}, h.server.Pumps (n + (kFrameHeaderSize + payload.length))
      (decide (n + (kFrameHeaderSize + payload.length) > kRelayPauseThreshold)) [] x y →
        P h (.finish 1 { taken := taken })) :
    ∃ h' x' y', Reach Host.Started (fun h e h' => h.Step e h' ∧ P h e) h' ∧ h'.Quiescent ∧
      h'.server.Pumps (n + (kFrameHeaderSize + payload.length) - taken)
        (decide (n + (kFrameHeaderSize + payload.length) > kRelayPauseThreshold)) [] x' y' := by
  have hfree : ∀ {h : Host} {e : HostEvent}, (∀ c k, e ≠ .finish c k) → P h e := by
    intro h e he
    refine hP ?_
    cases e with
    | finish c k => exact absurd rfl (he c k)
    | _ => trivial
  have hmax : payload.length ≤ kMaxFrameLength := by
    simp only [kFrameHeaderSize, kReadBatch, kMaxFrameLength] at hlen ⊢
    omega
  obtain ⟨hrest₁, hwf₁, hunread₁⟩ := hq 1 (.inl rfl)
  obtain ⟨hrest₂, hwf₂, hunread₂⟩ := hq 2 (.inr rfl)
  -- the frame of connection 2
  obtain ⟨x₁, y₁, hp₁⟩ := hp.touched { nowMs := 0 } 2 (.inr rfl)
  obtain ⟨x₂, y₂, hp₂⟩ := hp₁.data { nowMs := 0 } hmax
  have hs₀ : Host.Serving P h 2 h.server .rest (h.inbox 2) h := by
    rw [← hrest₂]
    exact .start hr hfree
  obtain ⟨b, h₁, hwf, hunread, hs₁⟩ := hs₀.round hp.source hp.paused hwf₂ hunread₂ (by trivial) hlen
    (by decide) hp₂.source hp₂.sourceOpened fun hserver => hP ((hserver ▸ hp₂).leaves_source _)
  have hp₃ := hp₂.flush_source { taken := 0 }
  rw [← hs₁.server] at hp₃
  -- the wake of connection 1
  have hrest : h₁.phase 1 = .rest := by
    rw [hs₁.phase, Function.update_of_ne (by decide), hrest₁]
  have hinbox : h₁.inbox 1 = h.inbox 1 := by
    rw [hs₁.inbox, Function.update_of_ne (by decide)]
  have hs₂ : Host.Serving P h₁ 1 h₁.server .rest (h₁.inbox 1) h₁ := by
    rw [← hrest]
    exact .start hs₁.reach hfree
  have hdrained : { h₁.server with wakeQueue := h₁.server.wakeQueue.erase 1 }.Pumps
      (n + (kFrameHeaderSize + payload.length))
      (decide (n + (kFrameHeaderSize + payload.length) > kRelayPauseThreshold)) [] x₂
      (y₂.flushOutput { taken := 0 }) := by
    refine { hp₃ with wakes := ?_ }
    dsimp only
    rw [hp₃.wakes]
    rfl
  obtain ⟨x₄, y₄, hp₄⟩ := hdrained.touched { nowMs := 0 } 1 (.inl rfl)
  have hp₅ := hp₄.flush 0
  have hstay := hp₅.resumeSource fun hpaused => by
    have := of_decide_eq_true hpaused
    simp only [kRelayPauseThreshold, kRelayResumeThreshold] at this ⊢
    omega
  obtain ⟨h₂, hs₃⟩ := hs₂.wake hp₃.receiver hp₃.reads (by rw [hp₃.wakes]; exact List.mem_singleton_self 1)
    rfl hp₅.receiver hp₅.reads hstay
  obtain ⟨h₃, hs₄⟩ := hs₃.idle hp₅.receiver hp₅.opened (by rw [hinbox, hunread₁])
    fun hserver => hlast (hserver ▸ hp₅)
  refine ⟨h₃, _, _, hs₄.reach, fun c hc => ?_, hs₄.server ▸ hp₅.flush taken⟩
  rcases hc with rfl | rfl
  · rw [hs₄.phase_self, hs₄.inbox_self, Inbox.unread_compact, hinbox]
    exact ⟨rfl, hwf₁.compact, hunread₁⟩
  · rw [hs₄.phase, Function.update_of_ne (by decide), hs₁.phase_self, hs₄.inbox,
      Function.update_of_ne (by decide), hs₁.inbox_self]
    exact ⟨rfl, hwf, hunread⟩

/-- As long as connection 1 takes nothing, connection 2 may go on until it is paused. -/
theorem pumps_batches (batches : Nat) (hle : batches * kReadBatch ≤ kRelayPauseThreshold) :
    ∃ h x y, Reach Host.Started Host.LeavingStep h ∧ h.Quiescent ∧
      h.server.Pumps (batches * kReadBatch) false [] x y := by
  induction batches with
  | zero =>
    rw [Nat.zero_mul]
    exact pumps_start
  | succ batches ih =>
    obtain ⟨h, x, y, hr, hq, hp⟩ := ih (by rw [Nat.succ_mul] at hle; omega)
    have hlen : kFrameHeaderSize + (List.replicate (kReadBatch - kFrameHeaderSize) (0 : UInt8)).length =
        kReadBatch := by
      rw [List.length_replicate]
      rfl
    obtain ⟨h', x', y', hr', hq', hp'⟩ := hp.round (P := Host.Leaves) id hr hq _ hlen.le 0 fun hp =>
      hp.leaves fun _ => Nat.add_pos_right _ (by rw [hlen]; decide)
    rw [hlen, ← Nat.succ_mul, decide_eq_false (Nat.not_lt.mpr hle)] at hp'
    exact ⟨h', x', y', hr', hq', hp'⟩

/-- The source is paused, and the receiver takes `taken` bytes with its last flush. -/
theorem pumps_paused {P : Host → HostEvent → Prop} (hP : ∀ {h e}, Host.Leaves h e → P h e) (taken : Nat)
    (hlast : ∀ {h : Host} {x y}, h.server.Pumps (kRelayPauseThreshold + 9) true [] x y →
      P h (.finish 1 { taken := taken })) :
    ∃ h x y, Reach Host.Started (fun h e h' => h.Step e h' ∧ P h e) h ∧
      h.server.Pumps (kRelayPauseThreshold + 9 - taken) true [] x y := by
  have hfull : 64 * kReadBatch = kRelayPauseThreshold := rfl
  obtain ⟨h, x, y, hr, hq, hp⟩ := pumps_batches 64 hfull.le
  rw [hfull] at hp
  obtain ⟨h', x', y', hr', -, hp'⟩ := hp.round hP (hr.mono fun _ _ _ hstep => ⟨hstep.1, hP hstep.2⟩) hq
    [0] (by decide) taken hlast
  exact ⟨h', x', y', hr', hp'⟩

/-- A paused source whose peer takes nothing: its wake is gone, but there is output to be taken. -/
theorem never_stranded_paused : ∃ h x y, Reach Host.Started Host.LeavingStep h ∧
    h.server.Pumps (kRelayPauseThreshold + 9) true [] x y ∧ ¬ h.server.Stranded 2 := by
  obtain ⟨h, x, y, hr, hp⟩ := pumps_paused (P := Host.Leaves) id 0 fun hp =>
    hp.leaves fun _ => by decide
  exact ⟨h, x, y, hr, hp, never_stranded hr 2⟩

/-- The source is paused and the wake of the receiver takes all that is pending, with its last flush. -/
theorem source_stranded : ∃ h, Reach Host.Started Host.Step h ∧ h.server.Stranded 2 := by
  obtain ⟨h, x, y, hr, hp⟩ := pumps_paused (P := fun _ _ => True) (fun _ => trivial)
    (kRelayPauseThreshold + 9) fun _ => trivial
  rw [Nat.sub_self] at hp
  refine ⟨h, hr.mono fun _ _ _ hstep => hstep.1, y, 1, x, hp.source, hp.paused, hp.sourceOpened, hp.peer,
    hp.receiver, hp.relaying, hp.pending, ?_, ?_⟩
  · rw [hp.wakes]
    exact List.not_mem_nil
  · rw [hp.wakes]
    exact List.not_mem_nil

end Pumps

end DropZone
