import DropZone.Server.Buffers

/-!
# Who is paused and who is asked to close

`request_close` and `set_read_paused` leave flags on a connection that `service_connection` looks at
later.

* `processFrame_raises`, `closeConnection_raises`, `Host.next_raises`: whom a frame, the end of a
  connection and an event of the host may have paused or asked to close.
-/

namespace DropZone

open LittleEndian StateSpec

theorem processFrame_raises (env : Env) (s : Server) (c : ConnId) (frame : Frame) :
    Raises (· ∈ s.dismissed c frame) (fun y => y = c ∧ frame.header.type = .relayData ∧
      s.Floods c frame) s (s.processFrame env c frame) :=
  (processFrame_walks c frame env s).raises

/-- The end of a connection has at most the other end of its pairing asked to close. -/
theorem closeConnection_raises (s : Server) (c : ConnId) :
    Raises (· ∈ s.parties c) (fun _ => False) s (final (closeConnection c) s) :=
  (closeConnection_walks c s).raises

/-- Whoever is closed is not asked to close on the way. -/
theorem closeConnection_leaving_self {s : Server} {c : ConnId} {x : Connection} (hx : s.connections c = some x)
    (hleaving : (final (closeConnection c) s).Leaving c) : s.Leaving c := by
  by_cases hclosing : x.state = .closing
  · rw [closeConnection, final_bind_ok (run_found hx), if_pos hclosing]
      at hleaving
    exact hleaving
  · obtain ⟨_, hparted⟩ := closeConnection_parted hx hclosing
    obtain ⟨y, hy, -⟩ := hleaving
    cases hparted.gone.symm.trans (Server.party_of hy)

/-! ## Serving -/

theorem Server.resumeSource_raises {T P : ConnId → Prop} (s : Server) (x : Connection) :
    Raises T P s (s.resumeSource x) := by
  unfold Server.resumeSource
  split
  · split
    · rename_i peer _
      split
      · split
        · have hresumed : Raises T P s (s.update peer fun y => { y with readPaused := false }) :=
            .update s peer (fun _ h => .inl h) fun _ h => by cases h
          exact hresumed.trans (.same rfl)
        · exact .refl s
      · exact .refl s
    · exact .refl s
  · exact .refl s

namespace Host

/-- The connection for which an event runs `close_connection`. -/
def closes (h : Host) : HostEvent → Option ConnId
  | .ready _ c event k => if event.writable && !(h.record c).flushes k then some c else none
  | .wake _ c k => if h.server.alive c && !(h.record c).flushes k then some c else none
  | .finish c k =>
    match h.phase c with
    | .ending closed stillOpen => if ends (h.record c) k closed stillOpen then some c else none
    | _ => none
  | .timeout c => some c
  | _ => none

/-- The connections that an event may have asked to close. -/
def dismissed (h : Host) : HostEvent → List ConnId
  | .frame _ c =>
    match (h.inbox c).nextFrame with
    | .ok (some (f, _)) => h.server.dismissed c f
    | _ => [c]
  | e =>
    match h.closes e with
    | some c => h.server.parties c
    | none => []

/-- The connection that an event pauses. -/
def Pauses (h : Host) : HostEvent → ConnId → Prop
  | .frame _ c, y => y = c ∧ ∃ f b, (h.inbox c).nextFrame = .ok (some (f, b)) ∧
      f.header.type = .relayData ∧ h.server.Floods c f
  | _, _ => False

variable {T P : ConnId → Prop} {h h' : Host} {c : ConnId}

theorem flush_raises (h : Host) (c : ConnId) (k : Socket) : Raises T P h.server (h.flush c k).server :=
  .keep h.server c fun x => ⟨x.flushOutput_closeRequested k, x.flushOutput_readPaused k⟩

theorem flush_close_raises (h : Host) (c : ConnId) (k : Socket) :
    Raises (· ∈ h.server.parties c) P h.server ((h.flush c k).close c).server := by
  refine (flush_raises h c k).trans ?_
  have hclose := closeConnection_raises (h.flush c k).server c
  rw [show (h.flush c k).server.parties c = h.server.parties c from
    parties_update c h.server fun x => x.flushOutput_pairingId k] at hclose
  exact hclose.mono (fun _ => id) fun _ => False.elim

theorem touched_raises (h : Host) (env : Env) (c : ConnId) :
    Raises T P h.server (h.server.touched env c) := .keep h.server c fun _ => ⟨rfl, rfl⟩

theorem record_touched (h : Host) (env : Env) (c : ConnId) (k : Socket) :
    (record { h with server := h.server.touched env c } c).flushes k = (h.record c).flushes k := by
  rw [record, Server.touched, Server.connections_update_self, record]
  cases h.server.connections c <;> rfl

theorem serve_raises (h : Host) (env : Env) (c : ConnId) (event : ReadyEvent) (k : Socket) :
    Raises (fun y => event.writable = true ∧ (h.record c).flushes k = false ∧ y ∈ h.server.parties c) P
      h.server (h.serve env c event k).server := by
  refine (touched_raises h env c).trans ?_
  unfold serve
  dsimp only
  rw [record_touched]
  split
  · rename_i hwritable
    split
    · exact (flush_raises { h with server := h.server.touched env c } c k).trans
        (Server.resumeSource_raises _ _)
    · rename_i hbroken
      have hclose := flush_close_raises (P := P) { h with server := h.server.touched env c } c k
      refine hclose.mono (fun y hy => ⟨hwritable, Bool.eq_false_iff.mpr hbroken, ?_⟩) fun _ => id
      rwa [show Server.parties _ c = h.server.parties c from parties_touched c h.server env] at hy
  · exact .refl _

/-- What an event does to the flags. -/
theorem next_raises {e : HostEvent} (hn : h.next e = some h') :
    Raises (· ∈ h.dismissed e) (h.Pauses e) h.server h'.server := by
  have hdrained : ∀ {T P : ConnId → Prop} c, Raises T P h.server (h.drained c).server :=
    fun _ => .same rfl
  cases happens hn with
  | connect env addr =>
    unfold Server.acceptConnection
    dsimp only
    split
    · constructor <;> rintro y ⟨x, hx, hflag⟩ <;>
        (change Function.update h.server.connections _ _ y = some x at hx
         by_cases hy : y = h.server.nextConnectionId
         · subst hy
           rw [Function.update_self, Option.some.injEq] at hx
           subst hx
           cases hflag
         · rw [Function.update_of_ne hy] at hx
           exact .inl ⟨x, hx, hflag⟩)
    · exact .same rfl
  | @ready env c event k _ _ =>
    refine (serve_raises h env c event k).mono (fun y ⟨hwritable, hbroken, hy⟩ => ?_) fun _ => id
    simpa [dismissed, closes, hwritable, hbroken] using hy
  | @wake env c k halive _ =>
    refine (hdrained c).trans ((serve_raises (h.drained c) env c (h.wakeEvent c) k).mono
      (fun y ⟨_, hbroken, hy⟩ => ?_) fun _ => id)
    have hbroken : (h.record c).flushes k = false := hbroken
    have hy : y ∈ h.server.parties c := hy
    simpa [dismissed, closes, halive, hbroken] using hy
  | @drop _ c _ _ _ => exact hdrained c
  | recv _ hread =>
    rw [read_server hread]
    exact .refl _
  | @frame env c _ _ _ _ _ =>
    unfold handle
    split
    · rename_i err hframe
      refine Raises.requestClose h.server ?_ err.what
      rw [dismissed, hframe]
      exact List.mem_singleton_self c
    · exact .refl _
    · rename_i f b hframe
      have hraises : Raises (· ∈ h.dismissed (.frame env c)) (h.Pauses (.frame env c)) h.server
          (h.server.processFrame env c f) := by
        refine (processFrame_raises env h.server c f).mono (fun y hy => ?_)
          fun y hy => ⟨hy.1, f, b, hframe, hy.2⟩
        rw [dismissed, hframe]
        exact hy
      dsimp only
      split <;> exact hraises
  | @finish c k _ _ hphase _ =>
    unfold conclude
    split
    · rename_i hends
      refine (flush_close_raises h c k).mono (fun y hy => ?_) fun _ => id
      simpa [dismissed, closes, hphase, hends] using hy
    · exact flush_raises h c k
  | @timeout c _ _ => exact (closeConnection_raises h.server c).mono (fun _ => id) fun _ => False.elim
  | expire env => exact .same rfl

/-- An event that neither handles a frame nor closes a connection raises no flag. -/
theorem next_lowers {e : HostEvent} (hn : h.next e = some h') (hcloses : h.closes e = none)
    (hframe : ∀ env c, e ≠ .frame env c) :
    Raises (fun _ => False) (fun _ => False) h.server h'.server := by
  have hraises := next_raises hn
  cases e with
  | frame env c => exact absurd rfl (hframe env c)
  | connect | ready | wake | recv | finish | timeout | expire =>
    refine hraises.mono (fun y hy => ?_) fun _ => id
    rw [dismissed, hcloses] at hy
    · exact List.not_mem_nil hy
    · exact hframe

theorem finish_leaving_self {k : Socket} (hn : h.next (.finish c k) = some h')
    (hleaving : h'.server.Leaving c) : h.server.Leaving c := by
  dsimp only [next] at hn
  split at hn
  · rename_i closed stillOpen _ halive
    obtain ⟨x, hx⟩ := Option.isSome_iff_exists.mp halive
    cases hn
    unfold conclude at hleaving
    have hflush : (h.flush c k).server.Leaving c → h.server.Leaving c := fun hflushed =>
      ((flush_raises (T := fun _ => False) (P := fun _ => False) h c k).leaving c hflushed).resolve_right id
    split at hleaving
    · refine hflush (closeConnection_leaving_self (x := x.flushOutput k) ?_ hleaving)
      change (h.server.update c _).connections c = _
      rw [Server.connections_update_self, hx]
      rfl
    · exact hflush hleaving
  · cases hn

end Host

end DropZone
