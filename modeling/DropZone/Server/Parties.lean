import DropZone.Lib.System
import DropZone.Server.Effects

/-!
# What the server remembers of a connection

A `Party` is the part of a connection's record that the protocol's decisions depend on. Buffers,
clocks and rate limits are left out: whatever happens to them is quiet.

* `Quiet s s'`: the parties and the session table are as before, nobody who was asked to leave is
  asked to stay, and no frame of a relay and no roster was enqueued.
* `quiet_*`: the primitives that are quiet.
-/

namespace DropZone

open LittleEndian StateSpec

structure Party where
  state : ConnectionState
  helloReceived : Bool
  claimedUsername : Bytes
  pairingId : UInt64
  joinedGroup : Bytes
  relayPeer : Option ConnId
  deriving DecidableEq

def Connection.party (x : Connection) : Party where
  state := x.state
  helloReceived := x.helloReceived
  claimedUsername := x.claimedUsername
  pairingId := x.pairingId
  joinedGroup := x.joinedGroup
  relayPeer := x.relayPeer

variable {f : Connection → Connection}

namespace Server

def party (s : Server) (c : ConnId) : Option Party := (s.connections c).map Connection.party

/-- The connection was asked to close. -/
def Leaving (s : Server) (c : ConnId) : Prop :=
  ∃ x, s.connections c = some x ∧ x.closeRequested = true

theorem alive_iff_party {s : Server} {c : ConnId} : s.alive c = true ↔ (s.party c).isSome = true := by
  simp [alive, party]

theorem party_eq_some {s : Server} {c : ConnId} {p : Party} (h : s.party c = some p) :
    ∃ x, s.connections c = some x ∧ x.party = p := Option.map_eq_some_iff.mp h

theorem party_of {s : Server} {c : ConnId} {x : Connection} (h : s.connections c = some x) :
    s.party c = some x.party := by
  rw [party, h]
  rfl

@[simp] theorem party_update_self (s : Server) (c : ConnId) (f : Connection → Connection) :
    (s.update c f).party c = (s.connections c).map fun x => (f x).party := by
  simp [party, update, Option.map_map, Function.comp_def]

@[simp] theorem party_update_of_ne {s : Server} {c x : ConnId} (h : x ≠ c)
    (f : Connection → Connection) : (s.update c f).party x = s.party x := by
  simp [party, update, h]

theorem party_update_some {s : Server} {c : ConnId} {p : Party}
    (h : (s.update c f).party c = some p) : ∃ x, s.connections c = some x ∧ (f x).party = p := by
  rw [party_update_self] at h
  exact Option.map_eq_some_iff.mp h

theorem connections_update_of_ne {s : Server} {c x : ConnId} (h : x ≠ c)
    (f : Connection → Connection) : (s.update c f).connections x = s.connections x :=
  Function.update_of_ne h _ _

theorem connections_update_self (s : Server) (c : ConnId) (f : Connection → Connection) :
    (s.update c f).connections c = (s.connections c).map f :=
  Function.update_self ..

/-- One thing about a party, for every connection. -/
def proj {α : Type} (π : Party → α) (s : Server) (c : ConnId) : Option α := (s.party c).map π

theorem proj_update {α : Type} {π : Party → α} (s : Server) (c : ConnId)
    (hf : ∀ x, π (f x).party = π x.party) (y : ConnId) :
    (s.update c f).proj π y = s.proj π y := by
  unfold proj
  by_cases hy : y = c
  · subst hy
    rw [party_update_self, party, Option.map_map, Option.map_map]
    exact congrArg (fun g => Option.map g _) (funext hf)
  · rw [party_update_of_ne hy]

/-- A property of every party. -/
def Each (Q : ConnId → Party → Prop) (s : Server) : Prop := ∀ c p, s.party c = some p → Q c p

theorem Each.update {Q : ConnId → Party → Prop} {s : Server} (h : s.Each Q) (c : ConnId)
    (hf : ∀ x, s.connections c = some x → Q c x.party → Q c (f x).party) : (s.update c f).Each Q := by
  intro y p hp
  by_cases hy : y = c
  · subst hy
    rw [party_update_self] at hp
    obtain ⟨x, hx, rfl⟩ := Option.map_eq_some_iff.mp hp
    exact hf x hx (h y _ (party_of hx))
  · rw [party_update_of_ne hy] at hp
    exact h y p hp

theorem Leaving.update_of_ne {s : Server} {c x : ConnId} (h : x ≠ c) (f : Connection → Connection) :
    (s.update c f).Leaving x ↔ s.Leaving x := by
  unfold Leaving
  rw [connections_update_of_ne h]

theorem Leaving.update {s : Server} {y : ConnId} (h : s.Leaving y) (c : ConnId)
    (hf : ∀ x, (f x).closeRequested = x.closeRequested) :
    (s.update c f).Leaving y := by
  by_cases hy : y = c
  · subst hy
    obtain ⟨x, hx, hclose⟩ := h
    exact ⟨f x, by rw [connections_update_self, hx]; rfl, (hf x).trans hclose⟩
  · exact (update_of_ne hy f).mpr h

end Server

/-! ## Quiet changes -/

/-- Frames that carry nothing of a relay and no roster. -/
def MessageType.Plain (t : MessageType) : Prop :=
  t ≠ .relayOpen ∧ t ≠ .relayData ∧ t ≠ .groupRoster

instance (t : MessageType) : Decidable t.Plain := inferInstanceAs (Decidable (_ ∧ _))

/-- Nothing changed that the protocol's decisions depend on. -/
structure Quiet (s s' : Server) : Prop where
  parties : ∀ x, s'.party x = s.party x
  sessions : s'.sessions = s.sessions
  options : s'.options = s.options
  nextId : s'.nextConnectionId = s.nextConnectionId
  leaving : ∀ x, s.Leaving x → s'.Leaving x
  log : ∃ new, s'.log = s.log ++ new ∧ ∀ e ∈ new, e.2.header.type.Plain

theorem Quiet.refl (s : Server) : Quiet s s :=
  ⟨fun _ => rfl, rfl, rfl, rfl, fun _ h => h, [], (List.append_nil _).symm, by simp⟩

theorem Quiet.trans {s₁ s₂ s₃ : Server} (h : Quiet s₁ s₂) (h' : Quiet s₂ s₃) : Quiet s₁ s₃ where
  parties x := (h'.parties x).trans (h.parties x)
  sessions := h'.sessions.trans h.sessions
  options := h'.options.trans h.options
  nextId := h'.nextId.trans h.nextId
  leaving x hx := h'.leaving x (h.leaving x hx)
  log := by
    obtain ⟨new, hl, hnew⟩ := h.log
    obtain ⟨new', hl', hnew'⟩ := h'.log
    refine ⟨new ++ new', by rw [hl', hl, List.append_assoc], fun e he => ?_⟩
    rcases List.mem_append.mp he with he | he
    · exact hnew e he
    · exact hnew' e he

instance : Std.Refl Quiet := ⟨Quiet.refl⟩

instance : IsTrans Server Quiet := ⟨fun _ _ _ => Quiet.trans⟩

theorem Quiet.alive {s s' : Server} (h : Quiet s s') : s'.alive = s.alive := by
  funext x
  rw [Bool.eq_iff_iff, Server.alive_iff_party, Server.alive_iff_party, h.parties x]

/-- A connection is still there after a quiet change, and is the same party. -/
theorem Quiet.found {s s' : Server} (h : Quiet s s') {c : ConnId} {x : Connection}
    (hx : s.connections c = some x) : ∃ y, s'.connections c = some y ∧ y.party = x.party :=
  Server.party_eq_some ((h.parties c).trans (Server.party_of hx))

theorem Quiet.same {s s' : Server} (hc : s'.connections = s.connections)
    (hs : s'.sessions = s.sessions) (ho : s'.options = s.options)
    (hn : s'.nextConnectionId = s.nextConnectionId) (hl : s'.log = s.log) : Quiet s s' where
  parties x := by rw [Server.party, hc, Server.party]
  sessions := hs
  options := ho
  nextId := hn
  leaving x hx := by rwa [Server.Leaving, hc]
  log := ⟨[], by rw [hl, List.append_nil], by simp⟩

/-- Changing a record where no decision depends on it. -/
theorem Quiet.update (s : Server) (c : ConnId)
    (hf : ∀ x, s.connections c = some x → (f x).party = x.party ∧
      (x.closeRequested = true → (f x).closeRequested = true)) :
    Quiet s (s.update c f) where
  parties x := by
    by_cases hx : x = c
    · subst hx
      rw [Server.party_update_self, Server.party]
      cases h : s.connections x with
      | none => rfl
      | some y => exact congrArg some (hf y h).1
    · exact Server.party_update_of_ne hx f
  sessions := rfl
  options := rfl
  nextId := rfl
  leaving x hx := by
    by_cases hxc : x = c
    · subst hxc
      obtain ⟨y, hy, hclose⟩ := hx
      exact ⟨f y, by rw [Server.connections_update_self, hy]; rfl, (hf y hy).2 hclose⟩
    · exact (Server.Leaving.update_of_ne hxc f).mpr hx
  log := ⟨[], (List.append_nil _).symm, by simp⟩

namespace Connection

@[simp] theorem append_party (x : Connection) (b : Bytes) : (x.append b).party = x.party := by
  unfold append
  split
  · rfl
  · split <;> rfl

@[simp] theorem append_closeRequested (x : Connection) (b : Bytes) :
    (x.append b).closeRequested = x.closeRequested := by
  unfold append
  split
  · rfl
  · split <;> rfl

@[simp] theorem requestClose_party (x : Connection) (r : Bytes) :
    (x.requestClose r).party = x.party := by
  unfold requestClose
  split <;> rfl

@[simp] theorem requestClose_closeRequested (x : Connection) (r : Bytes) :
    (x.requestClose r).closeRequested = true := by
  unfold requestClose
  split
  · assumption
  · rfl

end Connection

theorem Server.leaving_requestClose {s : Server} {c : ConnId} (h : s.alive c = true) (r : Bytes) :
    (s.update c (·.requestClose r)).Leaving c := by
  obtain ⟨x, hx⟩ := Option.isSome_iff_exists.mp h
  exact ⟨x.requestClose r, by rw [connections_update_self, hx]; rfl,
    x.requestClose_closeRequested r⟩

/-! ## Changes to one thing -/

/-- One thing about every party, and one about the table, are as before. -/
def Keeps {α β : Type} (π : Party → α) (τ : SessionTable → β) (s s' : Server) : Prop :=
  (∀ y, s'.proj π y = s.proj π y) ∧ τ s'.sessions = τ s.sessions

section Keeps

variable {α β : Type} {π : Party → α} {τ : SessionTable → β} {s₀ s s' : Server}

theorem Keeps.refl (s : Server) : Keeps π τ s s := ⟨fun _ => rfl, rfl⟩

theorem Keeps.update (h : Keeps π τ s₀ s) (c : ConnId)
    (hf : ∀ x, π (f x).party = π x.party) : Keeps π τ s₀ (s.update c f) :=
  ⟨fun y => (Server.proj_update s c hf y).trans (h.1 y), h.2⟩

theorem Keeps.sessions (h : Keeps π τ s₀ s) {t : SessionTable} (ht : τ t = τ s.sessions) :
    Keeps π τ s₀ { s with sessions := t } :=
  ⟨h.1, ht.trans h.2⟩

theorem Quiet.keeps (h : Quiet s s') : Keeps π τ s s' :=
  ⟨fun y => by rw [Server.proj, h.parties y, Server.proj], by rw [h.sessions]⟩

end Keeps

/-! ## Primitives -/

section Primitives

variable (c : ConnId)

theorem quiet_connection : Moves Quiet (connection c) := fun s => .refl s

theorem quiet_decoded {α : Type} (r : Except Failure α) : Moves Quiet (decoded r) := by
  cases r with
  | ok v => exact Moves.pure v
  | error e => exact Moves.throw e

theorem quiet_requestClose (reason : Bytes) : Moves Quiet (requestClose c reason) :=
  fun s => Quiet.update s c (by simp)

theorem quiet_wakeFor : Moves Quiet (wakeFor c) := fun _ => .same rfl rfl rfl rfl rfl

/-- The record changes that `enqueue_frame` makes are quiet, whatever the frame is. -/
theorem Quiet.append (s : Server) (b : Bytes) : Quiet s (s.update c (·.append b)) :=
  Quiet.update s c (by simp)

theorem quiet_enqueueFrame {type : MessageType} (hplain : type.Plain) (payload : Bytes) :
    Moves Quiet (enqueueFrame c type payload) := by
  intro s
  by_cases hlen : payload.length ≤ kMaxFrameLength
  · rw [final_of_ok (run_enqueueFrame s c hlen)]
    have h := Quiet.append c s (encodeFrameHeader (Frame.of type payload).header ++ payload)
    refine ⟨h.parties, h.sessions, h.options, h.nextId, h.leaving, [(c, Frame.of type payload)], rfl,
      ?_⟩
    simpa [Frame.of] using hplain
  · rw [enqueueFrame, if_pos (by omega)]
    exact Moves.throw _ s

theorem quiet_rejectAndClose (reason : Bytes) : Moves Quiet (rejectAndClose c reason) :=
  (quiet_enqueueFrame c (by decide) reason).bind fun _ => quiet_requestClose c reason

theorem quiet_touched (s : Server) (env : Env) : Quiet s (s.touched env c) :=
  Quiet.update s c fun _ _ => ⟨rfl, id⟩

end Primitives

end DropZone
