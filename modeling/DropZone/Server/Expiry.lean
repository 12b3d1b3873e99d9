import DropZone.Lib.System
import DropZone.Server.SessionTable

/-!
# The age of a pairing when it expires (`server/src/server.cpp`, `server/src/session_table.cpp`)

Shard 0 reads the clock, looks at its connections, and then calls `expire_pairings` with that reading.
The other shards create pairings in between, and stamp them with the clock's time under the table's
mutex: a pairing may be younger than the reading, and the difference wraps around.

* `Maintained`: the table, the clock, and the reading of a maintenance pass.
* `Maintained.fresh_pairings_kept`: when a pass takes away no pairing before its time.
* `new_pairing_expired`: a pairing that is taken away when it is one millisecond old.
-/

namespace DropZone

open System

structure Maintained where
  table : SessionTable := {}
  /-- Which connections exist. -/
  alive : ConnId → Bool := fun _ => false
  /-- The monotonic clock. -/
  clock : UInt64 := 0
  /-- `now_ms` of `run_maintenance`, while that runs. -/
  reading : Option UInt64 := none

inductive MaintenanceEvent where
  /-- Time passes. -/
  | tick (clock : UInt64)
  /-- Connections come and go. -/
  | connections (alive : ConnId → Bool)
  /-- `create_pairing` on any shard, with the salt it draws if there is none yet. -/
  | create (random : UInt64) (sender receiver : ConnId)
  | relay (id : UInt64) (fromSender : Bool)
  | destroy (id : UInt64)
  /-- Shard 0 reads the clock. -/
  | read
  /-- `expire_pairings`. -/
  | expire (maxAgeMs : UInt64)

namespace SessionTable

variable {t : SessionTable} {id id' random nowMs : UInt64} {pr : Pairing} {c r : ConnId}

theorem createPairing_some (h : (t.createPairing random nowMs c r).2.pairings id = some pr) :
    pr.createdMs = nowMs ∨ t.pairings id = some pr := by
  rw [createPairing_eq rfl Prod.mk.eta.symm] at h
  dsimp only at h
  generalize (nextId _ _ _ _).1 = new at h
  by_cases hid : id = new
  · subst hid
    rw [Function.update_self] at h
    cases h
    exact .inl rfl
  · rw [Function.update_of_ne hid] at h
    exact .inr h

theorem requestRelay_some {fromSender : Bool}
    (h : (t.requestRelay id' fromSender).2.pairings id = some pr) :
    ∃ pr', t.pairings id = some pr' ∧ pr'.createdMs = pr.createdMs := by
  unfold requestRelay at h
  split at h
  · exact ⟨pr, h, rfl⟩
  · rename_i p hp
    by_cases hid : id = id'
    · subst hid
      refine ⟨p, hp, ?_⟩
      dsimp only at h
      split at h <;> split at h <;>
        · dsimp only at h
          rw [Function.update_self] at h
          cases h
          rfl
    · refine ⟨pr, ?_, rfl⟩
      dsimp only at h
      split at h <;> split at h <;>
        · dsimp only at h
          rwa [Function.update_of_ne hid] at h

end SessionTable

namespace Maintained

def next (s : Maintained) : MaintenanceEvent → Option Maintained
  | .tick clock => if s.clock ≤ clock then some { s with clock := clock } else none
  | .connections alive => some { s with alive := alive }
  | .create random sender receiver =>
    some { s with table := (s.table.createPairing random s.clock sender receiver).2 }
  | .relay id fromSender => some { s with table := (s.table.requestRelay id fromSender).2 }
  | .destroy id => some { s with table := s.table.destroyPairing id }
  | .read => if s.reading = none then some { s with reading := some s.clock } else none
  | .expire maxAgeMs => s.reading.map fun now =>
    { s with table := s.table.expirePairings s.alive now maxAgeMs, reading := none }

/-- The loop of `create_pairing` ends only if an id is left. -/
def Returns (s : Maintained) : MaintenanceEvent → Prop
  | .create _ _ _ => ∃ id, id ≠ 0 ∧ s.table.pairings id = none
  | _ => True

def Step (s : Maintained) (e : MaintenanceEvent) (s' : Maintained) : Prop :=
  s.next e = some s' ∧ s.Returns e

/-- A pairing of which a party still exists. -/
def Live (s : Maintained) (id : UInt64) (pr : Pairing) : Prop :=
  s.table.pairings id = some pr ∧ (s.alive pr.sender = true ∨ s.alive pr.receiver = true)

/-- Such pairings are taken away only when they are older than `maxAgeMs`. -/
def Spares (s : Maintained) (maxAgeMs : UInt64) (s' : Maintained) : Prop :=
  ∀ id pr, s.Live id pr → s'.table.pairings id = none →
    pr.createdMs ≤ s.clock ∧ maxAgeMs < s.clock - pr.createdMs

/-- Such a pairing was made before the clock was read, or is old by now, or `maxAgeMs` is longer than the
difference that wrapped around. -/
def Timely (s : Maintained) (now maxAgeMs : UInt64) : Prop :=
  ∀ id pr, s.Live id pr → pr.createdMs ≤ now ∨ maxAgeMs < s.clock - pr.createdMs ∨
    2 ^ 64 ≤ maxAgeMs.toNat + (pr.createdMs.toNat - now.toNat)

/-- Nothing was stamped, and nothing was read, after the clock's time. -/
structure Inv (s : Maintained) : Prop where
  stamped : ∀ id pr, s.table.pairings id = some pr → pr.createdMs ≤ s.clock
  reading : ∀ now, s.reading = some now → now ≤ s.clock

variable {s s' : Maintained} {e : MaintenanceEvent} {now maxAgeMs : UInt64}

theorem Inv.step (hs : s.Inv) (h : s.Step e s') : s'.Inv := by
  obtain ⟨hnext, -⟩ := h
  cases e with
  | tick clock =>
    simp only [next, Option.ite_none_right_eq_some, Option.some_inj] at hnext
    obtain ⟨hle, rfl⟩ := hnext
    exact ⟨fun id pr hpr => UInt64.le_trans (hs.stamped id pr hpr) hle,
      fun now hnow => UInt64.le_trans (hs.reading now hnow) hle⟩
  | connections alive =>
    cases hnext
    exact ⟨hs.stamped, hs.reading⟩
  | create random sender receiver =>
    cases hnext
    refine ⟨fun id pr hpr => ?_, hs.reading⟩
    rcases SessionTable.createPairing_some hpr with hnew | hold
    · exact UInt64.le_of_eq hnew
    · exact hs.stamped id pr hold
  | relay id fromSender =>
    cases hnext
    refine ⟨fun id' pr hpr => ?_, hs.reading⟩
    obtain ⟨pr', hpr', hcreated⟩ := SessionTable.requestRelay_some hpr
    exact hcreated ▸ hs.stamped id' pr' hpr'
  | destroy id =>
    cases hnext
    exact ⟨fun id' pr hpr => hs.stamped id' pr (SessionTable.destroyPairing_eq_some.mp hpr).2, hs.reading⟩
  | read =>
    simp only [next, Option.ite_none_right_eq_some, Option.some_inj] at hnext
    obtain ⟨-, rfl⟩ := hnext
    refine ⟨hs.stamped, fun now hnow => ?_⟩
    cases hnow
    exact UInt64.le_refl _
  | expire maxAgeMs =>
    obtain ⟨now, -, rfl⟩ := Option.map_eq_some_iff.mp hnext
    exact ⟨fun id pr hpr => hs.stamped id pr (SessionTable.expirePairings_some hpr).1, nofun⟩

theorem Inv.of_reach (h : Reach (· = {}) Step s) : s.Inv := by
  refine h.invariant (fun s hinit => ?_) fun _ _ _ hs hstep => hs.step hstep
  subst hinit
  exact ⟨nofun, nofun⟩

/-- A live pairing goes by its age alone. -/
theorem expire_eq_none {id : UInt64} {pr : Pairing} (h : s.Live id pr) :
    (s.table.expirePairings s.alive now maxAgeMs).pairings id = none ↔
      maxAgeMs < now - pr.createdMs := by
  obtain ⟨hpr, hlive⟩ := h
  have hparty : (!s.alive pr.sender && !s.alive pr.receiver) = false := by
    rcases hlive with hlive | hlive <;> simp [hlive]
  simp only [SessionTable.expirePairings, hpr, hparty, Bool.false_or, decide_eq_true_eq, gt_iff_lt]
  split <;> simp_all

/-- **Fresh pairings are kept** by a maintenance pass exactly when every pairing with a live party was
made before the pass read the clock, or is too old all the same. -/
theorem fresh_pairings_kept (h : Reach (· = {}) Step s) (hreading : s.reading = some now)
    (hstep : s.Step (.expire maxAgeMs) s') : s.Spares maxAgeMs s' ↔ s.Timely now maxAgeMs := by
  have hs := Inv.of_reach h
  have hnow := UInt64.le_iff_toNat_le.mp (hs.reading now hreading)
  obtain ⟨hnext, -⟩ := hstep
  rw [next, hreading] at hnext
  cases hnext
  refine forall_congr' fun id => forall_congr' fun pr => forall_congr' fun hlive => ?_
  have hstamped := hs.stamped id pr hlive.1
  dsimp only
  rw [expire_eq_none hlive]
  have hcreated := UInt64.le_iff_toNat_le.mp hstamped
  have hage : (s.clock - pr.createdMs).toNat = s.clock.toNat - pr.createdMs.toNat :=
    UInt64.toNat_sub_of_le _ _ hstamped
  have hmax := maxAgeMs.toNat_lt
  by_cases hle : pr.createdMs ≤ now
  · refine ⟨fun _ => .inl hle, fun _ hold => ⟨hstamped, ?_⟩⟩
    rw [UInt64.lt_iff_toNat_lt, UInt64.toNat_sub_of_le _ _ hle] at hold
    rw [UInt64.lt_iff_toNat_lt, hage]
    omega
  · have hlt : now.toNat < pr.createdMs.toNat := by
      rw [UInt64.le_iff_toNat_le] at hle
      omega
    -- the difference of the two times wraps around
    have hwrapped : (now - pr.createdMs).toNat = 2 ^ 64 - (pr.createdMs.toNat - now.toNat) := by
      have := pr.createdMs.toNat_lt
      rw [UInt64.toNat_sub]
      omega
    rw [UInt64.lt_iff_toNat_lt, UInt64.lt_iff_toNat_lt, hwrapped]
    constructor
    · intro hspares
      by_cases hshort : maxAgeMs.toNat < 2 ^ 64 - (pr.createdMs.toNat - now.toNat)
      · exact .inr (.inl (hspares hshort).2)
      · exact .inr (.inr (by omega))
    · rintro (hle' | hold | hlong) hshort
      · exact absurd hle' hle
      · exact ⟨hstamped, hold⟩
      · omega

/-- The run of some events; id 9 is never used. -/
def run (events : List MaintenanceEvent) : Option Maintained :=
  runFrom (fun s e => if s.table.pairings 9 = none then s.next e else none) {} events

theorem run_reach {events : List MaintenanceEvent} (h : run events = some s) : Reach (· = {}) Step s := by
  have hr : Reach (· = {}) (fun s e s' => s.next e = some s' ∧ s.table.pairings 9 = none) s :=
    .of_guarded rfl h
  refine hr.mono fun s e s' hs => ⟨hs.1, ?_⟩
  cases e <;> first | trivial | exact ⟨9, by decide, hs.2⟩

/-- What a pass with this reading finds: a pairing made at 1, when the clock stands at 2. -/
def Finds (now : UInt64) (s : Maintained) : Prop :=
  s.reading = some now ∧ s.clock = 2 ∧ s.alive 1 = true ∧
    s.table.pairings 1 = some { id := 1, sender := 2, receiver := 1, createdMs := 1 }

instance (now : UInt64) (s : Maintained) : Decidable (s.Finds now) := inferInstanceAs (Decidable (_ ∧ _))

/-- The pairing is made before the pass. -/
theorem fresh_pairings_kept_early : ∃ s s' : Maintained, s.Finds 1 ∧ s.Step (.expire 120000) s' ∧
    (s.Spares 120000 s' ↔ s.Timely 1 120000) := by
  obtain ⟨s, hs, hfinds⟩ : ∃ s ∈ run [.connections fun _ => true, .tick 1, .create 0 2 1, .read, .tick 2],
      s.Finds 1 := by
    decide +kernel
  have hstep : s.Step (.expire 120000) { s with
      table := s.table.expirePairings s.alive 1 120000, reading := none } :=
    ⟨by rw [next, hfinds.1]; rfl, trivial⟩
  exact ⟨s, _, hfinds, hstep, fresh_pairings_kept (run_reach hs) hfinds.1 hstep⟩

/-- A pairing that is made between the reading and the call is taken away when it is one millisecond
old. -/
theorem new_pairing_expired : ∃ s s' : Maintained, Reach (· = {}) Step s ∧ s.Finds 0 ∧
    s.Step (.expire 120000) s' ∧ ¬ s.Spares 120000 s' := by
  obtain ⟨s, hs, hfinds⟩ : ∃ s ∈ run [.connections fun _ => true, .read, .tick 1, .create 0 2 1, .tick 2],
      s.Finds 0 := by
    decide +kernel
  obtain ⟨hreading, hclock, halive, hpr⟩ := id hfinds
  have hlive : s.Live 1 { id := 1, sender := 2, receiver := 1, createdMs := 1 } := ⟨hpr, .inr halive⟩
  refine ⟨s, _, run_reach hs, hfinds, ⟨by rw [next, hreading]; rfl, trivial⟩, fun hspares => ?_⟩
  have hage := (hspares 1 _ hlive ((expire_eq_none hlive).mpr (by decide))).2
  rw [hclock] at hage
  exact absurd hage (by decide)

end Maintained

end DropZone
