import DropZone.Server.Names

/-!
# Accepting again under the same name

After a transfer the client says `Bye` on its control connection, closes it, opens a new one and says
hello with the same username. Each connection belongs to a shard, and the shards are not in step.

* `Reentry`: the client between its two connections, with the names of the server.
* `reentry_granted_iff`: the new connection is granted the name exactly if the shard of the old one
  has already released it; until then the claim is refused (`reentry_refused`).
-/

namespace DropZone

open LittleEndian System

/-- The server's names, and how far the client is. -/
structure Reentry where
  names : Names
  /-- The client has sent `Bye` on its old connection and closed it. -/
  left : Bool := false
  /-- The connection that it has opened since. -/
  new : Option ConnId := none

inductive ReentryEvent where
  /-- A shard does something that is not a hello of the client. -/
  | server (e : NameEvent)
  /-- The client sends `Bye` and closes its connection. -/
  | leave
  /-- The client connects again and is accepted. -/
  | reconnect
  /-- The hello on the new connection is handled. -/
  | greet (hello : ClientHello)

/-- The event is a hello under the name `u`, or of the connection `new`, and not of `old`. -/
def NameEvent.Intrudes (u : Bytes) (old : ConnId) (new : Option ConnId) : NameEvent → Prop
  | .hello c greeting => c ≠ old ∧ (greeting.username = u ∨ new = some c)
  | _ => False

instance (u : Bytes) (old : ConnId) (new : Option ConnId) (e : NameEvent) :
    Decidable (e.Intrudes u old new) :=
  match e with
  | .hello c greeting =>
    inferInstanceAs (Decidable (c ≠ old ∧ (greeting.username = u ∨ new = some c)))
  | .accept | .store _ | .close _ | .release _ | .drop _ | .destroy _ | .stray _ _ | .other _ =>
    inferInstanceAs (Decidable False)

namespace Reentry

/-- One step, for the client whose old connection is `old` and whose name is `u`. -/
def next (u : Bytes) (old : ConnId) (w : Reentry) : ReentryEvent → Option Reentry
  | .server e =>
    if e.Intrudes u old w.new then none else (w.names.next e).map fun n => { w with names := n }
  | .leave => if w.left then none else some { w with left := true }
  | .reconnect =>
    if w.left ∧ w.new = none then
      (w.names.next .accept).map fun n => { w with names := n, new := some w.names.nextId }
    else none
  | .greet hello => do
    let c ← w.new
    if hello.role = .receiver ∧ hello.username = u then
      (w.names.next (.hello c hello)).map fun n => { w with names := n }
    else none

def Step (u : Bytes) (old : ConnId) (w : Reentry) (e : ReentryEvent) (w' : Reentry) : Prop :=
  w.next u old e = some w'

/-- The old connection holds the name, whatever came before. -/
def Initial (u : Bytes) (old : ConnId) (w : Reentry) : Prop :=
  Reach Names.Initial Names.Step w.names ∧ w.names.Holds old u ∧ w.left = false ∧ w.new = none

end Reentry

/-- The `close_connection` of `c` has released the name of `c`. -/
def Names.Released (s : Names) (c : ConnId) : Prop :=
  ∀ h, s.holders c = some h → h.task = .released ∨ h.task = .dropped

section

variable {s s' : Names} {c d : ConnId} {u : Bytes} {e : NameEvent}

theorem Names.Does.won (h : Names.Does s e s') (hs : s.Inv) (hu : s'.Holds d u) :
    s.Holds d u ∨ ∃ hello, e = .hello d hello ∧ hello.username = u := by
  have hclaim := ((hs.step h).claims d u).mpr hu
  cases h with
  | @granted c hello k _ _ _ _ =>
    change Function.update s.sessions.claims hello.username (some c) u = some d at hclaim
    by_cases huv : u = hello.username
    · subst huv
      rw [Function.update_self] at hclaim
      cases hclaim
      exact .inr ⟨hello, rfl, rfl⟩
    · rw [Function.update_of_ne huv] at hclaim
      exact .inl ((hs.claims d u).mp hclaim)
  | released _ _ => exact .inl ((hs.claims d u).mp (Names.release_claims_le hclaim))
  | strayed _ => exact .inl ((hs.claims d u).mp (Names.release_claims_le hclaim))
  | _ => exact .inl ((hs.claims d u).mp hclaim)

/-- What was released stays released. -/
theorem Names.Released.step (hr : s.Released c) (hid : c < s.nextId) (h : Names.Does s e s') :
    s'.Released c := by
  have hset : ∀ {t : Names} {d o}, t.Released c →
      (c = d → ∀ k, o = some k → k.task = .released ∨ k.task = .dropped) → (t.set d o).Released c := by
    intro t d o ht ho k hk
    by_cases hcd : c = d
    · subst hcd
      rw [Names.holders_set_self] at hk
      exact ho rfl k hk
    · rw [Names.holders_set_of_ne hcd] at hk
      exact ht k hk
  have hbusy : ∀ {d k t}, s.holders d = some k → k.task = t → t ≠ .released → t ≠ .dropped → c ≠ d := by
    rintro d k t hk rfl hne hne' rfl
    exact (hr k hk).elim hne hne'
  cases h with
  | accepted => exact hset hr fun hc => absurd hid (by rw [hc]; exact Nat.lt_irrefl _)
  | again _ _ => exact hr
  | unnamed found free _ _ => exact hset hr fun hc => absurd hc (hbusy found free nofun nofun)
  | granted found free _ _ =>
    exact hset (by exact hr) fun hc => absurd hc (hbusy found free nofun nofun)
  | stored found task => exact hset hr fun hc => absurd hc (hbusy found task nofun nofun)
  | closed found free => exact hset hr fun hc => absurd hc (hbusy found free nofun nofun)
  | released _ _ =>
    refine hset (by exact hr) fun _ k hk => ?_
    cases hk
    exact .inl rfl
  | dropped _ _ =>
    refine hset hr fun _ k hk => ?_
    cases hk
    exact .inr rfl
  | destroyed _ _ => exact hset hr nofun
  | strayed _ => exact hr
  | other => exact hr

theorem Names.Does.nextId_le (h : Names.Does s e s') : s.nextId ≤ s'.nextId := by
  cases h with
  | accepted => exact Nat.le_succ _
  | _ => exact Nat.le_refl _

/-- A connection keeps its name or has released it. -/
theorem Names.Does.kept (h : Names.Does s e s') (hs : s.Inv) (hid : c < s.nextId)
    (hc : s.Holds c u ∨ s.Released c) : s'.Holds c u ∨ s'.Released c := by
  rcases hc with hu | hr
  · by_cases he : e = .release c
    · subst he
      right
      cases h with
      | released _ _ =>
        intro k hk
        cases (Names.holders_set_self ..).symm.trans hk
        exact .inl rfl
    · exact .inl (hu.step hs h he)
  · exact .inr (hr.step hid h)

end

/-! ## The client's run -/

namespace Reentry

variable {w w' : Reentry} {u : Bytes} {old : ConnId}

structure Inv (u : Bytes) (old : ConnId) (w : Reentry) : Prop where
  names : w.names.Inv
  valid : isValidUsername u = true
  known : old < w.names.nextId
  kept : w.names.Holds old u ∨ w.names.Released old
  /-- Nobody but the client has the name. -/
  alone : ∀ d, w.names.Holds d u → d = old ∨ w.new = some d

/-- A step of the server's names, by whoever may say hello under the name. -/
theorem Inv.does {e : NameEvent} {n : Names} {new : Option ConnId} (hw : w.Inv u old)
    (h : Names.Does w.names e n) (hnew : ∀ d, w.new = some d → new = some d)
    (hhello : ∀ d hello, e = .hello d hello → hello.username = u → d = old ∨ new = some d) :
    Inv u old { w with names := n, new := new } where
  names := hw.names.step h
  valid := hw.valid
  known := Nat.lt_of_lt_of_le hw.known h.nextId_le
  kept := h.kept hw.names hw.known hw.kept
  alone d hd := by
    obtain hd | ⟨hello, he, hu⟩ := h.won hw.names hd
    · exact (hw.alone d hd).imp_right (hnew d)
    · exact hhello d hello he hu

theorem Inv.step (hw : w.Inv u old) {e : ReentryEvent} (h : w.next u old e = some w') :
    w'.Inv u old := by
  cases e with
  | server e =>
    simp only [next, Option.ite_none_left_eq_some] at h
    obtain ⟨hquiet, h⟩ := h
    obtain ⟨n, hn, rfl⟩ := Option.map_eq_some_iff.mp h
    refine hw.does (Names.next_does hn) (fun _ h => h) ?_
    rintro d hello rfl hu
    by_contra hother
    rw [not_or] at hother
    exact hquiet ⟨hother.1, .inl hu⟩
  | leave =>
    simp only [next, Option.ite_none_left_eq_some, Option.some.injEq] at h
    obtain ⟨-, rfl⟩ := h
    exact ⟨hw.names, hw.valid, hw.known, hw.kept, hw.alone⟩
  | reconnect =>
    simp only [next, Option.ite_none_right_eq_some] at h
    obtain ⟨⟨-, hnone⟩, h⟩ := h
    obtain ⟨n, hn, rfl⟩ := Option.map_eq_some_iff.mp h
    refine hw.does (Names.next_does hn) (fun d hd => ?_) nofun
    cases hnone.symm.trans hd
  | greet hello =>
    obtain ⟨c, hc, h⟩ := Option.bind_eq_some_iff.mp h
    simp only [Option.ite_none_right_eq_some] at h
    obtain ⟨-, h⟩ := h
    obtain ⟨n, hn, rfl⟩ := Option.map_eq_some_iff.mp h
    refine hw.does (Names.next_does hn) (fun _ h => h) ?_
    rintro d hello' he -
    cases he
    exact .inr hc

theorem Inv.of_reach (h : Reach (Initial u old) (Step u old) w) : w.Inv u old := by
  refine h.invariant (fun w hw => ?_) fun _ _ _ hw h => hw.step h
  obtain ⟨hreach, hold, -, hnew⟩ := hw
  have hnames := Names.Inv.of_reach hreach
  obtain ⟨k, hk, -⟩ := id hold
  refine ⟨hnames, hnames.valid _ _ hold, (hnames.tame _ _ hk).1, .inl hold, fun d hd => .inl ?_⟩
  exact Option.some.inj (((hnames.claims d u).mpr hd).symm.trans ((hnames.claims old u).mpr hold))

/-- **The name is granted again exactly if it was released.** Under every scheduling, when the first
hello on the new connection is handled, the claim is granted if and only if the shard of the old
connection has come to the release in its `close_connection`. -/
theorem reentry_granted_iff (h : Reach (Initial u old) (Step u old) w) {c : ConnId} {k : Holder}
    (hnew : w.new = some c) (hk : w.names.holders c = some k) (hfirst : k.helloReceived = false) :
    (w.names.sessions.claim w.names.alive u c).1 = .granted ↔ w.names.Released old := by
  have hw := Inv.of_reach h
  have hnot : w.names.Released old → ¬ w.names.Holds old u := by
    rintro hr ⟨k, hk, hu⟩
    rcases hr k hk with ht | ht <;> simp [Holder.Has, ht] at hu
  rw [Names.claim_granted_iff]
  constructor
  · rintro ⟨-, hdead⟩
    refine hw.kept.resolve_left fun hu => ?_
    exact absurd (hdead old ((hw.names.claims old u).mpr hu)) (by rw [hu.alive]; decide)
  · intro hr
    refine ⟨hw.valid, fun d hd => ?_⟩
    have hu := (hw.names.claims d u).mp hd
    rcases hw.alone d hu with rfl | hd
    · exact absurd hu (hnot hr)
    · -- the new connection has no name before its first hello
      cases hnew.symm.trans hd
      obtain ⟨-, htame⟩ := hw.names.tame c k hk
      obtain ht | ⟨-, hv, hne⟩ := (Names.holds_of hk).mp hu
      · cases hfirst.symm.trans (htame.pending _ ht).1
      · exact absurd (hv.symm.trans (htame.new hfirst)) hne

/-! ## Two schedules -/

/-- Connection 1 accepts as `r`; then the client goes on with `es`. -/
def after (es : List ReentryEvent) : Option Reentry :=
  (runFrom Names.next {} Names.accepting).bind fun n =>
    runFrom (next (text "r") 1) { names := n } es

theorem after_reach {es : List ReentryEvent} (h : after es = some w) :
    Reach (Initial (text "r") 1) (Step (text "r") 1) w := by
  obtain ⟨n, hn, hw⟩ := Option.bind_eq_some_iff.mp h
  obtain ⟨n', hn', hholds⟩ := Names.accepting_holds
  cases hn'.symm.trans hn
  exact Reach.of_runFrom (.init ⟨Reach.of_runFrom (.init rfl) hn, hholds, rfl, rfl⟩) hw

/-- The shard of the old connection releases the name first. -/
theorem reentry_granted_released : ∃ w, Reach (Initial (text "r") 1) (Step (text "r") 1) w ∧
    w.new = some 2 ∧ (w.names.sessions.claim w.names.alive (text "r") 2).1 = .granted := by
  obtain ⟨w, hw, hnew, hk, hold⟩ :
      ∃ w ∈ after [.leave, .server (.close 1), .server (.release 1), .reconnect], w.new = some 2 ∧
        w.names.holders 2 = some {} ∧ w.names.holders 1 = some ⟨true, text "r", .released⟩ := by
    decide +kernel
  refine ⟨w, after_reach hw, hnew, (reentry_granted_iff (after_reach hw) hnew hk rfl).mpr ?_⟩
  intro h hh
  cases hold.symm.trans hh
  exact .inl rfl

/-- **The name is refused to its own user.** The shard of the new connection is first. -/
theorem reentry_refused : ∃ w, Reach (Initial (text "r") 1) (Step (text "r") 1) w ∧
    w.left = true ∧ w.new = some 2 ∧ w.names.holders 2 = some {} ∧
    (w.names.sessions.claim w.names.alive (text "r") 2).1 = .alreadyClaimed := by
  obtain ⟨w, hw, hout⟩ : ∃ w ∈ after [.leave, .reconnect], w.left = true ∧ w.new = some 2 ∧
      w.names.holders 2 = some {} ∧
      (w.names.sessions.claim w.names.alive (text "r") 2).1 = .alreadyClaimed := by
    decide +kernel
  exact ⟨w, after_reach hw, hout⟩

end Reentry

end DropZone
