import Mathlib.Logic.Function.Basic
import DropZone.Handshake.Agreement
import DropZone.Handshake.PeersFile
import DropZone.Lib.System

/-!
# Pinning by several threads and several processes

`enforce_pinning` is two critical sections of `KnownPeers`: `check`, and after a first sight
`remember`, which overwrites. The threads of a group send share one `KnownPeers`; the processes of one
user share the known_peers file, which each reads once and then replaces by what it has in memory.

* `Pinning`: one `KnownPeers` object and the threads that are between the two sections.
* `PeerStore`: the file and the processes.
* `Pinning.timely`, `PeerStore.Current`: no other thread has recorded another key in between; the
  process has in memory what the file has.
* `Pinning.trust_on_first_use`, `PeerStore.pins_survive`: what holds in runs of such steps.
  `Pinning.second_key_trusted`, `PeerStore.pin_lost`: what happens in others.
-/

namespace DropZone

open LittleEndian System StateSpec

namespace KnownPeers

theorem mem_remember {peers : KnownPeers} {peer : KnownPeer} {u : Bytes} {k : Block 32} {now : UInt64}
    (h : peer ∈ peers.remember u k now) :
    peer.username = u ∨ ∃ q ∈ peers, q.username = peer.username := by
  induction peers with
  | nil =>
    rw [remember, List.mem_singleton] at h
    exact .inl (h ▸ rfl)
  | cons q peers ih =>
    unfold remember at h
    split at h
    · rename_i hq
      rcases List.mem_cons.mp h with rfl | h
      · exact .inl hq
      · exact .inr ⟨peer, List.mem_cons_of_mem _ h, rfl⟩
    · rcases List.mem_cons.mp h with rfl | h
      · exact .inr ⟨_, List.mem_cons_self, rfl⟩
      · rcases ih h with hu | ⟨q', hq', hname⟩
        · exact .inl hu
        · exact .inr ⟨q', List.mem_cons_of_mem _ hq', hname⟩

end KnownPeers

/-! ## Threads -/

abbrev ThreadId := Nat

/-- One `KnownPeers` object and the calls of `enforce_pinning` on it. -/
structure Pinning where
  peers : KnownPeers
  /-- What a thread whose `check` said `FirstSight` has yet to `remember`. -/
  pending : ThreadId → Option (Bytes × Block 32) := fun _ => none
  /-- The arguments of the calls that have returned normally. -/
  returned : List (Bytes × Block 32) := []

inductive PinEvent where
  /-- A thread calls `enforce_pinning`, which calls `check`. -/
  | check (t : ThreadId) (username : Bytes) (identityKey : Block 32)
  /-- The thread goes on with `remember` at a time; `save` is what saving throws. -/
  | remember (t : ThreadId) (now : UInt64) (save : Option Failure)

namespace Pinning

/-- A call that returns. -/
def returns (s : Pinning) (username : Bytes) (identityKey : Block 32) : Pinning :=
  { s with returned := s.returned ++ [(username, identityKey)] }

/-- One step, if it can happen. -/
def next (s : Pinning) : PinEvent → Option Pinning
  | .check t username identityKey =>
    if (s.pending t).isSome then none
    else match s.peers.check username identityKey with
      | .same => some (s.returns username identityKey)
      | .firstSight => some { s with
          pending := Function.update s.pending t (some (username, identityKey)) }
      | .changed => some s
  | .remember t now save => (s.pending t).map fun (username, identityKey) =>
    let s' := { s with peers := s.peers.remember username identityKey now
                       pending := Function.update s.pending t none }
    if save.isSome then s' else s'.returns username identityKey

/-- No thread has recorded another key since the `check` of the thread that goes on. -/
def timely (s : Pinning) : PinEvent → Bool
  | .check .. => true
  | .remember t _ _ =>
    match s.pending t with
    | some (username, identityKey) => s.peers.check username identityKey != .changed
    | none => true

def timelyNext (s : Pinning) (e : PinEvent) : Option Pinning := if s.timely e then s.next e else none

def Initial (s : Pinning) : Prop := ∃ peers, s = { peers }

def TimelyStep (s : Pinning) (e : PinEvent) (s' : Pinning) : Prop := s.timelyNext e = some s'

variable {s s' : Pinning} {e : PinEvent}

theorem next_cases (h : s.next e = some s') :
    (∃ t u k, e = .check t u k ∧
      (s.peers.Pins u k ∧ s' = s.returns u k ∨
       s' = { s with pending := Function.update s.pending t (some (u, k)) } ∨
       s' = s)) ∨
    (∃ t u k now save, e = .remember t now save ∧ s.pending t = some (u, k) ∧
      s'.peers = s.peers.remember u k now ∧ s'.pending = Function.update s.pending t none ∧
      (s'.returned = s.returned ∨ save = none ∧ s'.returned = s.returned ++ [(u, k)])) := by
  cases e with
  | check t u k =>
    refine .inl ⟨t, u, k, rfl, ?_⟩
    rw [next] at h
    split at h
    · cases h
    · split at h
      · rename_i hsame
        exact .inl ⟨KnownPeers.check_eq_same_iff.mp hsame, (Option.some_inj.mp h).symm⟩
      · exact .inr (.inl (Option.some_inj.mp h).symm)
      · exact .inr (.inr (Option.some_inj.mp h).symm)
  | remember t now save =>
    obtain ⟨⟨u, k⟩, hp, rfl⟩ := Option.map_eq_some_iff.mp h
    refine .inr ⟨t, u, k, now, save, rfl, hp, ?_⟩
    cases save with
    | none => exact ⟨rfl, rfl, .inr ⟨rfl, rfl⟩⟩
    | some e => exact ⟨rfl, rfl, .inl rfl⟩

/-- A step keeps the recorded keys exactly when it comes at a right time. -/
theorem keeps_iff_timely (h : s.next e = some s') : s.peers.Keeps s'.peers ↔ s.timely e = true := by
  rcases next_cases h with ⟨t, u, k, rfl, hs'⟩ | ⟨t, u, k, now, save, rfl, hp, hpeers, -, -⟩
  · have hpeers : s'.peers = s.peers := by
      rcases hs' with ⟨-, rfl⟩ | rfl | rfl <;> rfl
    rw [hpeers]
    exact iff_of_true (fun _ _ h => h) rfl
  · rw [hpeers, KnownPeers.keeps_remember_iff, timely, hp]
    exact bne_iff_ne.symm

theorem timelyStep_iff : TimelyStep s e s' ↔ s.timely e = true ∧ s.next e = some s' :=
  Option.ite_none_right_eq_some

/-- Every call that has returned presented the recorded key. -/
def Sound (s : Pinning) : Prop := ∀ u k, (u, k) ∈ s.returned → s.peers.Pins u k

theorem Sound.step (h : s.Sound) (hs : s.TimelyStep e s') : s'.Sound := by
  obtain ⟨htimely, hnext⟩ := timelyStep_iff.mp hs
  have hkeeps := (keeps_iff_timely hnext).mpr htimely
  intro v k' hmem
  rcases next_cases hnext with ⟨t, u, k, rfl, hs'⟩ | ⟨t, u, k, now, save, rfl, hp, hpeers, -, hret⟩
  · rcases hs' with ⟨hpin, rfl⟩ | rfl | rfl
    · rcases List.mem_append.mp hmem with hmem | hmem
      · exact h v k' hmem
      · cases List.mem_singleton.mp hmem
        exact hpin
    · exact h v k' hmem
    · exact h v k' hmem
  · rcases hret with hret | ⟨-, hret⟩
    · rw [hret] at hmem
      exact hkeeps v k' (h v k' hmem)
    · rw [hret] at hmem
      rcases List.mem_append.mp hmem with hmem | hmem
      · exact hkeeps v k' (h v k' hmem)
      · cases List.mem_singleton.mp hmem
        rw [hpeers]
        exact KnownPeers.pins_remember ..

theorem Sound.of_reach (h : Reach Initial TimelyStep s) : s.Sound := by
  refine Reach.invariant ?_ (fun _ _ _ h hs => h.step hs) h
  rintro s ⟨peers, rfl⟩ u k hmem
  cases hmem

theorem keeps_of_reach (h : Reach (· = s) TimelyStep s') : s.peers.Keeps s'.peers := by
  refine Reach.invariant (I := fun t => s.peers.Keeps t.peers) ?_ ?_ h
  · rintro t rfl u k hpin
    exact hpin
  · intro t e t' ih hs u k hpin
    obtain ⟨htimely, hnext⟩ := timelyStep_iff.mp hs
    exact (keeps_iff_timely hnext).mpr htimely u k (ih u k hpin)

/-- **Trust on first use among threads.** As long as no thread records a key after another thread has
recorded another key for the same name, all calls of one name that return presented one key, and a
recorded key stays. -/
theorem trust_on_first_use (h : Reach Initial TimelyStep s) :
    (∀ u k k', (u, k) ∈ s.returned → (u, k') ∈ s.returned → k = k') ∧
    (∀ u k, s.peers.Pins u k → ∀ s', Reach (· = s) TimelyStep s' → s'.peers.Pins u k) := by
  have hsound := Sound.of_reach h
  exact ⟨fun u k k' hk hk' => (hsound u k hk).unique (hsound u k' hk'),
    fun u k hpin s' hs' => keeps_of_reach hs' u k hpin⟩

/-- Two threads in turn: the first pins a key, the second presents the same. -/
def inTurn : List PinEvent :=
  [.check 1 (text "u") (leBlock 32 1), .remember 1 0 none, .check 2 (text "u") (leBlock 32 1)]

theorem trust_on_first_use_inTurn :
    ∃ s, Reach Initial TimelyStep s ∧ s.returned = [(text "u", leBlock 32 1), (text "u", leBlock 32 1)] ∧
      ∀ s', Reach (· = s) TimelyStep s' → s'.peers.Pins (text "u") (leBlock 32 1) := by
  have hinit : Reach Initial TimelyStep { peers := [] } := .init ⟨[], rfl⟩
  obtain ⟨s, hs, hreturned, hpins⟩ : ∃ s ∈ runFrom timelyNext { peers := [] } inTurn,
      s.returned = [(text "u", leBlock 32 1), (text "u", leBlock 32 1)] ∧
      s.peers.Pins (text "u") (leBlock 32 1) := by
    decide +kernel
  have hreach : Reach Initial TimelyStep s := hinit.of_runFrom hs
  exact ⟨s, hreach, hreturned, (trust_on_first_use hreach).2 _ _ hpins⟩

/-- Two threads see the name `u` for the first time, with two keys, before either records it. -/
def atOnce : List PinEvent :=
  [.check 1 (text "u") (leBlock 32 1), .check 2 (text "u") (leBlock 32 2), .remember 1 0 none,
   .remember 2 0 none]

/-- **Both keys are trusted, and the recorded key changes.** -/
theorem second_key_trusted :
    ∃ s s', runFrom next { peers := [] } (atOnce.take 3) = some s ∧
      runFrom next { peers := [] } atOnce = some s' ∧
      s'.returned = [(text "u", leBlock 32 1), (text "u", leBlock 32 2)] ∧
      s.peers.Pins (text "u") (leBlock 32 1) ∧ s'.peers.Pins (text "u") (leBlock 32 2) :=
  ⟨_, _, rfl, rfl, by decide +kernel, by decide +kernel, by decide +kernel⟩

/-- The steps of a call that nothing interrupts. -/
def steps (s : Pinning) (o : Outside) (t : ThreadId) (u : Bytes) (k : Block 32) : List PinEvent :=
  match s.peers.check u k with
  | .firstSight => [.check t u k, .remember t o.now o.save]
  | .same | .changed => [.check t u k]

/-- A call that nothing interrupts is `enforcePinning`: its steps make the same records, and the call
returns in both or throws in both. -/
theorem runFrom_enforcePinning {p : Primitives} (o : Outside) (c : Client) (u : Bytes) (k : Block 32)
    {t : ThreadId} (hpeers : s.peers = c.knownPeers) (hidle : s.pending t = none) :
    ∃ s', runFrom next s (s.steps o t u k) = some s' ∧ s'.pending = s.pending ∧
      (∀ c', (enforcePinning p o u k).run c = .ok () c' →
        s'.peers = c'.knownPeers ∧ s'.returned = s.returned ++ [(u, k)]) ∧
      (∀ e c', (enforcePinning p o u k).run c = .error e c' →
        s'.peers = c'.knownPeers ∧ s'.returned = s.returned) := by
  rw [run_enforcePinning, ← hpeers, steps]
  cases hcheck : s.peers.check u k with
  | same =>
    refine ⟨s.returns u k, ?_, rfl, ?_, ?_⟩
    · simp [runFrom, next, hidle, hcheck]
    · intro c' h
      cases h
      exact ⟨hpeers, rfl⟩
    · intro e c' h
      cases h
  | changed =>
    refine ⟨s, ?_, rfl, ?_, ?_⟩
    · simp [runFrom, next, hidle, hcheck]
    · intro c' h
      cases h
    · intro e c' h
      cases h
      exact ⟨hpeers, rfl⟩
  | firstSight =>
    have hpending : Function.update (Function.update s.pending t (some (u, k))) t none = s.pending := by
      rw [Function.update_idem, ← hidle, Function.update_eq_self]
    refine ⟨{ s with
      peers := s.peers.remember u k o.now
      returned := if o.save.isSome then s.returned else s.returned ++ [(u, k)] }, ?_, rfl, ?_, ?_⟩
    · cases hsave : o.save <;> simp [runFrom, next, returns, hidle, hcheck, hpending]
    · intro c' h
      cases hsave : o.save with
      | none =>
        rw [hsave] at h
        cases h
        exact ⟨rfl, rfl⟩
      | some e =>
        rw [hsave] at h
        cases h
    · intro e c' h
      cases hsave : o.save with
      | none =>
        rw [hsave] at h
        cases h
      | some e' =>
        rw [hsave] at h
        cases h
        exact ⟨rfl, rfl⟩

/-- A name that is seen for the first time. -/
theorem runFrom_enforcePinning_new : ∃ s', runFrom next { peers := [] }
      [.check 1 (text "u") (leBlock 32 1), .remember 1 0 none] = some s' ∧
    s'.returned = [(text "u", leBlock 32 1)] := by
  obtain ⟨s', hrun, -, hok, -⟩ := runFrom_enforcePinning (p := toyPrimitives) (t := 1) {}
    { knownPeers := [] } (text "u") (leBlock 32 1) (show ({ peers := [] } : Pinning).peers = [] from rfl) rfl
  exact ⟨s', hrun, (hok _ rfl).2⟩

end Pinning

/-! ## Processes -/

abbrev ProcessId := Nat

/-- The known_peers file and the processes that use it. -/
structure PeerStore where
  file : Option Bytes
  processes : ProcessId → Option Pinning := fun _ => none

inductive StoreEvent where
  /-- A process starts and loads the file. -/
  | start (q : ProcessId)
  | stop (q : ProcessId)
  /-- A step of a call of `enforce_pinning` in a process. -/
  | call (q : ProcessId) (e : PinEvent)

/-- The step replaces the file. -/
def PinEvent.saves : PinEvent → Bool
  | .check .. => false
  | .remember _ _ save => save.isNone

namespace PeerStore

/-- What a process that starts now would load. -/
def recorded (s : PeerStore) : KnownPeers := .load s.file

/-- One step, if it can happen. -/
def next (s : PeerStore) : StoreEvent → Option PeerStore
  | .start q =>
    if (s.processes q).isSome then none
    else some { s with processes := Function.update s.processes q (some { peers := s.recorded }) }
  | .stop q => some { s with processes := Function.update s.processes q none }
  | .call q e => do
    let m ← s.processes q
    let m' ← m.next e
    some { file := if e.saves then some m'.peers.contents else s.file
           processes := Function.update s.processes q (some m') }

/-- Calls are for valid usernames. When a process saves, it has in memory every key that the file has,
and the file has no other key for the name that is recorded. -/
def Current (s : PeerStore) : StoreEvent → Prop
  | .start _ | .stop _ => True
  | .call _ (.check _ username _) => isValidUsername username = true
  | .call q (.remember t _ save) => ∀ m u k, s.processes q = some m → m.pending t = some (u, k) →
      save = none → ∀ v k', s.recorded.Pins v k' → if v = u then k' = k else m.peers.Pins v k'

def Initial (s : PeerStore) : Prop := ∃ file, s = { file }

def CurrentStep (s : PeerStore) (e : StoreEvent) (s' : PeerStore) : Prop :=
  s.Current e ∧ s.next e = some s'

variable {s s' : PeerStore} {e : StoreEvent}

/-- A memory whose names can be written and read back. -/
structure Writable (m : Pinning) : Prop where
  peers : ∀ peer ∈ m.peers, isValidUsername peer.username = true
  pending : ∀ t u k, m.pending t = some (u, k) → isValidUsername u = true

theorem Writable.update {m m' : Pinning} {t : ThreadId} {x : Option (Bytes × Block 32)} (h : Writable m)
    (hpeers : ∀ peer ∈ m'.peers, isValidUsername peer.username = true)
    (hpending : m'.pending = Function.update m.pending t x)
    (hx : ∀ u k, x = some (u, k) → isValidUsername u = true) : Writable m' := by
  refine ⟨hpeers, ?_⟩
  rw [hpending]
  exact (Function.forall_update_iff m.pending fun _ y => ∀ u k, y = some (u, k) →
    isValidUsername u = true).mpr ⟨hx, fun t' _ => h.pending t'⟩

theorem Writable.next {m m' : Pinning} {e : PinEvent} (h : Writable m)
    (hcheck : ∀ t u k, e = .check t u k → isValidUsername u = true) (hm : m.next e = some m') :
    Writable m' := by
  rcases Pinning.next_cases hm with
    ⟨t, u, k, rfl, hm'⟩ | ⟨t, u, k, now, save, rfl, hp, hpeers, hpending, -⟩
  · rcases hm' with ⟨-, rfl⟩ | rfl | rfl
    · exact ⟨h.peers, h.pending⟩
    · refine h.update h.peers rfl fun u' k' hx => ?_
      rw [Option.some_inj, Prod.mk.injEq] at hx
      exact hx.1 ▸ hcheck t u k rfl
    · exact h
  · refine h.update (fun peer hmem => ?_) hpending nofun
    rw [hpeers] at hmem
    rcases KnownPeers.mem_remember hmem with hu | ⟨q, hq, hname⟩
    · exact hu ▸ h.pending t u k hp
    · exact hname ▸ h.peers q hq

theorem next_cases (h : s.next e = some s') :
    (s'.file = s.file ∧ ∃ q m, s'.processes = Function.update s.processes q m ∧
      ∀ m', m = some m' → m' = { peers := s.recorded }) ∨
    (∃ q m m' e', e = .call q e' ∧ s.processes q = some m ∧ m.next e' = some m' ∧
      s'.processes = Function.update s.processes q (some m') ∧
      s'.file = if e'.saves then some m'.peers.contents else s.file) := by
  cases e with
  | start q =>
    rw [next] at h
    split at h
    · cases h
    · cases h
      exact .inl ⟨rfl, q, _, rfl, fun m' hm => (Option.some_inj.mp hm).symm⟩
  | stop q =>
    cases h
    exact .inl ⟨rfl, q, none, rfl, nofun⟩
  | call q e =>
    obtain ⟨m, hm, h⟩ := Option.bind_eq_some_iff.mp h
    obtain ⟨m', hm', h⟩ := Option.bind_eq_some_iff.mp h
    cases h
    exact .inr ⟨q, m, m', e, rfl, hm, hm', rfl, rfl⟩

/-- The names that the processes have in memory are valid. -/
def Valid (s : PeerStore) : Prop := ∀ q m, s.processes q = some m → Writable m

theorem Valid.update {q : ProcessId} {m : Option Pinning} (h : s.Valid)
    (hp : s'.processes = Function.update s.processes q m) (hm : ∀ m', m = some m' → Writable m') :
    s'.Valid := by
  unfold Valid
  rw [hp]
  exact (Function.forall_update_iff s.processes fun _ m => ∀ m', m = some m' → Writable m').mpr
    ⟨hm, fun q' _ => h q'⟩

theorem Valid.step (h : s.Valid) (hs : s.CurrentStep e s') : s'.Valid := by
  obtain ⟨hcurrent, hnext⟩ := hs
  rcases next_cases hnext with ⟨-, q, m, hp, hm⟩ | ⟨q, m, m', e, rfl, hm, hm', hp, -⟩
  · refine h.update hp fun m' hm' => ?_
    rw [hm m' hm']
    exact ⟨fun peer hpeer => KnownPeers.valid_of_mem_load hpeer, nofun⟩
  · refine h.update hp fun m'' hm'' => ?_
    cases hm''
    refine (h q m hm).next ?_ hm'
    rintro t u k rfl
    exact hcurrent

theorem Valid.of_reach {init : PeerStore → Prop} (hinit : ∀ s, init s → s.Valid)
    (h : Reach init CurrentStep s) : s.Valid :=
  Reach.invariant hinit (fun _ _ _ h hs => h.step hs) h

/-- What a file that a process has just written records. -/
theorem recorded_of_saved {peers : KnownPeers}
    (h : ∀ peer ∈ peers, isValidUsername peer.username = true) (hfile : s.file = some peers.contents) :
    s.recorded = peers := by
  rw [recorded, hfile, KnownPeers.load_contents h]

/-- A step of a process that is up to date keeps what the file records. -/
theorem keeps_of_step (h : s.Valid) (hs : s.CurrentStep e s') : s.recorded.Keeps s'.recorded := by
  have h' := h.step hs
  obtain ⟨hcurrent, hnext⟩ := hs
  intro v k' hpin
  have hsame : s'.file = s.file → s'.recorded.Pins v k' := by
    intro hfile
    rw [recorded, hfile]
    exact hpin
  rcases next_cases hnext with ⟨hfile, -⟩ | ⟨q, m, m', e, rfl, hm, hm', hp, hfile⟩
  · exact hsame hfile
  · have hwritable : Writable m' := h' q m' (by rw [hp, Function.update_self])
    rcases Pinning.next_cases hm' with ⟨t, u, k, rfl, -⟩ | ⟨t, u, k, now, save, rfl, hpend, hpeers, -⟩
    · exact hsame hfile
    · cases save with
      | some failure => exact hsame hfile
      | none =>
        rw [recorded_of_saved hwritable.peers hfile, hpeers, KnownPeers.pins_remember_iff]
        exact hcurrent m u k hm hpend rfl v k' hpin

theorem Initial.valid (h : s.Initial) : s.Valid := by
  obtain ⟨file, rfl⟩ := h
  nofun

/-- **Pins survive on disk** as long as every process that saves has in memory what the file has. -/
theorem pins_survive (h : Reach Initial CurrentStep s) {u : Bytes} {k : Block 32}
    (hpin : s.recorded.Pins u k) (hs : Reach (· = s) CurrentStep s') : s'.recorded.Pins u k := by
  have hvalid : s.Valid := Valid.of_reach (fun _ => Initial.valid) h
  have hboth : s'.Valid ∧ s'.recorded.Pins u k := by
    refine Reach.invariant (I := fun t => t.Valid ∧ t.recorded.Pins u k) ?_ ?_ hs
    · rintro t rfl
      exact ⟨hvalid, hpin⟩
    · rintro t e t' ⟨htv, htp⟩ hs
      exact ⟨htv.step hs, keeps_of_step htv hs u k htp⟩
  exact hboth.2

theorem current_of_recorded {q : ProcessId} {m : Pinning} {t : ThreadId} {u : Bytes} {k : Block 32}
    {now : UInt64} {save : Option Failure} (hq : s.processes q = some m) (hm : m.peers = s.recorded)
    (ht : m.pending t = some (u, k)) (hcheck : s.recorded.check u k ≠ .changed) :
    s.Current (.call q (.remember t now save)) := by
  intro m' u' k' hq' ht' hsave v k'' hpin
  cases Option.some_inj.mp (hq.symm.trans hq')
  cases Option.some_inj.mp (ht.symm.trans ht')
  split
  · rename_i hv
    subst hv
    exact Classical.not_not.mp fun hne => hcheck (KnownPeers.check_eq_changed_iff.mpr ⟨k'', hpin, hne⟩)
  · rw [hm]
    exact hpin

/-- A process that starts and sees a name for the first time, while no other process does anything. -/
theorem reach_recorded {init : PeerStore → Prop} (h : Reach init CurrentStep s) {q : ProcessId}
    (hq : s.processes q = none) {u : Bytes} {k : Block 32} (hu : isValidUsername u = true)
    (hfirst : s.recorded.check u k = .firstSight) :
    ∃ s', Reach init CurrentStep s' ∧ s'.recorded = s.recorded.remember u k 0 ∧
      ∀ q', q' ≠ q → s'.processes q' = s.processes q' := by
  let m₁ : Pinning := { peers := s.recorded }
  let m₂ : Pinning := { m₁ with pending := Function.update m₁.pending 0 (some (u, k)) }
  let m₃ : Pinning := { peers := m₁.peers.remember u k 0
                        pending := Function.update m₂.pending 0 none
                        returned := [(u, k)] }
  let s₁ : PeerStore := { s with processes := Function.update s.processes q (some m₁) }
  let s₂ : PeerStore := { s₁ with processes := Function.update s₁.processes q (some m₂) }
  let s₃ : PeerStore := { file := some m₃.peers.contents
                          processes := Function.update s₂.processes q (some m₃) }
  have h₁ : s.CurrentStep (.start q) s₁ := ⟨trivial, by rw [next, hq]; rfl⟩
  have h₂ : s₁.CurrentStep (.call q (.check 0 u k)) s₂ := by
    refine ⟨hu, ?_⟩
    simp [next, s₁, s₂, m₁, m₂, Pinning.next, hfirst, PinEvent.saves]
  have h₃ : s₂.CurrentStep (.call q (.remember 0 0 none)) s₃ := by
    have hm : s₂.processes q = some m₂ := Function.update_self ..
    have ht : m₂.pending 0 = some (u, k) := by simp [m₂]
    refine ⟨current_of_recorded hm rfl ht ?_, ?_⟩
    · have hsame : s₂.recorded = s.recorded := rfl
      rw [hsame, hfirst]
      decide
    · simp [next, s₂, s₃, m₂, m₃, Pinning.next, Pinning.returns, PinEvent.saves, m₁]
  have hvalid : ∀ peer ∈ m₃.peers, isValidUsername peer.username = true := by
    intro peer hpeer
    rcases KnownPeers.mem_remember hpeer with hname | ⟨peer', hpeer', hname⟩
    · exact hname ▸ hu
    · exact hname ▸ KnownPeers.valid_of_mem_load hpeer'
  refine ⟨s₃, ((h.step h₁).step h₂).step h₃, recorded_of_saved hvalid rfl, fun q' hq' => ?_⟩
  simp [s₃, s₂, s₁, hq']

/-- Two processes one after the other: the second loads what the first has saved. -/
theorem pins_survive_inTurn :
    ∃ s s', Reach Initial CurrentStep s ∧ Reach (· = s) CurrentStep s' ∧
      s'.recorded.Pins (text "v") (leBlock 32 2) ∧ s'.recorded.Pins (text "u") (leBlock 32 1) := by
  have hinit : Reach Initial CurrentStep { file := none } := .init ⟨none, rfl⟩
  obtain ⟨s, hs, hrecorded, hothers⟩ := reach_recorded hinit (q := 1) (u := text "u") (k := leBlock 32 1)
    rfl (by decide) (by decide)
  have hfirst : s.recorded.check (text "v") (leBlock 32 2) = .firstSight := by
    rw [hrecorded]
    decide +kernel
  have hhere : Reach (· = s) CurrentStep s := .init rfl
  obtain ⟨s', hs', hrecorded', -⟩ := reach_recorded hhere (hothers 2 (by decide)) (by decide) hfirst
  have hu : s.recorded.Pins (text "u") (leBlock 32 1) := by
    rw [hrecorded]
    exact KnownPeers.pins_remember ..
  have hv : s'.recorded.Pins (text "v") (leBlock 32 2) := by
    rw [hrecorded']
    exact KnownPeers.pins_remember ..
  exact ⟨s, s', hs, hs', hv, pins_survive hs hu hs'⟩

/-- Two processes load the file when it is empty; each then records a peer. -/
def sideBySide : List StoreEvent :=
  [.start 1, .start 2, .call 1 (.check 0 (text "u") (leBlock 32 1)), .call 1 (.remember 0 0 none),
   .call 2 (.check 0 (text "v") (leBlock 32 2)), .call 2 (.remember 0 0 none)]

/-- **The first peer is forgotten.** -/
theorem pin_lost :
    ∃ s s', runFrom next { file := none } (sideBySide.take 4) = some s ∧
      runFrom next { file := none } sideBySide = some s' ∧
      s.recorded.Pins (text "u") (leBlock 32 1) ∧ s'.recorded.lookup (text "u") = none := by
  have hrun : ∃ s s', runFrom next { file := none } (sideBySide.take 4) = some s ∧
      runFrom next { file := none } sideBySide = some s' ∧
      s.file = some (KnownPeers.contents [⟨text "u", leBlock 32 1, 0⟩]) ∧
      s'.file = some (KnownPeers.contents [⟨text "v", leBlock 32 2, 0⟩]) :=
    ⟨_, _, rfl, rfl, rfl, rfl⟩
  obtain ⟨s, s', hs, hs', hfile, hfile'⟩ := hrun
  refine ⟨s, s', hs, hs', ?_, ?_⟩
  · rw [recorded_of_saved (by decide) hfile]
    decide +kernel
  · rw [recorded_of_saved (by decide) hfile']
    decide +kernel

end PeerStore

end DropZone
