import DropZone.Server.Footprint

/-!
# How much is buffered for a connection

`read_available` stops at `kMaxInputBuffer`, so input is bounded whatever clients do. Output is not:
`enqueue_frame` has no limit, and only `handle_relay_data` looks at what is pending, to pause the
source of a relay. A client that sends requests and reads no replies has the server buffer without
limit (`replies_unbounded`).

* `Host.addressees`: the connections that an event may have a frame enqueued on.
* `Tally`: the server with a count, for each connection, of the frames that were handled and the connections
  that were closed on its account since its socket last took all of its output. `Tally.Step limit`: no count
  exceeds `limit`.
* `buffers_bounded`: then `kMaxBuffered limit` bounds what is buffered for any connection.
-/

namespace DropZone

open LittleEndian StateSpec System

namespace Host

/-- Unconsumed input and pending output. -/
def buffered (h : Host) (c : ConnId) : Nat := (h.inbox c).unread.length + h.server.pending c

/-- The connections that an event may have a frame enqueued on: the addressees of the frame that is
handled, or the ends of the pairing of the connection that is closed. -/
def addressees (h : Host) : HostEvent → List ConnId
  | .ready _ c event k =>
    if event.writable && !(h.record c).flushes k then h.server.parties c else []
  | .wake _ c k => if !(h.record c).flushes k then h.server.parties c else []
  | .frame _ c =>
    match (h.inbox c).nextFrame with
    | .ok (some (f, _)) => h.server.addressees c f
    | _ => []
  | .finish c k =>
    match h.phase c with
    | .ending closed stillOpen =>
      if ends (h.record c) k closed stillOpen then h.server.parties c else []
    | _ => []
  | .timeout c => h.server.parties c
  | _ => []

end Host

/-- The most that one event adds to a queue: two frames. -/
def kMaxGrowth : Nat := 2 * (kFrameHeaderSize + kMaxFrameLength)

def kMaxBuffered (limit : Nat) : Nat := kMaxInputBuffer + kReadBatch + limit * kMaxGrowth

/-- The server, and how often each connection was an addressee since it had no output pending. -/
structure Tally where
  host : Host
  owed : ConnId → Nat := fun _ => 0

namespace Tally

/-- The counts after an event that leaves the server as `h`. -/
def counts (t : Tally) (e : HostEvent) (h : Host) (y : ConnId) : Nat :=
  if h.server.pending y = 0 then 0
  else if y ∈ t.host.addressees e then t.owed y + 1
  else t.owed y

/-- An event after which nobody was addressed more than `limit` times without having read it all. -/
def Step (limit : Nat) (t : Tally) (e : HostEvent) (t' : Tally) : Prop :=
  t.host.Step e t'.host ∧ t'.owed = t.counts e t'.host ∧ ∀ y ∈ t.host.addressees e, t'.owed y ≤ limit

def Started (t : Tally) : Prop := ∃ h : Host, h.Started ∧ t = { host := h }

end Tally

/-! ## Output -/

/-- Queues in `T` grew by no more than one event adds, and others did not grow. -/
def Fills (T : ConnId → Prop) (s s' : Server) : Prop :=
  ∀ y x', s'.connections y = some x' → ∃ x, s.connections y = some x ∧ (x.Queued → x'.Queued ∧
    (x'.pendingOutput ≤ x.pendingOutput ∨ T y ∧ x'.pendingOutput ≤ x.pendingOutput + kMaxGrowth))

variable {e : HostEvent} {x : Connection} {limit : Nat}

section Fills

variable {T : ConnId → Prop} {s s' s'' : Server} {c : ConnId}

theorem Fills.refl (s : Server) : Fills T s s :=
  fun _ x hx => ⟨x, hx, fun hq => ⟨hq, .inl (Nat.le_refl _)⟩⟩

/-- A first part in which nothing grows. -/
theorem Fills.after (h : Fills (fun _ => False) s s') (h' : Fills T s' s'') : Fills T s s'' := by
  intro y x'' hx''
  obtain ⟨x', hx', hq'⟩ := h' y x'' hx''
  obtain ⟨x, hx, hq⟩ := h y x' hx'
  refine ⟨x, hx, fun hwf => ?_⟩
  obtain ⟨hwf', hle | ⟨hfalse, -⟩⟩ := hq hwf
  · obtain ⟨hwf'', hle' | ⟨hT, hle'⟩⟩ := hq' hwf'
    · exact ⟨hwf'', .inl (hle'.trans hle)⟩
    · exact ⟨hwf'', .inr ⟨hT, by omega⟩⟩
  · exact hfalse.elim

theorem Fills.mono {T' : ConnId → Prop} (h : Fills T s s') (hT : ∀ y, T y → T' y) : Fills T' s s' := by
  intro y x' hx'
  obtain ⟨x, hx, hq⟩ := h y x' hx'
  refine ⟨x, hx, fun hwf => ⟨(hq hwf).1, ?_⟩⟩
  rcases (hq hwf).2 with hle | ⟨hy, hle⟩
  · exact .inl hle
  · exact .inr ⟨hT y hy, hle⟩

theorem Fills.update (s : Server) (c : ConnId) {f : Connection → Connection}
    (hf : ∀ x, x.Queued → (f x).Queued ∧ (f x).pendingOutput ≤ x.pendingOutput) :
    Fills T s (s.update c f) := by
  intro y x' hx'
  by_cases hy : y = c
  · subst hy
    rw [Server.connections_update_self] at hx'
    obtain ⟨x, hx, rfl⟩ := Option.map_eq_some_iff.mp hx'
    exact ⟨x, hx, fun hwf => ⟨(hf x hwf).1, .inl (hf x hwf).2⟩⟩
  · rw [Server.connections_update_of_ne hy] at hx'
    exact ⟨x', hx', fun hwf => ⟨hwf, .inl (Nat.le_refl _)⟩⟩

theorem Writes.fills {strict : Prop} {n : Nat} (h : Writes strict T n s s') (hn : n ≤ 2) :
    Fills T s s' := by
  obtain ⟨-, new, -, hlen, hto, hqueue⟩ := h
  intro y x' hx'
  obtain ⟨x, hx, -, hq⟩ := hqueue y x' hx'
  refine ⟨x, hx, fun hwf => ?_⟩
  obtain ⟨hwf', hunsent⟩ := hq hwf
  refine ⟨hwf', ?_⟩
  rw [← x'.length_unsent, ← x.length_unsent, hunsent, List.length_append]
  by_cases hy : ∀ e ∈ new, e.1 ≠ y
  · left
    rw [bytesFor_eq_nil hy]
    exact Nat.le_refl _
  · right
    push Not at hy
    obtain ⟨e, he, rfl⟩ := hy
    refine ⟨(hto e he).1, Nat.add_le_add_left ?_ _⟩
    calc (bytesFor e.1 new).length
        ≤ new.length * (kFrameHeaderSize + kMaxFrameLength) :=
          length_bytesFor_le fun e he => (hto e he).2
      _ ≤ kMaxGrowth := Nat.mul_le_mul_right _ (hlen.trans hn)

theorem Connection.Queued.flushOutput (h : x.Queued) (k : Socket) :
    (x.flushOutput k).Queued ∧ (x.flushOutput k).unsent = x.unsent.drop k.taken := by
  unfold Connection.flushOutput
  split
  · rename_i hall
    refine ⟨Nat.le_refl _, ?_⟩
    rw [List.drop_of_length_le (by rwa [x.length_unsent])]
    rfl
  · rename_i hsome
    simp only [Connection.Queued, Connection.pendingOutput] at h hsome ⊢
    exact ⟨by omega, List.drop_drop.symm⟩

end Fills

/-! ## The pieces of `service_connection` -/

section Serve

variable {T : ConnId → Prop} {h : Host} {c : ConnId}

theorem resumeSource_fills (s : Server) (x : Connection) : Fills T s (s.resumeSource x) := by
  unfold Server.resumeSource
  split
  · split
    · split
      · split
        · exact Fills.update s _ fun _ hq => ⟨hq, Nat.le_refl _⟩
        · exact .refl s
      · exact .refl s
    · exact .refl s
  · exact .refl s

theorem touched_fills (s : Server) (env : Env) : Fills T s (s.touched env c) :=
  Fills.update s c fun _ hq => ⟨hq, Nat.le_refl _⟩

theorem flush_fills (k : Socket) : Fills T h.server (h.flush c k).server := by
  refine Fills.update h.server c fun x hq => ⟨(hq.flushOutput k).1, ?_⟩
  rw [← Connection.length_unsent, ← Connection.length_unsent, (hq.flushOutput k).2, List.length_drop]
  exact Nat.sub_le _ _

theorem Connection.flushOutput_pairingId (x : Connection) (k : Socket) :
    (x.flushOutput k).pairingId = x.pairingId := by
  unfold flushOutput
  split <;> rfl

theorem close_fills : Fills (· ∈ h.server.parties c) h.server (h.close c).server :=
  (closeConnection_writes c h.server : Writes False _ 1 _ _).fills (by omega)

theorem flush_close_fills (k : Socket) :
    Fills (· ∈ h.server.parties c) h.server ((h.flush c k).close c).server := by
  refine (flush_fills (c := c) k).after ?_
  have hclose := close_fills (h := h.flush c k) (c := c)
  rwa [show (h.flush c k).server.parties c = h.server.parties c from
    parties_update c h.server fun x => x.flushOutput_pairingId k] at hclose

/-- Where the flush that `service_connection` begins with may end the connection. -/
theorem serve_fills (env : Env) (event : ReadyEvent) (k : Socket) :
    Fills (fun y => event.writable = true ∧ (h.record c).flushes k = false ∧ y ∈ h.server.parties c)
      h.server (h.serve env c event k).server := by
  have hflushes : (Host.record { h with server := h.server.touched env c } c).flushes k =
      (h.record c).flushes k := by
    rw [Host.record, Server.touched, Server.connections_update_self, Host.record]
    cases h.server.connections c <;> rfl
  refine (touched_fills (c := c) h.server env).after ?_
  unfold Host.serve
  dsimp only
  rw [hflushes]
  split
  · rename_i hwritable
    split
    · exact (flush_fills (c := c) k).after (resumeSource_fills _ _)
    · rename_i hbroken
      have hclose := flush_close_fills (h := { h with server := h.server.touched env c }) (c := c) k
      refine hclose.mono fun y hy => ⟨hwritable, Bool.eq_false_iff.mpr hbroken, ?_⟩
      rwa [show (h.server.touched env c).parties c = h.server.parties c from
        parties_touched c h.server env] at hy
  · exact .refl _

theorem handle_fills (env : Env) (closed stillOpen processed : Bool) :
    Fills (fun y => ∃ f b, (h.inbox c).nextFrame = .ok (some (f, b)) ∧ y ∈ h.server.addressees c f)
      h.server (h.handle env c closed stillOpen processed).server := by
  unfold Host.handle
  split
  · rename_i e _
    exact Fills.update h.server c fun x hq => by
      rw [Connection.Queued, Connection.pendingOutput, (x.requestClose_queue e.what).1,
        (x.requestClose_queue e.what).2.1]
      exact ⟨hq, Nat.le_refl _⟩
  · exact .refl _
  · rename_i f b hframe
    have hwrites := (processFrame_writes c f False.elim env h.server).fills (Nat.le_refl 2)
    have hfills := hwrites.mono fun y (hy : y ∈ h.server.addressees c f) =>
      (⟨f, b, hframe, hy⟩ : ∃ f b, (h.inbox c).nextFrame = .ok (some (f, b)) ∧
        y ∈ h.server.addressees c f)
    dsimp only
    split <;> exact hfills

theorem conclude_fills (k : Socket) (closed stillOpen : Bool) :
    Fills (fun y => Host.ends (h.record c) k closed stillOpen = true ∧ y ∈ h.server.parties c)
      h.server (h.conclude c k closed stillOpen).server := by
  unfold Host.conclude
  split
  · rename_i hends
    exact (flush_close_fills k).mono fun y hy => ⟨hends, hy⟩
  · exact flush_fills k

end Serve

/-- What is pending grows only on the addressees of an event. -/
theorem Host.next_fills {h h' : Host} (hnext : h.next e = some h')
    (hconnect : ∀ env addr, e ≠ .connect env addr) :
    Fills (· ∈ h.addressees e) h.server h'.server := by
  have hdrained : ∀ {T : ConnId → Prop} c, Fills T h.server (h.drained c).server :=
    fun _ _ x hx => ⟨x, hx, fun hq => ⟨hq, .inl (Nat.le_refl _)⟩⟩
  cases Host.happens hnext with
  | connect env addr => exact absurd rfl (hconnect env addr)
  | ready _ _ =>
    refine (serve_fills _ _ _).mono fun y ⟨hwritable, hbroken, hy⟩ => ?_
    simpa [Host.addressees, hwritable, hbroken] using hy
  | @wake _ c _ _ _ =>
    refine (hdrained c).after ((serve_fills _ _ _).mono fun y ⟨_, hbroken, hy⟩ => ?_)
    have hbroken : (h.record c).flushes _ = false := hbroken
    have hy : y ∈ h.server.parties c := hy
    simpa [Host.addressees, hbroken] using hy
  | @drop _ c _ _ _ => exact hdrained c
  | recv _ hread =>
    rw [Host.read_server hread]
    exact .refl _
  | frame _ _ =>
    refine (handle_fills _ _ _ _).mono fun y ⟨f, b, hframe, hy⟩ => ?_
    simpa [Host.addressees, hframe] using hy
  | finish hphase _ =>
    refine (conclude_fills _ _ _).mono fun y ⟨hends, hy⟩ => ?_
    simpa [Host.addressees, hphase, hends] using hy
  | timeout _ _ => exact close_fills
  | expire env => exact fun _ x hx => ⟨x, hx, fun hq => ⟨hq, .inl (Nat.le_refl _)⟩⟩

/-! ## Input -/

/-- Frames are taken from the front of what is unread, and a batch is read only below the cap. -/
theorem Host.next_inbox {h h' : Host} (hnext : h.next e = some h') (c : ConnId) :
    (h'.inbox c).unread.length ≤ (h.inbox c).unread.length ∧ ((h.inbox c).WF → (h'.inbox c).WF) ∨
    ((h.inbox c).WF → (h'.inbox c).WF ∧ (h'.inbox c).unread.length < kMaxInputBuffer + kReadBatch) := by
  have hsame : ∀ g : Host, g.inbox = h.inbox → (g.inbox c).unread.length ≤ (h.inbox c).unread.length ∧
      ((h.inbox c).WF → (g.inbox c).WF) := fun g hsame => by
    rw [hsame]
    exact ⟨Nat.le_refl _, id⟩
  have hserve : ∀ (g : Host) env d event k, (g.serve env d event k).inbox = g.inbox := by
    intro g env d event k
    unfold Host.serve
    dsimp only
    split
    · split <;> rfl
    · rfl
  cases Host.happens hnext with
  | connect | drop | timeout | expire => exact .inl (hsame _ rfl)
  | ready _ _ => exact .inl (hsame _ (hserve ..))
  | wake _ _ => exact .inl (hsame _ (hserve ..))
  | @recv d _ _ _ _ hread =>
    by_cases hc : c = d
    · subst hc
      obtain ⟨bytes, hlen, hcap, rfl⟩ | rfl | ⟨stillOpen, rfl⟩ := Host.read_eq_some hread
      · refine .inr fun hwf => ?_
        dsimp only
        rw [Function.update_self, hwf.compact.unread_append, Inbox.unread_compact, List.length_append]
        have := Inbox.atCap_eq_false.mp hcap
        exact ⟨hwf.compact.append bytes, by omega⟩
      · simp only [Function.update_self, Inbox.unread_compact]
        exact .inl ⟨Nat.le_refl _, Inbox.WF.compact⟩
      · simp only [Host.goTo, Function.update_self, Inbox.unread_compact]
        exact .inl ⟨Nat.le_refl _, Inbox.WF.compact⟩
    · have hother : h'.inbox c = h.inbox c := by
        obtain ⟨bytes, hlen, hcap, rfl⟩ | rfl | ⟨stillOpen, rfl⟩ := Host.read_eq_some hread <;>
          exact Function.update_of_ne hc _ _
      rw [hother]
      exact .inl ⟨Nat.le_refl _, id⟩
  | @frame _ d _ _ _ _ _ =>
    unfold Host.handle
    split
    · exact .inl (hsame _ rfl)
    · exact .inl (hsame _ rfl)
    · rename_i f b hframe
      have hinbox : ∀ g : Host, g.inbox = Function.update h.inbox d b →
          (g.inbox c).unread.length ≤ (h.inbox c).unread.length ∧
            ((h.inbox c).WF → (g.inbox c).WF) := by
        intro g hg
        rw [hg]
        by_cases hc : c = d
        · subst hc
          obtain ⟨_, -, hunread, -, -, -, hwf⟩ := Inbox.nextFrame_some hframe
          rw [Function.update_self, hunread, List.length_append]
          exact ⟨by omega, fun _ => hwf⟩
        · rw [Function.update_of_ne hc]
          exact ⟨Nat.le_refl _, id⟩
      dsimp only
      split <;> exact .inl (hinbox _ rfl)
  | finish _ _ =>
    unfold Host.conclude
    split <;> exact .inl (hsame _ rfl)

/-! ## Every run -/

structure Tally.Within (limit : Nat) (t : Tally) : Prop where
  limited : ∀ c, t.owed c ≤ limit
  input : ∀ c, (t.host.inbox c).WF ∧ (t.host.inbox c).unread.length ≤ kMaxInputBuffer + kReadBatch
  output : ∀ c x, t.host.server.connections c = some x →
    x.Queued ∧ x.pendingOutput ≤ t.owed c * kMaxGrowth

/-- What an event does to the queues. -/
theorem Tally.Within.queues {t : Tally} {h : Host} (hw : t.Within limit)
    (hnext : t.host.next e = some h) {c : ConnId} (hx : h.server.connections c = some x) :
    x.Queued ∧ (x.pendingOutput ≤ t.owed c * kMaxGrowth ∨
      c ∈ t.host.addressees e ∧ x.pendingOutput ≤ (t.owed c + 1) * kMaxGrowth) := by
  by_cases hconnect : ∃ env addr, e = .connect env addr
  · obtain ⟨env, addr, rfl⟩ := hconnect
    cases hnext
    dsimp only [Server.acceptConnection] at hx
    split at hx
    · by_cases hc : c = t.host.server.nextConnectionId
      · subst hc
        simp only [Function.update_self, Option.some.injEq] at hx
        subst hx
        exact ⟨Nat.le_refl _, .inl (Nat.zero_le _)⟩
      · simp only [Function.update_of_ne hc] at hx
        exact ⟨(hw.output c x hx).1, .inl (hw.output c x hx).2⟩
    · exact ⟨(hw.output c x hx).1, .inl (hw.output c x hx).2⟩
  · obtain ⟨y, hy, hq⟩ := Host.next_fills hnext (fun env addr he => hconnect ⟨env, addr, he⟩) c x hx
    obtain ⟨hwf, hle⟩ := hw.output c y hy
    obtain ⟨hwf', hle' | ⟨hto, hle'⟩⟩ := hq hwf
    · exact ⟨hwf', .inl (hle'.trans hle)⟩
    · refine ⟨hwf', .inr ⟨hto, ?_⟩⟩
      rw [Nat.succ_mul]
      omega

theorem Tally.Within.step {t t' : Tally} (hw : t.Within limit)
    (hstep : t.Step limit e t') : t'.Within limit := by
  obtain ⟨⟨hnext, -⟩, howed, hlimit⟩ := hstep
  refine ⟨fun c => ?_, fun c => ?_, fun c x hx => ?_⟩
  · by_cases hto : c ∈ t.host.addressees e
    · exact hlimit c hto
    · rw [howed, counts, if_neg hto]
      split
      · exact Nat.zero_le _
      · exact hw.limited c
  · obtain ⟨hwf, hlen⟩ := hw.input c
    rcases Host.next_inbox hnext c with ⟨hle, hwf'⟩ | hread
    · exact ⟨hwf' hwf, hle.trans hlen⟩
    · exact ⟨(hread hwf).1, (hread hwf).2.le⟩
  · obtain ⟨hwf, hgrown⟩ := hw.queues hnext hx
    refine ⟨hwf, ?_⟩
    rw [howed, counts, Server.pending_of hx]
    split
    · rename_i hempty
      exact Nat.le_trans (Nat.le_of_eq hempty) (Nat.zero_le _)
    · split
      · rw [Nat.succ_mul] at hgrown ⊢
        rcases hgrown with hle | ⟨-, hle⟩ <;> omega
      · rename_i hnot
        exact hgrown.elim id fun h => absurd h.1 hnot

theorem Tally.Started.within {t : Tally} (hs : t.Started) : t.Within limit := by
  obtain ⟨_, ⟨s, ⟨options, rateLimiter, rfl⟩, rfl⟩, rfl⟩ := hs
  exact ⟨fun _ => Nat.zero_le _, fun _ => ⟨Nat.le_refl _, Nat.zero_le _⟩, fun c x hx => by cases hx⟩

/-- **What is buffered for a connection is bounded in every run in which no connection is addressed more than
`limit` times before its socket has taken all of its output.** -/
theorem buffers_bounded {limit : Nat} {t : Tally} (hr : Reach Tally.Started (Tally.Step limit) t)
    (c : ConnId) : t.host.buffered c ≤ kMaxBuffered limit := by
  have hw : t.Within limit :=
    hr.invariant (I := Tally.Within limit) (fun _ hs => hs.within) fun _ _ _ hw hs => hw.step hs
  have houtput : t.host.server.pending c ≤ limit * kMaxGrowth := by
    cases hx : t.host.server.connections c with
    | none => simp [Server.pending, hx]
    | some x =>
      rw [Server.pending_of hx]
      exact (hw.output c x hx).2.trans (Nat.mul_le_mul_right _ (hw.limited c))
  exact Nat.add_le_add (hw.input c).2 houtput

def Host.asksNobody (h : Host) : HostEvent → Bool
  | .frame _ c => (h.inbox c).nextFrame.toOption.join.all fun r => r.1.header.type != .sendRequest
  | _ => true

theorem Host.returns_of_asksNobody {h : Host} (he : h.asksNobody e = true) :
    h.Returns e := by
  cases e with
  | frame env c =>
    intro f b hframe htype
    simp [asksNobody, hframe, Except.toOption, htype] at he
  | _ => trivial

/-- A step, if it is one of `Tally.Step`. -/
def Tally.next (limit : Nat) (t : Tally) (e : HostEvent) : Option Tally :=
  (t.host.next e).bind fun h =>
    if t.host.asksNobody e && (t.host.addressees e).all (t.counts e h · ≤ limit) then
      some { host := h, owed := t.counts e h }
    else none

theorem Tally.step_of_next {t t' : Tally} (h : t.next limit e = some t') :
    t.Step limit e t' := by
  obtain ⟨h', hnext, h⟩ := Option.bind_eq_some_iff.mp h
  simp only [Option.ite_none_right_eq_some, Bool.and_eq_true, List.all_eq_true, decide_eq_true_eq,
    Option.some.injEq] at h
  obtain ⟨⟨hnobody, hlimit⟩, rfl⟩ := h
  exact ⟨⟨hnext, Host.returns_of_asksNobody hnobody⟩, rfl, hlimit⟩

/-- Client 1 says hello and asks about a group, and its socket takes no answer. -/
def greeting : List HostEvent :=
  let env : Env := { nowMs := 0 }
  [.connect env (.inet 4000 privateAddress), .ready env 1 { readable := true } { taken := 0 },
    .recv 1 (.data (frameBytes .clientHello (plainHello .sender (text "a")).encode ++
      frameBytes .groupQuery (GroupQuery.encode { name := text "g" }))), .recv 1 .again,
    .frame env 1, .frame env 1, .frame env 1, .finish 1 { taken := 0 }]

theorem buffers_bounded_greeting : ∃ t, Reach Tally.Started (Tally.Step 2) t ∧ t.owed 1 = 2 ∧
    0 < t.host.buffered 1 ∧ t.host.buffered 1 ≤ kMaxBuffered 2 := by
  obtain ⟨t, hrun, howed, hpos⟩ : ∃ t ∈ runFrom (Tally.next 2) { host := { server := Server.start } }
      greeting, t.owed 1 = 2 ∧ 0 < t.host.buffered 1 := by decide +kernel
  have hr : Reach Tally.Started (Tally.Step 2) t :=
    (Reach.of_runFrom (.init ⟨_, ⟨_, Server.start_started, rfl⟩, rfl⟩) hrun).mono fun _ _ _ =>
      Tally.step_of_next
  exact ⟨t, hr, howed, hpos, buffers_bounded hr 1⟩

/-! ## A client that asks and does not read -/

/-- `connections c` is there, has said hello, is read from, and has at least `n` bytes to send. -/
structure Owes (n : Nat) (x : Connection) : Prop where
  hello : x.helloReceived = true
  reads : x.readPaused = false
  opened : x.closeRequested = false
  unsent : x.outputSent = 0
  owes : n ≤ x.output.length

def groupQuestion : Frame := Frame.of .groupQuery (GroupQuery.encode { name := text "g" })

/-- The answer to a question about a group goes to the end of the queue. -/
theorem groupQuestion_answered {s : Server} {c : ConnId} {n : Nat} (env : Env)
    (hx : s.connections c = some x) (howes : Owes n x) :
    ∃ x', (s.processFrame env c groupQuestion).connections c = some x' ∧ Owes (n + 1) x' := by
  have hdecode : GroupQuery.decode groupQuestion.payload = .ok { name := text "g" } := by decide +kernel
  generalize hs₁ : s.touched env c = s₁
  have hx₁ : s₁.connections c = some { x with lastActivityMs := env.nowMs } := by
    rw [← hs₁, Server.touched, Server.connections_update_self, hx]
    rfl
  have hrun : ∃ s₂ status, s₂.connections = s₁.connections ∧
      (handleGroupQuery c groupQuestion).run s₁ =
        (enqueueFrame c .groupStatus (GroupStatus.encode status)).run s₂ := by
    rw [handleGroupQuery, run_bind_ok (run_found hx₁), howes.hello,
      if_neg (by decide), hdecode, run_bind_ok (run_decoded s₁ _), run_bind_ok (run_sessions s₁ _),
      run_bind_ok (run_sessions _ _)]
    refine ⟨_, _, ?_, rfl⟩
    rfl
  obtain ⟨s₂, status, hconnections, hrun⟩ := hrun
  have hlen : (GroupStatus.encode status).length ≤ kMaxFrameLength := by
    simp [GroupStatus.encode, putBool, putU8, putU32, kMaxFrameLength]
  rw [run_enqueueFrame s₂ c hlen] at hrun
  rw [Server.processFrame, hs₁,
    show handleFrame env c groupQuestion = handleGroupQuery c groupQuestion from rfl, hrun]
  refine ⟨Connection.append { x with lastActivityMs := env.nowMs }
    (encodeFrameHeader (Frame.of .groupStatus status.encode).header ++ status.encode), ?_, ?_⟩
  · dsimp only
    rw [Server.connections_update_self, hconnections, hx₁]
    rfl
  · have happend : ∀ bytes, (Connection.append { x with lastActivityMs := env.nowMs } bytes) =
        { x with lastActivityMs := env.nowMs, output := x.output ++ bytes } := by
      intro bytes
      rw [Connection.append, if_neg, if_neg]
      · simp [howes.unsent]
      · simp [howes.unsent]
    rw [happend]
    have := howes.owes
    refine ⟨howes.hello, howes.reads, howes.opened, howes.unsent, ?_⟩
    simp only [List.length_append, length_encodeFrameHeader]
    omega

theorem Owes.flushOutput {n : Nat} (howes : Owes n x) :
    Owes n (x.flushOutput { taken := 0 }) := by
  obtain ⟨hhello, hreads, hopened, hunsent, howes⟩ := howes
  unfold Connection.flushOutput
  split
  · rename_i hnone
    refine ⟨hhello, hreads, hopened, rfl, ?_⟩
    rw [Connection.pendingOutput, hunsent] at hnone
    exact howes.trans hnone
  · exact ⟨hhello, hreads, hopened, hunsent, howes⟩

/-- Connection 1 waits for frames and has at least `n` bytes to send. -/
def Host.Waits (n : Nat) (h : Host) : Prop :=
  ∃ x, h.server.connections 1 = some x ∧ Owes n x ∧ h.phase 1 = .rest ∧ (h.inbox 1).WF ∧
    (h.inbox 1).unread = []

/-- A frame is handled that leaves `n` bytes to send. -/
theorem Host.Waits.round {h : Host} {env : Env} {x x' : Connection} {n : Nat} {type : MessageType}
    {payload : Bytes} (hr : Reach Host.Started Host.Step h) (hx : h.server.connections 1 = some x)
    (hreads : x.readPaused = false) (hphase : h.phase 1 = .rest) (hwf : (h.inbox 1).WF)
    (hunread : (h.inbox 1).unread = []) (hnamed : type.Named)
    (hlen : kFrameHeaderSize + payload.length ≤ kReadBatch) (htype : type ≠ .sendRequest)
    (hx' : ((h.server.touched env 1).processFrame env 1 (Frame.of type payload)).connections 1 =
      some x') (howes : Owes n x') : ∃ h', Reach Host.Started Host.Step h' ∧ Host.Waits n h' := by
  have hstart := Host.Serving.start (P := fun _ _ => True) (c := 1)
    (hr.mono fun _ _ _ hstep => ⟨hstep, trivial⟩) fun _ => trivial
  rw [hphase] at hstart
  obtain ⟨b, h', hwf', hunread', hs⟩ :=
    hstart.round hx hreads hwf hunread hnamed hlen htype hx' howes.opened fun _ => trivial
  refine ⟨h', hs.reach.mono fun _ _ _ hstep => hstep.1, x'.flushOutput { taken := 0 }, ?_,
    howes.flushOutput, hs.phase_self, ?_, ?_⟩
  · rw [hs.server, Server.connections_update_self, hx']
    rfl
  · rw [hs.inbox_self]
    exact hwf'
  · rw [hs.inbox_self]
    exact hunread'

/-- A client connects and says hello. -/
theorem waits_zero : ∃ h, Reach Host.Started Host.Step h ∧ Host.Waits 0 h := by
  obtain ⟨h, hnext, x, hx, hreads, x', hx', hhello, hreads', hopened, hunsent⟩ :
      ∃ h ∈ Host.next { server := Server.start } (.connect { nowMs := 0 } (.inet 4000 privateAddress)),
        ∃ x ∈ h.server.connections 1, x.readPaused = false ∧
          ∃ x' ∈ ((h.server.touched { nowMs := 0 } 1).processFrame { nowMs := 0 } 1
              (Frame.of .clientHello (plainHello .sender (text "a")).encode)).connections 1,
            x'.helloReceived = true ∧ x'.readPaused = false ∧ x'.closeRequested = false ∧
              x'.outputSent = 0 := by
    decide +kernel
  have hr : Reach Host.Started Host.Step h :=
    .step (.init ⟨_, Server.start_started, rfl⟩) ⟨hnext, trivial⟩
  have hfresh : h.phase 1 = .rest ∧ h.inbox 1 = {} := by
    cases hnext
    exact ⟨rfl, rfl⟩
  refine Host.Waits.round hr hx hreads hfresh.1 ?_ ?_ ?_ ?_ ?_ hx'
    ⟨hhello, hreads', hopened, hunsent, Nat.zero_le _⟩
  · rw [hfresh.2]
    exact Nat.le_refl _
  · rw [hfresh.2]
    rfl
  · trivial
  · decide +kernel
  · decide

/-- It may go on to ask as often as it likes. -/
theorem waits_of (n : Nat) : ∃ h, Reach Host.Started Host.Step h ∧ Host.Waits n h := by
  induction n with
  | zero => exact waits_zero
  | succ n ih =>
    obtain ⟨h, hr, x, hx, howes, hphase, hwf, hunread⟩ := ih
    have hx₁ : (h.server.touched { nowMs := 0 } 1).connections 1 =
        some { x with lastActivityMs := 0 } := by
      rw [Server.touched, Server.connections_update_self, hx]
      rfl
    have howes₁ : Owes n { x with lastActivityMs := 0 } :=
      ⟨howes.hello, howes.reads, howes.opened, howes.unsent, howes.owes⟩
    obtain ⟨x', hx', howes'⟩ := groupQuestion_answered { nowMs := 0 } hx₁ howes₁
    refine Host.Waits.round hr hx howes.reads hphase hwf hunread ?_ ?_ ?_ hx' howes'
    · trivial
    · decide +kernel
    · decide

/-- No constant bounds what is buffered for a connection. -/
theorem replies_unbounded :
    ¬ ∃ bound, ∀ h, Reach Host.Started Host.Step h → ∀ c, h.buffered c ≤ bound := by
  rintro ⟨bound, hbound⟩
  obtain ⟨h, hr, x, hx, howes, -⟩ := waits_of (bound + 1)
  have hle := hbound h hr 1
  rw [Host.buffered, Server.pending_of hx, Connection.pendingOutput, howes.unsent] at hle
  have := howes.owes
  omega

end DropZone
