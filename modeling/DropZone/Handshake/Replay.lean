import DropZone.Handshake.Agreement
import DropZone.Lib.System

/-!
# Replayed introductions (`client/src/main.cpp`, `command_accept`)

An accept session calls `await_introduction` again and again, with a fresh session key each time.
Nothing the receiver checks is fresh: the sender's proof and signature cover the two names, the
sender's keys and the group.

* `AcceptSession`: the session as a system of turns and new calls.
* `AcceptSession.next_replay`: one step; `accepts_no_replay_iff`: a session accepts no introduction
  twice exactly when nobody shows it one it accepted before, group name included.
-/

namespace DropZone

open LittleEndian Parser StateSpec MonadExcept System

variable {p : Primitives} {peer : PeerIntroduction} {S : Set (Bytes × Bytes)} {a : Acceptor p}

/-! ## The session -/

inductive SessionPhase where
  /-- In `await_introduction`. -/
  | waiting (nextKeepAlive : UInt64)
  /-- An introduction was accepted; a transfer follows. -/
  | transferring
  /-- `await_introduction` threw or returned false. -/
  | over

structure AcceptSession (p : Primitives) where
  acceptor : Acceptor p
  phase : SessionPhase
  client : Client

inductive SessionEvent (p : Primitives) where
  /-- One turn of the loop in `await_introduction`. -/
  | turn (turn : Turn)
  /-- The next call, after a transfer, with the session key generated for it. -/
  | again (sessionKeys : X25519KeyPair p) (start : UInt64)

namespace AcceptSession

/-- The session after a turn, by how the turn ended. -/
def after (s : AcceptSession p) : EStateM.Result Failure Client Awaited → AcceptSession p
  | .ok (.waiting nextKeepAlive) c => { s with phase := .waiting nextKeepAlive, client := c }
  | .ok (.accepted _) c => { s with phase := .transferring, client := c }
  | .ok .timedOut c => { s with phase := .over, client := c }
  | .error _ c => { s with phase := .over, client := c }

/-- One step of `command_accept`. It gives no deadline. -/
def next (s : AcceptSession p) : SessionEvent p → Option (AcceptSession p)
  | .turn turn =>
    match s.phase with
    | .waiting nextKeepAlive => some (s.after ((awaitTurn s.acceptor 0 nextKeepAlive turn).run s.client))
    | _ => none
  | .again sessionKeys start =>
    match s.phase with
    | .transferring =>
      some { s with acceptor := { s.acceptor with sessionKeys := sessionKeys }
                    phase := .waiting (start + kKeepAliveIntervalMs) }
    | _ => none

theorem next_turn {s s' : AcceptSession p} {turn : Turn} (h : s.next (.turn turn) = some s') :
    ∃ n, s' = s.after ((awaitTurn s.acceptor 0 n turn).run s.client) := by
  simp only [next] at h
  split at h
  · cases h
    exact ⟨_, rfl⟩
  · cases h

theorem next_again {s s' : AcceptSession p} {keys : X25519KeyPair p} {start : UInt64}
    (h : s.next (.again keys start) = some s') :
    s'.acceptor = { s.acceptor with sessionKeys := keys } ∧ s'.client = s.client := by
  simp only [next] at h
  split at h
  · cases h
    exact ⟨rfl, rfl⟩
  · cases h

theorem after_acceptor (s : AcceptSession p) (r : EStateM.Result Failure Client Awaited) :
    (s.after r).acceptor = s.acceptor := by
  unfold after
  split <;> rfl

theorem after_client (s : AcceptSession p) (m : ClientM Awaited) :
    (s.after (m.run s.client)).client = final m s.client := by
  unfold after final
  cases m.run s.client with
  | error e c => rfl
  | ok awaited c => cases awaited <;> rfl

end AcceptSession

/-! ## Replays -/

/-- The fields of a sender that a replay repeats. -/
def SameSender (old new : PeerIntroduction) : Prop :=
  old.username = new.username ∧ old.identityKey = new.identityKey ∧
    old.sessionKey = new.sessionKey ∧ old.proof = new.proof ∧ old.signature = new.signature

instance (old new : PeerIntroduction) : Decidable (SameSender old new) :=
  inferInstanceAs (Decidable (_ ∧ _))

/-- No introduction was accepted that repeats one accepted before. -/
def NoReplay (answered : List (PeerIntroduction × Bool)) : Prop :=
  answered.Pairwise fun old new => ¬ (old.2 = true ∧ new.2 = true ∧ SameSender old.1 new.1)

instance (answered : List (PeerIntroduction × Bool)) : Decidable (NoReplay answered) :=
  inferInstanceAs (Decidable (List.Pairwise _ _))

/-- `peer` repeats the sender's fields and the group name of an introduction accepted before. -/
def Repeats (answered : List (PeerIntroduction × Bool)) (peer : PeerIntroduction) : Prop :=
  ∃ old ∈ answered, old.2 = true ∧ SameSender old.1 peer ∧ old.1.groupName = peer.groupName

instance (answered : List (PeerIntroduction × Bool)) (peer : PeerIntroduction) :
    Decidable (Repeats answered peer) :=
  inferInstanceAs (Decidable (∃ old ∈ answered, _))

/-- What the event shows is not a repetition, unless its answer cannot be written. -/
def AcceptSession.Fresh (s : AcceptSession p) : SessionEvent p → Prop
  | .turn turn =>
    ∀ peer ∈ turn.incoming, turn.outside.write = none → ¬ Repeats s.client.answered peer
  | .again _ _ => True

instance (s : AcceptSession p) (e : SessionEvent p) : Decidable (s.Fresh e) :=
  match e with
  | .turn turn => inferInstanceAs (Decidable (∀ peer ∈ turn.incoming, _))
  | .again _ _ => inferInstanceAs (Decidable True)

/-- Every event of a run is fresh in the state it happens in. -/
def AcceptSession.FreshRun : AcceptSession p → List (SessionEvent p) → Prop
  | _, [] => True
  | s, e :: es => s.Fresh e ∧ match s.next e with
    | some s' => FreshRun s' es
    | none => True

instance AcceptSession.decidableFreshRun :
    (s : AcceptSession p) → (es : List (SessionEvent p)) → Decidable (s.FreshRun es)
  | _, [] => inferInstanceAs (Decidable True)
  | s, e :: es =>
    have : Decidable (match s.next e with
        | some s' => s'.FreshRun es
        | none => True) :=
      match s.next e with
      | some s' => decidableFreshRun s' es
      | none => inferInstanceAs (Decidable True)
    inferInstanceAs (Decidable (_ ∧ _))

/-- What the checks of a session put through HMAC, with the key. -/
def Acceptor.checked (a : Acceptor p) (es : List (SessionEvent p)) : Set (Bytes × Bytes) :=
  {km | ∃ turn, .turn turn ∈ es ∧ ∃ peer key, turn.incoming = some peer ∧
    a.passwordKey peer.groupName = some key ∧ km = (key.toList, a.senderInput peer)}

/-! ## One answer -/

/-- The checks see nothing of an introduction but the sender's fields and the group name. -/
theorem Acceptor.refusal_congr (a : Acceptor p) {old new : PeerIntroduction}
    (h : SameSender old new) (hg : old.groupName = new.groupName) :
    a.refusal old = a.refusal new := by
  cases old
  cases new
  obtain ⟨rfl, rfl, rfl, rfl, rfl⟩ := h
  cases hg
  rfl

theorem Acceptor.refusal_sessionKeys (a : Acceptor p) (keys : X25519KeyPair p)
    (peer : PeerIntroduction) : { a with sessionKeys := keys }.refusal peer = a.refusal peer := rfl

theorem Acceptor.length_encode_reply (a : Acceptor p) (key : Key)
    (hg : peer.groupName = [] ∨ isValidUsername peer.groupName = true) :
    (a.reply peer key).encode.length ≤ kMaxFrameLength := by
  have hu := isValidUsername_length a.config.valid
  have hg' : (putGroupName peer.groupName).length ≤ 68 := by
    unfold putGroupName
    split
    · simp
    · have := isValidUsername_length (hg.resolve_left ‹_›)
      simp only [putString, putBytes, putU32, List.length_append, length_leBytes]
      omega
  have hmax : kMaxFrameLength = 2097152 := rfl
  simp only [PeerIntroduction.encode, Acceptor.reply, putString, putBytes, putU32, putU64, putU8,
    putEndpoints, putU16, List.length_append, length_leBytes, List.Vector.toList_length,
    List.flatMap_nil, List.length_nil, List.length_singleton]
  omega

/-- An introduction that passes the checks and whose sender is pinned is accepted, if the answer can
be written. -/
theorem answerIncoming_accepts {o : Outside} {key : Key}
    {c : Client} (hrefusal : a.refusal peer = .ok key)
    (hpin : c.knownPeers.Pins peer.username peer.identityKey) (hwrite : o.write = none)
    (hg : peer.groupName = [] ∨ isValidUsername peer.groupName = true) :
    (final (answerIncoming a o peer) c).answered = c.answered ++ [(peer, true)] := by
  have hs : (sendFrame o .accept (a.reply peer key).encode).run c = .ok ()
      { c with written := c.written ++ [Frame.of .accept (a.reply peer key).encode] } := by
    rw [run_sendFrame o (a.length_encode_reply key hg), hwrite]
  unfold answerIncoming
  rw [hrefusal]
  simp only
  rw [final_bind_ok (enforcePinning_pinned o hpin), final_bind_ok hs]
  unfold final
  cases p.x25519Shared a.sessionKeys.secret peer.sessionKey <;> rfl

/-- Two introductions that pass the checks with the same sender's fields name the same group. -/
theorem Acceptor.same_group {old new : PeerIntroduction} {k k' : Key}
    (hmac : S.InjOn fun km => p.hmacSha256 km.1 km.2)
    (hsame : SameSender old new) (hold : a.refusal old = .ok k) (hnew : a.refusal new = .ok k')
    (hS : (k.toList, a.senderInput old) ∈ S) (hS' : (k'.toList, a.senderInput new) ∈ S)
    (hu : isValidUsername old.username = true)
    (hg : old.groupName = [] ∨ isValidUsername old.groupName = true)
    (hg' : new.groupName = [] ∨ isValidUsername new.groupName = true) :
    old.groupName = new.groupName := by
  obtain ⟨h1, h2, h3, h4, -⟩ := hsame
  have hproof := (refusal_ok hold).2.symm.trans (h4.trans (refusal_ok hnew).2)
  have hinput : a.senderInput old = a.senderInput new := congrArg Prod.snd (hmac hS hS' hproof)
  unfold senderInput at hinput
  rw [← h1, ← h2, ← h3] at hinput
  exact senderProofInput_group (fits_of_valid hu) (fits_of_valid a.config.valid) (fits_of_group hg)
    (fits_of_group hg') hinput

structure Acceptor.Answered (a : Acceptor p) (S : Set (Bytes × Bytes)) (c : Client) : Prop where
  checked : ∀ x ∈ c.answered, x.2 = true ↔ ∃ key, a.refusal x.1 = .ok key
  pinned : ∀ x ∈ c.answered, x.2 = true → c.knownPeers.Pins x.1.username x.1.identityKey
  username : ∀ x ∈ c.answered, isValidUsername x.1.username = true
  group : ∀ x ∈ c.answered, x.1.groupName = [] ∨ isValidUsername x.1.groupName = true
  macs : ∀ x ∈ c.answered, ∀ key, a.passwordKey x.1.groupName = some key →
    (key.toList, a.senderInput x.1) ∈ S

theorem Acceptor.Answered.snoc {c : Client}
    (h : a.Answered S c) {peers : KnownPeers} {accepted : Bool}
    (hkeep : c.knownPeers.Keeps peers) (hcheck : accepted = true ↔ ∃ key, a.refusal peer = .ok key)
    (hpin : accepted = true → peers.Pins peer.username peer.identityKey)
    (hu : isValidUsername peer.username = true)
    (hg : peer.groupName = [] ∨ isValidUsername peer.groupName = true)
    (hS : ∀ key, a.passwordKey peer.groupName = some key → (key.toList, a.senderInput peer) ∈ S)
    (written : List Frame) :
    a.Answered S { knownPeers := peers, written, answered := c.answered ++ [(peer, accepted)] } := by
  have hall : ∀ {P : PeerIntroduction × Bool → Prop}, (∀ x ∈ c.answered, P x) → P (peer, accepted) →
      ∀ x ∈ c.answered ++ [(peer, accepted)], P x := by
    intro P hc hp x hx
    rcases List.mem_append.mp hx with hx | hx
    · exact hc x hx
    · rw [List.mem_singleton.mp hx]
      exact hp
  exact ⟨hall h.checked hcheck, hall (fun x hx ht => hkeep _ _ (h.pinned x hx ht)) hpin,
    hall h.username hu, hall h.group hg, hall h.macs hS⟩

theorem noReplay_snoc {answered : List (PeerIntroduction × Bool)}
    {accepted : Bool} :
    NoReplay (answered ++ [(peer, accepted)]) ↔ NoReplay answered ∧
      (accepted = true → ∀ old ∈ answered, old.2 = true → ¬ SameSender old.1 peer) := by
  rw [NoReplay, NoReplay, List.pairwise_append]
  simp only [List.pairwise_singleton, true_and, List.mem_singleton, forall_eq]
  refine and_congr_right fun _ => ⟨fun h hacc old hmem hold hsame => ?_, fun h old hmem hn => ?_⟩
  · exact h old hmem ⟨hold, hacc, hsame⟩
  · exact h hn.2.1 old hmem hn.1 hn.2.2

/-- An answer keeps the invariant; it accepts a replay exactly when it answers a repetition. -/
theorem Acceptor.Answered.answer {c : Client}
    (h : a.Answered S c) (hmac : S.InjOn fun km => p.hmacSha256 km.1 km.2)
    (keys : X25519KeyPair p) (o : Outside)
    (hu : isValidUsername peer.username = true)
    (hg : peer.groupName = [] ∨ isValidUsername peer.groupName = true)
    (hS : ∀ key, a.passwordKey peer.groupName = some key → (key.toList, a.senderInput peer) ∈ S) :
    a.Answered S (final (answerIncoming { a with sessionKeys := keys } o peer) c) ∧
      (NoReplay (final (answerIncoming { a with sessionKeys := keys } o peer) c).answered ↔
        NoReplay c.answered ∧ (o.write = none → ¬ Repeats c.answered peer)) := by
  -- A repetition passes the checks and is answered with Accept if it can be.
  have hrepeat : Repeats c.answered peer → o.write = none →
      (∃ key, a.refusal peer = .ok key) ∧
        (final (answerIncoming { a with sessionKeys := keys } o peer) c).answered =
          c.answered ++ [(peer, true)] := by
    rintro ⟨old, hmem, hacc, hsame, hgroup⟩ hwrite
    obtain ⟨key, hkey⟩ := (h.checked old hmem).mp hacc
    rw [a.refusal_congr hsame hgroup] at hkey
    have hpin := h.pinned old hmem hacc
    rw [hsame.1, hsame.2.1] at hpin
    exact ⟨⟨key, hkey⟩, answerIncoming_accepts hkey hpin hwrite hg⟩
  rcases answerIncoming_cases { a with sessionKeys := keys } o peer c with
    ⟨e, peers, hkeep, hrun⟩ | ⟨reason, hkey, hrun⟩ | ⟨key, peers, c', hkey, hkeep, hpin, hw, hc', hrun⟩
  · -- Nothing was answered, so the introduction was no repetition or could not be answered.
    rw [show final _ c = { c with knownPeers := peers } by rw [final, hrun]] at hrepeat ⊢
    refine ⟨⟨h.checked, fun x hx ht => hkeep _ _ (h.pinned x hx ht), h.username, h.group, h.macs⟩, ?_⟩
    refine ⟨fun hn => ⟨hn, fun hwrite hr => ?_⟩, fun hn => hn.1⟩
    simpa using (hrepeat hr hwrite).2
  · rw [a.refusal_sessionKeys] at hkey
    rw [final_of_ok hrun] at hrepeat ⊢
    have hnot : ¬ ∃ key, a.refusal peer = .ok key := by
      rintro ⟨key, hok⟩
      rw [hkey] at hok
      cases hok
    have hcheck : false = true ↔ ∃ key, a.refusal peer = .ok key :=
      ⟨fun hf => absurd hf Bool.false_ne_true, fun hok => absurd hok hnot⟩
    refine ⟨h.snoc (fun _ _ hp => hp) hcheck (fun hf => absurd hf Bool.false_ne_true) hu hg hS _, ?_⟩
    rw [noReplay_snoc]
    refine and_congr_right fun _ => ⟨fun _ hwrite hr => ?_, fun _ hf => absurd hf Bool.false_ne_true⟩
    exact hnot (hrepeat hr hwrite).1
  · rw [a.refusal_sessionKeys] at hkey
    have hfinal : final (answerIncoming { a with sessionKeys := keys } o peer) c = c' := by
      rw [final, hrun]
      cases p.x25519Shared keys.secret peer.sessionKey <;> rfl
    rw [hfinal, hc']
    refine ⟨h.snoc hkeep ⟨fun _ => ⟨key, hkey⟩, fun _ => rfl⟩ (fun _ => hpin) hu hg hS _, ?_⟩
    rw [noReplay_snoc]
    refine and_congr_right fun _ => ⟨?_, ?_⟩
    · rintro hn - ⟨old, hmem, hold, hsame, -⟩
      exact hn rfl old hmem hold hsame
    · intro hn _ old hmem hold hsame
      -- Both passed the checks, so the group is the same too.
      obtain ⟨key', hkey'⟩ := (h.checked old hmem).mp hold
      refine hn hw ⟨old, hmem, hold, hsame, Acceptor.same_group hmac hsame hkey' hkey ?_ ?_
        (h.username old hmem) (h.group old hmem) hg⟩
      · exact h.macs old hmem key' (Acceptor.refusal_ok hkey').1
      · exact hS key (Acceptor.refusal_ok hkey).1

/-! ## The session -/

structure AcceptSession.Inv (a : Acceptor p) (S : Set (Bytes × Bytes)) (s : AcceptSession p) :
    Prop where
  acceptor : ∃ keys, s.acceptor = { a with sessionKeys := keys }
  answered : a.Answered S s.client

/-- A step keeps the invariant; it accepts a replay exactly when it is not fresh. -/
theorem AcceptSession.next_replay {s s' : AcceptSession p} {e : SessionEvent p} (h : s.Inv a S)
    (hmac : S.InjOn fun km => p.hmacSha256 km.1 km.2) (hS : a.checked [e] ⊆ S)
    (hnext : s.next e = some s') :
    s'.Inv a S ∧ (NoReplay s'.client.answered ↔ NoReplay s.client.answered ∧ s.Fresh e) := by
  obtain ⟨keys, hkeys⟩ := h.acceptor
  cases e with
  | again sessionKeys start =>
    obtain ⟨hacc, hclient⟩ := next_again hnext
    rw [hclient]
    refine ⟨⟨⟨sessionKeys, by rw [hacc, hkeys]⟩, hclient ▸ h.answered⟩, ?_⟩
    exact ⟨fun hn => ⟨hn, trivial⟩, fun hn => hn.1⟩
  | turn turn =>
    obtain ⟨n, rfl⟩ := next_turn hnext
    rw [after_client, hkeys]
    have hacc : ∃ k, (s.after ((awaitTurn s.acceptor 0 n turn).run s.client)).acceptor =
        { a with sessionKeys := k } := ⟨keys, by rw [after_acceptor, hkeys]⟩
    rw [hkeys] at hacc
    cases hin : turn.incoming with
    | none =>
      obtain ⟨⟨written, -, hfin⟩, -⟩ : _ ∧ ∀ i c', (awaitTurn _ 0 n turn).run _ ≠ _ :=
        awaitTurn_idle { a with sessionKeys := keys } n s.client (.inl hin)
      rw [hfin]
      refine ⟨⟨hacc, ?_⟩, by simp [Fresh, hin]⟩
      rw [after_client, hfin]
      exact ⟨h.answered.checked, h.answered.pinned, h.answered.username, h.answered.group,
        h.answered.macs⟩
    | some peer =>
      obtain ⟨_, -, -, hdecode⟩ := Turn.incoming_sound hin
      obtain ⟨hu, hg⟩ := PeerIntroduction.decode_sound hdecode
      obtain ⟨hinv, hiff⟩ := h.answered.answer hmac keys turn.outside hu hg fun key hkey =>
        hS ⟨turn, List.mem_singleton_self _, peer, key, hin, hkey, rfl⟩
      have hfin : final (awaitTurn { a with sessionKeys := keys } 0 n turn) s.client =
          final (answerIncoming { a with sessionKeys := keys } turn.outside peer) s.client := by
        rw [awaitTurn_incoming _ n hin fun he => he.1 rfl]
        exact final_bind_pure _ _ _
      rw [hfin]
      refine ⟨⟨hacc, ?_⟩, by simpa [Fresh, hin] using hiff⟩
      rw [after_client, hfin]
      exact hinv

/-- A session accepts no introduction twice exactly when every introduction it is shown, while it
can still answer, differs from those it accepted before in the sender's fields or the group name.
HMAC is injective on what the session's checks put through it. -/
theorem accepts_no_replay_iff {a : Acceptor p} {n : UInt64} {c : Client} {es : List (SessionEvent p)}
    {s : AcceptSession p} (hc : c.answered = [])
    (hmac : (a.checked es).InjOn fun km => p.hmacSha256 km.1 km.2)
    (hrun : runFrom AcceptSession.next ⟨a, .waiting n, c⟩ es = some s) :
    NoReplay s.client.answered ↔ AcceptSession.FreshRun ⟨a, .waiting n, c⟩ es := by
  have hrun_iff : ∀ {es'} {s₀ : AcceptSession p}, s₀.Inv a (a.checked es) → es' ⊆ es →
      runFrom AcceptSession.next s₀ es' = some s →
      (NoReplay s.client.answered ↔ NoReplay s₀.client.answered ∧ s₀.FreshRun es') := by
    intro es'
    induction es' with
    | nil =>
      intro s₀ _ _ h
      cases h
      exact ⟨fun hn => ⟨hn, trivial⟩, fun hn => hn.1⟩
    | cons e es' ih =>
      intro s₀ hinv hsub h
      unfold runFrom at h
      split at h
      · rename_i s₁ hnext
        have hS : a.checked [e] ⊆ a.checked es := by
          rintro km ⟨turn, hturn, rest⟩
          exact ⟨turn, hsub (List.mem_singleton.mp hturn ▸ List.mem_cons_self), rest⟩
        obtain ⟨hinv₁, hstep⟩ := AcceptSession.next_replay hinv hmac hS hnext
        rw [ih hinv₁ (fun x hx => hsub (List.mem_cons_of_mem _ hx)) h, hstep, and_assoc,
          AcceptSession.FreshRun, hnext]
      · cases h
  have hinv : AcceptSession.Inv a (a.checked es) ⟨a, .waiting n, c⟩ := by
    refine ⟨⟨a.sessionKeys, rfl⟩, ?_⟩
    constructor <;> simp [hc]
  rw [hrun_iff hinv (fun _ hx => hx) hrun]
  simp [NoReplay, hc]

def toySession : AcceptSession toyPrimitives := ⟨toyAcceptor, .waiting 0, { knownPeers := [] }⟩

/-- The same introduction is accepted again in the next call, under the receiver's next session
key. -/
theorem replay_accepted : ∃ s, runFrom AcceptSession.next toySession
    [.turn toyTurn, .again (toyKeyPair 7) 0, .turn toyTurn] = some s ∧
    ¬ NoReplay s.client.answered := by
  change ∃ s ∈ runFrom .., _
  decide +kernel

/-- Another introduction of the toy sender, with the session key of another run. -/
def toyIncomingAgain : PeerIntroduction :=
  let q := { toyRequester with sessionKeys := toyKeyPair 17 }
  { toyIncoming with
    sessionKey := q.sessionKeys.publicKey
    proof := q.request.proof
    signature := q.request.signature }

def toyTurnAgain : Turn := { readable := some (.ok (Frame.of .incoming toyIncomingAgain.encode)) }

/-- The same sender, with a new session key, is accepted twice, and that is no replay. -/
theorem no_replay_two_sends : ∃ s, runFrom AcceptSession.next toySession
    [.turn toyTurn, .again (toyKeyPair 7) 0, .turn toyTurnAgain] = some s ∧
    s.client.answered.map Prod.snd = [true, true] ∧ NoReplay s.client.answered := by
  obtain ⟨s, hs, hanswers⟩ : ∃ s ∈ runFrom AcceptSession.next toySession
      [.turn toyTurn, .again (toyKeyPair 7) 0, .turn toyTurnAgain],
      s.client.answered.map Prod.snd = [true, true] := by
    decide +kernel
  have hone : toyTurn.incoming = some toyIncoming := by decide +kernel
  have htwo : toyTurnAgain.incoming = some toyIncomingAgain := by decide +kernel
  let key := toyAcceptor.personalPasswordKey.toList
  have hlist : ∀ x ∈ [(key, toyAcceptor.senderInput toyIncoming),
        (key, toyAcceptor.senderInput toyIncomingAgain)],
      ∀ y ∈ [(key, toyAcceptor.senderInput toyIncoming),
        (key, toyAcceptor.senderInput toyIncomingAgain)],
      toyPrimitives.hmacSha256 x.1 x.2 = toyPrimitives.hmacSha256 y.1 y.2 → x = y := by
    decide +kernel
  have hset : ∀ x ∈ toyAcceptor.checked [.turn toyTurn, .again (toyKeyPair 7) 0, .turn toyTurnAgain],
      x ∈ [(key, toyAcceptor.senderInput toyIncoming),
        (key, toyAcceptor.senderInput toyIncomingAgain)] := by
    rintro x ⟨turn, hturn, peer, k, hpeer, hk, rfl⟩
    simp only [List.mem_cons, SessionEvent.turn.injEq, reduceCtorEq, List.not_mem_nil, or_false,
      false_or] at hturn
    rcases hturn with rfl | rfl
    · cases hone.symm.trans hpeer
      cases hk
      exact List.mem_cons_self
    · cases htwo.symm.trans hpeer
      cases hk
      exact List.mem_cons_of_mem _ List.mem_cons_self
  refine ⟨s, hs, hanswers, (accepts_no_replay_iff rfl ?_ hs).mpr (by decide +kernel)⟩
  exact fun x hx y hy => hlist x (hset x hx) y (hset y hy)

end DropZone
