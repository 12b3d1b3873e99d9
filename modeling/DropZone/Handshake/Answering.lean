import DropZone.Handshake.Replay

/-!
# Answering an introduction

What `await_introduction` does with an Incoming frame, whatever the frame carries.

* `Answers`: the turn sends one Accept and returns true, or sends one Reject and waits on.
* `Acceptor.Answerable`: the introduction decodes, and if its proofs are right, its sender does not
  present another key than the recorded one and its session key is usable.
* `answers_iff`: the turn answers exactly when the introduction is answerable; otherwise it throws
  (`sender_stops_session`), and the accept session ends.
-/

namespace DropZone

open LittleEndian Parser StateSpec MonadExcept

variable {p : Primitives} {peer : PeerIntroduction} {a : Acceptor p}

/-- The turn of the loop sends exactly one Accept and returns true, or sends exactly one Reject and
keeps waiting. -/
def Answers (a : Acceptor p) (deadline nextKeepAlive : UInt64) (turn : Turn) (c : Client) : Prop :=
  (∃ i c', (awaitTurn a deadline nextKeepAlive turn).run c = .ok (.accepted i) c' ∧
    ∃ f, f.header.type = .accept ∧ c'.written = c.written ++ [f]) ∨
  (∃ c', (awaitTurn a deadline nextKeepAlive turn).run c = .ok (.waiting nextKeepAlive) c' ∧
    ∃ f, f.header.type = .reject ∧ c'.written = c.written ++ [f])

/-- The payload is an introduction that the checks refuse, or one of a sender whose recorded key, if
there is one, is the presented key, and whose session key is usable. -/
def Acceptor.Answerable (a : Acceptor p) (peers : KnownPeers) (payload : Bytes) : Prop :=
  ∃ peer, PeerIntroduction.decode payload = .ok peer ∧ ∀ key, a.refusal peer = .ok key →
    peers.check peer.username peer.identityKey ≠ .changed ∧
      ∃ shared, p.x25519Shared a.sessionKeys.secret peer.sessionKey = .ok shared

/-! ## The parts of an answer -/

theorem Acceptor.refusal_length {reason : Bytes}
    (h : a.refusal peer = .error reason) : reason.length ≤ kMaxFrameLength := by
  unfold refusal at h
  split at h
  · cases h
    decide
  · split at h
    · cases h
      decide
    · split at h
      · cases h
        decide
      · cases h

theorem run_answerIncoming_refused {o : Outside}
    {reason : Bytes} (h : a.refusal peer = .error reason) (hwrite : o.write = none) (c : Client) :
    (answerIncoming a o peer).run c = .ok none
      { c with written := c.written ++ [Frame.of .reject reason]
               answered := c.answered ++ [(peer, false)] } := by
  have hs : (sendFrame o .reject reason).run c =
      .ok () { c with written := c.written ++ [Frame.of .reject reason] } := by
    rw [run_sendFrame o (Acceptor.refusal_length h), hwrite]
  unfold answerIncoming
  rw [h]
  simp only
  rw [run_bind_ok hs]
  rfl

/-- An introduction whose sender is not the recorded one: the loop throws, with no answer. -/
theorem run_answerIncoming_changed {o : Outside} {key : Key}
    {c : Client} (h : a.refusal peer = .ok key)
    (hchanged : c.knownPeers.check peer.username peer.identityKey = .changed) :
    ∃ e, (answerIncoming a o peer).run c = .error e c := by
  have hp := run_enforcePinning (p := p) o c peer.username peer.identityKey
  rw [hchanged] at hp
  unfold answerIncoming
  rw [h]
  simp only
  rw [run_bind, hp]
  exact ⟨_, rfl⟩

/-- An accepted introduction: the key agreement comes after the Accept. -/
theorem run_answerIncoming_accepted {o : Outside} {key : Key}
    {c : Client} (h : a.refusal peer = .ok key)
    (hpin : c.knownPeers.check peer.username peer.identityKey ≠ .changed)
    (hgroup : peer.groupName = [] ∨ isValidUsername peer.groupName = true) (hsave : o.save = none)
    (hwrite : o.write = none) :
    ∃ c', c'.written = c.written ++ [Frame.of .accept (a.reply peer key).encode] ∧
      (answerIncoming a o peer).run c =
        match p.x25519Shared a.sessionKeys.secret peer.sessionKey with
        | .ok shared => .ok (some (a.introduction o peer key shared)) c'
        | .error e => .error e c' := by
  obtain ⟨peers, hp⟩ : ∃ peers, (enforcePinning p o peer.username peer.identityKey).run c =
      .ok () { c with knownPeers := peers } := by
    rw [run_enforcePinning, hsave]
    cases hc : c.knownPeers.check peer.username peer.identityKey with
    | same => exact ⟨c.knownPeers, rfl⟩
    | firstSight => exact ⟨_, rfl⟩
    | changed => exact absurd hc hpin
  have hs : (sendFrame o .accept (a.reply peer key).encode).run { c with knownPeers := peers } =
      .ok () { c with knownPeers := peers
                      written := c.written ++ [Frame.of .accept (a.reply peer key).encode] } := by
    rw [run_sendFrame o (a.length_encode_reply key hgroup), hwrite]
  refine ⟨{ knownPeers := peers
            written := c.written ++ [Frame.of .accept (a.reply peer key).encode]
            answered := c.answered ++ [(peer, true)] }, rfl, ?_⟩
  unfold answerIncoming
  rw [h]
  simp only
  rw [run_bind_ok hp, run_bind_ok hs]
  cases p.x25519Shared a.sessionKeys.secret peer.sessionKey <;> rfl

/-! ## Every Incoming frame -/

theorem Turn.incoming_of_decode {turn : Turn} {frame : Frame}
    (hread : turn.readable = some (.ok frame)) (htype : frame.header.type = .incoming)
    (hdecode : PeerIntroduction.decode frame.payload = .ok peer) : turn.incoming = some peer := by
  simp only [incoming, hread, htype, if_true, hdecode]
  rfl

/-- An Incoming frame that does not decode: the loop throws. -/
theorem awaitTurn_malformed (a : Acceptor p) {deadline : UInt64} (nextKeepAlive : UInt64) {turn : Turn}
    {frame : Frame} (htime : ¬ turn.Expired deadline) (hread : turn.readable = some (.ok frame))
    (htype : frame.header.type = .incoming) {e : Failure}
    (hdecode : PeerIntroduction.decode frame.payload = .error e) (c : Client) :
    (awaitTurn a deadline nextKeepAlive turn).run c = .error e c := by
  have hframe : (awaitFrame a turn.outside frame).run c = .error e c := by
    simp only [awaitFrame, htype, hdecode]
    rfl
  unfold awaitTurn
  rw [if_neg htime, hread]
  simp only
  rw [run_bind, hframe]

theorem not_answers_of_error {deadline nextKeepAlive : UInt64} {turn : Turn}
    {c c' : Client} {e : Failure}
    (h : (awaitTurn a deadline nextKeepAlive turn).run c = .error e c') :
    ¬ Answers a deadline nextKeepAlive turn c := by
  rintro (⟨i, c'', h', -⟩ | ⟨c'', h', -⟩)
  · rw [h] at h'
    cases h'
  · rw [h] at h'
    cases h'

/-- **A turn that reads an Incoming frame answers it exactly when it is answerable**, as long as the
system calls succeed. -/
theorem answers_iff (a : Acceptor p) {deadline : UInt64} (nextKeepAlive : UInt64) {turn : Turn}
    {frame : Frame} (c : Client) (htime : ¬ turn.Expired deadline)
    (hread : turn.readable = some (.ok frame)) (htype : frame.header.type = .incoming)
    (hsave : turn.outside.save = none) (hwrite : turn.outside.write = none) :
    Answers a deadline nextKeepAlive turn c ↔ a.Answerable c.knownPeers frame.payload := by
  cases hdecode : PeerIntroduction.decode frame.payload with
  | error e =>
    refine iff_of_false (not_answers_of_error (awaitTurn_malformed a nextKeepAlive htime hread htype
      hdecode c)) ?_
    rintro ⟨peer, hpeer, -⟩
    rw [hdecode] at hpeer
    cases hpeer
  | ok peer =>
    have hturn := awaitTurn_incoming a nextKeepAlive (Turn.incoming_of_decode hread htype hdecode) htime
    have hanswerable : a.Answerable c.knownPeers frame.payload ↔ ∀ key, a.refusal peer = .ok key →
        c.knownPeers.check peer.username peer.identityKey ≠ .changed ∧
          ∃ shared, p.x25519Shared a.sessionKeys.secret peer.sessionKey = .ok shared := by
      refine ⟨?_, fun h => ⟨peer, hdecode, h⟩⟩
      rintro ⟨peer', hpeer', h⟩
      rw [hdecode] at hpeer'
      cases hpeer'
      exact h
    rw [hanswerable]
    cases hrefusal : a.refusal peer with
    | error reason =>
      have hwaits : (awaitTurn a deadline nextKeepAlive turn).run c = .ok (.waiting nextKeepAlive)
          { c with written := c.written ++ [Frame.of .reject reason]
                   answered := c.answered ++ [(peer, false)] } := by
        rw [hturn, run_bind_ok (run_answerIncoming_refused hrefusal hwrite c)]
        rfl
      exact iff_of_true (.inr ⟨_, hwaits, _, rfl, rfl⟩) nofun
    | ok key =>
      by_cases hpin : c.knownPeers.check peer.username peer.identityKey = .changed
      · obtain ⟨e, he⟩ := run_answerIncoming_changed (o := turn.outside) hrefusal hpin
        have hthrows : (awaitTurn a deadline nextKeepAlive turn).run c = .error e c := by
          rw [hturn, run_bind, he]
        exact iff_of_false (not_answers_of_error hthrows) fun h => (h key rfl).1 hpin
      · obtain ⟨c', hwritten, hrun⟩ := run_answerIncoming_accepted hrefusal hpin
          (PeerIntroduction.decode_sound hdecode).2 hsave hwrite
        cases hshared : p.x25519Shared a.sessionKeys.secret peer.sessionKey with
        | error e =>
          rw [hshared] at hrun
          have hthrows : (awaitTurn a deadline nextKeepAlive turn).run c = .error e c' := by
            rw [hturn, run_bind, hrun]
          refine iff_of_false (not_answers_of_error hthrows) fun h => ?_
          obtain ⟨shared, hok⟩ := (h key rfl).2
          cases hok
        | ok shared =>
          rw [hshared] at hrun
          have hreturns : (awaitTurn a deadline nextKeepAlive turn).run c =
              .ok (.accepted (a.introduction turn.outside peer key shared)) c' := by
            rw [hturn, run_bind_ok hrun]
            rfl
          exact iff_of_true (.inl ⟨_, c', hreturns, _, rfl, hwritten⟩) fun _ _ => ⟨hpin, shared, rfl⟩

theorem answers_iff_toy : toyAcceptor.Answerable [] toyIncoming.encode ∧
    Answers toyAcceptor 0 0 toyTurn { knownPeers := [] } := by
  have hanswerable : toyAcceptor.Answerable [] toyIncoming.encode :=
    ⟨toyIncoming, by decide +kernel, fun _ _ => ⟨by decide +kernel, leBlock 32 135, by decide +kernel⟩⟩
  have hread : toyTurn.readable = some (.ok (Frame.of .incoming toyIncoming.encode)) := rfl
  exact ⟨hanswerable, (answers_iff toyAcceptor 0 { knownPeers := [] } (by decide) hread rfl rfl rfl).mpr
    hanswerable⟩

def toyRecord : KnownPeer := ⟨text "s", leBlock 32 12, 0⟩

/-- A sender who knows the password and presents a session key of low order. -/
def lowOrderRequester : Requester toyPrimitives := { toyRequester with sessionKeys := toyKeyPair 0 }

def lowOrderIncoming : PeerIntroduction :=
  { toyIncoming with
    sessionKey := lowOrderRequester.sessionKeys.publicKey
    proof := lowOrderRequester.request.proof
    signature := lowOrderRequester.request.signature }

def lowOrderTurn : Turn := { readable := some (.ok (Frame.of .incoming lowOrderIncoming.encode)) }

/-- **A sender who knows the password can stop an accept session**: with a key other than the recorded
one, and there is no answer at all; or with a session key of low order, after the Accept. -/
theorem sender_stops_session :
    ¬ Answers toyAcceptor 0 0 toyTurn { knownPeers := [toyRecord] } ∧
    (final (awaitTurn toyAcceptor 0 0 toyTurn) { knownPeers := [toyRecord] }).written = [] ∧
    ¬ Answers toyAcceptor 0 0 lowOrderTurn { knownPeers := [] } ∧
    (final (awaitTurn toyAcceptor 0 0 lowOrderTurn) { knownPeers := [] }).written.map (·.header.type) =
      [.accept] := by
  have hthrows : ∀ {turn c}, returned ((awaitTurn toyAcceptor 0 0 turn).run c) = none →
      ¬ Answers toyAcceptor 0 0 turn c := by
    intro turn c h
    cases hr : (awaitTurn toyAcceptor 0 0 turn).run c with
    | ok v c' =>
      rw [hr] at h
      cases h
    | error e c' => exact not_answers_of_error hr
  exact ⟨hthrows (by decide +kernel), by decide +kernel, hthrows (by decide +kernel), by decide +kernel⟩

end DropZone
