import Mathlib.Data.Set.Function
import DropZone.Handshake.Rendezvous

/-!
# Agreement through an untrusted server

What a sender and a receiver know of each other once an introduction succeeds, whatever the server
made of their frames.

* `requestIntroduction_ok`: what a sender's run that returns has checked.
* `awaitTurns_accept`: an Accept that a receiver's run wrote answers an introduction that passed its
  checks, and the run returns unless the key agreement throws.
* `introduction_agreement`: a sender whose check passed on a receiver's proof shares the whole
  handshake with it, and their session keys mirror each other.
-/

namespace DropZone

open LittleEndian Parser StateSpec MonadExcept

variable {p : Primitives} {peer : PeerIntroduction}

/-! ## The sender's run -/

theorem Requester.checkReply_ok {q : Requester p}
    (h : q.checkReply peer = .ok ()) :
    peer.username = q.targetUsername ∧
      peer.proof = p.hmacSha256 q.passwordKey.toList (receiverProofInput (q.handshake peer)) := by
  unfold Requester.checkReply at h
  simp only at h
  split at h
  · cases h
  split at h
  · cases h
  · exact ⟨not_not.mp ‹_›, not_not.mp ‹_›⟩

/-- What a sender checked before `request_introduction` returned. -/
theorem requestIntroduction_ok {q : Requester p} {o : Outside} {reply : Except Failure Frame}
    {i : Introduction} {c c' : Client} (h : (requestIntroduction q o reply).run c = .ok i c') :
    ∃ frame peer shared, reply = .ok frame ∧ PeerIntroduction.decode frame.payload = .ok peer ∧
      q.checkReply peer = .ok () ∧
      p.x25519Shared q.sessionKeys.secret peer.sessionKey = .ok shared ∧
      i = q.introduction o peer shared := by
  unfold requestIntroduction at h
  obtain ⟨_, _, -, h⟩ := run_bind_eq_ok.mp h
  obtain ⟨frame, _, hf, h⟩ := run_bind_eq_ok.mp h
  obtain ⟨peer, _, hp, h⟩ := run_bind_eq_ok.mp h
  obtain ⟨_, _, hc, h⟩ := run_bind_eq_ok.mp h
  obtain ⟨_, _, -, h⟩ := run_bind_eq_ok.mp h
  obtain ⟨shared, _, hs, h⟩ := run_bind_eq_ok.mp h
  have hreply : reply = .ok frame := by
    cases reply with
    | error e => cases hf
    | ok f =>
      have hexp := (run_ofExcept_eq_ok.mp hf).1
      change FramedStream.expect .matched f = .ok frame at hexp
      unfold FramedStream.expect at hexp
      split at hexp
      · exact hexp
      · split at hexp <;> cases hexp
  cases h
  exact ⟨frame, peer, shared, hreply, (run_ofExcept_eq_ok.mp hp).1, (run_ofExcept_eq_ok.mp hc).1,
    (run_ofExcept_eq_ok.mp hs).1, rfl⟩

/-! ## The receiver's run -/

theorem Acceptor.refusal_ok {a : Acceptor p} {key : Key}
    (h : a.refusal peer = .ok key) :
    a.passwordKey peer.groupName = some key ∧
      peer.proof = p.hmacSha256 key.toList (a.senderInput peer) := by
  unfold Acceptor.refusal at h
  split at h
  · cases h
  · split at h
    · cases h
    split at h
    · cases h
    · cases h
      exact ⟨‹_›, not_not.mp ‹_›⟩

/-- `f` is the Accept with which a run that read `turns` answered an introduction that passed its
checks; if the key agreement then succeeds, `r` is how the run ends. -/
def Acceptor.Accepts (a : Acceptor p) (turns : List Turn) (f : Frame)
    (r : EStateM.Result Failure Client Awaited) : Prop :=
  ∃ turn ∈ turns, ∃ peer key, turn.incoming = some peer ∧ a.refusal peer = .ok key ∧
    f = Frame.of .accept (a.reply peer key).encode ∧
    ∀ shared, p.x25519Shared a.sessionKeys.secret peer.sessionKey = .ok shared →
      ∃ c', (peer, true) ∈ c'.answered ∧
        r = .ok (.accepted (a.introduction turn.outside peer key shared)) c'

/-- An Accept that a run wrote answers an introduction that it read. -/
theorem awaitTurns_accept (a : Acceptor p) (deadline : UInt64) {turns : List Turn} {f : Frame}
    (nextKeepAlive : UInt64) (c : Client)
    (hf : f ∈ (final (awaitTurns a deadline nextKeepAlive turns) c).written)
    (hnew : f ∉ c.written) (haccept : f.header.type = .accept) :
    a.Accepts turns f ((awaitTurns a deadline nextKeepAlive turns).run c) := by
  induction turns generalizing nextKeepAlive c with
  | nil => exact absurd hf hnew
  | cons turn turns ih =>
    -- A turn after which the loop goes on leaves the Accept to the rest of the run.
    have hgo : ∀ {next : UInt64} {c₁ : Client},
        (awaitTurn a deadline nextKeepAlive turn).run c = .ok (.waiting next) c₁ → f ∉ c₁.written →
        a.Accepts (turn :: turns) f
          ((awaitTurns a deadline nextKeepAlive (turn :: turns)).run c) := by
      intro next c₁ hrun hnew₁
      unfold awaitTurns at hf ⊢
      rw [final_bind_ok hrun] at hf
      rw [run_bind_ok hrun]
      obtain ⟨t, ht, rest⟩ := ih next c₁ hf hnew₁
      exact ⟨t, List.mem_cons_of_mem _ ht, rest⟩
    by_cases hin : ∃ peer, turn.incoming = some peer ∧ ¬ turn.Expired deadline
    · obtain ⟨peer, hpeer, htime⟩ := hin
      have hturn := awaitTurn_incoming a nextKeepAlive hpeer htime
      rcases answerIncoming_cases a turn.outside peer c with
        ⟨e, peers, -, hrun⟩ | ⟨reason, -, hrun⟩ | ⟨key, peers, c', hkey, -, -, -, hc', hrun⟩
      · unfold awaitTurns at hf
        rw [hturn, final_bind_error (by rw [run_bind, hrun])] at hf
        exact absurd hf hnew
      · refine hgo (by rw [hturn, run_bind_ok hrun]; rfl) fun hmem => ?_
        rcases List.mem_append.mp hmem with hmem | hmem
        · exact hnew hmem
        · rw [List.mem_singleton.mp hmem] at haccept
          cases haccept
      · have hfinal : final (awaitTurns a deadline nextKeepAlive (turn :: turns)) c = c' := by
          unfold awaitTurns
          cases hs : p.x25519Shared a.sessionKeys.secret peer.sessionKey with
          | ok shared =>
            rw [hs] at hrun
            rw [hturn, final_bind_ok (by rw [run_bind_ok hrun]; rfl)]
            rfl
          | error e =>
            rw [hs] at hrun
            rw [hturn, final_bind_error (by rw [run_bind, hrun])]
        rw [hfinal, hc'] at hf
        refine ⟨turn, List.mem_cons_self, peer, key, hpeer, hkey, ?_, ?_⟩
        · rcases List.mem_append.mp hf with hmem | hmem
          · exact absurd hmem hnew
          · exact List.mem_singleton.mp hmem
        · intro shared hs
          rw [hs] at hrun
          refine ⟨c', by rw [hc']; simp, ?_⟩
          unfold awaitTurns
          rw [hturn, run_bind_ok (by rw [run_bind_ok hrun]; rfl)]
          rfl
    · have hidle : turn.incoming = none ∨ turn.Expired deadline := by
        by_cases ht : turn.Expired deadline
        · exact .inr ht
        · cases hi : turn.incoming with
          | none => exact .inl rfl
          | some peer => exact absurd ⟨peer, hi, ht⟩ hin
      obtain ⟨⟨written, hw, hfin⟩, hnot⟩ := awaitTurn_idle a nextKeepAlive c hidle
      have hnew₁ : f ∉ written := by
        intro hmem
        rcases hw f hmem with hmem | hmem
        · exact hnew hmem
        · rw [haccept] at hmem
          cases hmem
      cases hrun : (awaitTurn a deadline nextKeepAlive turn).run c with
      | error e c₁ =>
        unfold awaitTurns at hf
        rw [final_bind_error hrun] at hf
        rw [final, hrun] at hfin
        rw [show c₁ = _ from hfin] at hf
        exact absurd hf hnew₁
      | ok awaited c₁ =>
        rw [final_of_ok hrun] at hfin
        subst hfin
        cases awaited with
        | waiting next => exact hgo hrun hnew₁
        | timedOut =>
          unfold awaitTurns at hf
          rw [final_bind_ok hrun] at hf
          exact absurd hf hnew₁
        | accepted i => exact absurd hrun (hnot i _)

/-! ## Agreement -/

/-- What the sender's run puts through HMAC. -/
def Requester.macInputs (q : Requester p) (peer : PeerIntroduction) : Set Bytes :=
  {m | m = q.proofInput ∨ m = receiverProofInput (q.handshake peer)}

/-- What the receiver's run may put through HMAC. -/
def Acceptor.macInputs (a : Acceptor p) (turns : List Turn) : Set Bytes :=
  {m | ∃ turn ∈ turns, ∃ peer, turn.incoming = some peer ∧
    (m = a.senderInput peer ∨ m = receiverProofInput (a.handshake peer))}

theorem Acceptor.reply_wellFormed (a : Acceptor p) (key : Key)
    (hgroup : peer.groupName = [] ∨ isValidUsername peer.groupName = true) :
    (a.reply peer key).WellFormed where
  username := a.config.valid
  count := by simp [Acceptor.reply]
  unmapped := by simp [Acceptor.reply]
  group := hgroup

/-- Whatever the server does: if `request_introduction` returns and the proof it accepted is one
that a run of `await_introduction` wrote under the same password key, then that run returns too,
both ends agree on the whole handshake, and their session keys mirror each other. HMAC is injective
on what the two runs put through it. -/
theorem introduction_agreement (hdh : p.X25519Commutes) {q : Requester p} {a : Acceptor p}
    {o : Outside} {frame f : Frame} {peer answer : PeerIntroduction} {i : Introduction}
    {s s' r : Client} {timeoutMs : UInt32} {start : UInt64} {turns : List Turn}
    (hsender : (requestIntroduction q o (.ok frame)).run s = .ok i s')
    (hpeer : PeerIntroduction.decode frame.payload = .ok peer)
    (hstart : r.written = [])
    (hf : f ∈ (final (awaitIntroduction a timeoutMs start turns) r).written)
    (haccept : f.header.type = .accept)
    (hanswer : PeerIntroduction.decode f.payload = .ok answer)
    (hproof : answer.proof = peer.proof)
    (hkey : a.passwordKey answer.groupName = some q.passwordKey)
    (hmac : Set.InjOn (p.hmacSha256 q.passwordKey.toList)
      (q.macInputs peer ∪ a.macInputs turns)) :
    ∃ incoming i' r', (awaitIntroduction a timeoutMs start turns).run r = .ok (.accepted i') r' ∧
      (incoming, true) ∈ r'.answered ∧ q.handshake peer = a.handshake incoming ∧
      i.peerUsername = a.config.username ∧ i'.peerUsername = q.config.username ∧
      i.peerIdentityKey = a.identity.publicKey ∧ i'.peerIdentityKey = q.identity.publicKey ∧
      i.keys.Mirror i'.keys := by
  obtain ⟨_, _, shared, hframe, hpeer', hcheck, hshared, rfl⟩ := requestIntroduction_ok hsender
  cases hframe
  cases hpeer.symm.trans hpeer'
  obtain ⟨hname, hexpected⟩ := Requester.checkReply_ok hcheck
  have hnew : f ∉ r.written := by simp [hstart]
  obtain ⟨turn, hturn, incoming, key, hincoming, hrefusal, rfl, hrun⟩ :=
    awaitTurns_accept a _ _ r hf hnew haccept
  obtain ⟨hpassword, hsenderProof⟩ := Acceptor.refusal_ok hrefusal
  obtain ⟨_, -, -, hdecode⟩ := Turn.incoming_sound hincoming
  obtain ⟨huser, hgroup⟩ := PeerIntroduction.decode_sound hdecode
  -- The answer is the reply the receiver encoded, so it was made with the sender's key.
  have hreply : answer = a.reply incoming key := by
    have := PeerIntroduction.decode_encode (a.reply_wellFormed key hgroup)
    rw [Frame.of] at hanswer
    exact Except.ok.inj (hanswer.symm.trans this)
  subst hreply
  have hsame : key = q.passwordKey := Option.some.inj (hpassword.symm.trans hkey)
  subst hsame
  -- Equal proofs under one key are about the same handshake.
  have hagree : q.handshake peer = a.handshake incoming := by
    refine receiverProofInput_inj ?_ ?_ (hmac ?_ ?_ (hexpected.symm.trans hproof.symm))
    · refine ⟨fits_of_valid q.config.valid, fits_of_valid ?_, fits_of_group q.group_valid⟩
      show isValidUsername q.targetUsername = true
      rw [← hname]
      exact (PeerIntroduction.decode_sound hpeer).1
    · exact ⟨fits_of_valid huser, fits_of_valid a.config.valid, fits_of_group hgroup⟩
    · exact .inl (.inr rfl)
    · exact .inr ⟨turn, hturn, incoming, hincoming, .inr rfl⟩
  obtain ⟨h1, h2, h3, h4, h5, h6, h7⟩ := Handshake.mk.inj hagree
  have hshared' : p.x25519Shared a.sessionKeys.secret incoming.sessionKey = .ok shared := by
    have h3' : q.sessionKeys.publicKey = incoming.sessionKey := h3
    have h5' : peer.sessionKey = a.sessionKeys.publicKey := h5
    rw [← h3', q.sessionKeys.public_eq]
    apply hdh
    rw [← a.sessionKeys.public_eq, ← h5']
    exact hshared
  -- The receiver checked the sender's proof over the same fields, so both transcripts are equal.
  have htranscript : transcriptHash p (q.handshake peer) q.request.proof peer.proof =
      transcriptHash p (a.handshake incoming) incoming.proof
        (a.reply incoming q.passwordKey).proof := by
    have hinput : q.proofInput = a.senderInput incoming := by
      unfold Requester.proofInput Acceptor.senderInput
      exact congr (congr (congr (congr (congrArg _ h1) h2) h3) h4) h7
    rw [hagree, hproof, hsenderProof, ← hinput]
    rfl
  obtain ⟨r', hmem, hreturn⟩ := hrun shared hshared'
  refine ⟨incoming, _, r', hreturn, hmem, hagree, hname.trans h2, h1.symm, h6, h4.symm, ?_⟩
  have hmirror := deriveSessionKeys_mirror p o.preferredAead turn.outside.preferredAead shared
    (transcriptHash p (q.handshake peer) q.request.proof peer.proof)
  rw [Requester.introduction, Acceptor.introduction, ← htranscript]
  exact hmirror

/-! ## A run -/

/-- A polynomial hash, for evaluating runs. -/
def toyHash (m : Bytes) : Nat := m.foldl (fun h b => h * 257 + b.toNat + 1) 7

def toyShared (shared : Nat) : Except Failure (Block 32) :=
  if shared = 0 then .error (.error (text "X25519 key agreement failed"))
  else .ok (leBlock 32 shared)

/-- Primitives small enough to evaluate: Diffie-Hellman by multiplication modulo `256 ^ 32`. -/
def toyPrimitives : Primitives where
  sha256 m := leBlock 32 (toyHash m)
  hmacSha256 key m := leBlock 32 (toyHash (key ++ m))
  hkdfSha256 secret salt info len := leBlock len (toyHash (secret ++ salt ++ info))
  scryptDerive password salt := leBlock 32 (toyHash (password ++ salt))
  x25519Public secret := leBlock 32 (9 * leNat secret.toList)
  x25519Shared secret peer := toyShared (leNat secret.toList * leNat peer.toList % 256 ^ 32)
  ed25519Public secret := secret
  ed25519Sign secret m := leBlock 64 (toyHash (secret.toList ++ m))
  ed25519Verify publicKey m signature := signature = leBlock 64 (toyHash (publicKey.toList ++ m))

theorem toyPrimitives_shared (a b : Block 32) :
    toyPrimitives.x25519Shared a (toyPrimitives.x25519Public b) =
      toyShared (leNat a.toList * (9 * leNat b.toList % 256 ^ 32) % 256 ^ 32) := by
  have hpub : leNat (leBlock 32 (9 * leNat b.toList)).toList = 9 * leNat b.toList % 256 ^ 32 :=
    leNat_leBytes 32 _
  simp only [toyPrimitives]
  rw [hpub]

theorem toyPrimitives_commutes : toyPrimitives.X25519Commutes := by
  have hcomm : ∀ m x y : Nat, x * (9 * y % m) % m = y * (9 * x % m) % m := by
    intro m x y
    rw [Nat.mul_mod_mod, Nat.mul_mod_mod, Nat.mul_left_comm, Nat.mul_comm x y, Nat.mul_left_comm]
  intro a b shared h
  rw [toyPrimitives_shared] at h ⊢
  rwa [hcomm]

def toyKeyPair (n : Nat) : X25519KeyPair toyPrimitives :=
  ⟨leBlock 32 n, toyPrimitives.x25519Public (leBlock 32 n), rfl⟩

def toyIdentity (n : Nat) : Ed25519KeyPair toyPrimitives :=
  ⟨leBlock 32 n, toyPrimitives.ed25519Public (leBlock 32 n), rfl⟩

def toyRequester : Requester toyPrimitives where
  config := ⟨text "s", by decide⟩
  identity := toyIdentity 11
  sessionKeys := toyKeyPair 3
  targetUsername := text "r"
  publicPassword := text "pw"
  transportHint := .none
  groupName := []
  group_valid := .inl rfl

def toyAcceptor : Acceptor toyPrimitives where
  config := ⟨text "r", by decide⟩
  identity := toyIdentity 13
  sessionKeys := toyKeyPair 5
  personalPasswordKey := derivePublicPasswordKey toyPrimitives (text "pw") (text "r")
  groupPasswordKey := none
  joinedGroup := []
  ownTransportHint := .none

def toyIncoming : PeerIntroduction :=
  { username := text "s"
    identityKey := toyRequester.identity.publicKey
    sessionKey := toyRequester.sessionKeys.publicKey
    proof := toyRequester.request.proof
    signature := toyRequester.request.signature
    pairingId := 1 }

def toyTurn : Turn := { readable := some (.ok (Frame.of .incoming toyIncoming.encode)) }

def toyReply : PeerIntroduction := toyAcceptor.reply toyIncoming toyAcceptor.personalPasswordKey

/-- What a program that returned gave. -/
def returned {σ α : Type} : EStateM.Result Failure σ α → Option (α × σ)
  | .ok a s => some (a, s)
  | .error _ _ => none

theorem of_returned {σ α : Type} {r : EStateM.Result Failure σ α} (h : (returned r).isSome = true) :
    ∃ a s, r = .ok a s := by
  cases r with
  | ok a s => exact ⟨a, s, rfl⟩
  | error e s => cases h

/-- The toy sender and receiver, with a server that only forwards. -/
theorem toy_agreement : ∃ i i' c c',
    (requestIntroduction toyRequester {} (.ok (Frame.of .matched toyReply.encode))).run
      { knownPeers := [] } = .ok i c ∧
    (awaitIntroduction toyAcceptor 0 0 [toyTurn]).run { knownPeers := [] } =
      .ok (.accepted i') c' ∧ i.keys.Mirror i'.keys := by
  have hincoming : toyTurn.incoming = some toyIncoming := by decide +kernel
  have hpeer : PeerIntroduction.decode (Frame.of .matched toyReply.encode).payload = .ok toyReply := by
    decide +kernel
  have hanswer : PeerIntroduction.decode (Frame.of .accept toyReply.encode).payload = .ok toyReply :=
    hpeer
  have hsender : (returned ((requestIntroduction toyRequester {}
      (.ok (Frame.of .matched toyReply.encode))).run { knownPeers := [] })).isSome = true := by
    decide +kernel
  have hf : Frame.of .accept toyReply.encode ∈
      (final (awaitIntroduction toyAcceptor 0 0 [toyTurn]) { knownPeers := [] }).written := by
    decide +kernel
  have hmac : Set.InjOn (toyPrimitives.hmacSha256 toyRequester.passwordKey.toList)
      (toyRequester.macInputs toyReply ∪ toyAcceptor.macInputs [toyTurn]) := by
    have hlist : ∀ m ∈ [toyRequester.proofInput, receiverProofInput (toyAcceptor.handshake toyIncoming)],
        ∀ m' ∈ [toyRequester.proofInput, receiverProofInput (toyAcceptor.handshake toyIncoming)],
        toyPrimitives.hmacSha256 toyRequester.passwordKey.toList m =
          toyPrimitives.hmacSha256 toyRequester.passwordKey.toList m' → m = m' := by decide +kernel
    have hset : ∀ m ∈ toyRequester.macInputs toyReply ∪ toyAcceptor.macInputs [toyTurn],
        m ∈ [toyRequester.proofInput, receiverProofInput (toyAcceptor.handshake toyIncoming)] := by
      rintro m ((rfl | rfl) | ⟨turn, hturn, peer, hpeer, hm⟩)
      · exact List.mem_cons_self
      · exact List.mem_cons_of_mem _ List.mem_cons_self
      · rw [List.mem_singleton.mp hturn, hincoming] at hpeer
        cases hpeer
        rcases hm with rfl | rfl
        · exact List.mem_cons_self
        · exact List.mem_cons_of_mem _ List.mem_cons_self
    exact fun m hm m' hm' => hlist m (hset m hm) m' (hset m' hm')
  obtain ⟨i, c, hs⟩ := of_returned hsender
  obtain ⟨_, i', c', hr, -, -, -, -, -, -, hm⟩ := introduction_agreement toyPrimitives_commutes hs
    hpeer rfl hf rfl hanswer rfl (by decide +kernel) hmac
  exact ⟨i, i', c, c', hs, hr, hm⟩

end DropZone
