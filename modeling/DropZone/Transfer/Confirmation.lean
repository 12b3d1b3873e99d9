import DropZone.Transfer.Integrity
import DropZone.Transfer.Sender

/-!
# What "sent" means

A sender and a receiver of one session, each on a channel that an attacker feeds any bytes.
`Decision` and `TransferAck` are not authenticated, so the sender cannot tell the receiver's from
the attacker's.

* `Exchange`: the two ends; `Exchange.Confirmed`: a step at which the sender takes a `TransferAck`
  only if there is one among the bytes that the receiver has sent (`Receiver.ackSent`).
* `returned_of_confirmed`: in every run of such steps, a sender that has returned has a receiver that
  finalised the files of its manifest; and a step that is not such a step breaks that.
* `returned_unreceived`: a sender that returns while the receiver has not read a byte.
-/

namespace DropZone

open LittleEndian Parser System

/-! ## The sender's last step -/

def SenderEvent.isRead : SenderEvent → Bool
  | .read _ => true
  | _ => false

/-- The next frame is a `TransferAck`. -/
def ackNext (bytes : Bytes) : Bool :=
  match (readFrame .peerClosed).run bytes with
  | .ok (frame, _) => frame.header.type = .transferAck
  | .error _ => false

namespace Sender

variable {t : Sending} {s s' : Sender}

/-- The step takes a `TransferAck`. -/
def ReadsAck (s : Sender) (e : SenderEvent) : Prop :=
  e.isRead = true ∧ s.phase = .awaitingAck ∧ ackNext s.input = true

instance (s : Sender) (e : SenderEvent) : Decidable (s.ReadsAck e) :=
  inferInstanceAs (Decidable (_ ∧ _))

theorem submitFrom_ne_returned (t : Sending) (index : Nat) : submitFrom t index ≠ .returned := by
  unfold submitFrom
  split <;> exact SenderPhase.noConfusion

theorem copyFrom_ne_returned (t : Sending) (index : Nat) : copyFrom t index ≠ .returned := by
  unfold copyFrom
  split <;> exact SenderPhase.noConfusion

theorem writeThen_ne_returned (calls : SendCalls) (type : MessageType) (payload : Bytes)
    (flags : UInt16) {phase : SenderPhase} (h : phase ≠ .returned) :
    (s.writeThen calls type payload flags phase).phase ≠ .returned := by
  unfold writeThen
  split
  · exact h
  · exact SenderPhase.noConfusion

theorem decided_ne_returned (calls : SendCalls) (frame : Frame) :
    (s.decided t calls frame).phase ≠ .returned := by
  unfold decided
  split
  · exact SenderPhase.noConfusion
  · split
    · exact SenderPhase.noConfusion
    · split
      · split
        · exact SenderPhase.noConfusion
        · exact submitFrom_ne_returned t 0
      · exact copyFrom_ne_returned t 0

theorem acknowledged_phase {frame : Frame} (h : (s.acknowledged frame).phase = .returned) :
    frame.header.type = .transferAck := by
  unfold acknowledged at h
  split at h
  · cases h
  · rename_i f hf
    unfold Channel.expect at hf
    split at hf
    · assumption
    · split at hf <;> cases hf

theorem handle_returned {calls : SendCalls} {frame : Frame} (hwaits : s.Waits)
    (h : (s.handle t calls frame).phase = .returned) :
    s.phase = .awaitingAck ∧ frame.header.type = .transferAck := by
  unfold handle at h
  rcases hwaits with hp | hp
  · rw [hp] at h
    exact absurd h (decided_ne_returned calls frame)
  · rw [hp] at h
    exact ⟨hp, acknowledged_phase h⟩

theorem next_returned {e : SenderEvent} (h : next t s e = some s') (hret : s'.phase = .returned) :
    s.phase = .returned ∨ s.ReadsAck e := by
  cases e with
  | arrive =>
    cases h
    exact .inl hret
  | lost =>
    dsimp only [next] at h
    split at h <;> cases h
    cases hret
  | begin calls =>
    dsimp only [next] at h
    split at h <;> cases h
    unfold Sender.begin at hret
    split at hret
    · cases hret
    · exact absurd hret (writeThen_ne_returned _ _ _ _ SenderPhase.noConfusion)
  | read calls =>
    dsimp only [next] at h
    split at h
    · rename_i hwaits
      split at h
      · rename_i frame rest hframe
        cases h
        obtain ⟨hphase, htype⟩ := handle_returned (s := { s with input := rest }) hwaits hret
        refine .inr ⟨rfl, hphase, ?_⟩
        rw [ackNext, hframe]
        exact decide_eq_true htype
      · cases h
      · cases h
        cases hret
    · cases h
  | submit =>
    dsimp only [next] at h
    split at h
    · split at h
      · cases h
      · split at h <;> cases h
        · cases hret
        · exact absurd hret (submitFrom_ne_returned t _)
    · cases h
  | take =>
    obtain ⟨pool, -, rfl⟩ := Option.map_eq_some_iff.mp h
    exact .inl hret
  | finish i fault =>
    dsimp only [next] at h
    split at h
    · cases h
    · split at h
      · cases h
        exact .inl hret
      · split at h <;> cases h
        exact .inl hret
  | drain =>
    dsimp only [next] at h
    split at h
    · split at h <;> cases h <;> cases hret
    · cases h
  | consume calls =>
    dsimp only [next] at h
    split at h
    · split at h
      · cases h
      · cases h
        exact .inl hret
      · cases h
        exact .inl hret
      · split at h <;> cases h <;> exact .inl hret
    · cases h
  | write calls =>
    dsimp only [next] at h
    split at h
    · split at h <;> cases h <;> exact .inl hret
    · cases h
  | join =>
    dsimp only [next] at h
    split at h <;> cases h <;> cases hret
  | copy calls =>
    dsimp only [next] at h
    split at h
    · split at h
      · cases h
      · split at h <;> cases h
        · cases hret
        · exact absurd hret (writeThen_ne_returned _ _ _ _ (copyFrom_ne_returned t _))
    · cases h
  | close calls =>
    dsimp only [next] at h
    split at h <;> cases h
    exact absurd hret (writeThen_ne_returned _ _ _ _ SenderPhase.noConfusion)

/-- A `TransferAck` makes the sender return. -/
theorem ReadsAck.returned {e : SenderEvent} (hread : s.ReadsAck e) (h : next t s e = some s') :
    s'.phase = .returned := by
  obtain ⟨hevent, hphase, hack⟩ := hread
  cases e with
  | read calls =>
    unfold ackNext at hack
    split at hack
    · rename_i frame rest hframe
      dsimp only [next] at h
      rw [if_pos (.inr hphase), hframe] at h
      cases h
      unfold handle acknowledged Channel.expect
      dsimp only
      rw [hphase]
      dsimp only
      rw [if_pos (of_decide_eq_true hack)]
    · cases hack
  | _ => cases hevent

end Sender

/-! ## What the receiver has sent -/

namespace Receiver

variable {c : Receiving} {s s' : Receiver} {e : ReceiverEvent}

/-- The frame after the `Decision` that it sent is a `TransferAck`. -/
def ackSent (s : Receiver) : Bool :=
  match (readFrame .peerClosed).run s.sent with
  | .ok (_, rest) => ackNext rest
  | .error _ => false

theorem acked_stable (hcounted : s.Counted c) (hacked : s.phase = .acked) (h : next c s e = some s') :
    ∃ input, s' = { s with input := input } := by
  have hjobs := (hcounted.acked hacked).1
  simp only [jobs, List.append_eq_nil_iff] at hjobs
  have hwaits : ¬ s.Waits := by simp [Waits, hacked]
  cases e with
  | arrive bytes =>
    rw [next, if_neg (hacked ▸ ReceiverPhase.noConfusion)] at h
    cases h
    exact ⟨_, rfl⟩
  | _ => simp [next, hacked, hwaits, hjobs, AeadPool.take] at h

/-- Nothing, a `Decision`, or a `Decision` and a `TransferAck`. -/
structure Told (s : Receiver) : Prop where
  fresh : s.offer = none → ¬ s.phase.Ended → s.sent = []
  decided : s.phase ≠ .acked →
    s.offer = none ∧ s.sent = [] ∨ ∃ payload, writeFrame .decision payload = .ok s.sent
  acked : s.phase = .acked → ∃ decision bytes payload ack, writeFrame .decision decision = .ok bytes ∧
    writeFrame .transferAck payload = .ok ack ∧ s.sent = bytes ++ ack

/-- The first frame is written. -/
theorem Told.writes (h : s.Told) (hwaits : s.Waits) (hfresh : s.offer = none) {sent : Bytes}
    (hwrites : s.Writes .decision sent) : ∃ payload, writeFrame .decision payload = .ok sent := by
  obtain ⟨payload, bytes, hbytes, rfl⟩ := hwrites
  rw [h.fresh hfresh hwaits.not_ended]
  exact ⟨payload, hbytes⟩

theorem Told.effect (h : s.Told) (hphase : s.phase ≠ .acked) (heff : Effect c s s') : s'.Told := by
  have hsame : ∀ {t : Receiver}, t.sent = s.sent → t.offer = s.offer → t.phase ≠ .acked →
      (¬ t.phase.Ended → s.offer = none → ¬ s.phase.Ended) → t.Told := by
    intro t hsent hoffer hne hended
    refine ⟨fun hnone hlive => ?_, fun _ => ?_, fun hacked => absurd hacked hne⟩
    · rw [hsent]
      exact h.fresh (hoffer ▸ hnone) (hended hlive (hoffer ▸ hnone))
    · rw [hsent, hoffer]
      exact h.decided hphase
  cases heff with
  | @ended phase input sent error ended sent_eq =>
    refine ⟨fun _ hlive => absurd ended hlive, fun _ => ?_, fun hacked => ?_⟩
    · rcases sent_eq with rfl | ⟨hwaits, hfresh, hwrites⟩
      · exact h.decided hphase
      · exact .inr (h.writes hwaits hfresh hwrites)
    · obtain rfl : phase = .acked := hacked
      exact ended.elim
  | moved data _ _ _ phase sent =>
    rcases phase with hp | hp
    · exact hsame sent data.offer (hp ▸ hphase) fun hlive _ => hp ▸ hlive
    · exact hsame sent data.offer hp.2 fun _ _ => hp.1
  | dropped => exact hsame rfl rfl hphase fun hlive _ => hlive
  | opened hwaits hfresh _ _ _ hwrites =>
    exact ⟨nofun, fun _ => .inr (h.writes hwaits hfresh hwrites), nofun⟩
  | accepted _ accepts =>
    exact hsame rfl rfl nofun fun _ hnone => nomatch accepts.offer_eq.symm.trans hnone
  | wrote | finished =>
    unfold commit
    split <;> exact hsame rfl rfl hphase fun hlive _ => hlive
  | acked offer_eq _ _ _ _ _ writes =>
    obtain ⟨payload, bytes, hack, rfl⟩ := writes
    have hopen : s.offer ≠ none := offer_eq ▸ nofun
    obtain ⟨decision, hdecision⟩ := (h.decided hphase).resolve_left fun hnone => hopen hnone.1
    exact ⟨fun hnone => absurd hnone hopen, fun hne => absurd rfl hne,
      fun _ => ⟨decision, s.sent, payload, bytes, hdecision, hack, rfl⟩⟩

theorem Told.of_reach {disk : Disk} (h : Reach (· = init disk) (Step c) s) : s.Told := by
  induction h with
  | init h =>
    subst h
    exact ⟨fun _ _ => rfl, fun _ => .inl ⟨rfl, rfl⟩, nofun⟩
  | @step s _ _ hreach hs ih =>
    by_cases hacked : s.phase = .acked
    · obtain ⟨input, rfl⟩ := acked_stable (counted_of_reach hreach) hacked hs
      exact ⟨ih.fresh, ih.decided, ih.acked⟩
    · exact ih.effect hacked (next_effect hs)

/-- The receiver has sent a `TransferAck` just when it has acknowledged. -/
theorem Told.ackSent_iff (h : s.Told) : s.ackSent = true ↔ s.phase = .acked := by
  by_cases hacked : s.phase = .acked
  · refine iff_of_true ?_ hacked
    obtain ⟨decision, bytes, payload, ack, hdecision, hack, hsent⟩ := h.acked hacked
    have hnext := reads_readFrame .peerClosed (by trivial) hack []
    rw [List.append_nil] at hnext
    rw [ackSent, hsent, reads_readFrame .peerClosed (by trivial) hdecision ack]
    dsimp only
    rw [ackNext, hnext]
    rfl
  · refine iff_of_false ?_ hacked
    rcases h.decided hacked with ⟨-, hsent⟩ | ⟨decision, hdecision⟩
    · rw [ackSent, hsent]
      nofun
    · have hread := reads_readFrame .peerClosed (by trivial) hdecision []
      rw [List.append_nil] at hread
      rw [ackSent, hread]
      nofun

end Receiver

theorem finaliseOutputs_of_written {files : List OutputFile}
    (h : ∀ file ∈ files, file.written = file.expectedSize) (i : Nat) :
    finaliseOutputs {} i files = .ok () := by
  induction files generalizing i with
  | nil => rfl
  | cons file files ih =>
    unfold finaliseOutputs
    rw [if_neg (not_not.mpr (h file List.mem_cons_self))]
    exact ih (fun f hf => h f (List.mem_cons_of_mem _ hf)) (i + 1)

/-! ## The two ends -/

structure Exchange where
  sender : Sender
  receiver : Receiver

inductive ExchangeEvent where
  | sender (e : SenderEvent)
  | receiver (e : ReceiverEvent)

namespace Exchange

/-- One step of either end. Bytes that arrive are the attacker's choice. -/
def next (t : Sending) (c : Receiving) (x : Exchange) : ExchangeEvent → Option Exchange
  | .sender e => (x.sender.next t e).map ({ x with sender := · })
  | .receiver e => (x.receiver.next c e).map ({ x with receiver := · })

def init (t : Sending) (disk : Disk) : Exchange where
  sender := .init t
  receiver := .init disk

def Step (t : Sending) (c : Receiving) (x : Exchange) (e : ExchangeEvent) (x' : Exchange) : Prop :=
  next t c x e = some x'

/-- The channel delivers a `TransferAck` to the sender only if the receiver has sent one. -/
def Confirmed (x : Exchange) : ExchangeEvent → Prop
  | .sender e => x.sender.ReadsAck e → x.receiver.ackSent = true
  | .receiver _ => True

instance (x : Exchange) : (e : ExchangeEvent) → Decidable (x.Confirmed e)
  | .sender e => inferInstanceAs (Decidable (x.sender.ReadsAck e → x.receiver.ackSent = true))
  | .receiver _ => inferInstanceAs (Decidable True)

end Exchange

/-- The receiver has the sender's offer, and `finalise_outputs` passed on every file of it. -/
structure Finalised (t : Sending) (c : Receiving) (r : Receiver) : Prop where
  acked : r.phase = .acked
  offer : r.offer = some t.offer
  outputs : Receiver.OutputsOf c t.offer r.files
  finalised : ∃ calls, finaliseOutputs calls 0 r.files = .ok ()

open Receiver in
/-- A receiver that acknowledged has finalised the sender's manifest. -/
theorem finalised_of_acked {t : Sending} {c : Receiving} (hsession : Session t c) {disk : Disk}
    {r : Receiver} (hreach : Reach (· = Receiver.init disk) (Receiver.Step c) r)
    (hacked : r.phase = .acked) : Finalised t c r := by
  have hcounted := counted_of_reach hreach
  have hclean := clean_of_acked hreach hacked
  have hoffer : r.offer = some t.offer := by
    cases ho : r.offer with
    | none => exact absurd hacked (hcounted.fresh_phase ho)
    | some offer => rw [(Authentic.of_reach hsession hreach hclean).offer offer ho]
  exact ⟨hacked, hoffer, hcounted.outputs _ hoffer, {},
    finaliseOutputs_of_written (hcounted.acked hacked).2 0⟩

namespace Exchange

variable {t : Sending} {c : Receiving} {disk : Disk} {x x' : Exchange}

theorem reach_receiver (h : Reach (· = init t disk) (Step t c) x) :
    Reach (· = Receiver.init disk) (Receiver.Step c) x.receiver := by
  induction h with
  | init h =>
    cases h
    exact .init rfl
  | @step x x' e _ hs ih =>
    cases e with
    | sender e =>
      obtain ⟨s, -, rfl⟩ := Option.map_eq_some_iff.mp hs
      exact ih
    | receiver e =>
      obtain ⟨r, hr, rfl⟩ := Option.map_eq_some_iff.mp hs
      exact .step ih hr

/-- A confirmed step keeps it that a sender that returned has a receiver that acknowledged. -/
theorem acked_step {e : ExchangeEvent} (hreach : Reach (· = Receiver.init disk) (Receiver.Step c) x.receiver)
    (hs : Step t c x e x') (hconfirmed : x.Confirmed e)
    (h : x.sender.phase = .returned → x.receiver.phase = .acked) :
    x'.sender.phase = .returned → x'.receiver.phase = .acked := by
  intro hret
  cases e with
  | sender e =>
    obtain ⟨s, hsend, rfl⟩ := Option.map_eq_some_iff.mp hs
    rcases Sender.next_returned hsend hret with hret | hread
    · exact h hret
    · exact (Receiver.Told.of_reach hreach).ackSent_iff.mp (hconfirmed hread)
  | receiver e =>
    obtain ⟨r, hr, rfl⟩ := Option.map_eq_some_iff.mp hs
    obtain ⟨input, rfl⟩ := Receiver.acked_stable (Receiver.counted_of_reach hreach) (h hret) hr
    exact h hret

end Exchange

open Exchange

/-- In every run in which the sender takes a `TransferAck` only if the receiver has sent one, a sender
that has returned has a receiver that finalised every file of its manifest. A step that takes any other
`TransferAck` leaves a sender that has returned and a receiver that has not acknowledged. -/
theorem returned_of_confirmed (t : Sending) (c : Receiving) (hsession : Session t c) (disk : Disk) :
    (∀ x, Reach (· = Exchange.init t disk) (fun x e x' => Step t c x e x' ∧ x.Confirmed e) x →
      x.sender.phase = .returned → Finalised t c x.receiver) ∧
    ∀ x e x', Reach (· = Exchange.init t disk) (Step t c) x → Step t c x e x' → ¬ x.Confirmed e →
      x'.sender.phase = .returned ∧ x'.receiver.phase ≠ .acked := by
  constructor
  · intro x hreach hret
    have hall := hreach.mono fun _ _ _ hs => hs.1
    refine finalised_of_acked hsession (reach_receiver hall) ?_
    clear hall
    revert hret
    induction hreach with
    | init h =>
      cases h
      intro hret
      cases hret
    | step hreach hs ih =>
      exact acked_step (reach_receiver (hreach.mono fun _ _ _ hs => hs.1)) hs.1 hs.2 ih
  · intro x e x' hreach hs hnot
    cases e with
    | sender e =>
      obtain ⟨s, hsend, rfl⟩ := Option.map_eq_some_iff.mp hs
      have htold := Receiver.Told.of_reach (reach_receiver hreach)
      simp only [Confirmed, Classical.not_imp, htold.ackSent_iff] at hnot
      exact ⟨hnot.1.returned hsend, hnot.2⟩
    | receiver e => exact absurd trivial hnot

/-! ## Two runs -/

/-- The frames that a sender waits for. -/
def replies : Bytes :=
  frameBytes .decision ({ accepted := true, outputDirectory := text "/in" } : TransferDecision).encode
    ++ frameBytes .transferAck []

/-- The sender's steps once these have arrived, for two chunks and one worker. -/
def sendChunks : List SenderEvent :=
  [.arrive replies, .read {}, .submit, .submit, .take, .finish 0 none, .take, .finish 0 none, .drain,
    .consume {}, .write {}, .consume {}, .write {}, .consume {}, .join, .close {}, .read {}]

/-- An attacker who holds no key answers the sender. The sender returns; the receiver has not read a
byte. -/
theorem returned_unreceived :
    ∃ x, Reach (· = Exchange.init clearSending fun _ => []) (Step clearSending clearPeer) x ∧
      x.sender.phase = .returned ∧ x.receiver.phase = .awaitingOffer ∧ x.receiver.offer = none := by
  obtain ⟨x, hx, hphases⟩ : ∃ x ∈ runFrom (Exchange.next clearSending clearPeer)
      (Exchange.init clearSending fun _ => []) ((.begin {} :: sendChunks).map .sender),
      x.sender.phase = .returned ∧ x.receiver.phase = .awaitingOffer ∧ x.receiver.offer = none := by
    decide +kernel
  exact ⟨x, Reach.of_runFrom (.init rfl) hx, hphases⟩

/-- The steps of a run in which the attacker only forwards, the receiver's before the sender's
last. -/
def forwarded : List ExchangeEvent :=
  .sender (.begin {}) :: .receiver (.arrive clearWire) :: (readChunks 2).map .receiver ++
    sendChunks.map .sender

/-- The files arrive and the sender returns. -/
theorem returned_forwarded :
    ∃ x : Exchange, x.sender.phase = .returned ∧ Finalised clearSending clearPeer x.receiver := by
  obtain ⟨x, hx, hret⟩ : ∃ x ∈ runFrom (fun x e => if x.Confirmed e then
      Exchange.next clearSending clearPeer x e else none) (Exchange.init clearSending fun _ => [])
      forwarded, x.sender.phase = .returned := by
    decide +kernel
  have hreach : Reach (· = Exchange.init clearSending fun _ => [])
      (fun x e x' => Step clearSending clearPeer x e x' ∧ x.Confirmed e) x := .of_guarded rfl hx
  exact ⟨x, hret, (returned_of_confirmed clearSending clearPeer clear_session _).1 x hreach hret⟩

end DropZone
