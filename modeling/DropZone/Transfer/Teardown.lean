import DropZone.Transfer.Completeness
import DropZone.Transfer.Deadlock

/-!
# The order of destructors

Jobs refer to local objects of the function that submits them. The pool is declared before these
objects, so its destructor, which waits for the jobs, comes after theirs.

* `Sealing`: `send_encrypted`; `ReceiveScope`: `receive_transfer`, with the objects that jobs use.
* `Sealing.Settled`, `ReceiveScope.Settled`: an exception leaves the loop only when no job is queued or
  running.
* `teardown_order`: in runs with only such exceptions no job is left when an object is destroyed;
  `jobs_left_behind`: in others one is.
-/

namespace DropZone

open LittleEndian System

/-! ## `send_encrypted` -/

/-- The calling thread is outside of the loop that submits and of `drain`. -/
def ProducerPhase.outside : ProducerPhase → Bool
  | .submitting _ | .draining => false
  | .mapping | .totalling | .aborting _ | .joining _ | .dropMappings _ | .dropBuffers _ | .dropEmitter _
  | .stopping _ | .joinWorkers _ | .finished _ => true

/-- The loop that submits has not ended. -/
def ProducerPhase.early : ProducerPhase → Bool
  | .mapping | .submitting _ | .draining => true
  | .totalling | .aborting _ | .joining _ | .dropMappings _ | .dropBuffers _ | .dropEmitter _ | .stopping _
  | .joinWorkers _ | .finished _ => false

/-- An object that jobs refer to is destroyed next. -/
def ProducerPhase.destroys : ProducerPhase → Bool
  | .dropMappings _ | .dropBuffers _ | .dropEmitter _ => true
  | .mapping | .submitting _ | .draining | .totalling | .aborting _ | .joining _ | .stopping _
  | .joinWorkers _ | .finished _ => false

namespace Sealing

variable {p : SealPlan} {s s' : Sealing} {e : SealEvent}

def Alive (s : Sealing) : Prop :=
  s.mappingsAlive = true ∧ s.buffersAlive = true ∧ s.emitterAlive = true

/-- `submit` rethrows only when no job is queued or running. -/
def Settled (s : Sealing) : SealEvent → Prop
  | .submit => s.pool.firstError.isSome = true → s.pool.Idle
  | _ => True

instance (s : Sealing) : (e : SealEvent) → Decidable (s.Settled e)
  | .submit => inferInstanceAs (Decidable (s.pool.firstError.isSome = true → s.pool.Idle))
  | .map _ | .drain | .setTotal | .abort | .join | .drop | .shutdown | .joinWorkers | .wake _ | .encrypt ..
  | .publish _ | .retire _ | .consume _ | .write _ => isTrue trivial

def settledNext (p : SealPlan) (s : Sealing) (e : SealEvent) : Option Sealing :=
  if s.Settled e then s.next p e else none

def SettledStep (p : SealPlan) (s : Sealing) (e : SealEvent) (s' : Sealing) : Prop :=
  s.settledNext p e = some s'

/-- Outside of the loop no job is left, and until its end all objects are there. -/
structure Orderly (s : Sealing) : Prop where
  idle : s.producer.outside = true → s.pool.Idle
  alive : s.producer.early = true → s.Alive
  stopping : s.pool.stopping = s.producer.stops

theorem orderly_init (p : SealPlan) : (init p).Orderly := by
  have h := (inv_init p).stage
  exact ⟨fun _ => h.1, fun _ => ⟨rfl, rfl, rfl⟩, rfl⟩

/-- Only destructors end a life. -/
theorem alive_next (h : s.next p e = some s') (he : e ≠ .drop) : s'.Alive ↔ s.Alive := by
  cases e with
  | drop => exact absurd rfl he
  | wake | retire =>
    obtain ⟨pool, -, rfl⟩ := Option.map_eq_some_iff.mp h
    rfl
  | map | submit | drain | setTotal | abort | join | shutdown | joinWorkers | encrypt | publish | consume
  | write =>
    dsimp only [next] at h
    repeat' split at h
    all_goals cases h
    all_goals rfl

/-- A step of a worker or of the writer. -/
theorem Orderly.keeps (h : s.Orderly) (hproducer : s'.producer = s.producer)
    (hidle : s.pool.Idle → s'.pool.Idle) (halive : s'.Alive ↔ s.Alive)
    (hstopping : s'.pool.stopping = s.pool.stopping) : s'.Orderly := by
  refine ⟨?_, ?_, ?_⟩
  · rw [hproducer]
    exact fun hout => hidle (h.idle hout)
  · rw [hproducer]
    exact fun hin => halive.mpr (h.alive hin)
  · rw [hproducer, hstopping, h.stopping]

theorem Orderly.worker (h : s.Orderly) (hs : Works p s s') (halive : s'.Alive ↔ s.Alive) : s'.Orderly :=
  h.keeps hs.producer hs.idle halive hs.stopping

theorem Orderly.carries (h : s.Orderly) (hs : Carries p s s') (halive : s'.Alive ↔ s.Alive) :
    s'.Orderly :=
  h.keeps hs.producer (fun hidle => hs.pool ▸ hidle) halive (by rw [hs.pool])

theorem orderly_after (hidle : s.pool.Idle) (hearly : s.producer.early = false)
    (hstopping : s.pool.stopping = s.producer.stops) : s.Orderly :=
  ⟨fun _ => hidle, fun h => absurd (hearly.symm.trans h) Bool.false_ne_true, hstopping⟩

theorem orderly_submitFrom {index : Nat} (hproducer : s.producer = submitFrom p index) (halive : s.Alive)
    (hstopping : s.pool.stopping = false) : s.Orderly := by
  unfold submitFrom at hproducer
  split at hproducer
  · refine ⟨fun hout => ?_, fun _ => halive, by rw [hproducer, hstopping]; rfl⟩
    rw [hproducer] at hout
    cases hout
  · refine ⟨fun hout => ?_, fun _ => halive, by rw [hproducer, hstopping]; rfl⟩
    rw [hproducer] at hout
    cases hout

theorem Orderly.map (h : s.Orderly) {fault : Option Failure} (hnext : s.next p (.map fault) = some s') :
    s'.Orderly := by
  dsimp only [next] at hnext
  split at hnext
  · rename_i hphase
    cases hnext
    exact orderly_after (h.idle (by rw [hphase]; rfl)) rfl (h.stopping.trans (by rw [hphase]; rfl))
  · rename_i hphase
    cases hnext
    exact orderly_submitFrom rfl (h.alive (by rw [hphase]; rfl)) (h.stopping.trans (by rw [hphase]; rfl))
  · cases hnext

theorem Orderly.submit (h : s.Orderly) (hsettled : s.Settled .submit)
    (hnext : s.next p .submit = some s') : s'.Orderly := by
  dsimp only [next] at hnext
  split at hnext
  · rename_i index hphase
    have hstopping : s.pool.stopping = false := h.stopping.trans (by rw [hphase]; rfl)
    split at hnext
    · cases hnext
    · rename_i e hsubmit
      cases hnext
      refine orderly_after (hsettled ?_) rfl hstopping
      rw [WorkerPool.submit_error hsubmit]
      rfl
    · rename_i pool hsubmit
      cases hnext
      obtain ⟨-, rfl⟩ := WorkerPool.submit_cases hstopping hsubmit
      exact orderly_submitFrom rfl (h.alive (by rw [hphase]; rfl)) hstopping
  · cases hnext

theorem Orderly.drain (h : s.Orderly) (hnext : s.next p .drain = some s') : s'.Orderly := by
  dsimp only [next] at hnext
  split at hnext
  · rename_i hphase
    have hstopping : s.pool.stopping = false := h.stopping.trans (by rw [hphase]; rfl)
    have hidle : ∀ {pool error}, s.pool.drain = some (pool, error) →
        pool.Idle ∧ pool.stopping = false := by
      intro pool error hdrain
      obtain ⟨hidle | hstop, rfl, -⟩ := WorkerPool.drain_cases hdrain
      · exact ⟨hidle, hstopping⟩
      · rw [hstopping] at hstop
        cases hstop
    split at hnext
    · cases hnext
    · rename_i hdrain
      cases hnext
      exact orderly_after (hidle hdrain).1 rfl (hidle hdrain).2
    · rename_i hdrain
      cases hnext
      exact orderly_after (hidle hdrain).1 rfl (hidle hdrain).2
  · cases hnext

/-- The steps between the loop and `~AeadPool`. -/
theorem Orderly.leave (h : s.Orderly) (hout : s.producer.outside = true)
    (hpool : s'.pool = s.pool) (hearly : s'.producer.early = false)
    (hstops : s'.producer.stops = s.producer.stops) : s'.Orderly :=
  orderly_after (hpool ▸ h.idle hout) hearly (by rw [hpool, hstops, h.stopping])

theorem Orderly.step (h : s.Orderly) (hs : s.SettledStep p e s') : s'.Orderly := by
  obtain ⟨hsettled, hnext⟩ := Option.ite_none_right_eq_some.mp hs
  cases e with
  | wake => exact h.worker (works_wake hnext) (alive_next hnext nofun)
  | encrypt => exact h.worker (works_encrypt hnext) (alive_next hnext nofun)
  | publish => exact h.worker (works_publish hnext) (alive_next hnext nofun)
  | retire =>
    obtain ⟨pool, hpool, rfl⟩ := Option.map_eq_some_iff.mp hnext
    obtain ⟨job, error, hw, rfl⟩ := WorkerPool.retire_cases hpool
    exact h.keeps rfl (fun hidle => absurd hidle (not_idle_of_job hw rfl)) Iff.rfl rfl
  | consume => exact h.carries (carries_consume hnext) (alive_next hnext nofun)
  | write => exact h.carries (carries_write hnext) (alive_next hnext nofun)
  | map fault => exact h.map hnext
  | submit => exact h.submit hsettled hnext
  | drain => exact h.drain hnext
  | setTotal | abort =>
    dsimp only [next] at hnext
    split at hnext
    · rename_i hphase
      cases hnext
      exact h.leave (by rw [hphase]; rfl) rfl rfl (by rw [hphase]; rfl)
    · cases hnext
  | join =>
    dsimp only [next] at hnext
    split at hnext
    · rename_i hphase _
      cases hnext
      exact h.leave (by rw [hphase]; rfl) rfl rfl (by rw [hphase]; rfl)
    · cases hnext
  | drop =>
    dsimp only [next] at hnext
    split at hnext
    case h_4 => cases hnext
    all_goals
      rename_i hphase
      cases hnext
      exact h.leave (by rw [hphase]; rfl) rfl rfl (by rw [hphase]; rfl)
  | shutdown =>
    dsimp only [next] at hnext
    split at hnext
    · rename_i hphase
      cases hnext
      exact orderly_after (h.idle (by rw [hphase]; rfl)) rfl rfl
    · cases hnext
  | joinWorkers =>
    dsimp only [next] at hnext
    split at hnext
    · rename_i hphase
      split at hnext
      · cases hnext
        exact h.leave (by rw [hphase]; rfl) rfl rfl (by rw [hphase]; rfl)
      · cases hnext
    · cases hnext

theorem Orderly.of_reach (h : Reach (· = init p) (SettledStep p) s) : s.Orderly := by
  refine Reach.invariant ?_ (fun _ _ _ h hs => h.step hs) h
  rintro s rfl
  exact orderly_init p

/-- When an object is destroyed or has been, no job is queued or running. -/
theorem Orderly.idle_of_destroys (h : s.Orderly)
    (hdestroys : s.producer.destroys = true ∨ ¬ s.Alive) : s.pool.Idle := by
  refine h.idle ?_
  rcases hdestroys with hdestroys | hdead
  · cases hphase : s.producer <;> rw [hphase] at hdestroys <;> first | rfl | cases hdestroys
  · have hearly : s.producer.early ≠ true := fun hearly => hdead (h.alive hearly)
    cases hphase : s.producer <;> rw [hphase] at hearly <;> first | rfl | exact absurd rfl hearly

end Sealing

/-! ## `receive_transfer` -/

/-- How far the destructors of `receive_transfer` are. -/
inductive ScopeStage where
  /-- In the body. -/
  | body
  /-- The scope is left: `plaintext_buffers` is destroyed next, then `ciphertext_buffers`. -/
  | dropPlaintext
  | dropCiphertext
  /-- `~AeadPool` is next. -/
  | stopping
  /-- In `~AeadPool`, joining the workers, which first do what is queued. -/
  | joining
  | gone
  deriving DecidableEq

/-- The destructors have begun and not ended. -/
def ScopeStage.unwinds : ScopeStage → Bool
  | .dropPlaintext | .dropCiphertext | .stopping | .joining => true
  | .body | .gone => false

/-- `receive_transfer` with the objects that jobs refer to. -/
structure ReceiveScope where
  receiver : Receiver
  stage : ScopeStage := .body
  plaintextAlive : Bool := true
  ciphertextAlive : Bool := true

inductive ScopeEvent where
  | run (e : ReceiverEvent)
  /-- The next destructor. -/
  | drop

/-- The step is one of a worker. -/
def ReceiverEvent.ofWorker : ReceiverEvent → Bool
  | .take | .finish .. => true
  | .arrive _ | .lost _ | .read _ | .submit | .drain _ => false

def AeadPool.Idle {J : Type} (pool : AeadPool J) : Prop := pool.queue = [] ∧ pool.active = []

instance {J : Type} [DecidableEq J] (pool : AeadPool J) : Decidable pool.Idle :=
  inferInstanceAs (Decidable (_ ∧ _))

namespace ReceiveScope

/-- One step. After the body only the workers run. -/
def next (c : Receiving) (s : ReceiveScope) : ScopeEvent → Option ReceiveScope
  | .run e =>
    if s.stage = .body ∨ e.ofWorker = true then
      (s.receiver.next c e).map ({ s with receiver := · })
    else none
  | .drop =>
    match s.stage with
    | .body =>
      match s.receiver.phase, s.receiver.offer with
      | .acked, some _ | .failed _, some _ => some { s with stage := .dropPlaintext }
      -- The pool and the buffers were not made yet.
      | .declined, _ | .failed _, none | .acked, none => some { s with stage := .gone }
      | _, _ => none
    | .dropPlaintext => some { s with plaintextAlive := false, stage := .dropCiphertext }
    | .dropCiphertext => some { s with ciphertextAlive := false, stage := .stopping }
    | .stopping => some { s with stage := .joining }
    | .joining =>
      if s.receiver.pool.Idle then some { s with stage := .gone } else none
    | .gone => none

end ReceiveScope

/-- The body was left by an exception. -/
def ReceiverPhase.failed? : ReceiverPhase → Bool
  | .failed _ => true
  | .awaitingOffer | .reading | .submitting _ | .draining | .acked | .declined | .overrun => false

namespace Receiver

variable {c : Receiving} {s s' : Receiver} {e : ReceiverEvent}

/-- An exception leaves the body in this step. -/
def Throws (c : Receiving) (s : Receiver) (e : ReceiverEvent) : Prop :=
  s.phase.failed? = false ∧ ((next c s e).any fun s' => s'.phase.failed?) = true

instance (s : Receiver) (e : ReceiverEvent) : Decidable (s.Throws c e) :=
  inferInstanceAs (Decidable (_ ∧ _))

theorem throws_of_next {f : Failure} (h : next c s e = some s') (hfailed : s'.phase = .failed f)
    (hphase : s.phase.failed? = false) : s.Throws c e := by
  refine ⟨hphase, ?_⟩
  rw [h, Option.any_some, hfailed]
  rfl

theorem pool_orFail {calls : Calls} {type : MessageType} {payload : Bytes} {k : Receiver → Receiver}
    (hk : ∀ t, (k t).pool = t.pool) : (s.orFail (s.write calls type payload) k).pool = s.pool := by
  unfold orFail
  split
  · rename_i t ht
    obtain ⟨sent, rfl, -⟩ := write_ok ht
    exact hk _
  · rfl

theorem pool_start (c : Receiving) (calls : Calls) (offer : TransferOffer) (s : Receiver) :
    (s.start c calls offer).pool = s.pool := by
  unfold start
  split
  · exact pool_orFail fun _ => rfl
  · split
    · rfl
    · split
      · exact pool_orFail fun _ => rfl
      · split
        · rfl
        · exact pool_orFail fun _ => rfl

theorem pool_receiveFrame (calls : Calls) (offer : TransferOffer) (frame : Frame) (s : Receiver) :
    (s.receiveFrame calls offer frame).pool = s.pool := by
  unfold receiveFrame
  dsimp only
  repeat' split
  all_goals first
    | rfl
    | exact (pool_commit ..).1

theorem pool_handle (c : Receiving) (calls : Calls) (frame : Frame) (s : Receiver) :
    (s.handle c calls frame).pool = s.pool := by
  unfold handle
  split
  · split
    · rfl
    · exact pool_start ..
  · exact pool_receiveFrame ..

theorem pool_finalise (c : Receiving) (calls : Calls) (offer : TransferOffer) (s : Receiver) :
    (s.finalise c calls offer).pool = s.pool := by
  unfold finalise
  split
  · rfl
  · split
    · rfl
    · exact pool_orFail fun _ => rfl

/-- The body has been left after the pool was made. -/
def Left (s : Receiver) : Prop := s.phase = .acked ∨ ∃ f, s.phase = .failed f

theorem Waits.not_failed (h : s.Waits) : s.phase.failed? = false := by
  rcases h with h | h <;> rw [h] <;> rfl

theorem Waits.not_left (h : s.Waits) : ¬ s.Left := by
  rintro (hp | ⟨f, hp⟩) <;> rcases h with h | h <;> rw [h] at hp <;> cases hp

/-- The transfer is acknowledged only after `drain`. -/
theorem Waits.not_acked (hwaits : s.Waits) (h : next c s e = some s') : s'.phase ≠ .acked := by
  have hphase : s.phase ≠ .acked := fun hp => hwaits.not_left (.inl hp)
  cases next_effect h with
  | ended hended =>
    rintro rfl
    exact hended
  | moved _ _ _ _ hp =>
    rcases hp with hp | ⟨-, hp⟩
    · rw [hp]
      exact hphase
    · exact hp
  | dropped => exact hphase
  | opened | accepted => nofun
  | wrote =>
    rw [(pool_commit ..).2]
    exact hphase
  | finished =>
    rw [(pool_commit ..).2]
    exact hphase
  | acked _ hdraining =>
    rcases hwaits with hp | hp <;> rw [hp] at hdraining <;> cases hdraining

/-- A worker does not move the thread that reads, except over the end of a buffer. -/
theorem phase_finishJob (c : Receiving) (calls : Calls) (offer : TransferOffer) (i : Nat) (job : OpenJob)
    (s : Receiver) : (s.finishJob c calls offer i job).phase = s.phase ∨
      (s.finishJob c calls offer i job).phase = .overrun := by
  unfold finishJob
  split
  · exact .inr rfl
  · exact .inl rfl
  · split
    · exact .inl rfl
    · exact .inl (pool_commit ..).2

/-- If exceptions leave the body only while the pool is idle, it is idle once the body is left. -/
theorem idle_next (hinv : s.Left → s.pool.Idle) (hsettled : s.Throws c e → s.pool.Idle)
    (h : next c s e = some s') (hleft : s'.Left) : s'.pool.Idle := by
  have hnext := h
  unfold next at h
  split at h
  · cases h
  · cases e with
    | arrive bytes =>
      cases h
      exact hinv hleft
    | lost f =>
      dsimp only at h
      split at h
      · rename_i hwaits
        cases h
        exact hsettled (throws_of_next hnext rfl hwaits.not_failed)
      · cases h
    | read calls =>
      dsimp only at h
      split at h
      · rename_i hwaits
        have hfailed : ∃ f, s'.phase = .failed f := hleft.resolve_left (hwaits.not_acked hnext)
        obtain ⟨f, hf⟩ := hfailed
        have hidle := hsettled (throws_of_next hnext hf hwaits.not_failed)
        split at h
        · cases h
          rw [pool_handle]
          exact hidle
        · cases h
        · cases h
          exact hidle
      · cases h
    | submit =>
      dsimp only at h
      split at h
      · rename_i job hphase
        split at h
        · cases h
        · cases h
          exact hsettled (throws_of_next hnext rfl (by rw [hphase]; rfl))
        · cases h
          rcases hleft with hp | ⟨f, hp⟩ <;> cases hp
      · cases h
    | take =>
      obtain ⟨pool, hpool, rfl⟩ := Option.map_eq_some_iff.mp h
      have hidle := hinv hleft
      rw [AeadPool.take, hidle.1] at hpool
      cases hpool
    | finish i calls =>
      dsimp only at h
      split at h
      · rename_i job offer hjob _
        cases h
        have hsame : s.Left := by
          rcases phase_finishJob c calls offer i job s with hp | hp
          · rw [Left, hp] at hleft
            exact hleft
          · rw [Left, hp] at hleft
            rcases hleft with hp | ⟨f, hp⟩ <;> cases hp
        rw [(hinv hsame).2] at hjob
        cases hjob
      · cases h
    | drain calls =>
      dsimp only at h
      split at h
      · split at h
        · cases h
        · rename_i hdrain
          cases h
          obtain ⟨rfl, -, hidle⟩ := drain_some hdrain
          exact hidle
        · rename_i hdrain
          cases h
          obtain ⟨rfl, -, hidle⟩ := drain_some hdrain
          rw [pool_finalise]
          exact hidle
      · cases h

end Receiver

namespace ReceiveScope

variable {c : Receiving} {s s' : ReceiveScope} {e : ScopeEvent}

def Alive (s : ReceiveScope) : Prop := s.plaintextAlive = true ∧ s.ciphertextAlive = true

/-- An exception leaves the body only when no job is queued or running. -/
def Settled (c : Receiving) (s : ReceiveScope) : ScopeEvent → Prop
  | .run e => s.receiver.Throws c e → s.receiver.pool.Idle
  | .drop => True

instance (s : ReceiveScope) : (e : ScopeEvent) → Decidable (s.Settled c e)
  | .run e => inferInstanceAs (Decidable (s.receiver.Throws c e → s.receiver.pool.Idle))
  | .drop => isTrue trivial

def settledNext (c : Receiving) (s : ReceiveScope) (e : ScopeEvent) : Option ReceiveScope :=
  if s.Settled c e then s.next c e else none

def SettledStep (c : Receiving) (s : ReceiveScope) (e : ScopeEvent) (s' : ReceiveScope) : Prop :=
  s.settledNext c e = some s'

def Initial (s : ReceiveScope) : Prop := ∃ disk, s = { receiver := .init disk }

/-- An object that jobs refer to is destroyed next. -/
def Destroys (s : ReceiveScope) : Prop := s.stage = .dropPlaintext ∨ s.stage = .dropCiphertext

/-- Once the body is left no job is left, and until then all objects are there. -/
structure Orderly (s : ReceiveScope) : Prop where
  idle : s.receiver.Left → s.receiver.pool.Idle
  left : s.stage.unwinds = true ∨ ¬ s.Alive → s.receiver.Left
  alive : s.stage = .body → s.Alive

theorem next_worker {s : Receiver} {e : ReceiverEvent} (hidle : s.pool.Idle) (he : e.ofWorker = true) :
    s.next c e = none := by
  unfold Receiver.next
  split
  · rfl
  · cases e with
    | take => rw [AeadPool.take, hidle.1]; rfl
    | finish i calls => rw [hidle.2]; rfl
    | arrive | lost | read | submit | drain => cases he

theorem Orderly.run (h : s.Orderly) {e : ReceiverEvent} (hsettled : s.Settled c (.run e))
    (hnext : s.next c (.run e) = some s') : s'.Orderly := by
  rw [next] at hnext
  split at hnext
  · rename_i hwho
    obtain ⟨receiver, hrun, rfl⟩ := Option.map_eq_some_iff.mp hnext
    refine ⟨Receiver.idle_next h.idle hsettled hrun, fun hunwinds => ?_, h.alive⟩
    have hleft := h.left hunwinds
    have hout : s.stage ≠ .body := by
      rintro hbody
      rcases hunwinds with hunwinds | hdead
      · rw [hbody] at hunwinds
        cases hunwinds
      · exact hdead (h.alive hbody)
    rw [next_worker (h.idle hleft) (hwho.resolve_left hout)] at hrun
    cases hrun
  · cases hnext

theorem Orderly.drop (h : s.Orderly) (hnext : s.next c .drop = some s') : s'.Orderly := by
  dsimp only [next] at hnext
  split at hnext
  · rename_i hstage
    have halive := h.alive hstage
    split at hnext
    · rename_i hphase _
      cases hnext
      exact ⟨h.idle, fun _ => .inl hphase, nofun⟩
    · rename_i f _ hphase _
      cases hnext
      exact ⟨h.idle, fun _ => .inr ⟨f, hphase⟩, nofun⟩
    iterate 3
      · cases hnext
        exact ⟨h.idle, fun hunwinds => absurd halive (hunwinds.resolve_left Bool.false_ne_true), nofun⟩
    · cases hnext
  iterate 3
    · rename_i hstage
      cases hnext
      exact ⟨h.idle, fun _ => h.left (.inl (by rw [hstage]; rfl)), nofun⟩
  · rename_i hstage
    split at hnext
    · cases hnext
      exact ⟨h.idle, fun _ => h.left (.inl (by rw [hstage]; rfl)), nofun⟩
    · cases hnext
  · cases hnext

theorem Orderly.of_reach (h : Reach Initial (SettledStep c) s) : s.Orderly := by
  refine Reach.invariant ?_ ?_ h
  · rintro s ⟨disk, rfl⟩
    refine ⟨fun _ => ⟨rfl, rfl⟩, ?_, fun _ => ⟨rfl, rfl⟩⟩
    rintro (hunwinds | hdead)
    · cases hunwinds
    · exact absurd ⟨rfl, rfl⟩ hdead
  · intro s e s' h hs
    obtain ⟨hsettled, hnext⟩ := Option.ite_none_right_eq_some.mp hs
    cases e with
    | run e => exact h.run hsettled hnext
    | drop => exact h.drop hnext

theorem Orderly.idle_of_destroys (h : s.Orderly) (hdestroys : s.Destroys ∨ ¬ s.Alive) :
    s.receiver.pool.Idle := by
  refine h.idle (h.left (hdestroys.imp_left ?_))
  rintro (hstage | hstage) <;> rw [hstage] <;> rfl

end ReceiveScope

/-! ## Both -/

/-- **No job is left when an object that jobs refer to is destroyed, or after that**, in runs in which
an exception leaves the loops only while the pool is idle. -/
theorem teardown_order (p : SealPlan) (c : Receiving) :
    (∀ s, Reach (· = Sealing.init p) (Sealing.SettledStep p) s →
      s.producer.destroys = true ∨ ¬ s.Alive → s.pool.Idle) ∧
    (∀ s, Reach ReceiveScope.Initial (ReceiveScope.SettledStep c) s →
      s.Destroys ∨ ¬ s.Alive → s.receiver.pool.Idle) :=
  ⟨fun _ h => (Sealing.Orderly.of_reach h).idle_of_destroys,
    fun _ h => (ReceiveScope.Orderly.of_reach h).idle_of_destroys⟩

/-- The only chunk is sealed and written, and the function is left. -/
def oneSent : List SealEvent :=
  [.map none, .submit, .wake 0, .encrypt 0 none, .publish 0, .retire 0, .drain, .setTotal, .consume none,
   .write none, .consume none, .join]

/-- The receiver reads two chunks and the end, and returns. -/
def twoReceived : List ScopeEvent :=
  (.arrive (oneByteFrames twoByteOffer [0, 1]) :: readChunks 2).map .run ++ [.drop]

theorem teardown_order_oneSent :
    (∃ s : Sealing, s.producer = .dropMappings none ∧ s.pool.Idle) ∧
    (∃ s : ReceiveScope, s.receiver.phase = .acked ∧ s.stage = .dropPlaintext ∧ s.receiver.pool.Idle) := by
  obtain ⟨s, hs, hphase⟩ : ∃ s ∈ runFrom (Sealing.settledNext Sealing.onePlan)
      (Sealing.init Sealing.onePlan) oneSent, s.producer = .dropMappings none := by decide +kernel
  obtain ⟨r, hr, hstage⟩ : ∃ r ∈ runFrom (ReceiveScope.settledNext (clearReceiving fun _ => true))
      { receiver := .init fun _ => [] } twoReceived,
      r.receiver.phase = .acked ∧ r.stage = .dropPlaintext := by decide +kernel
  have hsent : Reach (· = Sealing.init Sealing.onePlan) (Sealing.SettledStep Sealing.onePlan) s :=
    Reach.of_runFrom (.init rfl) hs
  have hreceived : Reach ReceiveScope.Initial (ReceiveScope.SettledStep (clearReceiving fun _ => true)) r :=
    Reach.of_runFrom (.init ⟨_, rfl⟩) hr
  obtain ⟨hsender, hreceiver⟩ := teardown_order Sealing.onePlan (clearReceiving fun _ => true)
  exact ⟨⟨s, hphase, hsender s hsent (.inl (by rw [hphase]; rfl))⟩,
    ⟨r, hstage.1, hstage.2, hreceiver r hreceived (.inl (.inl hstage.2))⟩⟩

def threePlan : SealPlan where
  length := 3
  payload _ := []
  workers := 1
  workers_pos := Nat.one_pos

/-- The second chunk is queued when the job of the first throws; `submit` rethrows. -/
def queuedThrows : List SealEvent :=
  [.map none, .submit, .wake 0, .submit, .encrypt 0 (some .peerClosed), .retire 0, .submit, .abort,
   .consume none, .join]

/-- A chunk is queued when the peer hangs up. -/
def hangsUp : List ScopeEvent :=
  [.run (.arrive (oneByteFrames twoByteOffer [0])), .run (.read {}), .run (.read {}), .run .submit,
   .run (.lost .peerClosed), .drop]

/-- **A job is queued while the objects that it refers to are destroyed**, in `send_encrypted` after a
job has thrown, and in `receive_transfer` after the peer has hung up. -/
theorem jobs_left_behind :
    (∃ s, runFrom (Sealing.next threePlan) (Sealing.init threePlan) queuedThrows = some s ∧
      s.producer.destroys = true ∧ ¬ s.pool.Idle) ∧
    (∃ s, runFrom (ReceiveScope.next (clearReceiving fun _ => true)) { receiver := .init fun _ => [] }
        hangsUp = some s ∧
      s.Destroys ∧ ¬ s.receiver.pool.Idle) := by
  have hsend : ∃ s ∈ runFrom (Sealing.next threePlan) (Sealing.init threePlan) queuedThrows,
      s.producer.destroys = true ∧ ¬ s.pool.Idle := by decide +kernel
  have hreceive : ∃ s ∈ runFrom (ReceiveScope.next (clearReceiving fun _ => true))
      { receiver := .init fun _ => [] } hangsUp,
      s.stage = .dropPlaintext ∧ ¬ s.receiver.pool.Idle := by
    decide +kernel
  exact ⟨hsend, hreceive.imp fun s hs => ⟨hs.1, .inl hs.2.1, hs.2.2⟩⟩

end DropZone
