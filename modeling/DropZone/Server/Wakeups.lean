import DropZone.Lib.System
import DropZone.Server.SessionTable

/-!
# The wake pipe of a shard (`server/src/server.cpp`)

`wake_for` pushes a connection under the shard's mutex and then writes a byte into the shard's pipe;
`drain_wake_queue` reads the pipe until nothing comes and then takes the queue. None of these steps is
atomic with another one.

* `WakePipe`: the queue, the pipe, the threads between their push and their write, and the shard.
* `WakePipe.no_lost_wakeup`: what is queued will be looked at: the pipe has a byte, or the shard has
  emptied it and is about to take the queue.
-/

namespace DropZone

open System

/-- Where the shard is in `drain_wake_queue`, and whether a read has left or found the pipe empty. -/
inductive DrainPhase where
  | away
  | reading (emptied : Bool)
  /-- After the loop, before the swap. -/
  | swapping (emptied : Bool)
  deriving DecidableEq

/-- The shard is between emptying the pipe and swapping the queue. -/
def DrainPhase.Emptied : DrainPhase → Bool
  | .away => false
  | .reading emptied | .swapping emptied => emptied

structure WakePipe where
  queue : List ConnId := []
  /-- How many bytes are in the pipe. -/
  pipe : Nat := 0
  /-- The threads in `wake_for` that have pushed and not written. -/
  poking : Nat → Bool := fun _ => false
  phase : DrainPhase := .away

inductive WakeEvent where
  | push (thread : Nat) (c : ConnId)
  /-- `poke`. -/
  | write (thread : Nat)
  /-- `drain_wake_queue` is called. -/
  | drain
  /-- A `read` that gives bytes. -/
  | read
  /-- A `read` that gives none, because the pipe is empty or a signal came. -/
  | stop (interrupted : Bool)
  | swap

namespace WakePipe

/-- One event, if it can happen, with a pipe for `room + 1` bytes. A write into a full pipe fails. -/
def next (room : Nat) (s : WakePipe) : WakeEvent → Option WakePipe
  | .push thread c =>
    if s.poking thread then none
    else some { s with queue := s.queue ++ [c], poking := Function.update s.poking thread true }
  | .write thread =>
    if s.poking thread then
      some { s with
        pipe := if s.pipe < room + 1 then s.pipe + 1 else s.pipe
        poking := Function.update s.poking thread false }
    else none
  | .drain => if s.phase = .away then some { s with phase := .reading false } else none
  | .read =>
    match s.phase with
    | .reading emptied =>
      if s.pipe = 0 then none
      else
        let left := s.pipe - min 256 s.pipe
        some { s with pipe := left, phase := .reading (emptied || left == 0) }
    | _ => none
  | .stop interrupted =>
    match s.phase with
    | .reading emptied =>
      if s.pipe = 0 then some { s with phase := .swapping true }
      else if interrupted then some { s with phase := .swapping emptied }
      else none
    | _ => none
  | .swap =>
    match s.phase with
    | .swapping _ => some { s with queue := [], phase := .away }
    | _ => none

def Step (room : Nat) (s : WakePipe) (e : WakeEvent) (s' : WakePipe) : Prop := s.next room e = some s'

/-- What is queued has a byte, or will get one, or is about to be taken. -/
def Heard (s : WakePipe) : Prop :=
  s.queue = [] ∨ (∃ thread, s.poking thread = true) ∨ 0 < s.pipe ∨ s.phase.Emptied = true

variable {room : Nat} {s s' : WakePipe} {e : WakeEvent}

theorem Heard.step (hs : s.Heard) (h : s.Step room e s') : s'.Heard := by
  unfold Step at h
  cases e with
  | push thread c =>
    dsimp only [next] at h
    split at h
    · cases h
    · cases h
      exact .inr (.inl ⟨thread, Function.update_self ..⟩)
  | write thread =>
    dsimp only [next] at h
    split at h
    · cases h
      refine .inr (.inr (.inl ?_))
      dsimp only
      split <;> omega
    · cases h
  | drain =>
    dsimp only [next] at h
    split at h
    · rename_i haway
      cases h
      refine hs.imp_right (.imp_right (.imp_right fun hemptied => ?_))
      rw [haway] at hemptied
      cases hemptied
    · cases h
  | read =>
    dsimp only [next] at h
    split at h
    · rename_i emptied hphase
      split at h
      · cases h
      · cases h
        refine hs.imp_right (.imp_right fun hheard => ?_)
        by_cases hleft : s.pipe - min 256 s.pipe = 0
        · exact .inr (by simp [DrainPhase.Emptied, hleft])
        · exact .inl (Nat.pos_of_ne_zero hleft)
    · cases h
  | stop interrupted =>
    dsimp only [next] at h
    split at h
    · rename_i emptied hphase
      split at h
      · cases h
        exact .inr (.inr (.inr rfl))
      · split at h
        · cases h
          refine hs.imp_right (.imp_right (.imp_right fun hemptied => ?_))
          rwa [hphase] at hemptied
        · cases h
    · cases h
  | swap =>
    dsimp only [next] at h
    split at h
    · cases h
      exact .inl rfl
    · cases h

/-- **No wake-up is lost.** In every run, when something is queued and no thread is between its push and
its write, the pipe holds a byte or the shard has emptied it and has not yet taken the queue. -/
theorem no_lost_wakeup (h : Reach (· = {}) (Step room) s) (hqueue : s.queue ≠ [])
    (hnone : ∀ thread, s.poking thread = false) : 0 < s.pipe ∨ s.phase.Emptied = true := by
  have hheard : s.Heard := h.invariant (fun _ hinit => .inl (by rw [hinit])) fun _ _ _ hs hstep => hs.step hstep
  rcases hheard with hempty | ⟨thread, hpoking⟩ | hheard
  · exact absurd hempty hqueue
  · exact absurd hpoking (by rw [hnone]; decide)
  · exact hheard

/-- A push while the shard reads, whose byte does not fit into the pipe. -/
theorem no_lost_wakeup_full : ∃ s : WakePipe, s.queue = [5, 6] ∧ (0 < s.pipe ∨ s.phase.Emptied = true) := by
  let run := runFrom (next 0) {} [.push 1 5, .write 1, .drain, .push 2 6, .write 2, .read]
  obtain ⟨s, hs, hqueue, hnone⟩ : ∃ s, run = some s ∧ s.queue = [5, 6] ∧ ∀ thread, s.poking thread = false := by
    refine ⟨_, rfl, rfl, fun thread => ?_⟩
    simp [Function.update_apply]
  exact ⟨s, hqueue, no_lost_wakeup (.of_runFrom (.init rfl) hs) (by simp [hqueue]) hnone⟩

end WakePipe

end DropZone
