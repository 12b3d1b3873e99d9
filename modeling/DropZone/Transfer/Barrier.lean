import DropZone.Lib.System
import DropZone.Transfer.Workers

/-!
# What a drained pool has done (`common/src/aead_pool.cpp`)

One thread submits jobs and drains the pool, while the workers take the jobs, run them, and say how they
ended. A job is named by its number: how many were accepted before it.

* `PoolRun`: the pool and what it does not keep: which jobs have ended, and what was thrown and recorded
  since the last `drain`.
* `drain_is_barrier`: a `drain` that returns finds every job ended and none that threw; after a failure
  was recorded nothing is accepted, and the next `drain` throws that failure.
-/

namespace DropZone

open System

structure PoolRun where
  pool : WorkerPool Nat
  /-- How many jobs `submit` has put in the queue. -/
  accepted : Nat := 0
  /-- The jobs that have returned or thrown. -/
  finished : List Nat := []
  /-- The jobs that have thrown since the last `drain`. -/
  threw : List Nat := []
  /-- The failures that were recorded since the last `drain`, in order. -/
  recorded : List Failure := []

inductive PoolEvent where
  | submit
  | drain
  | shutdown
  /-- A worker at its wait goes on. -/
  | wake (w : Nat)
  /-- The job of a worker returns or throws. -/
  | finish (w : Nat) (error : Option Failure)
  /-- A worker takes the mutex after its job. -/
  | retire (w : Nat)

namespace PoolRun

/-- One event, if it can happen, in a pool whose queue was made for `depth` jobs. -/
def next (depth : Nat) (s : PoolRun) : PoolEvent → Option PoolRun
  | .submit =>
    match s.pool.submit (if depth = 0 then 1 else depth) s.accepted with
    | none => none
    | some (.error _) => some s
    | some (.ok pool) =>
      some { s with pool := pool, accepted := if s.pool.stopping then s.accepted else s.accepted + 1 }
  | .drain => s.pool.drain.map fun r => { s with pool := r.1, threw := [], recorded := [] }
  | .shutdown => some { s with pool := s.pool.shutdown }
  | .wake w => (s.pool.wake w).map fun pool => { s with pool := pool }
  | .finish w error =>
    match s.pool.workers[w]? with
    | some (.running job) =>
      some { s with
        pool := s.pool.put w (.ending job error)
        finished := job :: s.finished
        threw := if error.isSome then job :: s.threw else s.threw }
    | _ => none
  | .retire w =>
    match s.pool.workers[w]? with
    | some (.ending _ error) => (s.pool.retire w).map fun pool =>
      { s with pool := pool, recorded := s.recorded ++ error.toList }
    | _ => none

def Step (depth : Nat) (s : PoolRun) (e : PoolEvent) (s' : PoolRun) : Prop := s.next depth e = some s'

def Initial (s : PoolRun) : Prop := ∃ workers, s = { pool := .start workers }

structure Inv (s : PoolRun) : Prop where
  /-- No accepted job is lost. -/
  kept : ∀ job < s.accepted, job ∈ s.pool.queue ∨ .running job ∈ s.pool.workers ∨ job ∈ s.finished
  /-- The pool keeps the first failure. -/
  first : s.pool.firstError = s.recorded.head?
  /-- What was thrown is recorded, or its worker is about to. -/
  told : ∀ job ∈ s.threw, s.recorded ≠ [] ∨ ∃ e, .ending job (some e) ∈ s.pool.workers

variable {depth : Nat} {s s' : PoolRun} {e : PoolEvent} {pool : WorkerPool Nat} {w : Nat}
  {old new worker : Worker Nat}

theorem mem_put (hw : pool.workers[w]? = some old) (h : worker ∈ pool.workers) (hne : worker ≠ old) :
    worker ∈ (pool.put w new).workers := by
  obtain ⟨v, hv⟩ := List.mem_iff_getElem?.mp h
  refine List.mem_of_getElem? (i := v) ?_
  rw [WorkerPool.getElem?_put, if_neg ?_]
  · exact hv
  · rintro ⟨rfl, -⟩
    exact hne (Option.some.inj (hv.symm.trans hw))

theorem mem_put_self (hw : pool.workers[w]? = some old) : new ∈ (pool.put w new).workers :=
  List.mem_set (List.getElem?_eq_some_iff.mp hw).1 new

theorem Inv.submit (hs : s.Inv) (h : s.next depth .submit = some s') : s'.Inv := by
  dsimp only [next] at h
  split at h
  · cases h
  · cases h
    exact hs
  · rename_i pool hsubmit
    cases h
    by_cases hstop : s.pool.stopping = true
    · have hsame : pool = s.pool := by
        unfold WorkerPool.submit at hsubmit
        split at hsubmit
        · cases hsubmit
        · rw [if_pos hstop] at hsubmit
          cases hsubmit
          rfl
      subst hsame
      refine ⟨fun job hjob => hs.kept job ?_, hs.first, hs.told⟩
      dsimp only at hjob
      rwa [if_pos hstop] at hjob
    · obtain ⟨-, rfl⟩ := WorkerPool.submit_cases (Bool.eq_false_iff.mpr hstop) hsubmit
      refine ⟨fun job hjob => ?_, hs.first, hs.told⟩
      dsimp only at hjob ⊢
      rw [if_neg hstop] at hjob
      rw [List.mem_append, List.mem_singleton]
      rcases Nat.lt_succ_iff_lt_or_eq.mp hjob with hjob | hjob
      · exact (hs.kept job hjob).imp_left .inl
      · exact .inl (.inr hjob)

theorem Inv.wake (hs : s.Inv) (h : s.pool.wake w = some pool) : { s with pool := pool }.Inv := by
  obtain ⟨hidle, ⟨job, queue, hqueue, rfl⟩ | ⟨-, -, rfl⟩⟩ := WorkerPool.wake_cases h
  · refine ⟨fun job' hjob' => ?_, hs.first, fun job' hjob' => ?_⟩
    · rcases hs.kept job' hjob' with hmem | hmem | hmem
      · rw [hqueue] at hmem
        rcases List.mem_cons.mp hmem with rfl | hmem
        · exact .inr (.inl (mem_put_self hidle))
        · exact .inl hmem
      · exact .inr (.inl (mem_put hidle hmem nofun))
      · exact .inr (.inr hmem)
    · exact (hs.told job' hjob').imp_right fun ⟨e, he⟩ => ⟨e, mem_put hidle he nofun⟩
  · refine ⟨fun job' hjob' => ?_, hs.first, fun job' hjob' => ?_⟩
    · exact (hs.kept job' hjob').imp_right (.imp_left fun hmem => mem_put hidle hmem nofun)
    · exact (hs.told job' hjob').imp_right fun ⟨e, he⟩ => ⟨e, mem_put hidle he nofun⟩

theorem Inv.step (hs : s.Inv) (h : s.Step depth e s') : s'.Inv := by
  unfold Step at h
  cases e with
  | submit => exact hs.submit h
  | drain =>
    obtain ⟨⟨pool, error⟩, hdrain, rfl⟩ := Option.map_eq_some_iff.mp h
    obtain ⟨-, rfl, -⟩ := WorkerPool.drain_cases hdrain
    exact ⟨hs.kept, rfl, nofun⟩
  | shutdown =>
    cases h
    exact ⟨hs.kept, hs.first, hs.told⟩
  | wake w =>
    obtain ⟨pool, hwake, rfl⟩ := Option.map_eq_some_iff.mp h
    exact hs.wake hwake
  | finish w error =>
    dsimp only [next] at h
    split at h
    · rename_i job hw
      cases h
      refine ⟨fun job' hjob' => ?_, hs.first, fun job' hjob' => ?_⟩
      · rcases hs.kept job' hjob' with hmem | hmem | hmem
        · exact .inl hmem
        · by_cases hjob : job' = job
          · exact .inr (.inr (hjob ▸ List.mem_cons_self))
          · exact .inr (.inl (mem_put hw hmem (by simpa using hjob)))
        · exact .inr (.inr (List.mem_cons_of_mem _ hmem))
      · have hold : job' ∈ s.threw → s.recorded ≠ [] ∨
            ∃ e, .ending job' (some e) ∈ (s.pool.put w (.ending job error)).workers := fun hmem =>
          (hs.told job' hmem).imp_right fun ⟨e, he⟩ => ⟨e, mem_put hw he nofun⟩
        cases error with
        | none => exact hold hjob'
        | some f =>
          rcases List.mem_cons.mp hjob' with rfl | hmem
          · exact .inr ⟨f, mem_put_self hw⟩
          · exact hold hmem
    · cases h
  | retire w =>
    dsimp only [next] at h
    split at h
    · rename_i job error hw
      obtain ⟨pool, hretire, rfl⟩ := Option.map_eq_some_iff.mp h
      obtain ⟨job₁, error₁, hw₁, rfl⟩ := WorkerPool.retire_cases hretire
      cases hw.symm.trans hw₁
      refine ⟨fun job' hjob' => ?_, ?_, fun job' hjob' => ?_⟩
      · exact (hs.kept job' hjob').imp_right (.imp_left fun hmem => mem_put hw hmem nofun)
      · change s.pool.firstError.or error = (s.recorded ++ error.toList).head?
        rw [hs.first, List.head?_append]
        cases error <;> rfl
      · rcases hs.told job' hjob' with hrecorded | ⟨e, he⟩
        · exact .inl (by simp [hrecorded])
        · cases error with
          | some f => exact .inl (by simp)
          | none => exact .inr ⟨e, mem_put hw he (by simp)⟩
    · cases h

/-- **`drain` is a barrier.** In every run: a `drain` that returns from a pool that is not stopped finds
every accepted job ended, and none that threw since the `drain` before. Once a failure is recorded,
`submit` accepts nothing until a `drain`, and that throws the first one. -/
theorem drain_is_barrier (h : Reach Initial (Step depth) s) :
    (∀ pool, s.pool.stopping = false → s.pool.drain = some (pool, none) →
      (∀ job < s.accepted, job ∈ s.finished) ∧ s.threw = []) ∧
    ∀ f rest, s.recorded = f :: rest →
      (∀ job, s.pool.submit (if depth = 0 then 1 else depth) job = some (.error f)) ∧
      ∀ pool error, s.pool.drain = some (pool, error) → error = some f := by
  have hs : s.Inv := h.invariant (fun _ ⟨workers, hw⟩ => hw ▸ ⟨nofun, rfl, nofun⟩)
    fun _ _ _ hs hstep => hs.step hstep
  refine ⟨fun pool hstop hdrain => ?_, fun f rest hrecorded => ?_⟩
  · obtain ⟨hidle, -, hnone⟩ := WorkerPool.drain_cases hdrain
    obtain ⟨hqueue, hworkers⟩ := WorkerPool.idle_iff.mp (hidle.resolve_right (by simp [hstop]))
    have hrecorded : s.recorded = [] := List.head?_eq_none_iff.mp (hs.first.symm.trans hnone.symm)
    have hbusy : ∀ worker ∈ s.pool.workers, worker.job? = none := fun worker hmem =>
      have ⟨w, hw⟩ := List.mem_iff_getElem?.mp hmem
      hworkers w worker hw
    refine ⟨fun job hjob => ?_, List.eq_nil_iff_forall_not_mem.mpr fun job hjob => ?_⟩
    · rcases hs.kept job hjob with hmem | hmem | hmem
      · rw [hqueue] at hmem
        cases hmem
      · cases hbusy _ hmem
      · exact hmem
    · rcases hs.told job hjob with hsome | ⟨e, he⟩
      · exact hsome hrecorded
      · cases hbusy _ he
  · have hfirst : s.pool.firstError = some f := by rw [hs.first, hrecorded]; rfl
    refine ⟨fun job => by rw [WorkerPool.submit, hfirst], fun pool error hdrain => ?_⟩
    exact (WorkerPool.drain_cases hdrain).2.2.trans hfirst

/-- Two workers, of which one throws: the next job is refused and the `drain` throws. -/
theorem drain_is_barrier_throw : ∃ s f rest, Reach Initial (Step 4) s ∧ s.recorded = f :: rest ∧
    s.pool.submit 4 s.accepted = some (.error f) := by
  let run := runFrom (next 4) { pool := .start 2 }
    [.submit, .submit, .wake 0, .wake 1, .finish 1 (some .peerClosed), .retire 1]
  obtain ⟨s, hs, hrecorded⟩ : ∃ s, run = some s ∧ s.recorded = [.peerClosed] :=
    Option.map_eq_some_iff.mp (by decide)
  have hreach : Reach Initial (Step 4) s := .of_runFrom (.init ⟨2, rfl⟩) hs
  exact ⟨s, _, _, hreach, hrecorded, ((drain_is_barrier hreach).2 _ _ hrecorded).1 _⟩

end PoolRun

end DropZone
