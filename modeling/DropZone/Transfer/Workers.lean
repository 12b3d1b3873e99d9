import DropZone.Transfer.Aead

/-!
# The threads of the worker pool (`common/src/aead_pool.cpp`)

`AeadPool` with its worker threads, at the steps that take its mutex. A step that gives none waits.
Every step that can make a wait predicate true notifies the condition variable of those who wait for
it, so a thread waits exactly while its predicate is false.

* `Worker`: where `run_worker` is; `WorkerPool`: the queue, the workers and the flags.
* `WorkerPool.submit`, `drain`, `shutdown`: what the thread that owns the pool calls.
* `WorkerPool.wake`, `put`, `retire`: the steps of `run_worker`.
-/

namespace DropZone

/-- Where a worker thread is. -/
inductive Worker (J : Type) where
  /-- At the wait for work. -/
  | idle
  /-- In `job(aead)`. -/
  | running (job : J)
  /-- The job has returned or thrown; the worker takes the mutex next. -/
  | ending (job : J) (error : Option Failure)
  /-- `run_worker` has returned. -/
  | exited
  deriving DecidableEq

namespace Worker

variable {J : Type}

/-- The job that the worker has and that counts in `active_jobs_`. -/
def job? : Worker J → Option J
  | .running job | .ending job _ => some job
  | .idle | .exited => none

end Worker

structure WorkerPool (J : Type) where
  queue : List J := []
  workers : List (Worker J)
  stopping : Bool := false
  firstError : Option Failure := none
  deriving DecidableEq

namespace WorkerPool

variable {J : Type}

/-- The constructor: at least one worker. -/
def start (workers : Nat) : WorkerPool J where
  workers := List.replicate (if workers = 0 then 1 else workers) .idle

def activeJobs (pool : WorkerPool J) : Nat := pool.workers.countP fun worker => worker.job?.isSome

def Idle (pool : WorkerPool J) : Prop := pool.queue.isEmpty = true ∧ pool.activeJobs = 0

instance (pool : WorkerPool J) : Decidable pool.Idle := inferInstanceAs (Decidable (_ ∧ _))

/-- `submit`. -/
def submit (depth : Nat) (pool : WorkerPool J) (job : J) : Option (Except Failure (WorkerPool J)) :=
  match pool.firstError with
  | some e => some (.error e)
  | none =>
    if pool.stopping then some (.ok pool)
    else if pool.queue.length < depth then some (.ok { pool with queue := pool.queue ++ [job] })
    else none

/-- `drain`. The first failure is thrown, and cleared. -/
def drain (pool : WorkerPool J) : Option (WorkerPool J × Option Failure) :=
  if pool.Idle ∨ pool.stopping = true then some ({ pool with firstError := none }, pool.firstError)
  else none

/-- The first part of `shutdown`. -/
def shutdown (pool : WorkerPool J) : WorkerPool J := { pool with stopping := true }

/-- Every worker can be joined: the second part of `shutdown`. -/
def Exited (pool : WorkerPool J) : Prop := pool.workers.all (fun worker => worker matches .exited) = true

instance (pool : WorkerPool J) : Decidable pool.Exited := inferInstanceAs (Decidable (_ = _))

/-- A worker's own step. -/
def put (pool : WorkerPool J) (w : Nat) (worker : Worker J) : WorkerPool J :=
  { pool with workers := pool.workers.set w worker }

/-- A worker at its wait takes the next job, or returns when the pool stops and nothing is left. -/
def wake (pool : WorkerPool J) (w : Nat) : Option (WorkerPool J) :=
  match pool.workers[w]?, pool.queue with
  | some .idle, job :: queue => some ({ pool with queue := queue }.put w (.running job))
  | some .idle, [] => if pool.stopping then some (pool.put w .exited) else none
  | _, _ => none

/-- A worker whose job has ended says so; the first failure is kept. -/
def retire (pool : WorkerPool J) (w : Nat) : Option (WorkerPool J) :=
  match pool.workers[w]? with
  | some (.ending _ error) =>
    some ({ pool with firstError := pool.firstError.or error }.put w .idle)
  | _ => none

/-! ## What the steps do -/

variable {pool pool' : WorkerPool J} {w : Nat} {worker : Worker J}

theorem getElem?_put (pool : WorkerPool J) (w v : Nat) (worker : Worker J) :
    (pool.put w worker).workers[v]? =
      if w = v ∧ v < pool.workers.length then some worker else pool.workers[v]? := by
  rw [put, List.getElem?_set]
  by_cases hv : w = v
  · subst hv
    by_cases hlt : w < pool.workers.length
    · simp [hlt]
    · simp [hlt]
  · simp [hv]

@[simp] theorem length_put : (pool.put w worker).workers.length = pool.workers.length :=
  List.length_set ..

theorem idle_iff : pool.Idle ↔ pool.queue = [] ∧
    ∀ (w : Nat) (worker : Worker J), pool.workers[w]? = some worker → worker.job? = none := by
  unfold Idle activeJobs
  rw [List.isEmpty_iff, List.countP_eq_zero]
  refine and_congr_right fun _ => ⟨fun h w worker hw => ?_, fun h worker hmem => ?_⟩
  · simpa using h worker (List.mem_of_getElem? hw)
  · obtain ⟨w, hw⟩ := List.mem_iff_getElem?.mp hmem
    simp [h w worker hw]

/-- What a worker at its wait does. -/
theorem wake_cases (h : pool.wake w = some pool') :
    pool.workers[w]? = some .idle ∧
      ((∃ job queue, pool.queue = job :: queue ∧
          pool' = { pool with queue := queue }.put w (.running job)) ∨
        (pool.queue = [] ∧ pool.stopping = true ∧ pool' = pool.put w .exited)) := by
  unfold wake at h
  split at h
  · rename_i job queue hw hqueue
    exact ⟨hw, .inl ⟨job, queue, hqueue, (Option.some_inj.mp h).symm⟩⟩
  · rename_i hw hqueue
    split at h
    · rename_i hstop
      exact ⟨hw, .inr ⟨hqueue, hstop, (Option.some_inj.mp h).symm⟩⟩
    · cases h
  · cases h

theorem retire_cases (h : pool.retire w = some pool') :
    ∃ job error, pool.workers[w]? = some (.ending job error) ∧
      pool' = { pool with firstError := pool.firstError.or error }.put w .idle := by
  unfold retire at h
  split at h
  · rename_i job error hw
    exact ⟨job, error, hw, (Option.some_inj.mp h).symm⟩
  · cases h

theorem submit_cases {depth : Nat} {job : J} (hstop : pool.stopping = false)
    (h : pool.submit depth job = some (.ok pool')) :
    pool.firstError = none ∧ pool' = { pool with queue := pool.queue ++ [job] } := by
  unfold submit at h
  split at h
  · cases h
  · rename_i herror
    rw [if_neg (by rw [hstop]; decide)] at h
    split at h
    · rw [Option.some_inj, Except.ok.injEq] at h
      exact ⟨herror, h.symm⟩
    · cases h

theorem submit_error {depth : Nat} {job : J} {e : Failure}
    (h : pool.submit depth job = some (.error e)) : pool.firstError = some e := by
  unfold submit at h
  split at h
  · rename_i herror
    cases h
    exact herror
  · split at h
    · cases h
    · split at h <;> cases h

theorem submit_eq_none {depth : Nat} {job : J} (h : pool.submit depth job = none) :
    pool.firstError = none ∧ depth ≤ pool.queue.length := by
  unfold submit at h
  split at h
  · cases h
  · rename_i herror
    split at h
    · cases h
    · split at h
      · cases h
      · exact ⟨herror, by omega⟩

theorem drain_of_idle (h : pool.Idle) :
    pool.drain = some ({ pool with firstError := none }, pool.firstError) :=
  if_pos (.inl h)

theorem exited_iff : pool.Exited ↔
    ∀ (w : Nat) (worker : Worker J), pool.workers[w]? = some worker → worker = .exited := by
  unfold Exited
  rw [List.all_eq_true]
  refine ⟨fun h w worker hw => ?_, fun h worker hmem => ?_⟩
  · have hworker := h worker (List.mem_of_getElem? hw)
    cases worker <;> first | rfl | cases hworker
  · obtain ⟨w, hw⟩ := List.mem_iff_getElem?.mp hmem
    rw [h w worker hw]

theorem drain_cases {error : Option Failure} (h : pool.drain = some (pool', error)) :
    (pool.Idle ∨ pool.stopping = true) ∧ pool' = { pool with firstError := none } ∧
      error = pool.firstError := by
  unfold drain at h
  split at h
  · rename_i hidle
    rw [Option.some_inj, Prod.mk.injEq] at h
    exact ⟨hidle, h.1.symm, h.2.symm⟩
  · cases h

end WorkerPool

end DropZone
