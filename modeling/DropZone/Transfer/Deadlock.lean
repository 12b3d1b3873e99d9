import DropZone.Transfer.Sealing

/-!
# When `send_encrypted` cannot hang

A job that throws leaves an index that is never published. If the calling thread has submitted
everything by then, it waits in `drain` for jobs that wait in `publish` for a window that does not move
any more (`Sealing.hangs_after_throw`).

* `Ledger`: what has become of the chunks that left the queue: one of the workers has it, it was
  published, or its job failed.
* `Sealing.InReach`: a failure is recorded before everything is submitted, or all chunks are within the
  window of the failed one.
* `Sealing.no_deadlock`: runs with only such failures never come to a deadlock.
-/

namespace DropZone

open LittleEndian System

/-! ## What became of the chunks -/

/-- Of the chunks below `taken`, each was published, failed, or is held by one worker. -/
structure Ledger (held : Nat → Option Nat) (taken : Nat) (published failed : Nat → Prop) : Prop where
  held_lt : ∀ w i, held w = some i → i < taken
  held_inj : ∀ w w' i, held w = some i → held w' = some i → w = w'
  held_fresh : ∀ w i, held w = some i → ¬ published i
  published_lt : ∀ i, published i → i < taken
  accounted : ∀ i < taken, published i ∨ failed i ∨ ∃ w, held w = some i

namespace Ledger

variable {held : Nat → Option Nat} {taken w i : Nat} {published failed : Nat → Prop}

theorem update_eq_some {v j : Nat} {x : Option Nat} (h : Function.update held w x v = some j) :
    v = w ∧ x = some j ∨ v ≠ w ∧ held v = some j := by
  by_cases hv : v = w
  · subst hv
    rw [Function.update_self] at h
    exact .inl ⟨rfl, h⟩
  · rw [Function.update_of_ne hv] at h
    exact .inr ⟨hv, h⟩

/-- A worker takes the next chunk. -/
theorem take (h : Ledger held taken published failed) (hw : held w = none) :
    Ledger (Function.update held w (some taken)) (taken + 1) published failed where
  held_lt v j hv := by
    rcases update_eq_some hv with ⟨-, hj⟩ | ⟨-, hj⟩
    · cases hj
      exact Nat.lt_succ_self taken
    · exact Nat.lt_succ_of_lt (h.held_lt v j hj)
  held_inj v v' j hv hv' := by
    rcases update_eq_some hv with ⟨rfl, hj⟩ | ⟨-, hj⟩ <;>
      rcases update_eq_some hv' with ⟨rfl, hj'⟩ | ⟨-, hj'⟩
    · rfl
    · cases hj
      exact absurd (h.held_lt v' taken hj') (Nat.lt_irrefl taken)
    · cases hj'
      exact absurd (h.held_lt v taken hj) (Nat.lt_irrefl taken)
    · exact h.held_inj v v' j hj hj'
  held_fresh v j hv hpub := by
    rcases update_eq_some hv with ⟨-, hj⟩ | ⟨-, hj⟩
    · cases hj
      exact absurd (h.published_lt taken hpub) (Nat.lt_irrefl taken)
    · exact h.held_fresh v j hj hpub
  published_lt j hj := Nat.lt_succ_of_lt (h.published_lt j hj)
  accounted j hj := by
    rcases Nat.lt_succ_iff_lt_or_eq.mp hj with hj | rfl
    · rcases h.accounted j hj with hpub | hfail | ⟨v, hv⟩
      · exact .inl hpub
      · exact .inr (.inl hfail)
      · have hne : v ≠ w := by
          rintro rfl
          rw [hw] at hv
          cases hv
        exact .inr (.inr ⟨v, by rw [Function.update_of_ne hne, hv]⟩)
    · exact .inr (.inr ⟨w, Function.update_self ..⟩)

/-- A worker gives up its chunk, to one of the two heaps. -/
theorem release (h : Ledger held taken published failed) (hw : held w = some i)
    {published' failed' : Nat → Prop} (hpub : ∀ j, published' j → published j ∨ j = i)
    (hkeep : ∀ j, published j → published' j) (hfail : ∀ j, failed j → failed' j)
    (hi : published' i ∨ failed' i) : Ledger (Function.update held w none) taken published' failed' where
  held_lt v j hv := by
    rcases update_eq_some hv with ⟨-, hj⟩ | ⟨-, hj⟩
    · cases hj
    · exact h.held_lt v j hj
  held_inj v v' j hv hv' := by
    rcases update_eq_some hv with ⟨-, hj⟩ | ⟨-, hj⟩
    · cases hj
    · rcases update_eq_some hv' with ⟨-, hj'⟩ | ⟨-, hj'⟩
      · cases hj'
      · exact h.held_inj v v' j hj hj'
  held_fresh v j hv hj := by
    rcases update_eq_some hv with ⟨-, hj'⟩ | ⟨hne, hj'⟩
    · cases hj'
    · rcases hpub j hj with hj | rfl
      · exact h.held_fresh v j hj' hj
      · exact hne (h.held_inj v w j hj' hw)
  published_lt j hj := by
    rcases hpub j hj with hj | rfl
    · exact h.published_lt j hj
    · exact h.held_lt w j hw
  accounted j hj := by
    rcases h.accounted j hj with hpub | hfailed | ⟨v, hv⟩
    · exact .inl (hkeep j hpub)
    · exact .inr (.inl (hfail j hfailed))
    · by_cases hvw : v = w
      · subst hvw
        cases Option.some_inj.mp (hv.symm.trans hw)
        exact hi.imp id .inl
      · exact .inr (.inr ⟨v, by rw [Function.update_of_ne hvw, hv]⟩)

end Ledger

/-! ## The invariant -/

def SealTask.index : SealTask → Nat
  | .sealing index | .publishing index => index

/-- The chunk that a worker has and has not published. -/
def Worker.unpublished : Worker SealTask → Option Nat
  | .running job => some job.index
  | .ending job (some _) => some job.index
  | .ending _ none | .idle | .exited => none

/-- The destructor of the pool has begun. -/
def ProducerPhase.stops : ProducerPhase → Bool
  | .joinWorkers _ | .finished _ => true
  | .mapping | .submitting _ | .draining | .totalling | .aborting _ | .joining _ | .dropMappings _
  | .dropBuffers _ | .dropEmitter _ | .stopping _ => false

namespace Sealing

variable {p : SealPlan} {s s' : Sealing}
variable {fault : Option Failure} {worker : Worker SealTask} {job : SealTask}

/-- The chunk that worker `w` has and has not published. -/
def held (workers : List (Worker SealTask)) (w : Nat) : Option Nat :=
  workers[w]?.bind Worker.unpublished

/-- `submitted` chunks went to the queue, in order, and `taken` of them left it. -/
structure Flow (p : SealPlan) (submitted taken : Nat) (published failed : Nat → Prop) (s : Sealing) :
    Prop where
  queue : s.pool.queue = (List.range' taken (submitted - taken)).map .sealing
  taken_le : taken ≤ submitted
  ledger : Ledger (held s.pool.workers) taken published failed
  holds : s.emitter.Holds p.payload published
  slots : s.emitter.slots.length = p.slots
  blamed : ∀ i, failed i → s.pool.firstError.isSome = true

def Clean (s : Sealing) : Prop := s.emitter.error = none

/-- The writer has started. It ends with an error only if it has handed it on, and without one only
when the total is known. -/
structure Writes (s : Sealing) : Prop where
  started : s.writer ≠ .notStarted
  failed : ∀ e, s.writer = .done (some e) → ¬ s.Clean
  ended : s.writer = .done none → s.emitter.total.isSome = true

/-- Everything has been published. -/
def Complete (p : SealPlan) (s : Sealing) : Prop :=
  ∃ published, s.emitter.Holds p.payload published ∧ ∀ i < p.length, published i

/-- What holds at each point of the calling thread. -/
def Stage (p : SealPlan) (s : Sealing) : Prop :=
  match s.producer with
  | .mapping => s.pool.Idle ∧ s.writer = .notStarted ∧ s.Clean ∧ s.emitter.total = none ∧
      ∃ taken published failed, s.Flow p 0 taken published failed
  | .submitting i => i < p.length ∧ s.Writes ∧
      (s.Clean → s.emitter.total = none ∧ ∃ taken published failed, s.Flow p i taken published failed)
  | .draining => s.Writes ∧
      (s.Clean → s.emitter.total = none ∧ ∃ taken published failed,
        s.Flow p p.length taken published failed ∧ ∀ i, failed i → p.length ≤ i + p.slots)
  | .totalling => s.Writes ∧ s.pool.Idle ∧ (s.Clean → s.Complete p)
  | .aborting _ => s.Writes
  | .joining none => s.Writes ∧ s.pool.Idle ∧
      (s.Clean → s.Complete p ∧ s.emitter.total = some p.length)
  | .joining (some _) => s.Writes ∧ ¬ s.Clean
  | .dropMappings _ | .dropBuffers _ | .dropEmitter _ | .stopping _ | .joinWorkers _ | .finished _ =>
    s.Clean → s.pool.Idle

structure Inv (p : SealPlan) (s : Sealing) : Prop where
  workers : s.pool.workers.length = p.workers
  exited : ∀ w : Nat, s.pool.workers[w]? = some .exited → s.producer.stops = true
  stopping : s.pool.stopping = s.producer.stops
  stage : s.Stage p

/-! ## The chunks under each step -/

section Flow

variable {submitted taken w : Nat} {published failed : Nat → Prop}

theorem held_eq {workers : List (Worker SealTask)}
    (hw : workers[w]? = some worker) : held workers w = worker.unpublished := by
  rw [held, hw]
  rfl

theorem held_set {workers : List (Worker SealTask)} {old : Worker SealTask}
    (hw : workers[w]? = some old) (worker : Worker SealTask) :
    held (workers.set w worker) = Function.update (held workers) w worker.unpublished := by
  have hlt : w < workers.length := (List.getElem?_eq_some_iff.mp hw).1
  funext v
  by_cases hv : v = w
  · subst hv
    rw [held, List.getElem?_set_self hlt, Function.update_self]
    rfl
  · rw [held, List.getElem?_set_ne (Ne.symm hv), Function.update_of_ne hv]
    rfl

theorem Flow.goOn (h : s.Flow p submitted taken published failed) {old worker : Worker SealTask}
    (hw : s.pool.workers[w]? = some old) (hsame : worker.unpublished = old.unpublished) :
    Flow p submitted taken published failed { s with pool := s.pool.put w worker } := by
  refine ⟨h.queue, h.taken_le, ?_, h.holds, h.slots, h.blamed⟩
  have hheld : held (s.pool.workers.set w worker) = held s.pool.workers := by
    rw [held_set hw, hsame, ← held_eq hw, Function.update_eq_self]
  exact hheld.symm ▸ h.ledger

theorem Flow.wake (h : s.Flow p submitted taken published failed)
    {queue : List SealTask} (hw : s.pool.workers[w]? = some .idle) (hqueue : s.pool.queue = job :: queue) :
    Flow p submitted (taken + 1) published failed
      { s with pool := { s.pool with queue := queue }.put w (.running job) } := by
  have hrange := h.queue
  have hle := h.taken_le
  obtain ⟨n, hn⟩ : ∃ n, submitted - taken = n + 1 := by
    cases hn : submitted - taken with
    | zero =>
      rw [hn, hqueue] at hrange
      cases hrange
    | succ n => exact ⟨n, rfl⟩
  rw [hqueue, hn, List.range'_succ, List.map_cons, List.cons.injEq] at hrange
  refine ⟨?_, by omega, ?_, h.holds, h.slots, h.blamed⟩
  · rw [show submitted - (taken + 1) = n by omega]
    exact hrange.2
  · rw [hrange.1]
    exact held_set hw _ ▸ h.ledger.take (held_eq hw)

theorem Flow.publish (h : s.Flow p submitted taken published failed) {i : Nat}
    (hw : s.pool.workers[w]? = some (.running (.publishing i)))
    (hlt : i < s.emitter.nextToConsume + s.emitter.slots.length) :
    Flow p submitted taken (fun j => published j ∨ j = i) failed
      { s with
        emitter := { s.emitter with
          slots := s.emitter.slots.set (i % s.emitter.slots.length) (some (p.payload i)) }
        pool := s.pool.put w (.ending (.publishing i) none) } := by
  have hheld : held s.pool.workers w = some i := held_eq hw
  have hnext : s.emitter.nextToConsume ≤ i := by
    by_contra hgt
    exact h.ledger.held_fresh w i hheld (h.holds.consumed i (by omega))
  refine ⟨h.queue, h.taken_le, ?_, h.holds.publish hnext hlt, ?_, h.blamed⟩
  · exact held_set hw _ ▸ h.ledger.release hheld (fun j hj => hj) (fun j hj => .inl hj)
      (fun j hj => hj) (.inl (.inr rfl))
  · rw [List.length_set]
    exact h.slots

theorem Flow.fail (h : s.Flow p submitted taken published failed) {e : Failure}
    (hw : s.pool.workers[w]? = some (.ending job (some e))) :
    Flow p submitted taken published (fun j => failed j ∨ j = job.index)
      { s with pool := { s.pool with firstError := s.pool.firstError.or (some e) }.put w .idle } := by
  refine ⟨h.queue, h.taken_le, ?_, h.holds, h.slots, fun _ _ => ?_⟩
  · exact held_set hw _ ▸ h.ledger.release (held_eq hw) (fun j hj => .inl hj) (fun j hj => hj)
      (fun j hj => .inl hj) (.inr (.inr rfl))
  · simp [WorkerPool.put]

/-- A chunk joins the queue. -/
theorem Flow.submit (h : s.Flow p submitted taken published failed) {producer : ProducerPhase} :
    Flow p (submitted + 1) taken published failed
      { s with pool := { s.pool with queue := s.pool.queue ++ [.sealing submitted] }
               producer := producer } := by
  have hle := h.taken_le
  refine ⟨?_, by omega, h.ledger, h.holds, h.slots, h.blamed⟩
  dsimp only
  rw [h.queue, show submitted + 1 - taken = (submitted - taken) + 1 by omega, List.range'_1_concat,
    List.map_append, List.map_singleton, show taken + (submitted - taken) = submitted by omega]

/-- With nothing queued or running and no failure, everything submitted was published. -/
theorem Flow.complete (h : s.Flow p p.length taken published failed) (hidle : s.pool.Idle)
    (hclean : s.pool.firstError = none) : s.Complete p := by
  obtain ⟨hqueue, hjobs⟩ := WorkerPool.idle_iff.mp hidle
  have htaken : taken = p.length := by
    have hlen := congrArg List.length h.queue
    have hle := h.taken_le
    rw [hqueue] at hlen
    simp at hlen
    omega
  refine ⟨published, h.holds, fun i hi => ?_⟩
  rcases h.ledger.accounted i (htaken ▸ hi) with hpub | hfail | ⟨w, hw⟩
  · exact hpub
  · have hsome := h.blamed i hfail
    rw [hclean] at hsome
    cases hsome
  · obtain ⟨worker, hworker, hun⟩ := Option.bind_eq_some_iff.mp hw
    have hnone := hjobs w worker hworker
    cases worker <;> cases hnone <;> cases hun

end Flow

/-! ## Steps -/

/-- A failure is recorded before everything is submitted, or the emitter was aborted, or all chunks
are within the window of the failed one. -/
def InReach (p : SealPlan) (s : Sealing) : SealEvent → Prop
  | .retire w => ∀ job e, s.pool.workers[w]? = some (.ending job (some e)) →
      s.producer = .draining → s.Clean → p.length ≤ job.index + p.slots
  | _ => True

/-- What a step of a worker leaves as it is, and that the chunks stay accounted for. -/
structure Works (p : SealPlan) (s s' : Sealing) : Prop where
  producer : s'.producer = s.producer
  writer : s'.writer = s.writer
  total : s'.emitter.total = s.emitter.total
  error : s'.emitter.error = s.emitter.error
  stopping : s'.pool.stopping = s.pool.stopping
  length : s'.pool.workers.length = s.pool.workers.length
  exited : ∀ w : Nat, s'.pool.workers[w]? = some .exited →
    s.pool.workers[w]? = some .exited ∨ s.pool.stopping = true
  idle : s.pool.Idle → s'.pool.Idle
  flow : ∀ {submitted taken published failed}, s.Clean → s.Flow p submitted taken published failed →
    ∃ taken' published' failed', s'.Flow p submitted taken' published' failed' ∧
      ∀ i, failed' i → failed i ∨ (s.producer = .draining → p.length ≤ i + p.slots)
  complete : s.Complete p → s.pool.Idle → s'.Complete p

theorem Works.clean (h : Works p s s') : s'.Clean ↔ s.Clean := by
  rw [Clean, Clean, h.error]

theorem Works.writes (h : Works p s s') (hw : s.Writes) : s'.Writes where
  started := h.writer ▸ hw.started
  failed e he := by
    rw [h.clean]
    exact hw.failed e (h.writer ▸ he)
  ended he := by
    rw [h.total]
    exact hw.ended (h.writer ▸ he)

theorem Stage.works (h : s.Stage p) (hs : Works p s s') : s'.Stage p := by
  unfold Stage at h ⊢
  rw [hs.producer, hs.total, hs.writer]
  split at h
  · obtain ⟨hidle, hwriter, hclean, htotal, taken, published, failed, hflow⟩ := h
    obtain ⟨taken', published', failed', hflow', -⟩ := hs.flow hclean hflow
    exact ⟨hs.idle hidle, hwriter, hs.clean.mpr hclean, htotal, taken', published', failed', hflow'⟩
  · obtain ⟨hi, hwrites, hstage⟩ := h
    refine ⟨hi, hs.writes hwrites, fun hclean => ?_⟩
    obtain ⟨htotal, taken, published, failed, hflow⟩ := hstage (hs.clean.mp hclean)
    obtain ⟨taken', published', failed', hflow', -⟩ := hs.flow (hs.clean.mp hclean) hflow
    exact ⟨htotal, taken', published', failed', hflow'⟩
  · rename_i hphase
    obtain ⟨hwrites, hstage⟩ := h
    refine ⟨hs.writes hwrites, fun hclean => ?_⟩
    obtain ⟨htotal, taken, published, failed, hflow, hreach⟩ := hstage (hs.clean.mp hclean)
    obtain ⟨taken', published', failed', hflow', hfail⟩ := hs.flow (hs.clean.mp hclean) hflow
    exact ⟨htotal, taken', published', failed', hflow', fun i hi =>
      (hfail i hi).elim (hreach i) fun hlen => hlen hphase⟩
  · obtain ⟨hwrites, hidle, hstage⟩ := h
    exact ⟨hs.writes hwrites, hs.idle hidle, fun hclean =>
      hs.complete (hstage (hs.clean.mp hclean)) hidle⟩
  · exact hs.writes h
  · obtain ⟨hwrites, hidle, hstage⟩ := h
    refine ⟨hs.writes hwrites, hs.idle hidle, fun hclean => ?_⟩
    obtain ⟨hcomplete, htotal⟩ := hstage (hs.clean.mp hclean)
    exact ⟨hs.complete hcomplete hidle, htotal⟩
  · exact ⟨hs.writes h.1, fun hclean => h.2 (hs.clean.mp hclean)⟩
  all_goals exact fun hclean => hs.idle (h (hs.clean.mp hclean))

theorem not_idle_of_job {w : Nat} (hw : s.pool.workers[w]? = some worker)
    (hjob : worker.job?.isSome = true) : ¬ s.pool.Idle := by
  intro hidle
  rw [(WorkerPool.idle_iff.mp hidle).2 w worker hw] at hjob
  cases hjob

theorem exited_put {pool : WorkerPool SealTask} {w v : Nat}
    (h : (pool.put w worker).workers[v]? = some .exited) :
    pool.workers[v]? = some .exited ∨ worker = .exited := by
  rw [WorkerPool.getElem?_put] at h
  split at h
  · exact .inr (Option.some_inj.mp h)
  · exact .inl h

theorem works_goOn {w : Nat} {old worker : Worker SealTask} (hw : s.pool.workers[w]? = some old)
    (hjob : old.job?.isSome = true) (hsame : worker.unpublished = old.unpublished)
    (hexit : worker ≠ .exited) :
    Works p s { s with pool := s.pool.put w worker } where
  producer := rfl
  writer := rfl
  total := rfl
  error := rfl
  stopping := rfl
  length := WorkerPool.length_put
  exited _ hv := (exited_put hv).imp_right fun heq => absurd heq hexit
  idle hidle := absurd hidle (not_idle_of_job hw hjob)
  flow _ hflow := ⟨_, _, _, hflow.goOn hw hsame, fun _ => .inl⟩
  complete _ hidle := absurd hidle (not_idle_of_job hw hjob)

theorem works_wake {w : Nat} (h : s.next p (.wake w) = some s') : Works p s s' := by
  obtain ⟨pool, hpool, rfl⟩ := Option.map_eq_some_iff.mp h
  obtain ⟨hw, ⟨job, queue, hqueue, rfl⟩ | ⟨hqueue, hstop, rfl⟩⟩ := WorkerPool.wake_cases hpool
  · have hbusy : ¬ s.pool.Idle := by
      intro hidle
      rw [(WorkerPool.idle_iff.mp hidle).1] at hqueue
      cases hqueue
    exact ⟨rfl, rfl, rfl, rfl, rfl, WorkerPool.length_put, fun v hv => (exited_put hv).imp_right nofun,
      fun hidle => absurd hidle hbusy, fun _ hflow => ⟨_, _, _, hflow.wake hw hqueue, fun _ => .inl⟩,
      fun _ hidle => absurd hidle hbusy⟩
  · refine ⟨rfl, rfl, rfl, rfl, rfl, WorkerPool.length_put, fun _ _ => .inr hstop, fun hidle => ?_,
      fun _ hflow => ⟨_, _, _, hflow.goOn hw rfl,
      fun _ => .inl⟩, fun hcomplete _ => hcomplete⟩
    rw [WorkerPool.idle_iff] at hidle ⊢
    refine ⟨hidle.1, fun v worker hv => ?_⟩
    rw [WorkerPool.getElem?_put] at hv
    split at hv
    · cases hv
      rfl
    · exact hidle.2 v worker hv

theorem works_encrypt {w : Nat} (h : s.next p (.encrypt w fault) = some s') :
    Works p s s' := by
  dsimp only [next] at h
  split at h
  · rename_i hw
    cases h
    exact works_goOn hw rfl rfl nofun
  · rename_i hw
    cases h
    exact works_goOn hw rfl rfl nofun
  · cases h

theorem works_publish {w : Nat} (h : s.next p (.publish w) = some s') : Works p s s' := by
  dsimp only [next] at h
  split at h
  · rename_i i hw
    have hbusy := not_idle_of_job hw rfl
    cases herror : s.emitter.error with
    | some e =>
      have hpublish : s.emitter.publish i (p.payload i) = some (s.emitter, false) := by
        rw [OrderedEmitter.publish, herror]
      rw [hpublish] at h
      cases h
      exact ⟨rfl, rfl, rfl, rfl, rfl, WorkerPool.length_put,
        fun v hv => (exited_put hv).imp_right nofun, fun hidle => absurd hidle hbusy,
        fun hclean => absurd (herror.symm.trans hclean) (Option.some_ne_none e),
        fun _ hidle => absurd hidle hbusy⟩
    | none =>
      rcases Nat.lt_or_ge i (s.emitter.nextToConsume + s.emitter.slots.length) with hlt | hge
      · rw [OrderedEmitter.publish_some herror hlt] at h
        cases h
        exact ⟨rfl, rfl, rfl, rfl, rfl, WorkerPool.length_put,
          fun v hv => (exited_put hv).imp_right nofun, fun hidle => absurd hidle hbusy,
          fun _ hflow => ⟨_, _, _, hflow.publish hw hlt, fun _ => .inl⟩,
          fun _ hidle => absurd hidle hbusy⟩
      · rw [OrderedEmitter.publish_none herror hge] at h
        cases h
  · cases h

theorem works_retire {w : Nat} (hreach : s.InReach p (.retire w)) (h : s.next p (.retire w) = some s') :
    Works p s s' := by
  obtain ⟨pool, hpool, rfl⟩ := Option.map_eq_some_iff.mp h
  obtain ⟨job, error, hw, rfl⟩ := WorkerPool.retire_cases hpool
  have hbusy := not_idle_of_job hw rfl
  cases error with
  | none =>
    have hsame : s.pool.firstError.or none = s.pool.firstError := Option.or_none
    rw [hsame]
    exact works_goOn hw rfl rfl nofun
  | some e =>
    refine ⟨rfl, rfl, rfl, rfl, rfl, WorkerPool.length_put,
      fun v hv => (exited_put hv).imp_right nofun, fun hidle => absurd hidle hbusy, fun hclean hflow =>
      ⟨_, _, _, hflow.fail hw, ?_⟩, fun _ hidle => absurd hidle hbusy⟩
    rintro i (hi | rfl)
    · exact .inl hi
    · exact .inr fun hphase => hreach job e hw hphase hclean

/-- What a step of the writer leaves as it is. -/
structure Carries (p : SealPlan) (s s' : Sealing) : Prop where
  producer : s'.producer = s.producer
  pool : s'.pool = s.pool
  started : s.writer ≠ .notStarted
  total : s'.emitter.total = s.emitter.total
  slots : s'.emitter.slots.length = s.emitter.slots.length
  clean : s'.Clean → s.Clean
  writes : s.Writes → s'.Writes
  holds : ∀ {published}, s'.Clean → s.emitter.Holds p.payload published →
    s'.emitter.Holds p.payload published

theorem Carries.flow {submitted taken : Nat} {published failed : Nat → Prop} (h : Carries p s s')
    (hclean : s'.Clean) (hflow : s.Flow p submitted taken published failed) :
    s'.Flow p submitted taken published failed := by
  refine ⟨?_, hflow.taken_le, ?_, h.holds hclean hflow.holds, h.slots.trans hflow.slots, ?_⟩
  · rw [h.pool]
    exact hflow.queue
  · rw [h.pool]
    exact hflow.ledger
  · rw [h.pool]
    exact hflow.blamed

theorem Carries.complete (h : Carries p s s') (hclean : s'.Clean) (hs : s.Complete p) :
    s'.Complete p := by
  obtain ⟨published, hholds, hall⟩ := hs
  exact ⟨published, h.holds hclean hholds, hall⟩

theorem Stage.carries (h : s.Stage p) (hs : Carries p s s') : s'.Stage p := by
  unfold Stage at h ⊢
  rw [hs.producer, hs.total, hs.pool]
  split at h
  · exact absurd h.2.1 hs.started
  · obtain ⟨hi, hwrites, hstage⟩ := h
    refine ⟨hi, hs.writes hwrites, fun hclean => ?_⟩
    obtain ⟨htotal, taken, published, failed, hflow⟩ := hstage (hs.clean hclean)
    exact ⟨htotal, taken, published, failed, hs.flow hclean hflow⟩
  · obtain ⟨hwrites, hstage⟩ := h
    refine ⟨hs.writes hwrites, fun hclean => ?_⟩
    obtain ⟨htotal, taken, published, failed, hflow, hreach⟩ := hstage (hs.clean hclean)
    exact ⟨htotal, taken, published, failed, hs.flow hclean hflow, hreach⟩
  · obtain ⟨hwrites, hidle, hstage⟩ := h
    exact ⟨hs.writes hwrites, hidle, fun hclean => hs.complete hclean (hstage (hs.clean hclean))⟩
  · exact hs.writes h
  · obtain ⟨hwrites, hidle, hstage⟩ := h
    refine ⟨hs.writes hwrites, hidle, fun hclean => ?_⟩
    obtain ⟨hcomplete, htotal⟩ := hstage (hs.clean hclean)
    exact ⟨hs.complete hclean hcomplete, htotal⟩
  · exact ⟨hs.writes h.1, fun hclean => h.2 (hs.clean hclean)⟩
  all_goals exact fun hclean => h (hs.clean hclean)

theorem not_clean_abort (s : Sealing) (e : Failure) : (s.emitter.abort e).error ≠ none := by
  rw [OrderedEmitter.abort]
  cases s.emitter.error with
  | none => exact Option.some_ne_none e
  | some e' => exact Option.some_ne_none e'

theorem carries_writerFails (hstarted : s.writer ≠ .notStarted) (e : Failure) :
    Carries p s (s.writerFails e) := by
  have hdirty : ¬ (s.writerFails e).Clean := not_clean_abort s e
  exact ⟨rfl, rfl, hstarted, rfl, rfl, fun hclean => absurd hclean hdirty,
    fun _ => ⟨nofun, fun _ _ => hdirty, nofun⟩, fun hclean => absurd hclean hdirty⟩

theorem carries_write (h : s.next p (.write fault) = some s') :
    Carries p s s' := by
  dsimp only [next] at h
  split at h
  · rename_i hw
    cases h
    exact carries_writerFails (by rw [hw]; nofun) _
  · rename_i hw
    cases h
    exact ⟨rfl, rfl, by rw [hw]; nofun, rfl, rfl, id, fun _ => ⟨nofun, nofun, nofun⟩, fun _ => id⟩
  · cases h

theorem carries_consume (h : s.next p (.consume fault) = some s') :
    Carries p s s' := by
  dsimp only [next] at h
  split at h
  · rename_i hw
    have hstarted : s.writer ≠ .notStarted := by rw [hw]; nofun
    split at h
    · cases h
    · cases h
      exact carries_writerFails hstarted _
    · rename_i emitter chunk hconsume
      cases h
      obtain ⟨herror, -, hemitter⟩ := OrderedEmitter.consume_chunk hconsume
      refine ⟨rfl, rfl, hstarted, ?_, ?_, fun _ => herror, fun _ => ⟨nofun, nofun, nofun⟩, ?_⟩
      · rw [hemitter]
      · rw [hemitter, List.length_set]
      · intro published _ hholds
        obtain ⟨hpub, -, rfl⟩ := hholds.consume_eq hconsume
        exact hholds.consume hpub
    · rename_i emitter hconsume
      obtain ⟨rfl, n, htotal, hn⟩ := OrderedEmitter.consume_end hconsume
      split at h
      · cases h
        exact carries_writerFails hstarted _
      · cases h
        exact ⟨rfl, rfl, hstarted, rfl, rfl, id, fun _ => ⟨nofun, nofun, fun _ => by
          rw [htotal]
          rfl⟩, fun _ => id⟩
  · cases h

/-! ## Every step -/

theorem Inv.works (h : s.Inv p) (hs : Works p s s') : s'.Inv p where
  workers := hs.length.trans h.workers
  exited w hw := by
    rw [hs.producer]
    exact (hs.exited w hw).elim (h.exited w) fun hstop => h.stopping.symm.trans hstop
  stopping := by rw [hs.stopping, hs.producer, h.stopping]
  stage := h.stage.works hs

theorem Inv.carries (h : s.Inv p) (hs : Carries p s s') : s'.Inv p where
  workers := by rw [hs.pool, h.workers]
  exited w hw := by
    rw [hs.producer]
    exact h.exited w (hs.pool ▸ hw)
  stopping := by rw [hs.pool, hs.producer, h.stopping]
  stage := h.stage.carries hs

/-- A step of the calling thread. -/
theorem Inv.calls (h : s.Inv p) (hworkers : s'.pool.workers = s.pool.workers)
    (hstopping : s'.pool.stopping = s'.producer.stops)
    (hstops : s.producer.stops = true → s'.producer.stops = true) (hstage : s'.Stage p) : s'.Inv p where
  workers := by rw [hworkers, h.workers]
  exited w hw := hstops (h.exited w (hworkers ▸ hw))
  stopping := hstopping
  stage := hstage

theorem Inv.callsEarly (h : s.Inv p) (hworkers : s'.pool.workers = s.pool.workers)
    (hstopping : s'.pool.stopping = s.pool.stopping) (hs : s.producer.stops = false)
    (hs' : s'.producer.stops = false) (hstage : s'.Stage p) : s'.Inv p := by
  refine h.calls hworkers ?_ (fun hstops => absurd (hs.symm.trans hstops) Bool.false_ne_true) hstage
  rw [hstopping, h.stopping, hs, hs']

theorem stops_submitFrom (p : SealPlan) (index : Nat) : (submitFrom p index).stops = false := by
  unfold submitFrom
  split <;> rfl

theorem stage_submitFrom {index : Nat} (hindex : index ≤ p.length)
    (hproducer : s.producer = submitFrom p index) (hwrites : s.Writes)
    (hstage : s.Clean → s.emitter.total = none ∧ ∃ taken published failed,
      s.Flow p index taken published failed ∧ (index = p.length → ∀ i, failed i → p.length ≤ i + p.slots)) :
    s.Stage p := by
  unfold submitFrom at hproducer
  split at hproducer
  · rename_i hlt
    rw [Stage, hproducer]
    refine ⟨hlt, hwrites, fun hclean => ?_⟩
    obtain ⟨htotal, taken, published, failed, hflow, -⟩ := hstage hclean
    exact ⟨htotal, taken, published, failed, hflow⟩
  · rename_i hge
    obtain rfl : index = p.length := by omega
    rw [Stage, hproducer]
    refine ⟨hwrites, fun hclean => ?_⟩
    obtain ⟨htotal, taken, published, failed, hflow, hreach⟩ := hstage hclean
    exact ⟨htotal, taken, published, failed, hflow, hreach rfl⟩

theorem Inv.map (h : s.Inv p) (hn : s.next p (.map fault) = some s') :
    s'.Inv p := by
  have hs := h.stage
  dsimp only [next] at hn
  split at hn
  · rename_i hphase
    rw [Stage, hphase] at hs
    cases hn
    exact h.callsEarly rfl rfl (by rw [hphase]; rfl) rfl fun _ => hs.1
  · rename_i hphase
    rw [Stage, hphase] at hs
    obtain ⟨-, -, -, htotal, taken, published, failed, hflow⟩ := hs
    cases hn
    refine h.callsEarly rfl rfl (by rw [hphase]; rfl) (stops_submitFrom p 0) ?_
    refine stage_submitFrom (Nat.zero_le _) rfl ⟨nofun, nofun, nofun⟩ fun _ => ⟨htotal, taken, published,
      failed, ⟨hflow.queue, hflow.taken_le, hflow.ledger, hflow.holds, hflow.slots, hflow.blamed⟩, ?_⟩
    intro hzero i _
    omega
  · cases hn

theorem Inv.submit (h : s.Inv p) (hn : s.next p .submit = some s') : s'.Inv p := by
  have hs := h.stage
  dsimp only [next] at hn
  split at hn
  · rename_i index hphase
    have hstops : s.producer.stops = false := by rw [hphase]; rfl
    rw [Stage, hphase] at hs
    obtain ⟨hi, hwrites, hstage⟩ := hs
    split at hn
    · cases hn
    · cases hn
      exact h.callsEarly rfl rfl hstops rfl ⟨hwrites.started, hwrites.failed, hwrites.ended⟩
    · rename_i pool hsubmit
      cases hn
      obtain ⟨hclean, rfl⟩ := WorkerPool.submit_cases (h.stopping.trans hstops) hsubmit
      refine h.callsEarly rfl rfl hstops (stops_submitFrom p _) ?_
      refine stage_submitFrom hi rfl ⟨hwrites.started, hwrites.failed, hwrites.ended⟩ fun hclean' => ?_
      obtain ⟨htotal, taken, published, failed, hflow⟩ := hstage hclean'
      refine ⟨htotal, taken, published, failed, hflow.submit, fun _ i hfail => ?_⟩
      have hsome := hflow.blamed i hfail
      rw [hclean] at hsome
      cases hsome
  · cases hn

theorem Inv.drain (h : s.Inv p) (hn : s.next p .drain = some s') : s'.Inv p := by
  have hs := h.stage
  dsimp only [next] at hn
  split at hn
  · rename_i hphase
    have hstops : s.producer.stops = false := by rw [hphase]; rfl
    rw [Stage, hphase] at hs
    obtain ⟨hwrites, hstage⟩ := hs
    split at hn
    · cases hn
    · rename_i pool e hdrain
      cases hn
      obtain ⟨-, rfl, -⟩ := WorkerPool.drain_cases hdrain
      exact h.callsEarly rfl rfl hstops rfl ⟨hwrites.started, hwrites.failed, hwrites.ended⟩
    · rename_i pool hdrain
      cases hn
      obtain ⟨hidle | hstop, rfl, hclean⟩ := WorkerPool.drain_cases hdrain
      · refine h.callsEarly rfl rfl hstops rfl ⟨⟨hwrites.started, hwrites.failed, hwrites.ended⟩, hidle,
          fun hclean' => ?_⟩
        obtain ⟨-, taken, published, failed, hflow, -⟩ := hstage hclean'
        exact hflow.complete hidle hclean.symm
      · rw [h.stopping, hstops] at hstop
        cases hstop
  · cases hn

theorem Inv.setTotal (h : s.Inv p) (hn : s.next p .setTotal = some s') : s'.Inv p := by
  have hs := h.stage
  dsimp only [next] at hn
  split at hn
  · rename_i hphase
    rw [Stage, hphase] at hs
    obtain ⟨hwrites, hidle, hstage⟩ := hs
    cases hn
    refine h.callsEarly rfl rfl (by rw [hphase]; rfl) rfl ⟨⟨hwrites.started, hwrites.failed, fun _ => rfl⟩,
      hidle, fun hclean => ⟨?_, rfl⟩⟩
    obtain ⟨published, hholds, hall⟩ := hstage hclean
    exact ⟨published, ⟨hholds.slots_pos, hholds.consumed, hholds.window, hholds.ready, hholds.vacant⟩, hall⟩
  · cases hn

theorem Inv.abort (h : s.Inv p) (hn : s.next p .abort = some s') : s'.Inv p := by
  have hs := h.stage
  dsimp only [next] at hn
  split at hn
  · rename_i e hphase
    rw [Stage, hphase] at hs
    cases hn
    exact h.callsEarly rfl rfl (by rw [hphase]; rfl) rfl
      ⟨⟨hs.started, fun _ _ => not_clean_abort s e, hs.ended⟩, not_clean_abort s e⟩
  · cases hn

theorem Inv.join (h : s.Inv p) (hn : s.next p .join = some s') : s'.Inv p := by
  have hs := h.stage
  dsimp only [next] at hn
  split at hn
  · rename_i error _ hphase _
    rw [Stage, hphase] at hs
    cases hn
    refine h.callsEarly rfl rfl (by rw [hphase]; rfl) rfl ?_
    cases error with
    | none => exact fun _ => hs.2.1
    | some e => exact fun hclean => absurd hclean hs.2
  · cases hn

theorem Inv.drop (h : s.Inv p) (hn : s.next p .drop = some s') : s'.Inv p := by
  have hs := h.stage
  dsimp only [next] at hn
  split at hn
  case h_4 => cases hn
  all_goals
    rename_i hphase
    rw [Stage, hphase] at hs
    cases hn
    exact h.callsEarly rfl rfl (by rw [hphase]; rfl) rfl hs

theorem Inv.shutdown (h : s.Inv p) (hn : s.next p .shutdown = some s') : s'.Inv p := by
  have hs := h.stage
  dsimp only [next] at hn
  split at hn
  · rename_i hphase
    rw [Stage, hphase] at hs
    cases hn
    exact h.calls rfl rfl (fun _ => rfl) hs
  · cases hn

theorem Inv.joinWorkers (h : s.Inv p) (hn : s.next p .joinWorkers = some s') : s'.Inv p := by
  have hs := h.stage
  dsimp only [next] at hn
  split at hn
  · rename_i hphase
    rw [Stage, hphase] at hs
    split at hn
    · cases hn
      exact h.calls rfl (h.stopping.trans (by rw [hphase]; rfl)) (fun _ => rfl) hs
    · cases hn
  · cases hn

theorem Inv.step (h : s.Inv p) {e : SealEvent} (hreach : s.InReach p e) (hn : s.next p e = some s') :
    s'.Inv p := by
  cases e with
  | map => exact h.map hn
  | submit => exact h.submit hn
  | drain => exact h.drain hn
  | setTotal => exact h.setTotal hn
  | abort => exact h.abort hn
  | join => exact h.join hn
  | drop => exact h.drop hn
  | shutdown => exact h.shutdown hn
  | joinWorkers => exact h.joinWorkers hn
  | wake => exact h.works (works_wake hn)
  | encrypt => exact h.works (works_encrypt hn)
  | publish => exact h.works (works_publish hn)
  | retire => exact h.works (works_retire hreach hn)
  | consume => exact h.carries (carries_consume hn)
  | write => exact h.carries (carries_write hn)

theorem inv_init (p : SealPlan) : (init p).Inv p := by
  have hpos : p.workers ≠ 0 := Nat.pos_iff_ne_zero.mp p.workers_pos
  have hworkers : (init p).pool.workers = List.replicate p.workers .idle := by
    simp [init, WorkerPool.start, hpos]
  have hidle : ∀ (w : Nat) (worker : Worker SealTask), (init p).pool.workers[w]? = some worker →
      worker = .idle := by
    intro w worker hw
    rw [hworkers] at hw
    exact List.eq_of_mem_replicate (List.mem_of_getElem? hw)
  have hheld : held (init p).pool.workers = fun _ => none := by
    funext w
    rw [held]
    cases hw : (init p).pool.workers[w]? with
    | none => rfl
    | some worker =>
      rw [hidle w worker hw]
      rfl
  have hexited : ∀ w : Nat, (init p).pool.workers[w]? ≠ some .exited := by
    intro w hw
    cases hidle w _ hw
  refine ⟨by simp [hworkers], fun w hw => absurd hw (hexited w), rfl, ?_⟩
  refine ⟨WorkerPool.idle_iff.mpr ⟨rfl, fun w worker hw => by rw [hidle w worker hw]; rfl⟩, rfl, rfl, rfl, 0,
    fun _ => False, fun _ => False, ⟨rfl, Nat.le_refl 0, ?_, OrderedEmitter.holds_init _ _, ?_, nofun⟩⟩
  · rw [hheld]
    exact ⟨nofun, nofun, nofun, nofun, nofun⟩
  · simp [init, OrderedEmitter.init, SealPlan.slots]

/-! ## When nobody can go on -/

section Stuck

variable (hstuck : ∀ e, s.next p e = none)

include hstuck

theorem stuck_idle {w : Nat} (hw : s.pool.workers[w]? = some .idle) :
    s.pool.queue = [] ∧ s.pool.stopping = false := by
  have hwake := hstuck (.wake w)
  simp only [next, Option.map_eq_none_iff, WorkerPool.wake, hw] at hwake
  cases hqueue : s.pool.queue with
  | cons job queue => simp [hqueue] at hwake
  | nil => exact ⟨rfl, by simpa [hqueue] using hwake⟩

theorem stuck_running {w : Nat} (hw : s.pool.workers[w]? = some (.running job)) :
    ∃ i, job = .publishing i ∧ s.Clean ∧ s.emitter.nextToConsume + s.emitter.slots.length ≤ i := by
  cases job with
  | sealing i =>
    have hseal := hstuck (.encrypt w none)
    simp [next, hw] at hseal
  | publishing i =>
    have hpublish := hstuck (.publish w)
    simp only [next, hw] at hpublish
    split at hpublish
    · rename_i hnone
      unfold OrderedEmitter.publish at hnone
      split at hnone
      · cases hnone
      · rename_i herror
        split at hnone
        · cases hnone
        · exact ⟨i, rfl, herror, by omega⟩
    · cases hpublish

theorem stuck_ending {w : Nat} {error : Option Failure} :
    s.pool.workers[w]? ≠ some (.ending job error) := by
  intro hw
  have hretire := hstuck (.retire w)
  simp [next, WorkerPool.retire, hw] at hretire

theorem stuck_writer (hwrites : s.Writes) :
    (∃ error, s.writer = .done error) ∨ s.Clean ∧ s.emitter.consume = none := by
  cases hw : s.writer with
  | notStarted => exact absurd hw hwrites.started
  | done error => exact .inl ⟨error, rfl⟩
  | writing chunk =>
    have hwrite := hstuck (.write none)
    simp [next, hw] at hwrite
  | consuming =>
    have hconsume := hstuck (.consume none)
    simp only [next, hw] at hconsume
    split at hconsume
    · rename_i hnone
      refine .inr ⟨?_, hnone⟩
      cases herror : s.emitter.error with
      | none => exact herror
      | some e => simp [OrderedEmitter.consume, herror] at hnone
    all_goals cases hconsume

/-- The writer waits for a chunk whose job failed, while a worker waits for the writer. -/
theorem stuck_failed {submitted taken w i : Nat} {published failed : Nat → Prop} (hwrites : s.Writes)
    (htotal : s.emitter.total = none) (hflow : s.Flow p submitted taken published failed)
    (hw : s.pool.workers[w]? = some (.running (.publishing i))) :
    failed s.emitter.nextToConsume ∧ s.emitter.nextToConsume + p.slots ≤ i ∧ i < taken := by
  obtain ⟨i', hi', hclean, hfar⟩ := stuck_running hstuck hw
  cases hi'
  rw [hflow.slots] at hfar
  have hlt : i < taken := hflow.ledger.held_lt w i (held_eq hw)
  refine ⟨?_, hfar, hlt⟩
  have hunpublished : ¬ published s.emitter.nextToConsume := by
    intro hpub
    have hsome := hflow.holds.consume_some hclean (by simp [htotal]) hpub
    rcases stuck_writer hstuck hwrites with ⟨error, hdone⟩ | ⟨-, hnone⟩
    · cases error with
      | some e => exact hwrites.failed e hdone hclean
      | none =>
        have hend := hwrites.ended hdone
        rw [htotal] at hend
        cases hend
    · rw [hsome] at hnone
      cases hnone
  rcases hflow.ledger.accounted s.emitter.nextToConsume (by omega) with hpub | hfail | ⟨v, hv⟩
  · exact absurd hpub hunpublished
  · exact hfail
  · obtain ⟨worker, hworker, hun⟩ := Option.bind_eq_some_iff.mp hv
    cases worker with
    | idle | exited => cases hun
    | ending job error => exact absurd hworker (stuck_ending hstuck)
    | running job =>
      obtain ⟨j, rfl, -, hj⟩ := stuck_running hstuck hworker
      have heq : j = s.emitter.nextToConsume := Option.some_inj.mp hun
      have hpos := hflow.holds.slots_pos
      omega

/-- While there is something to do, some worker waits for the writer. -/
theorem stuck_worker (h : s.Inv p) (hstops : s.producer.stops = false) (hbusy : ¬ s.pool.Idle) :
    ∃ w i : Nat, s.pool.workers[w]? = some (.running (.publishing i)) := by
  by_contra hnone
  have hidle : ∀ (w : Nat) (worker : Worker SealTask), s.pool.workers[w]? = some worker →
      worker = .idle := by
    intro w worker hw
    cases worker with
    | idle => rfl
    | exited => exact absurd (h.exited w hw) (by rw [hstops]; decide)
    | ending job error => exact absurd hw (stuck_ending hstuck)
    | running job =>
      obtain ⟨i, rfl, -, -⟩ := stuck_running hstuck hw
      exact absurd ⟨w, i, hw⟩ hnone
  have hfirst : s.pool.workers[0]? = some .idle := by
    have hlt : 0 < s.pool.workers.length := h.workers ▸ p.workers_pos
    rw [List.getElem?_eq_getElem hlt, hidle 0 _ (List.getElem?_eq_getElem hlt)]
  refine hbusy (WorkerPool.idle_iff.mpr ⟨(stuck_idle hstuck hfirst).1, fun w worker hw => ?_⟩)
  rw [hidle w worker hw]
  rfl

end Stuck

theorem Inv.not_deadlocked (h : s.Inv p) : ¬ s.Deadlocked p := by
  rintro ⟨hfinished, hstuck⟩
  have hs := h.stage
  unfold Stage at hs
  split at hs
  · rename_i hphase
    have hmap := hstuck (.map none)
    simp [next, hphase] at hmap
  · rename_i index hphase
    have hstops : s.producer.stops = false := by rw [hphase]; rfl
    obtain ⟨-, hwrites, hstage⟩ := hs
    have hsubmit := hstuck .submit
    simp only [next, hphase] at hsubmit
    obtain ⟨herror, hqueue⟩ : s.pool.firstError = none ∧ p.queueDepth ≤ s.pool.queue.length := by
      split at hsubmit
      · rename_i hnone
        exact WorkerPool.submit_eq_none hnone
      · cases hsubmit
      · cases hsubmit
    have hbusy : ¬ s.pool.Idle := by
      intro hidle
      rw [(WorkerPool.idle_iff.mp hidle).1] at hqueue
      have hpos := p.workers_pos
      simp [SealPlan.queueDepth] at hqueue
      omega
    obtain ⟨w, i, hw⟩ := stuck_worker hstuck h hstops hbusy
    obtain ⟨-, -, hclean, -⟩ := stuck_running hstuck hw
    obtain ⟨htotal, taken, published, failed, hflow⟩ := hstage hclean
    obtain ⟨hfail, -, -⟩ := stuck_failed hstuck hwrites htotal hflow hw
    have hsome := hflow.blamed _ hfail
    rw [herror] at hsome
    cases hsome
  · rename_i hphase
    have hstops : s.producer.stops = false := by rw [hphase]; rfl
    obtain ⟨hwrites, hstage⟩ := hs
    have hdrain := hstuck .drain
    have hbusy : ¬ s.pool.Idle := by
      intro hidle
      simp only [next, hphase, WorkerPool.drain_of_idle hidle] at hdrain
      cases herror : s.pool.firstError <;> simp [herror] at hdrain
    obtain ⟨w, i, hw⟩ := stuck_worker hstuck h hstops hbusy
    obtain ⟨-, -, hclean, -⟩ := stuck_running hstuck hw
    obtain ⟨htotal, taken, published, failed, hflow, hreach⟩ := hstage hclean
    obtain ⟨hfail, hfar, hlt⟩ := stuck_failed hstuck hwrites htotal hflow hw
    have hlen := hreach _ hfail
    have hle := hflow.taken_le
    omega
  · rename_i hphase
    have htotal := hstuck .setTotal
    simp [next, hphase] at htotal
  · rename_i hphase
    have habort := hstuck .abort
    simp [next, hphase] at habort
  · rename_i hphase
    obtain ⟨hwrites, -, hstage⟩ := hs
    rcases stuck_writer hstuck hwrites with ⟨error, hdone⟩ | ⟨hclean, hnone⟩
    · have hjoin := hstuck .join
      simp [next, hphase, hdone] at hjoin
    · obtain ⟨⟨published, hholds, hall⟩, htotal⟩ := hstage hclean
      rcases Nat.lt_or_ge s.emitter.nextToConsume p.length with hlt | hge
      · rw [hholds.consume_some hclean (by simpa [htotal] using hlt) (hall _ hlt)] at hnone
        cases hnone
      · rw [OrderedEmitter.consume_total hclean htotal hge] at hnone
        cases hnone
  · rename_i hphase
    rcases stuck_writer hstuck hs.1 with ⟨error, hdone⟩ | ⟨hclean, -⟩
    · have hjoin := hstuck .join
      simp [next, hphase, hdone] at hjoin
    · exact hs.2 hclean
  iterate 3
    · rename_i hphase
      have hdrop := hstuck .drop
      simp [next, hphase] at hdrop
  · rename_i hphase
    have hshutdown := hstuck .shutdown
    simp [next, hphase] at hshutdown
  · rename_i hphase
    have hjoin := hstuck .joinWorkers
    have hnot : ¬ s.pool.Exited := by simpa [next, hphase] using hjoin
    refine hnot (WorkerPool.exited_iff.mpr fun w worker hw => ?_)
    cases worker with
    | exited => rfl
    | ending job error => exact absurd hw (stuck_ending hstuck)
    | idle =>
      have hstop := (stuck_idle hstuck hw).2
      rw [h.stopping, hphase] at hstop
      cases hstop
    | running job =>
      obtain ⟨-, -, hclean, -⟩ := stuck_running hstuck hw
      exact absurd (hs hclean) (not_idle_of_job hw rfl)
  · rename_i error hphase
    exact hfinished ⟨error, hphase⟩

/-- A step at which a failure is recorded only if it cannot hang. -/
def ReachStep (p : SealPlan) (s : Sealing) (e : SealEvent) (s' : Sealing) : Prop :=
  s.InReach p e ∧ s.next p e = some s'

/-- **No deadlock**, whatever jobs and writes throw, as long as no failure is recorded after everything
was submitted and with a chunk outside the window of the failed one. -/
theorem no_deadlock (h : Reach (· = init p) (ReachStep p) s) : ¬ s.Deadlocked p := by
  refine Inv.not_deadlocked (Reach.invariant ?_ ?_ h)
  · rintro s rfl
    exact inv_init p
  · rintro s e s' hs ⟨hreach, hnext⟩
    exact hs.step hreach hnext

theorem inReach_of_le (h : p.length ≤ p.slots) (s : Sealing) (e : SealEvent) : s.InReach p e := by
  cases e with
  | retire w => exact fun job _ _ _ _ => Nat.le_trans h (Nat.le_add_left ..)
  | map | submit | drain | setTotal | abort | join | drop | shutdown | joinWorkers | wake | encrypt
  | publish | consume | write => trivial

def onePlan : SealPlan where
  length := 1
  payload _ := []
  workers := 1
  workers_pos := Nat.one_pos

/-- The only job throws after everything was submitted; `drain` then rethrows. -/
def oneThrows : List SealEvent :=
  [.map none, .submit, .wake 0, .encrypt 0 (some .peerClosed), .retire 0, .drain]

theorem no_deadlock_oneThrows : ∃ s, runFrom (next onePlan) (init onePlan) oneThrows = some s ∧
    s.producer = .aborting .peerClosed ∧ ¬ s.Deadlocked onePlan := by
  have hrun : ∃ s, runFrom (next onePlan) (init onePlan) oneThrows = some s ∧
      s.producer = .aborting .peerClosed := ⟨_, rfl, rfl⟩
  obtain ⟨s, hs, hphase⟩ := hrun
  have hinit : Reach (· = init onePlan) (fun s e s' => s.next onePlan e = some s') (init onePlan) :=
    .init rfl
  refine ⟨s, hs, hphase, no_deadlock ((hinit.of_runFrom hs).mono fun s e s' hnext => ⟨?_, hnext⟩)⟩
  exact inReach_of_le (by decide) s e

def elevenPlan : SealPlan where
  length := 11
  payload _ := []
  workers := 2
  workers_pos := Nat.two_pos

/-- Worker 0 takes chunk 0. Worker 1 seals the others; the last is outside the window. Then the job of
chunk 0 throws. -/
def slowThrows : List SealEvent :=
  [.map none, .submit, .wake 0] ++
    (List.replicate 9 [.submit, .wake 1, .encrypt 1 none, .publish 1, .retire 1]).flatten ++
    [.submit, .wake 1, .encrypt 1 none, .encrypt 0 (some .peerClosed), .retire 0]

/-- **Everybody waits**: the calling thread in `drain`, worker 0 for work, worker 1 in `publish`, and the
writer in `consume`. -/
theorem hangs_after_throw :
    ∃ s, runFrom (next elevenPlan) (init elevenPlan) slowThrows = some s ∧ s.Deadlocked elevenPlan := by
  have hrun : ∃ s, runFrom (next elevenPlan) (init elevenPlan) slowThrows = some s ∧
      s.producer = .draining ∧ s.pool = { workers := [.idle, .running (.publishing 10)]
                                          firstError := some .peerClosed } ∧
      s.writer = .consuming ∧ s.emitter.consume = none ∧ s.emitter.publish 10 [] = none :=
    ⟨_, rfl, rfl, by decide +kernel, rfl, by decide +kernel, by decide +kernel⟩
  obtain ⟨s, hs, hphase, hpool, hwriter, hconsume, hpublish⟩ := hrun
  refine ⟨s, hs, ?_, fun e => ?_⟩
  · rintro ⟨error, herror⟩
    rw [hphase] at herror
    cases herror
  · cases e with
    | map fault | submit | setTotal | abort | join | drop | shutdown | joinWorkers => simp [next, hphase]
    | consume fault => simp [next, hwriter, hconsume]
    | write fault => simp [next, hwriter]
    | drain => simp [next, hphase, hpool, WorkerPool.drain, WorkerPool.Idle, WorkerPool.activeJobs, Worker.job?]
    | wake w =>
      match w with
      | 0 | 1 | n + 2 => simp [next, hpool, WorkerPool.wake]
    | encrypt w fault =>
      match w with
      | 0 | 1 | n + 2 => simp [next, hpool]
    | publish w =>
      match w with
      | 0 | n + 2 => simp [next, hpool]
      | 1 => simp [next, hpool, elevenPlan, hpublish]
    | retire w =>
      match w with
      | 0 | 1 | n + 2 => simp [next, hpool, WorkerPool.retire]

end Sealing

end DropZone
