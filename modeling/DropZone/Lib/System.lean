import Mathlib.Algebra.BigOperators.Group.List.Basic
import Mathlib.Algebra.Ring.Nat
import Mathlib.Data.List.Induction

/-!
# Transition systems

Reachable states of a system with labelled steps, and the rule for its invariants.

* `Reach init step`: the states that runs reach; `Reach.invariant`: an invariant holds in all of
  them; `Reach.mono`: fewer steps reach fewer states.
* `runFrom`: a run of an executable system along a list of labels; `Reach.of_runFrom`,
  `Reach.of_guarded`; `runFrom_invariant`: the rule for invariants that speak of the labels too.
* `Interleaves threads trace`: the orders in which the labels of several threads may come.
* `Inevitable step P`: every run that goes on as long as it can comes to a state with `P`;
  `Inevitable.of_measure`: if steps lower a measure and only such states are stuck.
-/

namespace System

variable {σ ε : Type}

/-- The states that runs of `step` reach from `init`. -/
inductive Reach (init : σ → Prop) (step : σ → ε → σ → Prop) : σ → Prop
  | init {s : σ} (h : init s) : Reach init step s
  | step {s s' : σ} {e : ε} (h : Reach init step s) (hs : step s e s') : Reach init step s'

variable {init : σ → Prop} {step : σ → ε → σ → Prop}

/-- What holds initially and is kept by every step holds in every reachable state. -/
theorem Reach.invariant {I : σ → Prop} (hinit : ∀ s, init s → I s)
    (hstep : ∀ s e s', I s → step s e s' → I s') {s : σ} (h : Reach init step s) : I s := by
  induction h with
  | init h => exact hinit _ h
  | step _ hs ih => exact hstep _ _ _ ih hs

theorem Reach.mono {step' : σ → ε → σ → Prop} (hle : ∀ s e s', step s e s' → step' s e s') {s : σ}
    (h : Reach init step s) : Reach init step' s := by
  induction h with
  | init h => exact .init h
  | step _ hs ih => exact .step ih (hle _ _ _ hs)

/-- The run of an executable system along a list of labels. -/
def runFrom (next : σ → ε → Option σ) : σ → List ε → Option σ
  | s, [] => some s
  | s, e :: es =>
    match next s e with
    | some s' => runFrom next s' es
    | none => none

theorem Reach.of_runFrom {next : σ → ε → Option σ} {s t : σ} {es : List ε}
    (hs : Reach init (fun s e s' => next s e = some s') s) (h : runFrom next s es = some t) :
    Reach init (fun s e s' => next s e = some s') t := by
  induction es generalizing s with
  | nil => cases h; exact hs
  | cons e es ih =>
    unfold runFrom at h
    split at h
    · rename_i s' he
      exact ih (.step hs he) h
    · cases h

/-- A run whose steps were tested. -/
theorem Reach.of_guarded {next : σ → ε → Option σ} {good : σ → ε → Prop} [∀ s e, Decidable (good s e)]
    {s t : σ} {es : List ε} (hs : init s)
    (h : runFrom (fun s e => if good s e then next s e else none) s es = some t) :
    Reach init (fun s e s' => next s e = some s' ∧ good s e) t :=
  (Reach.of_runFrom (.init hs) h).mono fun _ _ _ hstep => (Option.ite_none_right_eq_some.mp hstep).symm

theorem runFrom_append (next : σ → ε → Option σ) (s : σ) (es es' : List ε) :
    runFrom next s (es ++ es') = (runFrom next s es).bind fun t => runFrom next t es' := by
  induction es generalizing s with
  | nil => rfl
  | cons a as ih =>
    rw [List.cons_append, runFrom, runFrom]
    cases next s a with
    | none => rfl
    | some t => exact ih t

theorem runFrom_concat (next : σ → ε → Option σ) (s : σ) (es : List ε) (e : ε) :
    runFrom next s (es ++ [e]) = (runFrom next s es).bind fun t => next t e := by
  rw [runFrom_append]
  refine congrArg _ (funext fun t => ?_)
  rw [runFrom]
  cases next t e <;> rfl

/-- The rule for properties of a state and of the events that led to it. -/
theorem runFrom_invariant {next : σ → ε → Option σ} {I : List ε → σ → Prop} {s t : σ} {es : List ε}
    (hinit : I [] s) (hstep : ∀ es t e t', I es t → next t e = some t' → I (es ++ [e]) t')
    (h : runFrom next s es = some t) : I es t := by
  induction es using List.reverseRecOn generalizing t with
  | nil =>
    cases h
    exact hinit
  | append_singleton es e ih =>
    rw [runFrom_concat] at h
    obtain ⟨t', ht, he⟩ := Option.bind_eq_some_iff.mp h
    exact hstep es t' e t (ih ht) he

/-- The threads' labels in an order that keeps the order of each thread. -/
inductive Interleaves : List (List ε) → List ε → Prop
  | done {threads : List (List ε)} (h : ∀ t ∈ threads, t = []) : Interleaves threads []
  | step {before after : List (List ε)} {e : ε} {thread trace : List ε}
      (h : Interleaves (before ++ thread :: after) trace) :
      Interleaves (before ++ (e :: thread) :: after) (e :: trace)

theorem Interleaves.countP {threads : List (List ε)} {trace : List ε}
    (h : Interleaves threads trace) (p : ε → Bool) :
    trace.countP p = (threads.map (List.countP p)).sum := by
  induction h with
  | done h =>
    refine (List.sum_eq_zero fun n hn => ?_).symm
    obtain ⟨t, ht, rfl⟩ := List.mem_map.mp hn
    rw [h t ht, List.countP_nil]
  | step h ih =>
    rw [List.countP_cons, ih]
    simp only [List.map_append, List.map_cons, List.sum_append, List.sum_cons, List.countP_cons]
    omega

theorem Interleaves.flatten (threads : List (List ε)) : Interleaves threads threads.flatten := by
  have hafter : ∀ before : List (List ε), (∀ t ∈ before, t = []) →
      Interleaves (before ++ threads) threads.flatten := by
    induction threads with
    | nil => exact fun before h => .done (by simpa using h)
    | cons thread threads ih =>
      intro before h
      induction thread with
      | nil =>
        have := ih (before ++ [[]]) (by simpa [or_imp, forall_and] using h)
        simpa using this
      | cons e thread ih' => exact .step ih'
  exact hafter [] (by simp)

/-- Every run from `s` that goes on as long as it can comes to a state with `P`. -/
inductive Inevitable (step : σ → ε → σ → Prop) (P : σ → Prop) : σ → Prop
  | now {s : σ} (h : P s) : Inevitable step P s
  | later {s : σ} (can : ∃ e s', step s e s')
      (h : ∀ e s', step s e s' → Inevitable step P s') : Inevitable step P s

/-- Where every step keeps an invariant and lowers a measure, and a state with the invariant that is
not yet one with `P` has a step, all runs come to `P`. -/
theorem Inevitable.of_measure {I P : σ → Prop} (measure : σ → Nat)
    (hstep : ∀ s e s', I s → step s e s' → I s' ∧ measure s' < measure s)
    (hprogress : ∀ s, I s → P s ∨ ∃ e s', step s e s') {s : σ} (h : I s) :
    Inevitable step P s := by
  generalize hn : measure s = n
  induction n using Nat.strongRecOn generalizing s with
  | ind n ih =>
    rcases hprogress s h with hP | hcan
    · exact .now hP
    · refine .later hcan fun e s' hs => ?_
      obtain ⟨hI, hlt⟩ := hstep s e s' h hs
      exact ih (measure s') (hn ▸ hlt) hI rfl

end System
