import Mathlib.Algebra.Order.Field.Basic
import Mathlib.Tactic.Linarith
import Mathlib.Tactic.Ring
import Mathlib.Algebra.Order.Ring.Cast

/-!
# Token buckets

A bucket of at most `cap` tokens gets `rate` of them for every unit of time, and each grant takes
one out.

* `Covered cap rate a last n tokens`: the `n` grants since `a` and the tokens that are left at
  `last` are paid for by a full bucket and by what flowed in since `a`. `Covered.refill`,
  `Covered.take` and `Covered.fresh` keep it; `Covered.granted_le` is the bound that it gives.
-/

namespace TokenBucket

variable {K : Type} [Field K] [LinearOrder K] [IsStrictOrderedRing K]

/-- The account of a bucket over the time since `a`. -/
structure Covered (cap rate : K) (a last n : Nat) (tokens : K) : Prop where
  nonneg : 0 ≤ tokens
  le_cap : tokens ≤ cap
  /-- Nothing was granted since `a` while the last refill was before it. -/
  none : last < a → n = 0
  paid : n + tokens ≤ cap + rate * ((last - a : Nat) : K)

variable {cap rate tokens : K} {a last now n : Nat}

theorem le_refill {amount : K} (hamount : 0 ≤ amount) (h : tokens ≤ cap) :
    tokens ≤ min (tokens + amount) cap :=
  le_min (le_add_of_nonneg_right hamount) h

theorem Covered.refill (h : Covered cap rate a last n tokens) (hrate : 0 ≤ rate)
    (hnow : last ≤ now) :
    Covered cap rate a now n (min (tokens + rate * ((now - last : Nat) : K)) cap) := by
  have hflow : 0 ≤ rate * ((now - last : Nat) : K) := mul_nonneg hrate (Nat.cast_nonneg _)
  refine ⟨h.nonneg.trans (le_refill hflow h.le_cap), min_le_right _ _, fun ha => ?_, ?_⟩
  · exact h.none (hnow.trans_lt ha)
  · rcases Nat.lt_or_ge last a with ha | ha
    · rw [h.none ha, Nat.cast_zero, zero_add]
      exact (min_le_right _ _).trans
        (le_add_of_nonneg_right (mul_nonneg hrate (Nat.cast_nonneg _)))
    · have hsplit : now - a = (last - a) + (now - last) := by omega
      rw [hsplit, Nat.cast_add, mul_add]
      linarith [h.paid, min_le_left (tokens + rate * ((now - last : Nat) : K)) cap]

theorem Covered.spend (h : Covered cap rate a last n tokens) (ht : 1 ≤ tokens) :
    Covered cap rate a last n (tokens - 1) :=
  ⟨by linarith, by linarith [h.le_cap], h.none, by linarith [h.paid]⟩

theorem Covered.take (h : Covered cap rate a last n tokens) (ht : 1 ≤ tokens) (ha : a ≤ last) :
    Covered cap rate a last (n + 1) (tokens - 1) := by
  refine ⟨by linarith, by linarith [h.le_cap], fun hlt => absurd ha (Nat.not_le_of_gt hlt), ?_⟩
  push_cast
  linarith [h.paid]

/-- A full bucket is paid for if what flowed in since `a` covers the grants. -/
theorem Covered.fresh (hcap : 0 ≤ cap) (hnone : now < a → n = 0)
    (hn : (n : K) ≤ rate * ((now - a : Nat) : K)) : Covered cap rate a now n cap :=
  ⟨hcap, le_refl _, hnone, by linarith⟩

theorem Covered.granted_le (h : Covered cap rate a last n tokens) :
    (n : K) ≤ cap + rate * ((last - a : Nat) : K) := by
  linarith [h.paid, h.nonneg]

/-- After a time in which an empty bucket fills up, the inflow alone covers the grants. -/
theorem Covered.granted_le_flow (h : Covered cap rate a last n tokens) (hrate : 0 ≤ rate)
    (hnow : last ≤ now) (hfull : cap ≤ rate * ((now - last : Nat) : K)) :
    (n : K) ≤ rate * ((now - a : Nat) : K) := by
  rcases Nat.lt_or_ge last a with ha | ha
  · rw [h.none ha, Nat.cast_zero]
    exact mul_nonneg hrate (Nat.cast_nonneg _)
  · have hsplit : now - a = (last - a) + (now - last) := by omega
    rw [hsplit, Nat.cast_add, mul_add]
    linarith [h.granted_le]

end TokenBucket
