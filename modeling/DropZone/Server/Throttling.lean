import Mathlib.Algebra.Order.BigOperators.Group.List
import Mathlib.Data.Finset.Card
import Mathlib.Data.Rat.Cast.Order
import Mathlib.Tactic.NormNum
import DropZone.Lib.System
import DropZone.Lib.TokenBucket
import DropZone.Server.RateLimiter
import DropZone.Wire.Control

/-!
# What the rate limiter lets through

The limiter is shared by the shards, and every call of it carries a time that its thread read
before it got the lock. A run is a list of calls in the order of the lock.

* `requests_bounded`: where the calls that touch an address come in the order of their times, an
  interval of `T` milliseconds has at most `burst + requests_per_minute * T / 60000` granted
  requests. `backdated_request_refills`: one call with an older time fills the bucket.
* `fan_out_admitted`: a group send is let through, whatever the timing, exactly if there are at most nine
  members; `fan_out_refused`: with ten members it may not be.
-/

namespace DropZone

open LittleEndian TokenBucket

/-- What is asked of the limiter under its lock. -/
inductive Call
  /-- `allow_connection`. -/
  | connection (key nowMs : UInt64)
  /-- `allow_request`. -/
  | request (key nowMs : UInt64)
  /-- The housekeeping of the first shard: `evict_idle` after ten minutes. -/
  | maintenance (nowMs : UInt64)
  deriving DecidableEq

namespace Call

def nowMs : Call → UInt64
  | .connection _ nowMs | .request _ nowMs | .maintenance nowMs => nowMs

/-- The bucket that the call charges. -/
def key? : Call → Option UInt64
  | .connection key _ | .request key _ => some key
  | .maintenance _ => none

/-- The call reads the bucket of `key`. -/
def touches (key : UInt64) (call : Call) : Bool :=
  match call.key? with
  | some k => k == key
  | none => true

@[simp] theorem touches_connection (key k t : UInt64) :
    (connection k t).touches key = (k == key) := rfl

@[simp] theorem touches_request (key k t : UInt64) : (request k t).touches key = (k == key) := rfl

/-- A request for `key` with a time from `a` to `b`. -/
def requestWithin (key : UInt64) (a b : Nat) : Call → Bool
  | .request k nowMs => k == key && decide (a ≤ nowMs.toNat) && decide (nowMs.toNat ≤ b)
  | _ => false

end Call

structure Locked where
  call : Call
  lockedAt : UInt64

/-- The lock is taken by one thread after the other, and by each after it read the clock. -/
def Clocked (calls : List Locked) : Prop :=
  calls.Pairwise (·.lockedAt ≤ ·.lockedAt) ∧ ∀ c ∈ calls, c.call.nowMs ≤ c.lockedAt

instance (calls : List Locked) : Decidable (Clocked calls) := inferInstanceAs (Decidable (_ ∧ _))

variable {calls : List Call} {bk : Bucket}

namespace RateLimiter

/-- The answer to a call, and the limiter after it. -/
def answer (l : RateLimiter) : Call → Bool × RateLimiter
  | .connection key nowMs => l.allowConnection key nowMs
  | .request key nowMs => l.allowRequest key nowMs
  | .maintenance nowMs => (true, l.evictIdle nowMs (10 * 60 * 1000))

/-- The calls of a run with their answers. -/
def serve (l : RateLimiter) : List Call → List (Call × Bool)
  | [] => []
  | call :: calls => (call, (l.answer call).1) :: (l.answer call).2.serve calls

/-- How many requests of `key` with a time from `a` to `b` were let through. -/
def granted (key : UInt64) (a b : Nat) (served : List (Call × Bool)) : Nat :=
  served.countP fun p => p.1.requestWithin key a b && p.2

/-! ## One call -/

variable {l : RateLimiter} {key k nowMs : UInt64} {isRequest : Bool}

/-- The bucket of an address. -/
def bucket (l : RateLimiter) (key : UInt64) : Option Bucket := l.buckets.lookup key

/-- The bucket that a call for `key` charges. -/
def reached (l : RateLimiter) (key nowMs : UInt64) : Bucket :=
  match l.bucket key with
  | some b => refill l.limits b nowMs
  | none => ⟨l.limits.burst, l.limits.burst, nowMs⟩

theorem charge_lastRefillMs (b : Bucket) (isRequest : Bool) :
    (charge b isRequest).2.lastRefillMs = b.lastRefillMs := by
  unfold charge
  dsimp only
  repeat' split
  all_goals rfl

theorem charge_connection_requestTokens (b : Bucket) :
    (charge b false).2.requestTokens = b.requestTokens := by
  unfold charge
  dsimp only
  repeat' split
  all_goals first | rfl | contradiction

theorem consume_fst : (l.consume key nowMs isRequest).1 =
    (charge (l.reached key nowMs) isRequest).1 := by
  unfold consume reached bucket
  cases l.buckets.lookup key with
  | some b => rfl
  | none =>
    dsimp only
    rw [refill_now l.limits ⟨l.limits.burst, l.limits.burst, nowMs⟩]

@[simp] theorem consume_limits : (l.consume key nowMs isRequest).2.limits = l.limits := by
  unfold consume
  split <;> rfl

theorem bucket_consume_self : (l.consume key nowMs isRequest).2.bucket key =
    some (charge (l.reached key nowMs) isRequest).2 := by
  unfold consume reached bucket
  cases l.buckets.lookup key with
  | some b => exact List.lookup_cons_self
  | none =>
    dsimp only
    rw [refill_now l.limits ⟨l.limits.burst, l.limits.burst, nowMs⟩]
    exact List.lookup_cons_self

theorem lookup_filter_ne {buckets : List (UInt64 × Bucket)} (hk : k ≠ key) :
    (buckets.filter fun b => b.1 != key).lookup k = buckets.lookup k := by
  induction buckets with
  | nil => rfl
  | cons b bs ih =>
    by_cases hb : b.1 = key
    · rw [List.filter_cons_of_neg (by simp [hb]), ih, List.lookup_cons]
      rw [show (k == b.1) = false by simpa [hb] using hk]
    · rw [List.filter_cons_of_pos (by simp [hb]), List.lookup_cons, List.lookup_cons, ih]

/-- The other buckets stay, unless a full table is cleared for a new one. -/
theorem bucket_consume_other (hk : k ≠ key)
    (hroom : l.bucket key = none → l.buckets.length < l.limits.maxBuckets) :
    (l.consume key nowMs isRequest).2.bucket k = l.bucket k := by
  have hne : (k == key) = false := by simpa using hk
  unfold consume
  cases hb : l.buckets.lookup key with
  | some b =>
    show ((key, _) :: _).lookup k = _
    rw [List.lookup_cons, hne]
    exact lookup_filter_ne hk
  | none =>
    show ((key, _) :: _).lookup k = _
    rw [List.lookup_cons, hne, if_neg (Nat.not_le_of_gt (hroom hb))]
    rfl

@[simp] theorem answer_limits (call : Call) : (l.answer call).2.limits = l.limits := by
  cases call with
  | connection => exact consume_limits
  | request => exact consume_limits
  | maintenance => rfl

/-! ## The keys of the table -/

/-- No key is there twice, and all are of `K`. -/
structure Keyed (l : RateLimiter) (K : Finset UInt64) : Prop where
  nodup : (l.buckets.map Prod.fst).Nodup
  subset : ∀ p ∈ l.buckets, p.1 ∈ K

theorem bucket_eq_none : l.bucket key = none ↔ key ∉ l.buckets.map Prod.fst := by
  unfold bucket
  rw [List.lookup_eq_none_iff]
  simp only [List.mem_map, not_exists, not_and, bne_iff_ne]
  exact ⟨fun h p hp hkey => h p hp hkey.symm, fun h p hp hkey => h p hp hkey.symm⟩

variable {K : Finset UInt64}

theorem Keyed.room (h : l.Keyed K) (hK : K.card ≤ l.limits.maxBuckets) (hkey : key ∈ K)
    (hnone : l.bucket key = none) : l.buckets.length < l.limits.maxBuckets := by
  have hcard : (l.buckets.map Prod.fst).toFinset.card = l.buckets.length := by
    rw [List.toFinset_card_of_nodup h.nodup, List.length_map]
  have hnew : key ∉ (l.buckets.map Prod.fst).toFinset := by
    rw [List.mem_toFinset]
    exact bucket_eq_none.mp hnone
  have hsub : insert key (l.buckets.map Prod.fst).toFinset ⊆ K := by
    intro x hx
    rw [Finset.mem_insert, List.mem_toFinset, List.mem_map] at hx
    rcases hx with rfl | ⟨p, hp, rfl⟩
    · exact hkey
    · exact h.subset p hp
  have := Finset.card_le_card hsub
  rw [Finset.card_insert_of_notMem hnew, hcard] at this
  omega

theorem Keyed.consume (h : l.Keyed K) (hkey : key ∈ K) :
    (l.consume key nowMs isRequest).2.Keyed K := by
  unfold RateLimiter.consume
  cases hb : l.buckets.lookup key with
  | some b =>
    refine ⟨?_, fun p hp => ?_⟩
    · show (((key, _) :: l.buckets.filter _).map Prod.fst).Nodup
      rw [List.map_cons, List.nodup_cons]
      refine ⟨fun hmem => ?_, h.nodup.sublist (List.filter_sublist.map _)⟩
      obtain ⟨p, hp, hpk⟩ := List.mem_map.mp hmem
      have := (List.mem_filter.mp hp).2
      simp [hpk] at this
    · rcases List.mem_cons.mp hp with rfl | hp
      · exact hkey
      · exact h.subset p (List.mem_filter.mp hp).1
  | none =>
    have hnew : key ∉ l.buckets.map Prod.fst := bucket_eq_none.mp hb
    dsimp only
    split
    · exact ⟨List.nodup_singleton _, fun p hp => by rwa [List.mem_singleton.mp hp]⟩
    · refine ⟨List.nodup_cons.mpr ⟨hnew, h.nodup⟩, fun p hp => ?_⟩
      rcases List.mem_cons.mp hp with rfl | hp
      · exact hkey
      · exact h.subset p hp

theorem Keyed.evictIdle {idleMs : UInt64} (h : l.Keyed K) : (l.evictIdle nowMs idleMs).Keyed K :=
  ⟨h.nodup.sublist (List.filter_sublist.map _), fun p hp => h.subset p (List.mem_filter.mp hp).1⟩

theorem Keyed.answer (h : l.Keyed K) {call : Call} (hkey : ∀ x, call.key? = some x → x ∈ K) :
    (l.answer call).2.Keyed K := by
  cases call with
  | connection key nowMs => exact h.consume (hkey key rfl)
  | request key nowMs => exact h.consume (hkey key rfl)
  | maintenance nowMs => exact h.evictIdle

/-- Eviction takes a bucket out or leaves it as it is. -/
theorem Keyed.bucket_evictIdle (h : l.Keyed K) (key nowMs idleMs : UInt64) :
    (l.evictIdle nowMs idleMs).bucket key =
      (l.bucket key).filter fun b => !(decide (nowMs - b.lastRefillMs > idleMs)) := by
  unfold RateLimiter.evictIdle bucket
  obtain ⟨hnodup, -⟩ := h
  generalize l.buckets = bs at hnodup ⊢
  induction bs with
  | nil => rfl
  | cons b bs ih =>
    obtain ⟨hnew, hnodup⟩ := List.nodup_cons.mp hnodup
    by_cases hkey : key = b.1
    · have hgone : bs.lookup key = none := by
        rw [List.lookup_eq_none_iff]
        intro p hp
        have : b.1 ≠ p.1 := fun he => hnew (he ▸ List.mem_map_of_mem hp)
        simpa [hkey] using this
      have hrest := ih hnodup
      rw [hgone] at hrest
      rw [List.lookup_cons, show (key == b.1) = true by simpa using hkey]
      by_cases hidle : nowMs - b.2.lastRefillMs > idleMs
      · rw [List.filter_cons_of_neg (by simpa using hidle)]
        simp only [hrest, Option.filter_none]
        simp [Option.filter, hidle]
      · rw [List.filter_cons_of_pos (by simpa using hidle), List.lookup_cons,
          show (key == b.1) = true by simpa using hkey]
        simp [Option.filter, hidle]
    · have hne : (key == b.1) = false := by simpa using hkey
      rw [List.lookup_cons, hne]
      by_cases hidle : nowMs - b.2.lastRefillMs > idleMs
      · rw [List.filter_cons_of_neg (by simpa using hidle), ih hnodup]
      · rw [List.filter_cons_of_pos (by simpa using hidle), List.lookup_cons, hne, ih hnodup]

/-! ## The bound -/

/-- The requests that a millisecond pays for. -/
def perMs (limits : RateLimits) : Rat := limits.requestsPerMinute / 60000

variable {a b n : Nat}

/-- The account of the requests of `key` since `a`; from here on its calls have times from `nowMs`
on. -/
structure Account (l : RateLimiter) (key : UInt64) (a n : Nat) (nowMs : UInt64) : Prop where
  bucket : ∀ bk, l.bucket key = some bk → bk.lastRefillMs ≤ nowMs ∧
    Covered l.limits.burst (perMs l.limits) a bk.lastRefillMs.toNat n bk.requestTokens
  evicted : l.bucket key = none →
    (n : Rat) ≤ perMs l.limits * ((nowMs.toNat - a : Nat) : Rat) ∧ (nowMs.toNat < a → n = 0)

theorem Account.congr {l' : RateLimiter} (h : l.Account key a n nowMs)
    (hlimits : l'.limits = l.limits) (hbucket : l'.bucket key = l.bucket key) :
    l'.Account key a n nowMs :=
  ⟨by rw [hlimits, hbucket]; exact h.bucket, by rw [hlimits, hbucket]; exact h.evicted⟩

theorem Account.later {nowMs' : UInt64} (h : l.Account key a n nowMs)
    (hrate : 0 ≤ perMs l.limits) (hle : nowMs ≤ nowMs') : l.Account key a n nowMs' := by
  have hnat : nowMs.toNat ≤ nowMs'.toNat := UInt64.le_iff_toNat_le.mp hle
  refine ⟨fun bk hbk => ⟨UInt64.le_trans (h.bucket bk hbk).1 hle, (h.bucket bk hbk).2⟩,
    fun hnone => ?_⟩
  obtain ⟨hflow, hzero⟩ := h.evicted hnone
  refine ⟨hflow.trans (mul_le_mul_of_nonneg_left ?_ hrate), fun hlt => hzero (by omega)⟩
  exact_mod_cast Nat.sub_le_sub_right hnat a

theorem refill_covered {limits : RateLimits} (hrate : 0 ≤ perMs limits)
    (hnow : bk.lastRefillMs ≤ nowMs)
    (h : Covered limits.burst (perMs limits) a bk.lastRefillMs.toNat n bk.requestTokens) :
    (refill limits bk nowMs).lastRefillMs = nowMs ∧
      Covered limits.burst (perMs limits) a nowMs.toNat n (refill limits bk nowMs).requestTokens := by
  have hnat : bk.lastRefillMs.toNat ≤ nowMs.toNat := UInt64.le_iff_toNat_le.mp hnow
  unfold refill
  rw [UInt64.toNat_sub_of_le _ _ hnow]
  dsimp only
  split
  · have hflow : ((nowMs.toNat - bk.lastRefillMs.toNat : Nat) : Rat) / 60000 *
        limits.requestsPerMinute =
        perMs limits * ((nowMs.toNat - bk.lastRefillMs.toNat : Nat) : Rat) := by
      unfold perMs
      ring
    rw [hflow]
    exact ⟨rfl, h.refill hrate hnat⟩
  · rename_i hzero
    -- no millisecond has passed
    have hsame : bk.lastRefillMs = nowMs := by
      by_contra hne
      have hlt : bk.lastRefillMs.toNat < nowMs.toNat :=
        Nat.lt_of_le_of_ne hnat fun he => hne (UInt64.toNat.inj he)
      have hpos : (0 : Rat) < ((nowMs.toNat - bk.lastRefillMs.toNat : Nat) : Rat) := by
        exact_mod_cast Nat.sub_pos_of_lt hlt
      exact hzero (div_pos hpos (by norm_num))
    exact ⟨hsame, hsame ▸ h⟩

theorem Account.reached (h : l.Account key a n nowMs) (hburst : 0 ≤ l.limits.burst)
    (hrate : 0 ≤ perMs l.limits) :
    (l.reached key nowMs).lastRefillMs = nowMs ∧
      Covered l.limits.burst (perMs l.limits) a nowMs.toNat n
        (l.reached key nowMs).requestTokens := by
  unfold RateLimiter.reached
  cases hb : l.bucket key with
  | some bk => exact refill_covered hrate (h.bucket bk hb).1 (h.bucket bk hb).2
  | none =>
    obtain ⟨hflow, hzero⟩ := h.evicted hb
    exact ⟨rfl, Covered.fresh hburst hzero hflow⟩

theorem Account.charged {n' : Nat}
    (hself : (l.consume key nowMs isRequest).2.bucket key = some bk)
    (hlast : bk.lastRefillMs = nowMs)
    (h : Covered l.limits.burst (perMs l.limits) a nowMs.toNat n' bk.requestTokens) :
    (l.consume key nowMs isRequest).2.Account key a n' nowMs := by
  refine ⟨fun bk' hbk' => ?_, fun hnone => ?_⟩
  · rw [hself, Option.some.injEq] at hbk'
    subst hbk'
    rw [consume_limits, hlast]
    exact ⟨UInt64.le_refl _, h⟩
  · rw [hself] at hnone
    cases hnone

theorem Account.connection (h : l.Account key a n nowMs) (hburst : 0 ≤ l.limits.burst)
    (hrate : 0 ≤ perMs l.limits) : (l.allowConnection key nowMs).2.Account key a n nowMs := by
  obtain ⟨hlast, hcovered⟩ := h.reached hburst hrate
  refine Account.charged bucket_consume_self ?_ ?_
  · rw [charge_lastRefillMs, hlast]
  · rw [charge_connection_requestTokens]
    exact hcovered

/-- A request takes a token; it counts if its time is of the interval. -/
theorem Account.request (h : l.Account key a n nowMs) (hburst : 0 ≤ l.limits.burst)
    (hrate : 0 ≤ perMs l.limits) :
    (l.allowRequest key nowMs).2.Account key a
      (n + if a ≤ nowMs.toNat ∧ nowMs.toNat ≤ b ∧ (l.allowRequest key nowMs).1 then 1 else 0)
      nowMs := by
  obtain ⟨hlast, hcovered⟩ := h.reached hburst hrate
  have hfst : (l.allowRequest key nowMs).1 = (charge (l.reached key nowMs) true).1 := consume_fst
  have hself : (l.allowRequest key nowMs).2.bucket key =
      some (charge (l.reached key nowMs) true).2 := bucket_consume_self
  by_cases ht : (l.reached key nowMs).requestTokens < 1
  · have hcharge : charge (l.reached key nowMs) true = (false, l.reached key nowMs) := if_pos ht
    rw [hcharge] at hfst hself
    rw [hfst, if_neg (by simp)]
    exact Account.charged hself hlast hcovered
  · have hcharge : charge (l.reached key nowMs) true = (true, { l.reached key nowMs with
        requestTokens := (l.reached key nowMs).requestTokens - 1 }) := if_neg ht
    rw [hcharge] at hfst hself
    refine Account.charged hself hlast ?_
    rw [hfst]
    split
    · rename_i hin
      exact hcovered.take (not_lt.mp ht) hin.1
    · exact hcovered.spend (not_lt.mp ht)

theorem Account.maintenance (h : l.Account key a n nowMs) (hkeyed : l.Keyed K)
    (hrate : 0 ≤ perMs l.limits) (hfull : l.limits.burst ≤ 10 * l.limits.requestsPerMinute) :
    (l.evictIdle nowMs (10 * 60 * 1000)).Account key a n nowMs := by
  have hbucket := hkeyed.bucket_evictIdle key nowMs (10 * 60 * 1000)
  cases hb : l.bucket key with
  | none =>
    rw [hb] at hbucket
    exact h.congr rfl (hbucket.trans hb.symm)
  | some bk =>
    obtain ⟨hlast, hcovered⟩ := h.bucket bk hb
    have hnat : bk.lastRefillMs.toNat ≤ nowMs.toNat := UInt64.le_iff_toNat_le.mp hlast
    rw [hb, Option.filter_some] at hbucket
    split at hbucket
    · exact h.congr rfl (hbucket.trans hb.symm)
    · rename_i hidle
      -- ten minutes have filled the bucket, so a fresh one holds no more than it would
      have hten : 600000 ≤ nowMs.toNat - bk.lastRefillMs.toNat := by
        simp only [Bool.not_eq_true', decide_eq_false_iff_not, not_not, gt_iff_lt,
          UInt64.lt_iff_toNat_lt, UInt64.toNat_sub_of_le _ _ hlast] at hidle
        exact Nat.le_of_lt hidle
      have hflow : l.limits.burst ≤
          perMs l.limits * ((nowMs.toNat - bk.lastRefillMs.toNat : Nat) : Rat) := by
        have hmono : perMs l.limits * ((600000 : Nat) : Rat) ≤
            perMs l.limits * ((nowMs.toNat - bk.lastRefillMs.toNat : Nat) : Rat) :=
          mul_le_mul_of_nonneg_left (by exact_mod_cast hten) hrate
        have hmin : perMs l.limits * ((600000 : Nat) : Rat) = 10 * l.limits.requestsPerMinute := by
          unfold perMs
          push_cast
          ring
        linarith
      refine ⟨fun bk' hbk' => ?_, fun _ => ⟨hcovered.granted_le_flow hrate hnat hflow, ?_⟩⟩
      · rw [hbucket] at hbk'
        cases hbk'
      · intro hlt
        exact hcovered.none (by omega)

theorem Account.granted_le (h : l.Account key a n nowMs) (hburst : 0 ≤ l.limits.burst)
    (hrate : 0 ≤ perMs l.limits) (hb : nowMs.toNat ≤ b) :
    (n : Rat) ≤ l.limits.burst + perMs l.limits * ((b - a : Nat) : Rat) := by
  have hflow : perMs l.limits * ((nowMs.toNat - a : Nat) : Rat) ≤
      perMs l.limits * ((b - a : Nat) : Rat) :=
    mul_le_mul_of_nonneg_left (by exact_mod_cast Nat.sub_le_sub_right hb a) hrate
  linarith [(h.reached hburst hrate).2.granted_le]

/-- One call: the account goes on. -/
theorem Account.answer (h : l.Account key a n nowMs) (hburst : 0 ≤ l.limits.burst)
    (hfull : l.limits.burst ≤ 10 * l.limits.requestsPerMinute) (hkeyed : l.Keyed K)
    (hK : K.card ≤ l.limits.maxBuckets) {call : Call} (hcall : ∀ x, call.key? = some x → x ∈ K)
    (hle : call.touches key → nowMs ≤ call.nowMs) :
    (l.answer call).2.Account key a
      (n + if call.requestWithin key a b && (l.answer call).1 then 1 else 0)
      (if call.touches key then call.nowMs else nowMs) := by
  have hrate : 0 ≤ perMs l.limits := div_nonneg (by linarith) (by norm_num)
  -- the bucket of another address
  have hother : ∀ k t isRequest, k ≠ key → k ∈ K →
      (l.consume k t isRequest).2.Account key a n nowMs := fun k t isRequest hk hmem =>
    h.congr consume_limits (bucket_consume_other hk.symm (hkeyed.room hK hmem))
  cases call with
  | connection k t =>
    by_cases hk : k = key
    · subst hk
      have htouch : (Call.connection k t).touches k = true := beq_self_eq_true k
      rw [htouch]
      exact (h.later hrate (hle htouch)).connection hburst hrate
    · have htouch : (Call.connection k t).touches key = false := by simpa using hk
      rw [htouch]
      exact hother k t false hk (hcall k rfl)
  | request k t =>
    by_cases hk : k = key
    · subst hk
      have htouch : (Call.request k t).touches k = true := beq_self_eq_true k
      rw [htouch]
      have hreq : nowMs ≤ t := hle htouch
      have := (h.later hrate hreq).request (b := b) hburst hrate
      simpa [Call.requestWithin, RateLimiter.answer, Call.nowMs, and_assoc] using this
    · have htouch : (Call.request k t).touches key = false := by simpa using hk
      have hcounts : (Call.request k t).requestWithin key a b = false := by
        simp [Call.requestWithin, hk]
      rw [htouch, hcounts]
      exact hother k t true hk (hcall k rfl)
  | maintenance t => exact (h.later hrate (hle rfl)).maintenance hkeyed hrate hfull

/-- Every call of a run: the interval never has more grants than it may have. -/
theorem Account.serve (h : l.Account key a n nowMs)
    (hburst : 0 ≤ l.limits.burst) (hfull : l.limits.burst ≤ 10 * l.limits.requestsPerMinute)
    (hkeyed : l.Keyed K) (hK : K.card ≤ l.limits.maxBuckets)
    (hcalls : ∀ c ∈ calls, ∀ x, c.key? = some x → x ∈ K)
    (hordered : (calls.filter (·.touches key)).Pairwise (·.nowMs ≤ ·.nowMs))
    (hlate : ∀ c ∈ calls, c.touches key → nowMs ≤ c.nowMs)
    (hn : (n : Rat) ≤ l.limits.burst + perMs l.limits * ((b - a : Nat) : Rat)) :
    ((n + granted key a b (l.serve calls) : Nat) : Rat) ≤
      l.limits.burst + perMs l.limits * ((b - a : Nat) : Rat) := by
  have hrate : 0 ≤ perMs l.limits := div_nonneg (by linarith) (by norm_num)
  induction calls generalizing l n nowMs with
  | nil => exact hn
  | cons call calls ih =>
    have hcall := hcalls call List.mem_cons_self
    have hstep := h.answer (b := b) hburst hfull hkeyed hK hcall (hlate call List.mem_cons_self)
    have hn' : ((n + if call.requestWithin key a b && (l.answer call).1 then 1 else 0 : Nat) : Rat) ≤
        l.limits.burst + perMs l.limits * ((b - a : Nat) : Rat) := by
      by_cases hcounts : call.requestWithin key a b = true
      · have hin : call.touches key = true ∧ call.nowMs.toNat ≤ b := by
          cases call with
          | request k t =>
            simp only [Call.requestWithin, Bool.and_eq_true, beq_iff_eq, decide_eq_true_eq]
              at hcounts
            exact ⟨by simpa using hcounts.1.1, hcounts.2⟩
          | connection => cases hcounts
          | maintenance => cases hcounts
        rw [if_pos hin.1] at hstep
        have := hstep.granted_le (b := b) (by simpa using hburst) (by simpa using hrate) hin.2
        rwa [answer_limits] at this
      · rw [if_neg (by simp [hcounts]), Nat.add_zero]
        exact hn
    have hcount : n + granted key a b (l.serve (call :: calls)) =
        (n + if call.requestWithin key a b && (l.answer call).1 then 1 else 0) +
          granted key a b ((l.answer call).2.serve calls) := by
      unfold granted
      rw [RateLimiter.serve, List.countP_cons]
      dsimp only
      omega
    rw [hcount]
    have hrest := ih hstep (by simpa using hburst) (by simpa using hfull) (hkeyed.answer hcall)
      (by simpa using hK) (fun c hc => hcalls c (List.mem_cons_of_mem _ hc))
      (hordered.sublist ((List.sublist_cons_self _ _).filter _))
    rw [answer_limits] at hrest
    refine hrest (fun c hc ht => ?_) hn' hrate
    split
    · rename_i htouch
      rw [List.filter_cons_of_pos htouch] at hordered
      exact List.rel_of_pairwise_cons hordered (List.mem_filter.mpr ⟨hc, ht⟩)
    · exact hlate c (List.mem_cons_of_mem _ hc) ht

/-- Where no call for `key` and no eviction has an older time than such a call before it, and ten
minutes fill a bucket, an interval of `T` milliseconds has at most
`burst + requests_per_minute * T / 60000` granted requests. -/
theorem requests_bounded (hempty : l.buckets = []) (hburst : 0 ≤ l.limits.burst)
    (hfull : l.limits.burst ≤ 10 * l.limits.requestsPerMinute) (calls : List Call)
    (hkeys : (calls.filterMap Call.key?).toFinset.card ≤ l.limits.maxBuckets) (key : UInt64)
    (hordered : (calls.filter (·.touches key)).Pairwise (·.nowMs ≤ ·.nowMs)) (a T : Nat) :
    (granted key a (a + T) (l.serve calls) : Rat) ≤
      l.limits.burst + l.limits.requestsPerMinute * T / 60000 := by
  have hrate : 0 ≤ perMs l.limits := div_nonneg (by linarith) (by norm_num)
  have hnone : l.bucket key = none := by
    unfold bucket
    rw [hempty]
    rfl
  have hstart : l.Account key a 0 0 := by
    refine ⟨fun bk hbk => ?_, fun _ => ⟨?_, fun _ => rfl⟩⟩
    · rw [hnone] at hbk
      cases hbk
    · rw [Nat.cast_zero]
      exact mul_nonneg hrate (Nat.cast_nonneg _)
  have hkeyed : l.Keyed (calls.filterMap Call.key?).toFinset := by
    refine ⟨?_, fun p hp => ?_⟩ <;> rw [hempty] at *
    · exact List.nodup_nil
    · cases hp
  have hbound := hstart.serve (b := a + T) hburst hfull hkeyed hkeys
    (fun c hc x hx => List.mem_toFinset.mpr (List.mem_filterMap.mpr ⟨c, hc, hx⟩)) hordered
    (fun c _ _ => UInt64.le_iff_toNat_le.mpr (Nat.zero_le _))
    (by rw [Nat.cast_zero]; exact add_nonneg hburst (mul_nonneg hrate (Nat.cast_nonneg _)))
  rw [Nat.zero_add, Nat.add_sub_cancel_left] at hbound
  calc (granted key a (a + T) (l.serve calls) : Rat)
      ≤ l.limits.burst + perMs l.limits * T := hbound
    _ = l.limits.burst + l.limits.requestsPerMinute * T / 60000 := by
      unfold perMs
      ring

/-- A server that was just started. -/
def started : RateLimiter := { saltedHash := fun _ => 0 }

theorem requests_bounded_idle :
    granted 1 0 700000 (started.serve [.request 1 0, .maintenance 650000, .request 1 700000]) ≤
      (10 + 20 * (700000 : Nat) / 60000 : Rat) := by
  have := requests_bounded (l := started) rfl (by decide) (by decide +kernel)
    [.request 1 0, .maintenance 650000, .request 1 700000] (by decide) 1 (by decide) 0 700000
  rwa [Nat.zero_add] at this

/-- Ten requests empty the bucket. The threads of the next ones read the clock a millisecond before
and got the lock after them. -/
def backdated : List Locked :=
  List.replicate 10 ⟨.request 1 1000, 1000⟩ ++ List.replicate 10 ⟨.request 1 999, 1001⟩

/-- The time since the last refill is taken as unsigned, so an older time counts as ages, and the
bucket is full again: twenty requests get through within two milliseconds. -/
theorem backdated_request_refills :
    Clocked backdated ∧
      ((backdated.map (·.call)).filterMap Call.key?).toFinset.card ≤ started.limits.maxBuckets ∧
      ¬ ((granted 1 999 (999 + 1) (started.serve (backdated.map (·.call))) : Nat) : Rat) ≤
        started.limits.burst + started.limits.requestsPerMinute * (1 : Nat) / 60000 := by
  decide +kernel

end RateLimiter

/-! ## A group send -/

/-- The connections of an address. -/
def Call.connects (key : UInt64) : Call → Bool
  | .connection k _ => k == key
  | _ => false

/-- The requests of an address. -/
def Call.asks (key : UInt64) : Call → Bool
  | .request k _ => k == key
  | _ => false

/-- The calls that `send_to_one` causes: its control connection, and its request once it has got
that far. -/
def SendToOne (key : UInt64) (calls : List Call) : Prop :=
  ∃ t u, calls <+: [.connection key t, .request key u]

/-- The calls for the address of a sender that runs `command_send` for a group, among any others:
a connection that asks for the roster, and then a thread for each member. -/
def GroupSend (key : UInt64) (roster : GroupRoster) (calls : List Call) : Prop :=
  ∃ t u workers rest, workers.length = roster.usernames.length ∧
    (∀ w ∈ workers, SendToOne key w) ∧ System.Interleaves workers rest ∧
    calls.filter (fun c => c.key? == some key) = .connection key t :: .request key u :: rest

/-- A bucket with tokens for `c` connections and `r` requests. -/
structure Bucket.Stocked (bk : Bucket) (burst : Rat) (c r : Nat) : Prop where
  connections : (c : Rat) ≤ bk.connectionTokens
  requests : (r : Rat) ≤ bk.requestTokens
  connections_le : bk.connectionTokens ≤ burst
  requests_le : bk.requestTokens ≤ burst

namespace RateLimiter

/-- The address has not used up any of its tokens. -/
def Fresh (l : RateLimiter) (key : UInt64) : Prop :=
  ∀ p ∈ l.buckets, p.1 = key →
    p.2.connectionTokens = l.limits.burst ∧ p.2.requestTokens = l.limits.burst

variable {l : RateLimiter} {key k nowMs : UInt64} {isRequest : Bool}
variable {c r : Nat}

theorem refill_stocked {limits : RateLimits} (h : bk.Stocked limits.burst c r)
    (hc : 0 ≤ limits.connectionsPerMinute) (hr : 0 ≤ limits.requestsPerMinute) :
    (refill limits bk nowMs).Stocked limits.burst c r := by
  unfold refill
  dsimp only
  split
  · rename_i helapsed
    exact ⟨h.connections.trans (le_refill (mul_nonneg helapsed.le hc) h.connections_le),
      h.requests.trans (le_refill (mul_nonneg helapsed.le hr) h.requests_le), min_le_right _ _,
      min_le_right _ _⟩
  · exact h

structure Stocked (l : RateLimiter) (key : UInt64) (c r : Nat) : Prop where
  bucket : ∀ p ∈ l.buckets, p.1 = key → p.2.Stocked l.limits.burst c r
  connections_le : (c : Rat) ≤ l.limits.burst
  requests_le : (r : Rat) ≤ l.limits.burst

theorem Stocked.reached (h : l.Stocked key c r) (nowMs : UInt64)
    (hc : 0 ≤ l.limits.connectionsPerMinute) (hr : 0 ≤ l.limits.requestsPerMinute) :
    (l.reached key nowMs).Stocked l.limits.burst c r := by
  unfold RateLimiter.reached
  split
  · rename_i bk hbk
    obtain ⟨l₁, l₂, hl, -⟩ := List.lookup_eq_some_iff.mp hbk
    exact refill_stocked (h.bucket (key, bk) (by rw [hl]; simp) rfl) hc hr
  · exact ⟨h.connections_le, h.requests_le, le_refl _, le_refl _⟩

/-- The buckets after a call: the charged one, and some of those that were there. -/
theorem mem_consume {p : UInt64 × Bucket} (hp : p ∈ (l.consume key nowMs isRequest).2.buckets) :
    p = (key, (charge (l.reached key nowMs) isRequest).2) ∨ p ∈ l.buckets ∧ p.1 ≠ key := by
  have hself : (l.consume key nowMs isRequest).2.bucket key =
    some (charge (l.reached key nowMs) isRequest).2 := bucket_consume_self
  unfold consume at hp hself
  cases hb : l.buckets.lookup key with
  | some bk =>
    rw [hb] at hp hself
    rcases List.mem_cons.mp hp with rfl | hp
    · exact .inl (congrArg _ (Option.some.inj (List.lookup_cons_self.symm.trans hself)))
    · exact .inr ⟨(List.mem_filter.mp hp).1, by simpa using (List.mem_filter.mp hp).2⟩
  | none =>
    rw [hb] at hp hself
    rcases List.mem_cons.mp hp with rfl | hp
    · exact .inl (congrArg _ (Option.some.inj (List.lookup_cons_self.symm.trans hself)))
    · split at hp
      · cases hp
      · exact .inr ⟨hp, fun hkey => bucket_eq_none.mp hb (List.mem_map.mpr ⟨p, hp, hkey⟩)⟩

theorem Stocked.consume_other (h : l.Stocked key c r) (hk : k ≠ key) :
    (l.consume k nowMs isRequest).2.Stocked key c r := by
  refine ⟨fun p hp hkey => ?_, by simpa using h.connections_le, by simpa using h.requests_le⟩
  rw [consume_limits]
  rcases mem_consume hp with rfl | ⟨hp, -⟩
  · exact absurd hkey hk
  · exact h.bucket p hp hkey

theorem Stocked.consume_self {c' r' : Nat} (h : l.Stocked key c r) (hc : c' ≤ c) (hr : r' ≤ r)
    (hcharge : (charge (l.reached key nowMs) isRequest).2.Stocked l.limits.burst c' r') :
    (l.consume key nowMs isRequest).2.Stocked key c' r' := by
  refine ⟨fun p hp hkey => ?_, ?_, ?_⟩ <;> rw [consume_limits]
  · rcases mem_consume hp with rfl | ⟨-, hne⟩
    · exact hcharge
    · exact absurd hkey hne
  · exact (Nat.cast_le.mpr hc).trans h.connections_le
  · exact (Nat.cast_le.mpr hr).trans h.requests_le

theorem charge_connection {burst : Rat}
    (h : bk.Stocked burst (c + 1) r) :
    (charge bk false).1 = true ∧ (charge bk false).2.Stocked burst c r := by
  have htokens : (c : Rat) + 1 ≤ bk.connectionTokens := by exact_mod_cast h.connections
  have hc : (0 : Rat) ≤ c := Nat.cast_nonneg c
  have hcharge : charge bk false =
      (true, { bk with connectionTokens := bk.connectionTokens - 1 }) := if_neg (by simp; linarith)
  rw [hcharge]
  exact ⟨rfl, by dsimp only; linarith, h.requests, by dsimp only; linarith [h.connections_le],
    h.requests_le⟩

theorem charge_request {burst : Rat}
    (h : bk.Stocked burst c (r + 1)) :
    (charge bk true).1 = true ∧ (charge bk true).2.Stocked burst c r := by
  have htokens : (r : Rat) + 1 ≤ bk.requestTokens := by exact_mod_cast h.requests
  have hr : (0 : Rat) ≤ r := Nat.cast_nonneg r
  have hcharge : charge bk true =
      (true, { bk with requestTokens := bk.requestTokens - 1 }) := if_neg (by simp; linarith)
  rw [hcharge]
  exact ⟨rfl, h.connections, by dsimp only; linarith, h.connections_le,
    by dsimp only; linarith [h.requests_le]⟩

/-- One call: it is let through if it is the address's, and the tokens last for the others. -/
theorem Stocked.answer {call : Call}
    (h : l.Stocked key ((call :: calls).countP (Call.connects key))
      ((call :: calls).countP (Call.asks key)))
    (hc : 0 ≤ l.limits.connectionsPerMinute) (hr : 0 ≤ l.limits.requestsPerMinute) :
    (call.key? = some key → (l.answer call).1 = true) ∧
      (l.answer call).2.Stocked key (calls.countP (Call.connects key))
        (calls.countP (Call.asks key)) := by
  cases call with
  | connection k t =>
    by_cases hk : k = key
    · subst hk
      rw [List.countP_cons_of_pos (by simp [Call.connects]),
        List.countP_cons_of_neg (by simp [Call.asks])] at h
      have hcharge := charge_connection (h.reached t hc hr)
      exact ⟨fun _ => consume_fst.trans hcharge.1,
        h.consume_self (Nat.le_succ _) (Nat.le_refl _) hcharge.2⟩
    · rw [List.countP_cons_of_neg (by simpa [Call.connects] using hk),
        List.countP_cons_of_neg (by simp [Call.asks])] at h
      exact ⟨fun hkey => absurd (Option.some.inj hkey) hk, h.consume_other hk⟩
  | request k t =>
    by_cases hk : k = key
    · subst hk
      rw [List.countP_cons_of_neg (by simp [Call.connects]),
        List.countP_cons_of_pos (by simp [Call.asks])] at h
      have hcharge := charge_request (h.reached t hc hr)
      exact ⟨fun _ => consume_fst.trans hcharge.1,
        h.consume_self (Nat.le_refl _) (Nat.le_succ _) hcharge.2⟩
    · rw [List.countP_cons_of_neg (by simp [Call.connects]),
        List.countP_cons_of_neg (by simpa [Call.asks] using hk)] at h
      exact ⟨fun hkey => absurd (Option.some.inj hkey) hk, h.consume_other hk⟩
  | maintenance t =>
    refine ⟨fun hkey => (by cases hkey), fun p hp => h.bucket p (List.mem_filter.mp hp).1,
      h.connections_le, h.requests_le⟩

/-- An address that has tokens for all its calls is never turned away. -/
theorem Stocked.serve (hc : 0 ≤ l.limits.connectionsPerMinute)
    (hr : 0 ≤ l.limits.requestsPerMinute)
    (h : l.Stocked key (calls.countP (Call.connects key)) (calls.countP (Call.asks key))) :
    ∀ p ∈ l.serve calls, p.1.key? = some key → p.2 = true := by
  induction calls generalizing l with
  | nil => exact fun p hp => absurd hp List.not_mem_nil
  | cons call calls ih =>
    have hstep := h.answer hc hr
    intro p hp hkey
    rcases List.mem_cons.mp hp with rfl | hp
    · exact hstep.1 hkey
    · exact ih (by simpa using hc) (by simpa using hr) hstep.2 p hp hkey

end RateLimiter

theorem SendToOne.countP_le {key : UInt64} {w : List Call} (h : SendToOne key w) :
    w.countP (Call.connects key) ≤ 1 ∧ w.countP (Call.asks key) ≤ 1 := by
  obtain ⟨t, u, h⟩ := h
  exact ⟨h.countP_le.trans (by simp [Call.connects]),
    h.countP_le.trans (by simp [Call.asks])⟩

/-- A group send connects and asks at most once for the roster and once for each member. -/
theorem GroupSend.countP_le {key : UInt64} {roster : GroupRoster}
    (h : GroupSend key roster calls) :
    calls.countP (Call.connects key) ≤ roster.usernames.length + 1 ∧
      calls.countP (Call.asks key) ≤ roster.usernames.length + 1 := by
  obtain ⟨t, u, workers, rest, hlen, hworkers, hrest, hcalls⟩ := h
  -- only the address's own calls count
  have hown : ∀ p : Call → Bool, (∀ c, p c → c.key? = some key) →
      calls.countP p = (Call.connection key t :: .request key u :: rest).countP p := by
    intro p hp
    rw [← hcalls, List.countP_filter]
    refine List.countP_congr fun c _ => ⟨fun hc => ?_, fun hc => ?_⟩
    · simp [hc, hp c hc]
    · exact (Bool.and_eq_true _ _ ▸ hc : _ ∧ _).1
  have hsum : ∀ p : Call → Bool, (∀ w ∈ workers, w.countP p ≤ 1) →
      rest.countP p ≤ roster.usernames.length := by
    intro p hp
    rw [hrest.countP p, ← hlen]
    have := List.sum_le_card_nsmul (workers.map (List.countP p)) 1 fun n hn => by
      obtain ⟨w, hw, rfl⟩ := List.mem_map.mp hn
      exact hp w hw
    simpa using this
  constructor
  · rw [hown _ (fun c hc => ?_)]
    · have := hsum (Call.connects key) fun w hw => (hworkers w hw).countP_le.1
      simpa [Call.connects, List.countP_cons] using this
    · cases c with
      | connection k _ => exact congrArg some (beq_iff_eq.mp hc)
      | request => cases hc
      | maintenance => cases hc
  · rw [hown _ (fun c hc => ?_)]
    · have := hsum (Call.asks key) fun w hw => (hworkers w hw).countP_le.2
      simpa [Call.asks, List.countP_cons] using this
    · cases c with
      | request k _ => exact congrArg some (beq_iff_eq.mp hc)
      | connection => cases hc
      | maintenance => cases hc

/-- The calls of a sender that is through with nine members within a millisecond, and connects for a tenth. -/
def fanOut : List Call :=
  .connection 1 0 :: .request 1 0 ::
    (List.replicate 9 [Call.connection 1 0, .request 1 0] ++ [[Call.connection 1 0]]).flatten

/-- The other members may come later. -/
theorem groupSend_fanOut {roster : GroupRoster} (h : 10 ≤ roster.usernames.length) :
    GroupSend 1 roster fanOut := by
  refine ⟨0, 0, List.replicate 9 [.connection 1 0, .request 1 0] ++ [[.connection 1 0]] ++
    List.replicate (roster.usernames.length - 10) [], _, ?_, fun w hw => ⟨0, 0, ?_⟩,
    System.Interleaves.flatten _, ?_⟩
  · simp only [List.length_append, List.length_replicate, List.length_singleton]
    omega
  · simp only [List.mem_append, List.mem_replicate, List.mem_singleton] at hw
    rcases hw with (⟨-, rfl⟩ | rfl) | ⟨-, rfl⟩
    · exact List.prefix_refl _
    · exact ⟨[.request 1 0], rfl⟩
    · exact List.nil_prefix
  · rw [List.flatten_append, List.flatten_replicate_nil, List.append_nil]
    decide

theorem refused_fanOut : ∃ p ∈ RateLimiter.started.serve fanOut, p.1.key? = some 1 ∧ p.2 = false := by
  decide +kernel

/-- With the default limits, everything that a group send asks for is let through, whatever its timing and
whatever else the limiter is asked, exactly if there are at most nine members. -/
theorem fan_out_admitted (roster : GroupRoster) :
    (∀ l : RateLimiter, l.limits = {} → ∀ key, l.Fresh key → ∀ calls, GroupSend key roster calls →
      ∀ p ∈ l.serve calls, p.1.key? = some key → p.2 = true) ↔ roster.usernames.length ≤ 9 := by
  refine ⟨fun hall => ?_, fun hsmall l hlimits key hfresh calls h => ?_⟩
  · by_contra hlarge
    obtain ⟨p, hp, hkey, hrefused⟩ := refused_fanOut
    have hadmitted := hall .started rfl 1 nofun fanOut (groupSend_fanOut (by omega)) p hp hkey
    cases hrefused.symm.trans hadmitted
  · obtain ⟨hconnects, hasks⟩ := h.countP_le
    have hten : ∀ n, n ≤ roster.usernames.length + 1 → (n : Rat) ≤ l.limits.burst := by
      intro n hn
      rw [hlimits]
      show (n : Rat) ≤ 10
      exact_mod_cast (by omega : n ≤ 10)
    refine RateLimiter.Stocked.serve (by rw [hlimits]; norm_num) (by rw [hlimits]; norm_num) ?_
    refine ⟨fun p hp hkey => ?_, hten _ hconnects, hten _ hasks⟩
    obtain ⟨hc, hr⟩ := hfresh p hp hkey
    exact ⟨hc ▸ hten _ hconnects, hr ▸ hten _ hasks, hc.le, hr.le⟩

/-- The calls of a sender to a group of three, with the housekeeping of the server and another client between
them; the third member is not asked yet. -/
def fanOutToThree : List Call :=
  [.connection 1 5, .request 1 5, .connection 1 6, .request 1 7, .maintenance 7, .connection 1 6,
    .connection 2 7, .request 1 8, .connection 1 6]

theorem fan_out_admitted_three :
    GroupSend 1 ⟨[[97], [98], [99]]⟩ fanOutToThree ∧
      ∀ p ∈ RateLimiter.started.serve fanOutToThree, p.1.key? = some 1 → p.2 = true := by
  have hsend : GroupSend 1 ⟨[[97], [98], [99]]⟩ fanOutToThree := by
    refine ⟨5, 5, [[.connection 1 6, .request 1 7], [.connection 1 6, .request 1 8], [.connection 1 6]], _, rfl,
      ?_, System.Interleaves.flatten _, by decide⟩
    simp only [List.forall_mem_cons]
    exact ⟨⟨6, 7, List.prefix_refl _⟩, ⟨6, 8, List.prefix_refl _⟩, ⟨6, 0, ⟨[.request 1 0], rfl⟩⟩, nofun⟩
  exact ⟨hsend, (fan_out_admitted _).mpr (by decide) .started rfl 1 nofun _ hsend⟩

/-- Ten members that are accepting. -/
def tenMembers : GroupRoster :=
  ⟨[[97], [98], [99], [100], [101], [102], [103], [104], [105], [106]]⟩

/-- The eleventh connection of a sender to a group of ten is refused. -/
theorem fan_out_refused :
    tenMembers.WellFormed ∧ RateLimiter.started.limits = {} ∧ RateLimiter.started.Fresh 1 ∧
      GroupSend 1 tenMembers fanOut ∧
      ∃ p ∈ RateLimiter.started.serve fanOut, p.1.key? = some 1 ∧ p.2 = false :=
  ⟨⟨by decide, by decide⟩, rfl, nofun, groupSend_fanOut (by decide), refused_fanOut⟩

end DropZone
