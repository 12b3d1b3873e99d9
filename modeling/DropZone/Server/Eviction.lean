import Mathlib.Tactic.GCongr
import DropZone.Server.Throttling

/-!
# Eviction of idle buckets

`evict_idle` may drop a bucket because a new one is full. `eviction_invisible`: where a bucket is
full again after the idle time, and the calls come in the order of their times, the answers are
those of a limiter that never evicts. The two limiters are kept `Alike`: a bucket that one of them
has dropped is idle in the other.
-/

namespace DropZone

open LittleEndian

namespace RateLimiter

/-- The answers to the calls that ask for a token; `maintenance` evicts after `idleMs`. -/
def answers (idleMs : UInt64) (l : RateLimiter) : List Call → List Bool
  | [] => []
  | .connection key nowMs :: calls =>
    (l.allowConnection key nowMs).1 :: answers idleMs (l.allowConnection key nowMs).2 calls
  | .request key nowMs :: calls =>
    (l.allowRequest key nowMs).1 :: answers idleMs (l.allowRequest key nowMs).2 calls
  | .maintenance nowMs :: calls => answers idleMs (l.evictIdle nowMs idleMs) calls

/-- A bucket without a token is full after the idle time. -/
structure FullAfter (limits : RateLimits) (idleMs : UInt64) : Prop where
  burst : 0 ≤ limits.burst
  connectionsPerMinute : 0 ≤ limits.connectionsPerMinute
  requestsPerMinute : 0 ≤ limits.requestsPerMinute
  connections : limits.burst ≤ (idleMs.toNat : Rat) / 60000 * limits.connectionsPerMinute
  requests : limits.burst ≤ (idleMs.toNat : Rat) / 60000 * limits.requestsPerMinute

/-- The bucket has not been refilled after `nowMs` and owes no token. -/
structure Bucket.Settled (b : Bucket) (nowMs : UInt64) : Prop where
  past : b.lastRefillMs ≤ nowMs
  connectionTokens : 0 ≤ b.connectionTokens
  requestTokens : 0 ≤ b.requestTokens

/-- The limiter `l` evicts and `l'` does not. A bucket that only `l'` has is idle at `nowMs`. -/
structure Alike (idleMs nowMs : UInt64) (l l' : RateLimiter) : Prop where
  limits : l.limits = l'.limits
  settled : ∀ key b, l'.bucket key = some b → Bucket.Settled b nowMs
  bucket : ∀ key, l.bucket key = l'.bucket key ∨
    l.bucket key = none ∧ ∀ b, l'.bucket key = some b → idleMs < nowMs - b.lastRefillMs

variable {limits : RateLimits} {l l' : RateLimiter} {b : Bucket} {K : Finset UInt64}
  {idleMs nowMs laterMs key : UInt64}

/-! ## One bucket -/

theorem Bucket.Settled.later (h : Bucket.Settled b nowMs) (hle : nowMs ≤ laterMs) :
    Bucket.Settled b laterMs :=
  ⟨UInt64.le_trans h.past hle, h.connectionTokens, h.requestTokens⟩

theorem Bucket.Settled.idle_later (h : Bucket.Settled b nowMs) (hle : nowMs ≤ laterMs)
    (hidle : idleMs < nowMs - b.lastRefillMs) : idleMs < laterMs - b.lastRefillMs := by
  rw [UInt64.lt_iff_toNat_lt, UInt64.toNat_sub_of_le _ _ h.past] at hidle
  rw [UInt64.lt_iff_toNat_lt, UInt64.toNat_sub_of_le _ _ (h.later hle).past]
  have := UInt64.le_iff_toNat_le.mp hle
  omega

theorem tokens_full {idle elapsed rate burst tokens : Rat} (hrate : 0 ≤ rate)
    (htokens : 0 ≤ tokens) (hfull : burst ≤ idle * rate) (hidle : idle ≤ elapsed) :
    min (tokens + elapsed * rate) burst = burst := by
  refine min_eq_right ?_
  calc burst ≤ idle * rate := hfull
    _ ≤ elapsed * rate := by gcongr
    _ ≤ tokens + elapsed * rate := le_add_of_nonneg_left htokens

theorem refill_idle (hlimits : FullAfter limits idleMs) (h : Bucket.Settled b nowMs)
    (hidle : idleMs < nowMs - b.lastRefillMs) :
    refill limits b nowMs = ⟨limits.burst, limits.burst, nowMs⟩ := by
  have hlt : idleMs.toNat < (nowMs - b.lastRefillMs).toNat := UInt64.lt_iff_toNat_lt.mp hidle
  have hpos : (0 : Rat) < ((nowMs - b.lastRefillMs).toNat : Rat) / 60000 :=
    div_pos (by exact_mod_cast Nat.zero_lt_of_lt hlt) (by norm_num)
  have hle : (idleMs.toNat : Rat) / 60000 ≤ ((nowMs - b.lastRefillMs).toNat : Rat) / 60000 := by
    gcongr
  unfold refill
  rw [if_pos hpos,
    tokens_full hlimits.connectionsPerMinute h.connectionTokens hlimits.connections hle,
    tokens_full hlimits.requestsPerMinute h.requestTokens hlimits.requests hle]

theorem Bucket.Settled.refill (hlimits : FullAfter limits idleMs) (h : Bucket.Settled b nowMs) :
    Bucket.Settled (refill limits b nowMs) nowMs := by
  unfold RateLimiter.refill
  dsimp only
  split
  · rename_i hpos
    refine ⟨UInt64.le_refl _, le_min ?_ hlimits.burst, le_min ?_ hlimits.burst⟩
    · exact add_nonneg h.connectionTokens (mul_nonneg hpos.le hlimits.connectionsPerMinute)
    · exact add_nonneg h.requestTokens (mul_nonneg hpos.le hlimits.requestsPerMinute)
  · exact h

theorem Bucket.Settled.charge (h : Bucket.Settled b nowMs) (isRequest : Bool) :
    Bucket.Settled (charge b isRequest).2 nowMs := by
  cases isRequest with
  | false =>
    by_cases ht : b.connectionTokens < 1
    · rw [show RateLimiter.charge b false = (false, b) from if_pos ht]
      exact h
    · rw [show RateLimiter.charge b false =
        (true, { b with connectionTokens := b.connectionTokens - 1 }) from if_neg ht]
      exact ⟨h.past, sub_nonneg.mpr (not_lt.mp ht), h.requestTokens⟩
  | true =>
    by_cases ht : b.requestTokens < 1
    · rw [show RateLimiter.charge b true = (false, b) from if_pos ht]
      exact h
    · rw [show RateLimiter.charge b true =
        (true, { b with requestTokens := b.requestTokens - 1 }) from if_neg ht]
      exact ⟨h.past, h.connectionTokens, sub_nonneg.mpr (not_lt.mp ht)⟩

/-! ## One call -/

theorem Alike.later (h : Alike idleMs nowMs l l') (hle : nowMs ≤ laterMs) :
    Alike idleMs laterMs l l' := by
  refine ⟨h.limits, fun key b hb => (h.settled key b hb).later hle, fun key => ?_⟩
  rcases h.bucket key with heq | ⟨hnone, hidle⟩
  · exact .inl heq
  · exact .inr ⟨hnone, fun b hb => (h.settled key b hb).idle_later hle (hidle b hb)⟩

/-- Both limiters charge the same bucket. -/
theorem Alike.reached (hlimits : FullAfter l'.limits idleMs) (h : Alike idleMs nowMs l l')
    (key : UInt64) :
    l.reached key nowMs = l'.reached key nowMs ∧
      Bucket.Settled (l'.reached key nowMs) nowMs := by
  unfold RateLimiter.reached
  cases hb : l'.bucket key with
  | none =>
    have hnone : l.bucket key = none := by
      rcases h.bucket key with heq | ⟨hnone, -⟩
      · rw [heq, hb]
      · exact hnone
    rw [hnone, h.limits]
    exact ⟨rfl, UInt64.le_refl _, hlimits.burst, hlimits.burst⟩
  | some b =>
    have hsettled := h.settled key b hb
    refine ⟨?_, hsettled.refill hlimits⟩
    rcases h.bucket key with heq | ⟨hnone, hidle⟩
    · rw [heq, hb, h.limits]
    · rw [hnone, h.limits]
      exact (refill_idle hlimits hsettled (hidle b hb)).symm

theorem Alike.consume (hlimits : FullAfter l'.limits idleMs) (hkeyed : l.Keyed K)
    (hkeyed' : l'.Keyed K) (hK : K.card ≤ l'.limits.maxBuckets) (hkey : key ∈ K)
    (h : Alike idleMs nowMs l l') (isRequest : Bool) :
    (l.consume key nowMs isRequest).1 = (l'.consume key nowMs isRequest).1 ∧
      Alike idleMs nowMs (l.consume key nowMs isRequest).2 (l'.consume key nowMs isRequest).2 := by
  obtain ⟨hreached, hsettled⟩ := h.reached hlimits key
  have hroom := hkeyed.room (by rwa [h.limits]) hkey
  have hroom' := hkeyed'.room hK hkey
  refine ⟨by rw [consume_fst, consume_fst, hreached], ⟨?_, fun k b hb => ?_, fun k => ?_⟩⟩
  · rw [consume_limits, consume_limits, h.limits]
  · by_cases hk : k = key
    · subst hk
      rw [bucket_consume_self, Option.some.injEq] at hb
      exact hb ▸ hsettled.charge isRequest
    · rw [bucket_consume_other hk hroom'] at hb
      exact h.settled k b hb
  · by_cases hk : k = key
    · subst hk
      rw [bucket_consume_self, bucket_consume_self, hreached]
      exact .inl rfl
    · rw [bucket_consume_other hk hroom, bucket_consume_other hk hroom']
      exact h.bucket k

theorem Alike.evictIdle (hkeyed : l.Keyed K) (h : Alike idleMs nowMs l l') :
    Alike idleMs nowMs (l.evictIdle nowMs idleMs) l' := by
  refine ⟨h.limits, h.settled, fun key => ?_⟩
  rw [hkeyed.bucket_evictIdle key nowMs idleMs]
  rcases h.bucket key with heq | ⟨hnone, hidle⟩
  · rw [heq]
    cases hb : l'.bucket key with
    | none => exact .inl rfl
    | some b =>
      by_cases hidle : idleMs < nowMs - b.lastRefillMs
      · refine .inr ⟨by simp [Option.filter, hidle], fun b' hb' => ?_⟩
        cases hb'
        exact hidle
      · exact .inl (by simp [Option.filter, hidle])
  · rw [hnone]
    exact .inr ⟨rfl, hidle⟩

/-! ## Whole runs -/

theorem Alike.answers {calls : List Call} (hlimits : FullAfter l'.limits idleMs)
    (hkeyed : l.Keyed K) (hkeyed' : l'.Keyed K) (hK : K.card ≤ l'.limits.maxBuckets)
    (hkeys : ∀ call ∈ calls, ∀ key, call.key? = some key → key ∈ K)
    (hordered : calls.Pairwise (·.nowMs ≤ ·.nowMs)) (hnow : ∀ call ∈ calls, nowMs ≤ call.nowMs)
    (h : Alike idleMs nowMs l l') :
    answers idleMs l calls = answers idleMs l' (calls.filter (·.key?.isSome)) := by
  induction calls generalizing l l' nowMs with
  | nil => rfl
  | cons call calls ih =>
    obtain ⟨hnext, hlater⟩ := List.pairwise_cons.mp hordered
    replace h := h.later (hnow call List.mem_cons_self)
    have hrest : ∀ call' ∈ calls, ∀ key, call'.key? = some key → key ∈ K :=
      fun call' hmem => hkeys call' (List.mem_cons_of_mem _ hmem)
    have hkey := hkeys call List.mem_cons_self
    have hasked : ∀ key isRequest, key ∈ K →
        (l.consume key call.nowMs isRequest).1 :: answers idleMs
            (l.consume key call.nowMs isRequest).2 calls =
          (l'.consume key call.nowMs isRequest).1 :: answers idleMs
            (l'.consume key call.nowMs isRequest).2 (calls.filter (·.key?.isSome)) := by
      intro key isRequest hmem
      obtain ⟨hanswer, hafter⟩ := Alike.consume hlimits hkeyed hkeyed' hK hmem h isRequest
      rw [hanswer, ih ?_ (hkeyed.consume hmem) (hkeyed'.consume hmem) ?_ hrest hlater hnext hafter]
      · rwa [consume_limits]
      · rwa [consume_limits]
    cases call with
    | maintenance nowMs =>
      rw [List.filter_cons_of_neg (by simp [Call.key?])]
      exact ih hlimits hkeyed.evictIdle hkeyed' hK hrest hlater hnext (h.evictIdle hkeyed)
    | connection key nowMs =>
      rw [List.filter_cons_of_pos (by simp [Call.key?])]
      exact hasked key false (hkey key rfl)
    | request key nowMs =>
      rw [List.filter_cons_of_pos (by simp [Call.key?])]
      exact hasked key true (hkey key rfl)

/-- The answers are those of the same calls without the evictions. -/
theorem eviction_invisible (l : RateLimiter) (idleMs : UInt64) (calls : List Call)
    (hstart : l.buckets = []) (hburst : 0 ≤ l.limits.burst)
    (hconnections : 0 ≤ l.limits.connectionsPerMinute)
    (hrequests : 0 ≤ l.limits.requestsPerMinute)
    (hfullConnections :
      l.limits.burst ≤ (idleMs.toNat : Rat) / 60000 * l.limits.connectionsPerMinute)
    (hfullRequests : l.limits.burst ≤ (idleMs.toNat : Rat) / 60000 * l.limits.requestsPerMinute)
    (hordered : calls.Pairwise (·.nowMs ≤ ·.nowMs))
    (hkeys : (calls.filterMap Call.key?).toFinset.card < l.limits.maxBuckets) :
    l.answers idleMs calls = l.answers idleMs (calls.filter (·.key?.isSome)) := by
  have hkeyed : l.Keyed (calls.filterMap Call.key?).toFinset :=
    ⟨by simp [hstart], fun p hp => by simp [hstart] at hp⟩
  have halike : Alike idleMs 0 l l :=
    ⟨rfl, fun key b hb => by simp [RateLimiter.bucket, hstart] at hb, fun _ => .inl rfl⟩
  refine halike.answers ⟨hburst, hconnections, hrequests, hfullConnections, hfullRequests⟩ hkeyed
    hkeyed hkeys.le (fun call hmem key hkey => ?_) hordered fun call _ => ?_
  · exact List.mem_toFinset.mpr (List.mem_filterMap.mpr ⟨call, hmem, hkey⟩)
  · exact UInt64.le_iff_toNat_le.mpr (Nat.zero_le _)

/-- An empty bucket is dropped after ten idle minutes and the next request meets a new one. -/
theorem eviction_invisible_idle :
    answers 600000 ⟨{ burst := 1 }, fun _ => 0, []⟩
        [.request 7 0, .request 7 0, .maintenance 600001, .request 7 600001] =
      [true, false, true] := by
  refine (eviction_invisible ⟨{ burst := 1 }, fun _ => 0, []⟩ 600000 _ rfl (by decide) (by decide)
    (by decide) ?_ ?_ (by decide) (by decide)).trans ?_
  · norm_num [show UInt64.toNat 600000 = 600000 from rfl]
  · norm_num [show UInt64.toNat 600000 = 600000 from rfl]
  · decide +kernel

end RateLimiter

end DropZone
