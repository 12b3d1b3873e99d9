import Mathlib.Data.Rat.Defs
import DropZone.Wire.Payload

/-!
# Rate limiter (`server/src/rate_limiter.cpp`)

Token buckets per address. The tokens are rational numbers here; the source has doubles.
-/

namespace DropZone

open LittleEndian

/-- `RateLimits`. -/
structure RateLimits where
  connectionsPerMinute : Rat := 60
  requestsPerMinute : Rat := 20
  burst : Rat := 10
  maxBuckets : Nat := 65536

structure Bucket where
  connectionTokens : Rat
  requestTokens : Rat
  lastRefillMs : UInt64

structure RateLimiter where
  limits : RateLimits := {}
  /-- The first eight bytes of the HMAC of an address under the salt drawn at start-up. -/
  saltedHash : Bytes → UInt64
  buckets : List (UInt64 × Bucket) := []

namespace RateLimiter

/-- `RateLimiter::key_for`: the address, or the first half of an IPv6 one, without the port. -/
def keyFor (l : RateLimiter) : Endpoint → UInt64
  | .v4 _ address => l.saltedHash address.toList
  | .v6 _ address => l.saltedHash (address.toList.take 8)
  | .unspecified => 0

/-- The bucket after the refill for the time since the last one. -/
def refill (limits : RateLimits) (bucket : Bucket) (nowMs : UInt64) : Bucket :=
  let elapsedMinutes : Rat := ((nowMs - bucket.lastRefillMs).toNat : Rat) / 60000
  if 0 < elapsedMinutes then
    { connectionTokens :=
        min (bucket.connectionTokens + elapsedMinutes * limits.connectionsPerMinute) limits.burst
      requestTokens :=
        min (bucket.requestTokens + elapsedMinutes * limits.requestsPerMinute) limits.burst
      lastRefillMs := nowMs }
  else bucket

theorem refill_now (limits : RateLimits) (b : Bucket) : refill limits b b.lastRefillMs = b := by
  unfold refill
  simp

/-- Takes one token if there is one. -/
def charge (bucket : Bucket) (isRequest : Bool) : Bool × Bucket :=
  let tokens := if isRequest then bucket.requestTokens else bucket.connectionTokens
  if tokens < 1 then (false, bucket)
  else if isRequest then (true, { bucket with requestTokens := tokens - 1 })
  else (true, { bucket with connectionTokens := tokens - 1 })

/-- `RateLimiter::consume`. A full table is cleared before a new address is added. -/
def consume (l : RateLimiter) (key nowMs : UInt64) (isRequest : Bool) : Bool × RateLimiter :=
  match l.buckets.lookup key with
  | some bucket =>
    let (allowed, bucket) := charge (refill l.limits bucket nowMs) isRequest
    (allowed, { l with buckets := (key, bucket) :: l.buckets.filter (fun b => b.1 != key) })
  | none =>
    let kept := if l.limits.maxBuckets ≤ l.buckets.length then [] else l.buckets
    let (allowed, bucket) := charge (refill l.limits ⟨l.limits.burst, l.limits.burst, nowMs⟩ nowMs)
      isRequest
    (allowed, { l with buckets := (key, bucket) :: kept })

def allowConnection (l : RateLimiter) (key nowMs : UInt64) : Bool × RateLimiter :=
  l.consume key nowMs false

def allowRequest (l : RateLimiter) (key nowMs : UInt64) : Bool × RateLimiter :=
  l.consume key nowMs true

def evictIdle (l : RateLimiter) (nowMs idleMs : UInt64) : RateLimiter :=
  { l with buckets := l.buckets.filter fun b => !(decide (nowMs - b.2.lastRefillMs > idleMs)) }

end RateLimiter

end DropZone
