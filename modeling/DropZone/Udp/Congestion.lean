import DropZone.Udp.Timeouts
import Mathlib.Algebra.Order.Field.Basic
import Mathlib.Algebra.Order.Ring.Rat
import Mathlib.Tactic.Linarith
import Mathlib.Tactic.Ring

/-!
# Congestion control and pacing

How many packets `fill_window` builds is decided by the congestion window and by a token bucket. Their
doubles are exact rationals here: the sums of `1.0 / cwnd_` in the source are rounded, and fall short of 1 at
some windows (6, 7 and 10), where the window grows an acknowledgement later.

* `PacedEnd`: an end whose `fill_window` asks them. `paced_refines`: it does nothing that an end cannot do
  which only keeps below `max_cwnd`.
* `window_bounded`: the members stay within their bounds. `window_growth`: what an acknowledgement does to
  the window.
-/

namespace DropZone

open LittleEndian System

namespace UdpTuning

def initialCwnd : ℚ := 32
def minCwnd : ℚ := 4
def maxBurst : ℚ := 48

theorem maxBurst_nonneg : 0 ≤ maxBurst := by decide +kernel

theorem minCwnd_le_maxCwnd : minCwnd ≤ maxCwnd := by decide +kernel

end UdpTuning

open UdpTuning

def kAssumedRttUs : ℚ := 1000

/-- The members of the congestion control and of the pacer. -/
structure Congestion where
  cwnd : ℚ := initialCwnd
  ssthresh : ℚ := maxCwnd
  cwndFraction : ℚ := 0
  sendTokens : ℚ := 0
  lastTokenUs : UInt64 := 0
  /-- The packets that were built since the last refill. -/
  released : Nat := 0

namespace Congestion

/-- `packets_per_us`. -/
def rate (g : Congestion) (srttUs : UInt64) : ℚ :=
  g.cwnd / if srttUs > 0 then (srttUs.toNat : ℚ) else kAssumedRttUs

def refillPacingTokens (g : Congestion) (now srttUs : UInt64) : Congestion :=
  if g.lastTokenUs = 0 then { g with lastTokenUs := now, sendTokens := maxBurst, released := 0 }
  else
    { g with
      lastTokenUs := now
      sendTokens := min (g.sendTokens + (now - g.lastTokenUs).toNat * g.rate srttUs) maxBurst
      released := 0 }

/-- A packet of `fill_window`. -/
def spend (g : Congestion) : Congestion :=
  { g with sendTokens := g.sendTokens - 1, released := g.released + 1 }

/-- The loop of `process_ack` that grows the window, for one packet. -/
def acked (g : Congestion) : Congestion :=
  if g.cwnd < g.ssthresh then { g with cwnd := g.cwnd + 1 }
  else
    let fraction := g.cwndFraction + 1 / g.cwnd
    if fraction ≥ 1 then { g with cwnd := g.cwnd + 1, cwndFraction := fraction - 1 }
    else { g with cwndFraction := fraction }

/-- The loop and the cut at `max_cwnd`. -/
def grow (n : Nat) (g : Congestion) : Congestion :=
  { acked^[n] g with cwnd := min (acked^[n] g).cwnd maxCwnd }

def onLoss (g : Congestion) : Congestion :=
  { g with ssthresh := max minCwnd (g.cwnd / 2), cwnd := max minCwnd (g.cwnd / 2), cwndFraction := 0 }

/-- What `retransmit_timed_out` does to the window. -/
def onTimeout (g : Congestion) : Congestion :=
  { g with
    ssthresh := max minCwnd (g.cwnd / 2), cwnd := minCwnd, cwndFraction := 0, sendTokens := 0 }

/-- What holds also inside of the loop that grows the window. -/
structure Sound (g : Congestion) : Prop where
  cwnd : minCwnd ≤ g.cwnd
  ssthresh : minCwnd ≤ g.ssthresh ∧ g.ssthresh ≤ maxCwnd
  fraction : 0 ≤ g.cwndFraction ∧ g.cwndFraction < 1
  tokens : 0 ≤ g.sendTokens ∧ g.released + g.sendTokens ≤ maxBurst

variable {g : Congestion} {now srttUs : UInt64} {n : Nat}

theorem sound_initial : ({} : Congestion).Sound := by
  constructor <;> decide +kernel

theorem Sound.one_lt (h : g.Sound) : 1 < g.cwnd := lt_of_lt_of_le (by decide +kernel) h.cwnd

theorem Sound.rate_pos (h : g.Sound) : 0 < g.rate srttUs := by
  refine div_pos (one_pos.trans h.one_lt) ?_
  split
  · rename_i hsrtt
    exact Nat.cast_pos.mpr hsrtt
  · decide +kernel

theorem Sound.refill (h : g.Sound) : (g.refillPacingTokens now srttUs).Sound := by
  unfold refillPacingTokens
  split
  · exact ⟨h.cwnd, h.ssthresh, h.fraction, maxBurst_nonneg, by simp⟩
  · have hrate : 0 < g.rate srttUs := h.rate_pos
    have hflow := mul_nonneg (Nat.cast_nonneg (α := ℚ) (now - g.lastTokenUs).toNat) hrate.le
    exact ⟨h.cwnd, h.ssthresh, h.fraction, le_min (add_nonneg h.tokens.1 hflow) maxBurst_nonneg, by simp⟩

theorem Sound.spend (h : g.Sound) (ht : 1 ≤ g.sendTokens) : g.spend.Sound := by
  refine ⟨h.cwnd, h.ssthresh, h.fraction, sub_nonneg.mpr ht, ?_⟩
  simp only [Congestion.spend]
  push_cast
  linarith [h.tokens.2]

theorem Sound.acked (h : g.Sound) : g.acked.Sound := by
  have hpos : 0 < 1 / g.cwnd := one_div_pos.mpr (one_pos.trans h.one_lt)
  have hlt : 1 / g.cwnd < 1 := (div_lt_one (one_pos.trans h.one_lt)).mpr h.one_lt
  have hgrown : minCwnd ≤ g.cwnd + 1 := h.cwnd.trans (le_add_of_nonneg_right zero_le_one)
  unfold Congestion.acked
  dsimp only
  split_ifs with hslow hfull
  · exact ⟨hgrown, h.ssthresh, h.fraction, h.tokens⟩
  · exact ⟨hgrown, h.ssthresh, ⟨sub_nonneg.mpr hfull, by linarith [h.fraction.2]⟩, h.tokens⟩
  · exact ⟨h.cwnd, h.ssthresh, ⟨by linarith [h.fraction.1], not_le.mp hfull⟩, h.tokens⟩

theorem Sound.rounds (h : g.Sound) : ∀ n, (Congestion.acked^[n] g).Sound
  | 0 => h
  | n + 1 => by
    rw [Function.iterate_succ_apply']
    exact (h.rounds n).acked

theorem Sound.grow (h : g.Sound) (n : Nat) : (g.grow n).Sound :=
  { h.rounds n with cwnd := le_min (h.rounds n).cwnd minCwnd_le_maxCwnd }

theorem halved_le (h : g.cwnd ≤ maxCwnd) : max minCwnd (g.cwnd / 2) ≤ maxCwnd := by
  have hmax : (0 : ℚ) ≤ maxCwnd := Nat.cast_nonneg _
  exact max_le minCwnd_le_maxCwnd (by linarith)

theorem Sound.onLoss (h : g.Sound) (hmax : g.cwnd ≤ maxCwnd) : g.onLoss.Sound :=
  ⟨le_max_left _ _, ⟨le_max_left _ _, halved_le hmax⟩, ⟨le_refl _, zero_lt_one⟩, h.tokens⟩

theorem Sound.onTimeout (h : g.Sound) (hmax : g.cwnd ≤ maxCwnd) : g.onTimeout.Sound :=
  ⟨le_refl _, ⟨le_max_left _ _, halved_le hmax⟩, ⟨le_refl _, zero_lt_one⟩, le_refl _,
    (add_le_add_right h.tokens.1 _).trans h.tokens.2⟩

/-- One round, past the threshold too: the window grows by one or not at all, and window and fraction
together grow by the inverse of the window. -/
theorem acked_grows (g : Congestion) : (g.acked.cwnd = g.cwnd ∨ g.acked.cwnd = g.cwnd + 1) ∧
    g.acked.ssthresh = g.ssthresh ∧ (g.ssthresh ≤ g.cwnd →
      g.acked.cwnd + g.acked.cwndFraction = g.cwnd + g.cwndFraction + 1 / g.cwnd) := by
  unfold acked
  dsimp only
  split_ifs with hslow hfull
  · exact ⟨.inr rfl, rfl, fun hpast => absurd hslow hpast.not_gt⟩
  · exact ⟨.inr rfl, rfl, fun _ => by dsimp only; ring⟩
  · exact ⟨.inl rfl, rfl, fun _ => (add_assoc _ _ _).symm⟩

theorem rounds_grow (h : g.Sound) : ∀ n,
    g.cwnd ≤ (acked^[n] g).cwnd ∧ (acked^[n] g).cwnd ≤ g.cwnd + n ∧ (acked^[n] g).ssthresh = g.ssthresh ∧
      (g.ssthresh ≤ g.cwnd →
        (acked^[n] g).cwnd + (acked^[n] g).cwndFraction ≤ g.cwnd + g.cwndFraction + n / g.cwnd)
  | 0 => ⟨le_refl _, by simp, rfl, fun _ => by simp⟩
  | n + 1 => by
    obtain ⟨hge, hle, hsame, hsum⟩ := rounds_grow h n
    rw [Function.iterate_succ_apply']
    generalize acked^[n] g = g' at hge hle hsame hsum
    obtain ⟨hone, hkept, hround⟩ := g'.acked_grows
    have hgrows : g'.cwnd ≤ g'.acked.cwnd ∧ g'.acked.cwnd ≤ g'.cwnd + 1 := by
      rcases hone with h | h <;> rw [h] <;> constructor <;> linarith
    push_cast
    refine ⟨hge.trans hgrows.1, by linarith, hkept.trans hsame, fun hpast => ?_⟩
    have hinv : 1 / g'.cwnd ≤ 1 / g.cwnd := one_div_le_one_div_of_le (one_pos.trans h.one_lt) hge
    rw [hround (hsame ▸ hpast.trans hge), add_div]
    linarith [hsum hpast]

end Congestion

/-! ## An end that asks -/

namespace ReliableUdpChannel

/-- `newly_acknowledged` of `process_ack`. -/
def newlyAcknowledged (c : ReliableUdpChannel) (ack : UInt32) (bits : UInt64) : Nat :=
  (c.unacknowledged.takeWhile (covered ack)).length +
    (c.unacknowledged.dropWhile (covered ack)).countP fun p => coveredBeyond ack bits p && !p.acknowledged

/-- Once packets are popped and marked: `process_ack` takes the first one that is left for lost. -/
def firstLost (c : ReliableUdpChannel) (ack : UInt32) (bits now : UInt64) : Bool :=
  c.unacknowledged.head?.any fun missing =>
    decide (c.unacknowledged.countP (coveredBeyond ack bits) ≥ fastRetransmitThreshold) &&
      !missing.acknowledged && decide (now - missing.sentUs > c.srttUs / 2)

end ReliableUdpChannel

open ReliableUdpChannel

structure PacedEnd where
  udp : UdpEnd
  congestion : Congestion := {}
  /-- The clock of `fill_window`, once it has refilled the bucket. -/
  filling : Option UInt64 := none

inductive PacedEvent where
  /-- The refill at the beginning of `fill_window`. -/
  | refill (now : UInt64)
  | udp (event : UdpEvent)

namespace PacedEnd

/-- The loop of `fill_window` goes on. -/
def fills (s : PacedEnd) : Bool :=
  decide (s.udp.channel.outgoingConsumed < s.udp.channel.outgoing.length) &&
    decide ((s.udp.channel.unacknowledged.length : ℚ) < s.congestion.cwnd) &&
    decide (1 ≤ s.congestion.sendTokens)

/-- The end after an event, with the loop of `fill_window` as it is in the source. -/
def udpNext (s : PacedEnd) : UdpEvent → Option UdpEnd
  | .packet now k =>
    if s.udp.stage = some .fill ∧ s.filling = some now ∧ s.fills then
      s.udp.act (fillPacket now k) s.udp.call (some .fill)
    else none
  | .filled => if s.filling.isSome ∧ ¬ s.fills then s.udp.next .filled else none
  | event => s.udp.next event

/-- What an event does to the window and to the tokens. -/
def adjusted (s : PacedEnd) : UdpEvent → Congestion
  | .retransmit now _ =>
    if s.udp.channel.expired now ∧ s.udp.channel.consecutiveTimeouts + 1 ≤ maxTimeouts then
      s.congestion.onTimeout
    else s.congestion
  | .packet .. => s.congestion.spend
  | .datagram now _ data _ _ _ =>
    match parseHeader data with
    | none => s.congestion
    | some h =>
      let c := s.udp.channel
      let g := s.congestion.grow (c.newlyAcknowledged h.ack h.ackBits)
      if (c.acknowledge h.ack h.ackBits now).firstLost h.ack h.ackBits now then g.onLoss else g
  | _ => s.congestion

def next (s : PacedEnd) : PacedEvent → Option PacedEnd
  | .refill now =>
    if s.udp.stage = some .fill ∧ s.filling = none then
      some { s with
        congestion := s.congestion.refillPacingTokens now s.udp.channel.srttUs
        filling := some now }
    else none
  | .udp event => (s.udpNext event).map fun e =>
    { udp := e
      congestion := s.adjusted event
      filling := if e.stage = some .fill then s.filling else none }

def Step (s : PacedEnd) (event : PacedEvent) (s' : PacedEnd) : Prop := s.next event = some s'

def Fresh (s : PacedEnd) : Prop := ∃ peer, s = { udp := { channel := { peer := peer } } }

structure Inv (s : PacedEnd) : Prop where
  sound : s.congestion.Sound
  cwnd : s.congestion.cwnd ≤ maxCwnd
  window : s.udp.channel.unacknowledged.length ≤ maxCwnd

variable {s s' : PacedEnd} {e : UdpEnd} {event : UdpEvent}

theorem next_udp (h : s.next (.udp event) = some s') :
    s.udpNext event = some s'.udp ∧ s'.congestion = s.adjusted event := by
  obtain ⟨e, he, rfl⟩ := Option.map_eq_some_iff.mp h
  exact ⟨he, rfl⟩

/-- A packet is built only for a token. -/
theorem fills_of_packet {now : UInt64} {k : Flush} (h : s.udpNext (.packet now k) = some e) :
    s.fills = true :=
  (Option.ite_none_right_eq_some.mp h).1.2.2

/-- The window is below `max_cwnd` where it is below `cwnd_`. -/
theorem udpNext_step (hmax : s.congestion.cwnd ≤ maxCwnd) (h : s.udpNext event = some e) :
    s.udp.Step event e := by
  unfold udpNext at h
  split at h
  · obtain ⟨⟨hstage, -, hfills⟩, h⟩ := Option.ite_none_right_eq_some.mp h
    simp only [fills, Bool.and_eq_true, decide_eq_true_iff] at hfills
    exact (if_pos ⟨hstage, hfills.1.1, Nat.cast_lt.mp (hfills.1.2.trans_le hmax)⟩).trans h
  · exact (Option.ite_none_right_eq_some.mp h).2
  · exact h

theorem Inv.adjusted (hinv : s.Inv) (h : s.udpNext event = some e) :
    (s.adjusted event).Sound ∧ (s.adjusted event).cwnd ≤ maxCwnd := by
  have hsame := And.intro hinv.sound hinv.cwnd
  unfold PacedEnd.adjusted
  split
  · split
    · exact ⟨hinv.sound.onTimeout hinv.cwnd, minCwnd_le_maxCwnd⟩
    · exact hsame
  · have hfills := fills_of_packet h
    simp only [fills, Bool.and_eq_true, decide_eq_true_iff] at hfills
    exact ⟨hinv.sound.spend hfills.2, hinv.cwnd⟩
  · split
    · exact hsame
    · dsimp only
      split
      · exact ⟨(hinv.sound.grow _).onLoss (min_le_right _ _), Congestion.halved_le (min_le_right _ _)⟩
      · exact ⟨hinv.sound.grow _, min_le_right _ _⟩
  · exact hsame

theorem window_change {F : Prop} {r : Remit} {c c' : ReliableUdpChannel} (h : Change F r c c')
    (hwindow : c.unacknowledged.length ≤ maxCwnd) : c'.unacknowledged.length ≤ maxCwnd := by
  cases h with
  | filled now _ hroom =>
    rw [ReliableUdpChannel.filled, List.length_append]
    exact hroom
  | resent hfirst =>
    rw [hfirst] at hwindow
    exact hwindow
  | acknowledge _ now =>
    rw [acknowledge, List.length_map]
    exact (List.dropWhile_sublist _).length_le.trans hwindow
  | other hcore =>
    simp only [Prod.mk.injEq] at hcore
    rw [hcore.2.2.2.2.1]
    exact hwindow
  | _ => exact hwindow

theorem Inv.step {event : PacedEvent} (hinv : s.Inv) (h : s.Step event s') : s'.Inv := by
  cases event with
  | refill now =>
    obtain ⟨-, h⟩ := Option.ite_none_right_eq_some.mp h
    cases h
    refine ⟨hinv.sound.refill, ?_, hinv.window⟩
    dsimp only
    unfold Congestion.refillPacingTokens
    split <;> exact hinv.cwnd
  | udp event =>
    obtain ⟨he, hg⟩ := next_udp h
    obtain ⟨hsound, hmax⟩ := hinv.adjusted he
    refine ⟨hg ▸ hsound, hg ▸ hmax, ?_⟩
    have hpath := (udpNext_step hinv.cwnd he).happens.path.2
    generalize s'.udp.channel = c at hpath
    induction hpath with
    | refl => exact hinv.window
    | tail _ hchange ih => exact window_change hchange ih

theorem Inv.of_reach (h : Reach Fresh Step s) : s.Inv := by
  refine h.invariant (I := Inv) ?_ fun _ _ _ => Inv.step
  rintro _ ⟨peer, rfl⟩
  exact ⟨Congestion.sound_initial, (by decide +kernel : initialCwnd ≤ maxCwnd), Nat.zero_le _⟩

def sentByte : List PacedEvent :=
  [.udp (.write [7]), .udp (.resume false {} {} {}), .udp (.retransmit 1 {}), .refill 1, .udp (.packet 1 {}),
    .udp .filled, .udp (.sendBatch {})]

def ackByte : UdpEvent := .datagram 9 .unspecified (ackBytes 1 0) {} {} {}

theorem sentByte_acked : ∃ s s', Reach Fresh Step s ∧ s.Step (.udp ackByte) s' ∧
    (s.congestion.cwnd, s'.congestion.cwnd) = (32, 33) := by
  obtain ⟨s, hs, s', hs', hboth⟩ : ∃ s ∈ runFrom next { udp := { channel := { peer := .unspecified } } }
      sentByte, ∃ s' ∈ s.next (.udp ackByte), (s.congestion.cwnd, s'.congestion.cwnd) = (32, 33) := by
    decide +kernel
  exact ⟨s, s', .of_runFrom (.init ⟨_, rfl⟩) hs, hs', hboth⟩

end PacedEnd

open PacedEnd

/-- **Congestion control refines the window.** A run of an end that asks `cwnd_` and the pacer is a run of
an end that builds packets as long as fewer than `max_cwnd` are unacknowledged. -/
theorem paced_refines {s : PacedEnd} (h : Reach PacedEnd.Fresh PacedEnd.Step s) :
    Reach UdpEnd.Fresh UdpEnd.Step s.udp := by
  induction h with
  | init h =>
    obtain ⟨peer, rfl⟩ := h
    exact .init ⟨peer, rfl⟩
  | @step s s' event h hs ih =>
    cases event with
    | refill now =>
      obtain ⟨-, hs⟩ := Option.ite_none_right_eq_some.mp hs
      cases hs
      exact ih
    | udp event => exact ih.step (udpNext_step (Inv.of_reach h).cwnd (next_udp hs).1)

theorem paced_refines_sent : ∃ s : PacedEnd, s.congestion.cwnd = 32 ∧ Reach UdpEnd.Fresh UdpEnd.Step s.udp := by
  obtain ⟨s, s', h, -, hcwnd⟩ := sentByte_acked
  exact ⟨s, congrArg Prod.fst hcwnd, paced_refines h⟩

/-- The window, its threshold, the fraction and the tokens stay within their bounds; `fill_window` builds
no more than `max_burst` packets in a call, and no more than `max_cwnd` are ever unacknowledged. -/
theorem window_bounded {s : PacedEnd} (h : Reach PacedEnd.Fresh PacedEnd.Step s) :
    (minCwnd ≤ s.congestion.cwnd ∧ s.congestion.cwnd ≤ maxCwnd) ∧
      (minCwnd ≤ s.congestion.ssthresh ∧ s.congestion.ssthresh ≤ maxCwnd) ∧
      (0 ≤ s.congestion.cwndFraction ∧ s.congestion.cwndFraction < 1) ∧
      (0 ≤ s.congestion.sendTokens ∧ s.congestion.released + s.congestion.sendTokens ≤ maxBurst) ∧
      s.udp.channel.unacknowledged.length ≤ maxCwnd :=
  have hinv := Inv.of_reach h
  ⟨⟨hinv.sound.cwnd, hinv.cwnd⟩, hinv.sound.ssthresh, hinv.sound.fraction, hinv.sound.tokens, hinv.window⟩

theorem window_bounded_acked : ∃ s : PacedEnd, s.congestion.cwnd = 33 ∧
    s.udp.channel.unacknowledged.length ≤ maxCwnd := by
  obtain ⟨s, s', h, hs, hcwnd⟩ := sentByte_acked
  exact ⟨s', congrArg Prod.snd hcwnd, (window_bounded (h.step hs)).2.2.2.2⟩

/-- A datagram that newly acknowledges `n` packets grows the window by at most `n`, and past the threshold
by less than `1 + n / cwnd_`. Only a loss shrinks it, at most to the half. -/
theorem window_growth {s s' : PacedEnd} {now : UInt64} {source : Endpoint} {data : Bytes} {k k' k'' : Flush}
    {header : UdpHeader} (h : Reach PacedEnd.Fresh PacedEnd.Step s)
    (hs : s.Step (.udp (.datagram now source data k k' k'')) s') (hparse : parseHeader data = some header) :
    let n := s.udp.channel.newlyAcknowledged header.ack header.ackBits
    s'.congestion.cwnd ≤ s.congestion.cwnd + n ∧
      (s.congestion.ssthresh ≤ s.congestion.cwnd →
        s'.congestion.cwnd < s.congestion.cwnd + 1 + n / s.congestion.cwnd) ∧
      (s.congestion.cwnd ≤ s'.congestion.cwnd ∨ s.congestion.cwnd / 2 ≤ s'.congestion.cwnd ∧
        (s.udp.channel.acknowledge header.ack header.ackBits now).firstLost header.ack header.ackBits now) := by
  intro n
  have hinv := Inv.of_reach h
  obtain ⟨hge, hle, -, hsum⟩ := Congestion.rounds_grow hinv.sound n
  have hsound := hinv.sound.grow n
  have hgrown : s.congestion.cwnd ≤ (s.congestion.grow n).cwnd := le_min hge hinv.cwnd
  have hcut : (s.congestion.grow n).cwnd ≤ (Congestion.acked^[n] s.congestion).cwnd := min_le_left _ _
  have hslow : s.congestion.ssthresh ≤ s.congestion.cwnd →
      (s.congestion.grow n).cwnd < s.congestion.cwnd + 1 + n / s.congestion.cwnd := fun hpast => by
    linarith [hsum hpast, hinv.sound.fraction.2, (hinv.sound.rounds n).fraction.1]
  rw [(next_udp hs).2, adjusted, hparse]
  dsimp only
  split
  · rename_i hlost
    have hhalf : (s.congestion.grow n).onLoss.cwnd ≤ (s.congestion.grow n).cwnd :=
      max_le hsound.cwnd (half_le_self (one_pos.trans hsound.one_lt).le)
    have hkept : (s.congestion.grow n).cwnd / 2 ≤ (s.congestion.grow n).onLoss.cwnd := le_max_right _ _
    exact ⟨hhalf.trans (hcut.trans hle), fun hpast => hhalf.trans_lt (hslow hpast),
      .inr ⟨(div_le_div_of_nonneg_right hgrown zero_le_two).trans hkept, hlost⟩⟩
  · exact ⟨hcut.trans hle, hslow, .inl hgrown⟩

theorem window_growth_acked : ∃ s s' : PacedEnd, s'.congestion.cwnd = 33 ∧
    s'.congestion.cwnd ≤ s.congestion.cwnd + s.udp.channel.newlyAcknowledged 1 0 := by
  obtain ⟨s, s', h, hs, hcwnd⟩ := sentByte_acked
  have hparse : parseHeader (ackBytes 1 0) =
      some { type := .ack, sequence := 0, ack := 1, ackBits := 0, length := 0 } := by
    decide +kernel
  exact ⟨s, s', congrArg Prod.snd hcwnd, (window_growth h hs hparse).1⟩

end DropZone
