import DropZone.Udp.Backed

/-!
# Giving up on the peer

`retransmit_timed_out` counts timeouts, and gives up with the thirteenth in a row. `process_ack` sets the
count back when a packet is acknowledged for the first time, and for nothing else that the peer sends.

* `Trace`: the steps of a run, each with the end as it was before.
* `peer_given_up`: a run gives the peer up exactly if it has more than `max_timeouts` timeouts with no first
  acknowledgement between them.
* `answering_peer_given_up`: a peer whose acknowledgements are all processed, and that has no room for more.
-/

namespace DropZone

open LittleEndian StateSpec System

namespace ReliableUdpChannel

variable {c c' : ReliableUdpChannel}

/-- The acknowledgement covers a packet that was not acknowledged before. -/
def news (c : ReliableUdpChannel) (ack : UInt32) (bits : UInt64) : Bool :=
  c.unacknowledged.head?.any (covered ack) ||
    c.unacknowledged.any fun p => coveredBeyond ack bits p && !p.acknowledged

/-- The timer of the oldest packet has run out. -/
def expired (c : ReliableUdpChannel) (now : UInt64) : Bool :=
  c.unacknowledged.head?.any fun oldest => !decide (now - oldest.sentUs < c.rtoUs)

/-- What `retransmit_timed_out` throws. -/
def peerStopped (timeouts : Nat) : Failure :=
  .error (text "the peer stopped responding after " ++ decimal timeouts ++
    text " retransmission timeouts")

/-! ## The count -/

theorem Change.timeouts {F : Prop} {r : Remit} (h : Change F r c c') (hcounts : ¬ r.counts)
    (hhears : ∀ c ack bits, ¬ r.hears c ack bits) : c'.consecutiveTimeouts = c.consecutiveTimeouts := by
  cases h with
  | acknowledge h => exact absurd h (hhears _ _ _)
  | other _ _ hcount => exact hcount.resolve_left hcounts
  | _ => rfl

theorem Path.timeouts {F : Prop} {r : Remit} (h : Path F r c c') (hcounts : ¬ r.counts)
    (hhears : ∀ c ack bits, ¬ r.hears c ack bits) : c'.consecutiveTimeouts = c.consecutiveTimeouts := by
  induction h with
  | refl => rfl
  | tail _ hchange ih => exact (hchange.timeouts hcounts hhears).trans ih

theorem expired_nil {now : UInt64} (h : c.unacknowledged = []) : c.expired now = false := by
  rw [expired, h]
  rfl

theorem expired_cons {now : UInt64} {oldest : SentPacket} {rest : List SentPacket}
    (h : c.unacknowledged = oldest :: rest) :
    c.expired now = !decide (now - oldest.sentUs < c.rtoUs) := by
  rw [expired, h]
  rfl

theorem timeouts_retransmitTimedOut (now : UInt64) (k : Flush) (c : ReliableUdpChannel) :
    (final (retransmitTimedOut now k) c).consecutiveTimeouts =
      if c.expired now then c.consecutiveTimeouts + 1 else c.consecutiveTimeouts := by
  rw [retransmitTimedOut, final_get_bind]
  cases hfirst : c.unacknowledged with
  | nil =>
    rw [expired_nil hfirst]
    rfl
  | cons oldest rest =>
    rw [expired_cons hfirst]
    by_cases hearly : now - oldest.sentUs < c.rtoUs
    · simp only [hearly]
      rfl
    · simp only [hearly, if_false, decide_false, Bool.not_false, if_true]
      rw [final_bind_ok (EStateM.run_modify ..)]
      split
      · rfl
      · rw [final_bind_ok (EStateM.run_modify ..)]
        refine (path_queueSend (F := True) (r := {}) ?_ k).timeouts id fun _ _ _ => id
        exact ⟨_, List.mem_cons_self, rfl⟩

theorem newly_pos (ack : UInt32) (bits : UInt64) (packets : List SentPacket) :
    (0 < (packets.takeWhile (covered ack)).length +
      (packets.dropWhile (covered ack)).countP fun p => coveredBeyond ack bits p && !p.acknowledged) ↔
    (packets.head?.any (covered ack) ||
      packets.any fun p => coveredBeyond ack bits p && !p.acknowledged) = true := by
  cases packets with
  | nil => simp
  | cons p rest =>
    by_cases hp : covered ack p = true
    · simp [hp]
    · rw [List.takeWhile_cons_of_neg hp, List.dropWhile_cons_of_neg hp]
      rw [Bool.not_eq_true] at hp
      rw [List.head?_cons, Option.any_some, hp, Bool.false_or, List.length_nil, Nat.zero_add,
        List.countP_pos_iff, List.any_eq_true]

theorem timeouts_acknowledge (ack : UInt32) (bits now : UInt64) (c : ReliableUdpChannel) :
    (c.acknowledge ack bits now).consecutiveTimeouts =
      if c.news ack bits then 0 else c.consecutiveTimeouts := by
  unfold acknowledge news
  exact if_congr (newly_pos ack bits c.unacknowledged) rfl rfl

theorem timeouts_processAck (ack : UInt32) (bits now : UInt64) (k : Flush) (c : ReliableUdpChannel) :
    (final (processAck ack bits now k) c).consecutiveTimeouts =
      if c.news ack bits then 0 else c.consecutiveTimeouts := by
  rw [← timeouts_acknowledge ack bits now c]
  exact (path_processAck (F := True) (r := {}) ack bits now k c).timeouts id fun _ _ _ => id

theorem timeouts_processPacket {data : Bytes} {header : UdpHeader}
    (h : parseHeader data = some header) (now : UInt64) (k k' k'' : Flush) (c : ReliableUdpChannel) :
    (final (processPacket data now k k' k'') c).consecutiveTimeouts =
      if c.news header.ack header.ackBits then 0 else c.consecutiveTimeouts := by
  rw [processPacket_eq h, ← timeouts_processAck _ _ now k c]
  rcases final_bind_cases (processAck header.ack header.ackBits now k)
    (fun _ => dispatch header (udpPayload header data) k' k'') c with hfinal | ⟨_, hfinal⟩ <;>
    rw [hfinal]
  exact (path_dispatch (F := True) (r := { takes := True }) trivial (fun _ => id) header _ k' k'' _).timeouts id
    fun _ _ _ => id

/-! ## The failure -/

theorem sendLoop_failure {n : Nat} {results : List SendResult} {sent stalls : Nat} {f : Failure}
    (h : (sendLoop n results sent stalls).2 = some (.failure f)) :
    ∃ reason, f = .error (text "sending to the peer failed: " ++ reason) := by
  fun_induction sendLoop n results sent stalls with
  | case1 | case2 | case3 | case6 => cases h
  | case4 _ _ _ _ _ _ ih | case5 _ _ _ _ _ ih | case7 _ _ _ _ _ _ ih | case8 _ _ _ _ _ ih => exact ih h
  | case9 =>
    cases h
    exact ⟨_, rfl⟩

theorem peerStopped_ne (timeouts : Nat) (reason : Bytes) :
    peerStopped timeouts ≠ .error (text "sending to the peer failed: " ++ reason) := by
  intro h
  have hhead := congrArg List.head? (Failure.error.inj h)
  rw [List.append_assoc, List.head?_append, List.head?_append (l := text "sending to the peer failed: "),
    show (text "the peer stopped responding after ").head? = some 116 by decide,
    show (text "sending to the peer failed: ").head? = some 115 by decide] at hhead
  cases hhead

theorem queueSend_not_stopped {entry : PendingSend} {k : Flush} {timeouts : Nat} :
    (queueSend entry k).run c ≠ .error (.failure (peerStopped timeouts)) c' := by
  intro h
  have hrun : (queueSend entry k).run c = (if (c.sendBatch ++ [entry]).length ≥ UdpTuning.batchSize then
      flushSendBatch k else pure ()).run { c with sendBatch := c.sendBatch ++ [entry] } := rfl
  rw [hrun] at h
  split at h
  · rw [run_flushSendBatch (by simp)] at h
    split at h
    · rename_i sent halt hloop
      cases h
      obtain ⟨reason, hreason⟩ := sendLoop_failure (congrArg Prod.snd hloop)
      exact peerStopped_ne timeouts reason hreason
    · cases h
  · cases h

/-- The peer is given up by a timeout after `max_timeouts` others. -/
theorem retransmitTimedOut_stopped (now : UInt64) (k : Flush) (c : ReliableUdpChannel) :
    (∃ timeouts c', (retransmitTimedOut now k).run c = .error (.failure (peerStopped timeouts)) c') ↔
      c.expired now = true ∧ UdpTuning.maxTimeouts ≤ c.consecutiveTimeouts := by
  rw [retransmitTimedOut, run_bind_ok (EStateM.run_get ..)]
  cases hfirst : c.unacknowledged with
  | nil => simp [expired_nil hfirst, EStateM.run_pure]
  | cons oldest rest =>
    rw [expired_cons hfirst]
    by_cases hearly : now - oldest.sentUs < c.rtoUs
    · simp [hearly, EStateM.run_pure]
    · simp only [hearly, if_false, decide_false, Bool.not_false, true_and]
      rw [run_bind_ok (EStateM.run_modify ..)]
      by_cases hmany : c.consecutiveTimeouts + 1 > UdpTuning.maxTimeouts
      · rw [if_pos hmany]
        exact ⟨fun _ => Nat.le_of_lt_succ hmany, fun _ => ⟨c.consecutiveTimeouts + 1, _, rfl⟩⟩
      · rw [if_neg hmany, run_bind_ok (EStateM.run_modify ..)]
        constructor
        · rintro ⟨timeouts, c', h⟩
          exact absurd h queueSend_not_stopped
        · exact fun h => absurd (Nat.lt_succ_of_le h) hmany

end ReliableUdpChannel

open ReliableUdpChannel

namespace UdpEnd

variable {e e' : UdpEnd} {event : UdpEvent}

/-- The step is a retransmission timeout. -/
def timesOut : UdpEnd × UdpEvent → Bool
  | (e, .retransmit now _) => e.channel.expired now
  | _ => false

/-- The step processes a datagram that acknowledges a packet for the first time. -/
def hears : UdpEnd × UdpEvent → Bool
  | (e, .datagram _ _ data _ _ _) => (parseHeader data).any fun h => e.channel.news h.ack h.ackBits
  | _ => false

/-- The step processes a well-formed datagram from the peer. -/
def answered : UdpEnd × UdpEvent → Bool
  | (e, .datagram _ source data _ _ _) => decide (source = e.channel.peer) && (parseHeader data).isSome
  | _ => false

/-- The step is a `retransmit_timed_out` that fails with "the peer stopped responding". -/
def GivesUp : UdpEnd × UdpEvent → Prop
  | (e, .retransmit now k) => ∃ timeouts c,
    (retransmitTimedOut now k).run e.channel = .error (.failure (peerStopped timeouts)) c
  | _ => False

theorem givesUp_iff (e : UdpEnd) (event : UdpEvent) :
    GivesUp (e, event) ↔
      timesOut (e, event) = true ∧ UdpTuning.maxTimeouts ≤ e.channel.consecutiveTimeouts := by
  cases event with
  | retransmit now k => exact retransmitTimedOut_stopped now k e.channel
  | _ => simp [GivesUp, timesOut]

/-- One step: a timeout counts, and a first acknowledgement sets the count back. -/
theorem timeouts_step (hs : e.Step event e') : e'.channel.consecutiveTimeouts =
    if hears (e, event) then 0
    else if timesOut (e, event) then e.channel.consecutiveTimeouts + 1
    else e.channel.consecutiveTimeouts := by
  cases event with
  | retransmit now k =>
    cases hs.happens with
    | part hpart hact =>
      cases hpart
      rw [(act_spec hact).1]
      exact timeouts_retransmitTimedOut now k _
  | datagram now source data k k' k'' =>
    cases hs.happens with
    | part hpart hact =>
      cases hpart
      have hheard : hears (e, .datagram now source data k k' k'') =
          (parseHeader data).any fun h => e.channel.news h.ack h.ackBits := rfl
      have hout : timesOut (e, .datagram now source data k k' k'') = false := rfl
      rw [(act_spec hact).1, hheard, hout]
      cases hparse : parseHeader data with
      | none =>
        rw [processPacket, hparse]
        rfl
      | some header => exact timeouts_processPacket hparse now k k' k'' _
  | _ => exact hs.happens.path.2.timeouts id fun _ _ _ => id

/-! ## Whole runs -/

/-- The steps of a run from `e`, each with the end before it. -/
inductive Trace (e : UdpEnd) : List (UdpEnd × UdpEvent) → UdpEnd → Prop
  | start : Trace e [] e
  | step {steps : List (UdpEnd × UdpEvent)} {e' e'' : UdpEnd} {event : UdpEvent}
      (h : Trace e steps e') (hs : e'.Step event e'') : Trace e (steps ++ [(e', event)]) e''

/-- The steps of a run that goes as far as it can. -/
def visits : UdpEnd → List UdpEvent → List (UdpEnd × UdpEvent)
  | _, [] => []
  | e, event :: events =>
    match e.next event with
    | none => []
    | some e' => (e, event) :: visits e' events

/-- Between any two consecutive timeouts, a well-formed datagram from the peer is processed. -/
def Responding (steps : List (UdpEnd × UdpEvent)) : Prop :=
  (steps.filter fun x => timesOut x || answered x).IsChain fun x y => ¬ (timesOut x ∧ timesOut y)

variable {steps steps' : List (UdpEnd × UdpEvent)}

theorem Trace.cons {m : UdpEnd} (hs : e.Step event m) (h : Trace m steps e') :
    Trace e ((e, event) :: steps) e' := by
  induction h with
  | start => exact Trace.start.step hs
  | step h hs' ih => exact ih.step hs'

theorem Trace.of_runFrom {events : List UdpEvent} (h : runFrom UdpEnd.next e events = some e') :
    Trace e (visits e events) e' := by
  induction events generalizing e with
  | nil =>
    cases h
    exact .start
  | cons event events ih =>
    unfold runFrom at h
    unfold visits
    split at h
    · rename_i m hs
      rw [hs]
      exact (ih h).cons hs
    · cases h

theorem Trace.split (h : Trace e (steps ++ steps') e') :
    ∃ m, Trace e steps m ∧ Trace m steps' e' := by
  generalize hall : steps ++ steps' = all at h
  induction h generalizing steps' with
  | start =>
    obtain ⟨rfl, rfl⟩ := List.append_eq_nil_iff.mp hall
    exact ⟨e, .start, .start⟩
  | step h hs ih =>
    rcases List.eq_nil_or_concat steps' with rfl | ⟨front, last, rfl⟩
    · rw [List.append_nil] at hall
      exact ⟨_, hall ▸ h.step hs, .start⟩
    · rw [List.concat_eq_append, ← List.append_assoc] at hall
      obtain ⟨hfront, hlast⟩ := List.append_inj' hall rfl
      obtain ⟨m, hm, hrest⟩ := ih hfront
      cases hlast
      exact ⟨m, hm, by rw [List.concat_eq_append]; exact hrest.step hs⟩

theorem Trace.eq_of_nil (h : Trace e [] e') : e' = e := by
  generalize hnil : [] = steps at h
  cases h with
  | start => rfl
  | step h hs => simp at hnil

theorem Trace.eq_of_cons {m : UdpEnd} (h : Trace e ((m, event) :: steps) e') : m = e := by
  replace h : Trace e ([(m, event)] ++ steps) e' := h
  obtain ⟨m', hone, -⟩ := h.split
  generalize hlist : [(m, event)] = list at hone
  cases hone with
  | start => cases hlist
  | step hnone hs =>
    obtain ⟨hnil, hlast⟩ := List.append_inj' (show [] ++ [(m, event)] = _ from hlist) rfl
    cases hlast
    exact (hnil ▸ hnone).eq_of_nil

/-- Steps without a first acknowledgement of which none gives up. -/
theorem Trace.count_of_not_givesUp (h : Trace e steps e') (hsilent : ∀ x ∈ steps, hears x = false)
    (hup : ∀ x ∈ steps, ¬ GivesUp x) :
    e'.channel.consecutiveTimeouts = e.channel.consecutiveTimeouts + steps.countP timesOut ∧
      (0 < steps.countP timesOut → e'.channel.consecutiveTimeouts ≤ UdpTuning.maxTimeouts) := by
  induction h with
  | start => exact ⟨rfl, fun h => absurd h (by simp)⟩
  | @step steps m e' event h hs ih =>
    have hlast : (m, event) ∈ steps ++ [(m, event)] :=
      List.mem_append_right _ (List.mem_singleton_self _)
    obtain ⟨hcount, hfew⟩ := ih (fun x hx => hsilent x (List.mem_append_left _ hx))
      fun x hx => hup x (List.mem_append_left _ hx)
    have hnext := timeouts_step hs
    rw [hsilent _ hlast, if_neg Bool.false_ne_true] at hnext
    rw [List.countP_append, List.countP_singleton]
    by_cases ht : timesOut (m, event) = true
    · have hstays := hup _ hlast
      rw [givesUp_iff, not_and, Nat.not_le] at hstays
      have hlt := hstays ht
      rw [if_pos ht] at hnext ⊢
      omega
    · rw [if_neg ht] at hnext ⊢
      rw [hnext, Nat.add_zero]
      exact ⟨hcount, hfew⟩

/-- The count is that of the timeouts since the last first acknowledgement. -/
theorem Trace.exists_silent (hfresh : e.Fresh) (h : Trace e steps e') :
    ∃ front silent, steps = front ++ silent ∧ (∀ x ∈ silent, hears x = false) ∧
      silent.countP timesOut = e'.channel.consecutiveTimeouts := by
  induction h with
  | start =>
    obtain ⟨peer, rfl⟩ := hfresh
    exact ⟨[], [], rfl, fun _ hx => absurd hx List.not_mem_nil, rfl⟩
  | @step steps m e' event h hs ih =>
    obtain ⟨front, silent, rfl, hsilent, hcount⟩ := ih
    have hnext := timeouts_step hs
    by_cases hheard : hears (m, event) = true
    · rw [if_pos hheard] at hnext
      exact ⟨_, [], (List.append_nil _).symm, fun _ hx => absurd hx List.not_mem_nil, hnext.symm⟩
    · rw [if_neg hheard] at hnext
      rw [Bool.not_eq_true] at hheard
      refine ⟨front, silent ++ [(m, event)], List.append_assoc _ _ _, fun x hx => ?_, ?_⟩
      · rcases List.mem_append.mp hx with hx | hx
        · exact hsilent x hx
        · exact List.mem_singleton.mp hx ▸ hheard
      · rw [List.countP_append, List.countP_singleton, hcount, hnext]
        split <;> rfl

end UdpEnd

open UdpEnd

/-- A run never gives the peer up exactly if no more than `max_timeouts` of its timeouts come without a
first acknowledgement between them. -/
theorem peer_given_up {e e' : UdpEnd} {steps : List (UdpEnd × UdpEvent)} (hfresh : e.Fresh)
    (h : Trace e steps e') :
    (∀ x ∈ steps, ¬ GivesUp x) ↔
      ∀ part, part <:+: steps → (∀ x ∈ part, hears x = false) →
        part.countP timesOut ≤ UdpTuning.maxTimeouts := by
  constructor
  · rintro hup part ⟨front, back, rfl⟩ hsilent
    obtain ⟨m, hm, -⟩ := h.split
    obtain ⟨m', -, hpart⟩ := hm.split
    obtain ⟨hcount, hfew⟩ := hpart.count_of_not_givesUp hsilent fun x hx =>
      hup x (List.mem_append_left _ (List.mem_append_right _ hx))
    by_contra hmany
    have := hfew (by omega)
    omega
  · rintro hfew ⟨m, event⟩ hmem hup
    obtain ⟨front, back, rfl⟩ := List.append_of_mem hmem
    obtain ⟨m', hfront, hrest⟩ := h.split
    obtain rfl := hrest.eq_of_cons
    obtain ⟨heard, silent, rfl, hsilent, hcount⟩ := hfront.exists_silent hfresh
    obtain ⟨hout, hmany⟩ := (givesUp_iff _ _).mp hup
    have hpart := hfew (silent ++ [(m, event)]) ⟨heard, back, by simp⟩ fun x hx => by
      rcases List.mem_append.mp hx with hx | hx
      · exact hsilent x hx
      · rw [List.mem_singleton.mp hx]
        cases event <;> first | rfl | cases hout
    rw [List.countP_append, List.countP_singleton, if_pos hout, hcount] at hpart
    omega

/-- A packet is sent, and its timer runs out `rounds` times. Each time the peer acknowledges what came
before the packet, which it has no room for. -/
def pausedPeer (rounds : Nat) : List UdpEvent :=
  oneByteWrite 7 ++ [.flush, .resume false {} {} {}] ++ (List.range rounds).flatMap fun i =>
    let now := UInt64.ofNat (10000000 * (i + 1))
    [.retransmit now {}, .filled, .sendBatch {}, .datagram now .unspecified (ackBytes 0 0) {} {} {},
      .received, .deliver, .resume false {} {} {}]

/-- One timeout. -/
theorem peer_given_up_once : ∃ e : UdpEnd, ∃ steps, Trace { channel := { peer := .unspecified } } steps e ∧
    steps.countP timesOut = 1 ∧ ∀ x ∈ steps, ¬ GivesUp x := by
  have hcount : (visits { channel := { peer := .unspecified } } (pausedPeer 1)).countP timesOut = 1 := by
    decide +kernel
  obtain ⟨e, he⟩ := Option.isSome_iff_exists.mp
    (show (runFrom UdpEnd.next { channel := { peer := .unspecified } } (pausedPeer 1)).isSome = true by
      decide +kernel)
  refine ⟨e, _, Trace.of_runFrom he, hcount, ?_⟩
  refine (peer_given_up ⟨_, rfl⟩ (Trace.of_runFrom he)).mpr fun part hpart _ => ?_
  exact (hpart.sublist.countP_le.trans hcount.le).trans (by decide)

/-- The peer answers after every timeout, and is given up. -/
theorem answering_peer_given_up : ∃ e e' : UdpEnd, ∃ steps, e.Fresh ∧ Trace e steps e' ∧
    Responding steps ∧ ∃ x ∈ steps, GivesUp x := by
  obtain ⟨e, he⟩ := Option.isSome_iff_exists.mp
    (show (runFrom UdpEnd.next { channel := { peer := .unspecified } }
        (pausedPeer 12 ++ [.retransmit 130000000 {}])).isSome = true by decide +kernel)
  refine ⟨_, e, _, ⟨_, rfl⟩, Trace.of_runFrom he, ?_, ?_⟩
  · unfold Responding
    decide +kernel
  · obtain ⟨⟨m, event⟩, hmem, hup⟩ : ∃ x ∈ visits { channel := { peer := .unspecified } }
        (pausedPeer 12 ++ [.retransmit 130000000 {}]),
        timesOut x = true ∧ UdpTuning.maxTimeouts ≤ x.1.channel.consecutiveTimeouts := by
      decide +kernel
    exact ⟨_, hmem, (givesUp_iff m event).mpr hup⟩

end DropZone
