import DropZone.Lib.StateSpec
import DropZone.Lib.System
import DropZone.Udp.Channel

/-!
# The scratch space of a batch

`send_vectors_` and `send_messages_` have room for `batch_size` entries, `control_staging_` for as
many headers. A flush that finds no room in the kernel keeps its entries.

* `SendCall`: the members that queue datagrams, in any order.
* `scratch_suffices`: where a full batch always loses an entry and the flush that makes room for a
  control packet empties the batch, no run writes past the arrays.
* `stalled_batch_overruns`: what happens otherwise.
-/

namespace DropZone

open LittleEndian StateSpec System

/-- Nothing but `EINTR` before the third `EAGAIN`: no entry goes. -/
def Flush.Stalls (k : Flush) : Prop :=
  [.full, .full, .full] <+: k.results.filter (· ≠ .interrupted)

/-- The kernel has room again after at most two waits. -/
def Flush.Drains (k : Flush) : Prop := k.results.count .full ≤ 2

namespace ReliableUdpChannel

variable {n sent stalls : Nat} {results : List SendResult} {Q : ReliableUdpChannel → Prop}

/-! ## The loop -/

theorem sendLoop_sound (hn : n ≤ UdpTuning.batchSize) :
    (sendLoop n results sent stalls).2 ≠ some .overrun := by
  fun_induction sendLoop n results sent stalls with
  | case2 _ sent _ _ hlong => omega
  | case4 _ _ _ _ _ _ ih => exact ih
  | case5 _ _ _ _ _ ih => exact ih
  | case7 _ _ _ _ _ _ ih => exact ih
  | case8 _ _ _ _ _ ih => exact ih
  | _ => simp

theorem le_sendLoop : sent ≤ (sendLoop n results sent stalls).1 := by
  fun_induction sendLoop n results sent stalls with
  | case3 sent _ hlt _ => exact Nat.le_of_not_le hlt
  | case4 _ _ _ _ _ _ ih => exact (Nat.le_add_right _ _).trans ih
  | case5 _ _ _ _ _ ih => exact ih
  | case7 _ _ _ _ _ _ ih => exact ih
  | case8 _ _ _ _ _ ih => exact (Nat.le_succ _).trans ih
  | _ => exact Nat.le_refl _

/-- A loop that ends well and did not stall has got rid of an entry. -/
theorem sendLoop_pos (hn : 0 < n) (hstalls : stalls ≤ 2)
    (hmoves : ¬ List.replicate (3 - stalls) .full <+: results.filter (· ≠ .interrupted))
    (hends : (sendLoop n results sent stalls).2 = none) :
    0 < (sendLoop n results sent stalls).1 := by
  fun_induction sendLoop n results sent stalls with
  | case1 _ sent _ hle => exact Nat.lt_of_lt_of_le hn hle
  | case2 => cases hends
  | case3 => exact hn
  | case4 sent _ _ k _ _ _ => exact Nat.lt_of_lt_of_le (by omega) le_sendLoop
  | case5 _ _ _ _ _ ih => exact ih hstalls (by simpa using hmoves) hends
  | case6 sent stalls _ _ rs hlast =>
    have : stalls = 2 := by omega
    subst this
    exact absurd (by simp) hmoves
  | case7 sent stalls _ _ rs hnext ih =>
    refine ih (by omega) (fun hpre => hmoves ?_) hends
    have hcount : 3 - stalls = (3 - (stalls + 1)) + 1 := by omega
    rw [hcount, List.replicate_succ]
    simpa using hpre
  | case8 => exact Nat.lt_of_lt_of_le (Nat.succ_pos _) le_sendLoop
  | case9 => cases hends

/-- A loop that ends well and waited at most twice has got rid of all entries. -/
theorem sendLoop_all (hfull : results.count .full + stalls ≤ 2)
    (hends : (sendLoop n results sent stalls).2 = none) : n ≤ (sendLoop n results sent stalls).1 := by
  fun_induction sendLoop n results sent stalls with
  | case1 _ sent _ hle => exact hle
  | case2 => cases hends
  | case3 => exact Nat.le_refl _
  | case4 _ _ _ _ _ _ ih => exact ih (by simpa using hfull) hends
  | case5 _ _ _ _ _ ih => exact ih (by simpa using hfull) hends
  | case6 sent stalls _ _ rs hlast =>
    rw [List.count_cons_self] at hfull
    omega
  | case7 sent stalls _ _ rs hnext ih =>
    rw [List.count_cons_self] at hfull
    exact ih (by omega) hends
  | case8 _ _ _ _ _ ih => exact ih (by simpa using hfull) hends
  | case9 => cases hends

/-! ## The members -/

/-- Running `m` from `c` writes past no array, and ends in a state with `Q` if it returns. -/
def Safe {α : Type} (m : ChannelM α) (c : ReliableUdpChannel) (Q : ReliableUdpChannel → Prop) :
    Prop :=
  match m.run c with
  | .ok _ c' => Q c'
  | .error (.failure _) _ => True
  | .error .overrun _ => False

theorem Safe.bind {α β : Type} {m : ChannelM α} {f : α → ChannelM β} {c : ReliableUdpChannel}
    {P Q : ReliableUdpChannel → Prop} (hm : Safe m c P) (hf : ∀ a c', P c' → Safe (f a) c' Q) :
    Safe (m >>= f) c Q := by
  unfold Safe at hm ⊢
  rw [run_bind]
  cases h : m.run c with
  | ok a c' =>
    rw [h] at hm
    exact hf a c' hm
  | error e c' =>
    rw [h] at hm
    cases e <;> exact hm

theorem Safe.get {β : Type} {f : ReliableUdpChannel → ChannelM β} {c : ReliableUdpChannel} (h : Safe (f c) c Q) :
    Safe (get >>= f) c Q := h

theorem Safe.set {β : Type} {f : PUnit → ChannelM β} {c c' : ReliableUdpChannel} (h : Safe (f ⟨⟩) c' Q) :
    Safe (set c' >>= f) c Q := h

theorem Safe.modify {β : Type} {f : PUnit → ChannelM β} {g : ReliableUdpChannel → ReliableUdpChannel}
    {c : ReliableUdpChannel} (h : Safe (f ⟨⟩) (g c) Q) :
    Safe (modify g >>= f) c Q := h

theorem Safe.mono {α : Type} {m : ChannelM α} {c : ReliableUdpChannel}
    {P Q : ReliableUdpChannel → Prop} (hm : Safe m c P) (h : ∀ c', P c' → Q c') : Safe m c Q := by
  unfold Safe at hm ⊢
  split
  · rename_i hrun
    rw [hrun] at hm
    exact h _ hm
  · trivial
  · rename_i hrun
    rw [hrun] at hm
    exact hm

/-- Between the calls: there is room for one more entry, the staging area is not overrun, and it is
free once nothing points into it. -/
structure Spare (c : ReliableUdpChannel) : Prop where
  batch : c.sendBatch.length < UdpTuning.batchSize
  staging : c.controlUsed ≤ stagingSize
  free : c.sendBatch = [] → c.controlUsed = 0

variable {c : ReliableUdpChannel} {k k' : Flush}

theorem run_flushSendBatch_nil (h : c.sendBatch = []) : (flushSendBatch k).run c = .ok () c := by
  unfold flushSendBatch
  rw [run_bind]
  dsimp only [EStateM.run_get]
  rw [if_pos (by rw [h]; rfl)]
  rfl

theorem run_flushSendBatch (h : c.sendBatch ≠ []) :
    (flushSendBatch k).run c =
      match sendLoop c.sendBatch.length k.results 0 0 with
      | (sent, some halt) => .error halt (c.handedOver k sent)
      | (sent, none) => .ok () ((c.handedOver k sent).keepRest sent) := by
  unfold flushSendBatch
  rw [run_bind]
  dsimp only [EStateM.run_get]
  rw [if_neg (by simpa using h)]
  cases sendLoop c.sendBatch.length k.results 0 0 with
  | mk sent halt => cases halt <;> rfl

theorem flushSendBatch_safe (hlen : c.sendBatch.length ≤ UdpTuning.batchSize)
    (hstaging : c.controlUsed ≤ stagingSize) (hfree : c.sendBatch = [] → c.controlUsed = 0) :
    Safe (flushSendBatch k) c fun c' =>
      c'.sendBatch.length ≤ c.sendBatch.length ∧ c'.controlUsed ≤ stagingSize ∧
        (c'.sendBatch = [] → c'.controlUsed = 0) ∧
        (c.sendBatch ≠ [] → ¬ k.Stalls → c'.sendBatch.length < c.sendBatch.length) ∧
        (k.Drains → c'.sendBatch = []) := by
  by_cases hempty : c.sendBatch = []
  · rw [Safe, run_flushSendBatch_nil hempty]
    exact ⟨Nat.le_refl _, hstaging, hfree, fun h => absurd hempty h, fun _ => hempty⟩
  · have hpos : 0 < c.sendBatch.length := List.length_pos_iff.mpr hempty
    have hsound : (sendLoop c.sendBatch.length k.results 0 0).2 ≠ some .overrun :=
      sendLoop_sound hlen
    have hmoved := @sendLoop_pos _ 0 0 k.results hpos (Nat.zero_le 2)
    have hall := @sendLoop_all c.sendBatch.length 0 0 k.results
    rw [Safe, run_flushSendBatch hempty]
    cases hloop : sendLoop c.sendBatch.length k.results 0 0 with
    | mk sent halt =>
      rw [hloop] at hsound hmoved hall
      cases halt with
      | some halt =>
        cases halt with
        | failure => trivial
        | overrun => exact absurd rfl hsound
      | none =>
        have hbatch : ((c.handedOver k sent).keepRest sent).sendBatch = c.sendBatch.drop sent := rfl
        have hused : ((c.handedOver k sent).keepRest sent).controlUsed =
            if (c.sendBatch.drop sent).isEmpty then 0 else c.controlUsed := rfl
        dsimp only
        rw [hbatch, hused, List.length_drop]
        refine ⟨Nat.sub_le _ _, ?_, fun h => if_pos (by rw [h]; rfl), fun _ hmoves => ?_,
          fun hdrains => ?_⟩
        · split
          · exact Nat.zero_le _
          · exact hstaging
        · have := hmoved hmoves rfl
          dsimp only at this
          omega
        · exact List.drop_eq_nil_of_le (hall hdrains rfl)

/-- `queue_send` pushes and flushes a batch that is full. -/
theorem queueSend_safe {entry : PendingSend} (hlen : c.sendBatch.length < UdpTuning.batchSize)
    (hstaging : c.controlUsed ≤ stagingSize)
    (hmoves : c.sendBatch.length + 1 = UdpTuning.batchSize → ¬ k.Stalls) :
    Safe (queueSend entry k) c Spare := by
  have hlength : (c.sendBatch ++ [entry]).length = c.sendBatch.length + 1 := by simp
  have hne : c.sendBatch ++ [entry] ≠ [] := by simp
  refine Safe.modify (Safe.get ?_)
  split
  · rename_i hfull
    have hpushed := @flushSendBatch_safe { c with sendBatch := c.sendBatch ++ [entry] } k
      (hlength ▸ hlen) hstaging fun h => absurd h hne
    refine hpushed.mono ?_
    rintro c' ⟨-, hstaging', hfree, hless, -⟩
    have hlt := hless hne (hmoves (Nat.le_antisymm hlen (hlength ▸ hfull)))
    rw [hlength] at hlt
    exact ⟨Nat.lt_of_lt_of_le hlt hlen, hstaging', hfree⟩
  · rename_i hroom
    exact ⟨Nat.lt_of_not_le hroom, hstaging, fun h => absurd h hne⟩

theorem transmit_safe {datagram : Datagram} (h : c.Spare)
    (hheader : datagram.bytes.length = kUdpHeaderSize)
    (hdrains : c.controlUsed + kUdpHeaderSize > stagingSize → k.Drains)
    (hmoves : c.sendBatch.length + 1 = UdpTuning.batchSize → ¬ k'.Stalls) :
    Safe (transmit datagram k k') c Spare := by
  have hroom : Safe (makeRoom datagram.bytes.length k) c fun c' =>
      c'.sendBatch.length ≤ c.sendBatch.length ∧ c'.controlUsed + kUdpHeaderSize ≤ stagingSize := by
    rw [hheader]
    refine Safe.get ?_
    split
    · rename_i hused
      refine (flushSendBatch_safe (Nat.le_of_lt h.batch) h.staging h.free).mono ?_
      rintro c' ⟨hle, -, hfree, -, hempty⟩
      rw [hfree (hempty (hdrains hused))]
      exact ⟨hle, by decide⟩
    · rename_i hused
      exact ⟨Nat.le_refl _, Nat.le_of_not_gt hused⟩
  refine hroom.bind fun _ c' hc' => Safe.get ?_
  rw [hheader, if_neg (Nat.not_lt_of_ge hc'.2)]
  refine Safe.set (queueSend_safe (Nat.lt_of_le_of_lt hc'.1 h.batch) hc'.2 fun hlen => hmoves ?_)
  have hbatch := h.batch
  have hle := hc'.1
  dsimp only at hlen
  omega

theorem batch_updateRtt (now : UInt64) (popped : List SentPacket) (c : ReliableUdpChannel) :
    let c' := popped.foldl (fun c p =>
      if p.transmissions = 1 then c.updateRtt (now - p.sentUs) else c) c
    c'.sendBatch = c.sendBatch ∧ c'.controlUsed = c.controlUsed := by
  induction popped generalizing c with
  | nil => exact ⟨rfl, rfl⟩
  | cons p popped ih =>
    obtain ⟨hbatch, hused⟩ := ih (if p.transmissions = 1 then c.updateRtt (now - p.sentUs) else c)
    rw [List.foldl_cons]
    refine ⟨hbatch.trans ?_, hused.trans ?_⟩ <;> split <;> rfl

theorem batch_acknowledge (ack : UInt32) (bits now : UInt64) (c : ReliableUdpChannel) :
    (c.acknowledge ack bits now).sendBatch = c.sendBatch ∧
      (c.acknowledge ack bits now).controlUsed = c.controlUsed :=
  batch_updateRtt now _ c

theorem Spare.congr {c' : ReliableUdpChannel} (h : c.Spare) (hbatch : c'.sendBatch = c.sendBatch)
    (hused : c'.controlUsed = c.controlUsed) : c'.Spare :=
  ⟨hbatch ▸ h.batch, hused ▸ h.staging, by rw [hbatch, hused]; exact h.free⟩

end ReliableUdpChannel

/-! ## Whole runs -/

/-- What queues datagrams or sends them. -/
inductive SendCall where
  | queueSend (entry : PendingSend) (k : Flush)
  | sendAck (k k' : Flush)
  | sendControl (type : UdpPacketType) (k k' : Flush)
  /-- A round of `fill_window`. -/
  | fillWindow (now : UInt64) (k : Flush)
  | retransmitTimedOut (now : UInt64) (k : Flush)
  /-- With its fast retransmission. -/
  | processAck (ack : UInt32) (bits : UInt64) (now : UInt64) (k : Flush)
  | flushSendBatch (k : Flush)

namespace SendCall

open ReliableUdpChannel

def run : SendCall → ChannelM Unit
  | .queueSend entry k => ReliableUdpChannel.queueSend entry k
  | .sendAck k k' => ReliableUdpChannel.sendAck k k'
  | .sendControl type k k' => ReliableUdpChannel.sendControl type k k'
  | .fillWindow now k => fillPacket now k
  | .retransmitTimedOut now k => ReliableUdpChannel.retransmitTimedOut now k
  | .processAck ack bits now k => ReliableUdpChannel.processAck ack bits now k
  | .flushSendBatch k => ReliableUdpChannel.flushSendBatch k

/-- A batch that is full loses an entry, and a flush that makes room for a control packet leaves
none. -/
def Eased (c : ReliableUdpChannel) : SendCall → Prop
  | .queueSend _ k | .fillWindow _ k | .retransmitTimedOut _ k | .processAck _ _ _ k =>
    c.sendBatch.length + 1 = UdpTuning.batchSize → ¬ k.Stalls
  | .sendAck k k' | .sendControl _ k k' =>
    (c.controlUsed + kUdpHeaderSize > stagingSize → k.Drains) ∧
      (c.sendBatch.length + 1 = UdpTuning.batchSize → ¬ k'.Stalls)
  | .flushSendBatch _ => True

/-- A call that returns, or one that throws and leaves the batch as it was, as `retransmit_timed_out` does
when it gives the peer up. -/
def Step (c : ReliableUdpChannel) (call : SendCall) (c' : ReliableUdpChannel) : Prop :=
  call.Eased c ∧ (call.run.run c = .ok () c' ∨
    (∃ e, call.run.run c = .error e c') ∧ c'.sendBatch = c.sendBatch ∧ c'.controlUsed = c.controlUsed)

variable {c : ReliableUdpChannel}

theorem safe_processAck (h : c.Spare) (ack : UInt32) (bits now : UInt64) {k : Flush}
    (hmoves : c.sendBatch.length + 1 = UdpTuning.batchSize → ¬ k.Stalls) :
    Safe (ReliableUdpChannel.processAck ack bits now k) c Spare := by
  obtain ⟨hbatch, hused⟩ := batch_acknowledge ack bits now c
  have hspare : (c.acknowledge ack bits now).Spare := h.congr hbatch hused
  rw [← hbatch] at hmoves
  refine Safe.modify (Safe.get ?_)
  split
  · exact hspare
  · split
    · exact Safe.set (queueSend_safe hspare.batch hspare.staging hmoves)
    · exact hspare

theorem safe_retransmitTimedOut (h : c.Spare) (now : UInt64) {k : Flush}
    (hmoves : c.sendBatch.length + 1 = UdpTuning.batchSize → ¬ k.Stalls) :
    Safe (ReliableUdpChannel.retransmitTimedOut now k) c Spare := by
  refine Safe.get ?_
  split
  · exact h
  · split
    · exact h
    · refine Safe.modify ?_
      split
      · trivial
      · exact Safe.modify (queueSend_safe h.batch h.staging hmoves)

/-- One call. -/
theorem safe {call : SendCall} (h : c.Spare) (heased : call.Eased c) :
    Safe call.run c Spare := by
  cases call with
  | queueSend entry k => exact queueSend_safe h.batch h.staging heased
  | sendAck k k' => exact Safe.get (transmit_safe h (length_writeHeader _) heased.1 heased.2)
  | sendControl type k k' =>
    exact Safe.get (transmit_safe h (length_writeHeader _) heased.1 heased.2)
  | fillWindow now k => exact Safe.get (Safe.set (queueSend_safe h.batch h.staging heased))
  | retransmitTimedOut now k => exact safe_retransmitTimedOut h now heased
  | processAck ack bits now k => exact safe_processAck h ack bits now heased
  | flushSendBatch k =>
    refine (flushSendBatch_safe (Nat.le_of_lt h.batch) h.staging h.free).mono ?_
    rintro c' ⟨hle, hstaging, hfree, -, -⟩
    exact ⟨Nat.lt_of_le_of_lt hle h.batch, hstaging, hfree⟩

/-- Running calls one after the other. -/
def runs : List SendCall → ChannelM Unit
  | [] => pure ()
  | call :: calls => do
    call.run
    runs calls

/-- The run writes past an array. -/
def overruns (c : ReliableUdpChannel) (calls : List SendCall) : Bool :=
  match (runs calls).run c with
  | .error .overrun _ => true
  | _ => false

end SendCall

open ReliableUdpChannel SendCall

/-- In every run of a new channel in which a full batch always loses an entry and the flushes that
make room for control packets leave none, no call writes past the arrays of a batch. -/
theorem scratch_suffices {peer : Endpoint} {c : ReliableUdpChannel}
    (h : Reach (· = { peer := peer }) SendCall.Step c) {call : SendCall} (heased : call.Eased c)
    (c' : ReliableUdpChannel) : call.run.run c ≠ .error .overrun c' := by
  have hspare : c.Spare := by
    refine Reach.invariant (I := Spare) (fun c hc => ?_) (fun c call c' hc hstep => ?_) h
    · subst hc
      exact ⟨Nat.zero_lt_succ _, Nat.zero_le _, fun _ => rfl⟩
    · obtain ⟨heased, hreturns | ⟨-, hbatch, hused⟩⟩ := hstep
      · have hsafe := SendCall.safe hc heased
        rw [Safe, hreturns] at hsafe
        exact hsafe
      · exact hc.congr hbatch hused
  intro hover
  have hsafe := SendCall.safe hspare heased
  rw [Safe, hover] at hsafe
  exact hsafe

/-- So many packets are queued. -/
def queued (n : Nat) : ReliableUdpChannel :=
  { peer := .unspecified, sendBatch := List.replicate n (.packet 0) }

theorem reach_queued {n : Nat} (hn : n < UdpTuning.batchSize) :
    Reach (· = { peer := .unspecified }) SendCall.Step (queued n) := by
  induction n with
  | zero => exact .init rfl
  | succ n ih =>
    have hpushed : (queued n).sendBatch ++ [.packet 0] = (queued (n + 1)).sendBatch :=
      List.replicate_succ'.symm
    refine (ih (Nat.lt_of_succ_lt hn)).step (e := .queueSend (.packet 0) {}) ⟨fun h => ?_, .inl ?_⟩
    · rw [queued, List.length_replicate] at h
      omega
    · simp only [SendCall.run, ReliableUdpChannel.queueSend, run_bind, EStateM.run_modify, EStateM.run_get,
        hpushed]
      rw [if_neg (by simpa [queued] using hn)]
      rfl

/-- The packet that fills the batch has it flushed, and an acknowledgement follows. -/
theorem scratch_suffices_full : ∃ c, SendCall.Step (queued 63) (.queueSend (.packet 0) {}) c ∧
    c.sendBatch = [] ∧ ∀ c', (SendCall.sendAck {} {}).run.run c ≠ .error .overrun c' := by
  have hstalls : ¬ Flush.Stalls {} := nofun
  have hrun : ∃ c, (SendCall.queueSend (.packet 0) {}).run.run (queued 63) = .ok () c ∧
      c.sendBatch = [] := ⟨_, rfl, rfl⟩
  obtain ⟨c, hrun, hempty⟩ := hrun
  have hstep : SendCall.Step (queued 63) (.queueSend (.packet 0) {}) c := ⟨fun _ => hstalls, .inl hrun⟩
  exact ⟨c, hstep, hempty, scratch_suffices ((reach_queued (by decide)).step hstep)
    ⟨fun _ => Nat.zero_le 2, fun _ => hstalls⟩⟩

/-- A kernel without room. -/
def stalled : Flush := { results := [.full, .full, .full] }

/-- A full batch that stays is flushed again together with the next packet; and a staging area that
something still points into is written past its end. -/
theorem stalled_batch_overruns :
    overruns { peer := .unspecified }
      (List.replicate 65 (.queueSend (.packet 0) stalled)) = true ∧
    overruns { peer := .unspecified }
      (List.replicate 63 (.sendAck {} stalled) ++
        [.flushSendBatch { results := [.taken 0, .full, .full, .full] }, .sendAck {} stalled,
          .sendAck stalled stalled]) = true := by
  decide +kernel

end DropZone
