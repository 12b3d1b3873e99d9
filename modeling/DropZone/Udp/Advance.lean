import DropZone.Udp.Stream

/-!
# What an event adds

What a channel tells its peer, what it marks as acknowledged and what it has received.

* `ackBitmap_sound`, `coveredBeyond_sound`: the bitmap as it is written and as it is read.
* `Intake.Held`: a packet was delivered, or it is in the reorder buffer.
* `Advance N M c c'`: what is said anew is `N`, what is marked anew is `M`, and what is held stays held.
  `advance_step`: one event at an end whose views are backed. Only `send_ack` says more than that a packet
  was sent, and only a datagram marks packets.
-/

namespace DropZone

open LittleEndian Serial StateSpec System

variable {bits : UInt64}

namespace ReliableUdpChannel

variable {F : Prop} {c c' : ReliableUdpChannel} {k k' : Flush}

/-! ## The bitmap -/

theorem testBit_or_shift {m n : Nat} (hm : m < 64)
    (h : (bits ||| (1 : UInt64) <<< UInt64.ofNat m).toNat.testBit n) : bits.toNat.testBit n ∨ n = m := by
  rw [UInt64.toNat_or, Nat.testBit_or, Bool.or_eq_true] at h
  rcases h with h | h
  · exact .inl h
  · right
    rw [UInt64.toNat_shiftLeft, UInt64.toNat_one, UInt64.toNat_ofNat', Nat.testBit_mod_two_pow,
      Bool.and_eq_true, Nat.mod_eq_of_lt (a := m) (by omega), Nat.mod_eq_of_lt hm, Nat.one_shiftLeft,
      Nat.testBit_two_pow] at h
    exact (decide_eq_true_iff.mp h.2).symm

theorem testBit_of_shift {n : Nat} (hn : n < 64)
    (h : ((bits >>> UInt64.ofNat n) &&& 1 == 1) = true) : bits.toNat.testBit n = true := by
  have heq := congrArg UInt64.toNat (eq_of_beq h)
  rw [UInt64.toNat_and, UInt64.toNat_shiftRight, UInt64.toNat_one, UInt64.toNat_ofNat',
    Nat.mod_eq_of_lt (a := n) (by omega), Nat.mod_eq_of_lt hn] at heq
  rw [Nat.testBit, Nat.and_comm, heq]
  rfl

/-- A set bit of the bitmap stands for an entry of the reorder buffer. -/
theorem ackBitmap_sound {n : Nat} (h : c.ackBitmap.toNat.testBit n) :
    ∃ entry ∈ c.reorderBuffer, serialDiff entry.1 c.receiveNext = (n : Int) + 1 := by
  unfold ackBitmap at h
  -- one entry of the fold adds at most its own bit
  suffices hfold : ∀ (l : List (UInt32 × Bytes)) (bits : UInt64),
      (l.foldl (fun bits e =>
        let offset := serialDiff e.1 c.receiveNext
        if 1 ≤ offset ∧ offset ≤ 64 then bits ||| ((1 : UInt64) <<< UInt64.ofNat (offset - 1).toNat)
        else bits) bits).toNat.testBit n →
      bits.toNat.testBit n ∨ ∃ entry ∈ l, serialDiff entry.1 c.receiveNext = (n : Int) + 1 by
    rcases hfold _ _ h with hzero | hentry
    · simp at hzero
    · exact hentry
  intro l
  induction l with
  | nil => exact fun _ h => .inl h
  | cons e l ih =>
    intro bits h
    rw [List.foldl_cons] at h
    rcases ih _ h with h | ⟨entry, hentry, hoffset⟩
    · dsimp only at h
      split at h
      · rename_i hrange
        rcases testBit_or_shift (by omega) h with h | h
        · exact .inl h
        · exact .inr ⟨e, List.mem_cons_self, by omega⟩
      · exact .inl h
    · exact .inr ⟨entry, List.mem_cons_of_mem _ hentry, hoffset⟩

theorem coveredBeyond_sound {ack : UInt32} {p : SentPacket}
    (h : coveredBeyond ack bits p = true) :
    ∃ n : Nat, serialDiff p.sequence ack = (n : Int) + 1 ∧ n < 64 ∧ bits.toNat.testBit n := by
  rw [coveredBeyond, Bool.and_eq_true, decide_eq_true_iff] at h
  obtain ⟨hrange, hbit⟩ := h
  refine ⟨(serialDiff p.sequence ack - 1).toNat, by omega, by omega, ?_⟩
  exact testBit_of_shift (by omega) hbit

end ReliableUdpChannel

/-! ## What an end has told the other -/

/-- The packet was delivered, or it is in the reorder buffer. -/
def Intake.Held (inn : Intake) (handle : Nat) : Prop :=
  handle < inn.moved ∨
    handle < inn.moved + 2 ^ 31 ∧ ∃ entry ∈ inn.reorder, entry.1 = UInt32.ofNat handle

namespace ReliableUdpChannel

/-- A datagram that was given to the kernel, or a header that is queued. -/
def Said (c : ReliableUdpChannel) (d : Datagram) : Prop := d ∈ c.wire ∨ .control d ∈ c.sendBatch

/-- What a part of a call adds: it says `N`, marks `M`, and keeps what is held. -/
structure Advance (N : Datagram → Prop) (M : Nat → Prop) (c c' : ReliableUdpChannel) : Prop where
  said : ∀ d, c'.Said d → c.Said d ∨ N d
  marked : ∀ p ∈ c'.unacknowledged, p.acknowledged = true →
    (∃ q ∈ c.unacknowledged, q.handle = p.handle ∧ q.acknowledged = true) ∨ M p.handle
  held : ∀ handle, c.inbox.Held handle → c'.inbox.Held handle
  distinct : (c.reorderBuffer.map Prod.fst).Nodup → (c'.reorderBuffer.map Prod.fst).Nodup

variable {F : Prop} {c c' : ReliableUdpChannel} {k k' : Flush} {N N' : Datagram → Prop} {M M' : Nat → Prop}

theorem Advance.refl (c : ReliableUdpChannel) : Advance N M c c :=
  ⟨fun _ => .inl, fun p hp hacked => .inl ⟨p, hp, rfl, hacked⟩, fun _ => id, id⟩

theorem Advance.trans {a b : ReliableUdpChannel} (h : Advance N M a b) (h' : Advance N M b c) :
    Advance N M a c where
  said d hd := by
    rcases h'.said d hd with hd | hd
    · exact h.said d hd
    · exact .inr hd
  marked p hp hacked := by
    rcases h'.marked p hp hacked with ⟨q, hq, hsame, hq'⟩ | hnew
    · rw [← hsame]
      exact h.marked q hq hq'
    · exact .inr hnew
  held handle hh := h'.held handle (h.held handle hh)
  distinct hd := h'.distinct (h.distinct hd)

/-- Only the batch and what was given to the kernel have changed. -/
theorem Advance.sends (hsaid : ∀ d, c'.Said d → c.Said d ∨ N d)
    (hcore : (c'.unacknowledged, c'.moved, c'.reorderBuffer) = (c.unacknowledged, c.moved, c.reorderBuffer)) :
    Advance N M c c' := by
  simp only [Prod.mk.injEq] at hcore
  obtain ⟨hkept, hmoved, hreorder⟩ := hcore
  refine ⟨hsaid, fun p hp hacked => .inl ⟨p, hkept ▸ hp, rfl, hacked⟩, fun handle hh => ?_,
    fun hd => hreorder ▸ hd⟩
  rw [Intake.Held, inbox, hmoved, hreorder]
  exact hh

/-! ## One change -/

theorem Copy.plain {chunks : List Bytes} {moved : Nat} {d : Datagram} (h : Copy chunks moved d)
    (hsmall : ∀ payload ∈ chunks, payload.length ≤ kUdpMaxPayload) : Plain d := by
  obtain ⟨handle, payload, -, -, hparse, -⟩ := h.parse hsmall
  intro header hheader
  rw [hparse] at hheader
  cases hheader
  rfl

/-- What goes out is a header that was queued or a copy. -/
theorem advance_handedOver (h : c.Backed F) (hN : ∀ d, Plain d → N d) (k : Flush) (n : Nat) :
    Advance N M c (c.handedOver k n) := by
  refine .sends (fun d hd => ?_) rfl
  rcases hd with hd | hd
  · rcases List.mem_append.mp hd with hd | hd
    · exact .inl (.inl hd)
    · obtain ⟨entry, hentry, rfl⟩ := List.mem_map.mp hd
      have hqueued := List.mem_of_mem_take hentry
      cases entry with
      | control d => exact .inl (.inr hqueued)
      | packet handle => exact .inr (hN _ ((h.copy_datagramOf (h.queued _ hqueued)).plain h.small))
  · exact .inl (.inr hd)

/-- What `send_ack` may say. -/
def Ack (c : ReliableUdpChannel) (d : Datagram) : Prop :=
  Plain d ∨ d = c.controlDatagram .ack c.ackBitmap

/-- The packet is marked by an acknowledgement. -/
def Marks (c : ReliableUdpChannel) (ack : UInt32) (bits : UInt64) (handle : Nat) : Prop :=
  ∃ p ∈ c.unacknowledged, p.handle = handle ∧ coveredBeyond ack bits p = true

theorem advance_acknowledge {ack : UInt32} (hM : ∀ n, c.Marks ack bits n → M n)
    (now : UInt64) : Advance N M c (c.acknowledge ack bits now) := by
  obtain ⟨srtt, rttvar, rto, timeouts, heq⟩ := acknowledge_eq c ack bits now
  rw [heq]
  refine ⟨fun _ => .inl, fun q hq hacked => ?_, fun _ => id, id⟩
  obtain ⟨p, hp, rfl⟩ := List.mem_map.mp hq
  have hold : p ∈ c.unacknowledged := (List.dropWhile_suffix _).mem hp
  split at hacked
  · rename_i hcovered
    rw [if_pos hcovered]
    exact .inr (hM _ ⟨p, hold, rfl, hcovered⟩)
  · rename_i hcovered
    rw [if_neg hcovered]
    exact .inl ⟨p, hold, rfl, hacked⟩

theorem advance_inserted (sequence : UInt32) (payload : Bytes) :
    Advance N M c (c.inserted sequence payload) := by
  refine ⟨fun _ => .inl, fun p hp hacked => .inl ⟨p, hp, rfl, hacked⟩, fun handle hh => ?_, fun hd => ?_⟩
  · rcases hh with hh | ⟨hlt, entry, hentry, hkey⟩
    · exact .inl hh
    · refine .inr ⟨hlt, entry, ?_, hkey⟩
      dsimp only [inbox, inserted]
      split
      · exact hentry
      · exact List.mem_append_left _ hentry
  · dsimp only [inserted]
    split
    · exact hd
    · rename_i hnew
      rw [List.map_append, List.nodup_append]
      refine ⟨hd, List.nodup_singleton _, fun key hkey key' hkey' heq => hnew ?_⟩
      obtain ⟨entry, hentry, rfl⟩ := List.mem_map.mp hkey
      have hlast := List.mem_singleton.mp hkey'
      exact List.any_eq_true.mpr ⟨entry, hentry, beq_iff_eq.mpr (heq.trans hlast)⟩

theorem advance_advanced (hreceived : c.receiveNext = UInt32.ofNat c.moved) (payload : Bytes) :
    Advance N M c (c.advanced payload) := by
  refine ⟨fun _ => .inl, fun p hp hacked => .inl ⟨p, hp, rfl, hacked⟩, fun handle hh => ?_,
    fun hd => hd.sublist (List.filter_sublist.map _)⟩
  rcases hh with hh | ⟨hlt, entry, hentry, hkey⟩
  · exact .inl (Nat.lt_succ_of_lt hh)
  · change handle < c.moved + 2 ^ 31 at hlt
    rcases Nat.lt_or_ge handle (c.moved + 1) with hle | hgt
    · exact .inl hle
    · have hlt' : handle < c.moved + 1 + 2 ^ 31 := by omega
      refine .inr ⟨hlt', entry, List.mem_filter.mpr ⟨hentry, ?_⟩, hkey⟩
      -- the entry that was delivered is another one
      rw [bne_iff_ne, hkey, hreceived]
      intro heq
      have hsame := ofNat_inj (by omega) (by omega) heq
      omega

theorem Change.advance {r : Remit} (hchange : Change F r c c') (h : c.Backed F)
    (hN : ∀ d, Plain d → N d) (htells : ∀ d, r.tells d → N d)
    (hM : ∀ c ack bits, r.hears c ack bits → ∀ n, c.Marks ack bits n → M n) : Advance N M c c' := by
  cases hchange with
  | handedOver k n => exact advance_handedOver h hN k n
  | keepRest n =>
    refine .sends (fun d hd => .inl ?_) rfl
    rcases hd with hd | hd
    · exact .inl hd
    · exact .inr (List.mem_of_mem_drop hd)
  | queue hposts =>
    refine .sends (fun d hd => ?_) rfl
    rcases hd with hd | hd
    · exact .inl (.inl hd)
    · rcases List.mem_append.mp hd with hd | hd
      · exact .inl (.inr hd)
      · cases List.mem_singleton.mp hd
        exact .inr (htells d hposts.1)
  | filled now =>
    refine ⟨fun _ => .inl, fun p hp hacked => .inl ?_, fun _ => id, id⟩
    rcases List.mem_append.mp hp with hp | hp
    · exact ⟨p, hp, rfl, hacked⟩
    · rw [List.mem_singleton.mp hp] at hacked
      cases hacked
  | @resent p rest hfirst now =>
    refine ⟨fun _ => .inl, fun q hq hacked => .inl ?_, fun _ => id, id⟩
    rw [hfirst]
    rcases List.mem_cons.mp hq with rfl | hq
    · exact ⟨p, List.mem_cons_self, rfl, hacked⟩
    · exact ⟨q, List.mem_cons_of_mem _ hq, rfl, hacked⟩
  | acknowledge hhears now => exact advance_acknowledge (hM _ _ _ hhears) now
  | inserted sequence payload => exact advance_inserted sequence payload
  | advanced payload => exact advance_advanced h.received payload
  | other hcore =>
    simp only [Prod.mk.injEq] at hcore
    refine .sends (fun d hd => .inl ?_) (by simp only [hcore])
    simpa only [Said, hcore] using hd

theorem Path.advance {r : Remit} (hpath : Path F r c c') (h : c.Backed F)
    (hspares : ∀ c ack bits, r.hears c ack bits → c.AckSpares ack) (hN : ∀ d, Plain d → N d)
    (htells : ∀ d, r.tells d → N d)
    (hM : ∀ c ack bits, r.hears c ack bits → ∀ n, c.Marks ack bits n → M n) : Advance N M c c' := by
  induction hpath with
  | refl => exact .refl c
  | tail hpath hchange ih => exact ih.trans (hchange.advance (h.path hpath hspares) hN htells hM)

end ReliableUdpChannel

/-! ## One event -/

namespace UdpEnd

open ReliableUdpChannel

/-- What an event may say. -/
def News (e : UdpEnd) : UdpEvent → Datagram → Prop
  | .ack _ _ _ => e.channel.Ack
  | _ => Plain

/-- What an event may mark. -/
def Marking (e : UdpEnd) : UdpEvent → Nat → Prop
  | .datagram _ _ data _ _ _ => fun handle => ∃ header, parseHeader data = some header ∧
      e.channel.Marks header.ack header.ackBits handle
  | _ => fun _ => False

variable {e e' : UdpEnd}

/-- What one event adds. -/
theorem advance_step (h : e.Backed) {event : UdpEvent} (hspares : event.Spares e)
    (hs : e.Step event e') : Advance (e.News event) (e.Marking event) e.channel e'.channel := by
  obtain ⟨hclosed, hpath⟩ := hs.happens.path
  refine hpath.advance (ReliableUdpChannel.Backed.mono h hclosed) (fun _ _ _ => remit_spares hspares)
    (fun d hd => ?_) (fun d hd => ?_) fun c ack bits hhears handle hmarks => ?_
  · cases event with
    | ack => exact .inl hd
    | _ => exact hd
  · cases event <;> exact hd
  · cases event with
    | datagram =>
      obtain ⟨rfl, header, hparse, rfl, rfl⟩ := hhears
      exact ⟨header, hparse, hmarks⟩
    | _ => exact hhears.elim

end UdpEnd

end DropZone
