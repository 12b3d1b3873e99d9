import Mathlib.Order.Interval.Finset.Nat
import DropZone.Lib.System
import DropZone.Transfer.Aead

/-!
# Putting chunks back in order (`client/src/pipeline.cpp`)

`OrderedEmitter` between its mutex-protected steps. A step that gives none waits.

* `OrderedEmitter.Holds payload published em`: the invariant. The slots hold the chunks published and
  not consumed yet, each in the slot of its index, all within the window.
* `Holds.publish`, `Holds.consume`: a chunk that was published goes to its own slot, and what is
  consumed is the next chunk.
* `EmitterRun`: any number of publishers with different indices, and the one that consumes.
  `emission_ordered`: in every run the chunks come out in order and none is overwritten.
-/

namespace DropZone

open LittleEndian System

/-- `OrderedEmitter`. A slot that is not ready is none. -/
structure OrderedEmitter where
  slots : List (Option Bytes)
  nextToConsume : Nat := 0
  total : Option Nat := none
  error : Option Failure := none
  deriving DecidableEq

namespace OrderedEmitter

def init (capacity : Nat) : OrderedEmitter where
  slots := List.replicate (if capacity = 0 then 1 else capacity) none

/-- `publish`: false once the emitter has been aborted. -/
def publish (em : OrderedEmitter) (index : Nat) (data : Bytes) : Option (OrderedEmitter × Bool) :=
  match em.error with
  | some _ => some (em, false)
  | none =>
    if index < em.nextToConsume + em.slots.length then
      some ({ em with slots := em.slots.set (index % em.slots.length) (some data) }, true)
    else none

/-- `consume`: none when every chunk has been consumed. -/
def consume (em : OrderedEmitter) : Option (Except Failure (OrderedEmitter × Option Bytes)) :=
  match em.error with
  | some e => some (.error e)
  | none =>
    if em.total.any (· ≤ em.nextToConsume) then some (.ok (em, none))
    else
      match em.slots[em.nextToConsume % em.slots.length]? with
      | some (some data) =>
        some (.ok ({ em with
          slots := em.slots.set (em.nextToConsume % em.slots.length) none
          nextToConsume := em.nextToConsume + 1 }, some data))
      | _ => none

def setTotal (em : OrderedEmitter) (total : Nat) : OrderedEmitter := { em with total := some total }

/-- `abort`: the first error is kept. -/
def abort (em : OrderedEmitter) (e : Failure) : OrderedEmitter :=
  { em with error := em.error.or (some e) }

/-! ## The slots -/

/-- The chunks in `published` were published, each with its `payload`. -/
structure Holds (payload : Nat → Bytes) (published : Nat → Prop) (em : OrderedEmitter) : Prop where
  slots_pos : 0 < em.slots.length
  consumed : ∀ i < em.nextToConsume, published i
  window : ∀ i, published i → i < em.nextToConsume + em.slots.length
  ready : ∀ i, em.nextToConsume ≤ i → published i →
    em.slots[i % em.slots.length]? = some (some (payload i))
  vacant : ∀ i, em.nextToConsume ≤ i → i < em.nextToConsume + em.slots.length → ¬ published i →
    em.slots[i % em.slots.length]? = some none

variable {payload : Nat → Bytes} {published : Nat → Prop} {em em' : OrderedEmitter}

theorem holds_init (payload : Nat → Bytes) (capacity : Nat) :
    (init capacity).Holds payload fun _ => False where
  slots_pos := by
    simp only [init, List.length_replicate]
    split <;> omega
  consumed _ h := by cases h
  window _ h := h.elim
  ready _ _ h := h.elim
  vacant i _ hi _ := by
    have hpos : 0 < (init capacity).slots.length := by
      simp only [init, List.length_replicate]
      split <;> omega
    have hlt := Nat.mod_lt i hpos
    simp only [init, List.length_replicate] at hlt ⊢
    rw [List.getElem?_replicate, if_pos hlt]

theorem Holds.congr {q : Nat → Prop} (h : em.Holds payload published)
    (hq : ∀ i, published i ↔ q i) : em.Holds payload q := by
  obtain rfl : published = q := funext fun i => propext (hq i)
  exact h

/-- Two indices in the window share a slot only if they are the same. -/
theorem mod_inj {next size i j : Nat} (hi : next ≤ i) (hi' : i < next + size) (hj : next ≤ j)
    (hj' : j < next + size) (h : i % size = j % size) : i = j :=
  Nat.mod_injOn_Ico next size (by simp [hi, hi']) (by simp [hj, hj']) h

/-- A publisher that did not have to wait found the emitter aborted or room for its chunk. -/
theorem publish_cases {i : Nat} {data : Bytes} {ok : Bool} (h : em.publish i data = some (em', ok)) :
    (em.error ≠ none ∧ em' = em ∧ ok = false) ∨
    (em.error = none ∧ i < em.nextToConsume + em.slots.length ∧
      em' = { em with slots := em.slots.set (i % em.slots.length) (some data) } ∧ ok = true) := by
  unfold publish at h
  cases herror : em.error with
  | some e =>
    rw [herror] at h
    cases h
    exact .inl ⟨Option.some_ne_none e, rfl, rfl⟩
  | none =>
    simp only [herror] at h
    split at h
    · rename_i hroom
      cases h
      exact .inr ⟨rfl, hroom, rfl, rfl⟩
    · cases h

theorem publish_some {i : Nat} {data : Bytes} (herror : em.error = none)
    (hi : i < em.nextToConsume + em.slots.length) :
    em.publish i data =
      some ({ em with slots := em.slots.set (i % em.slots.length) (some data) }, true) := by
  unfold publish
  rw [herror]
  exact if_pos hi

theorem publish_none {i : Nat} {data : Bytes} (herror : em.error = none)
    (hi : em.nextToConsume + em.slots.length ≤ i) : em.publish i data = none := by
  unfold publish
  rw [herror]
  exact if_neg (Nat.not_lt.mpr hi)

/-- A chunk that is published goes to a slot of its own. -/
theorem Holds.publish (h : em.Holds payload published) {i : Nat} (hi : em.nextToConsume ≤ i)
    (hlt : i < em.nextToConsume + em.slots.length) :
    Holds payload (fun j => published j ∨ j = i)
      { em with slots := em.slots.set (i % em.slots.length) (some (payload i)) } where
  slots_pos := by simpa using h.slots_pos
  consumed j hj := .inl (h.consumed j hj)
  window j hj := by
    rw [List.length_set]
    rcases hj with hj | rfl
    · exact h.window j hj
    · exact hlt
  ready j hj hpub := by
    rw [List.length_set, List.getElem?_set]
    split
    · rename_i heq
      have hj' : j < em.nextToConsume + em.slots.length := by
        rcases hpub with hpub | rfl
        · exact h.window j hpub
        · exact hlt
      obtain rfl := mod_inj hi hlt hj hj' heq
      rw [if_pos (Nat.mod_lt _ h.slots_pos)]
    · rename_i hne
      rcases hpub with hpub | rfl
      · exact h.ready j hj hpub
      · exact absurd rfl hne
  vacant j hj hj' hpub := by
    rw [not_or] at hpub
    rw [List.length_set] at hj' ⊢
    rw [List.getElem?_set, if_neg, h.vacant j hj hj' hpub.1]
    exact fun heq => hpub.2 (mod_inj hi hlt hj hj' heq).symm

theorem consume_total (herror : em.error = none) {n : Nat} (htotal : em.total = some n)
    (hn : n ≤ em.nextToConsume) : em.consume = some (.ok (em, none)) := by
  unfold consume
  rw [herror, htotal]
  exact if_pos (by simpa using hn)

/-- What ends the writer's loop. -/
theorem consume_end (h : em.consume = some (.ok (em', none))) :
    em' = em ∧ ∃ n, em.total = some n ∧ n ≤ em.nextToConsume := by
  unfold consume at h
  split at h
  · cases h
  · split at h
    · rename_i htotal
      cases h
      refine ⟨rfl, ?_⟩
      cases hn : em.total with
      | none => simp [hn] at htotal
      | some n => exact ⟨n, rfl, by simpa [hn] using htotal⟩
    · split at h <;> cases h

theorem consume_ne_error (herror : em.error = none) (e : Failure) :
    em.consume ≠ some (.error e) := by
  unfold consume
  rw [herror]
  dsimp only
  split
  · simp
  · split <;> simp

theorem Holds.consume_some (h : em.Holds payload published) (herror : em.error = none)
    (htotal : ∀ n, em.total = some n → em.nextToConsume < n) (hpub : published em.nextToConsume) :
    em.consume = some (.ok ({ em with
      slots := em.slots.set (em.nextToConsume % em.slots.length) none
      nextToConsume := em.nextToConsume + 1 }, some (payload em.nextToConsume))) := by
  have hnot : ¬ em.total.any (· ≤ em.nextToConsume) = true := by
    cases ht : em.total with
    | none => simp
    | some n => simpa using htotal n ht
  unfold OrderedEmitter.consume
  rw [herror]
  dsimp only
  rw [if_neg hnot, h.ready _ (Nat.le_refl _) hpub]

theorem consume_chunk {data : Bytes} (h : em.consume = some (.ok (em', some data))) :
    em.error = none ∧ em.slots[em.nextToConsume % em.slots.length]? = some (some data) ∧
      em' = { em with slots := em.slots.set (em.nextToConsume % em.slots.length) none
                      nextToConsume := em.nextToConsume + 1 } := by
  unfold consume at h
  split at h
  · cases h
  · rename_i herror
    split at h
    · cases h
    · split at h
      · rename_i hslot
        cases h
        exact ⟨herror, hslot, rfl⟩
      · cases h

theorem Holds.consume_eq (h : em.Holds payload published) {data : Bytes}
    (hc : em.consume = some (.ok (em', some data))) :
    published em.nextToConsume ∧ data = payload em.nextToConsume ∧
      em' = { em with slots := em.slots.set (em.nextToConsume % em.slots.length) none
                      nextToConsume := em.nextToConsume + 1 } := by
  have hself : em.nextToConsume < em.nextToConsume + em.slots.length := by
    have := h.slots_pos
    omega
  obtain ⟨-, hslot, rfl⟩ := consume_chunk hc
  by_cases hpub : published em.nextToConsume
  · rw [h.ready _ (Nat.le_refl _) hpub] at hslot
    cases hslot
    exact ⟨hpub, rfl, rfl⟩
  · rw [h.vacant _ (Nat.le_refl _) hself hpub] at hslot
    cases hslot

theorem Holds.consume (h : em.Holds payload published) (hpub : published em.nextToConsume) :
    Holds payload published
      { em with slots := em.slots.set (em.nextToConsume % em.slots.length) none
                nextToConsume := em.nextToConsume + 1 } where
  slots_pos := by simpa using h.slots_pos
  consumed i hi := by
    rcases Nat.lt_succ_iff_lt_or_eq.mp hi with hi | rfl
    · exact h.consumed i hi
    · exact hpub
  window i hi := by
    have := h.window i hi
    rw [List.length_set]
    dsimp only
    omega
  ready i hi hpub := by
    have hpos := h.slots_pos
    dsimp only at hi
    rw [List.length_set, List.getElem?_set, if_neg]
    · exact h.ready i (by omega) hpub
    · intro heq
      have := mod_inj (Nat.le_refl _) (by omega) (by omega) (h.window i hpub) heq
      omega
  vacant i hi hi' hpub := by
    dsimp only at hi hi'
    rw [List.length_set] at hi' ⊢
    rw [List.getElem?_set]
    split
    · rename_i heq
      rw [if_pos (Nat.mod_lt _ h.slots_pos)]
    · rename_i hne
      refine h.vacant i (by omega) ?_ hpub
      -- The last index of the new window has the slot that was just emptied.
      by_contra hge
      obtain rfl : i = em.nextToConsume + em.slots.length := by omega
      exact hne (Nat.add_mod_right ..).symm

end OrderedEmitter

/-! ## Whole runs -/

/-- An emitter with its publishers, each with the indices that it has yet to publish, and what `consume`
has returned. -/
structure EmitterRun where
  emitter : OrderedEmitter
  pending : List (List Nat)
  out : List Bytes := []

inductive EmitterEvent where
  /-- The publisher `t` publishes its next chunk. -/
  | publish (t : Nat)
  | consume
  | setTotal
  | abort (e : Failure)

namespace EmitterRun

section Runs

variable (n : Nat) (data : Nat → Bytes)

/-- One step, unless it waits. -/
def next (s : EmitterRun) : EmitterEvent → Option EmitterRun
  | .publish t =>
    match s.pending[t]? with
    | some (i :: rest) =>
      (s.emitter.publish i (data i)).map fun r =>
        { s with emitter := r.1, pending := s.pending.set t rest }
    | _ => none
  | .consume =>
    match s.emitter.consume with
    | none => none
    | some (.error _) => some s
    | some (.ok (em, none)) => some { s with emitter := em }
    | some (.ok (em, some bytes)) => some { s with emitter := em, out := s.out ++ [bytes] }
  | .setTotal => some { s with emitter := s.emitter.setTotal n }
  | .abort e => some { s with emitter := s.emitter.abort e }

def Step (s : EmitterRun) (event : EmitterEvent) (s' : EmitterRun) : Prop := s.next n data event = some s'

/-- The publishers have different indices, which are those below `n`. -/
def Started (capacity : Nat) (s : EmitterRun) : Prop :=
  ∃ pending : List (List Nat), pending.flatten.Perm (List.range n) ∧
    s = { emitter := .init capacity, pending := pending }

/-- What was published is below `n` and not pending. -/
structure Orderly (s : EmitterRun) : Prop where
  nodup : s.pending.flatten.Nodup
  below : ∀ i ∈ s.pending.flatten, i < n
  out : s.out = (List.range s.emitter.nextToConsume).map data
  consumed : s.emitter.nextToConsume ≤ n
  total : ∀ m, s.emitter.total = some m → m = n
  holds : s.emitter.error = none → s.emitter.Holds data fun i => i < n ∧ i ∉ s.pending.flatten

end Runs

variable {n : Nat} {data : Nat → Bytes} {s s' : EmitterRun}

/-- A publisher's next index is taken away from all that is pending. -/
theorem flatten_set_perm {pending : List (List Nat)} {t i : Nat} {rest : List Nat}
    (h : pending[t]? = some (i :: rest)) : pending.flatten.Perm (i :: (pending.set t rest).flatten) := by
  induction pending generalizing t with
  | nil => cases h
  | cons l pending ih =>
    cases t with
    | zero =>
      cases h
      exact .refl _
    | succ t =>
      rw [List.set_cons_succ, List.flatten_cons, List.flatten_cons]
      exact ((ih h).append_left l).trans List.perm_middle

/-- What is pending is not consumed, and its slot is free where it may be published. -/
theorem Orderly.free (h : s.Orderly n data) {i : Nat} (hi : i ∈ s.pending.flatten)
    (herror : s.emitter.error = none) (hroom : i < s.emitter.nextToConsume + s.emitter.slots.length) :
    s.emitter.nextToConsume ≤ i ∧ s.emitter.slots[i % s.emitter.slots.length]? = some none := by
  have hholds := h.holds herror
  have hle : s.emitter.nextToConsume ≤ i := by
    by_contra hlt
    exact (hholds.consumed i (Nat.lt_of_not_le hlt)).2 hi
  exact ⟨hle, hholds.vacant i hle hroom fun hpub => hpub.2 hi⟩

theorem Orderly.publish (h : s.Orderly n data) {t i : Nat} {rest : List Nat}
    (ht : s.pending[t]? = some (i :: rest)) {em : OrderedEmitter} {ok : Bool}
    (hs : s.emitter.publish i (data i) = some (em, ok)) :
    Orderly n data { s with emitter := em, pending := s.pending.set t rest } := by
  have hperm := flatten_set_perm ht
  have hnodup := hperm.nodup_iff.mp h.nodup
  have hmem : ∀ j, j ∈ s.pending.flatten ↔ j = i ∨ j ∈ (s.pending.set t rest).flatten := fun j => by
    rw [hperm.mem_iff, List.mem_cons]
  have hbelow : ∀ j ∈ (s.pending.set t rest).flatten, j < n := fun j hj =>
    h.below j ((hmem j).mpr (.inr hj))
  have hi : i ∈ s.pending.flatten := (hmem i).mpr (.inl rfl)
  obtain ⟨haborted, rfl, -⟩ | ⟨herror, hroom, rfl, -⟩ := OrderedEmitter.publish_cases hs
  · -- nothing is published any more
    exact ⟨(List.nodup_cons.mp hnodup).2, hbelow, h.out, h.consumed, h.total,
      fun hnone => absurd hnone haborted⟩
  · refine ⟨(List.nodup_cons.mp hnodup).2, hbelow, h.out, h.consumed, h.total, fun _ => ?_⟩
    refine ((h.holds herror).publish (h.free hi herror hroom).1 hroom).congr fun j => ?_
    have hfresh : i ∉ (s.pending.set t rest).flatten := (List.nodup_cons.mp hnodup).1
    constructor
    · rintro (⟨hlt, hold⟩ | rfl)
      · exact ⟨hlt, fun hj => hold ((hmem j).mpr (.inr hj))⟩
      · exact ⟨h.below j hi, hfresh⟩
    · rintro ⟨hlt, hnew⟩
      by_cases hj : j = i
      · exact .inr hj
      · exact .inl ⟨hlt, fun hold => ((hmem j).mp hold).elim hj hnew⟩

theorem Orderly.take (h : s.Orderly n data) {em : OrderedEmitter} {bytes : Bytes}
    (hs : s.emitter.consume = some (.ok (em, some bytes))) :
    Orderly n data { s with emitter := em, out := s.out ++ [bytes] } := by
  obtain ⟨herror, -⟩ := OrderedEmitter.consume_chunk hs
  obtain ⟨hpub, rfl, rfl⟩ := (h.holds herror).consume_eq hs
  refine ⟨h.nodup, h.below, ?_, hpub.1, h.total, fun _ => (h.holds herror).consume hpub⟩
  change s.out ++ [data s.emitter.nextToConsume] = (List.range (s.emitter.nextToConsume + 1)).map data
  rw [List.range_succ, List.map_append, h.out]
  rfl

theorem Orderly.step (h : s.Orderly n data) {event : EmitterEvent} (hs : s.Step n data event s') :
    s'.Orderly n data := by
  unfold Step EmitterRun.next at hs
  cases event with
  | publish t =>
    dsimp only at hs
    split at hs
    · rename_i i rest ht
      obtain ⟨⟨em, ok⟩, hpublish, rfl⟩ := Option.map_eq_some_iff.mp hs
      exact h.publish ht hpublish
    · cases hs
  | consume =>
    dsimp only at hs
    split at hs
    · cases hs
    · cases hs
      exact h
    · rename_i em hconsume
      cases hs
      obtain ⟨rfl, -⟩ := OrderedEmitter.consume_end hconsume
      exact h
    · rename_i em bytes hconsume
      cases hs
      exact h.take hconsume
  | setTotal =>
    cases hs
    refine ⟨h.nodup, h.below, h.out, h.consumed, fun m hm => ?_, fun herror => ?_⟩
    · exact (Option.some.inj hm).symm
    · have hholds := h.holds herror
      exact ⟨hholds.slots_pos, hholds.consumed, hholds.window, hholds.ready, hholds.vacant⟩
  | abort e =>
    cases hs
    refine ⟨h.nodup, h.below, h.out, h.consumed, h.total, fun herror => ?_⟩
    have hsome : (s.emitter.error.or (some e)) ≠ none := by cases s.emitter.error <;> simp
    exact absurd herror hsome

theorem orderly_of_reach {capacity : Nat} (hr : Reach (Started n capacity) (Step n data) s) :
    s.Orderly n data := by
  refine Reach.invariant (I := Orderly n data) (fun s h => ?_) (fun _ _ _ h hs => h.step hs) hr
  obtain ⟨pending, hperm, rfl⟩ := h
  have hmem : ∀ i, i ∈ pending.flatten ↔ i < n := fun i => by rw [hperm.mem_iff, List.mem_range]
  refine ⟨hperm.nodup_iff.mpr List.nodup_range, fun i hi => (hmem i).mp hi, rfl, Nat.zero_le _,
    fun m hm => ?_, fun _ => ?_⟩
  · cases hm
  · refine (OrderedEmitter.holds_init data capacity).congr fun i => ?_
    constructor
    · exact False.elim
    · rintro ⟨hlt, hnot⟩
      exact hnot ((hmem i).mpr hlt)

end EmitterRun

/-- In every run: what was consumed are the first chunks in order; a chunk is published into a slot that is
free; and `consume` returns false only when all chunks were returned. -/
theorem emission_ordered {n capacity : Nat} {data : Nat → Bytes} {s : EmitterRun}
    (hr : Reach (EmitterRun.Started n capacity) (EmitterRun.Step n data) s) :
    s.out = ((List.range n).map data).take s.out.length ∧
    (∀ (t i : Nat) (rest : List Nat) (em : OrderedEmitter), s.pending[t]? = some (i :: rest) →
      s.emitter.publish i (data i) = some (em, true) →
        s.emitter.slots[i % s.emitter.slots.length]? = some none) ∧
    ∀ em, s.emitter.consume = some (.ok (em, none)) → s.out.length = n := by
  have h := EmitterRun.orderly_of_reach hr
  have hlength : s.out.length = s.emitter.nextToConsume := by
    rw [h.out, List.length_map, List.length_range]
  refine ⟨?_, fun t i rest em ht hpublish => ?_, fun em hconsume => ?_⟩
  · rw [hlength, ← List.map_take, List.take_range, Nat.min_eq_left h.consumed]
    exact h.out
  · have hi : i ∈ s.pending.flatten := (EmitterRun.flatten_set_perm ht).mem_iff.mpr List.mem_cons_self
    obtain ⟨-, -, hok⟩ | ⟨herror, hroom, -⟩ := OrderedEmitter.publish_cases hpublish
    · cases hok
    · exact (h.free hi herror hroom).2
  · obtain ⟨-, m, hm, hle⟩ := OrderedEmitter.consume_end hconsume
    have htotal := h.total m hm
    have hconsumed := h.consumed
    omega

/-- Two publishers and one slot: the second chunk waits for the first. -/
theorem emission_ordered_pair : ∃ s, Reach (EmitterRun.Started 2 1) (EmitterRun.Step 2 fun i => [i.toUInt8]) s ∧
    s.emitter.consume = some (.ok (s.emitter, none)) ∧ s.out = [[0], [1]] ∧ s.out.length = 2 := by
  obtain ⟨s, hs, hemitter, hout⟩ : ∃ s ∈ runFrom (EmitterRun.next 2 fun i => [i.toUInt8])
      { emitter := .init 1, pending := [[1], [0]] } [.publish 1, .consume, .publish 0, .setTotal, .consume],
      s.emitter = ⟨[none], 2, some 2, none⟩ ∧ s.out = [[0], [1]] := by
    decide +kernel
  have hstart : EmitterRun.Started 2 1 { emitter := .init 1, pending := [[1], [0]] } :=
    ⟨[[1], [0]], .swap .., rfl⟩
  have hr : Reach (EmitterRun.Started 2 1) (EmitterRun.Step 2 fun i => [i.toUInt8]) s :=
    .of_runFrom (.init hstart) hs
  have hconsume : s.emitter.consume = some (.ok (s.emitter, none)) := by
    rw [hemitter]
    rfl
  exact ⟨s, hr, hconsume, hout, (emission_ordered hr).2.2 _ hconsume⟩

end DropZone
