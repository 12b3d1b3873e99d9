import DropZone.Lib.Parser

/-!
# A stream of frames

One side writes frames to a stream, in order. Bytes arrive at the other side in pieces of any length,
and it reads the frames with a parser.

* `Transit frames written arrived consumed input`: where the bytes are. Of the first `written`
  frames, the first `arrived` bytes have arrived; `consumed` frames were read, and `input` is what is
  left.
* `Transit.read`: what the parser returns is the next frame; `Transit.error_eq`: it fails only for
  want of bytes; `Transit.ready`: it returns a frame once all bytes have arrived.
-/

namespace Stream

open LittleEndian Parser

/-- Of the first `written` frames `arrived` bytes have arrived, and `consumed` frames were read. -/
structure Transit (frames : List Bytes) (written arrived consumed : Nat) (input : Bytes) : Prop where
  written_le : written ≤ frames.length
  consumed_le : consumed ≤ frames.length
  arrived_le : arrived ≤ (frames.take written).flatten.length
  input_eq : (frames.take consumed).flatten ++ input = (frames.take written).flatten.take arrived

theorem flatten_take_succ {frames : List Bytes} {i : Nat} {frame : Bytes}
    (h : frames[i]? = some frame) :
    (frames.take (i + 1)).flatten = (frames.take i).flatten ++ frame := by
  rw [List.take_add_one, h]
  simp

theorem flatten_take_of_le (frames : List Bytes) {i j : Nat} (h : i ≤ j) :
    (frames.take j).flatten =
      (frames.take i).flatten ++ ((frames.drop i).take (j - i)).flatten := by
  rw [← List.flatten_append, ← List.take_add, Nat.add_sub_cancel' h]

variable {frames : List Bytes} {written arrived consumed : Nat} {input : Bytes}

theorem transit_init (frames : List Bytes) : Transit frames 0 0 0 [] :=
  ⟨Nat.zero_le _, Nat.zero_le _, Nat.zero_le _, rfl⟩

/-- What is written later does not change what has arrived. -/
theorem Transit.write {written' : Nat} (h : Transit frames written arrived consumed input)
    (hle : written ≤ written') (hmax : written' ≤ frames.length) :
    Transit frames written' arrived consumed input := by
  have hsplit := flatten_take_of_le frames hle
  refine ⟨hmax, h.consumed_le, ?_, ?_⟩
  · rw [hsplit, List.length_append]
    exact Nat.le_add_right_of_le h.arrived_le
  · rw [hsplit, List.take_append_of_le_length h.arrived_le]
    exact h.input_eq

theorem Transit.arrive (h : Transit frames written arrived consumed input) {n : Nat}
    (hn : arrived + n ≤ (frames.take written).flatten.length) :
    Transit frames written (arrived + n) consumed
      (input ++ ((frames.take written).flatten.drop arrived).take n) where
  written_le := h.written_le
  consumed_le := h.consumed_le
  arrived_le := hn
  input_eq := by rw [← List.append_assoc, h.input_eq, List.take_add]

/-- What was not read yet is the front of the frames that follow. -/
theorem Transit.input_of (h : Transit frames written arrived consumed input) :
    ∃ more, input ++ more = (frames.drop consumed).flatten := by
  refine ⟨(frames.take written).flatten.drop arrived ++ (frames.drop written).flatten, ?_⟩
  refine List.append_cancel_left (?_ : (frames.take consumed).flatten ++ _ = _)
  rw [← List.append_assoc, ← List.append_assoc, h.input_eq, List.take_append_drop,
    ← List.flatten_append, ← List.flatten_append, List.take_append_drop, List.take_append_drop]

section Read

variable {ε α : Type} {p : Parser ε α} {stop : ε} {encode : α → Bytes} {values : List α}

theorem Transit.input_nil (h : Transit frames written arrived consumed input)
    (hend : consumed = frames.length) : input = [] := by
  obtain ⟨more, hmore⟩ := h.input_of
  rw [hend, List.drop_length, List.flatten_nil] at hmore
  exact (List.append_eq_nil_iff.mp hmore).1

theorem run_drop {i : Nat} {v : α} (hreads : ∀ v ∈ values, Reads p (encode v) v)
    (hv : values[i]? = some v) :
    p.run ((values.map encode).drop i).flatten =
      .ok (v, ((values.map encode).drop (i + 1)).flatten) := by
  have hframe : (values.map encode)[i]? = some (encode v) := by rw [List.getElem?_map, hv]; rfl
  obtain ⟨hlt, hget⟩ := List.getElem?_eq_some_iff.mp hframe
  rw [List.drop_eq_getElem_cons hlt, hget, List.flatten_cons]
  exact hreads v (List.mem_of_getElem? hv) _

/-- What the parser returns is the next frame. -/
theorem Transit.read (h : Transit (values.map encode) written arrived consumed input)
    (hinc : Incremental stop p) (hnil : p.run [] = .error stop)
    (hreads : ∀ v ∈ values, Reads p (encode v) v) {v : α} {rest : Bytes}
    (hrun : p.run input = .ok (v, rest)) :
    values[consumed]? = some v ∧
      Transit (values.map encode) written arrived (consumed + 1) rest := by
  have hlt : consumed < values.length := by
    have hle := h.consumed_le
    rw [List.length_map] at hle
    refine Nat.lt_of_le_of_ne hle fun hend => ?_
    rw [h.input_nil (by rw [hend, List.length_map]), hnil] at hrun
    cases hrun
  have hv : values[consumed]? = some values[consumed] := List.getElem?_eq_getElem hlt
  have hframe : (values.map encode)[consumed]? = some (encode values[consumed]) := by
    rw [List.getElem?_map, hv]
    rfl
  obtain ⟨more, hmore⟩ := h.input_of
  have hfull := hinc.ok hrun more
  rw [hmore, run_drop hreads hv] at hfull
  injection hfull with hfull
  injection hfull with hval hrest
  have hinput : input = encode values[consumed] ++ rest := by
    refine List.append_cancel_right (?_ : _ ++ more = _ ++ more)
    have hsplit : ((values.map encode).drop consumed).flatten =
        encode values[consumed] ++ ((values.map encode).drop (consumed + 1)).flatten := by
      rw [List.drop_eq_getElem_cons (by rwa [List.length_map]), List.flatten_cons, List.getElem_map]
    rw [hmore, hsplit, hrest, List.append_assoc]
  refine ⟨hval ▸ hv, h.written_le, by rwa [List.length_map], h.arrived_le, ?_⟩
  rw [flatten_take_succ hframe, List.append_assoc, ← hinput]
  exact h.input_eq

/-- The parser fails only for want of bytes. -/
theorem Transit.error_eq (h : Transit (values.map encode) written arrived consumed input)
    (hinc : Incremental stop p) (hnil : p.run [] = .error stop)
    (hreads : ∀ v ∈ values, Reads p (encode v) v) {e : ε} (hrun : p.run input = .error e) :
    e = stop := by
  by_contra hne
  rcases Nat.lt_or_ge consumed values.length with hlt | hge
  · obtain ⟨more, hmore⟩ := h.input_of
    have hfull := hinc.error hrun hne more
    rw [hmore, run_drop hreads (List.getElem?_eq_getElem hlt)] at hfull
    cases hfull
  · have hle := h.consumed_le
    rw [List.length_map] at hle
    rw [h.input_nil (by rw [List.length_map]; omega), hnil] at hrun
    cases hrun
    exact hne rfl

theorem Transit.ready (h : Transit (values.map encode) written arrived consumed input)
    (hreads : ∀ v ∈ values, Reads p (encode v) v)
    (harrived : arrived = ((values.map encode).take written).flatten.length)
    (hlt : consumed < written) :
    ∃ v rest, values[consumed]? = some v ∧ p.run input = .ok (v, rest) := by
  have hlen : consumed < values.length := by
    have hle := h.written_le
    rw [List.length_map] at hle
    exact Nat.lt_of_lt_of_le hlt hle
  have hv : values[consumed]? = some values[consumed] := List.getElem?_eq_getElem hlen
  have hframe : (values.map encode)[consumed]? = some (encode values[consumed]) := by
    rw [List.getElem?_map, hv]
    rfl
  have hinput := h.input_eq
  rw [harrived, List.take_length, flatten_take_of_le _ hlt, flatten_take_succ hframe,
    List.append_assoc] at hinput
  rw [List.append_cancel_left hinput]
  exact ⟨_, _, hv, hreads _ (List.getElem_mem hlen) _⟩

end Read

/-- No more frames are read than were written, if no frame is empty. -/
theorem Transit.consumed_le_written (h : Transit frames written arrived consumed input)
    (hne : ∀ frame ∈ frames, frame ≠ []) : consumed ≤ written := by
  by_contra hnot
  have hlt : written < consumed := Nat.lt_of_not_le hnot
  have hlt' : written < frames.length := Nat.lt_of_lt_of_le hlt h.consumed_le
  have hlen := congrArg List.length h.input_eq
  have hframe : frames[written]? = some frames[written] := List.getElem?_eq_getElem hlt'
  have hpos := List.length_pos_iff.mpr (hne _ (List.mem_of_getElem? hframe))
  rw [flatten_take_of_le frames hlt, flatten_take_succ hframe] at hlen
  simp only [List.length_append, List.length_take] at hlen
  omega

end Stream
