import DropZone.Wire.Frame

/-!
# Gathered writes (`common/src/frame.cpp`, `client/src/transport_tcp.cpp`)

A header and a payload go out by one `writev`, which may take any part of them. The loop trims the
`iovec`s by what was taken and goes on.

* `WriteResult`: what one call comes to; `gather`: the loop; `writeAll`: that of `write_all`.
* `FramedStream.writeFrame`, `TcpChannel.writePair`: the two members, on the results of their calls.
* `gathered_writes_exact`: whoever returns has sent the header and the payload, and nobody makes a call
  after that.
-/

namespace DropZone

open LittleEndian

/-- What one `send` or `writev` comes to. -/
inductive WriteResult where
  /-- `n + 1` bytes are taken, or all that are offered. -/
  | taken (n : Nat)
  /-- `EINTR`. -/
  | interrupted
  /-- `EAGAIN`, and whether the socket becomes writable in time. -/
  | full (ready : Bool)
  /-- Any other error, with its text. -/
  | failed (reason : Bytes)

/-- How a write ends, with what the socket has taken. -/
inductive WriteOutcome where
  /-- It returns, and has not used these results. -/
  | returned (accepted : Bytes) (unused : List WriteResult)
  | threw (accepted : Bytes) (e : Failure)
  /-- It is in another call. -/
  | calling (accepted : Bytes)

/-- What a loop does about an error. -/
structure WriteErrors where
  /-- What it throws when the socket stays full; none if it does not wait. -/
  timeout : Option Failure
  failed : Bytes → Failure

/-- The `iovec`s after `consumed` bytes: the parts that are gone, and the one that is trimmed. -/
def advanceParts : Nat → List Bytes → List Bytes
  | _, [] => []
  | consumed, part :: parts =>
    if consumed ≥ part.length then advanceParts (consumed - part.length) parts
    else if consumed > 0 then part.drop consumed :: parts
    else part :: parts

/-- The loop over `writev`, with `parts` for what is left of the `iovec`s. -/
def gather (errors : WriteErrors) (total : Nat) :
    List WriteResult → Nat → List Bytes → Bytes → WriteOutcome
  | results, sent, parts, accepted =>
    if sent < total then
      match results with
      | [] => .calling accepted
      | .taken n :: results =>
        let written := min (n + 1) parts.flatten.length
        gather errors total results (sent + written) (advanceParts written parts)
          (accepted ++ parts.flatten.take written)
      | .interrupted :: results => gather errors total results sent parts accepted
      | .full ready :: results =>
        match errors.timeout with
        | none => .threw accepted (errors.failed (text "Resource temporarily unavailable"))
        | some e => if ready then gather errors total results sent parts accepted else .threw accepted e
      | .failed reason :: _ => .threw accepted (errors.failed reason)
    else .returned accepted results

/-- `write_all`. -/
def writeAll : List WriteResult → Bytes → Bytes → WriteOutcome
  | results, remaining, accepted =>
    if remaining.length > 0 then
      match results with
      | [] => .calling accepted
      | .taken n :: results => writeAll results (remaining.drop (n + 1)) (accepted ++ remaining.take (n + 1))
      | .interrupted :: results => writeAll results remaining accepted
      | .full ready :: results =>
        if ready then writeAll results remaining accepted
        else .threw accepted (.error (text "socket write timed out"))
      | .failed reason :: _ => .threw accepted (.error (text "write to socket failed: " ++ reason))
    else .returned accepted results

/-- `FramedStream::write_frame`. -/
def FramedStream.writeFrame (type : MessageType) (payload : Bytes) (flags : UInt16)
    (results : List WriteResult) : WriteOutcome :=
  let header := encodeFrameHeader { type := type, flags := flags, length := UInt32.ofNat payload.length }
  if payload.length > kMaxFrameLength then
    .threw [] (.error (text "refusing to send an oversized frame"))
  else if payload.length = 0 then writeAll results header []
  else gather { timeout := some (.error (text "frame write timed out"))
                failed := fun reason => .error (text "writev to socket failed: " ++ reason) }
    (header.length + payload.length) results 0 [header, payload] []

/-- `TcpChannel::write_pair`. -/
def TcpChannel.writePair (first second : Bytes) (results : List WriteResult) : WriteOutcome :=
  if second.length = 0 then writeAll results first []
  else gather { timeout := none
                failed := fun reason => .error (text "writev to the peer failed: " ++ reason) }
    (first.length + second.length) results 0 [first, second] []

/-- Whoever returns has sent these bytes; whoever makes another call, or throws, has sent less of them. -/
def WriteOutcome.Exact (bytes : Bytes) : WriteOutcome → Prop
  | .returned accepted _ => accepted = bytes
  | .threw accepted _ | .calling accepted => accepted <+: bytes ∧ accepted.length < bytes.length

variable {bytes accepted remaining : Bytes} {results : List WriteResult}

theorem flatten_advanceParts (n : Nat) (parts : List Bytes) :
    (advanceParts n parts).flatten = parts.flatten.drop n := by
  fun_induction advanceParts n parts with
  | case1 => simp
  | case2 n part parts hle ih =>
    rw [ih, List.flatten_cons, List.drop_append, List.drop_eq_nil_of_le hle, List.nil_append]
  | case3 n part parts hlt hpos =>
    rw [List.flatten_cons, List.flatten_cons, List.drop_append_of_le_length (Nat.le_of_not_le hlt)]
  | case4 n part parts hlt hzero => rw [Nat.eq_zero_of_not_pos hzero, List.drop_zero]

/-- What is taken and what is left of the `iovec`s are the bytes. -/
theorem gather_exact (errors : WriteErrors) {sent : Nat} {parts : List Bytes}
    (hbytes : accepted ++ parts.flatten = bytes) (hsent : sent = accepted.length) :
    (gather errors bytes.length results sent parts accepted).Exact bytes := by
  have hpart : accepted <+: bytes := ⟨_, hbytes⟩
  induction results generalizing sent parts accepted with
  | nil =>
    unfold gather
    split
    · rename_i hlt
      exact ⟨hpart, hsent ▸ hlt⟩
    · rename_i hge
      exact hpart.eq_of_length_le (by omega)
  | cons result results ih =>
    unfold gather
    split
    · rename_i hlt
      have hmore : accepted <+: bytes ∧ accepted.length < bytes.length := ⟨hpart, hsent ▸ hlt⟩
      cases result with
      | taken n =>
        have hnext : (accepted ++ parts.flatten.take (min (n + 1) parts.flatten.length)) ++
            (advanceParts (min (n + 1) parts.flatten.length) parts).flatten = bytes := by
          rw [flatten_advanceParts, List.append_assoc, List.take_append_drop, hbytes]
        refine ih hnext ?_ ⟨_, hnext⟩
        rw [List.length_append, List.length_take, hsent]
        omega
      | interrupted => exact ih hbytes hsent hpart
      | full ready =>
        cases errors.timeout with
        | none => exact hmore
        | some e =>
          cases ready with
          | true => exact ih hbytes hsent hpart
          | false => exact hmore
      | failed reason => exact hmore
    · rename_i hge
      exact hpart.eq_of_length_le (by omega)

theorem writeAll_exact (hbytes : accepted ++ remaining = bytes) :
    (writeAll results remaining accepted).Exact bytes := by
  have hlength : accepted.length + remaining.length = bytes.length := by
    rw [← hbytes, List.length_append]
  have hdone : ¬ remaining.length > 0 → accepted = bytes := fun hempty =>
    List.IsPrefix.eq_of_length_le ⟨_, hbytes⟩ (by omega)
  induction results generalizing remaining accepted with
  | nil =>
    unfold writeAll
    split
    · exact ⟨⟨_, hbytes⟩, by omega⟩
    · rename_i hempty
      exact hdone hempty
  | cons result results ih =>
    unfold writeAll
    split
    · have hmore : accepted <+: bytes ∧ accepted.length < bytes.length := ⟨⟨_, hbytes⟩, by omega⟩
      cases result with
      | taken n =>
        have hnext : (accepted ++ remaining.take (n + 1)) ++ remaining.drop (n + 1) = bytes := by
          rw [List.append_assoc, List.take_append_drop, hbytes]
        refine ih hnext (by rw [← List.length_append, hnext]) fun hempty => ?_
        exact List.IsPrefix.eq_of_length_le ⟨_, hnext⟩ (by rw [← hnext, List.length_append]; omega)
      | interrupted => exact ih hbytes hlength hdone
      | full ready =>
        cases ready with
        | true => exact ih hbytes hlength hdone
        | false => exact hmore
      | failed reason => exact hmore
    · rename_i hempty
      exact hdone hempty

/-- **Gathered writes are exact.** Whatever the calls come to, `write_frame` and `write_pair` return with
the header and the payload accepted, each byte once and in order, and make another call only while some
of them are not. -/
theorem gathered_writes_exact (type : MessageType) (flags : UInt16) (payload first second : Bytes)
    (results : List WriteResult) :
    (FramedStream.writeFrame type payload flags results).Exact (frameBytes type payload flags) ∧
      (TcpChannel.writePair first second results).Exact (first ++ second) := by
  constructor
  · unfold FramedStream.writeFrame
    dsimp only
    have hheader := length_encodeFrameHeader
      { type := type, flags := flags, length := UInt32.ofNat payload.length }
    split
    · refine ⟨⟨_, rfl⟩, ?_⟩
      rw [frameBytes, List.length_append, hheader]
      exact Nat.lt_add_right _ (by decide)
    · split
      · rename_i hempty
        refine writeAll_exact ?_
        rw [frameBytes, List.eq_nil_of_length_eq_zero hempty, List.append_nil]
        rfl
      · rw [← List.length_append]
        exact gather_exact _ (by simp [frameBytes]) rfl
  · unfold TcpChannel.writePair
    split
    · rename_i hempty
      exact writeAll_exact (by rw [List.eq_nil_of_length_eq_zero hempty, List.append_nil]; rfl)
    · rw [← List.length_append]
      exact gather_exact _ (by simp) rfl

end DropZone
