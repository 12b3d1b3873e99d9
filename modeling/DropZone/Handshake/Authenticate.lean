import DropZone.Handshake.DirectTcp

/-!
# The exchange of proofs, call by call (`authenticate`)

`authenticate` sets a receive timeout and then uses `write_all` and `read_exact`, which treat `EAGAIN` as
the answer of a socket that does not block: they poll, for half a minute and for two minutes. Here a
connection is the list of the answers that its calls get.

* `AuthCall.next`: the call that follows an answer.
* `authenticate_sound`: only the proof that was expected is taken.
* `timeout_waits_on`: whatever was received before, the timeout does not end `authenticate` but starts
  another wait. `timeout_outlived`: a proof that comes after the timeout is taken.
-/

namespace DropZone

open LittleEndian System

/-- What a call on the socket is answered. -/
inductive SocketAnswer where
  /-- `send` took `n` bytes. -/
  | sent (n : Nat)
  /-- `recv` gave at least one byte. -/
  | received (b : UInt8) (more : Bytes)
  /-- `recv` gave none. -/
  | closed
  /-- `EAGAIN`: on a socket that blocks, the timeout that was set has fired. -/
  | again
  /-- `EINTR`, so many milliseconds after the call. -/
  | interrupted (elapsed : Nat)
  /-- Any other error. -/
  | failed
  /-- `poll` reports the socket. -/
  | ready
  /-- `poll` reports nothing. -/
  | timedOut
  deriving DecidableEq

/-- The call that `authenticate` is in, or what it has returned. -/
inductive AuthCall where
  /-- `send` in `write_all`. -/
  | sending (left : Bytes)
  /-- `poll` in `wait_writable`. -/
  | pollingOut (left : Bytes) (timeoutMs : Nat)
  /-- `recv` in `read_exact`. -/
  | receiving (got : Bytes)
  /-- `poll` in `wait_readable`. -/
  | pollingIn (got : Bytes) (timeoutMs : Nat)
  | returned (ok : Bool)
  deriving DecidableEq

def kWriteWaitMs : Nat := 30000

def kReadWaitMs : Nat := 120000

namespace AuthCall

variable (t : TcpSession) (dialled : Bool)

/-- The first call. -/
def start : AuthCall := .sending (t.own dialled)

/-- The loop of `wait_for`: `waiting` polls on with what is left of the timeout, `go` is what follows when
the socket is ready. Whatever `write_all` and `read_exact` throw is an `Error`. -/
def waitFor (waiting : Nat → AuthCall) (go : AuthCall) (timeoutMs : Nat) : SocketAnswer → Option AuthCall
  | .ready => some go
  | .timedOut => some (.returned false)
  | .interrupted elapsed =>
    if timeoutMs ≤ elapsed then some (.returned false) else some (waiting (timeoutMs - elapsed))
  | .failed => some (.returned false)
  | _ => none

/-- The call that follows an answer. -/
def next : AuthCall → SocketAnswer → Option AuthCall
  | .sending left, .sent n =>
    if left.drop n = [] then some (.receiving []) else some (.sending (left.drop n))
  | .sending left, .interrupted _ => some (.sending left)
  | .sending left, .again => some (.pollingOut left kWriteWaitMs)
  | .sending _, .failed => some (.returned false)
  | .pollingOut left timeoutMs, answer => waitFor (.pollingOut left) (.sending left) timeoutMs answer
  | .receiving got, .received b more =>
    let got := (got ++ b :: more).take 32
    if got.length < 32 then some (.receiving got) else some (.returned (got == t.expected dialled))
  | .receiving _, .closed => some (.returned false)
  | .receiving got, .interrupted _ => some (.receiving got)
  | .receiving got, .again => some (.pollingIn got kReadWaitMs)
  | .receiving _, .failed => some (.returned false)
  | .pollingIn got timeoutMs, answer => waitFor (.pollingIn got) (.receiving got) timeoutMs answer
  | _, _ => none

end AuthCall

/-- The call that `authenticate` is in when its calls were answered so. -/
def authenticate (t : TcpSession) (dialled : Bool) (answers : List SocketAnswer) : Option AuthCall :=
  runFrom (AuthCall.next t dialled) (AuthCall.start t dialled) answers

namespace AuthCall

variable {t : TcpSession} {dialled : Bool}

/-- What is known of the bytes that were received: they are not all there yet, or `authenticate` has
compared them. -/
def Sound (t : TcpSession) (dialled : Bool) (received : Bytes) : AuthCall → Prop
  | .sending _ | .pollingOut _ _ => received = []
  | .receiving got | .pollingIn got _ => got = received ∧ received.length < 32
  | .returned ok => ok = true → received.take 32 = t.expected dialled

/-- The bytes that `recv` was answered with. -/
def bytesOf : SocketAnswer → Bytes
  | .received b more => b :: more
  | _ => []

theorem sound_returned_false (received : Bytes) : (returned false).Sound t dialled received := by
  intro h
  cases h

theorem Sound.waitFor {received : Bytes} {waiting : Nat → AuthCall} {go call : AuthCall} {timeoutMs : Nat}
    {answer : SocketAnswer} (hwaiting : ∀ ms, (waiting ms).Sound t dialled received)
    (hgo : go.Sound t dialled received) (h : AuthCall.waitFor waiting go timeoutMs answer = some call) :
    bytesOf answer = [] ∧ call.Sound t dialled received := by
  cases answer with
  | ready =>
    cases h
    exact ⟨rfl, hgo⟩
  | timedOut | failed =>
    cases h
    exact ⟨rfl, sound_returned_false received⟩
  | interrupted elapsed =>
    refine ⟨rfl, ?_⟩
    rw [AuthCall.waitFor] at h
    split at h <;> cases h
    · exact sound_returned_false received
    · exact hwaiting _
  | sent | received | closed | again => cases h

/-- What `recv` gives is added to what there was, and what completes a proof is compared. -/
theorem Sound.received {got : Bytes} {b : UInt8} {more : Bytes} {call : AuthCall}
    (h : (receiving got).next t dialled (.received b more) = some call) :
    call.Sound t dialled (got ++ b :: more) := by
  rw [AuthCall.next] at h
  split at h <;> cases h
  · rename_i hshort
    have hlen : (got ++ b :: more).length < 32 := by
      rw [List.length_take] at hshort
      omega
    exact ⟨List.take_of_length_le hlen.le, hlen⟩
  · intro hok
    exact eq_of_beq hok

theorem Sound.next {received : Bytes} {call call' : AuthCall} {answer : SocketAnswer}
    (hs : call.Sound t dialled received) (h : call.next t dialled answer = some call') :
    call'.Sound t dialled (received ++ bytesOf answer) := by
  -- an answer that brings no bytes
  have hquiet : bytesOf answer = [] ∧ call'.Sound t dialled received →
      call'.Sound t dialled (received ++ bytesOf answer) := by
    rintro ⟨hnone, hsound⟩
    rwa [hnone, List.append_nil]
  cases call with
  | sending left =>
    obtain rfl : received = [] := hs
    apply hquiet
    cases answer with
    | sent n =>
      rw [AuthCall.next] at h
      split at h <;> cases h
      · exact ⟨rfl, rfl, Nat.zero_lt_succ _⟩
      · exact ⟨rfl, rfl⟩
    | interrupted | again =>
      cases h
      exact ⟨rfl, rfl⟩
    | failed =>
      cases h
      exact ⟨rfl, sound_returned_false _⟩
    | received | closed | ready | timedOut => cases h
  | pollingOut left timeoutMs =>
    have hwait : AuthCall.waitFor (.pollingOut left) (.sending left) timeoutMs answer = some call' := h
    refine hquiet (Sound.waitFor (fun _ => ?_) ?_ hwait)
    · exact hs
    · exact hs
  | receiving got =>
    cases answer with
    | received b more =>
      obtain ⟨rfl, -⟩ := hs
      exact Sound.received h
    | interrupted | again =>
      cases h
      exact hquiet ⟨rfl, hs⟩
    | closed | failed =>
      cases h
      exact sound_returned_false _
    | sent | ready | timedOut => cases h
  | pollingIn got timeoutMs =>
    have hwait : AuthCall.waitFor (.pollingIn got) (.receiving got) timeoutMs answer = some call' := h
    refine hquiet (Sound.waitFor (fun _ => ?_) ?_ hwait)
    · exact hs
    · exact hs
  | returned ok => cases h

theorem sound_of_run {answers : List SocketAnswer} {call : AuthCall}
    (h : authenticate t dialled answers = some call) :
    call.Sound t dialled (answers.flatMap bytesOf) := by
  refine runFrom_invariant (I := fun answers call => call.Sound t dialled (answers.flatMap bytesOf))
    rfl (fun answers call answer call' hs hnext => ?_) h
  rw [List.flatMap_append, List.flatMap_singleton]
  exact hs.next hnext

end AuthCall

/-- `authenticate` returns true only for the proof that it expects. -/
theorem authenticate_sound {t : TcpSession} {dialled : Bool} {answers : List SocketAnswer}
    (h : authenticate t dialled answers = some (.returned true)) :
    (answers.flatMap AuthCall.bytesOf).take 32 = t.expected dialled :=
  AuthCall.sound_of_run h rfl

theorem authenticate_sound_toy : ∃ answers, authenticate toyDial false answers = some (.returned true) ∧
    (answers.flatMap AuthCall.bytesOf).take 32 = toyDial.expected false :=
  have h : authenticate toyDial false [.sent 32, .received ((toyDial.expected false).headD 0)
      (toyDial.expected false).tail] = some (.returned true) := by decide +kernel
  ⟨_, h, authenticate_sound h⟩

/-- Whatever was received before, the receive timeout does not end `authenticate`: it polls the socket
for two minutes, and whatever it returns it returns after that wait. -/
theorem timeout_waits_on {t : TcpSession} {dialled : Bool} {front back : List SocketAnswer} {got : Bytes}
    {call : AuthCall} (hfront : authenticate t dialled front = some (.receiving got))
    (hcall : authenticate t dialled (front ++ .again :: back) = some call) :
    got.length < 32 ∧ got = front.flatMap AuthCall.bytesOf ∧
    authenticate t dialled (front ++ [.again]) = some (.pollingIn got kReadWaitMs) ∧
    ¬ (call = .returned false ∧ back = []) := by
  obtain ⟨hgot, hlt⟩ := AuthCall.sound_of_run hfront
  have hpoll : authenticate t dialled (front ++ [.again]) = some (.pollingIn got kReadWaitMs) := by
    rw [authenticate, runFrom_concat, ← authenticate, hfront]
    rfl
  refine ⟨hgot ▸ hlt, hgot, hpoll, ?_⟩
  rintro ⟨rfl, rfl⟩
  cases hpoll.symm.trans hcall

/-- A peer that sends nothing: the timeout, and then the wait. -/
theorem timeout_waits_on_silent : ∃ call,
    authenticate toyDial false [.sent 32, .again, .timedOut] = some call ∧
    authenticate toyDial false [.sent 32, .again] = some (.pollingIn [] kReadWaitMs) ∧
    call = .returned false := by
  have hfront : authenticate toyDial false [.sent 32] = some (.receiving []) := by decide +kernel
  have hcall : authenticate toyDial false ([.sent 32] ++ .again :: [.timedOut]) = some (.returned false) := by
    decide +kernel
  obtain ⟨-, -, hpoll, -⟩ := timeout_waits_on hfront hcall
  exact ⟨_, hcall, hpoll, rfl⟩

/-- The timeout fires after ten bytes: the rest of the proof is waited for, and taken. -/
theorem timeout_outlived : ∃ (proof : Bytes) (first second : SocketAnswer),
    first = .received (proof.headD 0) ((proof.take 10).drop 1) ∧
    second = .received ((proof.drop 10).headD 0) (proof.drop 11) ∧
    authenticate toyDial false [.sent 32, first] = some (.receiving (proof.take 10)) ∧
    authenticate toyDial false [.sent 32, first, .again] = some (.pollingIn (proof.take 10) 120000) ∧
    authenticate toyDial false [.sent 32, first, .again, .ready, second] = some (.returned true) :=
  ⟨toyDial.expected false, _, _, rfl, rfl, by decide +kernel, by decide +kernel, by decide +kernel⟩

end DropZone
