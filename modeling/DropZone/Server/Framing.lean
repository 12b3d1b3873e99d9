import DropZone.Server.Sockets

/-!
# Frames out of a stream of bytes

`read_available` appends what `recv` gives to the input buffer, which it compacts by two triggers, and
`next_frame` reads at a cursor. The stream may be cut anywhere.

* `Splits stream frames rest`: the grammar. `Splits.compare`: a stream splits in one way.
* `FrameReader`: a connection's reading side, with all that it received and all that it returned; `next`:
  a call of `read_available` with the results of its `recv`s, or a call of `next_frame`.
* `incremental_framing`: what is returned does not depend on the cuts, and the buffer never stalls.
-/

namespace DropZone

open LittleEndian System

/-! ## The grammar -/

/-- `stream` begins with `frames`, and `rest` comes behind them. -/
inductive Splits : Bytes → List Frame → Bytes → Prop where
  | nil (rest : Bytes) : Splits rest [] rest
  | cons {block : Block 8} {header : FrameHeader} {payload stream rest : Bytes} {frames : List Frame}
      (hdecode : decodeFrameHeader block = .ok header) (hlen : payload.length = header.length.toNat)
      (h : Splits stream frames rest) :
      Splits (block.toList ++ payload ++ stream) (⟨header, payload⟩ :: frames) rest

namespace Splits

variable {stream rest rest' : Bytes} {frames frames' : List Frame}

theorem append (h : Splits stream frames rest) (more : Bytes) :
    Splits (stream ++ more) frames (rest ++ more) := by
  induction h with
  | nil rest => exact .nil _
  | cons hdecode hlen _ ih =>
    rw [List.append_assoc]
    exact .cons hdecode hlen ih

theorem trans (h : Splits stream frames rest) (h' : Splits rest frames' rest') :
    Splits stream (frames ++ frames') rest' := by
  induction h with
  | nil rest => exact h'
  | cons hdecode hlen _ ih => exact .cons hdecode hlen (ih h')

/-- Two splits of one stream: one of them goes on from the other. -/
theorem compare (h : Splits stream frames rest) (h' : Splits stream frames' rest') :
    (∃ more, frames' = frames ++ more ∧ Splits rest more rest') ∨
      ∃ more, frames = frames' ++ more ∧ Splits rest' more rest := by
  induction h generalizing frames' rest' with
  | nil stream => exact .inl ⟨frames', rfl, h'⟩
  | @cons block header payload stream rest frames hdecode hlen htail ih =>
    generalize hwhole : block.toList ++ payload ++ stream = whole at h'
    cases h' with
    | nil =>
      subst hwhole
      exact .inr ⟨_, rfl, .cons hdecode hlen htail⟩
    | @cons block' header' payload' stream' _ frames' hdecode' hlen' htail' =>
      -- the first frame is the same
      rw [List.append_assoc, List.append_assoc] at hwhole
      obtain ⟨hblock, hbehind⟩ :=
        List.append_inj hwhole (block.toList_length.trans block'.toList_length.symm)
      cases Subtype.ext hblock
      cases hdecode.symm.trans hdecode'
      obtain ⟨rfl, rfl⟩ := List.append_inj hbehind (hlen.trans hlen'.symm)
      rcases ih htail' with ⟨more, rfl, hmore⟩ | ⟨more, rfl, hmore⟩
      · exact .inl ⟨more, rfl, hmore⟩
      · exact .inr ⟨more, rfl, hmore⟩

theorem rest_eq (h : Splits stream frames rest) (h' : Splits stream frames rest') : rest = rest' := by
  have hnil : ∀ {a b : Bytes} {more : List Frame}, frames = frames ++ more → Splits a more b → a = b := by
    intro a b more hmore hsplits
    rw [List.self_eq_append_right.mp hmore] at hsplits
    cases hsplits
    rfl
  rcases h.compare h' with ⟨more, hframes, hmore⟩ | ⟨more, hframes, hmore⟩
  · exact hnil hframes hmore
  · exact (hnil hframes hmore).symm

/-- Behind a header that is refused there is no frame. -/
theorem ends_at_error {block : Block 8} {e : Failure} (h : Splits (block.toList ++ rest) frames rest')
    (hdecode : decodeFrameHeader block = .error e) : frames = [] := by
  generalize hwhole : block.toList ++ rest = whole at h
  cases h with
  | nil => rfl
  | @cons block' header payload stream _ frames hdecode' _ _ =>
    rw [List.append_assoc] at hwhole
    have hblock := (List.append_inj hwhole (block.toList_length.trans block'.toList_length.symm)).1
    cases Subtype.ext hblock
    cases hdecode.symm.trans hdecode'

end Splits

/-! ## The buffer -/

namespace Inbox

variable {b b' : Inbox}

/-- `next_frame` throws exactly where the next header is refused. -/
theorem nextFrame_error {e : Failure} : b.nextFrame = .error e ↔
    ∃ (block : Block 8) (rest : Bytes), b.unread = block.toList ++ rest ∧
      decodeFrameHeader block = .error e := by
  constructor
  · intro h
    unfold nextFrame at h
    split at h
    · rename_i h8
      split at h
      · rename_i hdecode
        cases h
        exact ⟨_, b.unread.drop 8, (List.take_append_drop 8 _).symm, hdecode⟩
      · split at h <;> cases h
    · cases h
  · rintro ⟨block, rest, hunread, hdecode⟩
    have h8 : kFrameHeaderSize ≤ b.unread.length := by
      rw [hunread, List.length_append, block.toList_length]
      exact Nat.le_add_right _ _
    have hblock : (⟨b.unread.take 8, List.length_take_of_le h8⟩ : Block 8) = block := by
      refine Subtype.ext ?_
      change b.unread.take 8 = block.toList
      rw [hunread, List.take_left' block.toList_length]
    unfold nextFrame
    rw [dif_pos h8, hblock, hdecode]

/-- `next_frame` returns false only where less than the largest frame is there. -/
theorem nextFrame_none (h : b.nextFrame = .ok none) :
    b.unread.length < kFrameHeaderSize + kMaxFrameLength := by
  unfold nextFrame at h
  split at h
  · split at h
    · cases h
    · rename_i header hdecode
      have hmax := decodeFrameHeader_length hdecode
      split at h
      · omega
      · cases h
  · omega

theorem nextFrame_of_splits {f : Frame} {more : List Frame} {rest : Bytes}
    (h : Splits b.unread (f :: more) rest) : ∃ b' : Inbox, b.nextFrame = .ok (some (f, b')) := by
  generalize hunread : b.unread = bytes at h
  cases h with
  | cons hdecode hlen _ => exact ⟨_, (nextFrame_of_split hdecode hunread hlen).1⟩

/-- `Connection::read_available`, with the results of `recv` in turn: the buffer, what was received, and
whether the connection is still open. -/
def readAvailable : List RecvResult → Inbox → Option (Inbox × Bytes × Bool)
  | results, b =>
    let b := b.compact
    if b.atCap then some (b, [], true)
    else match results with
      | [] => none
      | .data bytes :: results =>
        if 0 < bytes.length ∧ bytes.length ≤ kReadBatch then
          (readAvailable results (b.append bytes)).map fun r => (r.1, bytes ++ r.2.1, r.2.2)
        else none
      | .interrupted :: results => readAvailable results b
      | .again :: _ => some (b, [], true)
      | .closed :: _ => some (b, [], false)
      | .failed :: _ => some (b, [], false)

/-- What `read_available` does: what was received is behind what was there. -/
theorem readAvailable_spec {results : List RecvResult} {bytes : Bytes} {stillOpen : Bool} (hwf : b.WF)
    (hroom : b.unread.length < kMaxInputBuffer + kReadBatch)
    (h : readAvailable results b = some (b', bytes, stillOpen)) :
    b'.WF ∧ b'.unread = b.unread ++ bytes ∧ b'.unread.length < kMaxInputBuffer + kReadBatch := by
  induction results generalizing b bytes with
  | nil =>
    unfold readAvailable at h
    dsimp only at h
    split at h
    · cases h
      rw [unread_compact, List.append_nil]
      exact ⟨hwf.compact, rfl, hroom⟩
    · cases h
  | cons result results ih =>
    unfold readAvailable at h
    dsimp only at h
    have hstay : b.compact.WF ∧ b.compact.unread = b.unread ++ [] ∧
        b.compact.unread.length < kMaxInputBuffer + kReadBatch := by
      rw [unread_compact, List.append_nil]
      exact ⟨hwf.compact, rfl, hroom⟩
    split at h
    · cases h
      exact hstay
    · rename_i hcap
      rw [atCap_compact, Bool.not_eq_true, atCap_eq_false] at hcap
      cases result with
      | data batch =>
        dsimp only at h
        split at h
        · rename_i hsize
          obtain ⟨⟨b₁, bytes₁, open₁⟩, hrest, heq⟩ := Option.map_eq_some_iff.mp h
          cases heq
          have hunread : (b.compact.append batch).unread = b.unread ++ batch := by
            rw [hwf.compact.unread_append, unread_compact]
          have hroom' : (b.compact.append batch).unread.length < kMaxInputBuffer + kReadBatch := by
            rw [hunread, List.length_append]
            omega
          obtain ⟨hwf', hunread', hlength⟩ := ih (hwf.compact.append batch) hroom' hrest
          refine ⟨hwf', ?_, hlength⟩
          rw [hunread', hunread, List.append_assoc]
        · cases h
      | interrupted =>
        have hrest := ih hwf.compact (by rw [unread_compact]; exact hroom) h
        rw [unread_compact] at hrest
        exact hrest
      | again | closed | failed =>
        cases h
        exact hstay

end Inbox

/-! ## Runs -/

/-- The reading side of a connection. -/
structure FrameReader where
  inbox : Inbox := {}
  /-- All that `recv` gave. -/
  received : Bytes := []
  /-- All that `next_frame` returned. -/
  frames : List Frame := []
  /-- What `next_frame` threw. -/
  raised : Option Failure := none

inductive ReadCall where
  | readAvailable (results : List RecvResult)
  | nextFrame

namespace FrameReader

def next (r : FrameReader) : ReadCall → Option FrameReader
  | .readAvailable results =>
    (Inbox.readAvailable results r.inbox).map fun (b, bytes, _) =>
      { r with inbox := b, received := r.received ++ bytes }
  | .nextFrame =>
    match r.inbox.nextFrame with
    | .error e => some { r with raised := some e }
    | .ok none => some r
    | .ok (some (f, b)) => some { r with inbox := b, frames := r.frames ++ [f] }

def Step (r : FrameReader) (call : ReadCall) (r' : FrameReader) : Prop := r.next call = some r'

def Fresh (r : FrameReader) : Prop := r = {}

/-- What was returned and what is unread are what was received. -/
structure Sound (r : FrameReader) : Prop where
  wf : r.inbox.WF
  room : r.inbox.unread.length < kMaxInputBuffer + kReadBatch
  splits : Splits r.received r.frames r.inbox.unread
  raised : ∀ e, r.raised = some e → r.inbox.nextFrame = .error e

variable {r r' : FrameReader}

theorem Sound.step (h : r.Sound) {call : ReadCall} (hs : r.Step call r') : r'.Sound := by
  unfold Step next at hs
  cases call with
  | readAvailable results =>
    obtain ⟨⟨b, bytes, stillOpen⟩, hread, rfl⟩ := Option.map_eq_some_iff.mp hs
    obtain ⟨hwf, hunread, hroom⟩ := Inbox.readAvailable_spec h.wf h.room hread
    refine ⟨hwf, hroom, ?_, fun e he => ?_⟩
    · change Splits (r.received ++ bytes) r.frames b.unread
      rw [hunread]
      exact h.splits.append bytes
    · -- the header that was refused is still the next one
      obtain ⟨block, rest, hold, hdecode⟩ := Inbox.nextFrame_error.mp (h.raised e he)
      refine Inbox.nextFrame_error.mpr ⟨block, rest ++ bytes, ?_, hdecode⟩
      change b.unread = _
      rw [hunread, hold, List.append_assoc]
  | nextFrame =>
    dsimp only at hs
    cases hframe : r.inbox.nextFrame with
    | error e =>
      rw [hframe] at hs
      cases hs
      refine ⟨h.wf, h.room, h.splits, fun e' he' => ?_⟩
      cases he'
      exact hframe
    | ok found =>
      rw [hframe] at hs
      cases found with
      | none =>
        cases hs
        exact h
      | some found =>
        obtain ⟨f, b⟩ := found
        cases hs
        obtain ⟨block, hdecode, hunread, hlen, -, -, hwf⟩ := Inbox.nextFrame_some hframe
        refine ⟨hwf, ?_, ?_, fun e he => ?_⟩
        · have hlength := congrArg List.length hunread
          have hroom := h.room
          simp only [List.length_append] at hlength
          dsimp only
          omega
        · refine h.splits.trans ?_
          rw [hunread]
          exact .cons hdecode hlen (.nil _)
        · cases (h.raised e he).symm.trans hframe

theorem sound_of_reach (hr : Reach Fresh Step r) : r.Sound := by
  refine Reach.invariant (I := Sound) (fun r h => ?_) (fun _ _ _ h hs => h.step hs) hr
  subst h
  refine ⟨Nat.le_refl _, by decide, .nil _, fun e he => ?_⟩
  cases he

theorem Sound.splits_stream (h : r.Sound) {stream : Bytes} (hstream : r.received <+: stream) :
    ∃ more, Splits stream r.frames (r.inbox.unread ++ more) := by
  obtain ⟨more, rfl⟩ := hstream
  exact ⟨more, h.splits.append more⟩

theorem Sound.frames_at_error (h : r.Sound) {stream : Bytes} (hstream : r.received <+: stream) {e : Failure}
    (he : r.inbox.nextFrame = .error e) {frames : List Frame} {rest : Bytes}
    (hsplits : Splits stream frames rest) : frames <+: r.frames := by
  obtain ⟨block, behind, hunread, hdecode⟩ := Inbox.nextFrame_error.mp he
  obtain ⟨more, hmine⟩ := h.splits_stream hstream
  rw [hunread, List.append_assoc] at hmine
  rcases hmine.compare hsplits with ⟨further, rfl, hfurther⟩ | ⟨further, hframes, -⟩
  · exact ⟨[], by simp [hfurther.ends_at_error hdecode]⟩
  · exact ⟨further, hframes.symm⟩

end FrameReader

open FrameReader

/-- In every run, for every stream of which `recv` has given a first part: the frames returned are the first
frames of the stream; `next_frame` returns false only when all whole frames of what was received have been
returned, and it throws exactly at a header that is refused; another run on the same stream returns no other
frames and throws nothing else; the buffer is bounded, and at the cap there is a frame or an error. -/
theorem incremental_framing {r : FrameReader} (hr : Reach Fresh Step r) {stream : Bytes}
    (hstream : r.received <+: stream) :
    (∃ rest, Splits stream r.frames rest) ∧
    (r.inbox.nextFrame = .ok none → ∀ frames rest, Splits r.received frames rest → frames <+: r.frames) ∧
    (∀ e, r.inbox.nextFrame = .error e ↔ ∃ (block : Block 8) (rest : Bytes),
      Splits r.received r.frames (block.toList ++ rest) ∧ decodeFrameHeader block = .error e) ∧
    (∀ e, r.raised = some e → ∀ r', Reach Fresh Step r' → r'.received <+: stream →
      r'.frames <+: r.frames ∧ ∀ e', r'.raised = some e' → e' = e ∧ r'.frames = r.frames) ∧
    r.inbox.unread.length < kMaxInputBuffer + 64 * 1024 ∧
    (r.inbox.atCap = true → r.inbox.nextFrame ≠ .ok none) := by
  have h := sound_of_reach hr
  refine ⟨?_, fun hnone frames rest hsplits => ?_, fun e => ⟨fun he => ?_, ?_⟩, fun e he r' hr' hstream' => ?_,
    h.room, fun hcap hnone => ?_⟩
  · obtain ⟨more, hsplits⟩ := h.splits_stream hstream
    exact ⟨_, hsplits⟩
  · rcases h.splits.compare hsplits with ⟨more, rfl, hmore⟩ | ⟨more, hframes, -⟩
    · cases more with
      | nil => exact ⟨[], by simp⟩
      | cons f more =>
        obtain ⟨b', hframe⟩ := Inbox.nextFrame_of_splits hmore
        cases hnone.symm.trans hframe
    · exact ⟨more, hframes.symm⟩
  · obtain ⟨block, rest, hunread, hdecode⟩ := Inbox.nextFrame_error.mp he
    exact ⟨block, rest, hunread ▸ h.splits, hdecode⟩
  · rintro ⟨block, rest, hsplits, hdecode⟩
    exact Inbox.nextFrame_error.mpr ⟨block, rest, h.splits.rest_eq hsplits, hdecode⟩
  · have h' := sound_of_reach hr'
    obtain ⟨more, hsplits⟩ := h.splits_stream hstream
    obtain ⟨more', hsplits'⟩ := h'.splits_stream hstream'
    have hle := h.frames_at_error hstream (h.raised e he) hsplits'
    refine ⟨hle, fun e' he' => ?_⟩
    have hge := h'.frames_at_error hstream' (h'.raised e' he') hsplits
    have hsame : r'.frames = r.frames := hle.eq_of_length_le hge.length_le
    refine ⟨?_, hsame⟩
    -- the header that is refused is at the same place
    obtain ⟨block, rest, hunread, hdecode⟩ := Inbox.nextFrame_error.mp (h.raised e he)
    obtain ⟨block', rest', hunread', hdecode'⟩ := Inbox.nextFrame_error.mp (h'.raised e' he')
    have hrest := hsplits.rest_eq (hsame ▸ hsplits')
    rw [hunread, hunread', List.append_assoc, List.append_assoc] at hrest
    have hblock := (List.append_inj hrest (block.toList_length.trans block'.toList_length.symm)).1
    cases Subtype.ext hblock
    cases hdecode.symm.trans hdecode'
    rfl
  · have hlength := Inbox.nextFrame_none hnone
    have hfull : kMaxInputBuffer ≤ r.inbox.unread.length := of_decide_eq_true hcap
    simp only [kMaxInputBuffer] at hfull
    omega

/-- A frame that is cut inside its header. -/
theorem incremental_framing_cut : ∃ r, Reach Fresh Step r ∧ r.received = frameBytes .keepAlive [] ∧
    r.frames.length = 1 ∧ ∃ rest, Splits (frameBytes .keepAlive []) r.frames rest := by
  obtain ⟨r, hs, hreceived, hlength⟩ : ∃ r ∈ runFrom FrameReader.next {}
      [.readAvailable [.data ((frameBytes .keepAlive []).take 5), .again], .nextFrame,
        .readAvailable [.interrupted, .data ((frameBytes .keepAlive []).drop 5), .again], .nextFrame],
      r.received = frameBytes .keepAlive [] ∧ r.frames.length = 1 := by
    decide +kernel
  have hr : Reach Fresh Step r := .of_runFrom (.init rfl) hs
  exact ⟨r, hr, hreceived, hlength, (incremental_framing hr (hreceived ▸ List.prefix_refl _)).1⟩

end DropZone
