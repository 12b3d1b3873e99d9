import DropZone.Lib.System
import DropZone.Server.Footprint

/-!
# Answers reach the sender they answer

One receiver `r` answers each `Incoming` it is sent, in order, with an `Accept` or a `Reject`. All
other connections do what they like, connections come and go, and messages between the receiver and
the server take any time. The server sends an answer to the sender of the pairing that the receiver
is in when the answer arrives, and ignores the pairing id that an `Accept` carries.

* `World.next`: one event; `World.incoming` and `World.answers` are what is under way from and to the
  server, each tagged with the sender that the `Incoming` introduced.
* `answers_reach_their_sender`: in every run in which no sender is paired with the receiver while an
  earlier answer is outstanding, a `Matched` or `Reject` that the receiver's frame causes goes to the
  sender it answers.
* `answer_misdelivered`: otherwise one sender's answer can reach the next sender.
-/

namespace DropZone

open LittleEndian StateSpec System

/-- The server, and what is under way between it and the receiver. -/
structure World where
  server : Server
  /-- Introductions on their way to the receiver, each with the sender it introduces. -/
  incoming : List ConnId := []
  /-- The receiver's answers on their way to the server, with the sender each one answers. -/
  answers : List (ConnId × Frame) := []

inductive Event where
  /-- A client connects. -/
  | connect (env : Env) (addr : SockAddr)
  /-- The server handles a frame from another connection than the receiver's. -/
  | frame (env : Env) (c : ConnId) (frame : Frame)
  /-- The server handles a frame from the receiver that is no answer. -/
  | ownFrame (env : Env) (frame : Frame)
  /-- A connection closes: the peer is gone, timed out or was asked to leave. -/
  | close (c : ConnId)
  /-- Old pairings and idle rate-limit buckets are dropped. -/
  | expire (env : Env)
  /-- The receiver takes the oldest introduction and answers it. -/
  | answer (frame : Frame)
  /-- The server handles the receiver's oldest answer. -/
  | deliver (env : Env)

/-- The world after the server did something for connection `c`: every `Incoming` it enqueued on the
receiver introduces `c`. -/
def World.observe (r : ConnId) (w : World) (c : ConnId) (s' : Server) : World :=
  { w with
    server := s'
    incoming := w.incoming ++ ((w.server.logSince s').filter fun e =>
      e.1 == r && e.2.header.type == .incoming).map fun _ => c }

def Frame.isAnswer (f : Frame) : Bool := f.header.type == .accept || f.header.type == .reject

/-- One event, if it can happen. -/
def World.next (r : ConnId) (w : World) : Event → Option World
  | .connect env addr => some (w.observe r 0 (w.server.acceptConnection env addr))
  | .frame env c f =>
    if c ≠ r ∧ w.server.alive c then some (w.observe r c (w.server.processFrame env c f)) else none
  | .ownFrame env f =>
    if w.server.alive r ∧ !f.isAnswer ∧ f.header.type ≠ .sendRequest then
      some (w.observe r r (w.server.processFrame env r f))
    else none
  | .close c =>
    if w.server.alive c then some (w.observe r c (final (closeConnection c) w.server)) else none
  | .expire env => some (w.observe r 0 (w.server.expire env))
  | .answer f =>
    match w.incoming with
    | x :: rest =>
      if f.isAnswer then some { w with incoming := rest, answers := w.answers ++ [(x, f)] } else none
    | [] => none
  | .deliver env =>
    match w.answers with
    | (_, f) :: rest =>
      if w.server.alive r then
        some { w.observe r r (w.server.processFrame env r f) with answers := rest }
      else none
    | [] => none

def World.Initial (w : World) : Prop :=
  (∃ options rateLimiter, w.server = { options, rateLimiter }) ∧ w.incoming = [] ∧ w.answers = []

/-- A step that answers the right sender: every `Matched` or `Reject` that a frame from the receiver
causes on another connection is caused by an answer, and is on the sender which that answers. -/
def World.Faithful (r : ConnId) (w : World) (e : Event) (w' : World) : Prop :=
  ∀ y f, (y, f) ∈ w.server.logSince w'.server → y ≠ r →
    (f.header.type = .matched ∨ f.header.type = .reject) →
    match e with
    | .ownFrame _ _ => False
    | .deliver _ => w.answers.head?.map Prod.fst = some y
    | _ => True

/-- The condition on a step: a request that would be paired with the receiver comes only when nothing
is outstanding, and no request comes when the pairing counter is about to wrap around. -/
def World.Calm (r : ConnId) (w : World) : Event → Prop
  | .frame _ _ f => f.header.type = .sendRequest →
      w.server.sessions.nextPairingCounter.toNat + 2 < 2 ^ 64 ∧
      ∀ request receiver, SendRequest.decode f.payload = .ok request →
        w.server.sessions.lookup w.server.alive request.targetUsername = some r →
        w.server.connections r = some receiver → receiver.state = .receiverIdle →
        w.incoming = [] ∧ w.answers = []
  | _ => True

/-! ## Processing a frame -/

theorem shrinks_touched (s : Server) (env : Env) (c : ConnId) : Shrinks s (s.touched env c) :=
  Shrinks.update s c fun _ => Or.inl rfl

variable {P : ConnId → MessageType → Prop} {w : World} {conn receiver : Connection}

/-- A frame is processed as its handler does, and closing on an error adds nothing to it. -/
theorem processFrame_effect {s s₀ : Server} {env : Env} {c : ConnId}
    {f : Frame} (h : Effect P s₀ (final (handleFrame env c f) (s.touched env c))) :
    Effect P s₀ (s.processFrame env c f) := by
  unfold Server.processFrame
  unfold final at h
  cases hr : (handleFrame env c f).run (s.touched env c) with
  | ok u s' =>
    rw [hr] at h
    exact h
  | error e s' =>
    rw [hr] at h
    refine IsTrans.trans _ _ _ h (Shrinks.effect ?_ rfl)
    exact Shrinks.update s' c fun x => Or.inl (x.requestClose_pairingId _)

/-! ## The invariant -/

/-- At most one answer is outstanding, and it is due to the sender that the receiver is paired with,
if it is paired. -/
structure Settled (r : ConnId) (s : Server) (pending : List ConnId) : Prop where
  numbers : s.Numbers
  single : pending.length ≤ 1
  due : ∀ x ∈ pending, ∀ pr, s.sessions.pairings (s.pairingIdOf r) = some pr → pr.sender = x

/-- Who is owed an answer. -/
def World.pending (w : World) : List ConnId := w.incoming ++ w.answers.map Prod.fst

variable {r : ConnId} {s s' : Server} {pending : List ConnId}

/-- Losing pairings and pairing ids keeps the invariant. -/
theorem Settled.shrinks (hs : Settled r s pending) (h : Shrinks s s') : Settled r s' pending where
  numbers := hs.numbers.shrinks h
  single := hs.single
  due x hx pr' hp := by
    obtain ⟨pr, hpr, hparties⟩ := h.pairings _ pr' hp
    rcases h.ids r with e | e
    · rw [e] at hpr
      rw [show pr'.sender = pr.sender from congrArg Prod.fst hparties]
      exact hs.due x hx pr hpr
    · rw [e] at hpr
      exact absurd rfl (hs.numbers.numbered 0 pr hpr).1

theorem Settled.sublist {pending' : List ConnId} (hs : Settled r s pending)
    (h : pending'.Sublist pending) : Settled r s pending' :=
  ⟨hs.numbers, h.length_le.trans hs.single, fun x hx => hs.due x (h.subset hx)⟩

/-- Pairing a sender with a receiver keeps the invariant, if the answers outstanding afterwards are
none or those of the new pair. -/
theorem Settled.paired (env : Env) {c r' : ConnId}
    (hs : Settled r s pending) (hroom : s.sessions.nextPairingCounter.toNat + 2 < 2 ^ 64)
    (hc : s.connections c = some conn) (hr' : s.connections r' = some receiver) (hcr : c ≠ r)
    {pending' : List ConnId} (hsingle : pending'.length ≤ 1)
    (hown : r' = r → ∀ x ∈ pending', x = c) (hother : r' ≠ r → ∀ x ∈ pending', x ∈ pending) :
    Settled r (s.paired env c r') pending' := by
  obtain ⟨-, hnew, hpairings, hnumbers⟩ := hs.numbers.paired env hroom hc hr'
  refine ⟨hnumbers, hsingle, fun x hx pr hpr => ?_⟩
  rw [paired_pairingIdOf hc hr', hpairings] at hpr
  by_cases hrr : r' = r
  · rw [if_pos (Or.inr hrr.symm), Function.update_self] at hpr
    rw [← Option.some.inj hpr, hown hrr x hx]
  · have hne : ¬(r = c ∨ r = r') := by
      rintro (h | h)
      · exact hcr h.symm
      · exact hrr h.symm
    rw [if_neg hne, Function.update_of_ne (hnew r)] at hpr
    exact hs.due x (hother hrr x hx) pr hpr

/-! ## Steps -/

/-- A step that enqueues no `Incoming` leaves nothing new for the receiver to answer. -/
theorem observe_incoming {c : ConnId}
    (h : Effect P w.server s') (hP : ∀ y t, P y t → t ≠ .incoming) :
    (w.observe r c s').incoming = w.incoming := by
  obtain ⟨new, hlog, hnew⟩ := h.log
  have hnone : (new.filter fun e => e.1 == r && e.2.header.type == .incoming) = [] := by
    rw [List.filter_eq_nil_iff]
    rintro ⟨y, f⟩ hf
    simp [hP _ _ (hnew y f hf)]
  rw [World.observe, logSince_of_append hlog, hnone]
  exact List.append_nil _

theorem Settled.observe {c : ConnId}
    (hs : Settled r w.server w.pending) (h : Effect P w.server s')
    (hP : ∀ y t, P y t → t ≠ .incoming) : Settled r s' (w.observe r c s').pending := by
  have hpending : (w.observe r c s').pending = w.pending :=
    congrArg (· ++ w.answers.map Prod.fst) (observe_incoming h hP)
  rw [hpending]
  exact hs.shrinks h.shrinks

section Frames

variable {env : Env} {c : ConnId} {f : Frame}

theorem processFrame_quiet (s : Server) (env : Env) (c : ConnId) (h₁ : f.header.type ≠ .sendRequest)
    (h₂ : f.isAnswer = false) : Effect (QuietFrame c) s (s.processFrame env c f) := by
  simp only [Frame.isAnswer, Bool.or_eq_false_iff, beq_eq_false_iff_ne] at h₂
  exact ((processFrame_walks c f env s).effect h₁).mono fun y t h => (h.2 h₁).2 h₂.1 h₂.2

/-- A frame that is no request causes a match or a refusal at most on the sender that its own
connection is paired with. -/
theorem processFrame_answer (s : Server) (env : Env) (c : ConnId) (h : f.header.type ≠ .sendRequest) :
    Effect (AnswerFrame s c) s (s.processFrame env c f) :=
  ((processFrame_walks c f env s).effect h).mono fun _ _ ht => (ht.2 h).1

/-- What is under way after a request that introduced its sender to `r'`. -/
theorem observe_introduced {r' : ConnId} {new : List (ConnId × Frame)}
    (hlog : s'.log = w.server.log ++ new)
    (hnew : new = [] ∨ ∃ f, new = [(r', f)] ∧ f.header.type = .incoming) :
    (w.observe r c s').incoming = w.incoming ∨
      r' = r ∧ (w.observe r c s').incoming = w.incoming ++ [c] := by
  rw [World.observe, logSince_of_append hlog]
  rcases hnew with rfl | ⟨f, rfl, hf⟩
  · exact Or.inl (List.append_nil _)
  · by_cases hr : r' = r
    · exact Or.inr ⟨hr, by simp [hr, hf]⟩
    · exact Or.inl (by simp [hr])

/-- What processing a request does when it introduces the sender to `r'`. -/
theorem processFrame_introduces {request : SendRequest} {r' : ConnId}
    (hf : f.header.type = .sendRequest)
    (hmay : MayIntroduce (s.touched env c) env c f conn request r' receiver) :
    ∃ s₁ new, Shrinks s₁ (s.processFrame env c f) ∧
      s₁.sessions = (((s.touched env c).charged env conn).paired env c r').sessions ∧
      (∀ x, s₁.pairingIdOf x = (((s.touched env c).charged env conn).paired env c r').pairingIdOf x) ∧
      (s.processFrame env c f).log = s.log ++ new ∧
      (new = [] ∨ ∃ f, new = [(r', f)] ∧ f.header.type = .incoming) := by
  have hfinal : final (handleFrame env c f) (s.touched env c) =
      final (introduce env c r' request) ((s.touched env c).charged env conn) := by
    simp only [handleFrame, hf]
    rw [final, handleSendRequest_eq_introduce hmay]
    rfl
  obtain ⟨hsess, hids, new, hlog, hnew⟩ :=
    introduce_spec c env r' request ((s.touched env c).charged env conn)
  have hafter : Effect (fun _ _ => False) (final (handleFrame env c f) (s.touched env c))
      (s.processFrame env c f) := processFrame_effect (Std.Refl.refl _)
  rw [hfinal] at hafter
  obtain ⟨new', hlog', hnone⟩ := hafter.log
  have hnil : new' = [] := List.eq_nil_iff_forall_not_mem.mpr fun e he => hnone e.1 e.2 he
  refine ⟨_, new, hafter.shrinks, hsess, hids, ?_, hnew⟩
  rw [hlog', hnil, List.append_nil, hlog]
  rfl

/-- A request that introduces a sender to `r` is calm only when nothing is outstanding. -/
theorem calm_of_mayIntroduce {request : SendRequest}
    (hf : f.header.type = .sendRequest) (hcalm : w.Calm r (.frame env c f))
    (hmay : MayIntroduce (w.server.touched env c) env c f conn request r receiver) :
    w.incoming = [] ∧ w.answers = [] := by
  have hlook := hmay.target
  have hfound := hmay.found
  rw [Server.touched, alive_update] at hlook
  have hsame : (w.server.touched env c).connections r = w.server.connections r :=
    Function.update_of_ne hmay.ne _ _
  rw [hsame] at hfound
  exact (hcalm hf).2 request receiver hmay.decoded hlook hfound hmay.idle

/-- A calm request keeps the invariant. -/
theorem Settled.request (hs : Settled r w.server w.pending) (hcr : c ≠ r)
    (hf : f.header.type = .sendRequest) (hcalm : w.Calm r (.frame env c f)) :
    Settled r (w.server.processFrame env c f)
      (w.observe r c (w.server.processFrame env c f)).pending := by
  have htouch := shrinks_touched w.server env c
  rcases handleSendRequest_cases c f env (w.server.touched env c) with
    hquiet | ⟨conn, request, r', receiver, hmay⟩
  · refine hs.observe (P := QuietFrame c) (processFrame_effect ?_) fun y t h => h.1
    simp only [handleFrame, hf]
    exact IsTrans.trans _ _ _ (htouch.effect rfl) hquiet
  · obtain ⟨s₁, new, hshrinks, hsess, hids, hlog, hnew⟩ := processFrame_introduces hf hmay
    have hcharged : Settled r ((w.server.touched env c).charged env conn) w.pending :=
      let h := hs.shrinks htouch
      ⟨⟨h.numbers.numbered, h.numbers.used, h.numbers.known⟩, h.single, h.due⟩
    have hpaired : ∀ pending' : List ConnId, pending'.length ≤ 1 →
        (r' = r → ∀ x ∈ pending', x = c) → (r' ≠ r → ∀ x ∈ pending', x ∈ w.pending) →
        Settled r (w.server.processFrame env c f) pending' := by
      intro pending' hsingle hown hother
      have h := hcharged.paired env (hcalm hf).1 hmay.connection hmay.found hcr hsingle
        hown hother
      refine Settled.shrinks ⟨⟨?_, ?_, ?_⟩, h.single, ?_⟩ hshrinks
      · rw [hsess]; exact h.numbers.numbered
      · intro x; rw [hids x, hsess]; exact h.numbers.used x
      · intro x; rw [hids x, hsess]; exact h.numbers.known x
      · rw [hids r, hsess]; exact h.due
    by_cases hr : r' = r
    · subst hr
      obtain ⟨hi, ha⟩ := calm_of_mayIntroduce hf hcalm hmay
      have hpending : ∀ l : List ConnId, l = [] ∨ l = [c] → l.length ≤ 1 ∧ ∀ x ∈ l, x = c := by
        rintro l (rfl | rfl) <;> simp
      have hl : (w.observe r' c (w.server.processFrame env c f)).pending = [] ∨
          (w.observe r' c (w.server.processFrame env c f)).pending = [c] := by
        have hobs := observe_introduced (r := r') (c := c) hlog hnew
        simp only [hi, List.nil_append, true_and] at hobs
        change _ ++ w.answers.map Prod.fst = _ ∨ _ ++ w.answers.map Prod.fst = _
        rw [ha]
        simpa using hobs
      obtain ⟨h₁, h₂⟩ := hpending _ hl
      exact hpaired _ h₁ (fun _ => h₂) fun h => absurd rfl h
    · have hobs := (observe_introduced (r := r) (c := c) hlog hnew).resolve_right fun h => hr h.1
      have hsame : (w.observe r c (w.server.processFrame env c f)).pending = w.pending :=
        congrArg (· ++ w.answers.map Prod.fst) hobs
      rw [hsame]
      exact hpaired _ hs.single (fun h => absurd h hr) fun _ x hx => hx

end Frames

/-- The invariant of a world: `Settled`, and what is on its way from the receiver are answers. -/
structure World.Inv (r : ConnId) (w : World) : Prop where
  settled : Settled r w.server w.pending
  answers : ∀ a ∈ w.answers, a.2.isAnswer = true

theorem not_sendRequest_of_isAnswer {f : Frame} (h : f.isAnswer = true) :
    f.header.type ≠ .sendRequest := by
  intro e
  simp [Frame.isAnswer, e] at h

theorem World.Initial.inv (h : w.Initial) : w.Inv r := by
  obtain ⟨⟨options, rateLimiter, hserver⟩, hin, hans⟩ := h
  refine ⟨⟨?_, ?_, ?_⟩, ?_⟩
  · rw [hserver]
    exact Server.Numbers.start rfl rfl
  · simp [World.pending, hin, hans]
  · simp [World.pending, hin, hans]
  · simp [hans]

/-- **Every calm step keeps the invariant.** -/
theorem World.Inv.step {w w' : World} {e : Event} (hw : w.Inv r) (hnext : w.next r e = some w')
    (hcalm : w.Calm r e) : w'.Inv r := by
  obtain ⟨hs, hanswers⟩ := hw
  cases e with
  | connect env addr =>
    cases hnext
    exact ⟨hs.observe (acceptConnection_effect 0 w.server env addr) fun y t h => h.1, hanswers⟩
  | frame env c f =>
    simp only [World.next, Option.ite_none_right_eq_some, Option.some.injEq] at hnext
    obtain ⟨⟨hcr, -⟩, rfl⟩ := hnext
    by_cases hf : f.header.type = .sendRequest
    · exact ⟨hs.request hcr hf hcalm, hanswers⟩
    · exact ⟨hs.observe (processFrame_answer w.server env _ hf) fun y t h => h.1, hanswers⟩
  | ownFrame env f =>
    simp only [World.next, Option.ite_none_right_eq_some, Option.some.injEq] at hnext
    obtain ⟨⟨-, -, hf⟩, rfl⟩ := hnext
    exact ⟨hs.observe (processFrame_answer w.server env _ hf) fun y t h => h.1, hanswers⟩
  | close c =>
    simp only [World.next, Option.ite_none_right_eq_some, Option.some.injEq] at hnext
    obtain ⟨-, rfl⟩ := hnext
    exact ⟨hs.observe ((closeConnection_walks c w.server).effect trivial) fun y t h => h.2.1, hanswers⟩
  | expire env =>
    cases hnext
    exact ⟨hs.observe (expire_effect 0 w.server env) fun y t h => h.1, hanswers⟩
  | answer f =>
    simp only [World.next] at hnext
    split at hnext
    · rename_i x rest hin
      simp only [Option.ite_none_right_eq_some, Option.some.injEq] at hnext
      obtain ⟨hf, rfl⟩ := hnext
      have hsingle := hs.single
      simp only [World.pending, hin, List.cons_append, List.length_cons, List.length_append,
        List.length_map] at hsingle
      have hrest : rest = [] := List.eq_nil_of_length_eq_zero (by omega)
      have hans : w.answers = [] := List.eq_nil_of_length_eq_zero (by omega)
      have hp : w.pending = [x] := by simp [World.pending, hin, hrest, hans]
      rw [hp] at hs
      exact ⟨by simpa [World.pending, hrest, hans] using hs, by simp [hans, hf]⟩
    · cases hnext
  | deliver env =>
    simp only [World.next] at hnext
    split at hnext
    · rename_i x f rest hans
      simp only [Option.ite_none_right_eq_some, Option.some.injEq] at hnext
      obtain ⟨-, rfl⟩ := hnext
      have hf := not_sendRequest_of_isAnswer (hanswers (x, f) (by simp [hans]))
      have heffect := processFrame_answer w.server env r hf
      refine ⟨(hs.observe (c := r) heffect fun y t h => h.1).sublist ?_, ?_⟩
      · exact List.Sublist.append_left (by simp [World.observe, hans]) _
      · intro a ha
        exact hanswers a (by rw [hans]; exact List.mem_cons_of_mem _ ha)
    · cases hnext

/-- From a state with the invariant, every step answers the right sender. -/
theorem World.Inv.faithful {w w' : World} {e : Event} (hw : w.Inv r) (hnext : w.next r e = some w') :
    w.Faithful r e w' := by
  intro y g hmem hyr htype
  cases e with
  | connect env addr => trivial
  | frame env c f => trivial
  | close c => trivial
  | expire env => trivial
  | answer f => trivial
  | ownFrame env f =>
    simp only [World.next, Option.ite_none_right_eq_some, Option.some.injEq] at hnext
    obtain ⟨⟨-, hans, hf⟩, rfl⟩ := hnext
    obtain ⟨new, hlog, hnew⟩ := (processFrame_quiet w.server env r hf (by simpa using hans)).log
    simp only [World.observe, logSince_of_append hlog] at hmem
    obtain ⟨-, hm, hr⟩ := hnew y g hmem
    rcases htype with h | h
    · exact hm h
    · exact hyr (hr h)
  | deliver env =>
    simp only [World.next] at hnext
    split at hnext
    · rename_i x f rest hans
      simp only [Option.ite_none_right_eq_some, Option.some.injEq] at hnext
      obtain ⟨-, rfl⟩ := hnext
      have hf := not_sendRequest_of_isAnswer (hw.answers (x, f) (by simp [hans]))
      obtain ⟨new, hlog, hnew⟩ := (processFrame_answer w.server env r hf).log
      simp only [World.observe, logSince_of_append hlog] at hmem
      rcases (hnew y g hmem).2 htype with h | ⟨pr, hpr, rfl⟩
      · exact absurd h hyr
      · -- the receiver is paired, so the pairing is with the sender that is owed an answer
        have hdue := hw.settled.due x (by simp [World.pending, hans]) pr hpr
        rw [hans, hdue]
        rfl
    · cases hnext

/-- **Answers reach the sender they answer**, in every run whose steps are calm: no sender is paired
with the receiver while an earlier introduction is unanswered or its answer still on the way. -/
theorem answers_reach_their_sender {w w' : World} {e : Event}
    (hw : Reach World.Initial (fun w e w' => w.next r e = some w' ∧ w.Calm r e) w)
    (hnext : w.next r e = some w') : w.Faithful r e w' := by
  have hinv : w.Inv r := hw.invariant (fun _ h => h.inv) fun _ _ _ hi hs => hi.step hs.1 hs.2
  exact hinv.faithful hnext

/-! ## A sender that leaves early -/

def acceptFrame : Frame :=
  Frame.of .accept (PeerIntroduction.encode
    { username := text "r", identityKey := .replicate 32 0, sessionKey := .replicate 32 0,
      proof := .replicate 32 0, signature := .replicate 64 0 })

/-- Sender 2 is introduced to receiver 1 and leaves while the receiver's answer is on its way; sender
3 is introduced next. -/
def leavingEarly : List Event :=
  let env : Env := { nowMs := 0 }
  let addr : SockAddr := .inet 4000 privateAddress
  let request := Frame.of .sendRequest requestForR.encode
  [.connect env addr, .connect env addr, .connect env addr,
    .ownFrame env (Frame.of .clientHello (plainHello .receiver (text "r")).encode),
    .frame env 2 (Frame.of .clientHello (plainHello .sender (text "a")).encode),
    .frame env 3 (Frame.of .clientHello (plainHello .sender (text "b")).encode),
    .frame env 2 request, .answer acceptFrame, .close 2, .frame env 3 request]

/-- A server that has just started. -/
def World.start : World := { server := { rateLimiter := { saltedHash := fun _ => 0 } } }

theorem World.start_initial : World.start.Initial := ⟨⟨{}, _, rfl⟩, rfl, rfl⟩

/-- A check that implies `Calm`: a request comes when nothing at all is outstanding. -/
def World.calmNow (w : World) : Event → Bool
  | .frame _ _ f => f.header.type != .sendRequest ||
      (decide (w.server.sessions.nextPairingCounter.toNat + 2 < 2 ^ 64) &&
        w.incoming.isEmpty && w.answers.isEmpty)
  | _ => true

theorem World.calm_of_calmNow {e : Event} (h : w.calmNow e = true) : w.Calm r e := by
  cases e with
  | frame env c f =>
    intro hf
    simp only [calmNow, hf, bne_self_eq_false, Bool.false_or, Bool.and_eq_true, decide_eq_true_eq,
      List.isEmpty_iff] at h
    exact ⟨h.1.1, fun _ _ _ _ _ _ => ⟨h.1.2, h.2⟩⟩
  | _ => trivial

/-- A sender that stays gets its answer. -/
theorem answer_delivered :
    ∃ w w' : World, w.next 1 (.deliver { nowMs := 0 }) = some w' ∧ w.answers.map Prod.fst = [2] ∧
      (∃ f, (2, f) ∈ w.server.logSince w'.server ∧ f.header.type = .matched) ∧
      w.Faithful 1 (.deliver { nowMs := 0 }) w' := by
  -- the run of `leavingEarly` up to the receiver's answer, in which nobody leaves
  obtain ⟨w, hw, w', hw', htags, ⟨y, f⟩, hmem, rfl, hf⟩ :
      ∃ w ∈ runFrom (fun w e => if w.calmNow e then w.next 1 e else none) World.start (leavingEarly.take 8),
        ∃ w' ∈ w.next 1 (.deliver { nowMs := 0 }), w.answers.map Prod.fst = [2] ∧
          ∃ e ∈ w.server.logSince w'.server, e.1 = 2 ∧ e.2.header.type = .matched := by
    decide +kernel
  refine ⟨w, w', hw', htags, ⟨f, hmem, hf⟩, answers_reach_their_sender
    ((Reach.of_guarded World.start_initial hw).mono fun v e v' hstep => ?_) hw'⟩
  exact ⟨hstep.1, World.calm_of_calmNow hstep.2⟩

/-- **Another sender's answer.** The receiver's answer to sender 2 is delivered to sender 3. -/
theorem answer_misdelivered :
    ∃ w w', Reach World.Initial (fun w e w' => w.next 1 e = some w') w ∧
      w.next 1 (.deliver { nowMs := 0 }) = some w' ∧ w.answers.map Prod.fst = [2] ∧
      (∃ f, (3, f) ∈ w.server.logSince w'.server ∧ f.header.type = .matched) ∧
      ¬ w.Faithful 1 (.deliver { nowMs := 0 }) w' := by
  obtain ⟨w, hw, w', hw', htags, ⟨y, f⟩, hmem, rfl, hf⟩ :
      ∃ w ∈ runFrom (World.next 1) World.start leavingEarly,
        ∃ w' ∈ w.next 1 (.deliver { nowMs := 0 }), w.answers.map Prod.fst = [2] ∧
          ∃ e ∈ w.server.logSince w'.server, e.1 = 3 ∧ e.2.header.type = .matched := by
    decide +kernel
  refine ⟨w, w', .of_runFrom (.init World.start_initial) hw, hw', htags, ⟨f, hmem, hf⟩, ?_⟩
  intro hfaithful
  have := hfaithful 3 f hmem (by decide) (Or.inl hf)
  rw [← List.head?_map, htags] at this
  cases this

end DropZone
