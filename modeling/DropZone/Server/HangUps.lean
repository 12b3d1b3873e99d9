import DropZone.Server.Sockets

/-!
# Clients that hang up (`service_connection`)

A client may send its last frames and close its end at once. Its frames are handled before
`close_connection` runs, if the shard reads the stream to its end and is not stopped on the way.

* `Sockets.Orderly`: what is handled so far are the first frames of the stream, and the rest is in the
  buffer and in the kernel.
* `Sockets.Fair`: nothing stops the shard. The client never has as much waiting as the input buffer may
  hold, hang-ups are reported when reading is not paused, no frame pauses the connection after the end
  of the stream was read, and nobody else asks for its close.
* `hang_up_handled`, and `hang_up_drops` for a client that sends more.
-/

namespace DropZone

open LittleEndian StateSpec System

namespace Sockets

/-- What is asked of an event about `c`. -/
def Spares (w : Sockets) (c : ConnId) : HostEvent → Prop
  | .ready _ _ event k => k.broken = false ∧ (event.closed = true →
      (w.client c).hungUp = true ∧ event.readable = true ∧ ¬ w.host.server.Paused c)
  | .wake _ _ k | .finish _ k => k.broken = false
  | .recv _ result => result ≠ .failed
  | .frame env d => ∀ closed processed, w.host.phase c = .framing closed false processed →
      ¬ w.host.Pauses (.frame env d) c
  | .timeout _ => False
  | .connect _ _ | .expire _ => True

/-- Nothing keeps the shard from reading and handling all that `c` sends. -/
def Fair (w : Sockets) (c : ConnId) : SocketEvent → Prop
  | .host e => if e.about = some c then w.Spares c e else c ∉ w.host.dismissed e
  | e => w.Modest c e

def FairStep (c : ConnId) (w : Sockets) (e : SocketEvent) (w' : Sockets) : Prop :=
  w.Step e w' ∧ w.Fair c e

theorem Fair.modest {w : Sockets} {c : ConnId} {e : SocketEvent} (h : w.Fair c e) : w.Modest c e := by
  cases e with
  | arrive | hangUp => exact h
  | host => trivial

/-- Where `service_connection` is, and what it knows. -/
def Place (k : Remote) (paused : Prop) (left : List Frame) : Phase → Prop
  | .rest => True
  | .reading closed => ¬ paused ∧ (closed = true → k.hungUp = true)
  | .framing closed stillOpen _ => ¬ paused ∧ (closed = true → stillOpen = false) ∧
      (stillOpen = false → k.queue = [] ∧ k.hungUp = true)
  | .ending closed stillOpen => (closed = true → stillOpen = false) ∧
      (stillOpen = false → k.hungUp = true ∧ (k.quit = true ∨ left = []))

theorem Place.imp {k k' : Remote} {paused paused' : Prop} {left : List Frame} {phase : Phase}
    (h : Place k paused left phase) (hpaused : paused' → paused) (hqueue : k'.queue = k.queue)
    (hup : k.hungUp = true → k'.hungUp = true) (hquit : k.quit = true → k'.quit = true) :
    Place k' paused' left phase := by
  cases phase with
  | rest => trivial
  | reading closed => exact ⟨mt hpaused h.1, fun hclosed => hup (h.2 hclosed)⟩
  | framing closed stillOpen processed =>
    refine ⟨mt hpaused h.1, h.2.1, fun hend => ?_⟩
    obtain ⟨hempty, hgone⟩ := h.2.2 hend
    exact ⟨hqueue.trans hempty, hup hgone⟩
  | ending closed stillOpen =>
    refine ⟨h.1, fun hend => ?_⟩
    obtain ⟨hgone, hdone⟩ := h.2 hend
    exact ⟨hup hgone, hdone.imp_left hquit⟩

end Sockets

/-- What holds of a connection that nothing stops. -/
structure Sockets.Orderly (w : Sockets) (c : ConnId) : Prop where
  below : w.Below c
  /-- The frames of the stream are those that were handled and those that are left. -/
  stream : ∀ more, framesIn ((w.client c).stream ++ more) =
    (w.client c).handled ++ framesIn ((w.host.inbox c).unread ++ (w.client c).queue ++ more)
  quit : w.host.server.Leaving c → (w.client c).quit = true
  place : Sockets.Place (w.client c) (w.host.server.Paused c)
    (framesIn ((w.host.inbox c).unread ++ (w.client c).queue)) (w.host.phase c)

namespace Sockets

variable {w w' : Sockets} {c : ConnId} {e : SocketEvent}

/-- All that was handled are the first frames of the stream. -/
theorem Orderly.handled (hw : w.Orderly c) : framesIn (w.client c).stream = (w.client c).handled ++
    framesIn ((w.host.inbox c).unread ++ (w.client c).queue) := by
  have h := hw.stream []
  rwa [List.append_nil, List.append_nil] at h

/-- An event about another connection. -/
theorem Orderly.other (hw : w.Orderly c) (hs : w.Step e w') (hbelow : w'.Below c)
    (hc : e.about ≠ some c) (hfair : w.Fair c e) : w'.Orderly c := by
  obtain ⟨hphase, hinbox, hclient⟩ := hs.other hc
  have hraises : Raises (· ≠ c) (· ≠ c) w.host.server w'.host.server := by
    cases hs with
    | arrive | hangUp => exact .refl _
    | @host e h step _ =>
      have hspared : c ∉ w.host.dismissed e := by
        rw [Fair, if_neg (show e.about ≠ some c from hc)] at hfair
        exact hfair
      refine (Host.next_raises step.1).mono (fun y hy he => hspared (he ▸ hy)) fun y hy he => ?_
      cases e with
      | frame env d => exact hc (congrArg some (he ▸ hy.1).symm)
      | connect | ready | wake | recv | finish | timeout | expire => exact hy
  refine ⟨hbelow, ?_, ?_, ?_⟩
  · rw [hinbox, hclient]
    exact hw.stream
  · rw [hclient]
    exact fun h => hw.quit ((hraises.leaving c h).resolve_right fun h => h rfl)
  · rw [hinbox, hclient, hphase]
    exact hw.place.imp (fun h => (hraises.paused c h).resolve_right fun h => h rfl) rfl id id

/-- The same frames are left. -/
theorem Orderly.goes (hw : w.Orderly c) (hbelow : w'.Below c)
    (hleft : (w'.host.inbox c).unread ++ (w'.client c).queue =
      (w.host.inbox c).unread ++ (w.client c).queue)
    (hclient : (w'.client c).stream = (w.client c).stream ∧
      (w'.client c).handled = (w.client c).handled)
    (hquit : w'.host.server.Leaving c → (w'.client c).quit = true)
    (hplace : Place (w'.client c) (w'.host.server.Paused c)
      (framesIn ((w.host.inbox c).unread ++ (w.client c).queue)) (w'.host.phase c)) :
    w'.Orderly c := by
  refine ⟨hbelow, ?_, hquit, ?_⟩
  · rw [hleft, hclient.1, hclient.2]
    exact hw.stream
  · rw [hleft]
    exact hplace

theorem Orderly.arrive {bytes : Bytes} (hw : w.Orderly c) (hopen : (w.client c).hungUp = false)
    (hbelow : (w.learn c ((w.client c).sends bytes)).Below c) :
    (w.learn c ((w.client c).sends bytes)).Orderly c := by
  refine ⟨hbelow, fun more => ?_, ?_, ?_⟩
  all_goals rw [learn_client, learn_host]
  · have hstream := hw.stream (bytes ++ more)
    simpa only [Remote.sends, List.append_assoc] using hstream
  · exact hw.quit
  · -- nothing arrives after the end of the stream
    have hplace := hw.place
    cases hp : w.host.phase c with
    | rest => trivial
    | reading closed =>
      rw [hp] at hplace
      exact hplace
    | framing closed stillOpen processed =>
      rw [hp] at hplace
      refine ⟨hplace.1, hplace.2.1, fun h => ?_⟩
      cases hopen.symm.trans (hplace.2.2 h).2
    | ending closed stillOpen =>
      rw [hp] at hplace
      refine ⟨hplace.1, fun h => ?_⟩
      cases hopen.symm.trans (hplace.2 h).1

theorem Orderly.hangUp (hw : w.Orderly c)
    (hbelow : (w.learn c { w.client c with hungUp := true }).Below c) :
    (w.learn c { w.client c with hungUp := true }).Orderly c := by
  refine hw.goes hbelow ?_ ?_ ?_ ?_
  all_goals rw [learn_client]
  · rfl
  · exact ⟨rfl, rfl⟩
  · exact hw.quit
  · exact hw.place.imp id rfl (fun _ => rfl) id

/-- `service_connection` is entered, on a hang-up only when it reads. -/
theorem Orderly.serve {env : Env} {k : Socket} (hw : w.Orderly c) (hbelow : w'.Below c)
    (event : ReadyEvent) {h : Host} (hsound : k.broken = false)
    (hinbox : h.inbox c = w.host.inbox c) (hserver : ∀ y, h.server.Paused y → w.host.server.Paused y)
    (hhost : w'.host = h.serve env c event k)
    (hclient : ∃ asked, w'.client c = { w.client c with asked := asked, drained := false })
    (hraises : Raises (fun _ => False) (fun _ => False) w.host.server w'.host.server)
    (htold : event.closed = true → (w.client c).hungUp = true ∧ event.readable = true ∧
      ¬ w.host.server.Paused c) : w'.Orderly c := by
  obtain ⟨asked, hclient⟩ := hclient
  have hkept : w'.host.inbox c = w.host.inbox c := by
    rw [hhost, (h.serve_phase env c event k).1, hinbox]
  have hgoes := h.serve_goes env c event k (by simp [Connection.flushes, hsound])
  rw [← hhost] at hgoes
  refine hw.goes hbelow ?_ ?_ (fun hleaving => ?_) ?_
  · rw [hkept, hclient]
  · rw [hclient]
    exact ⟨rfl, rfl⟩
  · rw [hclient]
    exact hw.quit ((hraises.leaving c hleaving).resolve_right id)
  · rw [hclient]
    obtain ⟨hreads, hpaused⟩ | ⟨hends, hpaused⟩ := hgoes
    · rw [hreads]
      exact ⟨hpaused, fun hclosed => (htold hclosed).1⟩
    · rw [hends]
      refine ⟨fun hclosed => ?_, Bool.noConfusion⟩
      obtain ⟨-, hreadable, hreads⟩ := htold hclosed
      exact absurd (hserver c (hpaused hreadable)) hreads

/-- One round of `read_available`. -/
theorem Orderly.recv {closed : Bool} {result : RecvResult} (hw : w.Orderly c) (hbelow : w'.Below c)
    (hread : w.host.read c closed result = some w'.host) (hgives : (w.client c).Gives result)
    (hsound : result ≠ .failed) (hphase : w.host.phase c = .reading closed)
    (hclient : w'.client c = (w.client c).received result)
    (hserver : w'.host.server = w.host.server) : w'.Orderly c := by
  have hplace := hw.place
  rw [hphase] at hplace
  have hquit : w'.host.server.Leaving c → (w'.client c).quit = true := by
    rw [hserver, hclient]
    cases result <;> exact hw.quit
  have hkept : (w'.client c).stream = (w.client c).stream ∧
      (w'.client c).handled = (w.client c).handled := by
    rw [hclient]
    cases result <;> exact ⟨rfl, rfl⟩
  obtain ⟨bytes, rfl, hsame, hinbox⟩ | ⟨hinbox, ⟨rfl, hsame⟩ | ⟨rfl, hgoes⟩ | ⟨hresult, hgoes⟩⟩ :=
    Host.read_goes hw.below.atCap hread
  · obtain ⟨rest, hrest⟩ := hgives
    refine hw.goes hbelow ?_ hkept hquit ?_
    · rw [hinbox, hw.below.wf.compact.unread_append, Inbox.unread_compact, hclient, Remote.received,
        ← hrest, List.drop_left, List.append_assoc]
    · rw [hsame, hphase, hserver, hclient]
      exact hplace
  · refine hw.goes hbelow (by rw [hinbox, Inbox.unread_compact, hclient]; rfl) hkept hquit ?_
    rw [hsame, hphase, hserver, hclient]
    exact hplace
  · refine hw.goes hbelow (by rw [hinbox, Inbox.unread_compact, hclient]; rfl) hkept hquit ?_
    rw [hgoes, hserver]
    refine ⟨hplace.1, fun hclosed => ?_, Bool.noConfusion⟩
    -- after a hang-up the end of the stream comes instead
    cases hgives.2.symm.trans (hplace.2 hclosed)
  · obtain rfl := hresult.resolve_right hsound
    refine hw.goes hbelow (by rw [hinbox, Inbox.unread_compact, hclient]; rfl) hkept hquit ?_
    rw [hgoes, hserver, hclient]
    exact ⟨hplace.1, fun _ => rfl, fun _ => hgives⟩

/-- One round of the loop over `next_frame`. -/
theorem Orderly.frame {env : Env} {closed stillOpen processed : Bool} {h : Host} (hw : w.Orderly c)
    (hbelow : Below { host := h, client := w.noted (.frame env c) } c)
    (halive : w.host.server.alive c = true)
    (hhandle : w.host.handle env c closed stillOpen processed = h)
    (hphase : w.host.phase c = .framing closed stillOpen processed)
    (hstays : stillOpen = false → ¬ w.host.Pauses (.frame env c) c)
    (hraises : Raises (fun _ => True) (w.host.Pauses (.frame env c)) w.host.server h.server) :
    Orderly { host := h, client := w.noted (.frame env c) } c := by
  have hplace := hw.place
  rw [hphase] at hplace
  obtain ⟨hreads, hclosed, hend⟩ := hplace
  obtain ⟨err, hframe, hinbox, hgoes⟩ | ⟨hframe, hserver, hinbox, hgoes⟩ |
    ⟨f, b, hframe, hserver, hinbox, hgoes⟩ :=
    Host.handle_goes halive env closed stillOpen processed hhandle
  · -- the stream cannot be parsed
    have hclient : w.noted (.frame env c) c = { w.client c with quit := true } := by
      rw [noted, hframe]
      exact Function.update_self ..
    refine hw.goes hbelow ?_ ?_ ?_ ?_
    all_goals
      dsimp only
      rw [hclient]
    · rw [hinbox]
    · exact ⟨rfl, rfl⟩
    · exact fun _ => rfl
    · rw [hgoes]
      exact ⟨hclosed, fun h => ⟨(hend h).2, .inl rfl⟩⟩
  · have hclient : w.noted (.frame env c) c = w.client c := by rw [noted, hframe]
    refine hw.goes hbelow ?_ ?_ ?_ ?_
    all_goals
      dsimp only
      rw [hclient]
    · rw [hinbox]
    · exact ⟨rfl, rfl⟩
    · rw [hserver]
      exact hw.quit
    · obtain hends | ⟨hagain, hstill, hreads'⟩ := hgoes
      · rw [hends]
        refine ⟨hclosed, fun h => ⟨(hend h).2, .inr ?_⟩⟩
        rw [(hend h).1, List.append_nil]
        refine framesIn_nil fun f b hsome => ?_
        cases hframe.symm.trans hsome
      · rw [hagain]
        refine ⟨hreads'.1, fun h => ?_⟩
        cases hstill.symm.trans (hclosed h)
  · have hclient : w.noted (.frame env c) c = (w.client c).handles f (w.quits env c f) := by
      rw [noted, hframe]
      exact Function.update_self ..
    have hquit : h.server.Leaving c → ((w.client c).handles f (w.quits env c f)).quit = true := by
      intro hleaving
      rw [Remote.handles, Bool.or_eq_true]
      cases hbefore : (w.host.record c).closeRequested with
      | true => exact .inl (hw.quit (Host.record_closeRequested.mp hbefore))
      | false =>
        obtain ⟨x, hx, hasks⟩ := hleaving
        refine .inr ?_
        rw [quits, hbefore, ← hserver, hx, Option.any_some, hasks]
        rfl
    have hcons := framesIn_cons hframe
    refine ⟨hbelow, fun more => ?_, ?_, ?_⟩
    all_goals
      dsimp only
      rw [hclient]
    · rw [hinbox, Remote.handles, List.append_assoc b.unread, List.append_assoc (w.client c).handled,
        List.singleton_append, ← hcons, ← List.append_assoc]
      exact hw.stream more
    · exact hquit
    · obtain ⟨hends, hflags⟩ | ⟨hagain, hreads'⟩ := hgoes
      · rw [hends]
        refine ⟨hclosed, fun h => ⟨(hend h).2, .inl ?_⟩⟩
        -- what stopped the loop was not a pause
        refine hquit (hflags.resolve_right fun hpaused => ?_)
        exact (hraises.paused c hpaused).elim hreads (hstays h)
      · rw [hagain]
        exact ⟨hreads', hclosed, hend⟩

/-- What an event preserves. -/
theorem Orderly.step (hw : w.Orderly c) (hs : w.Step e w') (hfair : w.Fair c e) : w'.Orderly c := by
  have hbelow := hw.below.step hs hfair.modest
  by_cases habout : e.about = some c
  · cases hs with
    | arrive bytes _ hopen =>
      cases habout
      exact hw.arrive hopen hbelow
    | hangUp _ =>
      cases habout
      exact hw.hangUp hbelow
    | @host e h step gives =>
      rw [Fair, if_pos (show e.about = some c from habout)] at hfair
      obtain ⟨hn, -⟩ := step
      have hraises := Host.next_raises hn
      have hlowers := Host.next_lowers hn
      cases Host.happens hn with
      | connect | expire => cases habout
      | timeout _ _ => exact hfair.elim
      | ready _ _ =>
        cases habout
        obtain ⟨hsound, htold⟩ := hfair
        exact hw.serve hbelow _ hsound rfl (fun _ => id) rfl ⟨_, Function.update_self ..⟩
          (hlowers (by simp [Host.closes, Connection.flushes, hsound]) fun _ _ => HostEvent.noConfusion) htold
      | @wake _ _ k _ _ =>
        cases habout
        have hsound : k.broken = false := hfair
        exact hw.serve hbelow (w.host.wakeEvent c) hsound (h := w.host.drained c) rfl (fun _ => id) rfl
          ⟨_, Function.update_self ..⟩ (hlowers (by simp [Host.closes, Connection.flushes, hsound])
            fun _ _ => HostEvent.noConfusion) Bool.noConfusion
      | drop _ hrest =>
        cases habout
        refine hw.goes hbelow ?_ ?_ ?_ ?_
        all_goals
          dsimp only [noted]
          rw [Function.update_self]
        · rfl
        · exact ⟨rfl, rfl⟩
        · exact hw.quit
        · rw [show (w.host.drained c).phase c = .rest from hrest]
          trivial
      | recv hphase hread =>
        cases habout
        refine hw.recv hbelow hread (gives hw.below.atCap) hfair hphase ?_ (Host.read_server hread)
        dsimp only [noted]
        rw [hw.below.atCap, if_neg (by decide), Function.update_self]
      | frame hphase halive =>
        cases habout
        refine hw.frame hbelow halive rfl hphase (fun hend => ?_)
          (hraises.mono (fun _ _ => trivial) fun _ => id)
        subst hend
        exact hfair _ _ hphase
      | @finish _ k closed stillOpen _ _ =>
        cases habout
        obtain ⟨hrest, hinbox⟩ := w.host.conclude_phase c k closed stillOpen
        refine hw.goes hbelow (by rw [hinbox]; rfl) ⟨rfl, rfl⟩
          (fun hleaving => hw.quit (Host.finish_leaving_self hn hleaving)) ?_
        rw [hrest]
        trivial
  · exact hw.other hs hbelow habout hfair

theorem Fair.own {e : HostEvent} (habout : e.about = some c) (hspares : w.Spares c e) :
    w.Fair c (.host e) := by
  rw [Fair, if_pos habout]
  exact hspares

theorem Standing.spares {phase : Phase} {b : Inbox} {k : Remote} (h : w.Standing c phase b k)
    (hframe : ∀ f b', b.nextFrame = .ok (some (f, b')) → f.header.type ≠ .relayData) (env : Env) :
    w.Fair c (.host (.frame env c)) := by
  refine Fair.own rfl fun _ _ _ hpauses => ?_
  obtain ⟨-, f, b', hnext, htype, -⟩ := hpauses
  rw [h.inbox] at hnext
  exact hframe f b' hnext htype

/-- Only its own last flush closes a connection to which everything is fair. -/
theorem Fair.closes {e : HostEvent} (hfair : w.Fair c (.host e)) (hcloses : w.host.closes e = some c) :
    ∃ k : Socket, e = .finish c k ∧ k.broken = false := by
  have hspares : e.about = some c → w.Spares c e := by
    intro habout
    rwa [Fair, if_pos habout] at hfair
  cases e with
  | connect | recv | frame | expire => cases hcloses
  | ready env d event k =>
    obtain ⟨hbroken, hc⟩ := Option.ite_none_right_eq_some.mp hcloses
    simp [Connection.flushes, (hspares hc).1] at hbroken
  | wake env d k =>
    obtain ⟨hbroken, hc⟩ := Option.ite_none_right_eq_some.mp hcloses
    simp [Connection.flushes, show k.broken = false from hspares hc] at hbroken
  | finish d k =>
    rw [Host.closes] at hcloses
    split at hcloses
    · obtain ⟨-, hc⟩ := Option.ite_none_right_eq_some.mp hcloses
      cases hc
      exact ⟨k, rfl, hspares rfl⟩
    · cases hcloses
  | timeout d =>
    cases hcloses
    exact (hspares rfl).elim

theorem Started.orderly (hw : w.Started) (c : ConnId) : w.Orderly c := by
  have hbelow := (hw.resting c).below
  obtain ⟨_, ⟨_, ⟨options, rateLimiter, rfl⟩, rfl⟩, rfl⟩ := hw
  refine ⟨hbelow, fun _ => rfl, fun ⟨x, hx, _⟩ => ?_, trivial⟩
  cases hx

end Sockets

/-- **What a client sent before it hung up is handled** in every run that is fair to it: the frames that
were handled are the first ones of its stream, and when `close_connection` runs they are all of them,
unless one of them requested the close or could not be parsed. -/
theorem hang_up_handled {w : Sockets} {c : ConnId}
    (hr : Reach Sockets.Started (Sockets.FairStep c) w) :
    (w.client c).handled <+: framesIn (w.client c).stream ∧
    ∀ e w', Sockets.FairStep c w (.host e) w' → w.host.closes e = some c →
      (w.client c).quit = true ∨ (w.client c).handled = framesIn (w.client c).stream := by
  have hw : w.Orderly c := Reach.invariant (I := (Sockets.Orderly · c))
    (fun _ hw => hw.orderly c) (fun _ _ _ hw hs => hw.step hs.1 hs.2) hr
  refine ⟨⟨_, hw.handled.symm⟩, fun e w' ⟨hs, hfair⟩ hcloses => ?_⟩
  obtain ⟨k, rfl, hsound⟩ := hfair.closes hcloses
  rw [Host.closes] at hcloses
  split at hcloses
  · rename_i closed stillOpen hphase
    obtain ⟨hends, -⟩ := Option.ite_none_right_eq_some.mp hcloses
    have hplace := hw.place
    rw [hphase] at hplace
    cases stillOpen with
    | false =>
      refine (hplace.2 rfl).2.imp_right fun hleft => ?_
      rw [hw.handled, hleft, List.append_nil]
    | true =>
      -- a hang-up was served to the end of the stream, so the close was requested
      have hopen : closed = false := Bool.eq_false_iff.mpr fun h => Bool.noConfusion (hplace.1 h)
      simp [Host.ends, Connection.flushes, hsound, hopen] at hends
      exact .inl (hw.quit (Host.record_closeRequested.mp hends.1))
  · cases hcloses

/-- A client that says once that it is there, and goes. -/
theorem hang_up_handled_once : ∃ w w', Reach Sockets.Started (Sockets.FairStep 1) w ∧
    Sockets.FairStep 1 w (.host (.finish 1 { taken := 0 })) w' ∧
    w.host.closes (.finish 1 { taken := 0 }) = some 1 ∧ (w.client 1).quit = false ∧
    (w.client 1).handled = framesIn (w.client 1).stream ∧ (w.client 1).handled.length = 1 := by
  obtain ⟨w₀, w₁, env, addr, hstarted, hs₁, h₁⟩ := Sockets.met
  obtain ⟨w₂, hs₂, h₂⟩ := h₁.sends rfl (frameBytes .keepAlive [])
  obtain ⟨w₃, hs₃, h₃⟩ := h₂.hangsUp
  obtain ⟨w₄, hs₄, h₄⟩ := h₃.ready { nowMs := 0 } true
  obtain ⟨w₅, hs₅, h₅⟩ := h₄.data (by decide) (List.prefix_refl _) (by decide) (by decide)
  obtain ⟨w₆, hs₆, h₆⟩ := h₅.stops .closed (.inr ⟨by decide, rfl, rfl⟩) fun _ => ⟨by decide, rfl⟩
  have hunread : (Inbox.compact (Inbox.append (Inbox.compact {}) (frameBytes .keepAlive []))).unread =
      frameBytes .keepAlive [] ++ [] := by decide
  have hframe := Inbox.nextFrame_of_unread (by trivial) (by decide) hunread
  obtain ⟨w₇, hs₇, h₇⟩ := h₆.keepAlive hframe rfl { nowMs := 0 }
  have hnone := Inbox.nextFrame_of_unread_nil (b := { input := frameBytes .keepAlive [], consumed := 8 })
    (by decide)
  obtain ⟨w₈, hs₈, h₈⟩ := h₇.noFrame hnone (by decide) { nowMs := 0 }
  obtain ⟨hcloses, w₉, hs₉⟩ := h₈.closes (.inr rfl)
  have hfair₂ : w₁.Fair 1 (.arrive 1 (frameBytes .keepAlive [])) := by
    intro _
    rw [Sockets.load, h₁.inbox, h₁.client]
    decide
  have hfair₄ : w₃.Fair 1 (.host (.ready { nowMs := 0 } 1 { readable := true, closed := true }
      { taken := 0 })) := by
    refine Sockets.Fair.own rfl ⟨rfl, fun _ => ⟨?_, rfl, fun hpaused => ?_⟩⟩
    · rw [h₃.client]
    · rw [← Host.record_readPaused, h₃.calm.2.reads] at hpaused
      cases hpaused
  have hfair₇ := h₆.spares (fun f b hf => by cases hframe.symm.trans hf; decide) { nowMs := 0 }
  have hfair₈ := h₇.spares (fun f b hf => by cases hnone.symm.trans hf) { nowMs := 0 }
  have hr : Reach Sockets.Started (Sockets.FairStep 1) w₈ := by
    refine .step (.step (.step (.step (.step (.step (.step (.step (.init hstarted) ⟨hs₁, ?_⟩)
      ⟨hs₂, hfair₂⟩) ⟨hs₃, trivial⟩) ⟨hs₄, hfair₄⟩) ⟨hs₅, ?_⟩) ⟨hs₆, ?_⟩) ⟨hs₇, hfair₇⟩) ⟨hs₈, hfair₈⟩
    · exact List.not_mem_nil
    · exact Sockets.Fair.own rfl RecvResult.noConfusion
    · exact Sockets.Fair.own rfl RecvResult.noConfusion
  have hs : Sockets.FairStep 1 w₈ (.host (.finish 1 { taken := 0 })) w₉ :=
    ⟨hs₉, Sockets.Fair.own rfl rfl⟩
  have hquit : (w₈.client 1).quit = false := by
    rw [h₈.client]
    rfl
  have hhandled := ((hang_up_handled hr).2 _ _ hs hcloses).resolve_left (by rw [hquit]; decide)
  refine ⟨w₈, w₉, hr, hs, hcloses, hquit, hhandled, ?_⟩
  rw [h₈.client]
  rfl

/-- A client that sends more: its second frame is whole in what it sent, but the hang-up closes the
connection before it is read. -/
theorem hang_up_drops : ∃ w w' f, Reach Sockets.Started Sockets.Step w ∧
    w.Step (.host (.finish 1 { taken := 0 })) w' ∧
    w.host.closes (.finish 1 { taken := 0 }) = some 1 ∧ (w.client 1).hungUp = true ∧
    (w.client 1).quit = false ∧ framesIn (w.client 1).stream = [f, f] ∧ (w.client 1).handled = [f] := by
  obtain ⟨w, b, k, hr, h, hstream, hhandled, hgone, hquit, -⟩ := long_queue true
  obtain ⟨hcloses, w', hs⟩ := h.closes (.inl rfl)
  refine ⟨w, w', Frame.of .keepAlive (List.replicate kMaxFrameLength 0), hr.reach, hs, hcloses, ?_, ?_, ?_, ?_⟩
  all_goals rw [h.client]
  · exact hgone
  · exact hquit
  · rw [hstream]
    exact framesIn_longFrames
  · exact hhandled

end DropZone
