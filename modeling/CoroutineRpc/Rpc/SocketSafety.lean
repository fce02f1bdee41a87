import CoroutineRpc.Rpc.Sockets

/-! A channel keeps count of its sockets: at every stop it has the one that it knows open and
nothing else, however often its calls had to connect again. -/
namespace CoroutineRpc.Rpc

/-- No socket is open but this one, if it is one. -/
structure Sockets.Only (s : Sockets) (fd : Int) : Prop where
  live : s.live = if fd = -1 then ∅ else {fd}
  clean : s.misused = false

namespace Sockets
variable {s : Sockets} {fd : Int}

theorem Only.empty (h : s.Only (-1)) : s.live = ∅ := h.live

theorem Only.single (h : s.Only fd) (hfd : fd ≠ -1) : s.live = {fd} := by
  rw [h.live, if_neg hfd]

/-- A socket that is open may be used. -/
theorem use_live (h : fd ∈ s.live) : s.use fd = s := by
  rw [use, decide_eq_true h]
  simp

theorem Only.use (h : s.Only fd) (hfd : fd ≠ -1) : s.use fd = s :=
  use_live (by rw [h.single hfd]; exact Finset.mem_singleton_self fd)

/-- Closing the socket leaves none. -/
theorem Only.close (h : s.Only fd) (hfd : fd ≠ -1) : (s.perform (.closed fd)).Only (-1) := by
  refine ⟨?_, ?_⟩
  · change s.live.erase fd = ∅
    rw [h.single hfd, Finset.erase_singleton]
  · change (s.use fd).misused = false
    rw [h.use hfd, h.clean]

theorem Only.open (h : s.Only (-1)) (hfd : fd ≠ -1) : (s.perform (.opened fd)).Only fd := by
  refine ⟨?_, h.clean⟩
  change insert fd s.live = _
  rw [h.empty, if_neg hfd]
  rfl

private theorem performAll_append (s : Sockets) (ops ops' : List SocketOp) :
    s.performAll (ops ++ ops') = (s.performAll ops).performAll ops' := List.foldl_append

end Sockets

open Sockets

private theorem Connect.ne_of_valid {fd : Int} (h : decide (0 ≤ fd) = true) : fd ≠ -1 := by
  have hle : 0 ≤ fd := of_decide_eq_true h
  omega

/-- A new connection is the only open socket; one that fails leaves none. -/
theorem newConnect_only {s : Sockets} {c : Connect} (ch : Channel) (hvalid : c.valid = true)
    (h : s.Only (-1)) :
    (s.performAll (ch.newConnect c).ops).Only (ch.newConnect c).channel.clientFd ∧
      ((ch.newConnect c).failed.isSome = true ↔ (ch.newConnect c).channel.clientFd = -1) := by
  cases c with
  | noSocket errno => exact ⟨h, iff_of_true rfl rfl⟩
  | refused fd errno reason =>
    have hfd := Connect.ne_of_valid hvalid
    have hopen := h.open hfd
    have hused : (s.perform (.opened fd)).perform (.connected fd false) = s.perform (.opened fd) :=
      hopen.use hfd
    refine ⟨?_, iff_of_true rfl rfl⟩
    change (((s.perform (.opened fd)).perform (.connected fd false)).perform (.closed fd)).Only (-1)
    rw [hused]
    exact hopen.close hfd
  | connected fd =>
    have hfd := Connect.ne_of_valid hvalid
    have hopen := h.open hfd
    refine ⟨?_, iff_of_false Bool.false_ne_true hfd⟩
    change ((s.perform (.opened fd)).use fd).Only fd
    rw [hopen.use hfd]
    exact hopen

/-- Whether the channel has a socket at this stop. -/
def Stop.Fits (fd : Int) : Stop → Prop
  | .unbuilt | .constructing _ | .returned true => fd = -1
  | .returned false => True
  | .serializing | .sending _ | .receiving => fd ≠ -1

namespace Life

structure Sound (s : Life) : Prop where
  only : s.sockets.Only s.channel.clientFd
  fits : s.stop.Fits s.channel.clientFd

theorem Sound.accounted {s : Life} (h : Sound s) : Accounted s := by
  refine ⟨h.only.live, h.only.clean, ?_⟩
  intro hstop
  have hfits := h.fits
  rwa [hstop] at hfits

theorem sound_start : Sound {} := ⟨⟨rfl, rfl⟩, rfl⟩

private theorem tried_sound {s : Life} {ch : Channel} {c : Connect} (hvalid : c.valid = true)
    (h : s.sockets.Only (-1)) (tryCount : Nat) : Sound (s.tried (ch.newConnect c) tryCount) := by
  obtain ⟨honly, hfailed⟩ := newConnect_only ch hvalid h
  refine ⟨honly, ?_⟩
  unfold tried advance
  dsimp only
  split
  · next hagain => exact hfailed.mp (Bool.and_elim_left hagain)
  · trivial

private theorem construct_sound {s : Life} {ch : Channel} {c : Connect} (hvalid : c.valid = true)
    (h : s.sockets.Only (-1)) (hch : ch.clientFd = -1) (connectNow : Bool) :
    Sound (s.construct ch connectNow c) := by
  unfold construct
  split
  · exact tried_sound hvalid h 3
  · refine ⟨?_, trivial⟩
    change s.sockets.Only ch.clientFd
    rwa [hch]

private theorem call_sound {s : Life} {c : Connect} (hvalid : c.valid = true) (h : Sound s) :
    Sound (s.call c) := by
  unfold call Channel.ensure
  split
  · next hfd =>
    have honly := h.only
    rw [hfd] at honly
    obtain ⟨hnew, hfailed⟩ := newConnect_only s.channel hvalid honly
    refine ⟨hnew, ?_⟩
    unfold advance
    dsimp only
    split
    · trivial
    · next hok => exact fun heq => hok (hfailed.mpr heq)
  · next hfd => exact ⟨h.only, hfd⟩

private theorem reconnect_sound {s : Life} {c : Connect} (hvalid : c.valid = true)
    (h : s.sockets.Only s.channel.clientFd) (hfd : s.channel.clientFd ≠ -1) (frame : ByteString) :
    Sound (s.reconnect frame c) := by
  have hused : s.sockets.perform (.sent s.channel.clientFd frame none) = s.sockets := h.use hfd
  obtain ⟨hnew, hfailed⟩ :=
    newConnect_only { s.channel with clientFd := -1 } hvalid (h.close hfd)
  refine ⟨?_, ?_⟩
  · change (((s.sockets.perform (.sent s.channel.clientFd frame none)).perform
      (.closed s.channel.clientFd)).performAll _).Only _
    rw [hused]
    exact hnew
  · unfold reconnect advance
    dsimp only
    split
    · next hsome => exact hfailed.mp hsome
    · next hok => exact fun heq => hok (hfailed.mpr heq)

private theorem recv_sound {s : Life} (h : s.sockets.Only s.channel.clientFd)
    (hfd : s.channel.clientFd ≠ -1) (reply : Reply) : Sound (s.recv reply) := by
  have hused : s.sockets.perform (.received s.channel.clientFd reply) = s.sockets := h.use hfd
  refine ⟨?_, rfl⟩
  change ((s.sockets.perform (.received s.channel.clientFd reply)).perform
    (.closed s.channel.clientFd)).Only (-1)
  rw [hused]
  exact h.close hfd

/-- One part of the code, from stop to stop. -/
theorem step_sound {s t : Life} {a : LifeAction} (h : Sound s) (hstep : step s a = some t) :
    Sound t := by
  unfold step at hstep
  split at hstep
  case isFalse => cases hstep
  case isTrue hvalid =>
    have honly := h.only
    have hfits := h.fits
    generalize hstop : s.stop = stop at hstep hfits
    unfold act at hstep
    split at hstep
    case h_1 ip port connectNow type c =>
      cases hstep
      rw [show s.channel.clientFd = -1 from hfits] at honly
      exact construct_sound hvalid honly rfl connectNow
    case h_2 c tryCount =>
      cases hstep
      rw [show s.channel.clientFd = -1 from hfits] at honly
      exact tried_sound hvalid honly (tryCount - 1)
    case h_3 c _ =>
      cases hstep
      exact call_sound hvalid h
    case h_4 =>
      cases hstep
      exact ⟨honly, trivial⟩
    case h_5 frame =>
      cases hstep
      exact ⟨honly, hfits⟩
    case h_6 c frame =>
      cases hstep
      exact reconnect_sound hvalid honly hfits frame
    case h_7 written frame =>
      cases hstep
      have hused : s.sockets.perform (.sent s.channel.clientFd frame (some written)) = s.sockets :=
        honly.use hfits
      refine ⟨?_, hfits⟩
      change (s.sockets.perform (.sent s.channel.clientFd frame (some written))).Only _
      rw [hused]
      exact honly
    case h_8 reply =>
      cases hstep
      exact recv_sound honly hfits reply
    case h_9 => cases hstep

/-- Over the whole life of a channel, whatever the operating system answers: no socket is
leaked, closed twice or used after it was closed. -/
theorem always_accounted (as : List LifeAction) : Transition.Always step Accounted {} as :=
  (Transition.always_of_step (fun _ _ _ h hstep => step_sound h hstep) sound_start as).mono
    (fun _ h => h.accounted)

section Calls
open Transition

private theorem step_of_valid {s : Life} {a : LifeAction} (hvalid : a.valid = true) :
    step s a = s.act a s.stop := if_pos hvalid

/-- The loop around `send` is the same run of single rounds. -/
theorem sendLoop_run (frame : ByteString) (written : Nat) {cs : List Connect}
    (hvalid : ∀ c ∈ cs, c.valid = true) (ch : Channel) (sockets : Sockets) :
    ∃ as, run step ⟨.sending frame, ch, sockets⟩ as =
      some ⟨if (ch.sendLoop frame written cs).failed.isSome then .returned true else .receiving,
        (ch.sendLoop frame written cs).channel,
        sockets.performAll (ch.sendLoop frame written cs).ops⟩ := by
  induction cs generalizing ch sockets with
  | nil => exact ⟨[.send written], rfl⟩
  | cons c cs ih =>
    have hc : c.valid = true := hvalid c List.mem_cons_self
    have hround : step ⟨.sending frame, ch, sockets⟩ (.reconnect c) =
        some (reconnect ⟨.sending frame, ch, sockets⟩ frame c) := step_of_valid hc
    unfold Channel.sendLoop
    cases hagain : ({ ch with clientFd := -1 : Channel }.newConnect c).failed with
    | some text =>
      refine ⟨[.reconnect c], ?_⟩
      rw [run_cons, hround, Option.bind_some, run_nil]
      simp only [reconnect, advance, hagain, Option.isSome_some, if_true]
    | none =>
      obtain ⟨as, has⟩ := ih (fun c' hc' => hvalid c' (List.mem_cons_of_mem _ hc'))
        ({ ch with clientFd := -1 : Channel }.newConnect c).channel
        (sockets.performAll (.sent ch.clientFd frame none :: .closed ch.clientFd ::
          ({ ch with clientFd := -1 : Channel }.newConnect c).ops))
      refine ⟨.reconnect c :: as, ?_⟩
      rw [run_cons, hround, Option.bind_some]
      simp only [reconnect, advance, hagain, Option.isSome_none, Bool.false_eq_true, if_false]
      rw [has, ← performAll_append]

/-- Every answer of the operating system during a call is one that it can give. -/
def Answered (net : Network) : Prop :=
  net.connect.valid = true ∧ ∀ c ∈ net.reconnects, c.valid = true

private theorem receive_ops {Q R : Type} {stub : Stub Q R} {ch : Channel} {reply : Reply}
    {called : Called R} (h : ch.receive stub reply = .ok called) :
    called.channel = { ch with clientFd := -1 } ∧
      called.ops = [.received ch.clientFd reply, .closed ch.clientFd] := by
  unfold Channel.receive at h
  dsimp only at h
  split at h
  · cases h
    exact ⟨rfl, rfl⟩
  · split at h
    · cases h
      exact ⟨rfl, rfl⟩
    · obtain ⟨_, -, hcalled⟩ := bind_eq_ok.mp h
      cases hcalled
      exact ⟨rfl, rfl⟩

/-- A whole call does what one run from its entry to one of its returns does. -/
theorem callMethod_run {Q R : Type} {codec : HeaderCodec} {stub : Stub Q R} {ch : Channel}
    {request : Q} {net : Network} {called : Called R} (hnet : Answered net)
    (hcall : ch.callMethod codec stub request net = .ok called) (past : Bool)
    (sockets : Sockets) :
    ∃ as past', run step ⟨.returned past, ch, sockets⟩ as =
      some ⟨.returned past', called.channel, sockets.performAll called.ops⟩ := by
  have hentry : step ⟨.returned past, ch, sockets⟩ (.call net.connect) =
      some (call ⟨.returned past, ch, sockets⟩ net.connect) := step_of_valid hnet.1
  unfold Channel.callMethod at hcall
  dsimp only at hcall
  split at hcall
  · next text hfailed =>
    cases hcall
    refine ⟨[.call net.connect], false, ?_⟩
    rw [run_cons, hentry, Option.bind_some, run_nil]
    simp only [call, advance, hfailed, Option.isSome_some, if_true]
  · next hconnected =>
    have hcalled : call ⟨.returned past, ch, sockets⟩ net.connect = ⟨.serializing,
        (ch.ensure net.connect).channel, sockets.performAll (ch.ensure net.connect).ops⟩ := by
      simp only [call, advance, hconnected, Option.isSome_none, Bool.false_eq_true, if_false]
    rw [hcalled] at hentry
    split at hcall
    · cases hcall
      exact ⟨[.call net.connect, .serialize none], false, by rw [run_cons, hentry]; rfl⟩
    · next args _ =>
      split at hcall
      · cases hcall
        exact ⟨[.call net.connect, .serialize none], false, by rw [run_cons, hentry]; rfl⟩
      · next frame _ =>
        obtain ⟨as, has⟩ := sendLoop_run frame net.written hnet.2 (ch.ensure net.connect).channel
          (sockets.performAll (ch.ensure net.connect).ops)
        have hsend : run step ⟨.returned past, ch, sockets⟩
            (.call net.connect :: .serialize (some frame) :: as) = run step ⟨.sending frame,
              (ch.ensure net.connect).channel,
              sockets.performAll (ch.ensure net.connect).ops⟩ as := by
          rw [run_cons, hentry]
          rfl
        rw [has, ← performAll_append] at hsend
        split at hcall
        · next text hfailed =>
          cases hcall
          rw [hfailed, Option.isSome_some, if_pos rfl] at hsend
          exact ⟨_, true, hsend⟩
        · next hsent =>
          obtain ⟨last, hlast, hcalled⟩ := bind_eq_ok.mp hcall
          cases hcalled
          obtain ⟨hchannel, hops⟩ := receive_ops hlast
          rw [hsent, Option.isSome_none, if_neg Bool.false_ne_true] at hsend
          refine ⟨(.call net.connect :: .serialize (some frame) :: as) ++ [.recv net.reply], true, ?_⟩
          rw [run_append, hsend, hchannel]
          simp only [hops, performAll_append]
          rfl

/-- So a call leaves the sockets accounted for if it found them so. -/
theorem callMethod_sound {Q R : Type} {codec : HeaderCodec} {stub : Stub Q R} {ch : Channel}
    {request : Q} {net : Network} {called : Called R} (hnet : Answered net)
    (hcall : ch.callMethod codec stub request net = .ok called) {past : Bool} {sockets : Sockets}
    (h : Sound ⟨.returned past, ch, sockets⟩) :
    ∃ past', Sound ⟨.returned past', called.channel, sockets.performAll called.ops⟩ := by
  obtain ⟨as, past', hrun⟩ := callMethod_run hnet hcall past sockets
  exact ⟨past', inv_of_run (fun _ _ _ h hstep => step_sound h hstep) h hrun⟩

end Calls

end Life
end CoroutineRpc.Rpc
