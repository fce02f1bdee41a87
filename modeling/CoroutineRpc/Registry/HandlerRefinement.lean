import CoroutineRpc.Library.Simulation
import CoroutineRpc.Registry.Records
import CoroutineRpc.Registry.Slots
import CoroutineRpc.Rpc.Protobuf

/-! The handlers with their slots are an implementation of `Records`, where every connection has
a buffer of its own and a reply cannot go astray. -/
namespace CoroutineRpc.Registry
open Rpc Text Transition

variable {κ ι : Type}

/-- A handler whose reply is under way corresponds to a session that is replying. -/
inductive InStep : Handling κ → Session → Prop
  | reading {h : Handling κ} (conn : RpcConn) (idle : ∀ slot x back, h ≠ .sending slot x back) :
      InStep h (.reading conn)
  | replying (slot : Nat) (x : Option κ) (conn : RpcConn) (back : ByteString)
      (before : List Registration) : InStep (.sending slot x back) (.replying conn back before)

theorem InStep.idle {h : Handling κ} {p : Session} (hp : InStep h p)
    (hh : ∀ slot x back, h ≠ .sending slot x back) : ∃ conn, p = .reading conn := by
  cases hp with
  | reading conn _ => exact ⟨conn, rfl⟩
  | replying slot x conn back before => exact absurd rfl (hh slot x back)

namespace Handlers
variable [DecidableEq κ]

/-- What a step stands for. A connection is opened with what an earlier one has left in the slot, and
the `Socket` from which a handler receives, or to which it sends, decides whose step it is. -/
def meaning (s : Handlers κ ι) : HandlerAction κ ι → List (RecordAction κ ι)
  | .start c =>
    match s.sock c with
    | some fd => [.opened c (s.users fd).readBuf]
    | none => []
  | .returned c r =>
    match s.handling c with
    | .receiving _ (some d) => [.received d r]
    | _ => []
  | .sent c =>
    match s.handling c with
    | .sending _ (some d) _ => [.replied d]
    | _ => []
  | .heartbeat a => [.heartbeat a]
  | .accept _ _ => []

/-- The maps, the clock and the sweeps are the same, and the replies went where they should. -/
structure Refines (s : Handlers κ ι) (u : System κ ι) : Prop where
  sound : Sound s
  server : u.server = s.server
  clock : u.clock = s.clock
  sweep : u.sweep = s.sweep
  sent : s.sent = u.sent.map (fun r => (some r.conn, r.back))
  session : ∀ c, InStep (s.handling c) (u.session c)

/-- Only the handler of `c` moved, and it is not sending afterwards. -/
structure Moved (c : κ) (s t : Handlers κ ι) : Prop where
  server : t.server = s.server
  clock : t.clock = s.clock
  sweep : t.sweep = s.sweep
  sent : t.sent = s.sent
  other : ∀ d, d ≠ c → t.handling d = s.handling d
  idle : ∀ slot x back, t.handling c ≠ .sending slot x back

omit [DecidableEq κ] in
private theorem refines_default : Refines ({} : Handlers κ ι) ({} : System κ ι) := by
  refine ⟨sound_default, rfl, rfl, rfl, rfl, fun c => .reading {} ?_⟩
  rintro slot x back ⟨⟩

private theorem setHandling_moved {s : Handlers κ ι} {c : κ} {p : Handling κ}
    (hp : ∀ slot x back, p ≠ .sending slot x back) : Moved c s (s.setHandling c p) := by
  refine ⟨rfl, rfl, rfl, rfl, fun d hd => setHandling_other s p hd, ?_⟩
  rw [setHandling_same]
  exact hp

private theorem finish_moved (s : Handlers κ ι) (c : κ) : Moved c s (s.finish c) := by
  have hclose : (s.close c).server = s.server ∧ (s.close c).clock = s.clock ∧
      (s.close c).sweep = s.sweep ∧ (s.close c).sent = s.sent := by
    unfold close
    split
    · exact ⟨rfl, rfl, rfl, rfl⟩
    · exact ⟨rfl, rfl, rfl, rfl⟩
  obtain ⟨hserver, hclock, hsweep, hsent⟩ := hclose
  refine ⟨hserver, hclock, hsweep, hsent, fun d hd => ?_, ?_⟩
  · exact (setHandling_other _ _ hd).trans (congrFun (close_frame s c).2 d)
  · unfold finish
    rw [setHandling_same]
    rintro slot x back ⟨⟩

/-- A handler whose connection is open goes on with the next `recv`. -/
theorem again_eq {s : Handlers κ ι} {c : κ} {slot : Nat} (hsock : s.sock c = some slot)
    (hclient : s.client slot = some c) :
    s.again c slot = s.setHandling c (.receiving slot (some c)) := by
  rw [again, hsock, hclient]
  rfl

private theorem init_eq {s : Handlers κ ι} (hs : Sound s) (slot : Nat) (c : κ) :
    s.init slot c = { s.setUser slot (s.users slot).reset with
      client := Function.update s.client slot (some c) } := by
  unfold init
  rw [release_eq hs]

omit [DecidableEq κ] in
/-- A move that no session follows. -/
theorem Refines.moved {s t : Handlers κ ι} {u : System κ ι} {c : κ} {conn : RpcConn}
    (h : Refines s u) (hm : Moved c s t) (ht : Sound t) (hc : u.session c = .reading conn) :
    Refines t u := by
  refine ⟨ht, h.server.trans hm.server.symm, h.clock.trans hm.clock.symm,
    h.sweep.trans hm.sweep.symm, hm.sent.trans h.sent, fun d => ?_⟩
  rcases eq_or_ne d c with rfl | hne
  · rw [hc]
    exact .reading conn hm.idle
  · rw [hm.other d hne]
    exact h.session d

/-- The buffers of the connections are those of the slots in which their handlers are. -/
def Kept (s : Handlers κ ι) (readBuf : κ → Option (CBuffer readBufferSize)) : Prop :=
  ∀ c, readBuf c = (s.handling c).place.map (fun p => (s.users p.1).readBuf)

/-- A step in one slot, which no other handler is in. -/
theorem Kept.change {s t : Handlers κ ι} {readBuf : κ → Option (CBuffer readBufferSize)}
    (h : Kept s readBuf) {c : κ} {slot : Nat}
    (hfree : ∀ d, d ≠ c → ∀ x, (s.handling d).place ≠ some (slot, x))
    (hhandling : ∀ d, d ≠ c → t.handling d = s.handling d)
    (husers : ∀ n, n ≠ slot → t.users n = s.users n) {buf : Option (CBuffer readBufferSize)}
    (hbuf : buf = (t.handling c).place.map (fun p => (t.users p.1).readBuf)) :
    Kept t (Function.update readBuf c buf) := by
  intro d
  rcases eq_or_ne d c with rfl | hne
  · rw [Function.update_self, hbuf]
  · rw [Function.update_of_ne hne, hhandling d hne, h d]
    cases hplace : (s.handling d).place with
    | none => rfl
    | some p =>
      have hslot : p.1 ≠ slot := by
        rintro rfl
        exact hfree d hne p.2 hplace
      rw [Option.map_some, Option.map_some, husers p.1 hslot]

/-- A handler that is in its slot after the step. -/
theorem Kept.place {s t : Handlers κ ι} {readBuf : κ → Option (CBuffer readBufferSize)}
    (h : Kept s readBuf) {c : κ} {slot : Nat} {x : Option κ} {p : Handling κ} (conn : RpcConn)
    (hfree : ∀ d, d ≠ c → ∀ x, (s.handling d).place ≠ some (slot, x))
    (hplace : p.place = some (slot, x)) (hhandling : t.handling = Function.update s.handling c p)
    (husers : t.users = Function.update s.users slot conn) :
    Kept t (Function.update readBuf c (some conn.readBuf)) := by
  refine h.change hfree (fun d hd => ?_) (fun n hn => ?_) ?_
  · rw [hhandling, Function.update_of_ne hd]
  · rw [husers, Function.update_of_ne hn]
  · rw [hhandling, Function.update_self, hplace, husers, Option.map_some, Function.update_self]

omit [DecidableEq κ] in
theorem Kept.congr {s t : Handlers κ ι} {readBuf : κ → Option (CBuffer readBufferSize)}
    (h : Kept s readBuf) (hplace : ∀ c, (t.handling c).place = (s.handling c).place)
    (husers : t.users = s.users) : Kept t readBuf := by
  intro c
  rw [hplace c, husers]
  exact h c

omit [DecidableEq κ] in
/-- The slot of an open descriptor is nobody else's. -/
theorem Sound.slot_free {s : Handlers κ ι} (h : Sound s) {c : κ} {fd : Nat}
    (hsock : s.sock c = some fd) (d : κ) (hne : d ≠ c) (x : Option κ) :
    (s.handling d).place ≠ some (fd, x) :=
  fun hplace => hne (h.distinct d c fd (h.own d fd x hplace).2.2 hsock)

/-- What the handlers do to the maps is what the connections ask for, and their buffers are those
of their slots. -/
structure Matches (s : Handlers κ ι) (v : Records κ ι) : Prop where
  refines : Refines s v.system
  kept : Kept s v.readBuf

private theorem start_matches [DecidableEq ι] {codec : HeaderCodec} {s t : Handlers κ ι} {c : κ}
    {v : Records κ ι} (h : Matches s v) (ht : Sound t) (hc : s.handling c = .scheduled)
    (hstep : s.start c = some t) :
    ∃ w, run (Records.step codec) v (meaning s (.start c)) = some w ∧ Matches t w := by
  obtain ⟨conn, hconn⟩ := (h.refines.session c).idle (by rw [hc]; rintro slot x back ⟨⟩)
  have hnone : v.readBuf c = none := by
    rw [h.kept c, hc]
    rfl
  unfold start at hstep
  split at hstep
  · next hsock =>
    obtain rfl := Option.some.inj hstep
    have hmoved := finish_moved s c
    refine ⟨v, by simp only [meaning, hsock, run_nil], h.refines.moved hmoved ht hconn, ?_⟩
    have husers : (s.finish c).users = s.users := by
      unfold finish close
      rw [hsock]
      rfl
    refine h.kept.congr (fun d => ?_) husers
    rcases eq_or_ne d c with rfl | hne
    · rw [hc, finish, setHandling_same]
      rfl
    · rw [hmoved.other d hne]
  · next fd hsock =>
    split at hstep
    · obtain rfl := Option.some.inj hstep
      have hinit : (s.init fd c).again c fd = ({ s.setUser fd (s.users fd).reset with
          client := Function.update s.client fd (some c) } : Handlers κ ι).setHandling c
            (.receiving fd (some c)) := by
        rw [init_eq h.refines.sound]
        exact again_eq hsock (Function.update_self _ _ _)
      rw [hinit] at ht ⊢
      refine ⟨v.setBuf c (some (Records.cleared (s.users fd).readBuf)), ?_, ?_, ?_⟩
      · simp only [meaning, hsock, run_cons, Records.step, hnone, Option.bind_some, run_nil]
      · refine h.refines.moved ⟨rfl, rfl, rfl, rfl, fun d hd => ?_, ?_⟩ ht hconn
        · exact setHandling_other _ _ hd
        · rw [setHandling_same]
          rintro slot x back ⟨⟩
      · exact h.kept.place (s.users fd).reset (h.refines.sound.slot_free hsock) rfl rfl rfl
    · cases hstep

variable [DecidableEq ι]

/-- The critical section of a message, on the session that is its own. -/
theorem enter_of_header {u : System κ ι} {c : κ} {conn old : RpcConn}
    (hc : u.session c = .reading old) :
    run Registry.step u [.arrive c conn.header, .critical c] =
      some (({ u with session := Function.update u.session c (.decoded (old.load conn.header)) } :
        System κ ι).enter c (old.load conn.header)) := by
  rw [run_cons, Registry.step, hc]
  simp only [Option.bind_some, run_cons, run_nil, Registry.step, Function.update_self]

/-- A message that registers. -/
theorem registered_refines {s : Handlers κ ι} {u : System κ ι} {c : κ} {slot : Nat}
    {conn old : RpcConn} (h : Refines s u) (hold : u.session c = .reading old)
    (hregister : conn.type = 1) {t : Handlers κ ι} (ht : Sound t)
    (hteq : t = ({ s.setUser slot conn.reset with
      server := conn.notifyService s.clock s.server } : Handlers κ ι).setHandling c
        (.receiving slot (some c))) :
    ∃ w, run Registry.step u [.arrive c conn.header, .critical c] = some w ∧ Refines t w := by
  refine ⟨_, enter_of_header hold, ?_⟩
  unfold System.enter
  have htype : (old.load conn.header).type = conn.type := rfl
  rw [htype, if_pos hregister]
  subst hteq
  refine ⟨ht, ?_, h.clock, h.sweep, h.sent, fun d => ?_⟩
  · rw [h.clock, h.server]
    rfl
  · rcases eq_or_ne d c with rfl | hne
    · rw [setHandling_same]
      simp only [Function.update_self]
      exact .reading _ (by rintro slot' x back ⟨⟩)
    · rw [setHandling_other _ _ hne]
      simp only [Function.update_of_ne hne]
      exact h.session d

/-- A message that asks, up to the `send` of its reply. -/
theorem asked_refines {s : Handlers κ ι} {u : System κ ι} {c : κ} {slot : Nat}
    {conn old : RpcConn} (h : Refines s u) (hold : u.session c = .reading old)
    (hquery : ¬ conn.type = 1) {t : Handlers κ ι} (ht : Sound t)
    (hteq : t = (s.setUser slot conn).setHandling c
      (.sending slot (some c) (conn.callingMethods s.server))) :
    ∃ w, run Registry.step u [.arrive c conn.header, .critical c] = some w ∧ Refines t w := by
  refine ⟨_, enter_of_header hold, ?_⟩
  unfold System.enter
  have htype : (old.load conn.header).type = conn.type := rfl
  rw [htype, if_neg hquery]
  subst hteq
  refine ⟨ht, h.server, h.clock, h.sweep, h.sent, fun d => ?_⟩
  rcases eq_or_ne d c with rfl | hne
  · rw [setHandling_same]
    simp only [Function.update_self]
    rw [h.server]
    exact .replying _ _ _ _ _
  · rw [setHandling_other _ _ hne]
    simp only [Function.update_of_ne hne]
    exact h.session d

private theorem returned_matches {codec : HeaderCodec} {s t : Handlers κ ι} {v : Records κ ι}
    {c : κ} {slot : Nat} {r : Recv} (h : Matches s v) (ht : Sound t)
    (hc : s.handling c = .receiving slot (some c)) (hstep : s.returned codec c slot r = some t) :
    ∃ w, run (Records.step codec) v (meaning s (.returned c r)) = some w ∧ Matches t w := by
  obtain ⟨old, hold⟩ := (h.refines.session c).idle (by rw [hc]; rintro slot' x back ⟨⟩)
  obtain ⟨-, hclient, hsock⟩ := h.refines.sound.own c slot (some c) (by rw [hc]; rfl)
  have hfree := h.refines.sound.slot_free hsock
  have hbuf : v.readBuf c = some (s.users slot).readBuf := by
    rw [h.kept c, hc]
    rfl
  have hround := round_readBuf codec (s.users slot) r
  have hmeaning : run (Records.step codec) v (meaning s (.returned c r)) =
      v.received codec c (s.users slot).readBuf r := by
    simp only [meaning, hc, run_cons, run_nil, Records.step, hbuf]
    exact Option.bind_fun_some _
  rw [hmeaning]
  unfold Records.received
  unfold returned at hstep
  split at hstep
  · cases hstep
  · next conn hended =>
    obtain rfl := Option.some.inj hstep
    rw [hround, hended]
    refine ⟨_, rfl, h.refines.moved ?_ ht hold, ?_⟩
    · obtain ⟨hserver, hclock, hsweep, hsent, hother, hidle⟩ := finish_moved (s.setUser slot conn) c
      exact ⟨hserver, hclock, hsweep, hsent, hother, hidle⟩
    · have husers : ((s.setUser slot conn).finish c).users = (s.setUser slot conn).users := by
        unfold finish close
        split
        · rfl
        · rfl
      refine h.kept.change hfree (fun d hd => (finish_moved (s.setUser slot conn) c).other d hd)
        (fun n hn => ?_) ?_
      · rw [husers]
        exact Function.update_of_ne hn _ _
      · rw [finish, setHandling_same]
        rfl
  · next _ conn hmessage =>
    rw [hround, hmessage]
    simp only [Except.map]
    split at hstep
    · next hregister =>
      have hteq : t = ({ s.setUser slot conn.reset with
          server := conn.notifyService s.clock s.server } : Handlers κ ι).setHandling c
            (.receiving slot (some c)) := by
        obtain rfl := Option.some.inj hstep
        exact again_eq hsock hclient
      obtain ⟨w, hw, hrefines⟩ := registered_refines h.refines hold hregister ht hteq
      rw [hw, if_pos hregister]
      refine ⟨_, rfl, hrefines, ?_⟩
      subst hteq
      exact h.kept.place conn.reset hfree rfl rfl rfl
    · next hquery =>
      have hteq : t = (s.setUser slot conn).setHandling c
          (.sending slot (some c) (conn.callingMethods s.server)) := by
        rw [← hclient]
        exact (Option.some.inj hstep).symm
      obtain ⟨w, hw, hrefines⟩ := asked_refines h.refines hold hquery ht hteq
      rw [hw, if_neg hquery]
      refine ⟨_, rfl, hrefines, ?_⟩
      subst hteq
      exact h.kept.place conn hfree rfl rfl rfl

private theorem sent_matches {codec : HeaderCodec} {s t : Handlers κ ι} {v : Records κ ι} {c : κ}
    {slot : Nat} {back : ByteString} (h : Matches s v) (ht : Sound t)
    (hc : s.handling c = .sending slot (some c) back)
    (hteq : t = ({ s.setUser slot (s.users slot).reset with
      sent := (some c, back) :: s.sent } : Handlers κ ι).setHandling c (.receiving slot (some c))) :
    ∃ w, run (Records.step codec) v (meaning s (.sent c)) = some w ∧ Matches t w := by
  obtain ⟨-, -, hsock⟩ := h.refines.sound.own c slot (some c) (by rw [hc]; rfl)
  have hbuf : v.readBuf c = some (s.users slot).readBuf := by
    rw [h.kept c, hc]
    rfl
  have hin := h.refines.session c
  rw [hc] at hin
  generalize hp : v.system.session c = p at hin
  cases hin with
  | reading _ idle => exact absurd rfl (idle slot (some c) back)
  | replying _ _ asked _ before =>
    simp only [meaning, hc, run_cons, run_nil, Records.step, hbuf, Registry.step, hp]
    refine ⟨_, rfl, ?_, ?_⟩
    · subst hteq
      refine ⟨ht, h.refines.server, h.refines.clock, h.refines.sweep, ?_, fun d => ?_⟩
      · exact congrArg (fun sent => (some c, back) :: sent) h.refines.sent
      · rcases eq_or_ne d c with rfl | hne
        · rw [setHandling_same]
          simp only [Records.setBuf, Function.update_self]
          exact .reading _ (by rintro slot' x back' ⟨⟩)
        · rw [setHandling_other _ _ hne]
          simp only [Records.setBuf, Function.update_of_ne hne]
          exact h.refines.session d
    · subst hteq
      exact h.kept.place (s.users slot).reset (h.refines.sound.slot_free hsock) rfl rfl rfl

/-- A heartbeat sees and changes the same in both systems. -/
theorem heartbeat_simulated {s : Handlers κ ι} {u : System κ ι} {v : System κ ι} {a : Action κ ι}
    (h : Refines s u) (ha : a.isHeartbeat) (hv : Registry.step s.view a = some v) :
    ∃ w, Registry.step u a = some w ∧
      Refines { s with server := v.server, clock := v.clock, sweep := v.sweep } w := by
  have hsound : ∀ server clock sweep,
      Sound { s with server := server, clock := clock, sweep := sweep } :=
    fun _ _ _ => h.sound.congr rfl rfl rfl rfl
  have hview : u =
      { u with server := s.view.server, clock := s.view.clock, sweep := s.view.sweep } := by
    rw [show s.view.server = u.server from h.server.symm,
      show s.view.clock = u.clock from h.clock.symm,
      show s.view.sweep = u.sweep from h.sweep.symm]
  rw [hview]
  cases a with
  | arrive | critical | reply => cases ha
  | tick seconds =>
    obtain rfl := Option.some.inj hv
    exact ⟨_, rfl, hsound _ _ _, rfl, rfl, rfl, h.sent, h.session⟩
  | wake w =>
    dsimp only [Registry.step] at hv ⊢
    split at hv
    · obtain rfl := Option.some.inj hv
      exact ⟨_, rfl, hsound _ _ _, rfl, rfl, rfl, h.sent, h.session⟩
    · cases hv
  | copy w order =>
    dsimp only [Registry.step] at hv ⊢
    split at hv
    · split at hv
      · next hperm =>
        obtain rfl := Option.some.inj hv
        rw [if_pos hperm]
        exact ⟨_, rfl, hsound _ _ _, rfl, rfl, rfl, h.sent, h.session⟩
      · cases hv
    · cases hv
  | visit w =>
    dsimp only [Registry.step] at hv ⊢
    split at hv
    · obtain rfl := Option.some.inj hv
      refine ⟨_, rfl, ?_⟩
      unfold System.visit
      split
      · exact ⟨hsound _ _ _, rfl, rfl, rfl, h.sent, h.session⟩
      · exact ⟨hsound _ _ _, rfl, rfl, rfl, h.sent, h.session⟩
    · obtain rfl := Option.some.inj hv
      exact ⟨_, rfl, hsound _ _ _, rfl, rfl, rfl, h.sent, h.session⟩
    · cases hv

/-- Every step is matched by the step that it stands for. -/
theorem simulates (codec : HeaderCodec) :
    Simulates (step codec) (Records.step codec) (meaning (κ := κ) (ι := ι)) Matches := by
  intro s a t v h hstep
  have ht : Sound t := step_sound h.refines.sound hstep
  cases a with
  | accept c fd =>
    dsimp only [step] at hstep
    split at hstep
    · next hc =>
      split at hstep
      · cases hstep
      · obtain rfl := Option.some.inj hstep
        obtain ⟨conn, hconn⟩ := (h.refines.session c).idle (by rw [hc]; rintro slot x back ⟨⟩)
        have hm : Moved c s (s.setHandling c .scheduled) :=
          setHandling_moved (by rintro slot x back ⟨⟩)
        refine ⟨v, rfl, h.refines.moved ⟨rfl, rfl, rfl, rfl, hm.other, hm.idle⟩ ht hconn, ?_⟩
        refine h.kept.congr (fun d => ?_) rfl
        rcases eq_or_ne d c with rfl | hne
        · rw [setHandling_same, hc]
          rfl
        · rw [setHandling_other _ _ hne]
    · cases hstep
  | start c =>
    dsimp only [step] at hstep
    split at hstep
    · next hc => exact start_matches h ht hc hstep
    · cases hstep
  | returned c r =>
    dsimp only [step] at hstep
    split at hstep
    · next slot x hc =>
      obtain ⟨rfl, -, -⟩ := h.refines.sound.own c slot x (by rw [hc]; rfl)
      exact returned_matches h ht hc hstep
    · cases hstep
  | sent c =>
    dsimp only [step] at hstep
    split at hstep
    · next slot x back hc =>
      obtain ⟨rfl, hclient, hsock⟩ := h.refines.sound.own c slot x (by rw [hc]; rfl)
      refine sent_matches h ht hc ?_
      obtain rfl := Option.some.inj hstep
      exact again_eq hsock hclient
    · cases hstep
  | heartbeat a =>
    dsimp only [step] at hstep
    split at hstep
    · next ha =>
      obtain ⟨u, hu, rfl⟩ := Option.map_eq_some_iff.mp hstep
      obtain ⟨w, hw, hr⟩ := heartbeat_simulated h.refines ha hu
      refine ⟨{ v with system := w }, ?_, hr, h.kept.congr (fun _ => rfl) rfl⟩
      simp only [meaning, run_cons, run_nil, Records.step, if_pos ha, hw]
      rfl
    · cases hstep

/-- However the handlers take turns in their slots, what they do to the maps and what they send, and
to whom, is what the connections ask for with the bytes that each of them has received in a buffer
of its own. -/
theorem handlers_refine_records (codec : HeaderCodec) {as : List (HandlerAction κ ι)}
    {t : Handlers κ ι} (h : run (step codec) ({} : Handlers κ ι) as = some t) :
    ∃ v : Records κ ι,
      run (Records.step codec) {} (translate (step codec) meaning {} as) = some v ∧
        v.system.server = t.server ∧ v.system.clock = t.clock ∧ v.system.sweep = t.sweep ∧
        t.sent = v.system.sent.map (fun r => (some r.conn, r.back)) := by
  obtain ⟨v, hv, hr⟩ := (simulates codec).run (u := {}) ⟨refines_default, fun _ => rfl⟩ h
  exact ⟨v, hv, hr.refines.server, hr.refines.clock, hr.refines.sweep, hr.refines.sent⟩

/-- A codec that reads the message type and nothing else. -/
def typeCodec : HeaderCodec :=
  { Runtime.protobuf.toCodedStreams with
    serializeToString := fun _ => none
    parseFromString := fun s => some { messageType := (s.headD 0).toUInt32 }
    parse_serialize := by simp }

/-- A service registers and hangs up, and the client that is accepted under the same descriptor asks
for it. -/
def reusedDescriptor : List (HandlerAction Bool Unit) :=
  [.accept false 5, .start false, .returned false (.got [0, 0, 0, 1, 1]), .returned false .closed,
    .accept true 5, .start true, .returned true (.got [0, 0, 0, 1, 0]), .sent true]

theorem handlers_refine_reused :
    ∃ v : Records Bool Unit,
      run (Records.step typeCodec) {}
        (translate (step typeCodec) meaning {} reusedDescriptor) = some v ∧
      v.system.sent.map (fun r => (some r.conn, r.back)) = [(some true, ascii ":0")] := by
  obtain ⟨t, ht, hsent⟩ : ∃ t, run (step typeCodec) ({} : Handlers Bool Unit) reusedDescriptor =
      some t ∧ t.sent = [(some true, ascii ":0")] := Option.map_eq_some_iff.mp (by decide +kernel)
  obtain ⟨v, hv, -, -, -, hback⟩ := handlers_refine_records typeCodec ht
  exact ⟨v, hv, hback.symm.trans hsent⟩

end Handlers
end CoroutineRpc.Registry
