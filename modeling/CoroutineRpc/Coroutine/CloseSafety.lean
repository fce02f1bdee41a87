import CoroutineRpc.Coroutine.CloseWakes
import CoroutineRpc.Library.Transition

/-! The steps around a `close`, and what they add up to. The close is safe when everybody who
waits is on the manager that it cancels, and stays away until the descriptor is gone. -/
namespace CoroutineRpc.Coroutine.Socket
open IOManager (Shrinks)
variable {μ φ : Type} [DecidableEq μ]

/-- `cancelAll` leaves no registration on its manager. -/
theorem inv_cancelAll {fd : Nat} {s : Socket μ φ} {m : μ} {r : Bool × IOManager Unit φ Unit}
    (h : s.Inv fd) (hg : s.OneManager fd (.cancelAll m))
    (hcancel : (s.manager m).cancelAll fd true = some r) :
    ({ s.setManager m r.2 with stage := .cancelled } : Socket μ φ).Inv fd := by
  have hspec : r.2.Consistent ∧ Shrinks fd (s.manager m) r.2 ∧ (r.2.contexts fd).events = {} := by
    rcases IOManager.cancelAll_spec (h.consistent m) fd true with
      ⟨hnone, hsame⟩ | ⟨⟨hfd, -⟩, x, hdone, ⟨hfalse, -⟩ | ⟨-, hrewritten⟩⟩
    · obtain rfl : (false, s.manager m) = r := Option.some.inj (hsame.symm.trans hcancel)
      refine ⟨h.consistent m, .of_contexts rfl (List.Subset.refl _), ?_⟩
      by_contra hevents
      have hfd : (s.manager m).size ≤ fd := Nat.le_of_not_lt (fun hlt => hnone ⟨hlt, hevents⟩)
      exact hevents ((h.consistent m).outside fd hfd)
    · cases hfalse
    · obtain rfl : (true, x) = r := Option.some.inj (hdone.symm.trans hcancel)
      have hwell := ((h.consistent m).wellFormed fd).clearMask ((s.manager m).contexts fd).events
      refine ⟨(h.consistent m).rewritten hfd hwell hrewritten, hrewritten.shrinks, ?_⟩
      rw [hrewritten.contexts, Function.update_self, FdContext.clearMask_events, Events.diff_self]
  obtain ⟨hconsistent, hshrinks, hempty⟩ := hspec
  have hinv := h.shrinks hconsistent hshrinks
  refine ⟨hinv.consistent, hinv.waiting, fun _ m' e hhas => ?_⟩
  have hnothing : (((s.setManager m r.2).manager m').contexts fd).events = {} := by
    rcases eq_or_ne m' m with rfl | hm
    · rw [setManager_same, hempty]
    · rw [setManager_other s _ hm, hg m' hm]
  exact absurd hnothing (Events.ne_empty_of_has hhas)

private theorem inv_cancelEvent {fd : Nat} {s : Socket μ φ} {m : μ} {e : Event}
    {r : Bool × IOManager Unit φ Unit} (h : s.Inv fd)
    (hcancel : (s.manager m).cancelEvent fd e s.alive = some r) : (s.setManager m r.2).Inv fd := by
  rcases IOManager.cancelEvent_spec (h.consistent m) fd e s.alive with
    ⟨-, hsame⟩ | ⟨hheld, x, hdone, ⟨-, op, hrefused⟩ | ⟨-, hrewritten⟩⟩
  · obtain rfl : (false, s.manager m) = r := Option.some.inj (hsame.symm.trans hcancel)
    exact h.shrinks (h.consistent m) (.of_contexts rfl (List.Subset.refl _))
  · obtain rfl : (true, x) = r := Option.some.inj (hdone.symm.trans hcancel)
    exact h.shrinks ((h.consistent m).refused hrefused) hrefused.shrinks
  · obtain rfl : (true, x) = r := Option.some.inj (hdone.symm.trans hcancel)
    have hwell := ((h.consistent m).wellFormed fd).clear e
    have hconsistent := (h.consistent m).rewritten hheld.1 hwell hrewritten
    obtain ⟨hclear, hwaiter⟩ := ((s.manager m).contexts fd).clear_eq_clearMask e
    rw [hclear, hwaiter] at hrewritten
    exact h.shrinks hconsistent hrewritten.shrinks

private theorem inv_dispatch {fd : Nat} {s : Socket μ φ} {m : μ} {ready : ReadyEvent}
    {x : IOManager Unit φ Unit} (h : s.Inv fd) (hfd : ready.fd = fd)
    (hdispatch : (s.manager m).dispatch ready s.alive = some x) : (s.setManager m x).Inv fd := by
  subst hfd
  rcases IOManager.dispatch_spec (h.consistent m) ready s.alive with
    ⟨-, hsame⟩ | ⟨-, -, op, y, hdone, hrefused⟩ | ⟨hsome, -, -, y, hdone, hrewritten⟩ |
    ⟨-, -, -, hnone⟩
  · obtain rfl : s.manager m = x := Option.some.inj (hsame.symm.trans hdispatch)
    exact h.shrinks (h.consistent m) (.of_contexts rfl (List.Subset.refl _))
  · obtain rfl : y = x := Option.some.inj (hdone.symm.trans hdispatch)
    exact h.shrinks ((h.consistent m).refused hrefused) hrefused.shrinks
  · obtain rfl : y = x := Option.some.inj (hdone.symm.trans hdispatch)
    have hsize : ready.fd < (s.manager m).size := by
      by_contra hout
      apply hsome
      rw [(h.consistent m).outside ready.fd (Nat.le_of_not_lt hout)]
      rfl
    have hwell := ((h.consistent m).wellFormed ready.fd).clearMask
      (IOManager.realEvents ready ((s.manager m).contexts ready.fd).events)
    exact h.shrinks ((h.consistent m).rewritten hsize hwell hrewritten) hrewritten.shrinks
  · cases hnone.symm.trans hdispatch

variable [DecidableEq φ]

private theorem inv_add {fd : Nat} {s t : Socket μ φ} {f : φ} {c : SocketCall μ} (h : s.Inv fd)
    (hcall : s.call f = some c) (hg : s.OneManager fd (.add f))
    (hstep : s.ioStep fd f c (.add f) .add = some t) : t.Inv fd := by
  obtain ⟨r, hadd, rfl⟩ := Option.map_eq_some_iff.mp hstep
  obtain ⟨rt, x, hadd', hcases⟩ := IOManager.addEvent_spec (h.consistent c.home) fd c.event () f
    none s.alive
  obtain rfl : (rt, x) = r := Option.some.inj (hadd'.symm.trans hadd)
  obtain ⟨hres, hfd⟩ := (h.consistent c.home).reserve fd
  have hleave : ∀ {y : IOManager Unit φ Unit}, y.Consistent → Shrinks fd (s.manager c.home) y →
      ((s.setManager c.home y).setCall f none).Inv fd :=
    fun hy hs => (h.shrinks hy hs).setCall (fun _ hnone => by cases hnone)
  have hgrown : Shrinks fd (s.manager c.home) ((s.manager c.home).reserve fd) := by
    apply Shrinks.of_contexts (IOManager.reserve_contexts _ fd)
    unfold IOManager.reserve
    split
    · exact List.Subset.refl _
    · exact List.Subset.refl _
  dsimp only
  rcases hcases with ⟨-, rfl, rfl⟩ | ⟨-, -, rfl, op, hrefused⟩ | ⟨hfree, hok, rfl, hrewritten⟩
  · exact hleave hres hgrown
  · refine hleave (hres.refused hrefused) ?_
    apply Shrinks.of_contexts (hrefused.contexts.trans (IOManager.reserve_contexts _ fd))
    rw [hrefused.tasks]
    exact hgrown.tasks
  · have hlate : s.stage ≠ .opened → c.early = false := by
      intro hstage
      by_contra hearly
      rcases hg c hcall (by simpa using hearly) with hopened | hclosed
      · exact hstage hopened
      · rw [alive, hclosed] at hok
        cases hok
    have hwell : (((s.manager c.home).contexts fd).register c.event (fiberContext f)).WellFormed :=
      ((h.consistent c.home).wellFormed fd).register rfl (by simp [FdContext.Waiting, fiberContext])
    refine h.register hfree hlate (hres.rewritten hfd hwell hrewritten) ?_ ?_
    · rw [hrewritten.contexts, Function.update_self]
      rfl
    · rw [hrewritten.tasks, List.append_nil]
      unfold IOManager.reserve
      split
      · rfl
      · rfl

/-- The answer of the system sends a call on to `addEvent`, or ends it. -/
theorem inv_attempt {fd : Nat} {s t : Socket μ φ} {f : φ} {c : SocketCall μ} {r : IoResult}
    (h : s.Inv fd) (hstep : s.ioStep fd f c (.attempt f r) .attempt = some t) : t.Inv fd := by
  simp only [ioStep] at hstep
  split at hstep
  · cases hstep
    exact h
  split at hstep
  · split at hstep
    · cases hstep
      apply h.setCall
      rintro _ ⟨⟩
      exact SocketPc.noConfusion
    · cases hstep
  · cases hstep
    apply h.setCall
    rintro _ ⟨⟩

private theorem inv_resume {fd : Nat} {s t : Socket μ φ} {m : μ} {f : φ} {c : SocketCall μ}
    {timedOut : Bool} (h : s.Inv fd)
    (hstep : s.ioStep fd f c (.resume m f timedOut) .waiting = some t) : t.Inv fd := by
  simp only [ioStep] at hstep
  split at hstep
  · cases hstep
    apply h.resume
    intro c' hc'
    cases timedOut with
    | true => cases hc'
    | false =>
      cases hc'
      exact SocketPc.noConfusion
  · cases hstep

private theorem inv_take {fd : Nat} {s t : Socket μ φ} {m : μ} {q : Unit × Task φ Unit}
    (h : s.Inv fd) (hstep : s.step fd (.take m q) = some t) : t.Inv fd := by
  obtain ⟨⟨⟩, f | cb⟩ := q
  · have hidle : (∀ c, s.call f = some c → c.pc ≠ .waiting) → (s.dequeue m ((), .fiber f)).Inv fd := by
      intro hpc
      apply h.dequeue
      intro f' c hcall hwaits heq
      cases heq
      exact hpc c hcall hwaits
    simp only [step] at hstep
    split at hstep
    · next c hcall =>
      split at hstep
      · cases hstep
      · next hpc =>
        cases hstep
        apply hidle
        intro c' hcall'
        rw [hcall] at hcall'
        cases hcall'
        exact hpc
    · next hcall =>
      cases hstep
      apply hidle
      intro c' hcall'
      cases hcall.symm.trans hcall'
  · cases hstep
    apply h.dequeue
    intro f c _ _ heq
    cases heq

theorem inv_step {fd : Nat} {s t : Socket μ φ} {a : SocketAction μ φ} (h : s.Inv fd)
    (hg : s.OneManager fd a) (hstep : s.step fd a = some t) : t.Inv fd := by
  cases a with
  | call f m e timeoutSo =>
    simp only [step] at hstep
    split at hstep
    · cases hstep
      apply h.setCall
      rintro _ ⟨⟩
      exact SocketPc.noConfusion
    · cases hstep
  | attempt f r =>
    obtain ⟨c, hcall, hstep⟩ := Option.bind_eq_some_iff.mp hstep
    cases hpc : c.pc with
    | attempt => exact inv_attempt h (hpc ▸ hstep)
    | add | waiting =>
      rw [hpc] at hstep
      cases hstep
  | add f =>
    obtain ⟨c, hcall, hstep⟩ := Option.bind_eq_some_iff.mp hstep
    cases hpc : c.pc with
    | add => exact inv_add h hcall hg (hpc ▸ hstep)
    | attempt | waiting =>
      rw [hpc] at hstep
      cases hstep
  | resume m f timedOut =>
    obtain ⟨c, hcall, hstep⟩ := Option.bind_eq_some_iff.mp hstep
    cases hpc : c.pc with
    | waiting => exact inv_resume h (hpc ▸ hstep)
    | attempt | add =>
      rw [hpc] at hstep
      cases hstep
  | take m q => exact inv_take h hstep
  | schedule m q =>
    cases hstep
    apply h.shrinks ((h.consistent m).requeued _)
    exact .of_contexts rfl (List.subset_append_left _ _)
  | cancelEvent m e =>
    obtain ⟨r, hcancel, rfl⟩ := Option.map_eq_some_iff.mp hstep
    exact inv_cancelEvent h hcancel
  | dispatch m ready =>
    simp only [step] at hstep
    split at hstep
    · next hfd =>
      obtain ⟨x, hdispatch, rfl⟩ := Option.map_eq_some_iff.mp hstep
      exact inv_dispatch h hfd hdispatch
    · cases hstep
  | cancelAll m =>
    simp only [step] at hstep
    split at hstep
    · obtain ⟨r, hcancel, rfl⟩ := Option.map_eq_some_iff.mp hstep
      exact inv_cancelAll h hg hcancel
    · cases hstep
  | del =>
    simp only [step] at hstep
    split at hstep
    · next hstage =>
      cases hstep
      exact ⟨h.consistent, h.waiting, fun _ => h.late (by rw [hstage]; decide)⟩
    · cases hstep
  | closeF =>
    simp only [step] at hstep
    split at hstep
    · next hstage =>
      cases hstep
      exact ⟨h.consistent, h.waiting, fun _ => h.late (by rw [hstage]; decide)⟩
    · cases hstep

/-- In every run in which only the closing manager has waiters and nobody comes back before
the descriptor is gone, everybody has been woken when `close` returns. -/
theorem close_wakes (fd : Nat) {s : Socket μ φ} (hs : s.Fresh fd) {as : List (SocketAction μ φ)}
    (hg : Transition.Guarded (step fd) (OneManager fd) s as) :
    Transition.Always (step fd) (CloseWakes fd) s as :=
  (Transition.always_of_guarded (fun _ _ _ h hg hstep => inv_step h hg hstep)
    (Inv.fresh hs) hg).mono (fun _ h => h.released)

/-- A socket that has just been made, with two managers and nobody waiting. -/
def unused : Socket Bool Bool := { manager := fun _ => {}, ctx := some {} }

private theorem unused_fresh (fd : Nat) : unused.Fresh fd :=
  ⟨fun _ => ⟨Dispatcher.initial_consistent, rfl⟩, fun _ => rfl, rfl⟩

/-- The first steps of a `recv` that has to wait. -/
def recv (f m : Bool) : List (SocketAction Bool Bool) :=
  [.call f m .read .rcvTimeo, .attempt f ⟨-1, .eagain⟩, .add f]

/-- A close on the reader's manager; the reader comes back to a closed descriptor. -/
def closeAndLeave : List (SocketAction Bool Bool) :=
  recv true true ++ [.cancelAll true, .resume true true false, .del, .closeF,
    .attempt true ⟨-1, .ebadf⟩]

theorem reader_released :
    Transition.Always (step 5) (CloseWakes 5) unused closeAndLeave ∧
      ∃ s, Transition.run (step 5) unused closeAndLeave = some s ∧ s.stage = .closed ∧
        s.call true = none ∧ (s.manager true).pendingEventCount = 0 := by
  refine ⟨close_wakes 5 (unused_fresh 5) ?_, _, rfl, rfl, rfl, rfl⟩
  refine .cons rfl trivial (.cons rfl trivial (.cons rfl (fun _ _ _ => Or.inl rfl) ?_))
  refine .cons rfl (fun m' hm => ?_) (.cons rfl trivial (.cons rfl trivial (.cons rfl trivial
    (.cons rfl trivial trivial))))
  cases m' with
  | true => exact absurd rfl hm
  | false => rfl

/-- A close on the other manager. -/
def closeElsewhere : List (SocketAction Bool Bool) :=
  recv true true ++ [.cancelAll false, .del, .closeF]

/-- A reader that is woken by the close and waits again before the descriptor is gone. -/
def comeBack : List (SocketAction Bool Bool) :=
  recv true true ++ [.cancelAll true, .resume true true false, .attempt true ⟨-1, .eagain⟩, .add true,
    .del, .closeF]

/-- The reader stays registered and counted, and nothing will resume it. -/
def Stuck (s : Socket Bool Bool) : Prop :=
  s.stage = .closed ∧ s.Waits true ∧ s.made true .read = true ∧
    ((s.manager true).contexts 5).events.has .read = true ∧
    (s.manager true).pendingEventCount = 1 ∧ (s.manager true).tasks = []

private theorem Stuck.not_wakes {s : Socket Bool Bool} (h : s.Stuck) : ¬ s.CloseWakes 5 := by
  intro hwakes
  have hmade := (hwakes h.1).unregistered true .read h.2.2.2.1
  rw [h.2.2.1] at hmade
  cases hmade

theorem closed_reader_stuck :
    (∃ s, Transition.run (step 5) unused closeElsewhere = some s ∧ s.Stuck) ∧
      ¬ Transition.Always (step 5) (CloseWakes 5) unused closeElsewhere ∧
    (∃ s, Transition.run (step 5) unused comeBack = some s ∧ s.Stuck) ∧
      ¬ Transition.Always (step 5) (CloseWakes 5) unused comeBack := by
  have helsewhere : ∃ s, Transition.run (step 5) unused closeElsewhere = some s ∧ s.Stuck :=
    ⟨_, rfl, rfl, ⟨_, rfl, rfl⟩, rfl, rfl, rfl, rfl⟩
  have hback : ∃ s, Transition.run (step 5) unused comeBack = some s ∧ s.Stuck :=
    ⟨_, rfl, rfl, ⟨_, rfl, rfl⟩, rfl, rfl, rfl, rfl⟩
  refine ⟨helsewhere, fun halways => ?_, hback, fun halways => ?_⟩
  · obtain ⟨s, hrun, hstuck⟩ := helsewhere
    exact hstuck.not_wakes (halways.finish hrun)
  · obtain ⟨s, hrun, hstuck⟩ := hback
    exact hstuck.not_wakes (halways.finish hrun)

end CoroutineRpc.Coroutine.Socket
