import CoroutineRpc.Coroutine.Leaving
import CoroutineRpc.Coroutine.TimerSpec
import CoroutineRpc.Library.Transition

/-! When the workers leave nothing behind. A worker that has decided to leave adds nothing by
itself, so all depends on what the last one to decide knows. -/
namespace CoroutineRpc.Coroutine.Shutdown
variable {φ κ : Type}

/-- One case for each step of a worker. -/
theorem workerStep_inv {workers : Finset Nat} {s t : Shutdown φ κ} {a : ShutdownAction φ κ}
    {w : Nat}
    (h : s.Inv workers) (hw : w ∈ workers) (hg : s.StillDone workers a) (ha : worker a = some w)
    (hstep : s.workerStep a (s.stage w) = some t) : t.Inv workers := by
  generalize hstage : s.stage w = p at hstep
  unfold workerStep at hstep
  split at hstep
  case h_1 =>
    cases ha
    cases hstep
    exact h.scan hw hstage
  case h_2 r q =>
    cases ha
    exact h.frame (request_frame hstep) (h.open_of_busy hw (by rw [hstage]; rfl))
  case h_3 q =>
    cases ha
    cases hstep
    exact h.finish hw (by rw [hstage]; rfl)
  case h_4 =>
    cases ha
    cases hstep
    cases hterm : s.idleTerm w with
    | true =>
      apply h.move hw
      · rw [hstage]
        rfl
      · exact fun _ => trivial
      · exact fun _ => hterm
    | false =>
      apply h.move hw
      · rw [hstage]
        rfl
      · rw [hterm]
        exact fun hfalse => absurd hfalse Bool.false_ne_true
      · rintro ⟨⟩
  case h_5 now =>
    cases ha
    cases hstep
    exact h.pass hw hstage id (s.setTimers_frame _) (Stage.free_ite trivial trivial)
  case h_6 =>
    cases ha
    cases hstep
    exact h.pass hw hstage id (s.setTimers_frame s.timers) (Stage.free_ite trivial trivial)
  case h_7 =>
    cases ha
    split at hstep
    · next hstopping =>
      cases hstep
      exact h.leave hw hstage hstopping hg
    · cases hstep
      exact h.pass hw hstage id (s.setTimers_frame s.timers) trivial
  case h_8 now =>
    cases ha
    cases hstep
    exact h.pass hw hstage id (s.setTimers_frame _) trivial
  case h_9 =>
    cases ha
    cases hstep
    exact h.pass hw hstage id (s.setTimers_frame s.timers) trivial
  case h_10 events =>
    cases ha
    obtain ⟨u, hio, rfl⟩ := Option.map_eq_some_iff.mp hstep
    exact h.pass hw hstage id (ioStep_frame hio) trivial
  case h_11 now now' fuel =>
    cases ha
    obtain ⟨r, -, rfl⟩ := Option.map_eq_some_iff.mp hstep
    exact h.pass hw hstage id (s.setTimers_frame _) trivial
  case h_12 cb cbs =>
    cases ha
    cases hstep
    exact h.pass hw hstage id (s.push_frame _ _) trivial
  case h_13 ok =>
    cases ha
    have hterm := h.undecided hw (hstage ▸ id)
    apply h.frame (ioStep_frame hstep)
    exact fun hdecided => Bool.false_ne_true (hterm.symm.trans (hdecided w hw))
  case h_14 =>
    cases ha
    split at hstep
    · cases hstep
      exact h.pass hw hstage id (s.setTimers_frame s.timers) trivial
    · cases hstep
  case h_15 => cases hstep

/-- Before `stop` no worker has decided, and from then on nobody outside asks for anything. -/
theorem outsideStep_inv {workers : Finset Nat} {s t : Shutdown φ κ} {a : ShutdownAction φ κ}
    (hne : workers.Nonempty) (h : s.Inv workers) (hstep : s.outsideStep a = some t) :
    t.Inv workers := by
  cases a with
  | outside r =>
    simp only [outsideStep] at hstep
    split at hstep
    · cases hstep
    next hrunning =>
    apply h.frame (request_frame hstep)
    intro hdecided
    obtain ⟨w, hw⟩ := hne
    exact hrunning (h.parting w hw (hdecided w hw)).1
  | stop now =>
    cases hstep
    refine ⟨h.consistent, h.active, fun w hw hterm => ⟨rfl, (h.parting w hw hterm).2⟩, h.exited, ?_⟩
    intro hdecided
    obtain ⟨hstopping, htimers, hevents⟩ := h.settled hdecided
    have htimers' : (s.timers.getNextTimer now).2.timers = [] := by
      rw [TimerManager.getNextTimer_manager, htimers]
    refine ⟨?_, htimers', hevents⟩
    simp only [isStopping, Bool.and_eq_true] at hstopping ⊢
    exact ⟨⟨trivial, hstopping.1.2⟩, hstopping.2⟩
  | _ => cases hstep

theorem step_inv {workers : Finset Nat} {s t : Shutdown φ κ} {a : ShutdownAction φ κ}
    (hne : workers.Nonempty) (h : s.Inv workers) (hg : s.StillDone workers a)
    (hstep : step workers s a = some t) : t.Inv workers := by
  unfold step at hstep
  split at hstep
  · next w ha =>
    split at hstep
    · next hw => exact workerStep_inv h hw hg ha hstep
    · cases hstep
  · exact outsideStep_inv hne h hstep

private theorem initial_inv {workers : Finset Nat} (hne : workers.Nonempty) :
    ({} : Shutdown φ κ).Inv workers := by
  refine ⟨Dispatcher.initial_consistent, ?_, ?_, ?_, ?_⟩
  · simp [busy, Stage.busy]
  · rintro w - ⟨⟩
  · rintro w - ⟨⟩
  · intro hdecided
    obtain ⟨w, hw⟩ := hne
    cases hdecided w hw

private theorem Inv.noWorkLost {workers : Finset Nat} {s : Shutdown φ κ} (h : s.Inv workers) :
    s.NoWorkLost workers := by
  intro hexited
  obtain ⟨hstopping, htimers, hevents⟩ := h.settled (fun w hw => h.exited w hw (hexited w hw))
  refine ⟨htimers, h.consistent.pending_eq_zero_iff.mp hevents, ?_⟩
  simp only [isStopping, Bool.and_eq_true, List.isEmpty_iff] at hstopping
  rw [hstopping.1.2]
  exact fun q hq => absurd hq List.not_mem_nil

/-- No work is lost in a run in which the last worker to decide finds everything as its first
two tests have found it. -/
theorem no_work_lost {workers : Finset Nat} (hne : workers.Nonempty)
    (as : List (ShutdownAction φ κ))
    (hg : Transition.Guarded (step workers) (StillDone workers) ({} : Shutdown φ κ) as) :
    Transition.Always (step workers) (NoWorkLost workers) ({} : Shutdown φ κ) as := by
  have hinv := Transition.always_of_guarded (fun _ _ _ h hg hst => step_inv hne h hg hst)
    (initial_inv hne) hg
  exact hinv.mono (fun _ h => h.noWorkLost)

/-- The only worker runs the callback of an expired timer before it decides. -/
def collectsFirst : List (ShutdownAction Nat Nat) :=
  [.outside (.addTimer 0 (some 7) false 0), .stop 0,
    .scan 0, .idle 0, .testTimers 0 0, .timeout 0 0, .wake 0 [], .collect 0 0 0 1, .submit 0,
    .yield 0, .scan 0, .finish 0,
    .scan 0, .idle 0, .testTimers 0 0, .testEvents 0, .testTasks 0, .scan 0, .idle 0]

theorem expired_timer_served :
    Transition.Always (step {0}) (NoWorkLost {0}) ({} : Shutdown Nat Nat) collectsFirst ∧
      ∃ s, Transition.run (step {0}) ({} : Shutdown Nat Nat) collectsFirst = some s ∧
        s.accepted = 1 ∧ s.stage 0 = .exited := by
  refine ⟨no_work_lost (Finset.singleton_nonempty 0) collectsFirst ?_, _, rfl, rfl, rfl⟩
  have hdone : ∀ s : Shutdown Nat Nat, s.timers.timers = [] → s.io.manager.pendingEventCount = 0 →
      StillDone {0} s (.testTasks 0) := fun s htimers hevents _ _ => ⟨htimers, hevents⟩
  exact .cons rfl trivial (.cons rfl trivial (.cons rfl trivial (.cons rfl trivial
    (.cons rfl trivial (.cons rfl trivial (.cons rfl trivial (.cons rfl trivial
    (.cons rfl trivial (.cons rfl trivial (.cons rfl trivial (.cons rfl trivial
    (.cons rfl trivial (.cons rfl trivial (.cons rfl trivial (.cons rfl trivial
    (.cons rfl (hdone _ rfl rfl) (.cons rfl trivial (.cons rfl trivial trivial))))))))))))))))))

/-- Worker 1 keeps the callback of an expired timer for itself while worker 0 decides to leave,
and worker 0 takes the callback from the queue all the same. Between the second and the third
test of worker 1 the callback adds a timer. -/
def decidesOnOldTests : List (ShutdownAction Nat Nat) :=
  [.outside (.addTimer 0 (some 7) false 0), .stop 0,
    .scan 1, .idle 1, .testTimers 1 0, .timeout 1 0, .wake 1 [], .collect 1 0 0 1,
    .scan 0, .idle 0, .testTimers 0 0, .testEvents 0, .testTasks 0,
    .submit 1, .yield 1, .scan 0,
    .scan 1, .idle 1, .testTimers 1 0, .testEvents 1,
    .request 0 (.addTimer 100 (some 8) false 0), .finish 0,
    .testTasks 1, .scan 0, .idle 0, .scan 1, .idle 1]

/-- Both workers return from `run`, and the timer is never looked at again. -/
theorem timer_outlives_workers :
    (∃ s, Transition.run (step {0, 1}) ({} : Shutdown Nat Nat) decidesOnOldTests = some s ∧
      s.timers.timers = [1] ∧ s.stage 0 = .exited ∧ s.stage 1 = .exited) ∧
    ¬ Transition.Always (step {0, 1}) (NoWorkLost {0, 1}) ({} : Shutdown Nat Nat)
      decidesOnOldTests := by
  have hlost : ∃ s, Transition.run (step {0, 1}) ({} : Shutdown Nat Nat) decidesOnOldTests = some s ∧
      s.timers.timers = [1] ∧ s.stage 0 = .exited ∧ s.stage 1 = .exited := ⟨_, rfl, rfl, rfl, rfl⟩
  refine ⟨hlost, ?_⟩
  intro halways
  obtain ⟨s, hrun, htimers, hfirst, hsecond⟩ := hlost
  have hexited : ∀ w ∈ ({0, 1} : Finset Nat), s.stage w = .exited := by
    intro w hw
    rcases Finset.mem_insert.mp hw with rfl | hw
    · exact hfirst
    · rw [Finset.mem_singleton.mp hw]
      exact hsecond
  have hnone := (halways.finish hrun hexited).1
  rw [htimers] at hnone
  cases hnone

end CoroutineRpc.Coroutine.Shutdown
