import CoroutineRpc.Coroutine.Watching
import CoroutineRpc.Library.Transition

/-! When the workers that wait in `epoll_wait` do not all oversleep the earliest timer. One
`tickle` wakes one worker, which may do something else before it reads the next deadline. -/
namespace CoroutineRpc.Coroutine.SleepLog
open Sleepers (setCall)
variable {ι κ : Type} {workers : Finset Nat} {x y : SleepLog ι κ}

/-- A worker begins to wait with the timeout that it has read before. -/
theorem epollWait_inv (h : x.Inv workers) {w timeout : Nat} (hw : w ∈ workers)
    (hphase : x.sleepers.phase w = .timed timeout) (hg : x.KeepsWatch workers (.epollWait w)) :
    Inv workers ⟨x.sleepers.move w (.blocked (x.sleepers.now + millis timeout)),
      x.currentAfter (.epollWait w)⟩ := by
  have hself := x.sleepers.move_same w (.blocked (x.sleepers.now + millis timeout))
  have hcurrent : x.currentAfter (.epollWait w) =
      if x.sleepers.Fresh w then insert w x.current else x.current.erase w := rfl
  rw [hcurrent]
  refine ⟨h.timely, Sleepers.idle_move h.idle hw hphase rfl rfl, ?_, ?_⟩
  · intro w' hw' d hblocked
    rcases eq_or_ne w' w with rfl | hne
    · rw [hself] at hblocked
      cases hblocked
      split at hw'
      · next hfresh =>
        rw [Sleepers.Fresh, hphase] at hfresh
        exact TimerManager.endsBy_getNextTimer h.timely hfresh
      · exact absurd hw' (Finset.notMem_erase w' _)
    · rw [x.sleepers.move_other _ hne] at hblocked
      refine h.inTime w' ?_ d hblocked
      split at hw'
      · exact (Finset.mem_insert.mp hw').resolve_left hne
      · exact Finset.mem_of_mem_erase hw'
  · intro hempty hfree
    refine Or.inr ?_
    rcases hg hempty hfree with hfresh | ⟨w', hw', hin, d, hblocked⟩
    · exact ⟨w, hw, by rw [if_pos hfresh]; exact Finset.mem_insert_self w _, _, hself⟩
    · have hne : w' ≠ w := by
        rintro rfl
        cases hphase.symm.trans hblocked
      refine ⟨w', hw', ?_, d, (x.sleepers.move_other _ hne).trans hblocked⟩
      split
      · exact Finset.mem_insert_of_mem hin
      · exact Finset.mem_erase_of_ne_of_mem hne hin

/-- One case for each step of a worker. -/
theorem workerStep_inv (h : x.Inv workers) {t : Sleepers ι κ} {a : SleepAction ι κ} {w : Nat}
    (hw : w ∈ workers) (ha : Sleepers.worker a = some w) (hg : x.KeepsWatch workers a)
    (hstep : x.sleepers.workerStep a (x.sleepers.phase w) = some t) :
    Inv workers ⟨t, x.currentAfter a⟩ := by
  have hread := TimerManager.getNextTimer_timely h.timely
  have hsame := h.timely.same
  have hup : x.sleepers.idle + 1 + 0 = x.sleepers.idle + 1 := Int.add_zero _
  have hdown : x.sleepers.idle - 1 + 1 = x.sleepers.idle + 0 := by omega
  generalize hphase : x.sleepers.phase w = p at hstep
  unfold Sleepers.workerStep at hstep
  split at hstep
  case h_1 =>
    cases ha
    cases hstep
    exact h.pass hw hphase rfl rfl rfl rfl rfl rfl hsame hup
  case h_2 leaves =>
    cases ha
    simp only at hstep
    split at hstep
    · cases hstep
      exact h.pass hw hphase rfl rfl rfl rfl rfl rfl hread hdown
    · cases hstep
      exact h.pass hw hphase rfl rfl rfl rfl rfl rfl hread rfl
  case h_3 =>
    cases ha
    cases hstep
    exact h.pass hw hphase rfl rfl rfl rfl rfl rfl hread rfl
  case h_4 timeout =>
    cases ha
    cases hstep
    exact epollWait_inv h hw hphase hg
  case h_5 d =>
    cases ha
    cases hstep
    exact h.move hw hphase rfl rfl rfl rfl hsame rfl hg
  case h_6 readable d =>
    cases ha
    split at hstep
    · cases hstep
      exact h.move hw hphase rfl rfl rfl rfl hsame rfl hg
    · cases hstep
  case h_7 seen fuel readable =>
    cases ha
    split at hstep
    swap
    · cases hstep
    next hseen =>
    obtain ⟨r, hrun, rfl⟩ := Option.map_eq_some_iff.mp hstep
    have hcollected :=
      TimerManager.listExpiredCb_timely h.timely (Int.ofNat_le.mpr hseen) hrun
    exact h.pass hw hphase rfl rfl rfl rfl rfl rfl hcollected rfl
  case h_8 =>
    cases ha
    cases hstep
    refine h.move hw hphase rfl rfl rfl rfl hsame rfl (fun _ hfree => ?_)
    -- the worker that empties the pipe does not wait itself
    refine (hg hfree).congr rfl (fun w' => ?_)
    rw [Finset.mem_erase, and_assoc]
    refine ⟨fun h => h.2, fun hin => ⟨?_, hin⟩⟩
    rintro rfl
    exact Sleepers.not_waits hphase rfl hin.2
  case h_9 =>
    cases ha
    cases hstep
    exact h.pass hw hphase rfl rfl rfl rfl rfl rfl hsame hdown
  case h_10 =>
    cases ha
    cases hstep
    exact h.pass hw hphase rfl rfl rfl rfl rfl rfl hsame rfl
  case h_11 =>
    cases ha
    cases hstep
    exact h.pass hw hphase rfl rfl rfl rfl rfl rfl hsame rfl
  case h_12 => cases hstep

private theorem start_inv (workers : Finset Nat) (clock : Nat) :
    (start clock : SleepLog ι κ).Inv workers := by
  refine ⟨⟨⟨List.Pairwise.nil, fun t ht => absurd ht List.not_mem_nil⟩, Int.natCast_nonneg clock,
    le_refl _, fun t ht => absurd rfl ht, fun t => ?_⟩, ?_, ?_, ?_⟩
  · exact show (0 : Int) < 2 ^ 63 by decide
  · simp [start, Sleepers.start, Sleepers.idlers, SleepPhase.idling]
  · exact fun w hw => absurd hw (Finset.notMem_empty w)
  · refine fun _ _ => Or.inl ?_
    rintro w - ⟨d, hblocked⟩
    cases hblocked

section Callers
variable [DecidableEq ι]

@[simp] theorem setCall_same (s : Sleepers ι κ) (c : ι) (call : Option TickleCall) :
    (setCall s c call).calls c = call := Function.update_self _ _ _

/-- No other call is under way, and this one is not. -/
private theorem setCall_free {s : Sleepers ι κ} {c : ι} {call : Option TickleCall}
    (hfree : s.calls c = none)
    (h : ∀ c', (setCall s c call).calls c' = none) : call = none ∧ ∀ c', s.calls c' = none := by
  refine ⟨(setCall_same s c call).symm.trans (h c), fun c' => ?_⟩
  rcases eq_or_ne c' c with rfl | hne
  · exact hfree
  · have hother : (setCall s c call).calls c' = s.calls c' := Function.update_of_ne hne _ _
    exact hother.symm.trans (h c')

/-- The new timer is in the set; its `tickle` may be held back by the flag. -/
theorem addTimer_inv (h : x.Inv workers) {c : ι} {ms : Nat} {cb : Option κ} {recurring : Bool}
    {seen : Nat} (hfree : x.sleepers.calls c = none)
    (hg : x.KeepsWatch workers (.addTimer c ms cb recurring seen)) :
    Inv workers ⟨setCall (x.sleepers.setTimers (x.sleepers.timers.addTimer ms cb recurring seen).2.2) c
      (if (x.sleepers.timers.addTimer ms cb recurring seen).2.1 then some .testing else none),
      x.currentAfter (.addTimer c ms cb recurring seen)⟩ := by
  have htimely : TimerManager.Timely _ (x.sleepers.timers.addTimer ms cb recurring seen).2.2 :=
    TimerManager.addTimer_timely ms cb recurring h.timely
  by_cases hfirst : x.sleepers.ComesFirst ms cb recurring seen
  · have hcurrent : x.currentAfter (.addTimer c ms cb recurring seen) = ∅ := if_pos hfirst
    rw [hcurrent]
    refine ⟨htimely, h.idle, fun w hw => absurd hw (Finset.notMem_empty w), fun hempty hcalls => ?_⟩
    obtain ⟨hcall, hbefore⟩ := setCall_free (s := x.sleepers.setTimers _) hfree hcalls
    have hfront : (x.sleepers.timers.addTimer ms cb recurring seen).2.1 = false := by
      simpa using hcall
    refine Or.inl (hg ?_ hfirst hempty hbefore)
    -- with the flag down, `addTimer` would be on its way to its `tickle`
    by_contra hflag
    have hsame := TimerManager.addTimer_behind ms cb recurring (Bool.eq_false_of_not_eq_true hflag)
      hfront
    have hin := List.mem_of_mem_head? (hsame.symm.trans hfirst)
    exact absurd (h.timely.orderly.known _ hin) (Nat.lt_irrefl _)
  · have hcurrent : x.currentAfter (.addTimer c ms cb recurring seen) = x.current := if_neg hfirst
    have hhead := TimerManager.addTimer_head_or ms cb recurring x.sleepers.timers seen
    rw [hcurrent]
    refine ⟨htimely, h.idle, fun w hw d hblocked => ?_, fun hempty hcalls => ?_⟩
    · exact TimerManager.endsBy_addTimer ms cb recurring h.timely.orderly (h.inTime w hw d hblocked)
        (hhead.resolve_left hfirst)
    · exact h.relieved hempty (setCall_free (s := x.sleepers.setTimers _) hfree hcalls).2

/-- One case for each step of the clock and of the callers. -/
theorem callerStep_inv (h : x.Inv workers) {t : Sleepers ι κ} {a : SleepAction ι κ}
    (ha : Sleepers.worker a = none) (hg : x.KeepsWatch workers a)
    (hstep : x.sleepers.callerStep a = some t) : Inv workers ⟨t, x.currentAfter a⟩ := by
  cases a with
  | tick ns =>
    cases hstep
    have hlater : x.sleepers.now ≤ x.sleepers.now + ns := Nat.le_add_right _ ns
    exact h.stay rfl rfl (h.timely.later hlater) (fun _ hd => hd.later hlater) h.relieved
  | addTimer c ms cb recurring seen =>
    obtain ⟨⟨hfree, -⟩, heq⟩ := Option.ite_none_right_eq_some.mp hstep
    cases heq
    exact addTimer_inv h hfree hg
  | test c =>
    obtain ⟨-, heq⟩ := Option.ite_none_right_eq_some.mp hstep
    cases heq
    refine h.stay rfl rfl h.timely (fun _ hd => hd) (fun _ hfree => ?_)
    have hcall := hfree c
    rw [setCall_same] at hcall
    split at hcall
    · cases hcall
    · next hnobody => exact Or.inl (fun w hw hwaits => hnobody (hwaits.idle h.idle hw))
  | write c =>
    obtain ⟨-, heq⟩ := Option.ite_none_right_eq_some.mp hstep
    cases heq
    exact h.stay rfl rfl h.timely (fun _ hd => hd) (fun hempty => absurd hempty (Nat.succ_ne_zero _))
  | cancel t =>
    cases hstep
    obtain ⟨htimely, hlater⟩ := TimerManager.cancel_timely h.timely t
    exact h.stay rfl rfl htimely (fun _ hd => hd.noEarlier hlater) h.relieved
  | refresh t =>
    cases hstep
    obtain ⟨htimely, hlater⟩ := TimerManager.refresh_timely h.timely t hg
    exact h.stay rfl rfl htimely (fun _ hd => hd.noEarlier hlater) h.relieved
  | notify =>
    cases hstep
    exact h.stay rfl rfl h.timely (fun _ hd => hd) (fun hempty => absurd hempty (Nat.succ_ne_zero _))
  | _ => cases ha

theorem step_inv (h : x.Inv workers) {a : SleepAction ι κ} (hg : x.KeepsWatch workers a)
    (hstep : x.step workers a = some y) : y.Inv workers := by
  obtain ⟨t, ht, rfl⟩ := Option.map_eq_some_iff.mp hstep
  unfold Sleepers.step at ht
  split at ht
  · next w ha =>
    obtain ⟨hw, ht⟩ := Option.ite_none_right_eq_some.mp ht
    exact workerStep_inv h hw ha hg ht
  · next ha => exact callerStep_inv h ha hg ht

/-- In a run in which whoever takes a wake-up leaves nobody waiting, or somebody who has read the
earliest deadline, not every worker that waits oversleeps it. -/
theorem no_oversleep (workers : Finset Nat) (clock : Nat) (as : List (SleepAction ι κ))
    (hg : Transition.Guarded (step workers) (KeepsWatch workers) (start clock : SleepLog ι κ) as) :
    Transition.Always (step workers) (fun x => x.sleepers.NoOversleep workers)
      (start clock : SleepLog ι κ) as := by
  have hinv := Transition.always_of_guarded (fun _ _ _ h hg hst => step_inv h hg hst)
    (start_inv workers clock) hg
  exact hinv.mono (fun _ h => h.noOversleep)

end Callers

/-- A timer of 100 ms is added while worker 0 waits for five seconds. It takes the byte and reads
the deadline before it waits again. Worker 1 begins to wait after that, and is still on record
when worker 0 leaves. -/
def readBeforeWaiting : List (SleepAction Unit Unit) :=
  [.enter 0, .stopping 0 false, .getNextTimer 0, .epollWait 0,
    .addTimer () 100 (some ()) false 0, .test (), .write (),
    .wake 0 true, .collect 0 0 0, .drain 0, .yield 0,
    .enter 1, .stopping 1 false, .getNextTimer 1, .epollWait 1,
    .enter 0, .stopping 0 false, .getNextTimer 0, .epollWait 0, .wake 0 false]

theorem new_timer_watched :
    Transition.Always (step {0, 1}) (fun x => x.sleepers.NoOversleep {0, 1})
      (start 0 : SleepLog Unit Unit) readBeforeWaiting ∧
    ∃ x, Transition.run (step {0, 1}) (start 0 : SleepLog Unit Unit) readBeforeWaiting = some x ∧
      x.sleepers.timers.timers = [0] ∧ x.sleepers.phase 1 = .blocked 100000000 ∧
      x.current = {0, 1} := by
  have hguard : Transition.Guarded (step {0, 1}) (KeepsWatch {0, 1}) (start 0) readBeforeWaiting := by
    refine .cons rfl trivial <| .cons rfl trivial <| .cons rfl trivial <|
      .cons rfl (fun _ _ => Or.inl ?_) <| .cons rfl (fun hflag => ?_) <|
      .cons rfl trivial <| .cons rfl trivial <| .cons rfl (fun hempty => ?_) <|
      .cons rfl trivial <| .cons rfl (fun _ => Or.inl ?_) <| .cons rfl trivial <|
      .cons rfl trivial <| .cons rfl trivial <| .cons rfl trivial <|
      .cons rfl (fun _ _ => Or.inl ?_) <| .cons rfl trivial <| .cons rfl trivial <|
      .cons rfl trivial <| .cons rfl (fun _ _ => Or.inl ?_) <|
      .cons rfl (fun _ _ => Or.inr ⟨1, ?_⟩) trivial
    · decide +kernel
    · exact absurd hflag (by decide +kernel)
    · exact absurd hempty (by decide +kernel)
    · decide +kernel
    · decide +kernel
    · decide +kernel
    · decide +kernel
  exact ⟨no_oversleep _ _ _ hguard, _, rfl, rfl, rfl, by decide +kernel⟩

/-- Workers 0 and 1 wait for five seconds when a timer of 100 ms is added. The `tickle` wakes
worker 0, which takes the byte and then a task that runs for 200 ms. -/
def tickledWorkerBusy : List (SleepAction Unit Unit) :=
  [.enter 0, .stopping 0 false, .getNextTimer 0, .epollWait 0,
    .enter 1, .stopping 1 false, .getNextTimer 1, .epollWait 1,
    .addTimer () 100 (some ()) false 0, .test (), .write (),
    .wake 0 true, .collect 0 0 0, .drain 0, .yield 0, .take 0, .tick 200000000]

/-- The timer has been due for 100 ms, and worker 1 still waits until its five seconds end. -/
theorem overdue_timer_slept_over :
    (∃ x, Transition.run (step {0, 1}) (start 0 : SleepLog Unit Unit) tickledWorkerBusy = some x ∧
      x.sleepers.timers.timers = [0] ∧ x.sleepers.timers.next 0 = 100000000 ∧
      x.sleepers.now = 200000000 ∧ x.sleepers.phase 0 = .executing ∧
      x.sleepers.phase 1 = .blocked 5000000000 ∧ x.sleepers.pipe = 0 ∧
      x.sleepers.calls () = none) ∧
    ¬ Transition.Always (step {0, 1}) (fun x => x.sleepers.NoOversleep {0, 1})
      (start 0 : SleepLog Unit Unit) tickledWorkerBusy := by
  have hslept : ∃ x, Transition.run (step {0, 1}) (start 0 : SleepLog Unit Unit) tickledWorkerBusy =
      some x ∧ x.sleepers.timers.timers = [0] ∧ x.sleepers.timers.next 0 = 100000000 ∧
      x.sleepers.now = 200000000 ∧ x.sleepers.phase 0 = .executing ∧
      x.sleepers.phase 1 = .blocked 5000000000 ∧ x.sleepers.pipe = 0 ∧
      x.sleepers.calls () = none :=
    ⟨_, rfl, rfl, rfl, rfl, rfl, rfl, rfl, rfl⟩
  refine ⟨hslept, ?_⟩
  intro halways
  obtain ⟨x, hrun, htimers, hnext, hnow, hbusy, hblocked, hempty, hfree⟩ := hslept
  obtain ⟨w, hw, d, hwaits, hintime⟩ := halways.finish hrun hempty ⟨1, by simp, _, hblocked⟩
    (fun _ => hfree)
  rcases Finset.mem_insert.mp hw with rfl | hw
  · cases hbusy.symm.trans hwaits
  · rw [Finset.mem_singleton.mp hw] at hwaits
    cases hblocked.symm.trans hwaits
    have hle := hintime 0 (htimers ▸ List.mem_cons_self)
    rw [hnext, hnow] at hle
    omega

end CoroutineRpc.Coroutine.SleepLog
