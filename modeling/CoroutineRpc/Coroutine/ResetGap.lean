import CoroutineRpc.Coroutine.CancelFinal

/-! The gap of `reset` in whole runs: without a `cancel` in it no cancelled timer comes back,
and with one the timer is in the set again, without a callback. -/
namespace CoroutineRpc.Coroutine.TimerRace
variable {ι β : Type} [DecidableEq ι]

/-- The first critical section takes the timer out, and then this call alone holds it. -/
theorem erase_sound {s t : TimerRace ι β} (h : Sound s) (hd : s.Distinct) {c : ι} {r : Reset}
    (hstep : s.resetStep r (.erase c) r.stage = some t) : Sound t := by
  cases hstage : r.stage with
  | erasing =>
    rw [hstage, resetStep] at hstep
    split at hstep
    · cases hstep
      exact h.setReset c (fun x hx => by cases hx)
    · next m herase =>
      cases hstep
      unfold TimerManager.resetErase at herase
      split at herase
      · cases herase
      · cases herase
      · next cb it hcb hfind =>
        cases herase
        obtain ⟨rfl, hmem⟩ := hd.find (by simp [hcb]) hfind
        have herased := TimerManager.mem_erase h.ordered r.timer
        have hm : Sound (s.setManager (s.manager.erase r.timer)) := by
          refine h.within ⟨h.ordered.erase r.timer, rfl, ?_, fun _ _ => rfl⟩
          exact fun u hu => ((herased u).mp hu).2
        refine hm.setReset c ?_
        rintro x hx -
        cases hx
        refine ⟨h.known r.timer hmem, TimerManager.notMem_erase h.ordered r.timer, ?_, ?_⟩
        · exact fun hin => (h.cancelled r.timer hin).2.2 hmem
        · intro c' y _ hy hb he
          exact (h.between c' y hy hb).2.1 (he ▸ hmem)
  | updating =>
    rw [hstage] at hstep
    cases hstep
  | inserting =>
    rw [hstage] at hstep
    cases hstep

/-- The unlocked update changes the deadline of a timer outside the set. -/
theorem update_sound {s t : TimerRace ι β} (h : Sound s) {c : ι} {r : Reset} {now : Int}
    (hr : s.resets c = some r) (hstep : s.resetStep r (.update c now) r.stage = some t) :
    Sound t := by
  cases hstage : r.stage with
  | updating =>
    rw [hstage] at hstep
    cases hstep
    have hb : r.Between := by
      rw [Reset.Between, hstage]
      decide
    obtain ⟨hlt, hout, hlive⟩ := h.between c r hr hb
    have hm : Sound (s.setManager (s.manager.resetUpdate r.timer r.ms r.fromNow now)) := by
      refine h.manager (h.ordered.modify _ hout) (Nat.le_refl _) h.known ?_ ?_
      · intro u hu
        have hne : u ≠ r.timer := fun he => hlive (he ▸ hu)
        refine ⟨?_, (h.cancelled u hu).2.2⟩
        exact (congrArg Timer.cb (TimerManager.modify_other _ _ hne)).trans (h.cancelled u hu).2.1
      · exact fun c' r' hr' hb' => (h.between c' r' hr' hb').2.1
    refine hm.setReset c ?_
    rintro x hx -
    cases hx
    refine ⟨hlt, hout, hlive, ?_⟩
    intro c' y hne hy hb' he
    exact hne (h.single c' c y r hy hr hb' hb he)
  | erasing =>
    rw [hstage] at hstep
    cases hstep
  | inserting =>
    rw [hstage] at hstep
    cases hstep

/-- The second critical section puts back a timer that has not been cancelled. -/
theorem insert_sound {s t : TimerRace ι β} (h : Sound s) {c : ι} {r : Reset}
    (hr : s.resets c = some r) (hstep : s.resetStep r (.insert c) r.stage = some t) :
    Sound t := by
  cases hstage : r.stage with
  | inserting =>
    rw [hstage] at hstep
    cases hstep
    have hb : r.Between := by
      rw [Reset.Between, hstage]
      decide
    obtain ⟨hlt, -, hlive⟩ := h.between c r hr hb
    obtain ⟨hord, hmem⟩ := TimerManager.addShared_spec h.ordered r.timer
    -- the call gives its timer up before the timer is in the set again
    have hfree : Sound (s.setReset c none) := h.setReset c (fun x hx => by cases hx)
    refine hfree.manager hord (Nat.le_refl _) ?_ ?_ ?_
    · exact fun u hu => (hmem u hu).elim (fun he => he ▸ hlt) (h.known u)
    · intro u hu
      obtain ⟨-, hmuted, hgone⟩ := h.cancelled u hu
      refine ⟨hmuted, fun hin => ?_⟩
      rcases hmem u hin with rfl | hin
      · exact hlive hu
      · exact hgone hin
    · intro c' r' hr' hb' hin
      have hne : c' ≠ c := by
        rintro rfl
        rw [setReset_same] at hr'
        cases hr'
      rw [setReset_other s none hne] at hr'
      rcases hmem _ hin with he | hin
      · exact hne (h.single c' c r' r hr' hr hb' hb he)
      · exact (h.between c' r' hr' hb').2.1 hin
  | erasing =>
    rw [hstage] at hstep
    cases hstep
  | updating =>
    rw [hstage] at hstep
    cases hstep

theorem step_sound {s t : TimerRace ι β} {a : RaceAction ι β} (h : Sound s)
    (hg : s.Distinct ∧ s.CancelsOutside a) (hstep : step s a = some t) : Sound t := by
  obtain ⟨hd, houtside⟩ := hg
  unfold step at hstep
  split at hstep
  case h_1 ms cb recurring now =>
    cases hstep
    exact addTimer_sound h ms cb recurring now
  case h_2 u =>
    split at hstep
    · next hknown =>
      cases hstep
      exact cancel_sound h hknown houtside
    · cases hstep
  case h_3 u now =>
    split at hstep
    · cases hstep
      exact refresh_sound h hd u now
    · cases hstep
  case h_4 c u ms fromNow =>
    split at hstep
    · cases hstep
      unfold reset
      split
      · exact h
      · refine h.setReset c ?_
        rintro x hx hb
        cases hx
        exact absurd rfl hb
    · cases hstep
  case h_5 c =>
    obtain ⟨r, -, hstep⟩ := Option.bind_eq_some_iff.mp hstep
    exact erase_sound h hd hstep
  case h_6 c now =>
    obtain ⟨r, hr, hstep⟩ := Option.bind_eq_some_iff.mp hstep
    exact update_sound h hr hstep
  case h_7 c =>
    obtain ⟨r, hr, hstep⟩ := Option.bind_eq_some_iff.mp hstep
    exact insert_sound h hr hstep
  case h_8 now =>
    cases hstep
    rw [TimerManager.getNextTimer_manager]
    exact h.within ⟨h.ordered, rfl, fun _ hu => hu, fun _ _ => rfl⟩
  case h_9 now now' fuel => exact listExpiredCb_sound h hstep

/-- In every run of any threads whose timers have different deadlines, a cancelled timer stays
out of the set and is not collected, if no `cancel` falls into the gap of a `reset`. -/
theorem cancel_final (as : List (RaceAction ι β))
    (hg : Transition.Guarded step (fun s a => s.Distinct ∧ s.CancelsOutside a)
      ({} : TimerRace ι β) as) :
    Transition.Always step Final ({} : TimerRace ι β) as :=
  (Transition.always_of_guarded (fun _ _ _ h hg hstep => step_sound h hg hstep) sound_start hg).mono
    (fun _ h => h.final)

/-- `Timer::reset` that nobody disturbs is its three sections in a row. -/
theorem reset_undisturbed (s : TimerRace ι β) (c : ι) (t : TimerId) (ms : Nat) (fromNow : Bool)
    (now : Int) {m : TimerManager β} (htest : ¬ (ms = (s.manager.objects t).ms ∧ fromNow = false))
    (herase : s.manager.resetErase t = some m) (hknown : t < s.manager.created)
    (hfree : s.resets c = none) :
    (Transition.run step s [.reset c t ms fromNow, .erase c, .update c now, .insert c]).map
        (fun s => s.manager) = some (s.manager.reset t ms fromNow now).2 := by
  simp only [Transition.run_cons, Transition.run_nil, step, hknown, hfree, and_self, if_true,
    Option.bind_some, reset, htest, if_false, resetStep, setReset, setManager,
    herase, Function.update_self, TimerManager.reset, Option.map_some]

/-- A recurring timer that is reset and then cancelled. -/
def cancelAfterReset : List (RaceAction Unit Unit) :=
  [.addTimer 100 (some ()) true 0, .reset () 0 200 true, .erase (), .update () 5, .insert (),
    .cancel 0]

theorem reset_then_cancel_final :
    Transition.Always step Final ({} : TimerRace Unit Unit) cancelAfterReset ∧
      ∃ s, Transition.run step ({} : TimerRace Unit Unit) cancelAfterReset = some s ∧
        s.cancelled = [0] ∧ s.manager.timers = [] := by
  refine ⟨cancel_final cancelAfterReset ?_, _, rfl, rfl, rfl⟩
  have houtside : ∀ s : TimerRace Unit Unit, s.resets () = none → s.CancelsOutside (.cancel 0) := by
    intro s hnone c r hr
    cases hnone.symm.trans hr
  refine .cons rfl ⟨distinct_single (fun _ => rfl) (by decide), trivial⟩ ?_
  refine .cons rfl ⟨distinct_single (fun _ => rfl) (by decide), trivial⟩ ?_
  refine .cons rfl ⟨distinct_single (fun _ => rfl) (by decide), trivial⟩ ?_
  refine .cons rfl ⟨distinct_single (fun _ => rfl) (by decide), trivial⟩ ?_
  refine .cons rfl ⟨distinct_single (fun _ => rfl) (by decide), trivial⟩ ?_
  exact .cons rfl ⟨distinct_single (fun _ => rfl) (by decide), houtside _ rfl⟩ trivial

/-- The same timer, cancelled after `reset` has taken it out and before it is put back. -/
def cancelInGap : List (RaceAction Unit Unit) :=
  [.addTimer 100 (some ()) true 0, .reset () 0 200 true, .erase (), .cancel 0, .update () 5,
    .insert ()]

/-- The cancelled timer is in the set again, without a callback, and `getNextTimer` counts it.
No two timers ever have the same deadline. -/
theorem cancel_in_gap_not_final :
    (∃ s, Transition.run step ({} : TimerRace Unit Unit) cancelInGap = some s ∧
      s.cancelled = [0] ∧ s.manager.timers = [0] ∧ (s.manager.objects 0).cb = none ∧
      (s.manager.getNextTimer 5).1 = 200) ∧
    Transition.Guarded step (fun s _ => s.Distinct) ({} : TimerRace Unit Unit) cancelInGap ∧
    ¬ Transition.Always step Final ({} : TimerRace Unit Unit) cancelInGap := by
  have hback : ∃ s, Transition.run step ({} : TimerRace Unit Unit) cancelInGap = some s ∧
      s.cancelled = [0] ∧ s.manager.timers = [0] ∧ (s.manager.objects 0).cb = none ∧
      (s.manager.getNextTimer 5).1 = 200 := ⟨_, rfl, rfl, rfl, rfl, by decide⟩
  refine ⟨hback, ?_, ?_⟩
  · refine .cons rfl (distinct_single (fun _ => rfl) (by decide)) ?_
    refine .cons rfl (distinct_single (fun _ => rfl) (by decide)) ?_
    refine .cons rfl (distinct_single (fun _ => rfl) (by decide)) ?_
    refine .cons rfl (distinct_single (fun _ => rfl) (by decide)) ?_
    refine .cons rfl (distinct_single (fun _ => rfl) (by decide)) ?_
    exact .cons rfl (distinct_single (fun _ => rfl) (by decide)) trivial
  · intro halways
    obtain ⟨s, hrun, hcancelled, htimers, -⟩ := hback
    have hgone := (halways.finish hrun).gone 0 (hcancelled ▸ List.mem_singleton_self 0)
    exact hgone (htimers ▸ List.mem_singleton_self 0)

end CoroutineRpc.Coroutine.TimerRace
