import CoroutineRpc.Coroutine.Waits
import CoroutineRpc.Library.Transition

/-! A fiber that waits in `do_io` is woken once for each wait, whatever wakes it, and its call
leaves neither a registration nor a timer behind. -/
namespace CoroutineRpc.Coroutine.Hooked
variable {φ κ : Type} [DecidableEq φ]

/-- No other code schedules the fiber or deletes its registration while it is in `do_io`, and
none has done so when it calls. -/
def Undisturbed (workers : Finset Nat) (f : φ) (s : Hooked φ κ) : HookAction φ κ → Prop
  | .call w _ _ _ _ _ => s.duty w = .executing f → s.occurrences workers f = 0
  | .schedule task => (plainTask task).isFor f = true → s.call f = none
  | .delEvent fd e _ => s.manager.WaitsAt f fd e → s.call f = none
  | _ => True

/-- The fiber occurs once from the success of `addEvent` until it is resumed, in no context but
that of its event, and when `do_io` has returned it is in no event context at all and no timer
of the call is in `m_timers`. -/
structure WokenOnce (workers : Finset Nat) (f : φ) (s : Hooked φ κ) : Prop where
  once : ∀ c, s.call f = some c → c.pc.waits = true → s.occurrences workers f = 1
  place : ∀ c, s.call f = some c → ∀ fd e, s.manager.WaitsAt f fd e → fd = c.fd ∧ e = c.event
  unregistered : ∀ c r, s.call f = some c → c.pc = .returned r →
    ∀ fd e, ¬ s.manager.WaitsAt f fd e
  timerless : ∀ c r, s.call f = some c → c.pc = .returned r →
    ∀ t ∈ c.made, t ∉ s.timers.timers

private theorem Kept.wokenOnce {workers : Finset Nat} {f : φ} {s : Hooked φ κ}
    (h : Kept workers f s) : WokenOnce workers f s := by
  refine ⟨?_, fun c hc => (h.framed c hc).place, ?_, ?_⟩
  · intro c hc hwaits
    have hoccurs := (h.framed c hc).occurs
    rwa [hwaits] at hoccurs
  · intro c r hc hpc
    have hoccurs := (h.framed c hc).occurs
    rw [hpc] at hoccurs
    have hzero : s.manager.occurrences f = 0 := Nat.eq_zero_of_add_eq_zero_right hoccurs
    exact h.sound.tabled.absent hzero
  · intro c r hc hpc t ht
    have hgone := ((h.framed c hc).timers t ht).2
    rw [hpc] at hgone
    exact hgone (by simp [Pc.timer])

/-- A fiber that is nowhere else enters `do_io`. -/
theorem Kept.enterCall {workers : Finset Nat} {f g : φ} {s : Hooked φ κ} {w : Nat}
    (h : Kept workers f s) (hw : w ∈ workers) (hduty : s.duty w = .executing g)
    (hzero : g = f → s.occurrences workers f = 0) (fd : Nat) (e : Event) (timeoutSo : SockOpt)
    (hookEnable : Bool) (ctx : Option FdCtx) :
    Kept workers f (s.enterCall g fd e (DoIo.enter hookEnable ctx timeoutSo)) := by
  have hquiet : (DoIo.enter hookEnable ctx timeoutSo).1.Quiet := by
    unfold DoIo.enter
    split_ifs
    · exact ⟨rfl, rfl⟩
    · split
      · exact ⟨rfl, rfl⟩
      · split_ifs <;> exact ⟨rfl, rfl⟩
  refine ⟨⟨h.sound.tabled, h.sound.orderly, h.sound.executing⟩, ?_⟩
  intro c hc
  by_cases hfg : f = g
  · subst hfg
    have hc' := (Function.update_self f _ s.call).symm.trans hc
    obtain rfl := Option.some.inj hc'
    have hzero := hzero rfl
    have habsent := h.sound.tabled.absent (Nat.eq_zero_of_add_eq_zero_right hzero)
    refine ⟨?_, fun fd' e' hw' => absurd hw' (habsent fd' e'),
      fun timer hpc => absurd hpc (hquiet.ne_waiting timer), fun _ => ⟨w, hw, hduty⟩, ?_⟩
    · rw [hquiet.2]
      exact hzero
    · exact fun t ht => absurd ht List.not_mem_nil
  · have hc' : s.call f = some c := (Function.update_of_ne hfg _ _).symm.trans hc
    exact (h.framed c hc').frame rfl (fun _ _ hw => hw) rfl
      (fun _ _ hexecuting => hexecuting) (.refl h.sound.orderly)

theorem Kept.fiberStep {workers : Finset Nat} {f : φ} {s t : Hooked φ κ} {w : Nat}
    {a : HookAction φ κ} (h : Kept workers f s) (hw : w ∈ workers) (hworker : worker a = some w)
    (hg : Undisturbed workers f s a) (hstep : s.fiberStep w a (s.duty w) = some t) :
    Kept workers f t := by
  generalize hduty : s.duty w = d at hstep
  unfold Hooked.fiberStep at hstep
  split at hstep
  · exact h.start hw hduty hstep
  · cases hworker
    split at hstep
    · cases hstep
      exact h.enterCall hw hduty (fun he => hg (he ▸ hduty)) _ _ _ _ _
    · cases hstep
  · next op g =>
    obtain ⟨c, hc, hio⟩ := Option.bind_eq_some_iff.mp hstep
    have hto := ioStep_to hc hio
    by_cases hfg : f = g
    · subst hfg
      exact h.io_self hw hduty hc hto
    · exact h.io_other hw hduty hfg hto
  · next done g =>
    split at hstep
    · next hnone =>
      cases hstep
      refine h.park hw hduty ?_ _
      rintro hcall rfl
      exact hcall hnone
    · cases hstep
  · exact h.serves hw (workerStep_serves h.sound.tabled h.sound.orderly hduty hstep)

/-- Other code changes neither duties nor calls. -/
theorem Kept.other {workers : Finset Nat} {f : φ} {s t : Hooked φ κ} (h : Kept workers f s)
    (hduty : t.duty = s.duty) (hmutex : t.mutex = s.mutex) (hcall : t.call = s.call)
    (hstate : ∀ g, s.fiberState g ≠ none → t.fiberState g = s.fiberState g)
    (htabled : t.manager.Tabled) (htimers : TimerManager.Keeps s.timers t.timers)
    (hoccurs : s.call f ≠ none → t.manager.occurrences f = s.manager.occurrences f)
    (hplaces : s.call f ≠ none → ∀ fd e, t.manager.WaitsAt f fd e → s.manager.WaitsAt f fd e) :
    Kept workers f t := by
  refine ⟨⟨htabled, htimers.orderly, ?_⟩, ?_⟩
  · intro w hw g hexecuting
    obtain ⟨hlock, hrunning⟩ := h.sound.executing w hw g (hduty ▸ hexecuting)
    exact ⟨hmutex ▸ hlock, (hstate g (by simp [hrunning])).trans hrunning⟩
  · intro c hc
    have hc' : s.call f = some c := hcall ▸ hc
    have hframed := h.framed c hc'
    have hknown : s.fiberState f ≠ none := by
      by_cases hpc : ∃ timer, c.pc = .waiting timer
      · obtain ⟨timer, hpc⟩ := hpc
        simp [hframed.parked timer hpc]
      · obtain ⟨w, hw, hexecuting⟩ := hframed.active (fun timer he => hpc ⟨timer, he⟩)
        simp [(h.sound.executing w hw f hexecuting).2]
    refine hframed.frame ?_ (hplaces (by simp [hc'])) (hstate f hknown) ?_ htimers
    · exact occurrences_manager hduty (k := 0) (hoccurs (by simp [hc']))
    · intro w _ hexecuting
      exact (congrFun hduty w).trans hexecuting

private theorem constructed_known (s : Hooked φ κ) (task : Task φ κ) (g : φ)
    (h : s.fiberState g ≠ none) : s.constructed task g = s.fiberState g := by
  cases task with
  | call code => rfl
  | fiber f =>
    rw [constructed]
    split
    · next hnone =>
      have hne : g ≠ f := fun he => h (he ▸ hnone)
      exact Function.update_of_ne hne _ _
    · rfl

theorem Kept.otherStep {workers : Finset Nat} {f : φ} {s t : Hooked φ κ} {a : HookAction φ κ}
    (h : Kept workers f s) (hg : Undisturbed workers f s a) (hstep : s.otherStep a = some t) :
    Kept workers f t := by
  have htabled := h.sound.tabled
  have hkeeps := TimerManager.Keeps.refl h.sound.orderly
  have hstay : s.call f ≠ none → ∀ fd e, s.manager.WaitsAt f fd e → s.manager.WaitsAt f fd e :=
    fun _ _ _ hw => hw
  unfold Hooked.otherStep at hstep
  split at hstep
  case h_1 task =>
    cases hstep
    refine h.other rfl rfl rfl (s.constructed_known task)
      ⟨htabled.wellFormed, htabled.outside, htabled.size⟩ hkeeps (fun hcall => ?_) hstay
    refine (occurrences_schedule s.manager (plainTask task) f).trans ?_
    rw [if_neg (fun hfor => hcall (hg hfor)), Nat.add_zero]
  case h_2 ms cb recurring now =>
    cases hstep
    exact h.other rfl rfl rfl (fun _ _ => rfl) htabled
      (TimerManager.addTimer_spec h.sound.orderly ms (cb.map plain) recurring now).2.1
      (fun _ => rfl) hstay
  case h_3 i =>
    cases hstep
    exact h.other rfl rfl rfl (fun _ _ => rfl) htabled
      (TimerManager.cancel_keeps h.sound.orderly i) (fun _ => rfl) hstay
  case h_4 fd e self cb ok =>
    split at hstep
    · next hguard =>
      obtain ⟨⟨rt, m⟩, hadded, rfl⟩ := Option.map_eq_some_iff.mp hstep
      obtain ⟨htabled', hoccurs, hplaces⟩ := IOManager.addEvent_registers htabled hadded
      have hother : s.call f ≠ none → ¬ (cb.map plain = none ∧ self = f) := by
        rintro hcall ⟨hcb, rfl⟩
        exact hcall (hguard (by simpa using hcb)).2
      refine h.other rfl rfl rfl (fun _ _ => rfl) htabled' hkeeps (fun hcall => ?_)
        (fun hcall fd' e' hw => (hplaces f fd' e' hw).resolve_right (fun hand => ?_))
      · refine (hoccurs f).trans ?_
        rw [if_neg (fun hand => hother hcall hand.2), Nat.add_zero]
      · exact hother hcall hand.2.2
    · cases hstep
  case h_5 fd e ok =>
    cases hstep
    obtain ⟨htabled', hoccurs, hplaces⟩ := IOManager.delEvent_drops htabled fd e ok
    exact h.other rfl rfl rfl (fun _ _ => rfl) htabled' hkeeps
      (fun hcall => hoccurs f (fun hw => hcall (hg hw))) (fun _ => hplaces f)
  case h_6 fd e ok =>
    obtain ⟨r, hcancel, rfl⟩ := Option.map_eq_some_iff.mp hstep
    have hcarries := IOManager.cancelEvent_carries htabled hcancel
    exact h.other rfl rfl rfl (fun _ _ => rfl) hcarries.tabled hkeeps
      (fun _ => hcarries.occurrences f) (fun _ => hcarries.places f)
  case h_7 fd ok =>
    obtain ⟨r, hcancel, rfl⟩ := Option.map_eq_some_iff.mp hstep
    have hcarries := IOManager.cancelAll_carries htabled hcancel
    exact h.other rfl rfl rfl (fun _ _ => rfl) hcarries.tabled hkeeps
      (fun _ => hcarries.occurrences f) (fun _ => hcarries.places f)
  case h_8 fd =>
    cases hstep
    exact h.other rfl rfl rfl (fun _ _ => rfl)
      ⟨htabled.wellFormed, htabled.outside, htabled.size⟩ hkeeps (fun _ => rfl) hstay
  case h_9 => cases hstep

private theorem step_kept {workers : Finset Nat} {f : φ} {s t : Hooked φ κ} {a : HookAction φ κ}
    (h : Kept workers f s) (hg : Undisturbed workers f s a) (hstep : step workers s a = some t) :
    Kept workers f t := by
  unfold step at hstep
  split at hstep
  · next w hworker =>
    split at hstep
    · next hw => exact h.fiberStep hw hworker hg hstep
    · cases hstep
  · exact h.otherStep hg hstep

theorem kept_start (workers : Finset Nat) (f : φ) : Kept workers f ({} : Hooked φ κ) := by
  refine ⟨⟨⟨fun _ => FdContext.empty_wellFormed, fun _ _ => rfl, le_refl _⟩,
    ⟨List.Pairwise.nil, fun _ ht => absurd ht List.not_mem_nil⟩, ?_⟩, ?_⟩
  · intro w _ g hexecuting
    cases hexecuting
  · intro c hc
    cases hc

/-- In every run of any workers in which no other code schedules the fiber or deletes its
registration during its calls of `do_io`, it is woken once for each wait and leaves nothing. -/
theorem always_wokenOnce (workers : Finset Nat) (f : φ) (as : List (HookAction φ κ))
    (hg : Transition.Guarded (step workers) (Undisturbed workers f) ({} : Hooked φ κ) as) :
    Transition.Always (step workers) (WokenOnce workers f) ({} : Hooked φ κ) as :=
  (Transition.always_of_guarded (fun _ _ _ h hg hstep => step_kept h hg hstep)
    (kept_start workers f) hg).mono (fun _ h => h.wokenOnce)

/-- Fiber 7 reads with a timeout. The timeout is collected in the same turn in which the
descriptor is ready, and its callback runs before the fiber is resumed. -/
def readyAndTimedOut : List (HookAction Nat Unit) :=
  [.schedule (.fiber 7), .take 0 0, .start 0 7,
    .call 0 5 .read .rcvTimeo true (some { recvTimeout := some 1 }),
    .io 0 (.attempt ⟨-1, .eagain⟩), .io 0 (.arm 0), .io 0 (.add true), .io 0 .yield,
    .epollWait 0 [{ fd := 5, epollIn := true }], .collect 0 1000000 1000000 1, .submit 0,
    .dispatch 0 true, .dispatch 0 true,
    .take 0 0, .onTimer 0, .testCancelled 0, .setCancelled 0, .cancelTimedOut 0 true,
    .take 0 0, .start 0 7, .io 0 .cancel, .io 0 .check]

/-- The callback finds nothing to cancel, and the fiber is woken once. -/
theorem readyAndTimedOut_wokenOnce :
    Transition.Always (step {0}) (WokenOnce {0} 7) ({} : Hooked Nat Unit) readyAndTimedOut ∧
      ∃ s c, Transition.run (step {0}) ({} : Hooked Nat Unit) readyAndTimedOut = some s ∧
        s.call 7 = some c ∧ c.pc = .returned ⟨-1, .etimedout⟩ ∧ c.made = [0] ∧
        s.timers.timers = [] ∧ s.manager.tasks = [] := by
  refine ⟨always_wokenOnce {0} 7 readyAndTimedOut ?_, _, _, rfl, rfl, rfl, rfl, rfl, rfl⟩
  exact .cons rfl (fun _ => rfl) (.cons rfl trivial (.cons rfl trivial (.cons rfl (fun _ => rfl)
    (.cons rfl trivial (.cons rfl trivial (.cons rfl trivial (.cons rfl trivial
    (.cons rfl trivial (.cons rfl trivial (.cons rfl trivial (.cons rfl trivial
    (.cons rfl trivial (.cons rfl trivial (.cons rfl trivial (.cons rfl trivial
    (.cons rfl trivial (.cons rfl trivial (.cons rfl trivial (.cons rfl trivial
    (.cons rfl trivial (.cons rfl trivial trivial)))))))))))))))))))))

end CoroutineRpc.Coroutine.Hooked
