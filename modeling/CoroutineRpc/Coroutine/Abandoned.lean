import CoroutineRpc.Coroutine.ShutdownSafety

/-! What follows when the last worker decides on old tests: all workers can leave while the
timer or the registration that has come since is still there. -/
namespace CoroutineRpc.Coroutine.Shutdown
variable {φ κ : Type}

/-- Every worker has decided, none of them runs a task, and something is left. -/
structure Abandoned (workers : Finset Nat) (s : Shutdown φ κ) : Prop where
  decided : s.Decided workers
  resting : ∀ w ∈ workers, s.stage w = .scanning ∨ s.stage w = .noTask ∨ s.stage w = .exited
  tasks : s.tasks = []
  consistent : s.io.manager.Consistent
  left : ¬ (s.timers.timers = [] ∧ s.io.manager.pendingEventCount = 0)

theorem Abandoned.move {workers : Finset Nat} {s : Shutdown φ κ} (h : s.Abandoned workers) {w : Nat}
    {p : Stage φ κ} (hp : p = .noTask ∨ p = .exited) : (s.move w p).Abandoned workers := by
  refine ⟨h.decided, ?_, h.tasks, h.consistent, h.left⟩
  intro w' hw'
  rcases eq_or_ne w' w with rfl | hne
  · rw [move_same]
    exact Or.inr hp
  · rw [s.move_other p hne]
    exact h.resting w' hw'

theorem Abandoned.idle {workers : Finset Nat} {s : Shutdown φ κ} (h : s.Abandoned workers) {w : Nat}
    (hw : w ∈ workers) (hstage : s.stage w = .noTask) :
    step workers s (.idle w) = some (s.move w .exited) := by
  simp only [step, worker, hw, if_true, hstage, workerStep, h.decided w hw]

/-- Each worker finds the queue empty and its idle fiber finished. -/
theorem Abandoned.settle {workers : Finset Nat} {s : Shutdown φ κ} (h : s.Abandoned workers)
    {w : Nat} (hw : w ∈ workers) :
    ∃ as t, Transition.run (step workers) s as = some t ∧ t.Abandoned workers ∧
      t.stage w = .exited ∧ ∀ w', w' ≠ w → s.stage w' = .exited → t.stage w' = .exited := by
  rcases h.resting w hw with hstage | hstage | hstage
  · have hscan : step workers s (.scan w) = some (s.move w .noTask) := by
      simp only [step, worker, hw, if_true, hstage, workerStep, scan, h.tasks, scanTasks]
    have hmove := h.move (w := w) (Or.inl rfl)
    have hidle := hmove.idle hw (move_same s w .noTask)
    refine ⟨[.scan w, .idle w], (s.move w .noTask).move w .exited, ?_, hmove.move (Or.inr rfl),
      move_same _ _ _, ?_⟩
    · simp only [Transition.run_cons, hscan, hidle, Option.bind_some, Transition.run_nil]
    · intro w' hne hexited
      rw [move_other _ _ hne, move_other _ _ hne, hexited]
  · refine ⟨[.idle w], s.move w .exited, ?_, h.move (Or.inr rfl), move_same _ _ _, ?_⟩
    · simp only [Transition.run_cons, h.idle hw hstage, Option.bind_some, Transition.run_nil]
    · exact fun w' hne hexited => (move_other _ _ hne).trans hexited
  · exact ⟨[], s, rfl, h, hstage, fun _ _ hexited => hexited⟩

/-- An abandoned pool can end like that, so the condition asks for no more than it must. -/
theorem Abandoned.loses {workers : Finset Nat} {s : Shutdown φ κ} (h : s.Abandoned workers) :
    ∃ as t, Transition.run (step workers) s as = some t ∧ ¬ t.NoWorkLost workers := by
  obtain ⟨as, t, hrun, ht, hexited⟩ := Transition.run_to_all (Abandoned workers)
    (fun w t => t.stage w = .exited) workers (fun _ hs _ hw => hs.settle hw) h
  refine ⟨as, t, hrun, ?_⟩
  intro hkept
  obtain ⟨htimers, hevents, -⟩ := hkept hexited
  exact ht.left ⟨htimers, ht.consistent.pending_eq_zero_iff.mpr hevents⟩

/-- A last decision on old tests leaves an abandoned pool. -/
theorem abandoned_of_not_stillDone {workers : Finset Nat} {s t : Shutdown φ κ}
    {a : ShutdownAction φ κ} (h : s.Inv workers) (hg : ¬ s.StillDone workers a)
    (hstep : step workers s a = some t) : t.Abandoned workers := by
  cases a with
  | testTasks w =>
    simp only [StillDone, Classical.not_forall] at hg
    obtain ⟨hstopping, hothers, hleft⟩ := hg
    simp only [step, worker] at hstep
    split at hstep
    swap
    · cases hstep
    next hw =>
    generalize hstage : s.stage w = p at hstep
    cases p with
    | testingTasks =>
      simp only [workerStep, hstopping, if_true, Option.some.injEq] at hstep
      subst hstep
      simp only [isStopping, Bool.and_eq_true, List.isEmpty_iff, beq_iff_eq] at hstopping
      refine ⟨?_, ?_, hstopping.1.2, h.consistent, hleft⟩
      · intro w' hw'
        rcases eq_or_ne w' w with rfl | hne
        · exact Function.update_self _ _ _
        · exact (s.leave_idleTerm_other hne).trans (hothers w' hw' hne)
      · intro w' hw'
        change (s.move w .scanning).stage w' = .scanning ∨ (s.move w .scanning).stage w' = .noTask ∨
          (s.move w .scanning).stage w' = .exited
        rcases eq_or_ne w' w with rfl | hne
        · exact Or.inl (move_same _ _ _)
        · rw [s.move_other _ hne]
          have hparting := (h.parting w' hw' (hothers w' hw' hne)).2
          cases hother : s.stage w' with
          | scanning => exact Or.inl rfl
          | noTask => exact Or.inr (Or.inl rfl)
          | exited => exact Or.inr (Or.inr rfl)
          | executing q =>
            have hpos : 0 < busy workers s := busy_pos hw' (by rw [hother]; rfl)
            have hcount := h.active
            omega
          | _ =>
            rw [hother] at hparting
            exact absurd hparting id
    | _ => cases hstep
  | _ => exact absurd trivial hg

end CoroutineRpc.Coroutine.Shutdown
