import CoroutineRpc.Coroutine.Wakeup

/-! What follows when a `tickle` that was needed is dropped: the workers can all come to wait
with the task queued and the pipe empty. -/
namespace CoroutineRpc.Coroutine.Pool
variable {ι φ κ : Type}

/-- A task that any worker may take is queued, nothing will make a worker look, and every
worker waits or is about to. -/
structure Stranded (workers : Finset Nat) (s : Pool ι φ κ) : Prop where
  queued : ∃ q ∈ s.tasks, q.thread = none
  quiet : ¬ Roused workers s
  staying : ∀ w ∈ workers, s.phase w ≠ .exited ∧ s.idleTerm w = false

private theorem Stranded.dozing {workers : Finset Nat} {s : Pool ι φ κ} (h : Stranded workers s)
    {w : Nat} (hw : w ∈ workers) :
    s.phase w = .noTask ∨ s.phase w = .entering ∨ s.phase w = .blocked := by
  have hawake : ¬ Awake (s.phase w) := fun ha => h.quiet (roused_of_awake hw ha)
  have hexited := (h.staying w hw).1
  cases hphase : s.phase w <;> simp_all [Awake]

/-- A worker that goes from one waiting phase to another wakes nobody. -/
theorem Stranded.move {workers : Finset Nat} {s : Pool ι φ κ} (h : Stranded workers s) {w : Nat}
    {p : Phase φ κ} (hp : ¬ Awake p) (hexited : p ≠ .exited) : Stranded workers (s.move w p) := by
  refine ⟨h.queued, ?_, ?_⟩
  · rintro (hpipe | ⟨w', hw', hawake⟩ | hcall)
    · exact h.quiet (Or.inl hpipe)
    · by_cases hne : w' = w
      · subst hne
        rw [move_same] at hawake
        exact hp hawake
      · rw [s.move_other p hne] at hawake
        exact h.quiet (roused_of_awake hw' hawake)
    · exact h.quiet (Or.inr (Or.inr hcall))
  · intro w' hw'
    by_cases hne : w' = w
    · subst hne
      rw [move_same]
      exact ⟨hexited, (h.staying w' hw').2⟩
    · rw [s.move_other p hne]
      exact h.staying w' hw'

variable [DecidableEq ι] [DecidableEq φ]

/-- Each worker of a stranded pool can come to wait. -/
theorem Stranded.settle {workers : Finset Nat} {s : Pool ι φ κ} (h : Stranded workers s)
    {w : Nat} (hw : w ∈ workers) :
    ∃ as t, Transition.run (step workers) s as = some t ∧ Stranded workers t ∧
      t.phase w = .blocked ∧ ∀ w', w' ≠ w → s.phase w' = .blocked → t.phase w' = .blocked := by
  rcases h.dozing hw with hphase | hphase | hphase
  · let s₁ : Pool ι φ κ := { s.move w .entering with idle := s.idle + 1 }
    have hidle : step workers s (.idle w) = some s₁ := by
      simp [step, worker, hw, hphase, workerStep, (h.staying w hw).2, s₁]
    have henter : step workers s₁ (.enter w false) = some (s₁.move w .blocked) := by
      simp [step, worker, hw, workerStep, s₁]
    have hmove : Stranded workers (s.move w .entering) := h.move (by simp [Awake]) (by simp)
    have h₁ : Stranded workers s₁ := ⟨hmove.queued, hmove.quiet, hmove.staying⟩
    refine ⟨[.idle w, .enter w false], s₁.move w .blocked, ?_,
      h₁.move (by simp [Awake]) (by simp), move_same _ _ _, ?_⟩
    · simp [Transition.run_cons, hidle, henter]
    · intro w' hne hblocked
      rw [s₁.move_other _ hne]
      exact (s.move_other _ hne).trans hblocked
  · have henter : step workers s (.enter w false) = some (s.move w .blocked) := by
      simp [step, worker, hw, hphase, workerStep]
    refine ⟨[.enter w false], s.move w .blocked, ?_, h.move (by simp [Awake]) (by simp),
      move_same _ _ _, fun w' hne hblocked => (s.move_other _ hne).trans hblocked⟩
    simp [Transition.run_cons, henter]
  · exact ⟨[], s, rfl, h, hphase, fun _ _ hblocked => hblocked⟩

/-- A stranded pool can lose the wake-up, so the condition asks for no more than it must. -/
theorem Stranded.loses {workers : Finset Nat} {s : Pool ι φ κ} (h : Stranded workers s) :
    ∃ as t, Transition.run (step workers) s as = some t ∧ ¬ NoLostWakeup workers t := by
  obtain ⟨as, t, hrun, ht, hblocked⟩ := Transition.run_to_all (Stranded workers)
    (fun w t => t.phase w = .blocked) workers (fun _ hs _ hw => hs.settle hw) h
  refine ⟨as, t, hrun, ?_⟩
  intro hno
  have hcalls : ∀ caller, t.calls caller = none := by
    intro caller
    by_contra hcall
    exact ht.quiet (Or.inr (Or.inr ⟨caller, hcall⟩))
  exact ht.quiet (Or.inl (hno ht.queued hblocked hcalls))

/-- A dropped `tickle` that could not be spared leaves a stranded pool. -/
theorem stranded_of_not_spared {workers : Finset Nat} {s t : Pool ι φ κ} {a : PoolAction ι φ κ}
    (hg : ¬ Spared workers s a) (hstep : step workers s a = some t)
    (hqueued : ∃ q ∈ s.tasks, q.thread = none)
    (hstay : ∀ w ∈ workers, s.phase w ≠ .exited ∧ s.idleTerm w = false) :
    Stranded workers t := by
  rcases step_to hstep with ⟨w, hw, hto⟩ | hto
  · cases hto with
    | @test held phase =>
      simp only [Spared, Classical.not_forall] at hg
      obtain ⟨held', hheld, hidle, htasks, hquiet⟩ := hg
      cases phase.symm.trans hheld
      simp only [hidle]
      refine ⟨hqueued, hquiet, ?_⟩
      intro w' hw'
      by_cases hne : w' = w
      · subst hne
        refine ⟨?_, (hstay w' hw').2⟩
        cases held <;> simp [afterTickle]
      · simp only [Bool.false_eq_true, if_false, s.move_other _ hne]
        exact hstay w' hw'
    | _ => exact absurd trivial hg
  · cases hto with
    | test testing =>
      simp only [Spared, Classical.not_forall] at hg
      obtain ⟨hidle, htasks, hquiet⟩ := hg
      simp only [hidle]
      exact ⟨hqueued, hquiet, hstay⟩
    | _ => exact absurd trivial hg

end CoroutineRpc.Coroutine.Pool
