import CoroutineRpc.Coroutine.PoolSteps
import CoroutineRpc.Library.Transition

/-! When a task that is queued while every worker waits leaves a byte in the tickle pipe. The
tickle is dropped when no worker counts as idle yet, so somebody must still be awake then. -/
namespace CoroutineRpc.Coroutine.Pool
variable {ι φ κ : Type}

/-- Something will make a worker look at the queue: a byte in the pipe, a worker that is
awake, or a call of `tickle` on its way. -/
def Roused (workers : Finset Nat) (s : Pool ι φ κ) : Prop :=
  0 < s.pipe ∨ (∃ w ∈ workers, Awake (s.phase w)) ∨ ∃ caller, s.calls caller ≠ none

/-- While a task is queued and every worker waits, with no call on its way, there is a byte
in the tickle pipe. -/
def NoLostWakeup (workers : Finset Nat) (s : Pool ι φ κ) : Prop :=
  (∃ q ∈ s.tasks, q.thread = none) → (∀ w ∈ workers, s.phase w = .blocked) →
    (∀ caller, s.calls caller = none) → 0 < s.pipe

/-- A `tickle` that finds no idle worker while tasks are queued can be spared: the queue
will be looked at without it. -/
def Spared [DecidableEq ι] (workers : Finset Nat) (s : Pool ι φ κ) : PoolAction ι φ κ → Prop
  | .test caller => s.hasIdleThreads = false → s.tasks ≠ [] →
      Roused workers (s.setCall caller none)
  | .workerTest w => ∀ held, s.phase w = .tickling held → s.hasIdleThreads = false →
      s.tasks ≠ [] → Roused workers (s.move w (afterTickle held))
  | _ => True

theorem roused_of_awake {workers : Finset Nat} {s : Pool ι φ κ} {w : Nat} (hw : w ∈ workers)
    (h : Awake (s.phase w)) : Roused workers s := Or.inr (Or.inl ⟨w, hw, h⟩)

private theorem roused_of_call {workers : Finset Nat} {s : Pool ι φ κ} {caller : ι} {c : TickleCall}
    (h : s.calls caller = some c) : Roused workers s :=
  Or.inr (Or.inr ⟨caller, by simp [h]⟩)

/-- A worker that was not awake may go on: nothing relied on it. -/
theorem Roused.move {workers : Finset Nat} {s : Pool ι φ κ} (h : Roused workers s) {w : Nat}
    (hw : ¬ Awake (s.phase w)) (p : Phase φ κ) : Roused workers (s.move w p) := by
  rcases h with hpipe | ⟨w', hw', hawake⟩ | hcall
  · exact Or.inl hpipe
  · refine Or.inr (Or.inl ⟨w', hw', ?_⟩)
    have hne : w' ≠ w := fun he => hw (he ▸ hawake)
    rwa [s.move_other p hne]
  · exact Or.inr (Or.inr hcall)

/-- While tasks are queued, something will make a worker look at them. -/
def Watched (workers : Finset Nat) (s : Pool ι φ κ) : Prop := s.tasks ≠ [] → Roused workers s

/-- After a scan the worker goes on with a task or a tickle, or the queue is empty. -/
theorem scan_watched {workers : Finset Nat} (s : Pool ι φ κ) {w : Nat} (hw : w ∈ workers) :
    Watched workers (s.scan w) := by
  have htickle := scanTasks_tickleMe w s.tasks
  have hnone : (scanTasks w s.tasks).1 = none → (scanTasks w s.tasks).2.1 = s.tasks :=
    scanTasks_none
  unfold scan
  generalize scanTasks w s.tasks = r at htickle hnone ⊢
  obtain ⟨found, left, tickleMe⟩ := r
  intro htasks
  cases tickleMe with
  | true => exact roused_of_awake hw (by simp [Awake])
  | false =>
    cases found with
    | some q => exact roused_of_awake hw (by simp [afterTickle, Awake])
    | none =>
      have hleft : left = s.tasks := hnone rfl
      have hempty : left = [] := by simpa using htickle
      exact absurd (hleft.symm.trans hempty) htasks

private theorem Watched.noLostWakeup {workers : Finset Nat} {s : Pool ι φ κ}
    (h : Watched workers s) : NoLostWakeup workers s := by
  rintro ⟨q, hq, -⟩ hblocked hcalls
  rcases h (List.ne_nil_of_mem hq) with hpipe | ⟨w, hw, hawake⟩ | ⟨caller, hcall⟩
  · exact hpipe
  · rw [hblocked w hw] at hawake
    exact hawake.elim
  · exact absurd (hcalls caller) hcall

variable [DecidableEq ι]

/-- A task that is put into an empty queue brings a call of `tickle` with it. -/
theorem submit_watched {workers : Finset Nat} {s : Pool ι φ κ} {caller : ι}
    {task : Option (Task φ κ)} {thread : Option Nat} (h : Watched workers s)
    (free : s.calls caller = none) :
    Watched workers
      ((s.push task thread).setCall caller (if s.tasks.isEmpty then some .testing else none)) := by
  cases hempty : s.tasks.isEmpty with
  | true => exact fun _ => roused_of_call (setCall_same _ _ _)
  | false =>
    intro _
    have hkeep : (s.push task thread).setCall caller none = s.push task thread := by
      have hcalls : (s.push task thread).calls = s.calls := by
        unfold push
        split <;> rfl
      simp only [setCall]
      rw [Function.update_eq_self_iff.mpr (by rw [hcalls, free])]
    have hroused := h (by simpa using hempty)
    simp only [Bool.false_eq_true, if_false]
    rw [hkeep]
    unfold push
    split
    · exact hroused
    · exact hroused

variable [DecidableEq φ]

/-- A step keeps the queue watched unless it drops a `tickle` that was needed. -/
theorem step_watched {workers : Finset Nat} {s t : Pool ι φ κ} {a : PoolAction ι φ κ}
    (h : Watched workers s) (hg : Spared workers s a) (hstep : step workers s a = some t) :
    Watched workers t := by
  rcases step_to hstep with ⟨w, hw, hto⟩ | hto
  · cases hto with
    | scan phase => exact scan_watched s hw
    | test phase =>
      cases hidle : s.hasIdleThreads with
      | true => exact fun _ => roused_of_awake hw (by simp [Awake])
      | false => exact fun htasks => hg _ phase hidle htasks
    | write phase => exact fun _ => Or.inl (Nat.succ_pos _)
    | resume phase => exact fun _ => roused_of_awake hw (by simp [Awake])
    | discard phase => exact fun _ => roused_of_awake hw (by simp [Awake])
    | pause done phase => exact fun _ => roused_of_awake hw (by simp [Awake])
    | finish phase => exact fun _ => roused_of_awake hw (by simp [Awake])
    | exit phase => exact fun htasks => (h htasks).move (by simp [phase, Awake]) _
    | idle phase => exact fun htasks => (h htasks).move (by simp [phase, Awake]) .entering
    | stop phase stopping => exact fun _ => roused_of_awake hw (by simp [Awake])
    | wait phase => exact fun htasks => (h htasks).move (by simp [phase, Awake]) _
    | wake phase => exact fun _ => roused_of_awake hw (by simp [Awake])
    | drain phase => exact fun _ => roused_of_awake hw (by simp [phase, Awake])
    | yield phase => exact fun _ => roused_of_awake hw (by simp [Awake])
    | leave phase => exact fun _ => roused_of_awake hw (by simp [Awake])
  · cases hto with
    | submit task thread free => exact submit_watched h free
    | tickle free => exact fun _ => roused_of_call (setCall_same _ _ _)
    | @test caller testing =>
      cases hidle : s.hasIdleThreads with
      | true => exact fun _ => roused_of_call (setCall_same _ _ _)
      | false => exact fun htasks => hg hidle htasks
    | write writing => exact fun _ => Or.inl (Nat.succ_pos _)
    | stop => exact h

/-- In every run in which a dropped `tickle` can be spared, no wake-up is lost. -/
theorem no_lost_wakeup (workers : Finset Nat) (as : List (PoolAction ι φ κ))
    (hg : Transition.Guarded (step workers) (Spared workers) ({} : Pool ι φ κ) as) :
    Transition.Always (step workers) (NoLostWakeup workers) ({} : Pool ι φ κ) as := by
  have hwatched := Transition.always_of_guarded (fun _ _ _ h hg hst => step_watched h hg hst)
    (show Watched workers ({} : Pool ι φ κ) from fun htasks => absurd rfl htasks) hg
  exact hwatched.mono (fun _ h => h.noLostWakeup)

/-- Worker 1 waits before a task comes: its call finds an idle worker and writes a byte. -/
def waitsFirst : List (PoolAction Unit Nat Unit) :=
  [.scan 1, .idle 1, .enter 1 false, .submit () (some (.fiber 7)) none, .test (), .write ()]

theorem waiting_worker_tickled :
    Transition.Always (step {1}) (NoLostWakeup {1}) ({} : Pool Unit Nat Unit) waitsFirst ∧
      ∃ s, Transition.run (step {1}) ({} : Pool Unit Nat Unit) waitsFirst = some s ∧
        s.phase 1 = .blocked ∧ s.tasks.length = 1 ∧ s.pipe = 1 := by
  refine ⟨no_lost_wakeup {1} waitsFirst ?_, _, rfl, rfl, rfl, rfl⟩
  have htest : ∀ s : Pool Unit Nat Unit, s.idle = 1 → Spared {1} s (.test ()) := by
    intro s hidle hnone
    simp [hasIdleThreads, hidle] at hnone
  exact .cons rfl trivial (.cons rfl trivial (.cons rfl trivial (.cons rfl trivial
    (.cons rfl (htest _ rfl) (.cons rfl trivial trivial)))))

/-- Worker 1 has found the queue empty but does not count as idle yet when a task comes. -/
def scansFirst : List (PoolAction Unit Nat Unit) :=
  [.scan 1, .submit () (some (.fiber 7)) none, .test (), .idle 1, .enter 1 false]

/-- The call of `tickle` finds no idle worker, and the worker waits with the task queued. -/
theorem tickle_between_scan_and_idle_lost :
    (∃ s, Transition.run (step {1}) ({} : Pool Unit Nat Unit) scansFirst = some s ∧
      s.tasks = [⟨0, .fiber 7, none⟩] ∧ s.phase 1 = .blocked ∧ s.calls () = none ∧
      s.pipe = 0) ∧
    ¬ Transition.Always (step {1}) (NoLostWakeup {1}) ({} : Pool Unit Nat Unit) scansFirst := by
  have hlost : ∃ s, Transition.run (step {1}) ({} : Pool Unit Nat Unit) scansFirst = some s ∧
      s.tasks = [⟨0, .fiber 7, none⟩] ∧ s.phase 1 = .blocked ∧ s.calls () = none ∧ s.pipe = 0 :=
    ⟨_, rfl, rfl, rfl, rfl, rfl⟩
  refine ⟨hlost, ?_⟩
  intro halways
  obtain ⟨s, hrun, htasks, hphase, hcalls, hpipe⟩ := hlost
  have hbyte := halways.finish hrun ⟨_, htasks ▸ List.mem_cons_self, rfl⟩
    (fun w hw => Finset.mem_singleton.mp hw ▸ hphase) (fun _ => hcalls)
  omega

end CoroutineRpc.Coroutine.Pool
