import CoroutineRpc.Coroutine.FiberUse
import CoroutineRpc.Library.Transition

/-! No task is lost or run twice: every accepted task is queued, held by one worker or
finished, unpinned tasks are taken in order, and a pool that may stop holds none. -/
namespace CoroutineRpc.Coroutine.Pool
variable {ι φ κ : Type}

/-- Every task is in one place, runs where it may, in order, and is discarded only for a
finished fiber; the counter is exact, and a pool that may stop has no task left. -/
structure Conserved (workers : Finset Nat) (s : Pool ι φ κ) : Prop where
  accounts : Accounts workers s
  fibers : Fibers workers s
  stopping : s.isStopping = true → s.tasks = [] ∧ ∀ w ∈ workers, (s.phase w).held = none

/-- At the start nothing is accepted, held or finished. -/
theorem conserved_start (workers : Finset Nat) : Conserved workers ({} : Pool ι φ κ) := by
  have haccounts : Accounts workers ({} : Pool ι φ κ) := by
    refine ⟨?_, ?_, ?_, ?_, ?_, ?_⟩
    · intro n
      simp [holders]
    · intro w _ q hq
      cases hq
    · exact fun r hr => absurd hr List.not_mem_nil
    · exact List.Pairwise.nil
    · exact fun n hn => absurd hn List.not_mem_nil
    · simp [busy]
  refine ⟨haccounts, ⟨?_, ?_, ?_⟩, haccounts.stopping⟩
  · intro w _ q f hphase
    cases hphase
  · intro w _ q hphase
    cases hphase
  · exact fun r hr => absurd hr List.not_mem_nil

section Steps
variable [DecidableEq ι] [DecidableEq φ]

private theorem step_conserved {workers : Finset Nat} {s t : Pool ι φ κ} {a : PoolAction ι φ κ}
    (h : Conserved workers s) (hstep : step workers s a = some t) : Conserved workers t :=
  ⟨step_accounts h.accounts hstep, step_fibers h.fibers hstep,
    (step_accounts h.accounts hstep).stopping⟩

/-- In every run of any workers and any callers, no task is lost, duplicated, run by the
wrong worker or out of order, and the counter of active threads is exact. -/
theorem always_conserved (workers : Finset Nat) (as : List (PoolAction ι φ κ)) :
    Transition.Always (step workers) (Conserved workers) ({} : Pool ι φ κ) as :=
  Transition.always_of_step (fun _ _ _ h hstep => step_conserved h hstep) (conserved_start workers) as

end Steps

end CoroutineRpc.Coroutine.Pool
