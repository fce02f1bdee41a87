import CoroutineRpc.Library.Simulation

/-! The counting semaphore: what goes out has come in before. -/
namespace CoroutineRpc.Counting

inductive Action where
  | post
  | take
  deriving DecidableEq, Repr

/-- Taking waits until there is something. -/
def step (n : Nat) : Action → Option Nat
  | .post => some (n + 1)
  | .take => if n = 0 then none else some (n - 1)

/-- Posts and takes of a run balance. -/
theorem run_balance {n m : Nat} {as : List Action} (h : Transition.run step n as = some m) :
    m + as.count .take = n + as.count .post := by
  induction as generalizing n with
  | nil =>
    obtain rfl := Option.some.inj h
    rfl
  | cons a as ih =>
    obtain ⟨mid, hstep, hrest⟩ := Option.bind_eq_some_iff.mp h
    have hmid := ih hrest
    cases a with
    | post =>
      cases hstep
      rw [List.count_cons_self, List.count_cons_of_ne (by decide)]
      omega
    | take =>
      obtain ⟨hne, hmid'⟩ := Option.ite_none_left_eq_some.mp hstep
      cases hmid'
      rw [List.count_cons_self, List.count_cons_of_ne (by decide)]
      omega

end CoroutineRpc.Counting
