import CoroutineRpc.Coroutine.TimedOut

/-! What hooked I/O transfers. A call of `do_io` may try many times, with waits between; none of
what its attempts transfer is lost, and none is transferred for a caller that is told otherwise. -/
namespace CoroutineRpc.Coroutine
variable {φ κ : Type}

/-- A result that is no failure. -/
def IoResult.success (r : IoResult) : List IoResult := if r.n = -1 then [] else [r]

/-- What the system transfers in a statement of a call. -/
def IoOp.transferred : IoOp → List IoResult
  | .attempt r => r.success
  | _ => []

/-- What the statement hands to the caller, of what is pending. -/
def IoOp.handed (pending : List IoResult) : IoOp → List IoResult
  | .leave => pending
  | _ => []

/-- The result that a call is about to hand to its caller. -/
def Pc.pending : Pc → List IoResult
  | .returned r => r.success
  | _ => []

namespace Hooked

def pending (s : Hooked φ κ) (f : φ) : List IoResult :=
  match s.call f with
  | some c => c.pc.pending
  | none => []

variable [DecidableEq φ]

/-- What the system transfers for a fiber in a step. -/
def transferred (s : Hooked φ κ) (f : φ) : HookAction φ κ → List IoResult
  | .io w op => if (s.duty w).fiber = some f then op.transferred else []
  | _ => []

/-- What a fiber gets from a call that returns to it. -/
def handed (s : Hooked φ κ) (f : φ) : HookAction φ κ → List IoResult
  | .io w op => if (s.duty w).fiber = some f then op.handed (s.pending f) else []
  | _ => []

end Hooked

/-- A record of what the system has transferred for each fiber and of what its calls have returned
to it, the last one first. -/
structure Transfers (φ κ : Type) where
  hooked : Hooked φ κ := {}
  transferred : φ → List IoResult := fun _ => []
  returned : φ → List IoResult := fun _ => []

namespace Transfers
variable [DecidableEq φ]

def step (workers : Finset Nat) (x : Transfers φ κ) (a : HookAction φ κ) :
    Option (Transfers φ κ) :=
  (x.hooked.step workers a).map (fun t =>
    { hooked := t
      transferred := fun f => x.hooked.transferred f a ++ x.transferred f
      returned := fun f => x.hooked.handed f a ++ x.returned f })

/-- What was transferred for a fiber has been returned to it, up to the call that it is in. -/
def Delivered (x : Transfers φ κ) : Prop :=
  ∀ f, x.transferred f = x.hooked.pending f ++ x.returned f

end Transfers

namespace Hooked
variable {s t : Hooked φ κ}

private theorem pending_of_call (h : t.call = s.call) (f : φ) : t.pending f = s.pending f := by
  rw [pending, pending, h]

private theorem workerStep_call {w : Nat} {a : HookAction φ κ} {d : Duty φ κ}
    (h : s.workerStep w a d = some t) : t.call = s.call := by
  unfold workerStep at h
  split at h
  case h_1 =>
    obtain ⟨q, -, rfl⟩ := Option.map_eq_some_iff.mp h
    rfl
  case h_2 =>
    split at h
    · cases h
      rfl
    · cases h
      rfl
  case h_3 =>
    split at h
    · cases h
      rfl
    · cases h
      rfl
  case h_4 =>
    cases h
    rfl
  case h_5 =>
    obtain ⟨r, -, rfl⟩ := Option.map_eq_some_iff.mp h
    rfl
  case h_6 =>
    obtain ⟨-, he⟩ := Option.ite_none_right_eq_some.mp h
    cases he
    rfl
  case h_7 =>
    obtain ⟨r, -, rfl⟩ := Option.map_eq_some_iff.mp h
    rfl
  case h_8 =>
    split at h
    · cases h
      rfl
    · cases h
      rfl
  case h_9 =>
    obtain ⟨m, -, rfl⟩ := Option.map_eq_some_iff.mp h
    rfl
  case h_10 =>
    cases h
    rfl
  case h_11 => cases h

section Fibers
variable [DecidableEq φ]

private theorem otherStep_call {a : HookAction φ κ} (h : s.otherStep a = some t) :
    t.call = s.call := by
  unfold otherStep at h
  split at h
  case h_1 | h_2 | h_3 | h_5 | h_8 =>
    cases h
    rfl
  case h_4 =>
    obtain ⟨-, hadd⟩ := Option.ite_none_right_eq_some.mp h
    obtain ⟨r, -, rfl⟩ := Option.map_eq_some_iff.mp hadd
    rfl
  case h_6 | h_7 =>
    obtain ⟨r, -, rfl⟩ := Option.map_eq_some_iff.mp h
    rfl
  case h_9 => cases h

/-- The calls after a step that concerns one of them. -/
theorem pending_update {g : φ} {c : Option DoIo} (h : t.call = Function.update s.call g c) (f : φ) :
    t.pending f = if f = g then (c.map (fun c => c.pc.pending)).getD [] else s.pending f := by
  rw [pending, h]
  rcases eq_or_ne f g with rfl | hne
  · rw [if_pos rfl, Function.update_self]
    cases c <;> rfl
  · rw [if_neg hne, Function.update_of_ne hne]
    rfl

omit [DecidableEq φ] in
private theorem pending_some {f : φ} {c : DoIo} (h : s.call f = some c) :
    s.pending f = c.pc.pending := by
  rw [pending, h]

/-- Waking up returns nothing. -/
theorem pending_resume (s : Hooked φ κ) (w : Nat) (g f : φ) :
    (s.resume w g).pending f = s.pending f := by
  rw [pending_update (s := s) rfl f]
  split
  · next heq =>
    subst heq
    cases hc : s.call f with
    | none =>
      rw [pending, hc]
      rfl
    | some c =>
      rw [pending_some hc]
      change c.resumed.pc.pending = c.pc.pending
      unfold DoIo.resumed
      split
      · next timer hpc =>
        rw [hpc]
        rfl
      · rfl
  · rfl

private theorem start_pending {w : Nat} {g : φ} {task : Task φ (HookCallback κ)}
    (h : s.start w g task = some t) (f : φ) : t.pending f = s.pending f := by
  unfold start at h
  split at h
  · split at h
    · split at h
      · cases h
        exact pending_resume s w g f
      · cases h
        exact pending_of_call rfl f
      · cases h
    · cases h
  · split at h
    · cases h
      exact pending_resume s w g f
    · cases h
  · cases h

/-- A statement moves results of its own fiber: what it transfers is pending behind it, and what was
pending is handed over or still pending. -/
structure Moves (s t : Hooked φ κ) (g : φ) (op : IoOp) : Prop where
  others : ∀ f, f ≠ g → t.pending f = s.pending f
  self : op.transferred ++ s.pending g = t.pending g ++ op.handed (s.pending g)

/-- A call that goes on at `pc`, after a statement that hands nothing over. -/
theorem Moves.goes {g : φ} {c c' : DoIo} {pc : Pc} {op : IoOp} (hc : s.call g = some c)
    (ht : t.call = Function.update s.call g (some { c' with pc := pc }))
    (hbefore : c.pc.pending = []) (hpc : pc.pending = op.transferred)
    (hop : ∀ l, op.handed l = []) : Moves s t g op := by
  refine ⟨fun f hne => ?_, ?_⟩
  · rw [pending_update ht f, if_neg hne]
  · have hself : t.pending g = pc.pending := by
      rw [pending_update ht g, if_pos rfl]
      rfl
    rw [hself, hpc, pending_some hc, hbefore, hop]

private theorem pending_failure {r : IoResult} (h : r.n = -1) : r.success = [] := if_pos h

private theorem ioStep_moves {w : Nat} {g : φ} {c : DoIo} {op : IoOp} (hc : s.call g = some c)
    (h : s.ioStep w g c op c.pc = some t) : Moves s t g op := by
  generalize hpc : c.pc = pc at h
  unfold ioStep at h
  split at h
  case h_1 r =>
    cases h
    exact .goes hc rfl (by rw [hpc]; rfl) rfl (fun _ => rfl)
  case h_2 r =>
    have hbefore : c.pc.pending = [] := by rw [hpc]; rfl
    split at h
    · next hfailed =>
      cases h
      refine ⟨fun _ _ => rfl, ?_⟩
      rw [pending_some hc, hbefore]
      exact congrArg (· ++ []) (pending_failure hfailed.1)
    split at h
    · next hfailed =>
      cases h
      exact .goes hc rfl hbefore (pending_failure hfailed.1).symm (fun _ => rfl)
    · cases h
      exact .goes hc rfl hbefore rfl (fun _ => rfl)
  case h_3 now =>
    have hbefore : c.pc.pending = [] := by rw [hpc]; rfl
    split at h
    · cases h
      exact .goes hc rfl hbefore rfl (fun _ => rfl)
    · next ms _ =>
      cases h
      exact .goes hc rfl hbefore rfl (fun _ => rfl)
  case h_4 ok timer =>
    obtain ⟨⟨rt, m⟩, -, rfl⟩ := Option.map_eq_some_iff.mp h
    refine .goes hc rfl (by rw [hpc]; rfl) ?_ (fun _ => rfl)
    split
    · rfl
    · rfl
  case h_5 errno timer =>
    cases h
    cases timer with
    | none => exact .goes hc rfl (by rw [hpc]; rfl) (pending_failure rfl) (fun _ => rfl)
    | some timer => exact .goes hc rfl (by rw [hpc]; rfl) (pending_failure rfl) (fun _ => rfl)
  case h_6 timer =>
    cases h
    exact .goes hc rfl (by rw [hpc]; rfl) rfl (fun _ => rfl)
  case h_7 timer =>
    cases h
    cases timer with
    | none => exact .goes hc rfl (by rw [hpc]; rfl) rfl (fun _ => rfl)
    | some timer => exact .goes hc rfl (by rw [hpc]; rfl) rfl (fun _ => rfl)
  case h_8 =>
    have hbefore : c.pc.pending = [] := by rw [hpc]; rfl
    split at h
    · cases h
      exact .goes hc rfl hbefore (pending_failure rfl) (fun _ => rfl)
    · cases h
      exact .goes hc rfl hbefore rfl (fun _ => rfl)
  case h_9 =>
    cases h
    have hleft : ∀ f, (s.setCall g none).pending f = if f = g then [] else s.pending f :=
      fun f => pending_update (c := none) rfl f
    refine ⟨fun f hne => ?_, ?_⟩
    · rw [hleft, if_neg hne]
    · rw [hleft, if_pos rfl]
      rfl
  case h_10 => cases h

/-- The calls that are entered have transferred nothing. -/
theorem enterCall_pending {g : φ} {fd : Nat} {e : Event} {timeoutSo : SockOpt} {hookEnable : Bool}
    {ctx : Option FdCtx} (hc : s.call g = none) (f : φ) :
    (s.enterCall g fd e (DoIo.enter hookEnable ctx timeoutSo)).pending f = s.pending f := by
  rw [pending_update (s := s) rfl f]
  split
  · next heq =>
    subst heq
    have hnone : s.pending f = [] := by rw [pending, hc]
    have hentry : (DoIo.enter hookEnable ctx timeoutSo).1.pending = [] := by
      unfold DoIo.enter
      split
      · rfl
      · split
        · rfl
        · split
          · exact pending_failure rfl
          · split
            · rfl
            · rfl
    rw [hnone]
    exact hentry
  · rfl

/-- Only the statements of `do_io` transfer and hand over. -/
theorem quiet_of_ne {a : HookAction φ κ} (ha : ∀ w op, a ≠ .io w op) (s : Hooked φ κ) (f : φ) :
    s.transferred f a = [] ∧ s.handed f a = [] := by
  cases a with
  | io w op => exact absurd rfl (ha w op)
  | _ => exact ⟨rfl, rfl⟩

/-- In each step what is transferred for a fiber comes to what is pending for it, and what is handed
over is taken from there. -/
theorem step_balance {workers : Finset Nat} {a : HookAction φ κ} (h : s.step workers a = some t)
    (f : φ) : s.transferred f a ++ s.pending f = t.pending f ++ s.handed f a := by
  have hquiet : (∀ w op, a ≠ .io w op) → t.pending f = s.pending f →
      s.transferred f a ++ s.pending f = t.pending f ++ s.handed f a := by
    intro ha hpending
    obtain ⟨htransferred, hhanded⟩ := quiet_of_ne ha s f
    rw [htransferred, hhanded, hpending, List.append_nil]
    rfl
  unfold step at h
  split at h
  · next w hworker =>
    obtain ⟨-, hfiber⟩ := Option.ite_none_right_eq_some.mp h
    generalize hduty : s.duty w = d at hfiber
    unfold fiberStep at hfiber
    split at hfiber
    · exact hquiet (fun _ _ he => by cases he) (start_pending hfiber f)
    · obtain ⟨hnone, he⟩ := Option.ite_none_right_eq_some.mp hfiber
      cases he
      exact hquiet (fun _ _ he => by cases he) (enterCall_pending hnone f)
    · next op g =>
      obtain ⟨c, hc, hio⟩ := Option.bind_eq_some_iff.mp hfiber
      have hmoves := ioStep_moves hc hio
      cases hworker
      rw [transferred, handed, hduty]
      rcases eq_or_ne f g with rfl | hne
      · have hself : (Duty.executing f : Duty φ κ).fiber = some f := rfl
        rw [if_pos hself, if_pos hself]
        exact hmoves.self
      · have hother : ¬ (Duty.executing g : Duty φ κ).fiber = some f :=
          fun he => hne (Option.some.inj he).symm
        rw [if_neg hother, if_neg hother, hmoves.others f hne, List.append_nil]
        rfl
    · obtain ⟨-, he⟩ := Option.ite_none_right_eq_some.mp hfiber
      cases he
      exact hquiet (fun _ _ he => by cases he) rfl
    · refine hquiet ?_ (pending_of_call (workerStep_call hfiber) f)
      rintro w' op rfl
      cases hfiber
  · next hworker =>
    refine hquiet ?_ (pending_of_call (otherStep_call h) f)
    rintro w' op rfl
    cases hworker

end Fibers
end Hooked

namespace Transfers
variable [DecidableEq φ]

private theorem step_delivered {workers : Finset Nat} {x y : Transfers φ κ} {a : HookAction φ κ}
    (h : x.Delivered) (hstep : step workers x a = some y) : y.Delivered := by
  obtain ⟨t, ht, rfl⟩ := Option.map_eq_some_iff.mp hstep
  intro f
  have hbalance := Hooked.step_balance ht f
  change x.hooked.transferred f a ++ x.transferred f =
    t.pending f ++ (x.hooked.handed f a ++ x.returned f)
  rw [h f, ← List.append_assoc, hbalance, List.append_assoc]

/-- Whatever is tried, interrupted, timed out, closed and woken: the calls of every fiber return
exactly what the system has transferred for it, each result once and in order. -/
theorem always_delivered (workers : Finset Nat) (as : List (HookAction φ κ)) :
    Transition.Always (step workers) Delivered ({} : Transfers φ κ) as :=
  Transition.always_of_step (fun _ _ _ h hstep => step_delivered h hstep) (fun _ => rfl) as

end Transfers
end CoroutineRpc.Coroutine
