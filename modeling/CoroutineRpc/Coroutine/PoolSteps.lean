import CoroutineRpc.Coroutine.Pool

/-! What a scan of the queue takes and leaves, and what each step of the pool can do. -/
namespace CoroutineRpc.Coroutine
variable {ι φ κ : Type}

theorem scanTasks_tickleMe (me : Nat) (qs : List (Queued φ κ)) :
    (scanTasks me qs).2.2 = !(scanTasks me qs).2.1.isEmpty := by
  induction qs with
  | nil => rfl
  | cons q qs ih =>
    rw [scanTasks]
    split <;> rfl

theorem scanTasks_none {me : Nat} {qs : List (Queued φ κ)}
    (h : (scanTasks me qs).1 = none) : (scanTasks me qs).2.1 = qs := by
  induction qs with
  | nil => rfl
  | cons q qs ih =>
    rw [scanTasks] at h ⊢
    split at h
    · next hskip =>
      rw [if_pos hskip]
      exact congrArg (q :: ·) (ih h)
    · cases h

/-- What a successful scan takes: the first task that is not skipped. -/
theorem scanTasks_some {me : Nat} {qs : List (Queued φ κ)} {q : Queued φ κ}
    (h : (scanTasks me qs).1 = some q) :
    ∃ before after, qs = before ++ q :: after ∧ (scanTasks me qs).2.1 = before ++ after ∧
      q.skipped me = false ∧ ∀ p ∈ before, p.skipped me = true := by
  induction qs with
  | nil => cases h
  | cons p qs ih =>
    rw [scanTasks] at h ⊢
    split at h
    · next hskip =>
      obtain ⟨before, after, hqs, hleft, hq, hbefore⟩ := ih h
      rw [if_pos hskip]
      refine ⟨p :: before, after, ?_, ?_, hq, List.forall_mem_cons.mpr ⟨hskip, hbefore⟩⟩
      · rw [hqs]
        rfl
      · exact congrArg (p :: ·) hleft
    · next hskip =>
      rw [if_neg hskip]
      cases h
      exact ⟨[], qs, rfl, rfl, by simpa using hskip, fun p hp => absurd hp List.not_mem_nil⟩

namespace Pool

section Callers
variable [DecidableEq ι]

/-- The enabled steps of a caller with the states they lead to. -/
inductive CallerTo (s : Pool ι φ κ) : PoolAction ι φ κ → Pool ι φ κ → Prop where
  | submit {caller} (task : Option (Task φ κ)) (thread : Option Nat)
      (free : s.calls caller = none) :
      CallerTo s (.submit caller task thread)
        ((s.push task thread).setCall caller (if s.tasks.isEmpty then some .testing else none))
  | tickle {caller} (free : s.calls caller = none) :
      CallerTo s (.callTickle caller) (s.setCall caller (some .testing))
  | test {caller} (testing : s.calls caller = some .testing) :
      CallerTo s (.test caller)
        (s.setCall caller (if s.hasIdleThreads then some .writing else none))
  | write {caller} (writing : s.calls caller = some .writing) :
      CallerTo s (.write caller) { s.setCall caller none with pipe := s.pipe + 1 }
  | stop : CallerTo s .stop { s with stopping := true }

private theorem callerStep_to {s t : Pool ι φ κ} {a : PoolAction ι φ κ}
    (h : s.callerStep a = some t) : CallerTo s a t := by
  unfold callerStep at h
  split at h
  case h_1 caller task thread =>
    split at h <;> cases h
    next hfree => exact .submit task thread hfree
  case h_2 caller =>
    split at h <;> cases h
    next hfree => exact .tickle hfree
  case h_3 caller =>
    split at h <;> cases h
    next htesting => exact .test htesting
  case h_4 caller =>
    split at h <;> cases h
    next hwriting => exact .write hwriting
  case h_5 =>
    cases h
    exact .stop
  case h_6 => cases h

end Callers

section Workers
variable [DecidableEq φ]

/-- The enabled steps of a worker with the states they lead to. -/
inductive WorkerTo (s : Pool ι φ κ) (w : Nat) : PoolAction ι φ κ → Pool ι φ κ → Prop where
  | scan (phase : s.phase w = .scanning) : WorkerTo s w (.scan w) (s.scan w)
  | test {held} (phase : s.phase w = .tickling held) :
      WorkerTo s w (.workerTest w)
        (s.move w (if s.hasIdleThreads then .writing held else afterTickle held))
  | write {held} (phase : s.phase w = .writing held) :
      WorkerTo s w (.workerWrite w) { s.move w (afterTickle held) with pipe := s.pipe + 1 }
  | resume {q f} (phase : s.phase w = .starting q) (runs : runsOn q.task f = true)
      (free : s.fiberLock f = none) (ready : s.fiberState f = .ready) :
      WorkerTo s w (.start w f) { s.move w (.executing q f) with
        fiberState := Function.update s.fiberState f .running,
        fiberLock := Function.update s.fiberLock f (some w) }
  | discard {q f} (phase : s.phase w = .starting q) (fiber : q.task = .fiber f)
      (term : s.fiberState f = .term) :
      WorkerTo s w (.start w f) (s.move w (.finishing q false))
  | pause {q f} (done : Bool) (phase : s.phase w = .executing q f) :
      WorkerTo s w (.pause w done) { s.move w (.finishing q true) with
        fiberState := Function.update s.fiberState f (if done then .term else .ready),
        fiberLock := Function.update s.fiberLock f none }
  | finish {q resumed} (phase : s.phase w = .finishing q resumed) :
      WorkerTo s w (.finish w) { s.move w .scanning with
        active := s.active - 1, finished := ⟨q, w, resumed⟩ :: s.finished }
  | exit (phase : s.phase w = .noTask) : WorkerTo s w (.idle w) (s.move w .exited)
  | idle (phase : s.phase w = .noTask) :
      WorkerTo s w (.idle w) { s.move w .entering with idle := s.idle + 1 }
  | stop {drained} (phase : s.phase w = .entering) (stopping : s.isStopping = true) :
      WorkerTo s w (.enter w drained)
        { s.move w .leaving with idleTerm := Function.update s.idleTerm w true }
  | wait {drained} (phase : s.phase w = .entering) :
      WorkerTo s w (.enter w drained) (s.move w .blocked)
  | wake (phase : s.phase w = .blocked) : WorkerTo s w (.wake w) (s.move w .woken)
  | drain (phase : s.phase w = .woken) : WorkerTo s w (.drain w) { s with pipe := 0 }
  | yield (phase : s.phase w = .woken) : WorkerTo s w (.yield w) (s.move w .leaving)
  | leave (phase : s.phase w = .leaving) :
      WorkerTo s w (.leave w) { s.move w .scanning with idle := s.idle - 1 }

private theorem startOn_to {s t : Pool ι φ κ} {w : Nat} {q : Queued φ κ} {f : φ}
    (phase : s.phase w = .starting q) (h : s.startOn w q f = some t) :
    WorkerTo s w (.start w f) t := by
  unfold startOn at h
  split at h
  · next hguard =>
    split at h
    · next hready =>
      cases h
      exact .resume phase hguard.1 hguard.2 hready
    · next g hterm htask =>
      cases h
      have hfiber : q.task = .fiber f := by
        have hruns := hguard.1
        rw [htask] at hruns ⊢
        simpa [runsOn] using hruns
      exact .discard phase hfiber hterm
    · cases h
  · cases h

private theorem workerStep_to {s t : Pool ι φ κ} {w : Nat} {a : PoolAction ι φ κ}
    (hw : worker a = some w) (h : s.workerStep a (s.phase w) = some t) : WorkerTo s w a t := by
  generalize hphase : s.phase w = phase at h
  unfold workerStep at h
  split at h
  case h_1 =>
    cases hw
    cases h
    exact .scan hphase
  case h_2 =>
    cases hw
    cases h
    exact .test hphase
  case h_3 =>
    cases hw
    cases h
    exact .write hphase
  case h_4 =>
    cases hw
    exact startOn_to hphase h
  case h_5 =>
    cases hw
    cases h
    exact .pause _ hphase
  case h_6 =>
    cases hw
    cases h
    exact .finish hphase
  case h_7 =>
    cases hw
    split at h <;> cases h
    · exact .exit hphase
    · exact .idle hphase
  case h_8 =>
    cases hw
    split at h <;> cases h
    · next hstop => exact .stop hphase (by simpa using (Bool.and_eq_true_iff.mp hstop).2)
    · exact .wait hphase
  case h_9 =>
    cases hw
    cases h
    exact .wake hphase
  case h_10 =>
    cases hw
    cases h
    exact .drain hphase
  case h_11 =>
    cases hw
    cases h
    exact .yield hphase
  case h_12 =>
    cases hw
    cases h
    exact .leave hphase
  case h_13 => cases h

end Workers

/-- A step is one of a worker of the pool or one of a caller. -/
theorem step_to [DecidableEq ι] [DecidableEq φ] {workers : Finset Nat} {s t : Pool ι φ κ}
    {a : PoolAction ι φ κ} (h : step workers s a = some t) :
    (∃ w ∈ workers, WorkerTo s w a t) ∨ CallerTo s a t := by
  unfold step at h
  split at h
  · next w hw =>
    split at h
    · next hmem => exact Or.inl ⟨w, hmem, workerStep_to hw h⟩
    · cases h
  · exact Or.inr (callerStep_to h)

end Pool
end CoroutineRpc.Coroutine
