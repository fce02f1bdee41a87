import CoroutineRpc.Coroutine.Accounts

/-! The fibers that workers have to do with: a worker that executes holds the mutex of its
fiber, and a task is discarded only when its fiber has finished. -/
namespace CoroutineRpc.Coroutine.Pool
variable {ι φ κ : Type}

/-- The states of the fibers that workers have to do with. -/
structure Fibers (workers : Finset Nat) (s : Pool ι φ κ) : Prop where
  executing : ∀ w ∈ workers, ∀ q f, s.phase w = .executing q f →
    s.fiberLock f = some w ∧ s.fiberState f = .running
  discarding : ∀ w ∈ workers, ∀ q, s.phase w = .finishing q false →
    ∃ f, q.task = .fiber f ∧ s.fiberState f = .term
  discarded : ∀ r ∈ s.finished, r.resumed = false →
    ∃ f, r.q.task = .fiber f ∧ s.fiberState f = .term

/-- Another state of the pool with the same fibers and the same tasks under execution. -/
theorem Fibers.congr {workers : Finset Nat} {s t : Pool ι φ κ} (h : Fibers workers s)
    (hstate : t.fiberState = s.fiberState) (hlock : t.fiberLock = s.fiberLock)
    (hfinished : t.finished = s.finished)
    (hexecuting : ∀ w ∈ workers, ∀ q f, t.phase w = .executing q f → s.phase w = .executing q f)
    (hdiscarding : ∀ w ∈ workers, ∀ q, t.phase w = .finishing q false →
      s.phase w = .finishing q false) : Fibers workers t := by
  refine ⟨?_, ?_, ?_⟩
  · intro w hw q f hphase
    rw [hstate, hlock]
    exact h.executing w hw q f (hexecuting w hw q f hphase)
  · intro w hw q hphase
    rw [hstate]
    exact h.discarding w hw q (hdiscarding w hw q hphase)
  · rw [hstate, hfinished]
    exact h.discarded

/-- A worker that goes on to a phase in which it has to do with no fiber. -/
theorem Fibers.move {workers : Finset Nat} {s : Pool ι φ κ} (h : Fibers workers s) {w : Nat}
    {p : Phase φ κ} (hp : ¬ p.OnFiber) : Fibers workers (s.move w p) := by
  refine h.congr rfl rfl rfl ?_ ?_
  · intro w' _ q f hphase
    rcases s.move_cases hphase with ⟨-, rfl⟩ | ⟨-, hold⟩
    · exact absurd trivial hp
    · exact hold
  · intro w' _ q hphase
    rcases s.move_cases hphase with ⟨-, rfl⟩ | ⟨-, hold⟩
    · exact absurd trivial hp
    · exact hold

/-- A worker that discards its task: the fiber of the task has finished. -/
theorem Fibers.discard {workers : Finset Nat} {s : Pool ι φ κ} (h : Fibers workers s) {w : Nat}
    {q : Queued φ κ} {f : φ} (hfiber : q.task = .fiber f) (hterm : s.fiberState f = .term) :
    Fibers workers (s.move w (.finishing q false)) := by
  refine ⟨?_, ?_, h.discarded⟩
  · intro w' hw' q' f' hphase
    rcases s.move_cases hphase with ⟨-, hself⟩ | ⟨-, hold⟩
    · cases hself
    · exact h.executing w' hw' q' f' hold
  · intro w' hw' q' hphase
    rcases s.move_cases hphase with ⟨-, hself⟩ | ⟨-, hold⟩
    · cases hself
      exact ⟨f, hfiber, hterm⟩
    · exact h.discarding w' hw' q' hold

theorem Fibers.finish {workers : Finset Nat} {s : Pool ι φ κ} (h : Fibers workers s) {w : Nat}
    (hw : w ∈ workers) {q : Queued φ κ} {resumed : Bool} (phase : s.phase w = .finishing q resumed) :
    Fibers workers { s.move w .scanning with
      active := s.active - 1, finished := ⟨q, w, resumed⟩ :: s.finished } := by
  have hmove : Fibers workers (s.move w .scanning) := h.move id
  refine ⟨hmove.executing, hmove.discarding, List.forall_mem_cons.mpr ⟨?_, h.discarded⟩⟩
  intro hresumed
  obtain rfl : resumed = false := hresumed
  exact h.discarding w hw q phase

theorem Fibers.push {workers : Finset Nat} {s : Pool ι φ κ} (h : Fibers workers s)
    (task : Option (Task φ κ)) (thread : Option Nat) : Fibers workers (s.push task thread) := by
  cases task with
  | none => exact h
  | some task => exact h.congr rfl rfl rfl (fun _ _ _ _ h => h) (fun _ _ _ h => h)

section Fibers
variable [DecidableEq φ]

/-- A change of a fiber that had not finished leaves the finished ones as they are. -/
theorem update_term {s : Pool ι φ κ} {f g : φ} {st : FiberState} (hf : s.fiberState f ≠ .term)
    (hg : s.fiberState g = .term) : Function.update s.fiberState f st g = .term := by
  have hne : g ≠ f := fun he => hf (he ▸ hg)
  rw [Function.update_of_ne hne, hg]

/-- A worker goes on, and a fiber that had not finished and on which no other worker executes
gets a new state and a new owner. -/
theorem Fibers.put {workers : Finset Nat} {s : Pool ι φ κ} (h : Fibers workers s) {w : Nat}
    {p : Phase φ κ} {f : φ} {st : FiberState} {owner : Option Nat}
    (hterm : s.fiberState f ≠ .term) (hp : ∀ q, p ≠ .finishing q false)
    (hself : ∀ q g, p = .executing q g → g = f ∧ owner = some w ∧ st = .running)
    (hother : ∀ w' ∈ workers, w' ≠ w → ∀ q g, s.phase w' = .executing q g → g ≠ f) :
    Fibers workers { s.move w p with
      fiberState := Function.update s.fiberState f st,
      fiberLock := Function.update s.fiberLock f owner } := by
  refine ⟨?_, ?_, ?_⟩
  · intro w' hw' q g hphase
    rcases s.move_cases hphase with ⟨rfl, hmoved⟩ | ⟨hne, hold⟩
    · obtain ⟨rfl, rfl, rfl⟩ := hself q g hmoved
      exact ⟨Function.update_self _ _ _, Function.update_self _ _ _⟩
    · have hg := hother w' hw' hne q g hold
      obtain ⟨hlock, hrunning⟩ := h.executing w' hw' q g hold
      exact ⟨(Function.update_of_ne hg _ _).trans hlock,
        (Function.update_of_ne hg _ _).trans hrunning⟩
  · intro w' hw' q hphase
    rcases s.move_cases hphase with ⟨-, hmoved⟩ | ⟨-, hold⟩
    · exact absurd hmoved (hp q)
    · obtain ⟨g, hg, hgterm⟩ := h.discarding w' hw' q hold
      exact ⟨g, hg, update_term hterm hgterm⟩
  · intro r hr hresumed
    obtain ⟨g, hg, hgterm⟩ := h.discarded r hr hresumed
    exact ⟨g, hg, update_term hterm hgterm⟩

/-- The fiber's mutex was free, so no other worker executes on it. -/
theorem Fibers.resume {workers : Finset Nat} {s : Pool ι φ κ} (h : Fibers workers s) {w : Nat}
    {q : Queued φ κ} {f : φ} (hfree : s.fiberLock f = none) (hready : s.fiberState f = .ready) :
    Fibers workers { s.move w (.executing q f) with
      fiberState := Function.update s.fiberState f .running,
      fiberLock := Function.update s.fiberLock f (some w) } := by
  apply h.put
  · rw [hready]
    exact FiberState.noConfusion
  · rintro q' ⟨⟩
  · rintro q' g ⟨⟩
    exact ⟨rfl, rfl, rfl⟩
  · rintro w' hw' - q' g hphase rfl
    cases hfree.symm.trans (h.executing w' hw' q' g hphase).1

/-- The worker that pauses held the fiber's mutex, so no other worker executes on it. -/
theorem Fibers.pause {workers : Finset Nat} {s : Pool ι φ κ} (h : Fibers workers s) {w : Nat}
    (hw : w ∈ workers) {q : Queued φ κ} {f : φ} (phase : s.phase w = .executing q f) (done : Bool) :
    Fibers workers { s.move w (.finishing q true) with
      fiberState := Function.update s.fiberState f (if done then .term else .ready),
      fiberLock := Function.update s.fiberLock f none } := by
  obtain ⟨hmine, hrunning⟩ := h.executing w hw q f phase
  apply h.put
  · rw [hrunning]
    exact FiberState.noConfusion
  · rintro q' ⟨⟩
  · rintro q' g ⟨⟩
  · rintro w' hw' hne q' g hphase rfl
    have hlock := (h.executing w' hw' q' g hphase).1
    exact hne (Option.some.inj (hlock.symm.trans hmine))

end Fibers

section Steps
variable [DecidableEq ι] [DecidableEq φ]

theorem step_fibers {workers : Finset Nat} {s t : Pool ι φ κ} {a : PoolAction ι φ κ}
    (h : Fibers workers s) (hstep : step workers s a = some t) : Fibers workers t := by
  rcases step_to hstep with ⟨w, hw, hto⟩ | hto
  · cases hto with
    | scan phase =>
      rcases scan_cases s w with ⟨p, -, hp, heq⟩ | ⟨q, before, after, p, -, -, -, -, hp, heq⟩
      · rw [heq]
        exact h.move hp
      · rw [heq]
        exact (h.move hp).congr rfl rfl rfl (fun _ _ _ _ h => h) (fun _ _ _ h => h)
    | @test held phase =>
      apply h.move
      split
      · exact id
      · exact afterTickle_onFiber held
    | @write held phase =>
      exact (h.move (afterTickle_onFiber held)).congr rfl rfl rfl (fun _ _ _ _ h => h)
        (fun _ _ _ h => h)
    | resume phase runs free ready => exact h.resume free ready
    | discard phase fiber term => exact h.discard fiber term
    | pause done phase => exact h.pause hw phase done
    | finish phase => exact h.finish hw phase
    | exit phase => exact h.move id
    | idle phase =>
      have hmove : Fibers workers (s.move w .entering) := h.move id
      exact hmove.congr rfl rfl rfl (fun _ _ _ _ h => h) (fun _ _ _ h => h)
    | stop phase stopping =>
      have hmove : Fibers workers (s.move w .leaving) := h.move id
      exact hmove.congr rfl rfl rfl (fun _ _ _ _ h => h) (fun _ _ _ h => h)
    | wait phase => exact h.move id
    | wake phase => exact h.move id
    | drain phase => exact h.congr rfl rfl rfl (fun _ _ _ _ h => h) (fun _ _ _ h => h)
    | yield phase => exact h.move id
    | leave phase =>
      have hmove : Fibers workers (s.move w .scanning) := h.move id
      exact hmove.congr rfl rfl rfl (fun _ _ _ _ h => h) (fun _ _ _ h => h)
  · cases hto with
    | submit task thread free =>
      exact (h.push task thread).congr rfl rfl rfl (fun _ _ _ _ h => h) (fun _ _ _ h => h)
    | tickle free => exact h.congr rfl rfl rfl (fun _ _ _ _ h => h) (fun _ _ _ h => h)
    | test testing => exact h.congr rfl rfl rfl (fun _ _ _ _ h => h) (fun _ _ _ h => h)
    | write writing => exact h.congr rfl rfl rfl (fun _ _ _ _ h => h) (fun _ _ _ h => h)
    | stop => exact h.congr rfl rfl rfl (fun _ _ _ _ h => h) (fun _ _ _ h => h)

end Steps

end CoroutineRpc.Coroutine.Pool
