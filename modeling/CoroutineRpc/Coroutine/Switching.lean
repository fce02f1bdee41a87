import CoroutineRpc.Coroutine.ControlTransfer

/-! What a switch changes: one member of one fiber or of two, and the thread behind it as a whole.
The layout says to which fiber each flag leads. -/
namespace CoroutineRpc.Coroutine.ThreadRun
variable {φ : Type} [DecidableEq φ]

def flagOf (s : ThreadRun φ) (g : FiberRef φ) : Option Bool :=
  (s.fibers g).map FiberCtl.runInScheduler

/-- The fiber in which `run` executes. -/
def runner (s : ThreadRun φ) : FiberRef φ :=
  if (s.flagOf .scheduler).isSome then .scheduler else .main

/-- Where a `yield` leaves to. -/
def partnerOf (s : ThreadRun φ) (g : FiberRef φ) : Option (FiberRef φ) :=
  (s.flagOf g).bind (fun b => if b then s.tSchedulerFiber else s.tThreadFiber)

/-- The thread behind the switch of a `resume`. -/
def entered (s : ThreadRun φ) (g h : FiberRef φ) (x y : FiberCtl φ) : ThreadRun φ :=
  { s with
    fibers := Function.update (Function.update s.fibers g (some { x with state := .running })) h
      (some { y with ctx := .resumed h s.switches })
    tFiber := some g
    cpu := x.ctx
    switches := s.switches + 1
    chain := g :: s.chain
    startedAt := Function.update s.startedAt g (some (.resumed h s.switches))
    suspendedAt := Function.update s.suspendedAt h (.resumed h s.switches) }

/-- The thread behind the switch of a `yield`. -/
def left (s : ThreadRun φ) (g h : FiberRef φ) (x y : FiberCtl φ) (state : FiberState) :
    ThreadRun φ :=
  { s with
    fibers := Function.update s.fibers g
      (some { x with state := state, ctx := .yielded g s.switches })
    tFiber := some h
    cpu := y.ctx
    switches := s.switches + 1
    chain := s.chain.tail
    suspendedAt := Function.update s.suspendedAt g (.yielded g s.switches)
    returns := (s.startedAt g, y.ctx) :: s.returns }

section Switch
variable {s : ThreadRun φ} {g h : FiberRef φ} {x y : FiberCtl φ}

/-- A member of one fiber changes, or stays as it is. -/
theorem map_update {α : Type} (f : FiberCtl φ → α) (fibers : FiberRef φ → Option (FiberCtl φ))
    (g : FiberRef φ) (x : FiberCtl φ) :
    (fun k => (Function.update fibers g (some x) k).map f) =
      Function.update (fun k => (fibers k).map f) g (some (f x)) :=
  Function.comp_update (Option.map f) fibers g (some x)

private theorem map_update_self {α : Type} (f : FiberCtl φ → α)
    {fibers : FiberRef φ → Option (FiberCtl φ)}
    (hx : fibers g = some x) (y : FiberCtl φ) (hy : f y = f x) :
    (fun k => (Function.update fibers g (some y) k).map f) = fun k => (fibers k).map f := by
  rw [map_update, Function.update_eq_self_iff, hx, hy]
  rfl

theorem setFiber_state (s : ThreadRun φ) (g : FiberRef φ) (x : FiberCtl φ) :
    (s.setFiber g x).stateOf = Function.update s.stateOf g (some x.state) :=
  map_update FiberCtl.state _ _ _

theorem setFiber_flag (s : ThreadRun φ) (g : FiberRef φ) (x : FiberCtl φ) :
    (s.setFiber g x).flagOf = Function.update s.flagOf g (some x.runInScheduler) :=
  map_update FiberCtl.runInScheduler _ _ _

theorem setFiber_ctx (s : ThreadRun φ) (g : FiberRef φ) (x : FiberCtl φ) :
    (s.setFiber g x).ctxOf = Function.update s.ctxOf g (some x.ctx) := map_update FiberCtl.ctx _ _ _

theorem entered_state (hne : h ≠ g) (hy : s.fibers h = some y) :
    (s.entered g h x y).stateOf = Function.update s.stateOf g (some .running) := by
  have hother : (Function.update s.fibers g (some { x with state := .running })) h = some y :=
    (Function.update_of_ne hne _ _).trans hy
  exact (map_update_self FiberCtl.state hother { y with ctx := .resumed h s.switches } rfl).trans
    (map_update FiberCtl.state _ _ _)

theorem entered_flag (hx : s.fibers g = some x) (hne : h ≠ g) (hy : s.fibers h = some y) :
    (s.entered g h x y).flagOf = s.flagOf := by
  have hother : (Function.update s.fibers g (some { x with state := .running })) h = some y :=
    (Function.update_of_ne hne _ _).trans hy
  exact (map_update_self FiberCtl.runInScheduler hother
    { y with ctx := .resumed h s.switches } rfl).trans
      (map_update_self FiberCtl.runInScheduler hx { x with state := .running } rfl)

theorem entered_ctx (hx : s.fibers g = some x) :
    (s.entered g h x y).ctxOf = Function.update s.ctxOf h (some (.resumed h s.switches)) := by
  refine (map_update FiberCtl.ctx _ _ _).trans ?_
  rw [map_update_self FiberCtl.ctx hx { x with state := .running } rfl]
  rfl

theorem left_state (state : FiberState) :
    (s.left g h x y state).stateOf = Function.update s.stateOf g (some state) :=
  map_update FiberCtl.state _ _ _

theorem left_flag (hx : s.fibers g = some x) (state : FiberState) :
    (s.left g h x y state).flagOf = s.flagOf :=
  map_update_self FiberCtl.runInScheduler hx
    { x with state := state, ctx := .yielded g s.switches } rfl

theorem left_ctx (state : FiberState) : (s.left g h x y state).ctxOf =
    Function.update s.ctxOf g (some (.yielded g s.switches)) := map_update FiberCtl.ctx _ _ _

theorem resume_eq (hx : s.fibers g = some x) (hready : x.state = .ready)
    (hpartner : s.partner x = some h) (hy : s.fibers h = some y) (hne : h ≠ g)
    (hstack : s.cpu.stack = h) : s.resume g = s.entered g h x y := by
  unfold resume
  rw [hx]
  dsimp only
  rw [if_pos hready, hpartner]
  simp only [swapcontext, setFiber, Function.update_of_ne hne, hy, hstack, Point.stack_resumed,
    Function.update_of_ne hne.symm, Function.update_self]
  rfl

theorem yield_eq (hx : s.fibers g = some x) (hstate : x.state ≠ .ready)
    (hpartner : s.partner x = some h) (hy : s.fibers h = some y) (hne : h ≠ g)
    (hstack : s.cpu.stack = g) :
    s.yield g = s.left g h x y (if x.state = .term then .term else .ready) := by
  unfold yield
  rw [hx]
  dsimp only
  rw [if_neg hstate, hpartner]
  simp only [swapcontext, setFiber, Function.update_of_ne hne, hy, hstack, Point.stack_yielded,
    Function.update_self, Function.update_idem]
  rfl

theorem finish_eq (hx : s.fibers g = some x) (hpartner : s.partner x = some h)
    (hy : s.fibers h = some y) (hne : h ≠ g) (hstack : s.cpu.stack = g) :
    s.finish g = s.left g h x y .term := by
  have hset : (s.setFiber g { x with state := .term }).fibers g =
      some { x with state := .term } := Function.update_self _ _ _
  have hother : (s.setFiber g { x with state := .term }).fibers h = some y :=
    (Function.update_of_ne hne _ _).trans hy
  have hterm : FiberState.term ≠ .ready := by decide
  unfold finish
  rw [hx]
  dsimp only
  rw [yield_eq hset hterm hpartner hother hne hstack]
  simp only [left, setFiber, Function.update_idem]
  rfl

omit [DecidableEq φ] in
theorem partnerOf_eq (hx : s.fibers g = some x) : s.partnerOf g = s.partner x := by
  rw [partnerOf, flagOf, hx]
  rfl

end Switch

/-- A task fiber switches with the fiber of `run`, the scheduler fiber with the main fiber. -/
structure Layout (s : ThreadRun φ) : Prop where
  unborn : s.chain = [] → s.flagOf .scheduler = none ∧ s.poolRun = false
  threadFiber : s.chain ≠ [] → s.tThreadFiber = some .main
  schedulerFiber : s.chain ≠ [] → s.tSchedulerFiber = some s.runner
  flags : ∀ g b, s.flagOf g = some b → g ≠ .main → b = decide (g ≠ .scheduler)
  pool : s.poolRun = true → s.flagOf .scheduler = none

namespace Layout
variable {s t : ThreadRun φ} {x : FiberCtl φ}

/-- A step that changes no flag and none of the pointers. -/
theorem congr (h : Layout s) (hflag : t.flagOf = s.flagOf)
    (hthread : t.tThreadFiber = s.tThreadFiber) (hscheduler : t.tSchedulerFiber = s.tSchedulerFiber)
    (hpool : t.poolRun = s.poolRun) (hchain : t.chain = [] ↔ s.chain = []) : Layout t := by
  have hrunner : t.runner = s.runner := by rw [runner, hflag, runner]
  refine ⟨?_, ?_, ?_, ?_, ?_⟩
  · rw [hchain, hflag, hpool]
    exact h.unborn
  · rw [ne_eq, hchain, hthread]
    exact h.threadFiber
  · rw [ne_eq, hchain, hscheduler, hrunner]
    exact h.schedulerFiber
  · rw [hflag]
    exact h.flags
  · rw [hflag, hpool]
    exact h.pool

theorem flags_update (h : Layout s) {g : FiberRef φ} {b : Bool}
    (hb : g ≠ .main → b = decide (g ≠ .scheduler)) (k : FiberRef φ) (b' : Bool)
    (hk : Function.update s.flagOf g (some b) k = some b') (hmain : k ≠ .main) :
    b' = decide (k ≠ .scheduler) := by
  by_cases hkg : k = g
  · subst hkg
    rw [Function.update_self] at hk
    rw [← Option.some.inj hk]
    exact hb hmain
  · rw [Function.update_of_ne hkg] at hk
    exact h.flags k b' hk hmain

theorem task_flag (h : Layout s) {f : φ} (hx : s.fibers (.task f) = some x) :
    x.runInScheduler = true :=
  h.flags (.task f) x.runInScheduler (congrArg (Option.map FiberCtl.runInScheduler) hx) (by simp)

theorem task_partner (h : Layout s) {f : φ} (hx : s.fibers (.task f) = some x)
    (hne : s.chain ≠ []) : s.partner x = some s.runner := by
  rw [partner, h.task_flag hx, if_pos rfl]
  exact h.schedulerFiber hne

theorem scheduler_partner (h : Layout s) (hx : s.fibers .scheduler = some x) :
    s.chain ≠ [] ∧ s.partner x = some .main ∧ s.runner = .scheduler := by
  have hflag : s.flagOf .scheduler = some x.runInScheduler :=
    congrArg (Option.map FiberCtl.runInScheduler) hx
  have hne : s.chain ≠ [] := by
    intro hnil
    cases (h.unborn hnil).1.symm.trans hflag
  have hfalse : x.runInScheduler = false := h.flags .scheduler _ hflag (by simp)
  refine ⟨hne, ?_, ?_⟩
  · rw [partner, hfalse]
    exact h.threadFiber hne
  · rw [runner, hflag]
    rfl

end Layout
end CoroutineRpc.Coroutine.ThreadRun
