import CoroutineRpc.Coroutine.Pool
import CoroutineRpc.Library.Transition
import Mathlib.Data.List.Chain

/-! How the fibers of one thread pass control to each other. A `swapcontext` stores the place of
the stack on which it is executed, in the fiber that it is told to use. -/
namespace CoroutineRpc.Coroutine

/-- The main fiber of a thread, the scheduler fiber of a caller thread, and the idle and task
fibers. -/
inductive FiberRef (φ : Type) where
  | main
  | scheduler
  | task (f : φ)
  deriving DecidableEq, Repr

/-- Where a stack goes on: at its start, or behind a switch that was made on it. -/
inductive Point (φ : Type) where
  | entry (g : FiberRef φ)
  | resumed (g : FiberRef φ) (switch : Nat)
  | yielded (g : FiberRef φ) (switch : Nat)
  deriving DecidableEq, Repr

def Point.stack {φ : Type} : Point φ → FiberRef φ
  | .entry g | .resumed g _ | .yielded g _ => g

@[simp] theorem Point.stack_entry {φ : Type} (g : FiberRef φ) : (Point.entry g).stack = g := rfl

@[simp] theorem Point.stack_resumed {φ : Type} (g : FiberRef φ) (n : Nat) :
    (Point.resumed g n).stack = g := rfl

@[simp] theorem Point.stack_yielded {φ : Type} (g : FiberRef φ) (n : Nat) :
    (Point.yielded g n).stack = g := rfl

/-- The members of `Fiber` that have to do with control. -/
structure FiberCtl (φ : Type) where
  state : FiberState
  runInScheduler : Bool
  ctx : Point φ
  deriving DecidableEq, Repr

inductive Failure where
  | resumeAssertion
  | yieldAssertion
  | nullPointer
  deriving DecidableEq, Repr

/-- A thread with its thread-local pointers, the point from which it executes, and the local
variable of each `MainFunc`. The last four fields only record: the fibers that were resumed and
not left since, latest first; the point behind the `resume` that last started a fiber; the point
at which a stack was left; and for each fiber that was left the first of these and the point at
which the thread went on. -/
structure ThreadRun (φ : Type) where
  fibers : FiberRef φ → Option (FiberCtl φ) := fun _ => none
  tFiber : Option (FiberRef φ) := none
  tThreadFiber : Option (FiberRef φ) := none
  tSchedulerFiber : Option (FiberRef φ) := none
  cpu : Point φ := .entry .main
  curr : FiberRef φ → Option (FiberRef φ) := fun _ => none
  poolRun : Bool := false
  failed : Option Failure := none
  switches : Nat := 0
  chain : List (FiberRef φ) := []
  startedAt : FiberRef φ → Option (Point φ) := fun _ => none
  suspendedAt : FiberRef φ → Point φ := Point.entry
  returns : List (Option (Point φ) × Point φ) := []

/-- A caller thread constructs the scheduler, a pool thread starts with `run`. Fibers are made by
any code of any thread, and a fiber that rests can be run by another thread in between. -/
inductive ControlAction (φ : Type) where
  | getThis (junk : Bool)
  | construct (junk : Bool)
  | run (junk : Bool)
  | create (f : φ)
  | elsewhere (f : φ) (switch : Nat) (done : Bool)
  | stop
  | mainFunc
  | dispatch (f : φ)
  | yield
  | finish

namespace ThreadRun
variable {φ : Type} [DecidableEq φ]

def fail (s : ThreadRun φ) (e : Failure) : ThreadRun φ := { s with failed := some e }

def setFiber (s : ThreadRun φ) (g : FiberRef φ) (x : FiberCtl φ) : ThreadRun φ :=
  { s with fibers := Function.update s.fibers g (some x) }

/-- `Fiber::GetThis`, where a first call makes the main fiber; nothing sets its flag. -/
def getThis (s : ThreadRun φ) (junk : Bool) : ThreadRun φ :=
  if s.tFiber.isSome then s
  else
    { s.setFiber .main ⟨.running, junk, .entry .main⟩ with
      tFiber := some .main
      tThreadFiber := some .main
      tSchedulerFiber := some .main
      chain := [.main] }

/-- `Scheduler::Scheduler` with `use_caller`. -/
def construct (s : ThreadRun φ) (junk : Bool) : ThreadRun φ :=
  let s := s.getThis junk
  { s.setFiber .scheduler ⟨.ready, false, .entry .scheduler⟩ with
    tSchedulerFiber := some .scheduler
    suspendedAt := Function.update s.suspendedAt .scheduler (.entry .scheduler) }

/-- The fiber whose context a `resume` or a `yield` uses beside the fiber's own. -/
def partner (s : ThreadRun φ) (x : FiberCtl φ) : Option (FiberRef φ) :=
  if x.runInScheduler then s.tSchedulerFiber else s.tThreadFiber

/-- `swapcontext(&saved->m_ctx, &loaded->m_ctx)` at a point of the executing stack. -/
def swapcontext (s : ThreadRun φ) (saved loaded : FiberRef φ) (here : Point φ) : ThreadRun φ :=
  match s.fibers saved with
  | none => s.fail .nullPointer
  | some x =>
    let s := s.setFiber saved { x with ctx := here }
    match s.fibers loaded with
    | none => s.fail .nullPointer
    | some y =>
      { s with
        cpu := y.ctx
        switches := s.switches + 1
        suspendedAt := Function.update s.suspendedAt here.stack here }

def resume (s : ThreadRun φ) (g : FiberRef φ) : ThreadRun φ :=
  match s.fibers g with
  | none => s.fail .nullPointer
  | some x =>
    if x.state = .ready then
      match s.partner x with
      | none => s.fail .nullPointer
      | some h =>
        let here := .resumed s.cpu.stack s.switches
        let s := { s.setFiber g { x with state := .running } with
          tFiber := some g
          chain := g :: s.chain
          startedAt := Function.update s.startedAt g (some here) }
        s.swapcontext h g here
    else s.fail .resumeAssertion

def yield (s : ThreadRun φ) (g : FiberRef φ) : ThreadRun φ :=
  match s.fibers g with
  | none => s.fail .nullPointer
  | some x =>
    if x.state = .ready then s.fail .yieldAssertion
    else
      match s.partner x with
      | none => s.fail .nullPointer
      | some h =>
        let state := if x.state = .term then .term else .ready
        let t := { s.setFiber g { x with state := state } with
          tFiber := some h
          chain := s.chain.tail }
        let t := t.swapcontext g h (.yielded s.cpu.stack s.switches)
        { t with returns := (s.startedAt g, t.cpu) :: s.returns }

/-- The end of `MainFunc`, for the fiber that it has found at its start. -/
def finish (s : ThreadRun φ) (g : FiberRef φ) : ThreadRun φ :=
  match s.fibers g with
  | none => s.fail .nullPointer
  | some x => (s.setFiber g { x with state := .term }).yield g

/-- The loop of `run` is executing: on a pool thread in the main fiber. -/
def inRun (s : ThreadRun φ) : Bool :=
  match s.cpu.stack with
  | .main => s.poolRun
  | .scheduler => (s.curr .scheduler).isSome
  | .task _ => false

/-- A thread that is not driven yet executes in its main fiber. -/
def free (s : ThreadRun φ) : Bool :=
  s.cpu.stack = .main && !s.poolRun && (s.fibers .scheduler).isNone

/-- `run` has a task, the idle fiber or a fiber for a callback to execute. -/
def dispatch (s : ThreadRun φ) (f : φ) : Option (ThreadRun φ) :=
  (s.fibers (.task f)).map (fun x => if x.state = .term then s else s.resume (.task f))

/-- A fiber that rests has been resumed by another thread and has left it again. -/
def elsewhere (s : ThreadRun φ) (f : φ) (switch : Nat) (done : Bool) : Option (ThreadRun φ) :=
  (s.fibers (.task f)).bind (fun x =>
    if x.state = .ready then
      let there := .yielded (.task f) switch
      let state := if done then .term else .ready
      some { s.setFiber (.task f) { x with state := state, ctx := there } with
        curr := Function.update s.curr (.task f) (some (.task f))
        suspendedAt := Function.update s.suspendedAt (.task f) there }
    else none)

def step (s : ThreadRun φ) (a : ControlAction φ) : Option (ThreadRun φ) :=
  if s.failed.isSome then none
  else
    match a with
    | .getThis junk => some (s.getThis junk)
    | .construct junk => if s.free then some (s.construct junk) else none
    | .run junk => if s.free then some { s.getThis junk with poolRun := true } else none
    | .create f =>
      if (s.fibers (.task f)).isNone then
        some { s.setFiber (.task f) ⟨.ready, true, .entry (.task f)⟩ with
          suspendedAt := Function.update s.suspendedAt (.task f) (.entry (.task f)) }
      else none
    | .elsewhere f switch done => s.elsewhere f switch done
    | .stop => if (s.fibers .scheduler).isSome then some (s.resume .scheduler) else none
    | .mainFunc =>
      if s.cpu.stack ≠ .main ∧ (s.curr s.cpu.stack).isNone then
        some { s with curr := Function.update s.curr s.cpu.stack s.tFiber }
      else none
    | .dispatch f => if s.inRun then s.dispatch f else none
    | .yield =>
      match s.cpu.stack with
      | .task f => if (s.curr (.task f)).isSome then s.tFiber.map s.yield else none
      | _ => none
    | .finish => if s.cpu.stack ≠ .main then (s.curr s.cpu.stack).map s.finish else none

def stateOf (s : ThreadRun φ) (g : FiberRef φ) : Option FiberState :=
  (s.fibers g).map FiberCtl.state

def ctxOf (s : ThreadRun φ) (g : FiberRef φ) : Option (Point φ) := (s.fibers g).map FiberCtl.ctx

/-- `h` has resumed `g`, and the context of `h` waits behind that `resume`. -/
def Awaits (s : ThreadRun φ) (g h : FiberRef φ) : Prop :=
  ∃ n, s.startedAt g = some (.resumed h n) ∧ s.ctxOf h = some (.resumed h n)

/-- Control is bracketed, and no assertion but the one of `resume` can fail. -/
structure Bracketed (s : ThreadRun φ) : Prop where
  current : s.tFiber = s.chain.head? ∧ ∀ g, s.tFiber = some g → s.cpu.stack = g
  bottom : ∀ g, s.chain.getLast? = some g → g = .main
  chained : s.chain.IsChain s.Awaits
  running : ∀ g, s.stateOf g = some .running ↔ g ∈ s.chain
  returned : ∀ r ∈ s.returns, r.1 = some r.2
  saved : ∀ g p, s.ctxOf g = some p → g ≠ s.cpu.stack → p = s.suspendedAt g
  asserted : s.failed = none ∨ s.failed = some .resumeAssertion

end ThreadRun
end CoroutineRpc.Coroutine
