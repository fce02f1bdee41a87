import CoroutineRpc.Coroutine.Pool

/-! How a worker resumes a fiber and how the fiber leaves it again. The worker and the fiber,
each on its own stack, write the same `m_state`, and every such write is a step of its own. -/
namespace CoroutineRpc.Coroutine

/-- How far a fiber has come on its own stack, from the first line of `MainFunc` on. -/
inductive Frame where
  | fresh
  | entered
  | body
  | leaving
  | parked
  | returned
  | ended
  | closing
  | gone
  deriving DecidableEq, Repr

/-- A fiber made by `Fiber(cb)`; its mutex is held by a worker or free. -/
structure FiberObj where
  state : FiberState := .ready
  mutex : Option Nat := none
  frame : Frame := .fresh
  deriving DecidableEq, Repr

/-- Where a worker is in the part of `run` that executes a task. -/
inductive Place (φ κ : Type) where
  | scanning
  | taken (task : Task φ κ)
  | holding (f : φ)
  | resuming (f : φ)
  | switching (f : φ)
  | inside (f : φ)
  | back (f : φ)
  deriving DecidableEq, Repr

/-- The fiber whose mutex the worker holds there. -/
def Place.held {φ κ : Type} : Place φ κ → Option φ
  | .scanning | .taken _ => none
  | .holding f | .resuming f | .switching f | .inside f | .back f => some f

inductive FiberEvent (φ : Type) where
  | resumed (f : φ)
  | started (f : φ)
  | terminated (f : φ)
  deriving DecidableEq, Repr

/-- The log, latest entry first, only records. A failing assertion aborts the process. -/
structure FiberRun (φ κ : Type) where
  tasks : List (Queued φ κ) := []
  accepted : Nat := 0
  place : Nat → Place φ κ := fun _ => .scanning
  fibers : φ → Option FiberObj := fun _ => none
  aborted : Bool := false
  log : List (FiberEvent φ) := []

/-- Whoever holds a fiber may submit it, at any time and as often as it likes. -/
inductive FiberAction (φ κ : Type) where
  | construct (f : φ)
  | schedule (task : Task φ κ) (thread : Option Nat)
  | scan (w : Nat)
  | lock (w : Nat) (f : φ)
  | test (w : Nat)
  | resume (w : Nat)
  | swapIn (w : Nat)
  | main (w : Nat)
  | yield (w : Nat)
  | return (w : Nat)
  | terminate (w : Nat)
  | swapOut (w : Nat)
  | unlock (w : Nat)

/-- `swapcontext` to a fiber: it begins, or it goes on after its last `yield`. -/
def Frame.enter : Frame → Frame
  | .fresh => .entered
  | .parked => .body
  | frame => frame

/-- `yield` up to its `swapcontext`; nothing comes of a failing assertion. -/
def FiberObj.yield (x : FiberObj) : Option FiberObj :=
  match x.state with
  | .ready => none
  | .running => some { x with state := .ready, frame := .leaving }
  | .term => some { x with frame := .closing }

namespace FiberRun
variable {φ κ : Type}

def move (s : FiberRun φ κ) (w : Nat) (p : Place φ κ) : FiberRun φ κ :=
  { s with place := Function.update s.place w p }

def note (s : FiberRun φ κ) (e : FiberEvent φ) : FiberRun φ κ := { s with log := e :: s.log }

def abort (s : FiberRun φ κ) : FiberRun φ κ := { s with aborted := true }

/-- The critical section of `run`; the worker's `tickle` does not matter here. -/
def scan (s : FiberRun φ κ) (w : Nat) : FiberRun φ κ :=
  match scanTasks w s.tasks with
  | (none, _, _) => s
  | (some q, left, _) => { s with tasks := left }.move w (.taken q.task)

section Fibers
variable [DecidableEq φ]

def setFiber (s : FiberRun φ κ) (f : φ) (x : FiberObj) : FiberRun φ κ :=
  { s with fibers := Function.update s.fibers f (some x) }

/-- A worker goes on, and the fiber that it has to do with changes. -/
def put (s : FiberRun φ κ) (w : Nat) (p : Place φ κ) (f : φ) (x : FiberObj) : FiberRun φ κ :=
  (s.setFiber f x).move w p

/-- Only a fiber that exists can be handed over. -/
def schedule (s : FiberRun φ κ) (task : Task φ κ) (thread : Option Nat) :
    Option (FiberRun φ κ) :=
  let pushed := { s with
    tasks := s.tasks ++ [⟨s.accepted, task, thread⟩], accepted := s.accepted + 1 }
  match task with
  | .fiber f => (s.fibers f).map (fun _ => pushed)
  | .call _ => some pushed

/-- The `lock_guard`: on the fiber of the task, or on one that is made for a callback. -/
def lock (s : FiberRun φ κ) (w : Nat) (f : φ) : Task φ κ → Option (FiberRun φ κ)
  | .fiber g =>
    match s.fibers f with
    | none => none
    | some x =>
      if g = f ∧ x.mutex = none then some (s.put w (.holding f) f { x with mutex := some w })
      else none
  | .call _ =>
    match s.fibers f with
    -- a callback's fiber is resumed without a test of its state
    | none => some (s.put w (.resuming f) f { mutex := some w })
    | some _ => none

/-- The assertion of `resume` and the write that follows it. -/
def resume (s : FiberRun φ κ) (w : Nat) (f : φ) (x : FiberObj) : FiberRun φ κ :=
  if x.state = .ready then
    (s.put w (.switching f) f { x with state := .running }).note (.resumed f)
  else s.abort

/-- The statements of the fiber itself, on the worker that it runs on. -/
def fiberStep (s : FiberRun φ κ) (w : Nat) (f : φ) (x : FiberObj) :
    FiberAction φ κ → Frame → Option (FiberRun φ κ)
  | .main _, .entered => some ((s.put w (.inside f) f { x with frame := .body }).note (.started f))
  | .yield _, .body | .yield _, .ended =>
    match x.yield with
    | none => some s.abort
    | some x => some (s.put w (.inside f) f x)
  | .return _, .body => some (s.put w (.inside f) f { x with frame := .returned })
  | .terminate _, .returned =>
    some ((s.put w (.inside f) f { x with state := .term, frame := .ended }).note (.terminated f))
  | .swapOut _, .leaving => some (s.put w (.back f) f { x with frame := .parked })
  | .swapOut _, .closing => some (s.put w (.back f) f { x with frame := .gone })
  | _, _ => none

/-- The statements of `run` and `resume` on a fiber that the worker has locked. -/
def heldStep (s : FiberRun φ κ) (w : Nat) (x : FiberObj) :
    FiberAction φ κ → Place φ κ → Option (FiberRun φ κ)
  | .test _, .holding f => some (s.put w (if x.state = .term then .back f else .resuming f) f x)
  | .resume _, .resuming f => some (s.resume w f x)
  | .swapIn _, .switching f => some (s.put w (.inside f) f { x with frame := x.frame.enter })
  | .unlock _, .back f => some (s.put w .scanning f { x with mutex := none })
  | a, .inside f => s.fiberStep w f x a x.frame
  | _, _ => none

def workerStep (s : FiberRun φ κ) (w : Nat) (a : FiberAction φ κ) : Option (FiberRun φ κ) :=
  match a, s.place w with
  | .scan _, .scanning => some (s.scan w)
  | .lock _ f, .taken task => s.lock w f task
  | a, p => (p.held.bind s.fibers).bind (fun x => s.heldStep w x a p)

/-- The worker on which a step is taken. -/
def worker : FiberAction φ κ → Option Nat
  | .construct _ | .schedule _ _ => none
  | .scan w | .lock w _ | .test w | .resume w | .swapIn w | .main w | .yield w | .return w
  | .terminate w | .swapOut w | .unlock w => some w

def otherStep (s : FiberRun φ κ) : FiberAction φ κ → Option (FiberRun φ κ)
  | .construct f => if s.fibers f = none then some (s.setFiber f {}) else none
  | .schedule task thread => s.schedule task thread
  | _ => none

def step (workers : Finset Nat) (s : FiberRun φ κ) (a : FiberAction φ κ) :
    Option (FiberRun φ κ) :=
  if s.aborted then none
  else match worker a with
    | some w => if w ∈ workers then s.workerStep w a else none
    | none => s.otherStep a

end Fibers
end FiberRun
end CoroutineRpc.Coroutine
