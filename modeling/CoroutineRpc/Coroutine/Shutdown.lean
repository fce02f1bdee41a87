import CoroutineRpc.Coroutine.Dispatcher
import CoroutineRpc.Coroutine.Pool
import CoroutineRpc.Coroutine.Timer

/-! `IOManager::idle` until the workers leave. The three tests of `stopping` are steps of their
own, and so are collecting expired callbacks, scheduling each of them and handling each entry. -/
namespace CoroutineRpc.Coroutine

/-- Where a worker is in `run` or `idle`. The callbacks it has collected are its own. -/
inductive Stage (φ κ : Type) where
  | scanning
  | executing (q : Queued φ κ)
  | noTask
  | testingTimers
  | testingEvents
  | testingTasks
  | timing
  | waiting
  | collecting
  | handling (cbs : List (Option κ))
  | exited
  deriving DecidableEq, Repr

/-- An `IOManager` with its timers, its descriptors and its queue. -/
structure Shutdown (φ κ : Type) where
  timers : TimerManager κ := {}
  io : Dispatcher Nat Unit φ κ := {}
  tasks : List (Queued φ κ) := []
  accepted : Nat := 0
  active : Int := 0
  stopping : Bool := false
  stage : Nat → Stage φ κ := fun _ => .scanning
  idleTerm : Nat → Bool := fun _ => false

/-- What a running task, or a thread outside the pool, asks of the manager. -/
inductive Request (φ κ : Type) where
  | scheduleLock (task : Option (Task φ κ)) (thread : Option Nat)
  | addTimer (ms : Nat) (cb : Option κ) (recurring : Bool) (now : Int)
  | cancel (t : TimerId)
  | refresh (t : TimerId) (now : Int)
  | reset (t : TimerId) (ms : Nat) (fromNow : Bool) (now : Int)
  | addEvent (fd : Nat) (e : Event) (self : φ) (cb : Option κ) (ok : Bool)
  | delEvent (fd : Nat) (e : Event) (ok : Bool)
  | cancelEvent (fd : Nat) (e : Event) (ok : Bool)
  | cancelAll (fd : Nat) (ok : Bool)

/-- The steps of the worker `w`, and those of the threads outside the pool. A wait in `epoll_wait`
can end at any time, with whatever is ready by then. -/
inductive ShutdownAction (φ κ : Type) where
  | scan (w : Nat)
  | request (w : Nat) (r : Request φ κ)
  | finish (w : Nat)
  | idle (w : Nat)
  | testTimers (w : Nat) (now : Int)
  | testEvents (w : Nat)
  | testTasks (w : Nat)
  | timeout (w : Nat) (now : Int)
  | interrupt (w : Nat)
  | wake (w : Nat) (events : List ReadyEvent)
  | collect (w : Nat) (now now' : Int) (fuel : Nat)
  | submit (w : Nat)
  | dispatch (w : Nat) (ok : Bool)
  | yield (w : Nat)
  | outside (r : Request φ κ)
  | stop (now : Int)

namespace Shutdown
variable {φ κ : Type}

/-- `Scheduler::stopping`. -/
def isStopping (s : Shutdown φ κ) : Bool := s.stopping && s.tasks.isEmpty && s.active == 0

def move (s : Shutdown φ κ) (w : Nat) (p : Stage φ κ) : Shutdown φ κ :=
  { s with stage := Function.update s.stage w p }

/-- The critical section of `scheduleLock`; an empty task is not accepted. -/
def push (s : Shutdown φ κ) (task : Option (Task φ κ)) (thread : Option Nat) : Shutdown φ κ :=
  match task with
  | none => s
  | some task =>
    { s with tasks := s.tasks ++ [⟨s.accepted, task, thread⟩], accepted := s.accepted + 1 }

def pushAll (s : Shutdown φ κ) : List (Task φ κ) → Shutdown φ κ
  | [] => s
  | task :: tasks => (s.push (some task) none).pushAll tasks

/-- A critical section on a descriptor; the waiters it triggers go to the queue. -/
def ioStep (s : Shutdown φ κ) (a : IOAction Nat Unit φ κ) : Option (Shutdown φ κ) :=
  match s.io.step a with
  | none => none
  | some io =>
    if io.aborted then none
    else
      let rest : IOManager Unit φ κ := { io.manager with tasks := [] }
      let s : Shutdown φ κ := { s with io := { io with manager := rest } }
      some (s.pushAll (io.manager.tasks.map Prod.snd))

def setTimers (s : Shutdown φ κ) (m : TimerManager κ) : Shutdown φ κ := { s with timers := m }

def request (s : Shutdown φ κ) : Request φ κ → Option (Shutdown φ κ)
  | .scheduleLock task thread => some (s.push task thread)
  | .addTimer ms cb recurring now => some (s.setTimers (s.timers.addTimer ms cb recurring now).2.2)
  | .cancel t => some (s.setTimers (s.timers.cancel t).2)
  | .refresh t now => some (s.setTimers (s.timers.refresh t now).2)
  | .reset t ms fromNow now => some (s.setTimers (s.timers.reset t ms fromNow now).2)
  | .addEvent fd e self cb ok => s.ioStep (.addEvent fd e () self cb ok)
  | .delEvent fd e ok => s.ioStep (.delEvent fd e ok)
  | .cancelEvent fd e ok => s.ioStep (.cancelEvent fd e ok)
  | .cancelAll fd ok => s.ioStep (.cancelAll fd ok)

/-- The critical section of `run`. -/
def scan (s : Shutdown φ κ) (w : Nat) : Shutdown φ κ :=
  match scanTasks w s.tasks with
  | (none, _, _) => s.move w .noTask
  | (some q, left, _) => { s.move w (.executing q) with tasks := left, active := s.active + 1 }

/-- One worker's next step. A test of `stopping` that fails sends it to `epoll_wait`; after
the third one has passed the idle fiber is finished, but `run` scans the queue once more. -/
def workerStep (s : Shutdown φ κ) : ShutdownAction φ κ → Stage φ κ → Option (Shutdown φ κ)
  | .scan w, .scanning => some (s.scan w)
  | .request _ r, .executing _ => s.request r
  | .finish w, .executing _ => some { s.move w .scanning with active := s.active - 1 }
  | .idle w, .noTask => some (s.move w (if s.idleTerm w then .exited else .testingTimers))
  | .testTimers w now, .testingTimers =>
    let (timeout, timers) := s.timers.getNextTimer now
    some ((s.setTimers timers).move w (if timeout = noTimer then .testingEvents else .timing))
  | .testEvents w, .testingEvents =>
    some (s.move w (if s.io.manager.pendingEventCount = 0 then .testingTasks else .timing))
  | .testTasks w, .testingTasks =>
    if s.isStopping then
      some { s.move w .scanning with idleTerm := Function.update s.idleTerm w true }
    else some (s.move w .timing)
  | .timeout w now, .timing => some ((s.setTimers (s.timers.getNextTimer now).2).move w .waiting)
  | .interrupt w, .waiting => some (s.move w .timing)
  | .wake w events, .waiting => (s.ioStep (.epollWait w events)).map (·.move w .collecting)
  | .collect w now now' fuel, .collecting =>
    (s.timers.listExpiredCb now now' fuel).map (fun r =>
      (s.setTimers r.2).move w (.handling (r.1.map (·.2))))
  | .submit w, .handling (cb :: cbs) => some ((s.push (cb.map .call) none).move w (.handling cbs))
  | .dispatch w ok, .handling [] => s.ioStep (.dispatch w ok)
  | .yield w, .handling [] => if s.io.ready w = [] then some (s.move w .scanning) else none
  | _, _ => none

/-- The worker that takes a step, if it is one of a worker. -/
def worker : ShutdownAction φ κ → Option Nat
  | .scan w | .request w _ | .finish w | .idle w | .testTimers w _ | .testEvents w
  | .testTasks w | .timeout w _ | .interrupt w | .wake w _ | .collect w _ _ _ | .submit w
  | .dispatch w _ | .yield w => some w
  | .outside _ | .stop _ => none

/-- From `stop` on no thread outside the pool asks for anything. -/
def outsideStep (s : Shutdown φ κ) : ShutdownAction φ κ → Option (Shutdown φ κ)
  | .outside r => if s.stopping then none else s.request r
  | .stop now => some { s.setTimers (s.timers.getNextTimer now).2 with stopping := true }
  | _ => none

def step (workers : Finset Nat) (s : Shutdown φ κ) (a : ShutdownAction φ κ) :
    Option (Shutdown φ κ) :=
  match worker a with
  | some w => if w ∈ workers then s.workerStep a (s.stage w) else none
  | none => s.outsideStep a

/-- Once `run` has returned in all workers, there is no timer, no registered event and no task
that any worker could have taken. -/
def NoWorkLost (workers : Finset Nat) (s : Shutdown φ κ) : Prop :=
  (∀ w ∈ workers, s.stage w = .exited) →
    s.timers.timers = [] ∧ (∀ fd e, (s.io.manager.contexts fd).events.has e = false) ∧
      ∀ q ∈ s.tasks, q.thread ≠ none

/-- When the third test passes for the last worker that has not decided to leave, what its
first two tests have read still holds. -/
def StillDone (workers : Finset Nat) (s : Shutdown φ κ) : ShutdownAction φ κ → Prop
  | .testTasks w => s.isStopping = true → (∀ w' ∈ workers, w' ≠ w → s.idleTerm w' = true) →
      s.timers.timers = [] ∧ s.io.manager.pendingEventCount = 0
  | _ => True

end Shutdown
end CoroutineRpc.Coroutine
