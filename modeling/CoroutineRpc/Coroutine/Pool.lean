import CoroutineRpc.Coroutine.IOManager
import Mathlib.Data.Finset.Card

/-! The worker pool of a scheduler whose idle workers wait in `epoll_wait`. Every critical
section on `m_mutex`, every access to a counter and every use of the tickle pipe is a step
of its own. -/
namespace CoroutineRpc.Coroutine

inductive FiberState where
  | ready
  | running
  | term
  deriving DecidableEq, Repr

/-- An entry of `m_tasks`, with the position at which it was accepted. -/
structure Queued (φ κ : Type) where
  seq : Nat
  task : Task φ κ
  thread : Option Nat
  deriving DecidableEq, Repr

/-- Where a worker is in `run` or `idle`. A task that it has taken goes with it. -/
inductive Phase (φ κ : Type) where
  | scanning
  | tickling (held : Option (Queued φ κ))
  | writing (held : Option (Queued φ κ))
  | starting (q : Queued φ κ)
  | executing (q : Queued φ κ) (f : φ)
  | finishing (q : Queued φ κ) (resumed : Bool)
  | noTask
  | entering
  | blocked
  | woken
  | leaving
  | exited
  deriving DecidableEq, Repr

/-- A call of `tickle` on its way: before its test, or before its `write`. -/
inductive TickleCall where
  | testing
  | writing
  deriving DecidableEq, Repr

/-- A task that has left its worker, and whether it was resumed or discarded. -/
structure Finished (φ κ : Type) where
  q : Queued φ κ
  worker : Nat
  resumed : Bool
  deriving DecidableEq, Repr

/-- The scheduler. The last three fields only record: how many tasks were accepted, the
unpinned ones in the order in which they were taken, and the finished ones. -/
structure Pool (ι φ κ : Type) where
  tasks : List (Queued φ κ) := []
  active : Int := 0
  idle : Int := 0
  pipe : Nat := 0
  stopping : Bool := false
  phase : Nat → Phase φ κ := fun _ => .scanning
  idleTerm : Nat → Bool := fun _ => false
  calls : ι → Option TickleCall := fun _ => none
  fiberState : φ → FiberState := fun _ => .ready
  fiberLock : φ → Option Nat := fun _ => none
  accepted : Nat := 0
  taken : List Nat := []
  finished : List (Finished φ κ) := []

/-- The steps of the callers of `scheduleLock` and `tickle`, and those of the workers. -/
inductive PoolAction (ι φ κ : Type) where
  | submit (caller : ι) (task : Option (Task φ κ)) (thread : Option Nat)
  | callTickle (caller : ι)
  | test (caller : ι)
  | write (caller : ι)
  | stop
  | scan (w : Nat)
  | workerTest (w : Nat)
  | workerWrite (w : Nat)
  | start (w : Nat) (f : φ)
  | pause (w : Nat) (done : Bool)
  | finish (w : Nat)
  | idle (w : Nat)
  | enter (w : Nat) (drained : Bool)
  | wake (w : Nat)
  | drain (w : Nat)
  | yield (w : Nat)
  | leave (w : Nat)

/-- A worker skips the tasks that are pinned to another thread. -/
def Queued.skipped {φ κ : Type} (q : Queued φ κ) (me : Nat) : Bool :=
  q.thread.isSome && q.thread != some me

/-- The scan of `m_tasks` in `run`: the task, the tasks left, and `tickle_me`. -/
def scanTasks {φ κ : Type} (me : Nat) :
    List (Queued φ κ) → Option (Queued φ κ) × List (Queued φ κ) × Bool
  | [] => (none, [], false)
  | q :: qs =>
    if q.skipped me then
      let (found, left, _) := scanTasks me qs
      (found, q :: left, true)
    else (some q, qs, !qs.isEmpty)

namespace Pool
variable {ι φ κ : Type}

def hasIdleThreads (s : Pool ι φ κ) : Bool := 0 < s.idle

def isStopping (s : Pool ι φ κ) : Bool := s.stopping && s.tasks.isEmpty && s.active == 0

def move (s : Pool ι φ κ) (w : Nat) (p : Phase φ κ) : Pool ι φ κ :=
  { s with phase := Function.update s.phase w p }

/-- What `run` does after the tickling, with or without a task. -/
def afterTickle : Option (Queued φ κ) → Phase φ κ
  | none => .noTask
  | some q => .starting q

/-- The critical section of `scheduleLock`; an empty task is not accepted. -/
def push (s : Pool ι φ κ) (task : Option (Task φ κ)) (thread : Option Nat) : Pool ι φ κ :=
  match task with
  | none => s
  | some task =>
    { s with tasks := s.tasks ++ [⟨s.accepted, task, thread⟩], accepted := s.accepted + 1 }

/-- The critical section of `run`. -/
def scan (s : Pool ι φ κ) (w : Nat) : Pool ι φ κ :=
  let (found, left, tickleMe) := scanTasks w s.tasks
  let s := match found with
    | none => s
    | some q => { s with
        tasks := left, active := s.active + 1
        taken := if q.thread.isNone then s.taken ++ [q.seq] else s.taken }
  s.move w (if tickleMe then .tickling found else afterTickle found)

/-- The worker will scan `m_tasks` before it waits again, or it has still to tickle. -/
def Awake : Phase φ κ → Prop
  | .noTask | .entering | .blocked | .exited => False
  | _ => True

@[simp] theorem move_same (s : Pool ι φ κ) (w : Nat) (p : Phase φ κ) :
    (s.move w p).phase w = p := Function.update_self _ _ _

theorem move_other (s : Pool ι φ κ) {w w' : Nat} (p : Phase φ κ) (h : w' ≠ w) :
    (s.move w p).phase w' = s.phase w' := Function.update_of_ne h _ _

/-- A worker is in a phase because it has moved there, or because it was there before. -/
theorem move_cases (s : Pool ι φ κ) {w w' : Nat} {p r : Phase φ κ}
    (h : (s.move w p).phase w' = r) : w' = w ∧ p = r ∨ w' ≠ w ∧ s.phase w' = r := by
  rcases eq_or_ne w' w with rfl | hne
  · exact Or.inl ⟨rfl, (s.move_same w' p).symm.trans h⟩
  · exact Or.inr ⟨hne, (s.move_other p hne).symm.trans h⟩

section Steps
variable [DecidableEq ι]

def setCall (s : Pool ι φ κ) (caller : ι) (c : Option TickleCall) : Pool ι φ κ :=
  { s with calls := Function.update s.calls caller c }

@[simp] theorem setCall_same (s : Pool ι φ κ) (caller : ι) (c : Option TickleCall) :
    (s.setCall caller c).calls caller = c := Function.update_self _ _ _

variable [DecidableEq φ]

/-- A fiber task runs on its fiber, a callback on one that is made for it. -/
def runsOn (task : Task φ κ) (f : φ) : Bool :=
  match task with
  | .fiber g => g = f
  | .call _ => true

/-- The mutex of the fiber is free: the fiber is resumed and keeps the mutex, or it has
finished and the task is discarded. -/
def startOn (s : Pool ι φ κ) (w : Nat) (q : Queued φ κ) (f : φ) : Option (Pool ι φ κ) :=
  if runsOn q.task f ∧ s.fiberLock f = none then
    match s.fiberState f, q.task with
    | .ready, _ => some { s.move w (.executing q f) with
        fiberState := Function.update s.fiberState f .running,
        fiberLock := Function.update s.fiberLock f (some w) }
    | .term, .fiber _ => some (s.move w (.finishing q false))
    | _, _ => none
  else none

/-- One worker's next step, according to its phase. -/
def workerStep (s : Pool ι φ κ) : PoolAction ι φ κ → Phase φ κ → Option (Pool ι φ κ)
  | .scan w, .scanning => some (s.scan w)
  | .workerTest w, .tickling held =>
    some (s.move w (if s.hasIdleThreads then .writing held else afterTickle held))
  | .workerWrite w, .writing held => some { s.move w (afterTickle held) with pipe := s.pipe + 1 }
  | .start w f, .starting q => s.startOn w q f
  | .pause w done, .executing q f =>
    some { s.move w (.finishing q true) with
      fiberState := Function.update s.fiberState f (if done then .term else .ready),
      fiberLock := Function.update s.fiberLock f none }
  | .finish w, .finishing q resumed =>
    some { s.move w .scanning with
      active := s.active - 1, finished := ⟨q, w, resumed⟩ :: s.finished }
  | .idle w, .noTask =>
    if s.idleTerm w then some (s.move w .exited)
    else some { s.move w .entering with idle := s.idle + 1 }
  | .enter w drained, .entering =>
    -- no timer and no event is left, and the scheduler may stop: the idle fiber ends
    if drained && s.isStopping then
      some { s.move w .leaving with idleTerm := Function.update s.idleTerm w true }
    else some (s.move w .blocked)
  | .wake w, .blocked => some (s.move w .woken)
  | .drain _, .woken => some { s with pipe := 0 }
  | .yield w, .woken => some (s.move w .leaving)
  | .leave w, .leaving => some { s.move w .scanning with idle := s.idle - 1 }
  | _, _ => none

/-- One step of a caller of `scheduleLock` or `tickle`. -/
def callerStep (s : Pool ι φ κ) : PoolAction ι φ κ → Option (Pool ι φ κ)
  | .submit caller task thread =>
    if s.calls caller = none then
      some ((s.push task thread).setCall caller (if s.tasks.isEmpty then some .testing else none))
    else none
  | .callTickle caller =>
    if s.calls caller = none then some (s.setCall caller (some .testing)) else none
  | .test caller =>
    if s.calls caller = some .testing then
      some (s.setCall caller (if s.hasIdleThreads then some .writing else none))
    else none
  | .write caller =>
    if s.calls caller = some .writing then
      some { s.setCall caller none with pipe := s.pipe + 1 }
    else none
  | .stop => some { s with stopping := true }
  | _ => none

/-- The worker that takes a step, if it is one of a worker. -/
def worker : PoolAction ι φ κ → Option Nat
  | .scan w | .workerTest w | .workerWrite w | .start w _ | .pause w _ | .finish w | .idle w
  | .enter w _ | .wake w | .drain w | .yield w | .leave w => some w
  | _ => none

def step (workers : Finset Nat) (s : Pool ι φ κ) (a : PoolAction ι φ κ) : Option (Pool ι φ κ) :=
  match worker a with
  | some w => if w ∈ workers then s.workerStep a (s.phase w) else none
  | none => s.callerStep a

end Steps
end Pool
end CoroutineRpc.Coroutine
