import CoroutineRpc.Coroutine.Pool
import CoroutineRpc.Coroutine.Deadlines

/-! The timeouts with which idle workers wait in `epoll_wait`. Taking a timer in, the `tickle`
that follows, reading the next deadline, waiting, emptying the pipe and running a task are
steps of their own, with the clock running in between, in nanoseconds since the epoch. -/
namespace CoroutineRpc.Coroutine

/-- Where a worker is. A timeout, in milliseconds, counts from the start of `epoll_wait`. -/
inductive SleepPhase where
  | running
  | executing
  | entering
  | timing
  | timed (timeout : Nat)
  | blocked (deadline : Int)
  | woken (readable : Bool)
  | collected (readable : Bool)
  deriving DecidableEq, Repr

def SleepPhase.waits : SleepPhase → Bool
  | .blocked _ => true
  | _ => false

private theorem SleepPhase.waits_iff (p : SleepPhase) : p.waits = true ↔ ∃ d, p = .blocked d := by
  cases p <;> simp [waits]

/-- The timeout with which a worker is about to wait. -/
def SleepPhase.timeout : SleepPhase → Nat
  | .timed timeout => timeout
  | _ => 0

/-- `calls` holds the calls of `addTimer` between the insertion and the end of their `tickle`. -/
structure Sleepers (ι κ : Type) where
  timers : TimerManager κ := {}
  now : Nat := 0
  idle : Int := 0
  pipe : Nat := 0
  phase : Nat → SleepPhase := fun _ => .running
  calls : ι → Option TickleCall := fun _ => none

/-- `seen` is the clock as it was read before the lock was taken; `notify` is the `write` of a
`tickle` for a task. -/
inductive SleepAction (ι κ : Type) where
  | tick (ns : Nat)
  | addTimer (c : ι) (ms : Nat) (cb : Option κ) (recurring : Bool) (seen : Nat)
  | test (c : ι)
  | write (c : ι)
  | cancel (t : TimerId)
  | refresh (t : TimerId)
  | notify
  | enter (w : Nat)
  | stopping (w : Nat) (leaves : Bool)
  | getNextTimer (w : Nat)
  | epollWait (w : Nat)
  | interrupt (w : Nat)
  | wake (w : Nat) (readable : Bool)
  | collect (w : Nat) (seen fuel : Nat)
  | drain (w : Nat)
  | yield (w : Nat)
  | take (w : Nat)
  | finish (w : Nat)

namespace Sleepers
variable {ι κ : Type}

/-- `MAX_TIMEOUT` in `idle`. -/
def maxTimeout : Nat := 5000

def start (clock : Nat) : Sleepers ι κ :=
  { now := clock, timers := { previousTime := clock } }

def move (s : Sleepers ι κ) (w : Nat) (p : SleepPhase) : Sleepers ι κ :=
  { s with phase := Function.update s.phase w p }

def setTimers (s : Sleepers ι κ) (m : TimerManager κ) : Sleepers ι κ := { s with timers := m }

/-- One worker's next step. The test of `stopping` reads the next deadline too, and lowers the
flag with it. -/
def workerStep (s : Sleepers ι κ) : SleepAction ι κ → SleepPhase → Option (Sleepers ι κ)
  | .enter w, .running => some { s.move w .entering with idle := s.idle + 1 }
  | .stopping w leaves, .entering =>
    let (timeout, timers) := s.timers.getNextTimer s.now
    let s := s.setTimers timers
    if leaves = true ∧ timeout = noTimer then some { s.move w .running with idle := s.idle - 1 }
    else some (s.move w .timing)
  | .getNextTimer w, .timing =>
    let (timeout, timers) := s.timers.getNextTimer s.now
    some ((s.setTimers timers).move w (.timed (min timeout maxTimeout)))
  | .epollWait w, .timed timeout => some (s.move w (.blocked (s.now + millis timeout)))
  | .interrupt w, .blocked _ => some (s.move w .timing)
  | .wake w readable, .blocked _ =>
    if readable = true → 0 < s.pipe then some (s.move w (.woken readable)) else none
  | .collect w seen fuel, .woken readable =>
    if seen ≤ s.now then
      (s.timers.listExpiredCb seen s.now fuel).map (fun r =>
        (s.setTimers r.2).move w (.collected readable))
    else none
  | .drain w, .collected true => some { s.move w (.collected false) with pipe := 0 }
  | .yield w, .collected false => some { s.move w .running with idle := s.idle - 1 }
  | .take w, .running => some (s.move w .executing)
  | .finish w, .executing => some (s.move w .running)
  | _, _ => none

/-- The worker that takes a step, if it is one of a worker. -/
def worker : SleepAction ι κ → Option Nat
  | .enter w | .stopping w _ | .getNextTimer w | .epollWait w | .interrupt w | .wake w _
  | .collect w _ _ | .drain w | .yield w | .take w | .finish w => some w
  | _ => none

/-- The timeout of a wait until `d` ends no later than the earliest deadline. -/
def InTime (s : Sleepers ι κ) (d : Int) : Prop := s.timers.EndsBy s.now d

/-- Unless a call of `addTimer` is on its way to its `tickle`: if any of these workers waits in
`epoll_wait`, then one of them ends its wait in time. -/
def Watched (s : Sleepers ι κ) (workers : Finset Nat) : Prop :=
  (∃ w ∈ workers, ∃ d, s.phase w = .blocked d) → (∀ c, s.calls c = none) →
    ∃ w ∈ workers, ∃ d, s.phase w = .blocked d ∧ s.InTime d

/-- With the pipe empty, not every worker that waits oversleeps the earliest timer. -/
def NoOversleep (workers : Finset Nat) (s : Sleepers ι κ) : Prop :=
  s.pipe = 0 → s.Watched workers

section Steps
variable [DecidableEq ι]

def setCall (s : Sleepers ι κ) (c : ι) (call : Option TickleCall) : Sleepers ι κ :=
  { s with calls := Function.update s.calls c call }

/-- The clock, and the callers of the operations on timers. -/
def callerStep (s : Sleepers ι κ) : SleepAction ι κ → Option (Sleepers ι κ)
  | .tick ns => some { s with now := s.now + ns }
  | .addTimer c ms cb recurring seen =>
    if s.calls c = none ∧ seen ≤ s.now then
      let (front, timers) := (s.timers.addTimer ms cb recurring seen).2
      some ((s.setTimers timers).setCall c (if front then some .testing else none))
    else none
  | .test c =>
    if s.calls c = some .testing then
      some (s.setCall c (if 0 < s.idle then some .writing else none))
    else none
  | .write c =>
    if s.calls c = some .writing then some { s.setCall c none with pipe := s.pipe + 1 } else none
  | .cancel t => some (s.setTimers (s.timers.cancel t).2)
  | .refresh t => some (s.setTimers (s.timers.refresh t s.now).2)
  | .notify => some { s with pipe := s.pipe + 1 }
  | _ => none

def step (workers : Finset Nat) (s : Sleepers ι κ) (a : SleepAction ι κ) :
    Option (Sleepers ι κ) :=
  match worker a with
  | some w => if w ∈ workers then s.workerStep a (s.phase w) else none
  | none => s.callerStep a

end Steps

def Waits (s : Sleepers ι κ) (w : Nat) : Prop := ∃ d, s.phase w = .blocked d

instance (s : Sleepers ι κ) (w : Nat) : Decidable (s.Waits w) :=
  decidable_of_iff _ (s.phase w).waits_iff

/-- The timeout that the worker has read is no longer than what `getNextTimer` would return now. -/
def Fresh (s : Sleepers ι κ) (w : Nat) : Prop :=
  (s.phase w).timeout ≤ (s.timers.getNextTimer s.now).1

instance (s : Sleepers ι κ) (w : Nat) : Decidable (s.Fresh w) := inferInstanceAs (Decidable (_ ≤ _))

/-- The timer that is added comes to the front of the set. -/
def ComesFirst (s : Sleepers ι κ) (ms : Nat) (cb : Option κ) (recurring : Bool) (seen : Nat) :
    Prop :=
  (s.timers.addTimer ms cb recurring seen).2.2.timers.head? = some s.timers.created

instance (s : Sleepers ι κ) (ms : Nat) (cb : Option κ) (recurring : Bool) (seen : Nat) :
    Decidable (s.ComesFirst ms cb recurring seen) := inferInstanceAs (Decidable (_ = _))

end Sleepers

/-- The workers with a record of those who began to wait with a fresh timeout, while no timer has
come to the front since. -/
structure SleepLog (ι κ : Type) where
  sleepers : Sleepers ι κ
  current : Finset Nat := ∅

namespace SleepLog
variable {ι κ : Type}

def start (clock : Nat) : SleepLog ι κ := { sleepers := .start clock }

def currentAfter (x : SleepLog ι κ) : SleepAction ι κ → Finset Nat
  | .epollWait w => if x.sleepers.Fresh w then insert w x.current else x.current.erase w
  | .addTimer _ ms cb recurring seen =>
    if x.sleepers.ComesFirst ms cb recurring seen then ∅ else x.current
  | _ => x.current

def step [DecidableEq ι] (workers : Finset Nat) (x : SleepLog ι κ) (a : SleepAction ι κ) :
    Option (SleepLog ι κ) :=
  (x.sleepers.step workers a).map (fun s => ⟨s, x.currentAfter a⟩)

/-- Either nobody waits, or a worker does that is on record. -/
def Relieved (x : SleepLog ι κ) (workers : Finset Nat) : Prop :=
  (∀ w ∈ workers, ¬ x.sleepers.Waits w) ∨ ∃ w ∈ workers, w ∈ x.current ∧ x.sleepers.Waits w

/-- A worker that takes a wake-up, by leaving `epoll_wait` without a byte in the pipe or by emptying
the pipe, leaves nobody waiting or somebody on record; a worker that begins to wait is on record
itself or finds one that is; the flag holds back the `tickle` of a new first timer only when
nobody waits; and `refresh` moves a deadline back. -/
def KeepsWatch (workers : Finset Nat) (x : SleepLog ι κ) : SleepAction ι κ → Prop
  | .interrupt w | .wake w _ => x.sleepers.pipe = 0 → (∀ c, x.sleepers.calls c = none) →
      x.Relieved (workers.erase w)
  | .drain _ => (∀ c, x.sleepers.calls c = none) → x.Relieved workers
  | .epollWait w => x.sleepers.pipe = 0 → (∀ c, x.sleepers.calls c = none) →
      x.sleepers.Fresh w ∨ ∃ w' ∈ workers, w' ∈ x.current ∧ x.sleepers.Waits w'
  | .addTimer _ ms cb recurring seen => x.sleepers.timers.tickled = true →
      x.sleepers.ComesFirst ms cb recurring seen → x.sleepers.pipe = 0 →
        (∀ c, x.sleepers.calls c = none) → ∀ w ∈ workers, ¬ x.sleepers.Waits w
  | .refresh t => x.sleepers.timers.next t ≤
      deadline x.sleepers.now (x.sleepers.timers.objects t).ms
  | _ => True

end SleepLog
end CoroutineRpc.Coroutine
