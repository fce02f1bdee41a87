import CoroutineRpc.Coroutine.SemaphoreProgress

/-! How a scheduler starts its threads. `start` holds `m_mutex` while it constructs them one after
the other, each constructor waits for its thread, and the threads go on into `run`, whose first
critical section needs the same mutex. -/
namespace CoroutineRpc.Coroutine
open Transition

/-- Where a thread is: in `Thread::run` up to `cb()`, and in `Scheduler::run` behind it. -/
inductive RunnerPc where
  | absent
  | begun
  | named
  | swapped
  | signalling
  | wanting
  | inSection
  | working
  deriving DecidableEq, Repr

/-- A `Thread` object. `false` is the thread of the constructor at its semaphore, `true` the new
thread; `tid` is what the kernel answers to `gettid`. -/
structure Thread where
  pc : RunnerPc := .absent
  semaphore : Semaphore Bool := {}
  id : Int := -1
  tid : Int := 0

/-- Where `start` is, from its `lock_guard` on. -/
inductive StartPc where
  | locking
  | checking
  | creating (i : Nat)
  | waiting (i : Nat)
  | storing (i : Nat)
  | leaving
  | returned
  | threw
  deriving DecidableEq, Repr

inductive Holder where
  | starter
  | worker (i : Nat)
  deriving DecidableEq, Repr

/-- `created` only records how many threads there are. -/
structure Startup where
  threadCount : Nat
  stopping : Bool := false
  roots : List Int := []
  main : StartPc := .locking
  mutex : Option Holder := none
  thread : Nat → Thread := fun _ => {}
  threads : List (Option Nat) := []
  threadIds : List Int := roots
  created : Nat := 0

inductive ThreadAction where
  | setId
  | swap
  | signal
  | signalled
  | semaphore (a : SemAction Bool)

inductive StartAction where
  | lock
  | check
  | create (tid : Int) (ok : Bool)
  | constructed
  | store
  | loopEnd
  | unlock
  | thread (i : Nat) (a : ThreadAction)
  | enter (i : Nat)
  | exit (i : Nat)
  | again (i : Nat)

/-- The new thread has called `signal`. -/
def RunnerPc.hasSignalled : RunnerPc → Bool
  | .signalling | .wanting | .inSection | .working => true
  | _ => false

/-- The new thread has set `m_id`. -/
def RunnerPc.hasId : RunnerPc → Bool
  | .absent | .begun => false
  | _ => true

/-- The calls are made by the code around the semaphore. -/
def SemAction.isCall {ι : Type} : SemAction ι → Bool
  | .wait _ | .signal _ => true
  | _ => false

namespace Thread

/-- The constructor goes on to `m_semaphore.wait()` as the thread begins. -/
def construct (tid : Int) : Thread :=
  { pc := .begun, tid := tid, semaphore := ({} : Semaphore Bool).goto false .waitLock }

/-- `Thread::run` up to `cb()`, and the statements at the semaphore. -/
def step (x : Thread) : ThreadAction → Option Thread
  | .setId => if x.pc = .begun then some { x with pc := .named, id := x.tid } else none
  | .swap => if x.pc = .named then some { x with pc := .swapped } else none
  | .signal =>
    if x.pc = .swapped then (x.semaphore.step (.signal true)).map fun s =>
      { x with pc := .signalling, semaphore := s } else none
  | .signalled =>
    if x.pc = .signalling ∧ x.semaphore.pc true = .out then some { x with pc := .wanting } else none
  | .semaphore a =>
    if x.pc ≠ .absent ∧ a.isCall = false then
      (x.semaphore.step a).map fun s => { x with semaphore := s } else none

end Thread

namespace Startup

def setThread (s : Startup) (i : Nat) (x : Thread) : Startup :=
  { s with thread := Function.update s.thread i x }

/-- The critical section of a worker, which it may enter when nobody holds `m_mutex`. -/
def workerStep (s : Startup) (i : Nat) : StartAction → RunnerPc → Option Startup
  | .enter _, .wanting =>
    if s.mutex = none then some { s.setThread i { s.thread i with pc := .inSection } with
      mutex := some (.worker i) } else none
  | .exit _, .inSection =>
    some { s.setThread i { s.thread i with pc := .working } with mutex := none }
  | .again _, .working => some (s.setThread i { s.thread i with pc := .wanting })
  | _, _ => none

/-- `Scheduler::start`. -/
def mainStep (s : Startup) : StartAction → StartPc → Option Startup
  | .lock, .locking =>
    if s.mutex = none then some { s with main := .checking, mutex := some .starter } else none
  | .check, .checking =>
    if s.stopping then some { s with main := .leaving }
    else some { s with main := .creating 0, threads := List.replicate s.threadCount none }
  | .create tid ok, .creating i =>
    if i < s.threadCount then
      if ok then some { s.setThread i (Thread.construct tid) with
        main := .waiting i, created := s.created + 1 }
      -- the constructor throws, and the lock_guard lets go of the mutex
      else some { s with main := .threw, mutex := none }
    else none
  | .constructed, .waiting i =>
    if (s.thread i).semaphore.pc false = .out then some { s with main := .storing i } else none
  | .store, .storing i =>
    some { s with
      main := .creating (i + 1), threads := s.threads.set i (some i)
      threadIds := s.threadIds ++ [(s.thread i).id] }
  | .loopEnd, .creating i => if s.threadCount ≤ i then some { s with main := .leaving } else none
  | .unlock, .leaving => some { s with main := .returned, mutex := none }
  | _, _ => none

def step (s : Startup) : StartAction → Option Startup
  | .thread i a => ((s.thread i).step a).map (s.setThread i)
  | .enter i => s.workerStep i (.enter i) (s.thread i).pc
  | .exit i => s.workerStep i (.exit i) (s.thread i).pc
  | .again i => s.workerStep i (.again i) (s.thread i).pc
  | a => s.mainStep a s.main

end Startup
end CoroutineRpc.Coroutine
