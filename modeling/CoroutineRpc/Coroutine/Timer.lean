import CoroutineRpc.Library.KeyedSet
import CoroutineRpc.Library.Width
import Mathlib.Logic.Function.Basic
import Mathlib.Order.Defs.Unbundled
import Mathlib.Data.Int.Order.Basic

/-! `Timer` and `TimerManager`. Timer objects are shared, so they live in a store of their own,
and `m_timers` orders references to them by their deadline, in nanoseconds, alone. Deadlines are
computed at 64 bits. -/
namespace CoroutineRpc.Coroutine

abbrev TimerId := Nat

/-- A reading of `system_clock`: nanoseconds in an `int64_t`. -/
structure ClockReading where
  ns : Int
  low : -2 ^ 63 ≤ ns
  high : ns < 2 ^ 63

/-- What a timer runs: a callback, or one that `OnTimer` runs while its condition lives. -/
inductive Callback (γ ω : Type) where
  | call (cb : γ)
  | onTimer (weakCond : ω) (cb : γ)
  deriving Repr

structure Timer (β : Type) where
  recurring : Bool := false
  ms : Nat := 0
  next : Int := 0
  cb : Option β := none
  deriving Repr

structure TimerManager (β : Type) where
  objects : TimerId → Timer β := fun _ => {}
  created : Nat := 0
  timers : List TimerId := []
  tickled : Bool := false
  previousTime : Int := 0

/-- `std::chrono::milliseconds` in nanoseconds. -/
def millis (ms : Nat) : Int := (ms : Int) * 1000000

/-- `std::chrono::milliseconds(ms)` of a `uint64_t`, in the nanoseconds of the clock: the count
becomes signed, and the product is one of 64 bits. -/
def period (ms : Nat) : Int := int64 (int64 ms * 1000000)

/-- `now + std::chrono::milliseconds(ms)`. -/
def deadline (now : Int) (ms : Nat) : Int := int64 (now + period ms)

theorem millis_nonneg (ms : Nat) : 0 ≤ millis ms := by
  unfold millis
  omega

/-- The conversions and the product do not show in the sum. -/
theorem deadline_eq (now : Int) (ms : Nat) : deadline now ms = int64 (now + millis ms) := by
  rw [deadline, period, millis, int64_add_int64, Int.add_comm, ← int64_int64_add, int64_int64_mul,
    int64_int64_add, Int.add_comm]

theorem deadline_range (now : Int) (ms : Nat) :
    -2 ^ 63 ≤ deadline now ms ∧ deadline now ms < 2 ^ 63 := (int64_spec _).2

/-- Where the sum fits, it is the deadline. -/
theorem deadline_of_fits {now : Int} {ms : Nat} (hlow : -2 ^ 63 ≤ now + millis ms)
    (hhigh : now + millis ms < 2 ^ 63) : deadline now ms = now + millis ms := by
  rw [deadline_eq]
  exact int64_of_fits hlow hhigh

/-- `~0ull`, which `getNextTimer` returns when there is no timer. -/
def noTimer : Nat := 2 ^ 64 - 1

/-- The time from which `Timer::reset` counts the new period. -/
def Timer.start {β : Type} (x : Timer β) (fromNow : Bool) (now : Int) : Int :=
  if fromNow then now else int64 (x.next - period x.ms)

namespace TimerManager
variable {β : Type}

def next (m : TimerManager β) (t : TimerId) : Int := (m.objects t).next

def modify (m : TimerManager β) (t : TimerId) (f : Timer β → Timer β) : TimerManager β :=
  { m with objects := Function.update m.objects t (f (m.objects t)) }

/-- `m_timers.find(shared_from_this())`. -/
def find (m : TimerManager β) (t : TimerId) : Option TimerId := KeyedSet.find m.next t m.timers

def erase (m : TimerManager β) (t : TimerId) : TimerManager β :=
  { m with timers := m.timers.erase t }

def insert (m : TimerManager β) (t : TimerId) : TimerManager β :=
  { m with timers := KeyedSet.insert m.next t m.timers }

/-- `Timer::cancel`. -/
def cancel (m : TimerManager β) (t : TimerId) : Bool × TimerManager β :=
  match (m.objects t).cb with
  | none => (false, m)
  | some _ =>
    let m := m.modify t (fun x => { x with cb := none })
    match m.find t with
    | none => (true, m)
    | some it => (true, m.erase it)

/-- `Timer::refresh`; `now` is the clock when it is read. -/
def refresh (m : TimerManager β) (t : TimerId) (now : Int) : Bool × TimerManager β :=
  match (m.objects t).cb, m.find t with
  | none, _ => (false, m)
  | some _, none => (false, m)
  | some _, some it =>
    (true, ((m.erase it).modify t (fun x => { x with next := deadline now x.ms })).insert t)

/-- The private `addTimer`: whether the timer has come to the front and `tickle` is due. -/
def addShared (m : TimerManager β) (t : TimerId) : Bool × TimerManager β :=
  let m := m.insert t
  -- the iterator that `insert` returns points to the equivalent element, old or new
  let front := (m.timers.head?.map m.next).any (· = m.next t) && !m.tickled
  (front, { m with tickled := m.tickled || front })

/-- The first critical section of `Timer::reset`. -/
def resetErase (m : TimerManager β) (t : TimerId) : Option (TimerManager β) :=
  match (m.objects t).cb, m.find t with
  | none, _ => none
  | some _, none => none
  | some _, some it => some (m.erase it)

/-- The unlocked middle of `Timer::reset`. -/
def resetUpdate (m : TimerManager β) (t : TimerId) (ms : Nat) (fromNow : Bool) (now : Int) :
    TimerManager β :=
  m.modify t (fun x =>
    { x with ms := ms, next := deadline (x.start fromNow now) ms })

/-- `Timer::reset`, without the `tickle` that it may end with. -/
def reset (m : TimerManager β) (t : TimerId) (ms : Nat) (fromNow : Bool) (now : Int) :
    Bool × TimerManager β :=
  if ms = (m.objects t).ms ∧ fromNow = false then (true, m)
  else match m.resetErase t with
    | none => (false, m)
    | some m => (true, ((m.resetUpdate t ms fromNow now).addShared t).2)

/-- `TimerManager::addTimer`: the new timer, whether it is at the front, and the manager. -/
def addTimer (m : TimerManager β) (ms : Nat) (cb : Option β) (recurring : Bool) (now : Int) :
    TimerId × Bool × TimerManager β :=
  let t := m.created
  let m := { m with created := m.created + 1 }.modify t
    (fun _ => { recurring := recurring, ms := ms, next := deadline now ms, cb := cb })
  (t, m.addShared t)

/-- `addConditionTimer` binds the condition and the callback to `OnTimer`. -/
def addConditionTimer {γ ω : Type} (m : TimerManager (Callback γ ω)) (ms : Nat) (cb : γ)
    (weakCond : ω) (recurring : Bool) (now : Int) :
    TimerId × Bool × TimerManager (Callback γ ω) :=
  m.addTimer ms (some (.onTimer weakCond cb)) recurring now

/-- `getNextTimer` in milliseconds; the cast rounds towards zero. -/
def getNextTimer (m : TimerManager β) (now : Int) : Nat × TimerManager β :=
  let m := { m with tickled := false }
  match m.timers.head? with
  | none => (noTimer, m)
  | some t =>
    if m.next t ≤ now then (0, m) else (uint64 ((int64 (m.next t - now)).tdiv 1000000), m)

def detectClockRollover (m : TimerManager β) (now : Int) : Bool × TimerManager β :=
  (now < int64 (m.previousTime - millis (60 * 60 * 1000)), { m with previousTime := now })

/-- The condition of the collecting loop: the timer that it takes next. -/
def due (m : TimerManager β) (now : Int) (rollover : Bool) : Option TimerId :=
  m.timers.head?.filter (fun t => rollover || m.next t ≤ now)

/-- The body of the collecting loop for the first timer. -/
def collectOne (m : TimerManager β) (now : Int) (t : TimerId) : TimerManager β :=
  let m := m.erase t
  if (m.objects t).recurring then
    (m.modify t (fun x => { x with next := deadline now x.ms })).insert t
  else m.modify t (fun x => { x with cb := none })

/-- The collecting loop: the collected timers with their callbacks, or nothing when the fuel
does not last. -/
def collectLoop (now : Int) (rollover : Bool) :
    Nat → TimerManager β → Option (List (TimerId × Option β) × TimerManager β)
  | 0, m => if (m.due now rollover).isSome then none else some ([], m)
  | fuel + 1, m =>
    match m.due now rollover with
    | none => some ([], m)
    | some t => (collectLoop now rollover fuel (m.collectOne now t)).map
        (fun r => ((t, (m.objects t).cb) :: r.1, r.2))

/-- `listExpiredCb` with its two readings of the clock. -/
def listExpiredCb (m : TimerManager β) (now now' : Int) (fuel : Nat) :
    Option (List (TimerId × Option β) × TimerManager β) :=
  let (rollover, m) := m.detectClockRollover now'
  collectLoop now rollover fuel m

/-- A clock that has not gone back since the last reading has not been set back by an hour. -/
theorem detectClockRollover_false {m : TimerManager β} {now : Int}
    (hlow : -2 ^ 63 + millis (60 * 60 * 1000) ≤ m.previousTime) (hle : m.previousTime ≤ now) :
    (m.detectClockRollover now).1 = false := by
  have hhour := millis_nonneg (60 * 60 * 1000)
  have hless := int64_le (x := m.previousTime - millis (60 * 60 * 1000)) (by omega)
  exact decide_eq_false (by omega)

end TimerManager
end CoroutineRpc.Coroutine
