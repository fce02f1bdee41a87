import Mathlib.Logic.Function.Basic

/-! `IOManager`: the contexts of the descriptors, what `epoll` holds for them, and the
operations as they run under the mutex of one context. A failing assertion or the use of a
null scheduler is no result. -/
namespace CoroutineRpc.Coroutine

/-- The two events that can be waited for, one at a time. -/
inductive Event where
  | read
  | write
  deriving DecidableEq, Repr

/-- A mask of events; `NONE` is the default. -/
structure Events where
  read : Bool := false
  write : Bool := false
  deriving DecidableEq, Repr

namespace Events

def has (m : Events) : Event → Bool
  | .read => m.read
  | .write => m.write

def add (m : Events) : Event → Events
  | .read => { m with read := true }
  | .write => { m with write := true }

def remove (m : Events) : Event → Events
  | .read => { m with read := false }
  | .write => { m with write := false }

def inter (m n : Events) : Events := ⟨m.read && n.read, m.write && n.write⟩

def diff (m n : Events) : Events := ⟨m.read && !n.read, m.write && !n.write⟩

def card (m : Events) : Nat := m.read.toNat + m.write.toNat

end Events

/-- What the manager hands to a scheduler: a fiber or a callback. -/
inductive Task (φ κ : Type) where
  | fiber (f : φ)
  | call (cb : κ)
  deriving DecidableEq, Repr

/-- Who waits for one event of a descriptor. -/
structure EventContext (σ φ κ : Type) where
  scheduler : Option σ := none
  fiber : Option φ := none
  cb : Option κ := none
  deriving DecidableEq, Repr

namespace EventContext
variable {σ φ κ : Type}

def isEmpty (c : EventContext σ φ κ) : Bool :=
  c.scheduler.isNone && c.fiber.isNone && c.cb.isNone

/-- A callback takes precedence; an empty context gives a task that is not accepted. -/
def task (c : EventContext σ φ κ) : Option (Task φ κ) :=
  match c.cb with
  | some cb => some (.call cb)
  | none => c.fiber.map .fiber

end EventContext

structure FdContext (σ φ κ : Type) where
  read : EventContext σ φ κ := {}
  write : EventContext σ φ κ := {}
  events : Events := {}
  deriving DecidableEq, Repr

namespace FdContext
variable {σ φ κ : Type}

def getEventContext (x : FdContext σ φ κ) : Event → EventContext σ φ κ
  | .read => x.read
  | .write => x.write

def setEventContext (x : FdContext σ φ κ) (e : Event) (c : EventContext σ φ κ) :
    FdContext σ φ κ :=
  match e with
  | .read => { x with read := c }
  | .write => { x with write := c }

/-- Set the bit of an event and its waiter. -/
def register (x : FdContext σ φ κ) (e : Event) (c : EventContext σ φ κ) : FdContext σ φ κ :=
  { x with events := x.events.add e }.setEventContext e c

/-- Clear the bit of an event and its waiter. -/
def clear (x : FdContext σ φ κ) (e : Event) : FdContext σ φ κ :=
  { x with events := x.events.remove e }.setEventContext e {}

/-- `triggerEvent`: the task goes to the scheduler that was noted with it. -/
def triggerEvent (x : FdContext σ φ κ) (e : Event) :
    Option (FdContext σ φ κ × Option (σ × Task φ κ)) :=
  if x.events.has e then
    let x := { x with events := x.events.remove e }
    let ctx := x.getEventContext e
    match ctx.scheduler with
    | none => none
    | some scheduler =>
      some (x.setEventContext e {}, ctx.task.map (fun task => (scheduler, task)))
  else none

end FdContext

inductive CtlOp where
  | add
  | mod
  | del
  deriving DecidableEq, Repr

/-- A ready event as `epoll_wait` reports it. -/
structure ReadyEvent where
  fd : Nat
  epollIn : Bool := false
  epollOut : Bool := false
  epollErr : Bool := false
  epollHup : Bool := false
  deriving DecidableEq, Repr

/-- The contexts from `size` on do not exist yet. `epoll` maps a descriptor that the kernel
holds to its mask; `issued` records each `epoll_ctl` with whether the descriptor was held. -/
structure IOManager (σ φ κ : Type) where
  size : Nat := 32
  contexts : Nat → FdContext σ φ κ := fun _ => {}
  epoll : Nat → Option Events := fun _ => none
  pendingEventCount : Int := 0
  tasks : List (σ × Task φ κ) := []
  issued : List (CtlOp × Bool) := []

namespace IOManager
variable {σ φ κ : Type}

/-- `epoll_ctl`, which succeeds if the system allows it and the operation is a legal one. A
failing call changes nothing in the kernel. -/
def epollCtl (m : IOManager σ φ κ) (op : CtlOp) (fd : Nat) (mask : Events) (ok : Bool) :
    Bool × IOManager σ φ κ :=
  let held := (m.epoll fd).isSome
  let m := { m with issued := (op, held) :: m.issued }
  if ok && (held != (op == .add)) then
    (true, { m with epoll := Function.update m.epoll fd (if op = .del then none else some mask) })
  else (false, m)

def setContext (m : IOManager σ φ κ) (fd : Nat) (x : FdContext σ φ κ) : IOManager σ φ κ :=
  { m with contexts := Function.update m.contexts fd x }

/-- `triggerEvent` on the context of a descriptor. -/
def trigger (m : IOManager σ φ κ) (fd : Nat) (e : Event) : Option (IOManager σ φ κ) :=
  ((m.contexts fd).triggerEvent e).map (fun r =>
    { m.setContext fd r.1 with tasks := m.tasks ++ r.2.toList })

/-- `contextResize(fd * 1.5)` for a descriptor that has no context yet. -/
def reserve (m : IOManager σ φ κ) (fd : Nat) : IOManager σ φ κ :=
  if fd < m.size then m else { m with size := fd * 3 / 2 }

/-- `addEvent` by a fiber `self` that runs on a worker of `scheduler`. -/
def addEvent (m : IOManager σ φ κ) (fd : Nat) (e : Event) (scheduler : σ) (self : φ)
    (cb : Option κ) (ok : Bool) : Option (Int × IOManager σ φ κ) :=
  let m := m.reserve fd
  let x := m.contexts fd
  if x.events.has e then some (-1, m)
  else
    let op := if x.events = {} then CtlOp.add else CtlOp.mod
    match m.epollCtl op fd (x.events.add e) ok with
    | (false, m) => some (-1, m)
    | (true, m) =>
      if (x.getEventContext e).isEmpty then
        let waiter : EventContext σ φ κ :=
          { scheduler := some scheduler, fiber := if cb.isNone then some self else none, cb := cb }
        some (0, { m with pendingEventCount := m.pendingEventCount + 1 }.setContext fd
          (x.register e waiter))
      else none

/-- There is a context for the descriptor, and the event is registered there. -/
def Holds (m : IOManager σ φ κ) (fd : Nat) (e : Event) : Prop :=
  fd < m.size ∧ (m.contexts fd).events.has e = true

instance (m : IOManager σ φ κ) (fd : Nat) (e : Event) : Decidable (m.Holds fd e) :=
  inferInstanceAs (Decidable (_ ∧ _))

/-- The common first half of `delEvent` and `cancelEvent`. -/
def forget (m : IOManager σ φ κ) (fd : Nat) (e : Event) (ok : Bool) : Bool × IOManager σ φ κ :=
  let left := (m.contexts fd).events.remove e
  let op := if left = {} then CtlOp.del else CtlOp.mod
  m.epollCtl op fd left ok

/-- `delEvent`; a failing `epoll_ctl` returns -1, which is true. -/
def delEvent (m : IOManager σ φ κ) (fd : Nat) (e : Event) (ok : Bool) :
    Bool × IOManager σ φ κ :=
  if m.Holds fd e then
    match m.forget fd e ok with
    | (false, m) => (true, m)
    | (true, m) =>
      (true, { m with pendingEventCount := m.pendingEventCount - 1 }.setContext fd
        ((m.contexts fd).clear e))
  else (false, m)

/-- `cancelEvent`; a failing `epoll_ctl` returns -1, which is true. -/
def cancelEvent (m : IOManager σ φ κ) (fd : Nat) (e : Event) (ok : Bool) :
    Option (Bool × IOManager σ φ κ) :=
  if m.Holds fd e then
    match m.forget fd e ok with
    | (false, m) => some (true, m)
    | (true, m) =>
      ({ m with pendingEventCount := m.pendingEventCount - 1 }.trigger fd e).map (true, ·)
  else some (false, m)

/-- `triggerEvent` and the decrement of the counter, if the mask has the event. -/
def triggerIf (m : IOManager σ φ κ) (fd : Nat) (e : Event) (mask : Events) :
    Option (IOManager σ φ κ) :=
  if mask.has e then
    (m.trigger fd e).map (fun m => { m with pendingEventCount := m.pendingEventCount - 1 })
  else some m

/-- `cancelAll`; a failing `epoll_ctl` returns -1, which is true. -/
def cancelAll (m : IOManager σ φ κ) (fd : Nat) (ok : Bool) : Option (Bool × IOManager σ φ κ) :=
  if fd < m.size ∧ (m.contexts fd).events ≠ {} then
    match m.epollCtl .del fd {} ok with
    | (false, m) => some (true, m)
    | (true, m) => do
      let m ← m.triggerIf fd .read (m.contexts fd).events
      let m ← m.triggerIf fd .write (m.contexts fd).events
      if (m.contexts fd).events = {} then some (true, m) else none
  else some (false, m)

/-- The events of a ready entry; an error or a hang-up counts as every registered event. -/
def realEvents (ready : ReadyEvent) (events : Events) : Events :=
  let all := ready.epollErr || ready.epollHup
  ⟨ready.epollIn || (all && events.read), ready.epollOut || (all && events.write)⟩

/-- The handling of one ready entry in `idle`. -/
def dispatch (m : IOManager σ φ κ) (ready : ReadyEvent) (ok : Bool) : Option (IOManager σ φ κ) :=
  let events := (m.contexts ready.fd).events
  let real := realEvents ready events
  if events.inter real = {} then some m
  else
    let left := events.diff real
    let op := if left = {} then CtlOp.del else CtlOp.mod
    match m.epollCtl op ready.fd left ok with
    | (false, m) => some m
    | (true, m) => do
      -- `real` is not cut down to the registered events
      let m ← m.triggerIf ready.fd .read real
      m.triggerIf ready.fd .write real

end IOManager
end CoroutineRpc.Coroutine
