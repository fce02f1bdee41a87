import CoroutineRpc.Coroutine.Hook
import CoroutineRpc.Library.Transition

/-! One hooked `connect`: the handshake in the kernel, the timer of the call, and what other
fibers do to the descriptor while the call waits for it to become writable. -/
namespace CoroutineRpc.Coroutine

/-- The handshake of a socket. -/
inductive Handshake where
  | idle
  | inProgress
  | established
  | failed (error : Errno)
  deriving DecidableEq, Repr

namespace Handshake

def ended : Handshake → Bool
  | .established | .failed _ => true
  | .idle | .inProgress => false

/-- What `getsockopt(SO_ERROR)` answers; there is no error while the handshake goes on. -/
def soError : Handshake → Option Errno
  | .failed error => some error
  | _ => none

/-- What can become of a handshake by itself: it ends, and a connection can break. -/
def moves : Handshake → Handshake → Bool
  | .inProgress, .established | .inProgress, .failed _ | .established, .failed _ => true
  | _, _ => false

end Handshake

/-- What `connect_f` answers. -/
inductive ConnectAnswer where
  | established
  | inProgress
  | error (errno : Errno)
  deriving DecidableEq, Repr

/-- Where the call is. The result is kept with the handshake at the moment of the return. -/
inductive ConnectPc where
  | start
  | direct
  | attempt
  | arm
  | add
  | giveUp
  | waiting
  | woken
  | test
  | check
  | returned (r : Int) (handshake : Handshake)
  deriving DecidableEq, Repr

/-- The condition timer, from `addConditionTimer` to the end of its callback. -/
inductive ConnectTimer where
  | none
  | armed
  | collected
  | cancelling
  | done
  deriving DecidableEq, Repr

structure Connecting (φ : Type) where
  manager : IOManager Unit φ Unit
  handshake : Handshake := .idle
  timer : ConnectTimer := .none
  cancelled : Bool := false
  pc : ConnectPc := .start

/-- The statements of the call, and from `settle` on what happens around it; `ok` is what the
system answers. -/
inductive ConnectAction where
  | enter (hookEnable : Bool) (ctx : Option FdCtx)
  | connectF (answer : ConnectAnswer)
  | arm (timeoutMs : Option Nat)
  | add (ok : Bool)
  | giveUp
  | resume
  | cancelTimer
  | testCancelled
  | check (ok : Bool)
  | settle (handshake : Handshake)
  | collect
  | fire
  | cancelTimedOut (ok : Bool)
  | cancelEvent (e : Event) (ok : Bool)
  | cancelAll (ok : Bool)
  | dispatch (ready : ReadyEvent) (ok : Bool)
  deriving DecidableEq, Repr

namespace Connecting
variable {φ : Type}

def goto (s : Connecting φ) (pc : ConnectPc) : Connecting φ := { s with pc := pc }

def finish (s : Connecting φ) (r : Int) : Connecting φ := s.goto (.returned r s.handshake)

def setManager (s : Connecting φ) (m : IOManager Unit φ Unit) : Connecting φ :=
  { s with manager := m }

/-- The checks before the first attempt. -/
def enter (hookEnable : Bool) (ctx : Option FdCtx) (s : Connecting φ) : Connecting φ :=
  if !hookEnable then s.goto .direct
  else match ctx with
    | none => s.finish (-1)
    | some ctx =>
      if ctx.isClosed then s.finish (-1)
      else if !ctx.isSocket || ctx.userNonblock then s.goto .direct
      else s.goto .attempt

/-- The kernel starts a handshake on a socket that has none, or refuses. -/
def connectF (s : Connecting φ) : ConnectAnswer → Option (Int × Connecting φ)
  | .established => if s.handshake = .idle then some (0, { s with handshake := .established }) else none
  | .inProgress => if s.handshake = .idle then some (-1, { s with handshake := .inProgress }) else none
  | .error _ => some (-1, s)

/-- `timer->cancel()`: a callback that has been collected still runs. -/
def cancelTimer (s : Connecting φ) : Connecting φ :=
  if s.timer = .armed then { s with timer := .done } else s

/-- The call has not returned, so that its `timer_info` can still be locked. -/
def running (s : Connecting φ) : Bool :=
  match s.pc with
  | .returned _ _ => false
  | _ => true

section Steps
variable [DecidableEq φ] (fd : Nat) (self : φ)

/-- The next statement of the call. -/
def callStep (s : Connecting φ) : ConnectAction → ConnectPc → Option (Connecting φ)
  | .enter hookEnable ctx, .start => some (s.enter hookEnable ctx)
  | .connectF answer, .direct => (s.connectF answer).map (fun r => r.2.finish r.1)
  | .connectF answer, .attempt => (s.connectF answer).map (fun r =>
      if r.1 = -1 ∧ answer = .inProgress then r.2.goto .arm else r.2.finish r.1)
  | .arm timeoutMs, .arm =>
    if timeoutMs.isNone then some (s.goto .add) else some ({ s with timer := .armed }.goto .add)
  | .add ok, .add => (s.manager.addEvent fd .write () self none ok).map (fun r =>
      (s.setManager r.2).goto (if r.1 = 0 then .waiting else .giveUp))
  -- after a registration that failed the code goes on to the check
  | .giveUp, .giveUp => some (s.cancelTimer.goto .check)
  | .resume, .waiting =>
    if s.manager.tasks.contains ((), .fiber self) then
      some ((s.setManager { s.manager with
        tasks := s.manager.tasks.erase ((), .fiber self) }).goto .woken)
    else none
  | .cancelTimer, .woken => some (s.cancelTimer.goto .test)
  | .testCancelled, .test => some (if s.cancelled then s.finish (-1) else s.goto .check)
  | .check ok, .check => some (s.finish (if ok = true ∧ s.handshake.soError = none then 0 else -1))
  | _, _ => none

/-- The kernel, the timer's callback, and the other users of the descriptor. -/
def otherStep (s : Connecting φ) : ConnectAction → Option (Connecting φ)
  | .settle handshake =>
    if s.handshake.moves handshake then some { s with handshake := handshake } else none
  | .collect => if s.timer = .armed then some { s with timer := .collected } else none
  | .fire =>
    if s.timer = .collected then
      if s.running ∧ s.cancelled = false then
        some { s with timer := .cancelling, cancelled := true }
      else some { s with timer := .done }
    else none
  | .cancelTimedOut ok =>
    if s.timer = .cancelling then
      (s.manager.cancelEvent fd .write ok).map (fun r => { s.setManager r.2 with timer := .done })
    else none
  | .cancelEvent e ok => (s.manager.cancelEvent fd e ok).map (fun r => s.setManager r.2)
  | .cancelAll ok => (s.manager.cancelAll fd ok).map (fun r => s.setManager r.2)
  | .dispatch ready ok =>
    if ready.fd = fd then (s.manager.dispatch ready ok).map s.setManager else none
  | _ => none

def step (s : Connecting φ) (a : ConnectAction) : Option (Connecting φ) :=
  match a with
  | .enter _ _ | .connectF _ | .arm _ | .add _ | .giveUp | .resume | .cancelTimer
  | .testCancelled | .check _ => s.callStep fd self a s.pc
  | _ => s.otherStep fd a

end Steps

/-- The call has returned 0 with a connection that was established then, or -1. -/
def Sound (s : Connecting φ) : Prop :=
  ∀ r handshake, s.pc = .returned r handshake → (r = 0 ∧ handshake = .established) ∨ r = -1

/-- The handshake is over when `SO_ERROR` is read. -/
def Decided (s : Connecting φ) : ConnectAction → Prop
  | .check ok => ok = true → s.handshake.ended = true
  | _ => True

/-- The registration succeeds, and nobody but the timeout wakes the fiber while the handshake
is in progress. -/
def Undisturbed (fd : Nat) (self : φ) (s : Connecting φ) : ConnectAction → Prop
  | .add ok => ∀ r, s.manager.addEvent fd .write () self none ok = some r → r.1 = 0
  | .cancelEvent e ok => ∀ r, s.manager.cancelEvent fd e ok = some r →
      ((), .fiber self) ∈ r.2.tasks → ((), .fiber self) ∈ s.manager.tasks ∨ s.handshake.ended = true
  | .cancelAll ok => ∀ r, s.manager.cancelAll fd ok = some r →
      ((), .fiber self) ∈ r.2.tasks → ((), .fiber self) ∈ s.manager.tasks ∨ s.handshake.ended = true
  | .dispatch ready ok => ∀ m, s.manager.dispatch ready ok = some m →
      ((), .fiber self) ∈ m.tasks → ((), .fiber self) ∈ s.manager.tasks ∨ s.handshake.ended = true
  | _ => True

end Connecting
end CoroutineRpc.Coroutine
