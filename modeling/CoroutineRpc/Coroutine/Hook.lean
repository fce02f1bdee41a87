import CoroutineRpc.Coroutine.Dispatcher
import CoroutineRpc.Coroutine.Pool
import CoroutineRpc.Coroutine.Timer

/-! Hooked I/O: fibers that run `do_io` on the workers of one `IOManager`, with every other
use of the manager in between. Each critical section and each statement of `do_io` that other
threads can tell apart is a step of its own. -/
namespace CoroutineRpc.Coroutine

inductive Errno where
  | eintr
  | eagain
  | ebadf
  | etimedout
  | other (code : Nat)
  deriving DecidableEq, Repr

/-- What a function returns, with the `errno` that it leaves. -/
structure IoResult where
  n : Int
  errno : Errno
  deriving DecidableEq, Repr

/-- The two values of `timeout_so`. -/
inductive SockOpt where
  | rcvTimeo
  | sndTimeo
  deriving DecidableEq, Repr

/-- The `FdCtx` of a descriptor; a missing timeout is -1. -/
structure FdCtx where
  isClosed : Bool := false
  isSocket : Bool := true
  userNonblock : Bool := false
  recvTimeout : Option Nat := none
  sendTimeout : Option Nat := none
  deriving DecidableEq, Repr

def FdCtx.getTimeout (c : FdCtx) : SockOpt → Option Nat
  | .rcvTimeo => c.recvTimeout
  | .sndTimeo => c.sendTimeout

/-- `timer_info`; its owners are the call that made it and the callbacks that have locked it. -/
structure TimerInfo where
  cancelled : Option Errno := none
  owners : Nat := 0
  deriving DecidableEq, Repr

abbrev InfoId := Nat

/-- What the callback of a timer made by `do_io` captures. -/
structure Timeout where
  winfo : InfoId
  fd : Nat
  event : Event
  deriving DecidableEq, Repr

inductive Handler (κ : Type) where
  | timeout (t : Timeout)
  | other (code : κ)
  deriving Repr

abbrev HookCallback (κ : Type) := Callback (Handler κ) InfoId

/-- Where a call of `do_io` is. The call without the hook is one statement. -/
inductive Pc where
  | direct
  | attempt
  | arm
  | add (timer : Option TimerId)
  | giveUp (timer : Option TimerId)
  | yielding (timer : Option TimerId)
  | waiting (timer : Option TimerId)
  | woken (timer : Option TimerId)
  | check
  | returned (r : IoResult)
  deriving DecidableEq, Repr

/-- The frame of a call of `do_io`. The last field only records the timers it has made. -/
structure DoIo where
  fd : Nat
  event : Event
  timeout : Option Nat
  tinfo : InfoId
  pc : Pc
  made : List TimerId := []

/-- The checks before the first attempt, on what was read of the descriptor's `FdCtx`. -/
def DoIo.enter (hookEnable : Bool) (ctx : Option FdCtx) (timeoutSo : SockOpt) : Pc × Option Nat :=
  if !hookEnable then (.direct, none)
  else match ctx with
    | none => (.direct, none)
    | some ctx =>
      if ctx.isClosed then (.returned ⟨-1, .ebadf⟩, none)
      else if !ctx.isSocket || ctx.userNonblock then (.direct, none)
      else (.attempt, ctx.getTimeout timeoutSo)

/-- A fiber that waits in `do_io` goes on after its `yield`. -/
def DoIo.resumed (c : DoIo) : DoIo :=
  match c.pc with
  | .waiting timer => { c with pc := .woken timer }
  | _ => c

/-- Where the callback of a timeout is, once it has locked its condition. -/
inductive TimeoutStage where
  | testing
  | setting
  | cancelling
  deriving DecidableEq, Repr

/-- What a worker is doing, in `run` or in `idle`. -/
inductive Duty (φ κ : Type) where
  | free
  | polled (ready : List ReadyEvent)
  | handling (cbs : List (Option (HookCallback κ))) (ready : List ReadyEvent)
  | taken (task : Task φ (HookCallback κ))
  | executing (f : φ)
  | timingOut (stage : TimeoutStage) (t : Timeout)

/-- A fiber has a state from its construction on, and a holder of its mutex while it runs. -/
structure Hooked (φ κ : Type) where
  manager : IOManager Unit φ (HookCallback κ) := {}
  timers : TimerManager (HookCallback κ) := {}
  infos : InfoId → TimerInfo := fun _ => {}
  infoCount : Nat := 0
  duty : Nat → Duty φ κ := fun _ => .free
  fiberState : φ → Option FiberState := fun _ => none
  mutex : φ → Option Nat := fun _ => none
  call : φ → Option DoIo := fun _ => none

/-- The statements of `do_io`; each takes what the system answers. -/
inductive IoOp where
  | attempt (r : IoResult)
  | arm (now : Int)
  | add (ok : Bool)
  | giveUp (errno : Errno)
  | yield
  | cancel
  | check
  | leave
  deriving DecidableEq, Repr

/-- The steps of the workers, and from `schedule` on those of any other code. -/
inductive HookAction (φ κ : Type) where
  | take (w i : Nat)
  | start (w : Nat) (f : φ)
  | call (w fd : Nat) (e : Event) (timeoutSo : SockOpt) (hookEnable : Bool) (ctx : Option FdCtx)
  | io (w : Nat) (op : IoOp)
  | pause (w : Nat) (done : Bool)
  | onTimer (w : Nat)
  | testCancelled (w : Nat)
  | setCancelled (w : Nat)
  | cancelTimedOut (w : Nat) (ok : Bool)
  | epollWait (w : Nat) (events : List ReadyEvent)
  | collect (w : Nat) (now now' : Int) (fuel : Nat)
  | submit (w : Nat)
  | dispatch (w : Nat) (ok : Bool)
  | schedule (task : Task φ κ)
  | addTimer (ms : Nat) (cb : Option κ) (recurring : Bool) (now : Int)
  | cancelTimer (t : TimerId)
  | addEvent (fd : Nat) (e : Event) (self : φ) (cb : Option κ) (ok : Bool)
  | delEvent (fd : Nat) (e : Event) (ok : Bool)
  | cancelEvent (fd : Nat) (e : Event) (ok : Bool)
  | cancelAll (fd : Nat) (ok : Bool)
  | closeFd (fd : Nat)

namespace Hooked
variable {φ κ : Type}

def setDuty (s : Hooked φ κ) (w : Nat) (d : Duty φ κ) : Hooked φ κ :=
  { s with duty := Function.update s.duty w d }

def setManager (s : Hooked φ κ) (m : IOManager Unit φ (HookCallback κ)) : Hooked φ κ :=
  { s with manager := m }

def setTimers (s : Hooked φ κ) (m : TimerManager (HookCallback κ)) : Hooked φ κ :=
  { s with timers := m }

def modifyInfo (s : Hooked φ κ) (i : InfoId) (f : TimerInfo → TimerInfo) : Hooked φ κ :=
  { s with infos := Function.update s.infos i (f (s.infos i)) }

def disown (s : Hooked φ κ) (i : InfoId) : Hooked φ κ :=
  s.modifyInfo i (fun x => { x with owners := x.owners - 1 })

/-- `scheduleLock`, without the `tickle` that it may end with. -/
def scheduleLock (s : Hooked φ κ) (task : Task φ (HookCallback κ)) : Hooked φ κ :=
  s.setManager { s.manager with tasks := s.manager.tasks ++ [((), task)] }

/-- `timer->cancel()`, if there is a timer. -/
def cancelOpt (s : Hooked φ κ) : Option TimerId → Hooked φ κ
  | none => s
  | some t => s.setTimers (s.timers.cancel t).2

/-- The kernel forgets a descriptor that is closed. -/
def closeFd (s : Hooked φ κ) (fd : Nat) : Hooked φ κ :=
  s.setManager { s.manager with epoll := Function.update s.manager.epoll fd none }

/-- A callback of other code, as `m_tasks` and `m_timers` hold it. -/
def plain (code : κ) : HookCallback κ := .call (.other code)

/-- The task that other code hands to `scheduleLock`. -/
def plainTask : Task φ κ → Task φ (HookCallback κ)
  | .fiber f => .fiber f
  | .call code => .call (plain code)

/-- The part of a worker's loop in `idle` and of its callbacks that runs on no fiber of others. -/
def workerStep (s : Hooked φ κ) (w : Nat) : HookAction φ κ → Duty φ κ → Option (Hooked φ κ)
  | .take _ i, .free => s.manager.tasks[i]?.map (fun q =>
      (s.setManager { s.manager with tasks := s.manager.tasks.eraseIdx i }).setDuty w (.taken q.2))
  | .onTimer _, .taken (.call (.onTimer weakCond (.timeout t))) =>
    if (s.infos weakCond).owners = 0 then some (s.setDuty w .free)
    else some ((s.modifyInfo weakCond (fun x => { x with owners := x.owners + 1 })).setDuty w
      (.timingOut .testing t))
  | .testCancelled _, .timingOut .testing t =>
    -- the callback owns its condition, so its own `lock` does not fail
    if (s.infos t.winfo).cancelled.isSome then some ((s.disown t.winfo).setDuty w .free)
    else some (s.setDuty w (.timingOut .setting t))
  | .setCancelled _, .timingOut .setting t =>
    some ((s.modifyInfo t.winfo (fun x => { x with cancelled := some .etimedout })).setDuty w
      (.timingOut .cancelling t))
  | .cancelTimedOut _ ok, .timingOut .cancelling t =>
    (s.manager.cancelEvent t.fd t.event ok).map (fun r =>
      ((s.setManager r.2).disown t.winfo).setDuty w .free)
  | .epollWait _ events, .free =>
    if events.all (Dispatcher.reports s.manager) then some (s.setDuty w (.polled events)) else none
  | .collect _ now now' fuel, .polled ready =>
    (s.timers.listExpiredCb now now' fuel).map (fun r =>
      (s.setTimers r.2).setDuty w (.handling (r.1.map (·.2)) ready))
  | .submit _, .handling (cb :: cbs) ready =>
    match cb with
    | none => some (s.setDuty w (.handling cbs ready))
    | some cb => some ((s.scheduleLock (.call cb)).setDuty w (.handling cbs ready))
  | .dispatch _ ok, .handling [] (r :: ready) =>
    (s.manager.dispatch r ok).map (fun m => (s.setManager m).setDuty w (.handling [] ready))
  | .dispatch _ _, .handling [] [] => some (s.setDuty w .free)
  | _, _ => none

section Fibers
variable [DecidableEq φ]

def setCall (s : Hooked φ κ) (f : φ) (c : Option DoIo) : Hooked φ κ :=
  { s with call := Function.update s.call f c }

def goto (s : Hooked φ κ) (f : φ) (c : DoIo) (pc : Pc) : Hooked φ κ :=
  s.setCall f (some { c with pc := pc })

/-- The frame of the call goes, and with it its share of the `timer_info`. -/
def finish (s : Hooked φ κ) (f : φ) (c : DoIo) (r : IoResult) : Hooked φ κ :=
  (s.goto f c (.returned r)).disown c.tinfo

/-- `resume`, under the mutex of the fiber. -/
def resume (s : Hooked φ κ) (w : Nat) (f : φ) : Hooked φ κ :=
  { s.setDuty w (.executing f) with
    fiberState := Function.update s.fiberState f (some .running),
    mutex := Function.update s.mutex f (some w),
    call := Function.update s.call f ((s.call f).map DoIo.resumed) }

/-- The fiber yields or ends, and the worker lets go of its mutex. -/
def park (s : Hooked φ κ) (w : Nat) (f : φ) (state : FiberState) : Hooked φ κ :=
  { s.setDuty w .free with
    fiberState := Function.update s.fiberState f (some state),
    mutex := Function.update s.mutex f none }

/-- A fiber task waits for the mutex of its fiber; a callback runs on a new fiber. -/
def start (s : Hooked φ κ) (w : Nat) (f : φ) : Task φ (HookCallback κ) → Option (Hooked φ κ)
  | .fiber g =>
    if g = f ∧ s.mutex f = none then
      match s.fiberState f with
      | some .ready => some (s.resume w f)
      | some .term => some (s.setDuty w .free)
      | _ => none
    else none
  | .call (.call (.other _)) =>
    if s.fiberState f = none ∧ s.call f = none then some (s.resume w f) else none
  | _ => none

/-- The next statement of a call of `do_io` by the fiber `f` on the worker `w`. -/
def ioStep (s : Hooked φ κ) (w : Nat) (f : φ) (c : DoIo) : IoOp → Pc → Option (Hooked φ κ)
  | .attempt r, .direct => some (s.finish f c r)
  | .attempt r, .attempt =>
    if r.n = -1 ∧ r.errno = .eintr then some s
    else if r.n = -1 ∧ r.errno = .eagain then some (s.goto f c .arm)
    else some (s.finish f c r)
  | .arm now, .arm =>
    match c.timeout with
    | none => some (s.goto f c (.add none))
    | some ms =>
      let (t, _, m) := s.timers.addConditionTimer ms (.timeout ⟨c.tinfo, c.fd, c.event⟩) c.tinfo
        false now
      some ((s.setTimers m).goto f { c with made := t :: c.made } (.add (some t)))
  | .add ok, .add timer =>
    (s.manager.addEvent c.fd c.event () f none ok).map (fun r =>
      (s.setManager r.2).goto f c (if r.1 = 0 then .yielding timer else .giveUp timer))
  | .giveUp errno, .giveUp timer => some ((s.cancelOpt timer).finish f c ⟨-1, errno⟩)
  | .yield, .yielding timer => some ((s.goto f c (.waiting timer)).park w f .ready)
  | .cancel, .woken timer => some ((s.cancelOpt timer).goto f c .check)
  | .check, .check =>
    if (s.infos c.tinfo).cancelled = some .etimedout then some (s.finish f c ⟨-1, .etimedout⟩)
    else some (s.goto f c .attempt)
  | .leave, .returned _ => some (s.setCall f none)
  | _, _ => none

/-- A fiber that is not in `do_io` calls it. -/
def enterCall (s : Hooked φ κ) (f : φ) (fd : Nat) (e : Event) (entry : Pc × Option Nat) :
    Hooked φ κ :=
  { s.modifyInfo s.infoCount (fun _ => { owners := 1 }) with
    infoCount := s.infoCount + 1
    call := Function.update s.call f (some
      { fd := fd, event := e, timeout := entry.2, tinfo := s.infoCount, pc := entry.1 }) }

/-- The steps of a worker that starts a fiber or executes one. -/
def fiberStep (s : Hooked φ κ) (w : Nat) : HookAction φ κ → Duty φ κ → Option (Hooked φ κ)
  | .start _ f, .taken task => s.start w f task
  | .call _ fd e timeoutSo hookEnable ctx, .executing f =>
    if s.call f = none then some (s.enterCall f fd e (DoIo.enter hookEnable ctx timeoutSo)) else none
  | .io _ op, .executing f => (s.call f).bind (fun c => s.ioStep w f c op c.pc)
  | .pause _ done, .executing f =>
    if s.call f = none then some (s.park w f (if done then .term else .ready)) else none
  | a, d => s.workerStep w a d

/-- A fiber that is handed over for the first time has been constructed before. -/
def constructed (s : Hooked φ κ) : Task φ κ → φ → Option FiberState
  | .fiber f => if s.fiberState f = none then
      Function.update s.fiberState f (some .ready) else s.fiberState
  | .call _ => s.fiberState

/-- The use of the manager by other code, on any thread. -/
def otherStep (s : Hooked φ κ) : HookAction φ κ → Option (Hooked φ κ)
  | .schedule task =>
    some ({ s with fiberState := s.constructed task }.scheduleLock (plainTask task))
  | .addTimer ms cb recurring now =>
    some (s.setTimers (s.timers.addTimer ms (cb.map plain) recurring now).2.2)
  | .cancelTimer t => some (s.setTimers (s.timers.cancel t).2)
  | .addEvent fd e self cb ok =>
    if cb.isNone → s.fiberState self = some .running ∧ s.call self = none then
      (s.manager.addEvent fd e () self (cb.map plain) ok).map (fun r => s.setManager r.2)
    else none
  | .delEvent fd e ok => some (s.setManager (s.manager.delEvent fd e ok).2)
  | .cancelEvent fd e ok => (s.manager.cancelEvent fd e ok).map (fun r => s.setManager r.2)
  | .cancelAll fd ok => (s.manager.cancelAll fd ok).map (fun r => s.setManager r.2)
  | .closeFd fd => some (s.closeFd fd)
  | _ => none

/-- The worker that takes a step, if it is one of a worker. -/
def worker : HookAction φ κ → Option Nat
  | .take w _ | .start w _ | .call w _ _ _ _ _ | .io w _ | .pause w _ | .onTimer w
  | .testCancelled w | .setCancelled w | .cancelTimedOut w _ | .epollWait w _ | .collect w _ _ _
  | .submit w | .dispatch w _ => some w
  | _ => none

def step (workers : Finset Nat) (s : Hooked φ κ) (a : HookAction φ κ) : Option (Hooked φ κ) :=
  match worker a with
  | some w => if w ∈ workers then s.fiberStep w a (s.duty w) else none
  | none => s.otherStep a

end Fibers
end Hooked
end CoroutineRpc.Coroutine
