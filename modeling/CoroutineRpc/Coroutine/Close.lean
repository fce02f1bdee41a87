import CoroutineRpc.Coroutine.Hook

/-! One hooked `close` of a socket, and the fibers that use the socket in `do_io` on the workers
of any number of managers. Only the manager of the closing worker is told. -/
namespace CoroutineRpc.Coroutine

/-- How far `close` has come; each of its three calls is a step. -/
inductive CloseStage where
  | opened
  | cancelled
  | deleted
  | closed
  deriving DecidableEq, Repr

/-- Where a call of `do_io` is that has passed the checks at its start. -/
inductive SocketPc where
  | attempt
  | add
  | waiting
  deriving DecidableEq, Repr

/-- A call of `do_io` on the socket: the manager of its worker, the event it waits for, and
whether it has started before the `close`. -/
structure SocketCall (μ : Type) where
  home : μ
  event : Event
  pc : SocketPc := .attempt
  early : Bool
  deriving DecidableEq

/-- `made` records for a registered event whether an early call has registered it. -/
structure Socket (μ φ : Type) where
  manager : μ → IOManager Unit φ Unit
  ctx : Option FdCtx
  call : φ → Option (SocketCall μ) := fun _ => none
  stage : CloseStage := .opened
  made : μ → Event → Bool := fun _ _ => false

/-- `cancelEvent` is called by timers, `schedule` by anybody; `cancelAll`, `del` and `closeF`
are the steps of the `close`. -/
inductive SocketAction (μ φ : Type) where
  | call (f : φ) (m : μ) (e : Event) (timeoutSo : SockOpt)
  | attempt (f : φ) (r : IoResult)
  | add (f : φ)
  | resume (m : μ) (f : φ) (timedOut : Bool)
  | take (m : μ) (q : Unit × Task φ Unit)
  | schedule (m : μ) (q : Unit × Task φ Unit)
  | cancelEvent (m : μ) (e : Event)
  | dispatch (m : μ) (ready : ReadyEvent)
  | cancelAll (m : μ)
  | del
  | closeF

namespace Socket
variable {μ φ : Type}

/-- `epoll_ctl` succeeds as long as the descriptor is open. -/
def alive (s : Socket μ φ) : Bool := s.stage != .closed

/-- The fiber is suspended in `do_io`. -/
def Waits (s : Socket μ φ) (f : φ) : Prop := ∃ c, s.call f = some c ∧ c.pc = .waiting

variable [DecidableEq μ] [DecidableEq φ]

def setManager (s : Socket μ φ) (m : μ) (x : IOManager Unit φ Unit) : Socket μ φ :=
  { s with manager := Function.update s.manager m x }

def setCall (s : Socket μ φ) (f : φ) (c : Option (SocketCall μ)) : Socket μ φ :=
  { s with call := Function.update s.call f c }

def dequeue (s : Socket μ φ) (m : μ) (q : Unit × Task φ Unit) : Socket μ φ :=
  s.setManager m { s.manager m with tasks := (s.manager m).tasks.erase q }

/-- The steps of a call after its start. A closed descriptor does not answer `EAGAIN`. -/
def ioStep (fd : Nat) (s : Socket μ φ) (f : φ) (c : SocketCall μ) :
    SocketAction μ φ → SocketPc → Option (Socket μ φ)
  | .attempt _ r, .attempt =>
    if r.n = -1 ∧ r.errno = .eintr then some s
    else if r.n = -1 ∧ r.errno = .eagain then
      if s.alive then some (s.setCall f (some { c with pc := .add })) else none
    else some (s.setCall f none)
  | .add _, .add =>
    ((s.manager c.home).addEvent fd c.event () f none s.alive).map (fun r =>
      if r.1 = 0 then
        { (s.setManager c.home r.2).setCall f (some { c with pc := .waiting }) with
          made := Function.update s.made c.home
            (Function.update (s.made c.home) c.event c.early) }
      else (s.setManager c.home r.2).setCall f none)
  | .resume m _ timedOut, .waiting =>
    if ((), .fiber f) ∈ (s.manager m).tasks then
      some ((s.dequeue m ((), .fiber f)).setCall f
        (if timedOut then none else some { c with pc := .attempt }))
    else none
  | _, _ => none

def step (fd : Nat) (s : Socket μ φ) (a : SocketAction μ φ) : Option (Socket μ φ) :=
  match a with
  | .call f m e timeoutSo =>
    if s.call f = none ∧ (DoIo.enter true s.ctx timeoutSo).1 = .attempt then
      some (s.setCall f (some { home := m, event := e, early := s.stage == .opened }))
    else none
  | .attempt f _ | .add f | .resume _ f _ => (s.call f).bind (fun c => s.ioStep fd f c a c.pc)
  | .take m q =>
    match q.2 with
    | .fiber f =>
      -- a worker that takes the task of a suspended fiber resumes it
      match s.call f with
      | some c => if c.pc = .waiting then none else some (s.dequeue m q)
      | none => some (s.dequeue m q)
    | .call _ => some (s.dequeue m q)
  | .schedule m q =>
    some (s.setManager m { s.manager m with tasks := (s.manager m).tasks ++ [q] })
  | .cancelEvent m e =>
    ((s.manager m).cancelEvent fd e s.alive).map (fun r => s.setManager m r.2)
  | .dispatch m ready =>
    if ready.fd = fd then ((s.manager m).dispatch ready s.alive).map (s.setManager m) else none
  | .cancelAll m =>
    if s.stage = .opened ∧ s.ctx.isSome then
      ((s.manager m).cancelAll fd true).map (fun r =>
        { s.setManager m r.2 with stage := .cancelled })
    else none
  | .del => if s.stage = .cancelled then some { s with ctx := none, stage := .deleted } else none
  | .closeF => if s.stage = .deleted then some { s with stage := .closed } else none

/-- Nobody uses the socket yet. -/
def Fresh (fd : Nat) (s : Socket μ φ) : Prop :=
  (∀ m, (s.manager m).Consistent ∧ ((s.manager m).contexts fd).events = {}) ∧
    (∀ f, s.call f = none) ∧ s.stage = .opened

/-- No registration of an early call is left or counted, and the fibers of early calls that
are still suspended have been handed to a scheduler. -/
structure Released (fd : Nat) (s : Socket μ φ) : Prop where
  unregistered : ∀ m e, ((s.manager m).contexts fd).events.has e = true → s.made m e = false
  counted : ∀ m, (s.manager m).pendingEventCount = (s.manager m).registered
  scheduled : ∀ f c, s.call f = some c → c.early = true → c.pc = .waiting →
    ((), .fiber f) ∈ (s.manager c.home).tasks

/-- Once `close` has returned, everybody who was waiting has been woken. -/
def CloseWakes (fd : Nat) (s : Socket μ φ) : Prop := s.stage = .closed → s.Released fd

/-- At `cancelAll` no other manager has a registration for the socket, and no early call
registers between `cancelAll` and the end of the `close`. -/
def OneManager (fd : Nat) (s : Socket μ φ) : SocketAction μ φ → Prop
  | .cancelAll m => ∀ m', m' ≠ m → ((s.manager m').contexts fd).events = {}
  | .add f => ∀ c, s.call f = some c → c.early = true → s.stage = .opened ∨ s.stage = .closed
  | _ => True

end Socket
end CoroutineRpc.Coroutine
