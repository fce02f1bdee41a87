import CoroutineRpc.Coroutine.SocketTimeouts
import CoroutineRpc.Server.Socket

/-! The listening server: the sockets it has bound, the tasks that accept on them, and the clients
that the tasks hand over. An object lives as long as `m_socks` or a task refers to it. -/
namespace CoroutineRpc.Server
open Coroutine

/-- A task that runs `startAccept`: before the test of its loop, or in `accept` with the object that
is to be the client. -/
inductive Loop (κ : Type) where
  | atHead (sock : κ)
  | accepting (sock : κ) (client : Socket)
  | ended
  deriving DecidableEq

/-- The listening socket that the task refers to. -/
def Loop.sock {κ : Type} : Loop κ → Option κ
  | .atHead sock => some sock
  | .accepting sock _ => some sock
  | .ended => none

/-- The task that runs `handleClient` for a client. -/
inductive Handler where
  | unborn
  | scheduled
  | running
  | ended
  deriving DecidableEq

/-- The members of `TcpServer` and its tasks; `stopping` counts the tasks of `stop` that have not
run. `handed` only records the clients, newest first. -/
structure TcpServer (κ : Type) where
  world : World Unit κ := {}
  socks : List κ := []
  isStop : Bool := true
  ssl : Bool := false
  recvTimeout : Nat := 120000
  loops : List (Loop κ) := []
  stopping : Nat := 0
  handler : κ → Handler := fun _ => .unborn
  handed : List κ := []

/-- One address of `bind`, with the object made for it and what the kernel answers. -/
structure BindTry (κ : Type) where
  addr : SockAddr
  sock : κ
  tmp : κ
  fresh : Option Nat
  tmpFresh : Option Nat
  answered : Bool
  bindOk : Bool
  listenOk : Bool
  names : Names

inductive ServerAction (κ : Type) where
  | bind (ssl : Bool) (hookEnable : Bool) (fails : List SockAddr) (tries : List (BindTry κ))
  | start
  | stop
  | stopTask (hookEnable : Bool)
  | turn (n : Nat) (hookEnable : Bool)
  | accepted (n : Nat) (client : κ) (hookEnable : Bool) (newsock : Option Nat) (names : Names)
      (handshake : Bool) (optionOk : Bool)
  | serve (c : κ)
  | finish (c : κ) (hookEnable : Bool)
  | other (fd : Nat) (call : LayerCall)

variable {κ : Type} [DecidableEq κ]

/-- `sock->bind(addr)` and `sock->listen()`. A Unix path that answers is in use. -/
def World.tryBind (k : Settable) (w : World Unit κ) (ssl hookEnable : Bool) (t : BindTry κ) :
    Option (World Unit κ × Bool) :=
  (w.step k (.create t.sock t.addr.family .tcp ssl)).bind fun w =>
    (w.step k (.bind () t.sock t.addr hookEnable t.fresh t.tmp t.tmpFresh t.bindOk t.names)).bind
      fun w =>
        (if (w.waiting ()).isSome then w.step k (.probed () hookEnable t.answered t.bindOk t.names)
          else some w).map fun w =>
            (w, !(t.addr.isUnix && t.tmpFresh.isSome && t.answered) && t.bindOk &&
              (w.held t.sock).isSome && t.listenOk)

/-- The loop of `bind`, with the sockets that it appends and the addresses that fail. -/
def World.bindAll (k : Settable) (ssl hookEnable : Bool) :
    World Unit κ → List (BindTry κ) → Option (World Unit κ × List κ × List SockAddr)
  | w, [] => some (w, [], [])
  | w, t :: ts =>
    (w.tryBind k ssl hookEnable t).bind fun
      | (w, true) =>
        (World.bindAll k ssl hookEnable w ts).map fun (w, socks, fails) =>
          (w, t.sock :: socks, fails)
      | (w, false) =>
        -- nothing refers to the socket behind the end of the round
        (w.step k (.destroy t.sock hookEnable)).bind fun w =>
          (World.bindAll k ssl hookEnable w ts).map fun (w, socks, fails) =>
            (w, socks, t.addr :: fails)

namespace TcpServer

/-- A task refers to the socket. -/
def used (s : TcpServer κ) (c : κ) : Bool := s.loops.any (fun l => l.sock == some c)

/-- `m_socks` no longer refers to these sockets; behind the last reference the object is gone. -/
def unref (k : Settable) (hookEnable : Bool) (s : TcpServer κ) : List κ → Option (TcpServer κ)
  | [] => some s
  | c :: cs =>
    if s.used c || (s.world.object c).isNone then s.unref k hookEnable cs
    else (s.world.step k (.destroy c hookEnable)).bind fun world =>
      { s with world := world }.unref k hookEnable cs

/-- `m_socks.clear()`. -/
def clear (k : Settable) (s : TcpServer κ) (hookEnable : Bool) : Option (TcpServer κ) :=
  { s with socks := [] }.unref k hookEnable s.socks

/-- `TcpServer::bind`; it returns true if no address is left in the caller's `fails`. -/
def bind (k : Settable) (s : TcpServer κ) (ssl hookEnable : Bool) (fails : List SockAddr)
    (tries : List (BindTry κ)) : Option (TcpServer κ × List SockAddr) :=
  (s.world.bindAll k ssl hookEnable tries).bind fun (world, socks, failed) =>
    let s := { s with world := world, socks := s.socks ++ socks, ssl := ssl }
    let fails := fails ++ failed
    if fails.isEmpty then some (s, fails) else (s.clear k hookEnable).map fun s => (s, fails)

/-- `TcpServer::start`. -/
def start (s : TcpServer κ) : TcpServer κ :=
  if s.isStop then { s with isStop := false, loops := s.loops ++ s.socks.map .atHead } else s

/-- `TcpServer::stop`. -/
def stop (s : TcpServer κ) : TcpServer κ := { s with isStop := true, stopping := s.stopping + 1 }

/-- `sock->close()` for each socket; `cancelAll` only wakes the tasks. -/
def closeAll (k : Settable) (hookEnable : Bool) (s : TcpServer κ) : List κ → Option (TcpServer κ)
  | [] => some s
  | c :: cs =>
    (s.world.step k (.close c hookEnable)).bind fun world =>
      { s with world := world }.closeAll k hookEnable cs

/-- The task that `stop` schedules. -/
def stopTask (k : Settable) (s : TcpServer κ) (hookEnable : Bool) : Option (TcpServer κ) :=
  if s.stopping = 0 then none
  else ({ s with stopping := s.stopping - 1 }.closeAll k hookEnable s.socks).bind fun s =>
    s.clear k hookEnable

/-- The test of the loop in `startAccept`, and the call of `accept` or the end of the task. -/
def turn (k : Settable) (s : TcpServer κ) (n : Nat) (hookEnable : Bool) : Option (TcpServer κ) :=
  match s.loops[n]? with
  | some (.atHead c) =>
    if s.isStop then
      let s := { s with loops := s.loops.set n .ended }
      if c ∈ s.socks then some s else s.unref k hookEnable [c]
    else (s.world.object c).map fun o =>
      let client : Socket := { family := o.family, type := o.type, ssl := o.ssl }
      { s with loops := s.loops.set n (.accepting c client) }
  | _ => none

/-- `startAccept` from the return of `sock->accept()` on. -/
def accepted (k : Settable) (s : TcpServer κ) (n : Nat) (client : κ) (hookEnable : Bool)
    (newsock : Option Nat) (names : Names) (handshake optionOk : Bool) : Option (TcpServer κ) :=
  match s.loops[n]? with
  | some (.accepting c o) =>
    if (s.world.object client).isSome || s.handler client != .unborn then none
    else (s.world.accepted k client o hookEnable newsock names handshake).bind fun world =>
      let s := { s with world := world, loops := s.loops.set n (.atHead c) }
      match world.held client with
      | none => some s
      | some fd =>
        (world.perform k fd (.setsockopt hookEnable .rcvTimeo (socketTimeval s.recvTimeout)
          optionOk)).map fun world =>
          { s with
            world := world, handler := Function.update s.handler client .scheduled
            handed := client :: s.handed }
  | _ => none

def step (k : Settable) (s : TcpServer κ) : ServerAction κ → Option (TcpServer κ)
  | .bind ssl hookEnable fails tries => (s.bind k ssl hookEnable fails tries).map (·.1)
  | .start => some s.start
  | .stop => some s.stop
  | .stopTask hookEnable => s.stopTask k hookEnable
  | .turn n hookEnable => s.turn k n hookEnable
  | .accepted n client hookEnable newsock names handshake optionOk =>
    s.accepted k n client hookEnable newsock names handshake optionOk
  | .serve c =>
    match s.handler c with
    | .scheduled => some { s with handler := Function.update s.handler c .running }
    | _ => none
  | .finish c hookEnable =>
    -- `client->close()`, and the task lets go of the client
    match s.handler c with
    | .running =>
      (s.world.step k (.destroy c hookEnable)).map fun world =>
        { s with world := world, handler := Function.update s.handler c .ended }
    | _ => none
  | .other fd call => (s.world.other k fd call).map fun world => { s with world := world }

end TcpServer
end CoroutineRpc.Server
