import CoroutineRpc.Registry.Process
import Mathlib.Data.Finset.Basic

/-! The tasks that handle the registry's connections. Each connection has a socket of its own,
but the slot that its handler works in is chosen by the descriptor number, and the next connection
that the kernel gives the same number works in the same slot. -/
namespace CoroutineRpc.Registry
open Rpc

/-- `MAX_FD`, the length of the array `users`. -/
def maxFd : Nat := 65536

/-- Where the handler of a connection is. While it runs it uses `users[slot]`, and `socket` is what
`m_client` was when it called `recv` or `send`. -/
inductive Handling (κ : Type) where
  | unborn
  | scheduled
  | receiving (slot : Nat) (socket : Option κ)
  | sending (slot : Nat) (socket : Option κ) (back : ByteString)
  | ended
  deriving DecidableEq

/-- The registry with its slots. A connection is named by its `Socket` object, whose `m_sock` is
`none` for -1; `opened` are the descriptors of connections, and `sent` only records. -/
structure Handlers (κ ι : Type) where
  server : RpcServer := {}
  clock : Int := 0
  sweep : ι → Sweep := fun _ => .asleep
  users : Nat → RpcConn := fun _ => {}
  client : Nat → Option κ := fun _ => none
  sock : κ → Option Nat := fun _ => none
  opened : Finset Nat := ∅
  handling : κ → Handling κ := fun _ => .unborn
  sent : List (Option κ × ByteString) := []

/-- `accept` is a turn of `startAccept`, and `heartbeat` a step of the clock or of `doHeartbeat`. -/
inductive HandlerAction (κ ι : Type) where
  | accept (c : κ) (fd : Nat)
  | start (c : κ)
  | returned (c : κ) (r : Recv)
  | sent (c : κ)
  | heartbeat (a : Action κ ι)

/-- `read_once`, the log line and `process` up to the assignments from the header. -/
def RpcConn.round (codec : HeaderCodec) (conn : RpcConn) (r : Recv) :
    Except OutOfBounds (RpcConn × Option RpcConn) :=
  match conn.readOnce r with
  | (false, conn) => pure (conn, none)
  | (true, conn) => do
    let _ ← conn.readBuf.cString
    let loaded ← conn.decode codec
    pure (conn, loaded)

def Action.isHeartbeat {κ ι : Type} : Action κ ι → Bool
  | .tick _ | .wake _ | .copy _ _ | .visit _ => true
  | _ => false

namespace Handlers
variable {κ ι : Type} [DecidableEq κ]

def setHandling (s : Handlers κ ι) (c : κ) (h : Handling κ) : Handlers κ ι :=
  { s with handling := Function.update s.handling c h }

def setUser (s : Handlers κ ι) (slot : Nat) (conn : RpcConn) : Handlers κ ι :=
  { s with users := Function.update s.users slot conn }

/-- `Socket::close`. -/
def close (s : Handlers κ ι) (c : κ) : Handlers κ ι :=
  match s.sock c with
  | none => s
  | some fd => { s with sock := Function.update s.sock c none, opened := s.opened.erase fd }

/-- The label `end` of `handleClient`. -/
def finish (s : Handlers κ ι) (c : κ) : Handlers κ ι := (s.close c).setHandling c .ended

/-- The head of the loop, and the call of `recv` behind it. -/
def again (s : Handlers κ ι) (c : κ) (slot : Nat) : Handlers κ ι :=
  if (s.sock c).isSome then s.setHandling c (.receiving slot (s.client slot)) else s.finish c

/-- The slot lets go of an earlier connection. Behind its handler that was the last reference, and
the destructor closes. -/
def release (s : Handlers κ ι) (slot : Nat) : Handlers κ ι :=
  match s.client slot with
  | none => s
  | some d =>
    match s.handling d with
    | .ended => s.close d
    | _ => s

/-- `Rpc_conn::init`. -/
def init (s : Handlers κ ι) (slot : Nat) (c : κ) : Handlers κ ι :=
  let s := s.release slot
  { s.setUser slot (s.users slot).reset with client := Function.update s.client slot (some c) }

/-- `handleClient` up to its first `recv`. -/
def start (s : Handlers κ ι) (c : κ) : Option (Handlers κ ι) :=
  match s.sock c with
  | none => some (s.finish c)
  | some fd => if fd < maxFd then some ((s.init fd c).again c fd) else none

/-- A round of the loop from the return of `recv` on, up to the `send` of a reply. -/
def returned (codec : HeaderCodec) (s : Handlers κ ι) (c : κ) (slot : Nat) (r : Recv) :
    Option (Handlers κ ι) :=
  match (s.users slot).round codec r with
  | .error _ => none
  | .ok (conn, none) => some ((s.setUser slot conn).finish c)
  | .ok (_, some conn) =>
    if conn.type = 1 then
      some ({ s.setUser slot conn.reset with
        server := conn.notifyService s.clock s.server }.again c slot)
    else
      some ((s.setUser slot conn).setHandling c
        (.sending slot (s.client slot) (conn.callingMethods s.server)))

/-- The registry as its sweeps see it. -/
def view (s : Handlers κ ι) : System κ ι :=
  { server := s.server, clock := s.clock, sweep := s.sweep }

variable [DecidableEq ι]

def step (codec : HeaderCodec) (s : Handlers κ ι) : HandlerAction κ ι → Option (Handlers κ ι)
  | .accept c fd =>
    match s.handling c with
    | .unborn =>
      -- the kernel returns no number that is in use
      if fd ∈ s.opened then none
      else some { s.setHandling c .scheduled with
        sock := Function.update s.sock c (some fd), opened := insert fd s.opened }
    | _ => none
  | .start c =>
    match s.handling c with
    | .scheduled => s.start c
    | _ => none
  | .returned c r =>
    match s.handling c with
    | .receiving slot _ => s.returned codec c slot r
    | _ => none
  | .sent c =>
    match s.handling c with
    | .sending slot socket back =>
      some ({ s.setUser slot (s.users slot).reset with sent := (socket, back) :: s.sent }.again c slot)
    | _ => none
  | .heartbeat a =>
    if a.isHeartbeat then
      (Registry.step s.view a).map (fun v =>
        { s with server := v.server, clock := v.clock, sweep := v.sweep })
    else none

end Handlers

/-- A round with its reply is the sequential code, cut where `send` may suspend. -/
theorem turn_eq_round (codec : HeaderCodec) (now : Int) (server : RpcServer) (conn : RpcConn)
    (r : Recv) :
    conn.turn codec now server r = (conn.round codec r).map (fun
      | (conn, none) => ⟨false, conn, server, none⟩
      | (_, some conn) =>
        if conn.type = 1 then ⟨true, conn.reset, conn.notifyService now server, none⟩
        else ⟨true, conn.reset, server, some (conn.callingMethods server)⟩) := by
  unfold RpcConn.turn RpcConn.round
  rcases conn.readOnce r with ⟨more, received⟩
  cases more with
  | false => rfl
  | true =>
    dsimp only
    cases received.readBuf.cString with
    | error e => rfl
    | ok shown =>
      simp only [bind, Except.bind, RpcConn.process]
      cases received.decode codec with
      | error e => rfl
      | ok loaded =>
        cases loaded with
        | none => rfl
        | some loaded =>
          simp only [pure, Except.pure, Except.map]
          split
          · rfl
          · rfl

end CoroutineRpc.Registry
