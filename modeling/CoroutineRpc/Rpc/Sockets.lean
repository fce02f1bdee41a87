import CoroutineRpc.Library.Transition
import CoroutineRpc.Rpc.Channel
import Mathlib.Data.Finset.Basic

/-! The life of a channel: its constructor, then any number of calls, stopped wherever one of
its functions returns and at the head of each of its loops. -/
namespace CoroutineRpc.Rpc
open Text

/-- The sockets that are opened and not yet closed, and whether any other was closed or used. -/
structure Sockets where
  live : Finset Int := ∅
  misused : Bool := false
  deriving DecidableEq

namespace Sockets

def use (s : Sockets) (fd : Int) : Sockets :=
  { s with misused := s.misused || !decide (fd ∈ s.live) }

def perform (s : Sockets) : SocketOp → Sockets
  | .opened fd => { s with live := insert fd s.live }
  | .connected fd _ => s.use fd
  | .sent fd _ _ => s.use fd
  | .received fd _ => s.use fd
  | .closed fd => { s.use fd with live := s.live.erase fd }

def performAll (s : Sockets) (ops : List SocketOp) : Sockets := ops.foldl perform s

end Sockets

/-- `socket` returns no negative number but -1. -/
def Connect.valid : Connect → Bool
  | .noSocket _ => true
  | .refused fd _ _ => 0 ≤ fd
  | .connected fd => 0 ≤ fd

/-- Where a channel is stopped: at a return, which of a call may be one behind both
serializations, or at the head of a loop. -/
inductive Stop where
  | unbuilt
  | constructing (tryCount : Nat)
  | returned (serialized : Bool)
  | serializing
  | sending (frame : ByteString)
  | receiving
  deriving DecidableEq, Repr

structure Life where
  stop : Stop := .unbuilt
  channel : Channel := { port := 0, ip := [] }
  sockets : Sockets := {}
  deriving DecidableEq

/-- What the program asks for, with what the operating system answers on the way. -/
inductive LifeAction where
  | construct (ip : ByteString) (port : Int16) (connectNow : Bool) (type : Int32) (c : Connect)
  | retry (c : Connect)
  | call (c : Connect)
  | serialize (frame : Option ByteString)
  | reconnect (c : Connect)
  | send (written : Nat)
  | recv (reply : Reply)
  deriving DecidableEq, Repr

def LifeAction.valid : LifeAction → Bool
  | .construct _ _ _ _ c | .retry c | .call c | .reconnect c => c.valid
  | .serialize _ | .send _ | .recv _ => true

namespace Life

/-- The operations of a part of the code, in order, up to the next stop. -/
def advance (s : Life) (stop : Stop) (channel : Channel) (ops : List SocketOp) : Life :=
  ⟨stop, channel, s.sockets.performAll ops⟩

/-- The condition `!rt && tryCount--` of the constructor's loop. -/
def tried (s : Life) (a : Attempt) (tryCount : Nat) : Life :=
  s.advance (if a.failed.isSome && tryCount != 0 then .constructing tryCount else .returned false)
    a.channel a.ops

/-- `Channel::Channel` up to its loop. -/
def construct (s : Life) (ch : Channel) (connectNow : Bool) (c : Connect) : Life :=
  if connectNow then s.tried (ch.newConnect c) 3 else s.advance (.returned false) ch []

/-- `Channel::CallMethod` up to its first serialization. -/
def call (s : Life) (c : Connect) : Life :=
  let a := s.channel.ensure c
  s.advance (if a.failed.isSome then .returned false else .serializing) a.channel a.ops

/-- A round of the loop around `send`. -/
def reconnect (s : Life) (frame : ByteString) (c : Connect) : Life :=
  let again := { s.channel with clientFd := -1 : Channel }.newConnect c
  s.advance (if again.failed.isSome then .returned true else .sending frame) again.channel
    (.sent s.channel.clientFd frame none :: .closed s.channel.clientFd :: again.ops)

/-- From `recv` to the end of the call; all three ways out close the socket. -/
def recv (s : Life) (reply : Reply) : Life :=
  s.advance (.returned true) { s.channel with clientFd := -1 }
    [.received s.channel.clientFd reply, .closed s.channel.clientFd]

def act (s : Life) : LifeAction → Stop → Option Life
  | .construct ip port connectNow type c, .unbuilt =>
    some (s.construct { type := type, port := port.toInt32, ip := ip } connectNow c)
  | .retry c, .constructing tryCount => some (s.tried (s.channel.newConnect c) (tryCount - 1))
  | .call c, .returned _ => some (s.call c)
  | .serialize none, .serializing => some (s.advance (.returned false) s.channel [])
  | .serialize (some frame), .serializing => some (s.advance (.sending frame) s.channel [])
  | .reconnect c, .sending frame => some (s.reconnect frame c)
  | .send written, .sending frame =>
    some (s.advance .receiving s.channel [.sent s.channel.clientFd frame (some written)])
  | .recv reply, .receiving => some (s.recv reply)
  | _, _ => none

def step (s : Life) (a : LifeAction) : Option Life := if a.valid then s.act a s.stop else none

end Life

/-- The open sockets are the one that the channel knows, no other was closed or used, and a
call that got past its serializations leaves none behind. -/
structure Accounted (s : Life) : Prop where
  live : s.sockets.live = if s.channel.clientFd = -1 then ∅ else {s.channel.clientFd}
  clean : s.sockets.misused = false
  closed : s.stop = .returned true → s.channel.clientFd = -1

end CoroutineRpc.Rpc
