import CoroutineRpc.Library.CBuffer
import CoroutineRpc.Rpc.Header

/-! The client end of a call. What the operating system answers is given call by call, and
every operation on a socket is recorded in the order in which it is made. -/
namespace CoroutineRpc.Rpc
open Text

/-- The outcome of the `socket` and `connect` calls of one `newConnect`. -/
inductive Connect where
  | noSocket (errno : Int)
  | refused (fd : Int) (errno : Int) (reason : ByteString)
  | connected (fd : Int)
  deriving DecidableEq, Repr

inductive Reply where
  | failed (errno : Int)
  | got (bytes : ByteString)
  deriving DecidableEq, Repr

inductive SocketOp where
  | opened (fd : Int)
  | connected (fd : Int) (ok : Bool)
  | sent (fd : Int) (bytes : ByteString) (written : Option Nat)
  | received (fd : Int) (reply : Reply)
  | closed (fd : Int)
  deriving DecidableEq, Repr

/-- Everything the network does during one call: the first connection, if one is needed,
a reconnection after each failing `send`, what the last `send` took and what `recv` gave. -/
structure Network where
  connect : Connect
  reconnects : List Connect
  written : Nat
  reply : Reply

/-- The client's view of a method: its names and the code of its two messages. -/
structure Stub (Q R : Type) where
  serviceName : ByteString
  methodName : ByteString
  serializeRequest : Q → Option ByteString
  parseResponse : ByteString → Option R

structure Channel where
  clientFd : Int := -1
  type : Int32 := -1
  port : Int32
  ip : ByteString
  deriving DecidableEq

/-- What a part of a call did: an error text ends the call. -/
structure Attempt where
  channel : Channel
  ops : List SocketOp
  failed : Option ByteString

/-- A finished call; `failed` is the text of `SetFailed`, if that was called. -/
structure Called (R : Type) where
  channel : Channel
  ops : List SocketOp
  failed : Option ByteString
  response : Option R

namespace Channel
variable {Q R : Type}

def newConnect (ch : Channel) : Connect → Attempt
  | .noSocket errno =>
    ⟨{ ch with clientFd := -1 }, [],
      some (ascii "create socket fail errno :" ++ intText errno ++ ascii " ")⟩
  | .refused fd errno reason =>
    ⟨{ ch with clientFd := -1 }, [.opened fd, .connected fd false, .closed fd],
      some (ascii "connect fail! errno " ++ intText errno ++ ascii ", error: " ++ reason)⟩
  | .connected fd => ⟨{ ch with clientFd := fd }, [.opened fd, .connected fd true], none⟩

/-- Connect unless the channel still has a connection. -/
def ensure (ch : Channel) (c : Connect) : Attempt :=
  if ch.clientFd = -1 then ch.newConnect c else ⟨ch, [], none⟩

def header (ch : Channel) (stub : Stub Q R) (args : ByteString) : RpcHeader where
  serviceName := stub.serviceName
  methodName := stub.methodName
  argsSize := UInt32.ofNat args.length
  messageType := ch.type.toUInt32
  ip := ch.ip
  port := ch.port.toUInt32

/-- `send_rpc_str`: the length of the header, the header and the arguments. -/
def frame (codec : HeaderCodec) (ch : Channel) (stub : Stub Q R) (args : ByteString) :
    Option ByteString :=
  (codec.serializeToString (ch.header stub args)).map (fun rpcHeaderStr =>
    codec.writeSized rpcHeaderStr ++ args)

/-- The frame of a request, if the request and its header can be serialized. -/
def requestFrame (codec : HeaderCodec) (ch : Channel) (stub : Stub Q R) (request : Q) :
    Option ByteString :=
  (stub.serializeRequest request).bind (ch.frame codec stub)

/-- The `while` around `send`: each failure closes the connection and opens another one.
A reconnection that fails ends the call, under the text of another error. -/
def sendLoop (frame : ByteString) (written : Nat) (ch : Channel) : List Connect → Attempt
  | [] => ⟨ch, [.sent ch.clientFd frame (some written)], none⟩
  | c :: cs =>
    let again := { ch with clientFd := -1 : Channel }.newConnect c
    let ops := .sent ch.clientFd frame none :: .closed ch.clientFd :: again.ops
    match again.failed with
    | some _ => ⟨again.channel, ops, some (ascii "serialize rpc header error!")⟩
    | none =>
      let rest := again.channel.sendLoop frame written cs
      ⟨rest.channel, ops ++ rest.ops, rest.failed⟩

/-- The size of `recv_buf`. -/
def recvBufSize : Nat := 1024

/-- The one `recv` of a call and the parsing of what it gave. The text of a parse error
takes the buffer for a C string. -/
def receive (stub : Stub Q R) (ch : Channel) (reply : Reply) : Except OutOfBounds (Called R) :=
  let ops := [.received ch.clientFd reply, .closed ch.clientFd]
  let closed := { ch with clientFd := -1 : Channel }
  match reply with
  | .failed errno => pure ⟨closed, ops, some (ascii "recv error! errno:" ++ intText errno), none⟩
  | .got bytes =>
    match stub.parseResponse bytes with
    | some response => pure ⟨closed, ops, none, some response⟩
    | none => do
      let shown ← ((CBuffer.zeroed recvBufSize).fill bytes).cString
      pure ⟨closed, ops, some (ascii "parse error! response_str:" ++ shown), none⟩

/-- `Channel::CallMethod`. -/
def callMethod (codec : HeaderCodec) (stub : Stub Q R) (ch : Channel) (request : Q)
    (net : Network) : Except OutOfBounds (Called R) :=
  let first := ch.ensure net.connect
  match first.failed with
  | some text => pure ⟨first.channel, first.ops, some text, none⟩
  | none =>
    match stub.serializeRequest request with
    | none => pure ⟨first.channel, first.ops, some (ascii "serialize request error!"), none⟩
    | some args =>
      match first.channel.frame codec stub args with
      | none => pure ⟨first.channel, first.ops, some (ascii "serialize rpc header error!"), none⟩
      | some frame =>
        let sending := first.channel.sendLoop frame net.written net.reconnects
        match sending.failed with
        | some text => pure ⟨sending.channel, first.ops ++ sending.ops, some text, none⟩
        | none => do
          let called ← sending.channel.receive stub net.reply
          pure { called with ops := first.ops ++ sending.ops ++ called.ops }

end Channel
end CoroutineRpc.Rpc
