import CoroutineRpc.Registry.System
import CoroutineRpc.Rpc.Provider

/-! What a registry handler does with the bytes it received: `read_once`, the log line and
`process`, every access to `m_read_buf` checked. -/
namespace CoroutineRpc.Registry
open Rpc Text

namespace RpcConn

def readOnce (conn : RpcConn) : Recv → Bool × RpcConn
  | .failed wouldBlock => (wouldBlock, conn)
  | .closed => (false, conn)
  | .got bytes => (true, { conn with readBuf := conn.readBuf.fill bytes })

/-- `ntohl` of four bytes as they lie in memory. -/
def ntohl (b0 b1 b2 b3 : UInt8) : Nat :=
  b0.toNat * 2 ^ 24 + b1.toNat * 2 ^ 16 + b2.toNat * 2 ^ 8 + b3.toNat

/-- The length that the message declares for itself. -/
def dataSize (conn : RpcConn) : Except OutOfBounds Nat := do
  let b0 ← conn.readBuf.read 0
  let b1 ← conn.readBuf.read 1
  let b2 ← conn.readBuf.read 2
  let b3 ← conn.readBuf.read 3
  pure (ntohl b0 b1 b2 b3)

/-- `Rpc_conn::process` up to the assignments from the header; no length is checked. -/
def decode (codec : HeaderCodec) (conn : RpcConn) : Except OutOfBounds (Option RpcConn) := do
  let size ← conn.dataSize
  let serializedData ← conn.readBuf.string 4 size
  pure ((codec.parseFromString serializedData).map conn.load)

/-- The outcome of handling one message. -/
structure Processed where
  result : Bool
  conn : RpcConn
  server : RpcServer
  sent : Option ByteString

/-- `Rpc_conn::process`. -/
def process (codec : HeaderCodec) (now : Int) (server : RpcServer) (conn : RpcConn) :
    Except OutOfBounds Processed := do
  match ← conn.decode codec with
  | none => pure ⟨false, conn, server, none⟩
  | some conn =>
    if conn.type = 1 then pure ⟨true, conn.reset, conn.notifyService now server, none⟩
    else pure ⟨true, conn.reset, server, some (conn.callingMethods server)⟩

/-- One round of `Rpc_server::handleClient`: the buffer is also logged as a C string. -/
def turn (codec : HeaderCodec) (now : Int) (server : RpcServer) (conn : RpcConn) (r : Recv) :
    Except OutOfBounds Processed :=
  match conn.readOnce r with
  | (false, conn) => pure ⟨false, conn, server, none⟩
  | (true, conn) => do
    let _ ← conn.readBuf.cString
    conn.process codec now server

end RpcConn

variable {κ ι : Type} [DecidableEq κ]

/-- The interleaving model is this code cut at its critical section: a decoded message
enters, and a query's reply is the one `process` sends. -/
theorem process_enter {codec : HeaderCodec} {s : System κ ι} {c : κ} {conn conn' : RpcConn}
    (hdecode : conn.decode codec = .ok (some conn')) :
    ∃ p, conn.process codec s.clock s.server = .ok p ∧ p.result = true ∧
      (s.enter c conn').server = p.server ∧
      (match p.sent with
        | none => (s.enter c conn').session c = .reading p.conn
        | some back => (s.enter c conn').session c = .replying conn' back s.history) := by
  rw [RpcConn.process, hdecode]
  by_cases htype : conn'.type = 1
  · refine ⟨⟨true, conn'.reset, conn'.notifyService s.clock s.server, none⟩, ?_, rfl, ?_, ?_⟩
    · simp only [bind, Except.bind, htype, if_true]
      rfl
    · simp [System.enter, htype]
    · simp [System.enter, htype]
  · refine ⟨⟨true, conn'.reset, s.server, some (conn'.callingMethods s.server)⟩, ?_, rfl, ?_, ?_⟩
    · simp only [bind, Except.bind, htype, if_false]
      rfl
    · simp [System.enter, htype]
    · simp [System.enter, htype]

end CoroutineRpc.Registry
