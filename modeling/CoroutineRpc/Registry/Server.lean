import CoroutineRpc.Library.CBuffer
import CoroutineRpc.Rpc.Header
import Mathlib.Data.List.AList

/-! The registry's two maps and the connection slots that read and write them.
Each definition under a source name is one function or one critical section of it. -/
namespace CoroutineRpc.Registry
open Rpc Text

/-- `std::unordered_map`: at most one value for a key. -/
abbrev UnorderedMap (V : Type) := AList (fun _ : ByteString => V)

def readBufferSize : Nat := 2048

/-- `sizeof(std::string)`, the length that `Rpc_conn::reset` passes to memset. -/
def sizeofString : Nat := 32

/-- The maps of `Rpc_server`; times are seconds as returned by `std::time`. -/
structure RpcServer where
  serviceMap : UnorderedMap ByteString := ∅
  timeMap : UnorderedMap Int := ∅
  deriving DecidableEq

/-- A slot `users[fd]`. -/
structure RpcConn where
  readBuf : CBuffer readBufferSize := CBuffer.zeroed _
  argsSize : UInt32 := 0
  port : UInt32 := 0
  type : UInt32 := 0
  serviceName : ByteString := []
  methodName : ByteString := []
  ip : ByteString := []
  deriving DecidableEq

namespace RpcConn

/-- `string str=service_name+method_name`. -/
def key (conn : RpcConn) : ByteString := conn.serviceName ++ conn.methodName

/-- `string val=ip+":"+to_string(static_cast<int>(port))`. -/
def endpoint (conn : RpcConn) : ByteString :=
  conn.ip ++ colon :: intText conn.port.toInt32.toInt

/-- `Rpc_conn::NotifyService`, one critical section on `mtx`. -/
def notifyService (conn : RpcConn) (now : Int) (server : RpcServer) : RpcServer where
  serviceMap := server.serviceMap.insert conn.key conn.endpoint
  timeMap := server.timeMap.insert conn.key now

/-- `Rpc_conn::CallingMethods`: the reply chosen under `mtx`, sent afterwards. -/
def callingMethods (conn : RpcConn) (server : RpcServer) : ByteString :=
  match server.serviceMap.lookup conn.key with
  | some back => back
  | none => ascii "error"

/-- `Rpc_conn::reset` clears the length of another member, not of the buffer. -/
def reset (conn : RpcConn) : RpcConn := { conn with readBuf := conn.readBuf.clear sizeofString }

/-- The assignments that `Rpc_conn::process` makes from a parsed header. -/
def load (conn : RpcConn) (h : RpcHeader) : RpcConn :=
  { conn with
    serviceName := h.serviceName, methodName := h.methodName, ip := h.ip
    port := h.port, type := h.messageType, argsSize := h.argsSize }

@[simp] theorem load_key (conn : RpcConn) (h : RpcHeader) :
    (conn.load h).key = h.serviceName ++ h.methodName := rfl

end RpcConn

/-- The erasures that `Rpc_server::doHeartbeat` makes under one lock. -/
def RpcServer.expire (server : RpcServer) (key : ByteString) : RpcServer where
  serviceMap := server.serviceMap.erase key
  timeMap := server.timeMap.erase key

/-- The cast to `int` keeps the ports below 2^31 and no others. -/
theorem port_cast_eq_iff (p q : UInt32) :
    p.toInt32.toInt = (q.toNat : Int) ↔ p = q ∧ q.toNat < 2 ^ 31 := by
  have hp : p.toInt32.toInt = p.toBitVec.toInt := rfl
  have hpn : p.toBitVec.toNat = p.toNat := rfl
  have hlt := p.toNat_lt
  rw [hp, BitVec.toInt_eq_toNat_cond, hpn, ← UInt32.toNat_inj]
  split <;> omega

theorem notify_time_ne (conn : RpcConn) (now : Int) (server : RpcServer) {k : ByteString}
    (h : k ≠ conn.key) :
    (conn.notifyService now server).timeMap.lookup k = server.timeMap.lookup k :=
  AList.lookup_insert_ne h

theorem notify_service (conn : RpcConn) (now : Int) (server : RpcServer) :
    (conn.notifyService now server).serviceMap.lookup conn.key = some conn.endpoint :=
  AList.lookup_insert _

theorem notify_service_ne (conn : RpcConn) (now : Int) (server : RpcServer) {k : ByteString}
    (h : k ≠ conn.key) :
    (conn.notifyService now server).serviceMap.lookup k = server.serviceMap.lookup k :=
  AList.lookup_insert_ne h

/-- No key gains a timestamp by an expiry. -/
theorem expire_time_some {server : RpcServer} {k key : ByteString} {t : Int}
    (h : (server.expire key).timeMap.lookup k = some t) :
    k ≠ key ∧ server.timeMap.lookup k = some t := by
  by_cases hk : k = key
  · subst k
    simp [RpcServer.expire] at h
  · exact ⟨hk, by rwa [RpcServer.expire, AList.lookup_erase_ne hk] at h⟩

end CoroutineRpc.Registry
