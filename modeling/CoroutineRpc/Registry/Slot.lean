import CoroutineRpc.Library.Transition
import CoroutineRpc.Registry.ReadSafety

/-! What a message leaves behind in the slot `users[fd]` for the next one. A reset clears the
first 32 bytes of the buffer, so everything behind them is older than the message. -/
namespace CoroutineRpc.Registry
open Rpc

/-- What happens to a slot: a connection starts, or its handler makes one round. -/
inductive SlotAction where
  | init
  | turn (r : Recv) (server : RpcServer) (now : Int)

/-- A slot as `new Rpc_conn[MAX_FD]` makes it; the buffer is not initialized. -/
def RpcConn.Constructed (conn : RpcConn) : Prop := conn = { readBuf := conn.readBuf }

/-- The handlers that use a slot one after the other; `init` resets it. -/
def slotStep (codec : HeaderCodec) (conn : RpcConn) : SlotAction → Option RpcConn
  | .init => some conn.reset
  | .turn r server now =>
    match conn.turn codec now server r with
    | .ok p => some p.conn
    | .error _ => none

/-- The slot right after an `init`, or after a round whose message was handled and reset. -/
def RpcConn.Cleared (codec : HeaderCodec) (conn : RpcConn) : Prop :=
  ∃ before, Transition.Reachable (slotStep codec) RpcConn.Constructed before ∧
    (conn = before.reset ∨ ∃ r server now p, before.turn codec now server r = .ok p ∧
      p.result = true ∧ conn = p.conn)

/-- The slot after the next `recv`. -/
def RpcConn.receive (conn : RpcConn) (d : Delivery) : RpcConn :=
  { conn with readBuf := d.into conn.readBuf }

/-- What a header decides: the two names, the address, the port and the type. -/
def decoded (h : RpcHeader) : ByteString × ByteString × ByteString × UInt32 × UInt32 :=
  (h.serviceName, h.methodName, h.ip, h.port, h.messageType)

/-- Two runs of `process` with the same result, the same decoded members, the same maps and
the same reply. -/
structure Agree (p q : RpcConn.Processed) : Prop where
  result : p.result = q.result
  decoded : p.result = true → p.conn.serviceName = q.conn.serviceName ∧
    p.conn.methodName = q.conn.methodName ∧ p.conn.ip = q.conn.ip ∧ p.conn.port = q.conn.port ∧
    p.conn.type = q.conn.type
  server : p.server = q.server
  sent : p.sent = q.sent

/-- The message is handled in the same way after every two pasts of the slot. -/
def Noninterfering (codec : HeaderCodec) (d : Delivery) : Prop :=
  ∀ conn conn' : RpcConn, conn.Cleared codec → conn'.Cleared codec → ∀ now server,
    ∃ p q, (conn.receive d).process codec now server = .ok p ∧
      (conn'.receive d).process codec now server = .ok q ∧ Agree p q

/-- The bytes that are certain: the received ones, and zeros up to the end of the reset. -/
def known (d : Delivery) : ByteString :=
  d.bytes ++ List.replicate (sizeofString - d.bytes.length) 0

/-- The declared part of the message ends inside the buffer, and inside the bytes that are
certain unless the parser takes no notice of the bytes behind them. -/
def SelfContained (codec : HeaderCodec) (d : Delivery) : Prop :=
  ∀ size, declared (d.into (CBuffer.zeroed _)) = .ok size →
    4 + size ≤ readBufferSize ∧ (4 + size ≤ (known d).length ∨
      ∀ stale stale' : ByteString, stale.length = 4 + size - (known d).length →
        stale'.length = 4 + size - (known d).length →
        (codec.parseFromString ((known d).drop 4 ++ stale)).map decoded =
          (codec.parseFromString ((known d).drop 4 ++ stale')).map decoded)

theorem known_length (d : Delivery) : (known d).length = max sizeofString d.bytes.length := by
  simp only [known, List.length_append, List.length_replicate]
  omega

/-- A reset leaves zeros in front and the rest as it was. -/
theorem reset_bytes (conn : RpcConn) : conn.reset.readBuf.bytes =
    List.replicate sizeofString 0 ++ conn.readBuf.bytes.drop sizeofString := by
  have hle : (List.replicate sizeofString (0 : UInt8)).length ≤ readBufferSize := by decide
  simp only [RpcConn.reset, CBuffer.clear]
  rw [CBuffer.fill_bytes _ hle, List.length_replicate]

private theorem reset_front (conn : RpcConn) :
    conn.reset.readBuf.bytes.take sizeofString = List.replicate sizeofString 0 := by
  rw [reset_bytes, List.take_left' List.length_replicate]

/-- `process` as a function of the header that was parsed. -/
def RpcConn.finish (conn : RpcConn) (now : Int) (server : RpcServer) :
    Option RpcHeader → RpcConn.Processed
  | none => ⟨false, conn, server, none⟩
  | some h =>
    if h.messageType = 1 then
      ⟨true, (conn.load h).reset, (conn.load h).notifyService now server, none⟩
    else ⟨true, (conn.load h).reset, server, some ((conn.load h).callingMethods server)⟩

theorem finish_result (conn : RpcConn) (now : Int) (server : RpcServer) (x : Option RpcHeader) :
    (conn.finish now server x).result = x.isSome := by
  cases x with
  | none => rfl
  | some h =>
    unfold RpcConn.finish
    dsimp only
    split
    · rfl
    · rfl

theorem finish_conn (conn : RpcConn) (now : Int) (server : RpcServer) (h : RpcHeader) :
    (conn.finish now server (some h)).conn = (conn.load h).reset := by
  unfold RpcConn.finish
  dsimp only
  split
  · rfl
  · rfl

theorem process_eq {codec : HeaderCodec} {conn : RpcConn} {size : Nat} (now : Int)
    (server : RpcServer) (hsize : conn.dataSize = .ok size) (hfit : 4 + size ≤ readBufferSize) :
    conn.process codec now server = .ok (conn.finish now server
      (codec.parseFromString ((conn.readBuf.bytes.drop 4).take size))) := by
  rw [RpcConn.process, decode_ok hsize hfit]
  cases codec.parseFromString ((conn.readBuf.bytes.drop 4).take size) with
  | none => rfl
  | some h =>
    have htype : (conn.load h).type = h.messageType := rfl
    by_cases hnotify : h.messageType = 1
    · simp only [bind, Except.bind, Option.map_some, htype, RpcConn.finish, if_pos hnotify]
      rfl
    · simp only [bind, Except.bind, Option.map_some, htype, RpcConn.finish, if_neg hnotify]
      rfl

/-- Only a round that has processed a message reports success. -/
theorem turn_processed {codec : HeaderCodec} {conn : RpcConn} {now : Int} {server : RpcServer}
    {r : Recv} {p : RpcConn.Processed} (h : conn.turn codec now server r = .ok p)
    (hresult : p.result = true) :
    ∃ received : RpcConn, received.process codec now server = .ok p := by
  unfold RpcConn.turn at h
  split at h
  · cases h
    cases hresult
  · obtain ⟨_, -, hprocess⟩ := bind_eq_ok.mp h
    exact ⟨_, hprocess⟩

theorem finish_front {conn : RpcConn} {now : Int} {server : RpcServer} {x : Option RpcHeader}
    (h : (conn.finish now server x).result = true) :
    (conn.finish now server x).conn.readBuf.bytes.take sizeofString =
      List.replicate sizeofString 0 := by
  cases x with
  | none => cases h
  | some header =>
    unfold RpcConn.finish
    dsimp only
    split
    · exact reset_front _
    · exact reset_front _

theorem cleared_front {codec : HeaderCodec} {conn : RpcConn} (h : conn.Cleared codec) :
    conn.readBuf.bytes.take sizeofString = List.replicate sizeofString 0 := by
  obtain ⟨before, -, rfl | ⟨r, server, now, p, hp, hresult, rfl⟩⟩ := h
  · exact reset_front before
  · obtain ⟨received, hprocess⟩ := turn_processed hp hresult
    obtain ⟨size, hsize⟩ := dataSize_ok received
    by_cases hfit : 4 + size ≤ readBufferSize
    · rw [process_eq now server hsize hfit] at hprocess
      cases hprocess
      exact finish_front hresult
    · rw [process_error now server (decode_error codec hsize (by omega))] at hprocess
      cases hprocess

end CoroutineRpc.Registry
