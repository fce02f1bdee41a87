import CoroutineRpc.Rpc.Channel
import CoroutineRpc.Rpc.HeaderCut
import CoroutineRpc.Rpc.Provider

/-! What the provider reads from a frame that the channel has built. The lengths in the frame
would be enough, but `strlen` decides how much of it is looked at. -/
namespace CoroutineRpc.Rpc
open HeaderWire (cut cut_append cut_eq cut_append_of_mem)

theorem toInt_ofNat {n : Nat} (h : n < 2 ^ 31) : (UInt32.ofNat n).toInt32.toInt = n := by
  have hnat : (UInt32.ofNat n).toBitVec.toNat = n := by
    change (UInt32.ofNat n).toNat = n
    rw [UInt32.toNat_ofNat']
    exact Nat.mod_eq_of_lt (by omega)
  change (UInt32.ofNat n).toBitVec.toInt = n
  rw [BitVec.toInt_eq_toNat_of_lt (by omega), hnat]

namespace Provider
variable {Q R : Type}

/-- The members after a header and the arguments behind it have been read. -/
def loaded (p : Provider Q R) (recvBuf rpcHeaderStr argsStr : ByteString) (h : RpcHeader) :
    Provider Q R :=
  { p with
    recvBuf := recvBuf, rpcHeaderStr := rpcHeaderStr, argsStr := argsStr
    serviceName := h.serviceName, methodName := h.methodName
    type := h.messageType, ip := h.ip, port := h.port }

/-- A message that starts with a readable length: the header is what there is of it. -/
theorem decodeFrame_sized (codec : HeaderCodec) (p : Provider Q R) {n : Nat} (hn : n < 2 ^ 31)
    (body : ByteString) :
    p.decodeFrame codec (codec.writeVarint32 n ++ body) =
      match codec.parseFromString (body.take n) with
      | none => (false, { p with
          recvBuf := codec.writeVarint32 n ++ body, rpcHeaderStr := body.take n })
      | some h =>
        let read := codec.readString { rest := body.drop n } p.argsStr h.argsSize.toInt32.toInt
        (read.1, p.loaded (codec.writeVarint32 n ++ body) (body.take n) read.2.1 h) := by
  obtain ⟨htake, hdrop⟩ := codec.readString_limited body p.rpcHeaderStr n
  have hread := codec.readVarint32_written (show n < 2 ^ 32 by omega) body
  unfold decodeFrame
  simp only [hread, toInt_ofNat hn, htake, hdrop]
  cases codec.parseFromString (body.take n) with
  | none => rfl
  | some h => rfl

/-- A whole frame is read as it was written, if its bytes get there. -/
theorem decodeFrame_whole (codec : HeaderCodec) (p : Provider Q R) {h : RpcHeader}
    {hdr args : ByteString} (hs : codec.serializeToString h = some hdr) (hhdr : hdr.length < 2 ^ 31)
    (hargs : args.length < 2 ^ 31) (hsize : h.argsSize = UInt32.ofNat args.length) :
    p.decodeFrame codec (codec.writeVarint32 hdr.length ++ (hdr ++ args)) =
      (true, p.loaded (codec.writeVarint32 hdr.length ++ (hdr ++ args)) hdr args h) := by
  rw [decodeFrame_sized codec p hhdr, List.take_left', codec.parse_serialize h hdr hs]
  · simp only [List.drop_left, hsize, toInt_ofNat hargs, codec.readString_nat,
      Nat.le_refl, if_true, List.take_length]
  · rfl

/-- A message without a byte: the varint fails with -1, and no string is read for that size,
so the header of the message before is parsed again. -/
theorem decodeFrame_empty (codec : HeaderCodec) (p : Provider Q R) :
    p.decodeFrame codec [] =
      match codec.parseFromString p.rpcHeaderStr with
      | none => (false, { p with recvBuf := [] })
      | some h =>
        let read := codec.readString { rest := [] } p.argsStr h.argsSize.toInt32.toInt
        (read.1, p.loaded [] p.rpcHeaderStr read.2.1 h) := by
  obtain ⟨k, hvarint⟩ := codec.readVarint32_none (show Varint.decode 10 [] = none from rfl)
  have hminus : (0xFFFFFFFF : UInt32).toInt32.toInt = -1 := by decide
  have hneg : (-1 : Int) < 0 := by decide
  rw [List.drop_nil] at hvarint
  unfold decodeFrame
  simp only [hvarint, hminus, codec.pushLimit_neg _ hneg, codec.readString_neg _ _ hneg,
    codec.popLimit_self]
  cases codec.parseFromString p.rpcHeaderStr with
  | none => rfl
  | some h => rfl

/-- What `OnMessage` takes a message for in a buffer that was zero before. -/
theorem message_zeroed {p p' : Provider Q R} (hzero : p.readBuf = CBuffer.zeroed _)
    {frame : ByteString} (hlen : frame.length < readBufferSize)
    (hread : p.readOnce (.got frame) = (true, p')) :
    (0 : UInt8) ∈ p'.readBuf.bytes ∧ p'.readBuf.bytes.takeWhile (· ≠ 0) = cut frame := by
  obtain ⟨-, rfl⟩ := Prod.mk.inj hread
  have hbytes : (p.readBuf.fill frame).bytes =
      frame ++ List.replicate (readBufferSize - frame.length) 0 := by
    rw [CBuffer.fill_bytes _ (Nat.le_of_lt hlen), hzero]
    simp [CBuffer.zeroed]
  obtain ⟨k, hk⟩ := Nat.exists_eq_add_of_lt hlen
  have hzeros : List.replicate (readBufferSize - frame.length) (0 : UInt8) =
      0 :: List.replicate k 0 := by
    rw [show readBufferSize - frame.length = k + 1 by omega]
    rfl
  dsimp only
  rw [hbytes, hzeros]
  refine ⟨List.mem_append_right _ List.mem_cons_self, ?_⟩
  by_cases hmem : (0 : UInt8) ∈ frame
  · exact (cut_append_of_mem hmem _).1
  · have happend : cut (frame ++ 0 :: List.replicate k 0) = _ := cut_append hmem
    rw [cut_eq hmem]
    simpa [cut] using happend

/-- The second half of `OnMessage` for a method that is registered. -/
theorem dispatch_registered {p : Provider Q R}
    {methods : AList (fun _ : ByteString => Method Q R)} {method : Method Q R}
    (hservice : p.serviceMap.lookup p.serviceName = some methods)
    (hmethod : methods.lookup p.methodName = some method) :
    p.dispatch.result = (method.parseRequest p.argsStr).isSome ∧
      p.dispatch.dispatched = (method.parseRequest p.argsStr).map
        (fun _ => ⟨p.serviceName, p.methodName, p.argsStr⟩) ∧
      p.dispatch.sent = (method.parseRequest p.argsStr).bind
        (fun request => (method.call request).bind (sendRpcResponse method)) := by
  unfold dispatch
  rw [hservice]
  dsimp only
  rw [hmethod]
  dsimp only
  cases method.parseRequest p.argsStr with
  | none => exact ⟨rfl, rfl, rfl⟩
  | some request => exact ⟨rfl, rfl, rfl⟩

end Provider
end CoroutineRpc.Rpc
