import CoroutineRpc.Rpc.CodedStream

/-! The `RpcHeader` message and what protobuf is relied on for. -/
namespace CoroutineRpc.Rpc

/-- The six fields of `rpcheader.proto`. -/
structure RpcHeader where
  serviceName : ByteString := []
  methodName : ByteString := []
  argsSize : UInt32 := 0
  messageType : UInt32 := 0
  ip : ByteString := []
  port : UInt32 := 0
  deriving DecidableEq, Repr

/-- The code of the message and the streams of the runtime. Serialization may refuse a message;
parsing undoes what was serialized. -/
structure HeaderCodec extends CodedStreams where
  serializeToString : RpcHeader → Option ByteString
  parseFromString : ByteString → Option RpcHeader
  parse_serialize : ∀ h s, serializeToString h = some s → parseFromString s = some h

end CoroutineRpc.Rpc
