import CoroutineRpc.Rpc.CodedStream

/-! What generated message code calls in the protobuf runtime. Each reader takes something from the
front of the bytes, and reads back what the writers have put there. -/
namespace CoroutineRpc.Rpc

/-- `ReadTag`, `InlineGreedyStringParser`, `ReadVarint32`, `ReadVarint64`, `UnknownFieldParse`, and
the writers of varints. A string begins with its length; one that is not all there is refused. -/
structure Runtime extends CodedStreams where
  readTag : ByteString → Option (Nat × ByteString)
  readBytes : ByteString → Option (ByteString × ByteString)
  readUInt32 : ByteString → Option (UInt32 × ByteString)
  readUInt64 : ByteString → Option (UInt64 × ByteString)
  unknownField : Nat → ByteString → Option ByteString
  writeVarint64 : UInt64 → ByteString
  readTag_byte : ∀ {tag : UInt8} (rest : ByteString), tag.toNat < 128 →
    readTag (tag :: rest) = some (tag.toNat, rest)
  readBytes_written : ∀ {value : ByteString} (rest : ByteString), value.length < 2 ^ 31 →
    readBytes ((writeVarint32 value.length ++ value) ++ rest) = some (value, rest)
  readBytes_short : ∀ {n : Nat} {short : ByteString}, n < 2 ^ 31 → short.length < n →
    readBytes (writeVarint32 n ++ short) = none
  readUInt32_written : ∀ (value : UInt32) (rest : ByteString),
    readUInt32 (writeVarint32 value.toNat ++ rest) = some (value, rest)
  readUInt64_written : ∀ (value : UInt64) (rest : ByteString),
    readUInt64 (writeVarint64 value ++ rest) = some (value, rest)

end CoroutineRpc.Rpc
