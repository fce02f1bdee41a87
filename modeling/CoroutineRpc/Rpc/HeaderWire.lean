import CoroutineRpc.Rpc.Header
import CoroutineRpc.Rpc.MessageWire
import CoroutineRpc.Rpc.Protobuf

/-! The generated wire code of `RpcHeader`: the tags of its fields and the order in which
`_InternalSerialize` writes them. Together they are a lawful codec. -/
namespace CoroutineRpc.Rpc.HeaderWire
open MessageWire

variable (rt : Runtime)

/-- `RpcHeader::_InternalSerialize`. -/
def internalSerialize (h : RpcHeader) : ByteString :=
  bytesField rt 10 h.serviceName ++ (bytesField rt 18 h.methodName ++
    (uint32Field rt 24 h.argsSize ++ (uint32Field rt 32 h.messageType ++
      (bytesField rt 42 h.ip ++ uint32Field rt 48 h.port))))

def serializeToString (h : RpcHeader) : Option ByteString :=
  serializeChecked (internalSerialize rt h)

/-- The `switch` of `RpcHeader::_InternalParse`. -/
def fields : Fields RpcHeader := fun h tag =>
  match tag with
  | 10 => some (fun bs => (rt.readBytes bs).map (fun r => ({ h with serviceName := r.1 }, r.2)))
  | 18 => some (fun bs => (rt.readBytes bs).map (fun r => ({ h with methodName := r.1 }, r.2)))
  | 24 => some (fun bs => (rt.readUInt32 bs).map (fun r => ({ h with argsSize := r.1 }, r.2)))
  | 32 => some (fun bs => (rt.readUInt32 bs).map (fun r => ({ h with messageType := r.1 }, r.2)))
  | 42 => some (fun bs => (rt.readBytes bs).map (fun r => ({ h with ip := r.1 }, r.2)))
  | 48 => some (fun bs => (rt.readUInt32 bs).map (fun r => ({ h with port := r.1 }, r.2)))
  | _ => none

def parseFromString (bs : ByteString) : Option RpcHeader := mergeFromString rt (fields rt) {} bs

/-- Parsing what was serialized gives the message back, field by field. -/
theorem parse_serialize (h : RpcHeader) (s : ByteString) (hs : serializeToString rt h = some s) :
    parseFromString rt s = some h := by
  unfold serializeToString serializeChecked at hs
  split at hs
  · next hlen =>
    obtain rfl := Option.some.inj hs
    simp only [internalSerialize, List.length_append] at hlen
    have hservice := length_le_bytesField rt 10 h.serviceName
    have hmethod := length_le_bytesField rt 18 h.methodName
    have hip := length_le_bytesField rt 42 h.ip
    have hparses : Parses rt (fields rt) {} (internalSerialize rt h) (some h) := by
      unfold internalSerialize
      refine parses_fresh_bytes (fun v => { serviceName := v }) (by decide) (by omega) rfl rfl ?_
      refine parses_fresh_bytes (fun v => { serviceName := h.serviceName, methodName := v })
        (by decide) (by omega) rfl rfl ?_
      refine parses_fresh_uint32
        (fun v => { serviceName := h.serviceName, methodName := h.methodName, argsSize := v })
        (by decide) rfl rfl ?_
      refine parses_fresh_uint32
        (fun v => ⟨h.serviceName, h.methodName, h.argsSize, v, [], 0⟩) (by decide) rfl rfl ?_
      refine parses_fresh_bytes
        (fun v => ⟨h.serviceName, h.methodName, h.argsSize, h.messageType, v, 0⟩) (by decide)
        (by omega) rfl rfl ?_
      rw [← List.append_nil (uint32Field rt 48 h.port)]
      refine parses_fresh_uint32
        (fun v => ⟨h.serviceName, h.methodName, h.argsSize, h.messageType, h.ip, v⟩) (by decide)
        rfl rfl ?_
      exact parses_nil h
    exact hparses.merges
  · cases hs

/-- The wire code as the codec that the servers and the channel share. -/
def codec : HeaderCodec :=
  { rt.toCodedStreams with
    serializeToString := serializeToString rt
    parseFromString := parseFromString rt
    parse_serialize := parse_serialize rt }

example : parseFromString .protobuf [] = some {} := by decide

end CoroutineRpc.Rpc.HeaderWire
