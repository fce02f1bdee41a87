import CoroutineRpc.Rpc.RoundTrip
import CoroutineRpc.Rpc.SharedProvider

/-! What a message has to be for the provider to call a method. `OnMessage` does not look whether
the length and the header could be read, so other bytes can take the place of a header. -/
namespace CoroutineRpc.Rpc.Provider
open HeaderWire (cut)
variable {Q R : Type}

/-- A registered method takes the arguments. -/
def Accepts (p : Provider Q R) (d : Dispatch) : Prop :=
  ∃ methods method request, p.serviceMap.lookup d.serviceName = some methods ∧
    methods.lookup d.methodName = some method ∧ method.parseRequest d.args = some request

/-- A header and the bytes behind it make this call, and it is accepted. -/
def Reaches (codec : HeaderCodec) (p : Provider Q R) (header rest : ByteString) (d : Dispatch) :
    Prop :=
  ∃ h, codec.parseFromString header = some h ∧ h.argsSize.toNat ≤ rest.length ∧
    d = ⟨h.serviceName, h.methodName, rest.take h.argsSize.toNat⟩ ∧ p.Accepts d

/-- The bytes start with a length, a header of this length, and the arguments of the call. -/
def Whole (codec : HeaderCodec) (p : Provider Q R) (bytes : ByteString) (d : Dispatch) : Prop :=
  ∃ n rest, Varint.decode 10 bytes = some (n, rest) ∧ (UInt32.ofNat n).toNat ≤ rest.length ∧
    p.Reaches codec (rest.take (UInt32.ofNat n).toNat) (rest.drop (UInt32.ofNat n).toNat) d

/-- A round calls a method only for a whole frame at the start of what has been received, up to
the first zero byte, and otherwise returns false and calls nothing. -/
def Honest (codec : HeaderCodec) (p : Provider Q R) (r : Recv) : Prop :=
  ∃ handled, p.turn codec r = .ok handled ∧
    (∀ d, handled.dispatched = some d → p.Whole codec (cut r.bytes) d) ∧
    ((∀ d, ¬ p.Whole codec (cut r.bytes) d) → handled.result = false ∧ handled.dispatched = none)

/-- Nothing that stands in for a header makes a call, and no arguments are taken from behind the
received bytes. -/
structure Orderly (codec : HeaderCodec) (p : Provider Q R) (message received : ByteString) :
    Prop where
  unread : Varint.decode 10 message = none →
    ∀ d, ¬ p.Reaches codec p.rpcHeaderStr (codec.readVarint32 { rest := message }).2.2.rest d
  negative : ∀ n rest, Varint.decode 10 message = some (n, rest) →
    2 ^ 31 ≤ (UInt32.ofNat n).toNat → ∀ d, ¬ p.Reaches codec p.rpcHeaderStr rest d
  short : ∀ n rest, Varint.decode 10 message = some (n, rest) →
    (UInt32.ofNat n).toNat < 2 ^ 31 → rest.length < (UInt32.ofNat n).toNat →
      ∀ d, ¬ p.Reaches codec rest [] d
  received : ∀ n rest, Varint.decode 10 message = some (n, rest) →
    (UInt32.ofNat n).toNat ≤ rest.length → ∀ d,
      p.Reaches codec (rest.take (UInt32.ofNat n).toNat) (rest.drop (UInt32.ofNat n).toNat) d →
        message.length - rest.length + (UInt32.ofNat n).toNat + d.args.length ≤ received.length

/-- After a `recv` that goes on, the buffer holds a zero byte, and what is before it is orderly. -/
def InOrder (codec : HeaderCodec) (p : Provider Q R) (r : Recv) : Prop :=
  ∀ p', p.readOnce r = (true, p') → (0 : UInt8) ∈ p'.readBuf.bytes ∧
    p'.Orderly codec (cut p'.readBuf.bytes) (cut r.bytes)

/-- The header string that is parsed, and the bytes that the arguments are read from. -/
def headerPart (p : Provider Q R) (size : UInt32) (rest : ByteString) : ByteString × ByteString :=
  if size.toNat < 2 ^ 31 then (rest.take size.toNat, rest.drop size.toNat)
  else (p.rpcHeaderStr, rest)

private theorem toInt_of_lt {size : UInt32} (h : size.toNat < 2 ^ 31) :
    size.toInt32.toInt = size.toNat := by
  have hsize := toInt_ofNat h
  rwa [UInt32.ofNat_toNat] at hsize

private theorem toInt_of_ge {size : UInt32} (h : 2 ^ 31 ≤ size.toNat) : size.toInt32.toInt < 0 := by
  have hlt : size.toBitVec.toNat < 2 ^ 32 := size.toBitVec.isLt
  have hge : 2 ^ 31 ≤ size.toBitVec.toNat := h
  change size.toBitVec.toInt < 0
  rw [BitVec.toInt_eq_toNat_cond, if_neg (by omega)]
  omega

/-- `OnMessage` from the length on. -/
theorem decodeFrame_read (codec : HeaderCodec) (p : Provider Q R) {message rest : ByteString}
    {ok : Bool} {size : UInt32}
    (h : codec.readVarint32 { rest := message } = (ok, size, { rest := rest })) :
    p.decodeFrame codec message =
      match codec.parseFromString (p.headerPart size rest).1 with
      | none => (false, { p with
          recvBuf := message, rpcHeaderStr := (p.headerPart size rest).1 })
      | some h =>
        let read := codec.readString { rest := (p.headerPart size rest).2 } p.argsStr
          h.argsSize.toInt32.toInt
        (read.1, p.loaded message (p.headerPart size rest).1 read.2.1 h) := by
  by_cases hsize : size.toNat < 2 ^ 31
  · have hpart : p.headerPart size rest = (rest.take size.toNat, rest.drop size.toNat) :=
      if_pos hsize
    obtain ⟨htake, hdrop⟩ := codec.readString_limited rest p.rpcHeaderStr size.toNat
    unfold decodeFrame
    simp only [h, hpart, toInt_of_lt hsize, htake, hdrop]
    cases codec.parseFromString (rest.take size.toNat) with
    | none => rfl
    | some h => rfl
  · have hpart : p.headerPart size rest = (p.rpcHeaderStr, rest) := if_neg hsize
    have hneg := toInt_of_ge (Nat.le_of_not_lt hsize)
    have hread : codec.readString (codec.pushLimit { rest := rest } size.toInt32.toInt)
        p.rpcHeaderStr size.toInt32.toInt = (false, p.rpcHeaderStr, { rest := rest }) := by
      rw [codec.pushLimit_neg _ hneg, codec.readString_neg _ _ hneg]
    unfold decodeFrame
    simp only [h, hpart, hread, codec.popLimit_self]
    cases codec.parseFromString p.rpcHeaderStr with
    | none => rfl
    | some h => rfl

/-- The second half of `OnMessage` calls the method that was looked up. -/
theorem dispatched_iff (p : Provider Q R) (d : Dispatch) :
    p.dispatch.dispatched = some d ↔
      d = ⟨p.serviceName, p.methodName, p.argsStr⟩ ∧ p.Accepts d := by
  constructor
  · intro h
    obtain rfl := dispatch_dispatched h
    refine ⟨rfl, ?_⟩
    unfold dispatch at h
    split at h
    · cases h
    next methods hmethods =>
      split at h
      · cases h
      next method hmethod =>
        split at h
        · cases h
        next request hrequest => exact ⟨methods, method, request, hmethods, hmethod, hrequest⟩
  · rintro ⟨rfl, methods, method, request, hmethods, hmethod, hrequest⟩
    rw [(dispatch_registered hmethods hmethod).2.1, hrequest]
    rfl

private theorem dispatch_result (p : Provider Q R) :
    p.dispatch.result = p.dispatch.dispatched.isSome := by
  unfold dispatch
  split
  · rfl
  split
  · rfl
  split
  · rfl
  · rfl

theorem reaches_congr {codec : HeaderCodec} {p p' : Provider Q R}
    (h : p'.serviceMap = p.serviceMap) {header rest : ByteString} {d : Dispatch} :
    p'.Reaches codec header rest d ↔ p.Reaches codec header rest d := by
  unfold Reaches Accepts
  rw [h]

/-- Arguments of a size that is not there, or negative, are not read. -/
theorem readString_missing (codec : HeaderCodec) (rest target : ByteString) {size : UInt32}
    (h : rest.length < size.toNat) :
    (codec.readString { rest := rest } target size.toInt32.toInt).1 = false := by
  by_cases hsize : size.toNat < 2 ^ 31
  · rw [toInt_of_lt hsize, codec.readString_nat, if_neg (Nat.not_le_of_gt h)]
  · rw [codec.readString_neg _ _ (toInt_of_ge (Nat.le_of_not_lt hsize))]

/-- From the length on, the calls are those that the header and the rest make. -/
theorem decode_dispatched_iff {codec : HeaderCodec} {p : Provider Q R} {message rest : ByteString}
    {ok : Bool} {size : UInt32}
    (h : codec.readVarint32 { rest := message } = (ok, size, { rest := rest }))
    (hrest : rest.length < 2 ^ 31) (d : Dispatch) :
    (p.decode codec message).dispatched = some d ↔
      p.Reaches codec (p.headerPart size rest).1 (p.headerPart size rest).2 d := by
  have hbehind : (p.headerPart size rest).2.length < 2 ^ 31 := by
    unfold headerPart
    split
    · rw [List.length_drop]
      omega
    · exact hrest
  generalize hpart : p.headerPart size rest = part at hbehind ⊢
  obtain ⟨header, behind⟩ := part
  have hframe := decodeFrame_read codec p h
  rw [hpart] at hframe
  unfold decode Reaches
  cases hparse : codec.parseFromString header with
  | none =>
    simp only [hparse] at hframe
    rw [hframe]
    simp [rejected]
  | some hdr =>
    simp only [hparse] at hframe
    rw [hframe]
    by_cases hargs : hdr.argsSize.toNat ≤ behind.length
    · have hread := codec.readString_nat behind p.argsStr hdr.argsSize.toNat
      rw [if_pos hargs] at hread
      simp only [toInt_of_lt (Nat.lt_of_le_of_lt hargs hbehind), hread]
      rw [dispatched_iff]
      constructor
      · rintro ⟨hd, haccepts⟩
        exact ⟨hdr, rfl, hargs, hd, haccepts⟩
      · rintro ⟨_, ⟨⟩, -, hd, haccepts⟩
        exact ⟨hd, haccepts⟩
    · rw [readString_missing codec behind p.argsStr (Nat.lt_of_not_le hargs)]
      constructor
      · intro hnone
        cases hnone
      · rintro ⟨_, ⟨⟩, hfit, -⟩
        exact absurd hfit hargs

theorem decode_result (codec : HeaderCodec) (p : Provider Q R) (message : ByteString) :
    (p.decode codec message).result = (p.decode codec message).dispatched.isSome := by
  unfold decode
  split
  · exact dispatch_result _
  · rfl

end CoroutineRpc.Rpc.Provider
