import CoroutineRpc.Library.CBuffer
import CoroutineRpc.Rpc.Header
import Mathlib.Data.List.AList

/-! The provider: it takes one message from its buffer, looks the method up, calls it and
sends the serialized response. The decoded fields are members and outlive the message. -/
namespace CoroutineRpc.Rpc

def readBufferSize : Nat := 2048

/-- What one `recv` returns: an error, the end of the stream, or bytes. -/
inductive Recv where
  | failed (wouldBlock : Bool)
  | closed
  | got (bytes : ByteString)
  deriving DecidableEq, Repr

/-- A method as the service offers it. The service may finish without running its closure. -/
structure Method (Q R : Type) where
  parseRequest : ByteString → Option Q
  call : Q → Option R
  serializeResponse : R → Option ByteString

variable {Q R : Type}

/-- The members of `provider` that its functions read. -/
structure Provider (Q R : Type) where
  readBuf : CBuffer readBufferSize := CBuffer.zeroed _
  port : UInt32 := 0
  type : UInt32 := 0
  recvBuf : ByteString := []
  rpcHeaderStr : ByteString := []
  serviceName : ByteString := []
  methodName : ByteString := []
  ip : ByteString := []
  argsStr : ByteString := []
  serviceMap : AList (fun _ : ByteString => AList (fun _ : ByteString => Method Q R)) := ∅

/-- The method that a message reached, with the bytes its request was parsed from. -/
structure Dispatch where
  serviceName : ByteString
  methodName : ByteString
  args : ByteString
  deriving DecidableEq, Repr

/-- What `OnMessage` returned and did. `sent` is the string that `SendRpcResponse` passed to
`send`, if the closure ran and the response could be serialized. -/
structure Handled (Q R : Type) where
  result : Bool
  provider : Provider Q R
  dispatched : Option Dispatch
  sent : Option ByteString

namespace Provider

def reset (p : Provider Q R) : Provider Q R :=
  { p with readBuf := p.readBuf.clear readBufferSize }

def readOnce (p : Provider Q R) : Recv → Bool × Provider Q R
  | .failed wouldBlock => (wouldBlock, p)
  | .closed => (false, p)
  | .got bytes => (true, { p with readBuf := p.readBuf.fill bytes })

def rejected (p : Provider Q R) : Handled Q R := ⟨false, p, none, none⟩

/-- `SendRpcResponse` serializes the response and hands it to `send` once. -/
def sendRpcResponse (method : Method Q R) (response : R) : Option ByteString :=
  method.serializeResponse response

/-- The second half of `OnMessage`, after the header and the arguments were read. -/
def dispatch (p : Provider Q R) : Handled Q R :=
  match p.serviceMap.lookup p.serviceName with
  | none => p.rejected
  | some methodMap =>
    match methodMap.lookup p.methodName with
    | none => p.rejected
    | some method =>
      match method.parseRequest p.argsStr with
      | none => p.rejected
      | some request =>
        ⟨true, p, some ⟨p.serviceName, p.methodName, p.argsStr⟩,
          (method.call request).bind (sendRpcResponse method)⟩

/-- The first half of `OnMessage`, on the bytes before the first zero of the buffer: whether
a header and its arguments were found, and the members as they are then. -/
def decodeFrame (codec : HeaderCodec) (p : Provider Q R) (recvBuf : ByteString) :
    Bool × Provider Q R :=
  let stream : CodedInputStream := { rest := recvBuf }
  let (_, headerSize, stream) := codec.readVarint32 stream
  let limited := codec.pushLimit stream headerSize.toInt32.toInt
  -- neither the varint nor the header string is checked to have been read
  let (_, rpcHeaderStr, limited) :=
    codec.readString limited p.rpcHeaderStr headerSize.toInt32.toInt
  let stream := codec.popLimit limited stream
  let p := { p with recvBuf := recvBuf, rpcHeaderStr := rpcHeaderStr }
  match codec.parseFromString rpcHeaderStr with
  | none => (false, p)
  | some h =>
    let (readArgs, argsStr, _) := codec.readString stream p.argsStr h.argsSize.toInt32.toInt
    (readArgs, { p with
      serviceName := h.serviceName, methodName := h.methodName
      type := h.messageType, ip := h.ip, port := h.port, argsStr := argsStr })

def decode (codec : HeaderCodec) (p : Provider Q R) (recvBuf : ByteString) : Handled Q R :=
  match p.decodeFrame codec recvBuf with
  | (true, p) => p.dispatch
  | (false, p) => p.rejected

/-- `provider::OnMessage`; `strlen` decides how much of the buffer is the message. -/
def onMessage (codec : HeaderCodec) (p : Provider Q R) : Except OutOfBounds (Handled Q R) := do
  let recvBuf ← p.readBuf.cString
  pure (p.decode codec recvBuf)

/-- One round of `provider::handleClient`; a false result ends the loop and closes. -/
def turn (codec : HeaderCodec) (p : Provider Q R) (r : Recv) :
    Except OutOfBounds (Handled Q R) :=
  match p.readOnce r with
  | (false, p) => pure p.rejected
  | (true, p) => do
    let handled ← p.onMessage codec
    pure (if handled.result then { handled with provider := handled.provider.reset } else handled)

/-- What the registered method answers to a request, as the bytes that go to `send`. -/
def answer (p : Provider Q R) (d : Dispatch) : Option ByteString := do
  let methodMap ← p.serviceMap.lookup d.serviceName
  let method ← methodMap.lookup d.methodName
  let request ← method.parseRequest d.args
  let response ← method.call request
  sendRpcResponse method response

/-- After the `recv` the buffer holds, up to its first zero, a frame for this call. -/
def Decodes (codec : HeaderCodec) (p : Provider Q R) (r : Recv) (d : Dispatch) : Prop :=
  ∃ p', p.readOnce r = (true, p') ∧ (0 : UInt8) ∈ p'.readBuf.bytes ∧
    ∃ read, p'.decodeFrame codec (p'.readBuf.bytes.takeWhile (· ≠ 0)) = (true, read) ∧
      d = ⟨read.serviceName, read.methodName, read.argsStr⟩

theorem readOnce_serviceMap {p p' : Provider Q R} {r : Recv} {more : Bool}
    (h : p.readOnce r = (more, p')) : p'.serviceMap = p.serviceMap := by
  cases r <;> cases h <;> rfl

theorem decodeFrame_serviceMap {codec : HeaderCodec} {p read : Provider Q R}
    {recvBuf : ByteString} {ok : Bool} (h : p.decodeFrame codec recvBuf = (ok, read)) :
    read.serviceMap = p.serviceMap := by
  unfold decodeFrame at h
  dsimp only at h
  split at h <;> cases h <;> rfl

theorem answer_congr {p p' : Provider Q R} (h : p'.serviceMap = p.serviceMap) (d : Dispatch) :
    p'.answer d = p.answer d := by
  rw [answer, answer, h]

theorem dispatch_provider (p : Provider Q R) : p.dispatch.provider = p := by
  unfold dispatch
  split
  · rfl
  split
  · rfl
  split
  · rfl
  · rfl

/-- The second half of `OnMessage` sends what the registered method answers. -/
theorem dispatch_sent (p : Provider Q R) :
    p.dispatch.sent = p.answer ⟨p.serviceName, p.methodName, p.argsStr⟩ := by
  unfold dispatch answer
  cases hservice : p.serviceMap.lookup p.serviceName with
  | none => rfl
  | some methodMap =>
    cases hmethod : methodMap.lookup p.methodName with
    | none => simp [rejected, hmethod]
    | some method =>
      cases hrequest : method.parseRequest p.argsStr with
      | none => simp [rejected, hmethod, hrequest]
      | some request => simp [hmethod, hrequest, Option.bind_eq_bind]

theorem dispatch_dispatched {p : Provider Q R} {d : Dispatch}
    (h : p.dispatch.dispatched = some d) : d = ⟨p.serviceName, p.methodName, p.argsStr⟩ := by
  unfold dispatch at h
  split at h
  · cases h
  split at h
  · cases h
  split at h
  · cases h
  · exact (Option.some.inj h).symm

theorem dispatched_of_sent {p : Provider Q R} {str : ByteString}
    (h : p.dispatch.sent = some str) :
    p.dispatch.dispatched = some ⟨p.serviceName, p.methodName, p.argsStr⟩ := by
  unfold dispatch at h ⊢
  split at h
  · cases h
  split at h
  · cases h
  split at h
  · cases h
  · rfl

/-- A round that hands something to `send` read a frame and dispatched it. -/
theorem turn_sent {codec : HeaderCodec} {p : Provider Q R} {r : Recv} {handled : Handled Q R}
    {str : ByteString} (hturn : p.turn codec r = .ok handled) (hsent : handled.sent = some str) :
    ∃ p', p.readOnce r = (true, p') ∧ (0 : UInt8) ∈ p'.readBuf.bytes ∧
      ∃ read, p'.decodeFrame codec (p'.readBuf.bytes.takeWhile (· ≠ 0)) = (true, read) ∧
        handled.sent = read.dispatch.sent ∧ handled.dispatched = read.dispatch.dispatched := by
  rcases hread : p.readOnce r with ⟨more, p'⟩
  cases more with
  | false =>
    simp only [turn, hread] at hturn
    cases hturn
    cases hsent
  | true =>
    by_cases hzero : (0 : UInt8) ∈ p'.readBuf.bytes
    · have hscan := p'.readBuf.cString_ok hzero
      simp only [turn, hread, onMessage, hscan, bind, Except.bind, decode] at hturn
      rcases hdecode : p'.decodeFrame codec (p'.readBuf.bytes.takeWhile (· ≠ 0)) with ⟨ok, read⟩
      rw [hdecode] at hturn
      cases ok with
      | false =>
        cases hturn
        cases hsent
      | true =>
        refine ⟨p', rfl, hzero, read, hdecode, ?_⟩
        by_cases hresult : read.dispatch.result
        · simp only [pure, Except.pure, hresult, if_true] at hturn
          cases hturn
          exact ⟨rfl, rfl⟩
        · simp only [pure, Except.pure, hresult] at hturn
          cases hturn
          exact ⟨rfl, rfl⟩
    · have hscan := p'.readBuf.cString_error hzero
      simp only [turn, hread, onMessage, hscan] at hturn
      cases hturn

/-- A round answers a call exactly when it decodes it and the registered method answers. -/
theorem turn_answers_iff (codec : HeaderCodec) (p : Provider Q R) (r : Recv) (d : Dispatch)
    (str : ByteString) :
    (∃ handled, p.turn codec r = .ok handled ∧ handled.sent = some str ∧
        handled.dispatched = some d) ↔ p.Decodes codec r d ∧ p.answer d = some str := by
  constructor
  · rintro ⟨handled, hturn, hsent, hd⟩
    obtain ⟨p', hread, hzero, read, hdecode, hsent', hd'⟩ := turn_sent hturn hsent
    have hdispatch := dispatch_dispatched (hd'.symm.trans hd)
    refine ⟨⟨p', hread, hzero, read, hdecode, hdispatch⟩, ?_⟩
    rw [← answer_congr (readOnce_serviceMap hread), ← answer_congr (decodeFrame_serviceMap hdecode),
      hdispatch, ← dispatch_sent, ← hsent', hsent]
  · rintro ⟨⟨p', hread, hzero, read, hdecode, rfl⟩, hanswer⟩
    have hscan := p'.readBuf.cString_ok hzero
    have hsent := read.dispatch_sent
    rw [answer_congr (decodeFrame_serviceMap hdecode), answer_congr (readOnce_serviceMap hread),
      hanswer] at hsent
    have hd := dispatched_of_sent hsent
    simp only [turn, hread, onMessage, hscan, bind, Except.bind, decode, hdecode]
    by_cases hresult : read.dispatch.result
    · exact ⟨_, rfl, by simp [hresult, hsent], by simp [hresult, hd]⟩
    · exact ⟨_, rfl, by simp [hresult, hsent], by simp [hresult, hd]⟩

end Provider
end CoroutineRpc.Rpc
