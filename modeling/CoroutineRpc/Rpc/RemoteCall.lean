import CoroutineRpc.Library.Transition
import CoroutineRpc.Rpc.BinaryFrames
import CoroutineRpc.Rpc.Delivery
import CoroutineRpc.Rpc.Services
import CoroutineRpc.Rpc.SharedProvider

/-! One call from the stub to the method and back. The table of services is never touched by the
fibers that serve the connections, so it decides about every message of a run. -/
namespace CoroutineRpc.Rpc
open HeaderWire (cut_eq)

variable {Q R : Type}

namespace Channel

/-- The retries of the constructor; `connect` is what the remaining ones meet. -/
def retry (connect : Nat → Connect) : (tryCount : Nat) → Attempt → Attempt
  | 0, last => last
  | tryCount + 1, last =>
    if last.failed = none then last
    else
      let again := last.channel.newConnect (connect tryCount)
      retry connect tryCount ⟨again.channel, last.ops ++ again.ops, again.failed⟩

/-- The constructor of `Channel`; it goes on without a connection when all attempts fail. -/
def create (ip : ByteString) (port : Int16) (connectNow : Bool) (type : Int32) (first : Connect)
    (again : Nat → Connect) : Attempt :=
  let ch := { clientFd := -1, type := type, port := port.toInt32, ip := ip : Channel }
  if connectNow then retry again 3 (ch.newConnect first) else ⟨ch, [], none⟩

/-- The argument of `htons` in `newConnect`: the port that a connection goes to. -/
def peerPort (ch : Channel) : UInt16 := ch.port.toUInt32.toUInt16

private theorem newConnect_channel (ch : Channel) (c : Connect) :
    ∃ fd, (ch.newConnect c).channel = { ch with clientFd := fd } := by
  cases c with
  | noSocket errno => exact ⟨-1, rfl⟩
  | refused fd errno reason => exact ⟨-1, rfl⟩
  | connected fd => exact ⟨fd, rfl⟩

private theorem retry_channel {ch : Channel} (connect : Nat → Connect) (tryCount : Nat)
    {last : Attempt} (h : ∃ fd, last.channel = { ch with clientFd := fd }) :
    ∃ fd, (retry connect tryCount last).channel = { ch with clientFd := fd } := by
  induction tryCount generalizing last with
  | zero => exact h
  | succ tryCount ih =>
    unfold retry
    split
    · exact h
    · obtain ⟨fd, hfd⟩ := h
      apply ih
      obtain ⟨fd', hfd'⟩ := last.channel.newConnect_channel (connect tryCount)
      refine ⟨fd', ?_⟩
      dsimp only
      rw [hfd', hfd]

/-- Whatever the attempts to connect meet, the channel keeps what it was made for. -/
theorem create_channel (ip : ByteString) (port : Int16) (connectNow : Bool) (type : Int32)
    (first : Connect) (again : Nat → Connect) :
    ∃ fd, (create ip port connectNow type first again).channel = ⟨fd, type, port.toInt32, ip⟩ := by
  unfold create
  split
  · exact retry_channel again 3 (newConnect_channel ⟨-1, type, port.toInt32, ip⟩ first)
  · exact ⟨-1, rfl⟩

end Channel

/-- What one end serializes the other end parses. -/
structure SameMessages (stub : Stub Q R) (method : Method Q R) : Prop where
  request : ∀ q bs, stub.serializeRequest q = some bs → method.parseRequest bs = some q
  response : ∀ r bs, method.serializeResponse r = some bs → stub.parseResponse bs = some r

namespace Provider

/-- A request that comes in one piece and without a zero byte reaches its method, and an answer
that comes back in one piece is what the call returns. -/
theorem call_answered {codec : HeaderCodec} {stub : Stub Q R} {method : Method Q R}
    (hsame : SameMessages stub method) {p : Provider Q R} (hzero : p.readBuf = CBuffer.zeroed _)
    {methods : AList (fun _ : ByteString => Method Q R)}
    (hservice : p.serviceMap.lookup stub.serviceName = some methods)
    (hmethod : methods.lookup stub.methodName = some method) {ch : Channel} {request : Q}
    {frame : ByteString} (hframe : ch.requestFrame codec stub request = some frame)
    (hlen : frame.length ≤ 2047) (hclean : (0 : UInt8) ∉ frame) {answer : R} {str : ByteString}
    (hcall : method.call request = some answer) (hstr : method.serializeResponse answer = some str) :
    (∃ handled, p.turn codec (.got frame) = .ok handled ∧ handled.result = true ∧
        handled.sent = some str) ∧
      ∀ net : Network, Connects ch net → net.reply = .got str →
        ∃ called, ch.callMethod codec stub request net = .ok called ∧
          called.failed = none ∧ called.response = some answer := by
  obtain ⟨args, hargs, hframe'⟩ := Option.bind_eq_some_iff.mp hframe
  have hparse := hsame.request request args hargs
  constructor
  · have hdecodes : p.Decodes codec (.got frame)
        ⟨stub.serviceName, stub.methodName, args⟩ := by
      obtain ⟨hdr, hs, hparts, hhdr, hshort⟩ := frame_parts hframe' hlen
      refine (decodes_zeroed_iff hzero hlen _).mpr ?_
      rw [cut_eq hclean, hparts]
      exact frame_decodes hs hhdr hshort
    obtain ⟨handled, hturn, hresult, -, hsent⟩ :=
      (serves_of_decodes hservice hmethod hdecodes).outcome
    refine ⟨handled, hturn, ?_, ?_⟩
    · rw [hresult, hparse]
      rfl
    · rw [hsent, hparse, Option.bind_some, hcall, Option.bind_some]
      exact hstr
  · intro net hnet hreply
    obtain ⟨called, hcalled, hok, hresponse, -⟩ :=
      Channel.callMethod_reads hnet hframe hreply (hsame.response answer str hstr)
    exact ⟨called, hcalled, hok, hresponse⟩

private theorem decode_serviceMap (codec : HeaderCodec) (p : Provider Q R) (recvBuf : ByteString) :
    (p.decode codec recvBuf).provider.serviceMap = p.serviceMap := by
  unfold decode
  rcases hframe : p.decodeFrame codec recvBuf with ⟨ok, read⟩
  cases ok with
  | false => exact decodeFrame_serviceMap hframe
  | true =>
    dsimp only
    rw [dispatch_provider]
    exact decodeFrame_serviceMap hframe

private theorem onMessage_serviceMap {codec : HeaderCodec} {p : Provider Q R}
    {handled : Handled Q R}
    (h : p.onMessage codec = .ok handled) : handled.provider.serviceMap = p.serviceMap := by
  obtain ⟨recvBuf, -, hdecode⟩ := bind_eq_ok.mp h
  cases hdecode
  exact p.decode_serviceMap codec recvBuf

end Provider

namespace SharedProvider
variable {κ : Type} [DecidableEq κ]

private theorem handle_serviceMap (codec : HeaderCodec) (s : SharedProvider κ Q R) (c : κ)
    (origin : List (Option κ)) (handled : Handled Q R) :
    (s.handle codec c origin handled).provider.serviceMap = handled.provider.serviceMap := by
  unfold handle
  dsimp only
  split
  · split
    · rfl
    · rfl
  · rfl

/-- No fiber changes the table of services. -/
theorem step_serviceMap {codec : HeaderCodec} {s t : SharedProvider κ Q R} {a : FiberAction κ}
    (h : step codec s a = some t) : t.provider.serviceMap = s.provider.serviceMap := by
  cases a with
  | start c =>
    dsimp only [step] at h
    split at h
    · cases h
      rfl
    · cases h
  | sent c =>
    dsimp only [step] at h
    split at h
    · cases h
      rfl
    · cases h
  | returned c r =>
    dsimp only [step] at h
    split at h
    · split at h
      · rcases hread : s.provider.readOnce r with ⟨more, p⟩
        rw [hread] at h
        cases more with
        | false =>
          cases h
          exact Provider.readOnce_serviceMap hread
        | true =>
          dsimp only at h
          split at h
          · next handled hmessage =>
            cases h
            rw [handle_serviceMap, Provider.onMessage_serviceMap hmessage]
            exact Provider.readOnce_serviceMap hread
          · cases h
            exact Provider.readOnce_serviceMap hread
      · cases h
    · cases h

/-- In every state that the fibers of a provider reach: a `recv` makes the provider send exactly
what the service and the method that were announced first under their names answer. -/
theorem first_announced_answers (codec : HeaderCodec) (services : List (Service Q R))
    (as : List (FiberAction κ)) :
    Transition.Always (step codec) (fun s => ∀ r d str,
      (∃ handled, s.provider.turn codec r = .ok handled ∧ handled.sent = some str ∧
        handled.dispatched = some d) ↔
          s.provider.Decodes codec r d ∧ Provider.firstAnswer services d = some str)
      (fresh (Provider.offering services).serviceMap) as := by
  have hstep : ∀ (s : SharedProvider κ Q R) (a : FiberAction κ) (t : SharedProvider κ Q R),
      s.provider.serviceMap = (Provider.offering services).serviceMap → step codec s a = some t →
        t.provider.serviceMap = (Provider.offering services).serviceMap :=
    fun _ _ _ hs ht => (step_serviceMap ht).trans hs
  refine (Transition.always_of_step hstep rfl as).mono ?_
  intro s hs r d str
  rw [Provider.turn_answers_iff, Provider.answer_congr hs, Provider.offering_answer]

end SharedProvider
end CoroutineRpc.Rpc
