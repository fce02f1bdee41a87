import CoroutineRpc.Library.Transition
import CoroutineRpc.Rpc.RoundTrip
import Mathlib.Logic.Function.Basic

/-! One `provider` object and a fiber for each of its connections. The fibers take turns where
`recv` and `send` may suspend, and all of them use the same members. -/
namespace CoroutineRpc.Rpc

/-- Where the fiber of a connection is suspended, with the socket it waits for. A fiber that has
read behind the buffer is `astray` and not followed any further. -/
inductive FiberPhase (κ : Type) where
  | idle
  | receiving (socket : Option κ)
  | sending (socket : Option κ)
  | closed
  | astray
  deriving DecidableEq

/-- A call of `OnMessage`: in whose fiber, where the bytes that it parsed came from, and on
which socket the response went out. -/
structure Served (κ : Type) where
  client : κ
  parsed : List (Option κ)
  response : Option (Option κ)
  deriving DecidableEq

/-- `client` is the member `m_client`. The origins of the bytes in `m_read_buf` and in
`rpc_header_str` and the list of served messages are recorded, not computed with. -/
structure SharedProvider (κ Q R : Type) where
  provider : Provider Q R
  client : Option κ := none
  origin : List (Option κ) := List.replicate readBufferSize none
  headerOrigin : List (Option κ) := []
  phase : κ → FiberPhase κ := fun _ => .idle
  served : List (Served κ) := []

/-- `returned` is a `recv` that comes back in the fiber of `c`, `sent` a `send`. -/
inductive FiberAction (κ : Type) where
  | start (c : κ)
  | returned (c : κ) (r : Recv)
  | sent (c : κ)

def Recv.bytes : Recv → ByteString
  | .got bytes => bytes
  | _ => []

/-- Where in a message `OnMessage` reads the header string from, if it reads one. -/
def headerSource (codec : HeaderCodec) (recvBuf : ByteString) : Option (Nat × Nat) :=
  let (_, headerSize, stream) := codec.readVarint32 { rest := recvBuf }
  if headerSize.toInt32.toInt < 0 then none
  else some (recvBuf.length - stream.rest.length, headerSize.toInt32.toInt.toNat)

namespace SharedProvider
variable {κ Q R : Type} [DecidableEq κ]

/-- The origins in the buffer after a `recv` from this socket. -/
def received (s : SharedProvider κ Q R) (socket : Option κ) (bytes : ByteString) :
    List (Option κ) :=
  (List.replicate bytes.length socket ++ s.origin.drop bytes.length).take readBufferSize

/-- The origins of the header string that `OnMessage` parses: of its part of the message, or
what is left of an earlier one. -/
def headerOrigins (codec : HeaderCodec) (s : SharedProvider κ Q R) (recvBuf : ByteString)
    (message : List (Option κ)) : List (Option κ) :=
  match headerSource codec recvBuf with
  | some (i, n) => (message.drop i).take n
  | none => s.headerOrigin

/-- `reset` and the next `read_once`, which uses `m_client` as it is then. -/
def again (s : SharedProvider κ Q R) (c : κ) : SharedProvider κ Q R :=
  { s with
    provider := s.provider.reset
    origin := List.replicate readBufferSize none
    phase := Function.update s.phase c (.receiving s.client) }

/-- `OnMessage` in the fiber of `c`, up to the `send` of its response. -/
def handle (codec : HeaderCodec) (s : SharedProvider κ Q R) (c : κ) (origin : List (Option κ))
    (handled : Handled Q R) : SharedProvider κ Q R :=
  let recvBuf := handled.provider.recvBuf
  let message := origin.take recvBuf.length
  let header := s.headerOrigins codec recvBuf message
  let s := { s with
    provider := handled.provider
    origin := origin
    headerOrigin := header
    served := s.served ++
      [(⟨c, message ++ header, handled.sent.map (fun _ => s.client)⟩ : Served κ)] }
  if handled.result then
    match handled.sent with
    | some _ => { s with phase := Function.update s.phase c (.sending s.client) }
    | none => s.again c
  else { s with phase := Function.update s.phase c .closed }

/-- `strlen` finds no zero byte in the buffer and reads on in the members behind it, which no
client has sent. -/
def overrun (s : SharedProvider κ Q R) (c : κ) (origin : List (Option κ)) (p : Provider Q R) :
    SharedProvider κ Q R :=
  { s with
    provider := p
    origin := origin
    phase := Function.update s.phase c .astray
    served := s.served ++ [(⟨c, origin ++ [none], none⟩ : Served κ)] }

/-- `provider::handleClient` in the fiber of each connection. -/
def step (codec : HeaderCodec) (s : SharedProvider κ Q R) :
    FiberAction κ → Option (SharedProvider κ Q R)
  | .start c =>
    match s.phase c with
    | .idle => some { s with
        client := some c, phase := Function.update s.phase c (.receiving (some c)) }
    | _ => none
  | .returned c r =>
    match s.phase c with
    | .receiving socket =>
      if r.bytes.length ≤ readBufferSize then
        match s.provider.readOnce r with
        | (false, p) => some { s with
            provider := p, phase := Function.update s.phase c .closed }
        | (true, p) =>
          match p.onMessage codec with
          | .ok handled => some (s.handle codec c (s.received socket r.bytes) handled)
          | .error _ => some (s.overrun c (s.received socket r.bytes) p)
      else none
    | _ => none
  | .sent c =>
    match s.phase c with
    | .sending _ => some (s.again c)
    | _ => none

/-- A provider that has not served anybody yet. -/
def fresh (services : AList (fun _ : ByteString => AList (fun _ : ByteString => Method Q R))) :
    SharedProvider κ Q R := { provider := { serviceMap := services } }

/-- Everything parsed in the fiber of a client came from its socket, and its responses went
out on its socket. -/
def Separate (s : SharedProvider κ Q R) : Prop :=
  ∀ m ∈ s.served, (∀ o ∈ m.parsed, o = some m.client) ∧
    ∀ socket, m.response = some socket → socket = some m.client

/-- What `OnMessage` will take for the message when a `recv` has returned. -/
def message (s : SharedProvider κ Q R) (r : Recv) : ByteString :=
  (s.provider.readOnce r).2.readBuf.bytes.takeWhile (· ≠ 0)

/-- Where the bytes of the message behind the received ones come from. -/
def leftover (s : SharedProvider κ Q R) (r : Recv) : List (Option κ) :=
  (s.origin.drop r.bytes.length).take ((s.message r).length - r.bytes.length)

/-- The members are those of the client: `m_client` when a `recv` is called or returns, the
bytes behind the received ones up to a zero byte in the buffer, and the header string if none can
be read. -/
def Undisturbed (codec : HeaderCodec) (s : SharedProvider κ Q R) : FiberAction κ → Prop
  | .start _ => True
  | .sent c => s.client = some c
  | .returned c r => (s.provider.readOnce r).1 = true →
      (0 : UInt8) ∈ (s.provider.readOnce r).2.readBuf.bytes ∧
        s.client = some c ∧ (∀ o ∈ s.leftover r, o = some c) ∧
          (headerSource codec (s.message r) = none → ∀ o ∈ s.headerOrigin, o = some c)

end SharedProvider

/-- The header string that is parsed is the part of the message it is said to come from, or
the one of an earlier message. -/
theorem decodeFrame_header {Q R : Type} (codec : HeaderCodec) (p : Provider Q R)
    (recvBuf : ByteString) :
    (p.decodeFrame codec recvBuf).2.recvBuf = recvBuf ∧
      (p.decodeFrame codec recvBuf).2.rpcHeaderStr =
        match headerSource codec recvBuf with
        | some (i, n) => (recvBuf.drop i).take n
        | none => p.rpcHeaderStr := by
  have hheader : (p.decodeFrame codec recvBuf).2.recvBuf = recvBuf ∧
      (p.decodeFrame codec recvBuf).2.rpcHeaderStr =
        (codec.readString
          (codec.pushLimit (codec.readVarint32 { rest := recvBuf }).2.2
            (codec.readVarint32 { rest := recvBuf }).2.1.toInt32.toInt)
          p.rpcHeaderStr (codec.readVarint32 { rest := recvBuf }).2.1.toInt32.toInt).2.1 := by
    unfold Provider.decodeFrame
    dsimp only
    split
    · exact ⟨rfl, rfl⟩
    · exact ⟨rfl, rfl⟩
  refine ⟨hheader.1, hheader.2.trans ?_⟩
  obtain ⟨k, hk, hrest⟩ := codec.readVarint32_rest recvBuf
  unfold headerSource
  dsimp only
  rw [hrest]
  by_cases hneg : (codec.readVarint32 { rest := recvBuf }).2.1.toInt32.toInt < 0
  · rw [if_pos hneg, codec.readString_neg _ _ hneg]
  · obtain ⟨n, hn⟩ := Int.eq_ofNat_of_zero_le (Int.not_lt.mp hneg)
    rw [if_neg hneg, hn, (codec.readString_limited _ _ n).1]
    simp only [List.length_drop, Nat.sub_sub_self hk, Int.toNat_natCast]

end CoroutineRpc.Rpc
