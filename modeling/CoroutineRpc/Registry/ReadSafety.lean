import CoroutineRpc.Registry.Process
import CoroutineRpc.Rpc.HeaderWire

/-! Which received bytes make a server read past its receive buffer. The registry trusts
the declared length and logs the buffer as a C string, the provider relies on `strlen`. -/
namespace CoroutineRpc.Registry
open Rpc

/-- The bytes of one successful `recv` into a receive buffer. -/
structure Delivery where
  bytes : ByteString
  nonempty : 0 < bytes.length
  fits : bytes.length ≤ readBufferSize

/-- The buffer after the delivery, whatever it held before. -/
def Delivery.into (d : Delivery) (buf : CBuffer readBufferSize) : CBuffer readBufferSize :=
  buf.fill d.bytes

/-- The length declared by the first four bytes of the buffer. -/
def declared (buf : CBuffer readBufferSize) : Except OutOfBounds Nat :=
  RpcConn.dataSize { readBuf := buf }

/-- Every read of the registry's round stays inside the buffer, and a message that declares
more than was received is refused without touching the maps. -/
def RegistrySafe (codec : HeaderCodec) (now : Int) (server : RpcServer) (conn : RpcConn)
    (d : Delivery) : Prop :=
  ∃ p, conn.turn codec now server (.got d.bytes) = .ok p ∧
    ∀ size, declared (d.into conn.readBuf) = .ok size → d.bytes.length - 4 < size →
      p.result = false ∧ p.server = server

/-- The buffer holds a zero byte, the declared length ends inside the buffer, and where it
ends behind the received bytes the bytes it covers are no header. -/
def RegistryFits (codec : HeaderCodec) (conn : RpcConn) (d : Delivery) : Prop :=
  (0 : UInt8) ∈ (d.into conn.readBuf).bytes ∧
    ∀ size, declared (d.into conn.readBuf) = .ok size → 4 + size ≤ readBufferSize ∧
      (d.bytes.length - 4 < size →
        codec.parseFromString (((d.into conn.readBuf).bytes.drop 4).take size) = none)

def ProviderSafe {Q R : Type} (codec : HeaderCodec) (p : Provider Q R) (d : Delivery) : Prop :=
  ∃ handled, p.turn codec (.got d.bytes) = .ok handled

def ProviderTerminated {Q R : Type} (p : Provider Q R) (d : Delivery) : Prop :=
  (0 : UInt8) ∈ (d.into p.readBuf).bytes

theorem dataSize_ok (conn : RpcConn) : ∃ size, conn.dataSize = .ok size := by
  obtain ⟨b0, _, h0⟩ := conn.readBuf.read_ok (show 0 < readBufferSize by decide)
  obtain ⟨b1, _, h1⟩ := conn.readBuf.read_ok (show 1 < readBufferSize by decide)
  obtain ⟨b2, _, h2⟩ := conn.readBuf.read_ok (show 2 < readBufferSize by decide)
  obtain ⟨b3, _, h3⟩ := conn.readBuf.read_ok (show 3 < readBufferSize by decide)
  refine ⟨RpcConn.ntohl b0 b1 b2 b3, ?_⟩
  simp only [RpcConn.dataSize, h0, h1, h2, h3]
  rfl

theorem decode_ok {codec : HeaderCodec} {conn : RpcConn} {size : Nat}
    (hsize : conn.dataSize = .ok size) (hfit : 4 + size ≤ readBufferSize) :
    conn.decode codec =
      .ok ((codec.parseFromString ((conn.readBuf.bytes.drop 4).take size)).map conn.load) := by
  simp only [RpcConn.decode, hsize, bind, Except.bind, conn.readBuf.string_ok 4 size hfit]
  rfl

theorem decode_error (codec : HeaderCodec) {conn : RpcConn} {size : Nat}
    (hsize : conn.dataSize = .ok size) (hfit : readBufferSize < 4 + size) :
    conn.decode codec = .error ⟨readBufferSize⟩ := by
  simp only [RpcConn.decode, hsize, bind, Except.bind,
    conn.readBuf.string_error 4 size (by decide) hfit]

/-- A decoded message is always handled, and only a refused one reports false. -/
theorem process_of_decode {codec : HeaderCodec} {conn : RpcConn} {parsed : Option RpcConn}
    (now : Int) (server : RpcServer) (h : conn.decode codec = .ok parsed) :
    ∃ p, conn.process codec now server = .ok p ∧ (p.result = false ↔ parsed = none) ∧
      (parsed = none → p.server = server) := by
  rw [RpcConn.process, h]
  cases parsed with
  | none => exact ⟨_, rfl, by simp, fun _ => rfl⟩
  | some conn' =>
    by_cases htype : conn'.type = 1
    · refine ⟨⟨true, conn'.reset, conn'.notifyService now server, none⟩, ?_, by simp, by simp⟩
      simp only [bind, Except.bind, htype, if_true]
      rfl
    · refine ⟨⟨true, conn'.reset, server, some (conn'.callingMethods server)⟩, ?_, by simp,
        fun _ => rfl⟩
      simp only [bind, Except.bind, htype, if_false]
      rfl

theorem process_error {codec : HeaderCodec} {conn : RpcConn} {e : OutOfBounds} (now : Int)
    (server : RpcServer) (h : conn.decode codec = .error e) :
    conn.process codec now server = .error e := by
  rw [RpcConn.process, h]
  rfl

/-- The log line of a round stops at a zero byte, and the message is processed. -/
theorem turn_terminated (codec : HeaderCodec) (now : Int) (server : RpcServer) (conn : RpcConn)
    {d : Delivery} (hzero : (0 : UInt8) ∈ (d.into conn.readBuf).bytes) :
    conn.turn codec now server (.got d.bytes) =
      { conn with readBuf := d.into conn.readBuf : RpcConn }.process codec now server := by
  have hlog : (conn.readBuf.fill d.bytes).cString = _ := CBuffer.cString_ok _ hzero
  simp only [RpcConn.turn, RpcConn.readOnce, hlog]
  rfl

/-- Without one it runs off the end before anything is processed. -/
theorem turn_unterminated (codec : HeaderCodec) (now : Int) (server : RpcServer)
    (conn : RpcConn) {d : Delivery} (hzero : (0 : UInt8) ∉ (d.into conn.readBuf).bytes) :
    conn.turn codec now server (.got d.bytes) = .error ⟨readBufferSize⟩ := by
  have hlog : (conn.readBuf.fill d.bytes).cString = _ := CBuffer.cString_error _ hzero
  simp only [RpcConn.turn, RpcConn.readOnce, hlog]
  rfl

/-- A round on a terminated buffer is safe as far as the declared length lets it be. -/
theorem processed_safe_iff (codec : HeaderCodec) (now : Int) (server : RpcServer)
    (conn : RpcConn) (received : Nat) {size : Nat} (hsize : conn.dataSize = .ok size) :
    (∃ p, conn.process codec now server = .ok p ∧
        (received - 4 < size → p.result = false ∧ p.server = server)) ↔
      4 + size ≤ readBufferSize ∧ (received - 4 < size →
        codec.parseFromString ((conn.readBuf.bytes.drop 4).take size) = none) := by
  by_cases hfit : 4 + size ≤ readBufferSize
  · obtain ⟨p, hp, hresult, hserver⟩ := process_of_decode now server (decode_ok hsize hfit)
    simp only [Option.map_eq_none_iff] at hresult hserver
    constructor
    · rintro ⟨p', hp', hrefused⟩
      obtain rfl : p = p' := Except.ok.inj (hp.symm.trans hp')
      exact ⟨hfit, fun hover => hresult.mp (hrefused hover).1⟩
    · rintro ⟨-, hnone⟩
      exact ⟨p, hp, fun hover => ⟨hresult.mpr (hnone hover), hserver (hnone hover)⟩⟩
  · have herror := process_error now server (decode_error codec hsize (by omega))
    constructor
    · rintro ⟨p, hp, -⟩
      cases herror.symm.trans hp
    · rintro ⟨hfit', -⟩
      exact absurd hfit' hfit

private theorem registrySafe_iff (codec : HeaderCodec) (now : Int) (server : RpcServer)
    (conn : RpcConn)
    (d : Delivery) : RegistrySafe codec now server conn d ↔ RegistryFits codec conn d := by
  obtain ⟨size, hsize⟩ := dataSize_ok { conn with readBuf := d.into conn.readBuf }
  have hdeclared : declared (d.into conn.readBuf) = .ok size := hsize
  have hsafe := processed_safe_iff codec now server _ d.bytes.length hsize
  unfold RegistrySafe RegistryFits
  simp only [hdeclared, Except.ok.injEq, forall_eq']
  by_cases hzero : (0 : UInt8) ∈ (d.into conn.readBuf).bytes
  · rw [turn_terminated codec now server conn hzero]
    exact hsafe.trans ⟨fun h => ⟨hzero, h⟩, fun h => h.2⟩
  · rw [turn_unterminated codec now server conn hzero]
    constructor
    · rintro ⟨p, hp, -⟩
      cases hp
    · rintro ⟨hmem, -⟩
      exact absurd hmem hzero

private theorem providerSafe_iff {Q R : Type} (codec : HeaderCodec) (p : Provider Q R)
    (d : Delivery) : ProviderSafe codec p d ↔ ProviderTerminated p d := by
  unfold ProviderSafe ProviderTerminated
  constructor
  · rintro ⟨handled, hturn⟩
    by_contra hzero
    have hscan : (p.readBuf.fill d.bytes).cString = _ := CBuffer.cString_error _ hzero
    simp only [Provider.turn, Provider.readOnce, Provider.onMessage, hscan] at hturn
    cases hturn
  · intro hzero
    have hscan : (p.readBuf.fill d.bytes).cString = _ := CBuffer.cString_ok _ hzero
    simp only [Provider.turn, Provider.readOnce, Provider.onMessage, hscan]
    exact ⟨_, rfl⟩

/-- Exactly the deliveries that keep both servers inside their receive buffers: the
registry needs a zero byte and an honest length, the provider a zero byte. -/
theorem reads_in_bounds_iff {Q R : Type} (codec : HeaderCodec) (now : Int) (server : RpcServer)
    (conn : RpcConn) (p : Provider Q R) (d : Delivery) :
    (RegistrySafe codec now server conn d ↔ RegistryFits codec conn d) ∧
      (ProviderSafe codec p d ↔ ProviderTerminated p d) :=
  ⟨registrySafe_iff codec now server conn d, providerSafe_iff codec p d⟩

/-- Four bytes that declare 2048 more: one past the 2044 that are left of the buffer. -/
def greedy : Delivery where
  bytes := [0, 0, 8, 0]
  nonempty := by decide
  fits := by decide

/-- The registry copies four bytes that lie behind a fresh connection's buffer. -/
theorem declared_length_overruns :
    RpcConn.turn (HeaderWire.codec .protobuf) 0 {} {} (.got greedy.bytes) = .error ⟨readBufferSize⟩ ∧
      ¬ RegistrySafe (HeaderWire.codec .protobuf) 0 {} {} greedy := by
  have hzero : (0 : UInt8) ∈ (greedy.into (CBuffer.zeroed _)).bytes := List.mem_cons_self
  have hsize : RpcConn.dataSize { readBuf := greedy.into (CBuffer.zeroed _) } = .ok 2048 := rfl
  have hturn := turn_terminated (HeaderWire.codec .protobuf) 0 {} {} hzero
  rw [process_error 0 {} (decode_error _ hsize (by decide))] at hturn
  refine ⟨hturn, ?_⟩
  rintro ⟨p, hp, -⟩
  cases hturn.symm.trans hp

end CoroutineRpc.Registry
