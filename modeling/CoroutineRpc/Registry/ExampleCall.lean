import CoroutineRpc.Library.Decimal
import CoroutineRpc.Registry.Programs
import CoroutineRpc.Rpc.GetList
import CoroutineRpc.Rpc.RemoteCall

/-! The example programs from one end to the other: the server announces itself, the client asks
the registry for it, connects to what it is told and calls the list service there. -/
namespace CoroutineRpc.Registry
open Rpc Text HeaderWire MessageWire

/-- `exampleService`; its member is only filled while a request is answered. -/
structure ExampleService where
  v : List ByteString := []

namespace ExampleService

def entries : List ByteString :=
  [ascii "welcome to huanheart project", ascii "Here is my blog link ",
    ascii "https://github.com/huanheart"]

def pushData (s : ExampleService) : ExampleService := ⟨s.v ++ entries⟩

/-- `GetList` up to `done->Run()`. -/
def getList (s : ExampleService) (_request : GetListRequest) : GetListResponse × ExampleService :=
  let s := s.pushData
  (⟨some { errcode := 0, errmsg := [] }, s.v⟩, ⟨[]⟩)

/-- The method on a service that answers nothing else at the moment. -/
def method (rt : Runtime) : Method GetListRequest GetListResponse where
  parseRequest := GetListRequest.parseFromString rt
  call request := some (({} : ExampleService).getList request).1
  serializeResponse := GetListResponse.serializeToString rt

/-- What the generated `ServiceRpc` describes. -/
def service (rt : Runtime) : Service GetListRequest GetListResponse :=
  ⟨ascii "ServiceRpc", [(ascii "GetList", method rt)]⟩

def stub (rt : Runtime) : Stub GetListRequest GetListResponse where
  serviceName := ascii "ServiceRpc"
  methodName := ascii "GetList"
  serializeRequest := GetListRequest.serializeToString rt
  parseResponse := GetListResponse.parseFromString rt

/-- What the client prints. -/
def listed : GetListResponse := ⟨some {}, entries⟩

end ExampleService

/-- `new Channel(Serviceip, stoi(Serviceport), true, 0)`; `none` where `stoi` throws. -/
def Client.channel (client : Client) (first : Connect) (again : Nat → Connect) : Option Attempt :=
  (stoi client.serviceport).map (fun port =>
    Channel.create client.serviceip (Int16.ofInt port) true 0 first again)

/-- With what the client knows it connects to this address and gets the list from any provider
there that is between two messages, whatever its connection attempts met before. -/
def Client.Lists (rt : Runtime) (client : Client) (ip : ByteString) (port : Nat) : Prop :=
  ∀ first again request, ∃ attempt frame, client.channel first again = some attempt ∧
    attempt.channel.ip = ip ∧ attempt.channel.peerPort.toNat = port ∧
    attempt.channel.requestFrame (codec rt) (ExampleService.stub rt) request = some frame ∧
    ∀ p : Provider GetListRequest GetListResponse, p.readBuf = CBuffer.zeroed _ →
      p.serviceMap.lookup (ascii "ServiceRpc") = some (ExampleService.service rt).methodMap →
      ∃ handled str, p.turn (codec rt) (.got frame) = .ok handled ∧ handled.result = true ∧
        handled.sent = some str ∧ str.length ≤ Channel.recvBufSize ∧
        ∀ net : Network, Connects attempt.channel net → net.reply = .got str →
          ∃ called,
            attempt.channel.callMethod (codec rt) (ExampleService.stub rt) request net = .ok called ∧
            called.failed = none ∧ called.response = some ExampleService.listed

section Sizes
variable (rt : Runtime)

/-- A header is not much longer than its texts. -/
theorem length_header_le (h : RpcHeader) : (internalSerialize rt h).length ≤
    h.serviceName.length + h.methodName.length + h.ip.length + 36 := by
  have hservice := length_bytesField_le rt 10 h.serviceName
  have hmethod := length_bytesField_le rt 18 h.methodName
  have hsize := length_uint32Field_le rt 24 h.argsSize
  have htype := length_uint32Field_le rt 32 h.messageType
  have hip := length_bytesField_le rt 42 h.ip
  have hport := length_uint32Field_le rt 48 h.port
  simp only [internalSerialize, List.length_append]
  omega

private theorem serialize_short {h : RpcHeader} {n : Nat}
    (hlen : (internalSerialize rt h).length ≤ n)
    (hn : n < 2 ^ 31) : (codec rt).serializeToString h = some (internalSerialize rt h) :=
  if_pos (Nat.lt_of_le_of_lt hlen hn)

private theorem zero_notMem_header {h : RpcHeader} (hservice : (0 : UInt8) ∉ h.serviceName)
    (hmethod : (0 : UInt8) ∉ h.methodName) (hip : (0 : UInt8) ∉ h.ip) :
    (0 : UInt8) ∉ internalSerialize rt h := by
  unfold internalSerialize
  simp only [List.mem_append, not_or]
  exact ⟨zero_notMem_bytesField rt (by decide) hservice,
    zero_notMem_bytesField rt (by decide) hmethod, zero_notMem_uint32Field rt (by decide) _,
    zero_notMem_uint32Field rt (by decide) _, zero_notMem_bytesField rt (by decide) hip,
    zero_notMem_uint32Field rt (by decide) _⟩

end Sizes

namespace ExampleService

variable (rt : Runtime)

private theorem request_serialized (request : GetListRequest) :
    (stub rt).serializeRequest request = some (uint32Field rt 8 request.userid) := by
  have hlen := length_uint32Field_le rt 8 request.userid
  exact if_pos (Nat.lt_of_le_of_lt hlen (by decide))

private theorem sameMessages : SameMessages (stub rt) (method rt) where
  request q bs hbs := by
    rw [request_serialized] at hbs
    cases hbs
    exact q.parse_internalSerialize rt
  response r bs hbs := by
    have hcases : (if (r.internalSerialize rt).length < 2 ^ 31 then some (r.internalSerialize rt)
        else none) = some bs := hbs
    split at hcases
    · next hlen =>
      cases hcases
      exact GetListResponse.parse_internalSerialize hlen
    · cases hcases

/-- The bytes of the answer, which is the same for every request. -/
theorem listed_serialized :
    (method rt).serializeResponse listed = some (listed.internalSerialize rt) ∧
      (listed.internalSerialize rt).length ≤ Channel.recvBufSize := by
  have hresult := length_sizedField_le rt 10 (ResultCode.internalSerialize rt {})
  have hvals := length_sizedFields_le rt 18 entries
  have htotal : ((ResultCode.internalSerialize rt {}).length + 6) +
      (entries.map (fun v => v.length + 6)).sum = 101 := rfl
  have hlen : (listed.internalSerialize rt).length ≤ 101 := by
    rw [GetListResponse.internalSerialize, List.length_append]
    exact (Nat.add_le_add hresult hvals).trans htotal.le
  exact ⟨if_pos (Nat.lt_of_le_of_lt hlen (by decide)), hlen.trans (by decide)⟩

/-- A request for the list fits into the provider's buffer and has no zero byte. -/
theorem request_framed (ch : Channel) (hlen : ch.ip.length ≤ 1000) (hip : (0 : UInt8) ∉ ch.ip)
    (request : GetListRequest) :
    ∃ frame, ch.requestFrame (codec rt) (stub rt) request = some frame ∧
      frame.length ≤ 2047 ∧ (0 : UInt8) ∉ frame := by
  let header := ch.header (stub rt) (uint32Field rt 8 request.userid)
  let hdr := internalSerialize rt header
  have hdrlen : hdr.length ≤ 1053 := by
    have h : hdr.length ≤ _ := length_header_le rt header
    have hname : header.serviceName.length = 10 := rfl
    have hmethod : header.methodName.length = 7 := rfl
    have hsame : header.ip = ch.ip := rfl
    rw [hname, hmethod, hsame] at h
    omega
  have hframe : ch.requestFrame (codec rt) (stub rt) request =
      some (rt.writeSized hdr ++ uint32Field rt 8 request.userid) := by
    rw [Channel.requestFrame, request_serialized, Option.bind_some, Channel.frame,
      serialize_short rt hdrlen (by decide)]
    rfl
  have hpos : 0 < hdr.length := by
    have hservice := length_le_bytesField rt 10 (ascii "ServiceRpc")
    have hname : (ascii "ServiceRpc").length = 10 := rfl
    have hfirst : (bytesField rt 10 (ascii "ServiceRpc")).length ≤ hdr.length := by
      change _ ≤ (internalSerialize rt _).length
      rw [internalSerialize, List.length_append]
      exact Nat.le_add_right _ _
    omega
  refine ⟨_, hframe, ?_, ?_⟩
  · have hsize := rt.length_writeVarint32 (hdr.length % 2 ^ 32)
    have hargs := length_uint32Field_le rt 8 request.userid
    rw [CodedStreams.writeSized, List.length_append, List.length_append]
    omega
  · rw [CodedStreams.writeSized, Nat.mod_eq_of_lt (by omega)]
    simp only [List.mem_append, not_or]
    exact ⟨⟨rt.zero_notMem_writeVarint32 hpos, zero_notMem_header rt
      (show (0 : UInt8) ∉ ascii "ServiceRpc" by decide)
      (show (0 : UInt8) ∉ ascii "GetList" by decide) hip⟩,
      zero_notMem_uint32Field rt (by decide) _⟩

end ExampleService

/-- A port that is read as `int` and cut to `short` is the same port again for `htons`. -/
theorem narrowed_port {n : Nat} (h : n < 2 ^ 16) :
    ((Int16.ofInt n).toInt32.toUInt32.toUInt16).toNat = n := by
  have hbits : (Int16.ofInt n).toInt32.toUInt32.toUInt16.toBitVec = BitVec.ofNat 16 n := by
    change ((BitVec.ofInt 16 n).signExtend 32).setWidth 16 = BitVec.ofNat 16 n
    apply BitVec.eq_of_getLsbD_eq
    intro i hi
    rw [BitVec.getLsbD_setWidth, BitVec.getLsbD_signExtend]
    simp [hi, show i < 32 by omega]
  change (Int16.ofInt n).toInt32.toUInt32.toUInt16.toBitVec.toNat = n
  rw [hbits, BitVec.toNat_ofNat, Nat.mod_eq_of_lt h]

/-- What the registry tells about an address is enough to get the list from there. -/
theorem told_lists (rt : Runtime) {ip : ByteString} {n : Nat} (hlen : ip.length ≤ 1000)
    (hip : (0 : UInt8) ∉ ip) (hn : n < 2 ^ 16) : Client.Lists rt ⟨ip, natText n⟩ ip n := by
  intro first again request
  have hport : stoi (natText n) = some n := by
    rw [← (intText_eq_natText_iff n n).mpr rfl]
    exact stoi_intText (by omega) (by omega)
  obtain ⟨fd, hcreate⟩ := Channel.create_channel ip (Int16.ofInt n) true 0 first again
  have hchannel : (Channel.create ip (Int16.ofInt n) true 0 first again).channel.ip = ip := by
    rw [hcreate]
  obtain ⟨frame, hframe, hfits, hclean⟩ := ExampleService.request_framed rt
    (Channel.create ip (Int16.ofInt n) true 0 first again).channel
    (by rw [hchannel]; exact hlen) (by rw [hchannel]; exact hip) request
  refine ⟨_, frame, congrArg (Option.map _) hport, hchannel, ?_, hframe, ?_⟩
  · rw [Channel.peerPort, hcreate]
    exact narrowed_port hn
  · intro p hzero hservice
    obtain ⟨hstr, hshort⟩ := ExampleService.listed_serialized rt
    have hmethod : (ExampleService.service rt).methodMap.lookup (ascii "GetList") =
        some (ExampleService.method rt) := rfl
    have hanswer : (ExampleService.method rt).call request = some ExampleService.listed := rfl
    obtain ⟨⟨handled, hturn, hresult, hsent⟩, hcalls⟩ := Provider.call_answered
      (ExampleService.sameMessages rt) hzero hservice hmethod hframe hfits hclean hanswer hstr
    exact ⟨handled, _, hturn, hresult, hsent, hshort, hcalls⟩

private theorem toUInt32_toNat {port : Int32} (h : 0 ≤ port.toInt) :
    port.toUInt32.toNat = port.toInt.toNat := by
  have hbits : port.toBitVec.toInt = port.toInt := rfl
  have hnat : port.toUInt32.toNat = port.toBitVec.toNat := rfl
  rw [hnat]
  rw [← hbits] at h ⊢
  rw [BitVec.toInt_eq_toNat_cond] at h ⊢
  have hlt := port.toBitVec.isLt
  split at h
  · next hsmall =>
    rw [if_pos hsmall]
    rfl
  · omega

/-- The server announces itself at the registry. As long as the registry keeps what it stored, a
client that asks is told an address through which it gets the list, whatever the connections of
both were used for before. -/
theorem announced_server_lists (rt : Runtime) {ip ip' : ByteString} {port : Int32} {port' : Int16}
    (hip : colon ∉ ip) (hclean : (0 : UInt8) ∉ ip) (hlen : ip.length ≤ 1000)
    (hlen' : ip'.length ≤ 1000) (hlow : 0 ≤ port.toInt) (hhigh : port.toInt < 2 ^ 16)
    (conn : RpcConn) (now : Int) (server : RpcServer) :
    ∃ sent p, sendData (codec rt) ip port = some sent ∧
      conn.turn (codec rt) now server (.got sent) = .ok p ∧ p.result = true ∧
      ∀ (server' : RpcServer) (conn' : RpcConn) (now' : Int) (client : Client),
        server'.serviceMap.lookup (ascii "exampleServiceGetList") =
          p.server.serviceMap.lookup (ascii "exampleServiceGetList") →
        ∃ asked q reply client', Client.request (codec rt) ip' port' = some asked ∧
          conn'.turn (codec rt) now' server' (.got asked) = .ok q ∧ q.sent = some reply ∧
          client.getIpAndPort (.got reply) = some (true, client') ∧
          client'.Lists rt ip port.toInt.toNat := by
  have hnat : port.toUInt32.toNat = port.toInt.toNat := toUInt32_toNat hlow
  have hsent := length_header_le rt (registration ip port)
  have hasked := length_header_le rt (query ip' port')
  have hnames : (registration ip port).serviceName.length = 14 ∧
      (registration ip port).methodName.length = 7 ∧ (registration ip port).ip = ip ∧
      (query ip' port').serviceName.length = 14 ∧ (query ip' port').methodName.length = 7 ∧
      (query ip' port').ip = ip' := ⟨rfl, rfl, rfl, rfl, rfl, rfl⟩
  obtain ⟨hs, hm, hi, hs', hm', hi'⟩ := hnames
  rw [hs, hm, hi] at hsent
  rw [hs', hm', hi'] at hasked
  have hbuffer : readBufferSize = 2048 := rfl
  have hdata := serialize_short rt hsent (by omega)
  have hdata' := serialize_short rt hasked (by omega)
  obtain ⟨r, hturn⟩ := turn_message (codec rt) hdata (by omega) conn now server
  have hstored : (r.finish now server (some (registration ip port))).server.serviceMap.lookup
      (ascii "exampleServiceGetList") = some (r.load (registration ip port)).endpoint :=
    notify_service (r.load (registration ip port)) now server
  refine ⟨_, _, congrArg (Option.map message) hdata, hturn, rfl, ?_⟩
  intro server' conn' now' client hkept
  rw [hstored] at hkept
  obtain ⟨r', hturn'⟩ := turn_message (codec rt) hdata' (by omega) conn' now' server'
  have htype : (query ip' port').messageType ≠ 1 := show (0 : UInt32) ≠ 1 by decide
  have hreply : (r'.load (query ip' port')).callingMethods server' =
      (r.load (registration ip port)).endpoint := by
    have hkey : (r'.load (query ip' port')).key = ascii "exampleServiceGetList" := rfl
    rw [RpcConn.callingMethods, hkey, hkept]
  have hendpoint : (r.load (registration ip port)).endpoint =
      ip ++ colon :: intText port.toUInt32.toInt32.toInt := rfl
  have hport : intText port.toUInt32.toInt32.toInt = natText port.toInt.toNat := by
    rw [← hnat]
    exact (portText_iff _).mpr (by omega)
  have hshort : (ip ++ colon :: natText port.toInt.toNat).length ≤ Client.recvBufferSize := by
    have htext := length_natText_le (n := port.toInt.toNat) (k := 5) (by omega)
    have hsize : Client.recvBufferSize = 2048 := rfl
    rw [List.length_append, List.length_cons]
    omega
  refine ⟨_, _, _, ⟨ip, natText port.toInt.toNat⟩, congrArg (Option.map message) hdata', hturn',
    finish_sent htype, ?_, told_lists rt hlen hclean (by omega)⟩
  rw [hreply, hendpoint, hport, Client.getIpAndPort, List.take_of_length_le hshort,
    split_first client hip]

/-- The example server at its own address. -/
theorem example_server_lists :
    ∃ sent p, sendData (codec .protobuf) (ascii "192.168.15.128") 9910 = some sent ∧
      RpcConn.turn (codec .protobuf) 0 {} {} (.got sent) = .ok p ∧ p.result = true ∧
      ∀ (server' : RpcServer) (conn' : RpcConn) (now' : Int) (client : Client),
        server'.serviceMap.lookup (ascii "exampleServiceGetList") =
          p.server.serviceMap.lookup (ascii "exampleServiceGetList") →
        ∃ asked q reply client',
          Client.request (codec .protobuf) (ascii "192.168.15.128") (-1) = some asked ∧
          conn'.turn (codec .protobuf) now' server' (.got asked) = .ok q ∧ q.sent = some reply ∧
          client.getIpAndPort (.got reply) = some (true, client') ∧
          client'.Lists .protobuf (ascii "192.168.15.128") (9910 : Int32).toInt.toNat :=
  announced_server_lists .protobuf (by decide) (by decide) (by decide) (by decide) (by decide)
    (by decide) {} 0 {}

end CoroutineRpc.Registry
