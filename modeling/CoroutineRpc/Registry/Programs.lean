import CoroutineRpc.Registry.Answers
import CoroutineRpc.Registry.Connection

/-! The two programs that talk to the registry: a server that registers itself and a client
that asks for it. Both put the length of their header in front of it. -/
namespace CoroutineRpc.Registry
open Rpc Text

/-- `buffer` as both programs build it. -/
def message (serializedData : ByteString) : ByteString :=
  htonl serializedData.length ++ serializedData

/-- The header that the server's `SendData` fills in. -/
def registration (ip : ByteString) (port : Int32) : RpcHeader where
  serviceName := ascii "exampleService"
  methodName := ascii "GetList"
  messageType := 1
  ip := ip
  port := port.toUInt32
  argsSize := 128

/-- The header that the client's `GetIpAndPort` fills in. -/
def query (ip : ByteString) (port : Int16) : RpcHeader where
  serviceName := ascii "exampleService"
  methodName := ascii "GetList"
  messageType := 0
  ip := ip
  port := port.toInt32.toUInt32
  argsSize := 128

/-- `SendData` up to its `send`. -/
def sendData (codec : HeaderCodec) (ip : ByteString) (port : Int32) : Option ByteString :=
  (codec.serializeToString (registration ip port)).map message

/-- The globals in which the client keeps the endpoint it was told. -/
structure Client where
  serviceip : ByteString := []
  serviceport : ByteString := []
  deriving DecidableEq, Repr

namespace Client

/-- `GetIpAndPort` up to its `send`. -/
def request (codec : HeaderCodec) (ip : ByteString) (port : Int16) : Option ByteString :=
  (codec.serializeToString (query ip port)).map message

/-- What `GetIpAndPort` makes of the reply. -/
def split (client : Client) (res : ByteString) : Bool × Client :=
  if res = ascii "error" then (false, client)
  else match res.idxOf? colon with
    | none => (false, client)
    | some pos => (true, ⟨res.take pos, (res.drop (pos + 1)).take (res.length - pos)⟩)

/-- The size of `recv_buffer`. -/
def recvBufferSize : Nat := 2048

/-- `GetIpAndPort` from its `recv` on. -/
def getIpAndPort (client : Client) : Recv → Option (Bool × Client)
  -- the constructor of std::string throws for a length of -1
  | .failed _ => none
  | .closed => some (client.split [])
  | .got bytes => some (client.split (bytes.take recvBufferSize))

end Client

/-- The members that `process` has assigned, as a header. -/
def RpcConn.header (conn : RpcConn) : RpcHeader :=
  ⟨conn.serviceName, conn.methodName, conn.argsSize, conn.type, conn.ip, conn.port⟩

/-- The message was decoded into the header that was sent, and registered under its two names
with its address, or answered without touching the maps. -/
structure Handled (now : Int) (server : RpcServer) (h : RpcHeader) (p : RpcConn.Processed) :
    Prop where
  result : p.result = true
  decoded : p.conn.header = h
  registered : h.messageType = 1 → p.sent = none ∧
    p.server.serviceMap = server.serviceMap.insert (h.serviceName ++ h.methodName)
      (h.ip ++ colon :: natText h.port.toNat) ∧
    p.server.timeMap = server.timeMap.insert (h.serviceName ++ h.methodName) now
  answered : h.messageType ≠ 1 → p.sent.isSome ∧ p.server = server

/-- The client knows the address that was registered, and did not take it for an error. -/
structure Recovered (ip : ByteString) (port : UInt32) (client : Client) (reply : ByteString) :
    Prop where
  noError : reply ≠ ascii "error"
  split : client.getIpAndPort (.got reply) = some (true, ⟨ip, natText port.toNat⟩)

@[simp] theorem load_header (conn : RpcConn) (h : RpcHeader) : (conn.load h).header = h := rfl

theorem portText_iff (port : UInt32) :
    intText port.toInt32.toInt = natText port.toNat ↔ port.toNat < 2 ^ 31 := by
  rw [intText_eq_natText_iff, port_cast_eq_iff]
  exact and_iff_right rfl

private theorem insert_inj {V : Type} {m : UnorderedMap V} {k : ByteString} {v w : V} :
    m.insert k v = m.insert k w ↔ v = w := by
  constructor
  · intro h
    have hlookup := congrArg (AList.lookup k) h
    rw [AList.lookup_insert, AList.lookup_insert] at hlookup
    exact Option.some.inj hlookup
  · rintro rfl
    rfl

/-- A header that was parsed is handled as it should be, up to the text of the port. -/
theorem finish_handled_iff (received : RpcConn) (now : Int) (server : RpcServer) (h : RpcHeader) :
    Handled now server h (received.finish now server (some h)) ↔
      (h.messageType = 1 → h.port.toNat < 2 ^ 31) := by
  by_cases htype : h.messageType = 1
  · have hfinish : received.finish now server (some h) =
        ⟨true, (received.load h).reset, (received.load h).notifyService now server, none⟩ :=
      if_pos htype
    have hmap : ((received.load h).notifyService now server).serviceMap =
        server.serviceMap.insert (h.serviceName ++ h.methodName)
          (h.ip ++ colon :: intText h.port.toInt32.toInt) := rfl
    rw [hfinish]
    constructor
    · intro hhandled _
      have hservice := (hhandled.registered htype).2.1
      rw [hmap, insert_inj, List.append_cancel_left_eq, List.cons_inj_right] at hservice
      exact (portText_iff h.port).mp hservice
    · intro hport
      refine ⟨rfl, rfl, fun _ => ⟨rfl, ?_, rfl⟩, fun hne => absurd htype hne⟩
      rw [hmap, (portText_iff h.port).mpr (hport htype)]
  · have hfinish : received.finish now server (some h) =
        ⟨true, (received.load h).reset, server, some ((received.load h).callingMethods server)⟩ :=
      if_neg htype
    rw [hfinish]
    constructor
    · exact fun _ heq => absurd heq htype
    · exact fun _ => ⟨rfl, rfl, fun heq => absurd heq htype, fun _ => ⟨rfl, rfl⟩⟩

/-- Whatever the slot held before: a whole message is decoded into the header that it was made
from, and does what it should exactly when it registers no port from 2^31 on. -/
theorem message_handled_iff (codec : HeaderCodec) {h : RpcHeader} {data : ByteString}
    (hdata : codec.serializeToString h = some data) (hfits : data.length ≤ 2044)
    (conn : RpcConn) (now : Int) (server : RpcServer) :
    (∃ p, conn.turn codec now server (.got (message data)) = .ok p ∧ Handled now server h p) ↔
      (h.messageType = 1 → h.port.toNat < 2 ^ 31) := by
  have hfits' : 4 + data.length ≤ readBufferSize := Nat.add_le_of_le_sub' (by decide) hfits
  obtain ⟨received, hturn⟩ := turn_message codec hdata hfits' conn now server
  rw [← finish_handled_iff received now server h, message, hturn]
  constructor
  · rintro ⟨p, hp, hhandled⟩
    cases hp
    exact hhandled
  · exact fun hhandled => ⟨_, rfl, hhandled⟩

/-- The example server's own registration. -/
theorem server_registration_handled :
    ∃ p, RpcConn.turn (HeaderWire.codec .protobuf) 0 {} {} (.got (message
        (HeaderWire.internalSerialize .protobuf
          (registration (ascii "192.168.15.128") 9910)))) = .ok p ∧
      Handled 0 {} (registration (ascii "192.168.15.128") 9910) p :=
  (message_handled_iff (HeaderWire.codec .protobuf) (by decide) (by decide) {} 0 {}).mpr (by decide)

/-- A server that registers the port -2147483648, as its `int` can hold it. -/
def highPort : RpcHeader := registration (ascii "1") (-2147483648)

/-- The uint32 port 2147483648 is registered as a negative number. -/
theorem high_port_registered_negative :
    highPort.port.toNat = 2147483648 ∧
      (∃ data p, (HeaderWire.codec .protobuf).serializeToString highPort = some data ∧
        data.length ≤ 2044 ∧
        RpcConn.turn (HeaderWire.codec .protobuf) 0 {} {} (.got (message data)) = .ok p ∧
        p.server.serviceMap.lookup (ascii "exampleServiceGetList") = some (ascii "1:-2147483648")) ∧
      ¬ ∀ (h : RpcHeader) (data : ByteString),
        (HeaderWire.codec .protobuf).serializeToString h = some data →
        data.length ≤ 2044 → ∀ conn now server, ∃ p,
          RpcConn.turn (HeaderWire.codec .protobuf) now server conn (.got (message data)) = .ok p ∧
            Handled now server h p := by
  have hdata : (HeaderWire.codec .protobuf).serializeToString highPort =
      some (HeaderWire.internalSerialize .protobuf highPort) := by decide
  have hfits : (HeaderWire.internalSerialize .protobuf highPort).length ≤ 2044 := by decide
  obtain ⟨received, hturn⟩ := turn_message (HeaderWire.codec .protobuf) hdata
    (Nat.add_le_of_le_sub' (by decide) hfits) {} 0 {}
  have hlookup : (received.finish 0 {} (some highPort)).server.serviceMap.lookup
      (ascii "exampleServiceGetList") = some (ascii "1:-2147483648") := by
    have hendpoint : (received.load highPort).endpoint = ascii "1:-2147483648" := by
      change highPort.ip ++ colon :: intText highPort.port.toInt32.toInt = _
      decide
    rw [← hendpoint]
    exact notify_service (received.load highPort) 0 {}
  refine ⟨by decide, ⟨_, _, hdata, hfits, hturn, hlookup⟩, ?_⟩
  intro hall
  obtain ⟨p, hp, hhandled⟩ := hall highPort _ hdata hfits {} 0 {}
  rw [message, hturn] at hp
  cases hp
  exact absurd ((finish_handled_iff received 0 {} highPort).mp hhandled rfl) (by decide)

/-- The reply to a registered service is what `NotifyService` stored for it. -/
theorem callingMethods_registered {conn asking : RpcConn} (hkey : asking.key = conn.key)
    (now : Int) (server : RpcServer) :
    asking.callingMethods (conn.notifyService now server) = conn.endpoint := by
  rw [RpcConn.callingMethods, hkey, notify_service]

/-- The client splits a reply at its first colon. -/
theorem split_first (client : Client) {as rest : ByteString} (h : colon ∉ as) :
    client.split (as ++ colon :: rest) = (true, ⟨as, rest⟩) := by
  have hrest : (as ++ colon :: rest).drop (as.length + 1) = rest := by
    rw [List.drop_length_add_append]
    rfl
  have hlen : rest.length ≤ (as ++ colon :: rest).length - as.length := by
    rw [List.length_append, List.length_cons]
    omega
  rw [Client.split, if_neg error_ne, idxOf?_separator h]
  dsimp only
  rw [List.take_left' rfl, hrest, List.take_of_length_le hlen]

private theorem split_eq_iff (client : Client) (ip : ByteString) (port : UInt32) :
    client.split (ip ++ colon :: intText port.toInt32.toInt) =
      (true, ⟨ip, natText port.toNat⟩) ↔ colon ∉ ip ∧ port.toNat < 2 ^ 31 := by
  rw [← portText_iff]
  by_cases hcolon : colon ∈ ip
  · obtain ⟨as, rest, rfl, has⟩ := List.eq_append_cons_of_mem hcolon
    rw [List.append_assoc, List.cons_append, split_first client has]
    constructor
    · intro h
      have hlen := congrArg (fun r => r.2.serviceip.length) h
      simp only [List.length_append, List.length_cons] at hlen
      omega
    · exact fun h => absurd hcolon h.1
  · rw [split_first client hcolon]
    constructor
    · intro h
      exact ⟨hcolon, congrArg (fun r => r.2.serviceport) h⟩
    · rintro ⟨-, htext⟩
      rw [htext]

/-- What `NotifyService` stored is read back exactly when the address has no colon and the port
survives the cast to `int`. -/
theorem endpoint_recovered_iff {conn : RpcConn} (client : Client)
    (hfits : conn.endpoint.length ≤ Client.recvBufferSize) :
    Recovered conn.ip conn.port client conn.endpoint ↔
      colon ∉ conn.ip ∧ conn.port.toNat < 2 ^ 31 := by
  have hread : client.getIpAndPort (.got conn.endpoint) = some (client.split conn.endpoint) := by
    rw [Client.getIpAndPort, List.take_of_length_le hfits]
  rw [← split_eq_iff client]
  constructor
  · intro h
    exact Option.some.inj (hread.symm.trans h.split)
  · intro h
    exact ⟨error_ne, hread.trans (congrArg some h)⟩

/-- So is a reply that arrives in one piece. -/
theorem reply_recovered_iff {conn asking : RpcConn} (hkey : asking.key = conn.key)
    (client : Client) (now : Int) (server : RpcServer)
    (hfits : (asking.callingMethods (conn.notifyService now server)).length ≤
      Client.recvBufferSize) :
    Recovered conn.ip conn.port client (asking.callingMethods (conn.notifyService now server)) ↔
      colon ∉ conn.ip ∧ conn.port.toNat < 2 ^ 31 := by
  rw [callingMethods_registered hkey] at hfits ⊢
  exact endpoint_recovered_iff client hfits

/-- A query that is handled gets the reply that `CallingMethods` chooses. -/
theorem finish_sent {received : RpcConn} {now : Int} {server : RpcServer} {h : RpcHeader}
    (htype : h.messageType ≠ 1) : (received.finish now server (some h)).sent =
      some ((received.load h).callingMethods server) := by
  rw [RpcConn.finish, if_neg htype]

/-- The server's `SendData` and then the client's `GetIpAndPort`, each on a slot with any past:
the client is told the address that the server has registered. -/
theorem client_finds_server {codec : HeaderCodec} {ip ip' sent asked : ByteString} {port : Int32}
    {port' : Int16} (hsent : sendData codec ip port = some sent)
    (hasked : Client.request codec ip' port' = some asked) (hfits : sent.length ≤ readBufferSize)
    (hfits' : asked.length ≤ readBufferSize) (hip : colon ∉ ip)
    (hport : port.toUInt32.toNat < 2 ^ 31) (conn conn' : RpcConn) (now now' : Int)
    (server : RpcServer) (client : Client) :
    ∃ p q reply, conn.turn codec now server (.got sent) = .ok p ∧
      conn'.turn codec now' p.server (.got asked) = .ok q ∧ q.sent = some reply ∧
      (reply.length ≤ Client.recvBufferSize → Recovered ip port.toUInt32 client reply) := by
  obtain ⟨data, hdata, rfl⟩ := Option.map_eq_some_iff.mp hsent
  obtain ⟨data', hdata', rfl⟩ := Option.map_eq_some_iff.mp hasked
  rw [message, List.length_append] at hfits hfits'
  obtain ⟨r, hturn⟩ := turn_message codec hdata hfits conn now server
  have hserver : (r.finish now server (some (registration ip port))).server =
      (r.load (registration ip port)).notifyService now server := rfl
  obtain ⟨r', hturn'⟩ := turn_message codec hdata' hfits' conn' now'
    ((r.load (registration ip port)).notifyService now server)
  have hkey : (r'.load (query ip' port')).key = (r.load (registration ip port)).key := rfl
  have htype : (query ip' port').messageType ≠ 1 := show (0 : UInt32) ≠ 1 by decide
  refine ⟨_, _, _, hturn, hserver ▸ hturn', finish_sent htype, fun hreply => ?_⟩
  rw [hserver, callingMethods_registered hkey] at hreply ⊢
  exact (endpoint_recovered_iff client hreply).mpr ⟨hip, hport⟩

/-- The members of a slot after the registration of `ab` at the example server's address. -/
def registering : RpcConn :=
  { serviceName := [97], methodName := [98], ip := ascii "192.168.15.128", port := 9910 }

/-- Another service name and method name run together to the same key. -/
def asking : RpcConn := { serviceName := [97, 98] }

theorem server_endpoint_recovered :
    Recovered (ascii "192.168.15.128") 9910 {}
      (asking.callingMethods (registering.notifyService 0 {})) := by
  have hkey : asking.key = registering.key := rfl
  exact (reply_recovered_iff hkey {} 0 {} (by decide)).mpr (by decide)

/-- What the client learns of a service that has just been registered. -/
def learned (conn : RpcConn) : Option (Bool × Client) :=
  Client.getIpAndPort {} (.got (conn.callingMethods (conn.notifyService 0 {})))

/-- Of a service at `::1` port 80 the client learns no address and the port `:1:80`, of one at
`1` port 4294967295 the port -1. -/
theorem endpoint_not_recovered :
    learned { ip := ascii "::1", port := 80 } = some (true, ⟨[], ascii ":1:80"⟩) ∧
      learned { ip := ascii "1", port := 4294967295 } = some (true, ⟨ascii "1", ascii "-1"⟩) ∧
      ¬ ∀ (conn : RpcConn) (client : Client) (now : Int) (server : RpcServer), (0 : UInt8) ∉ conn.ip →
        (conn.callingMethods (conn.notifyService now server)).length ≤ Client.recvBufferSize →
          Recovered conn.ip conn.port client
            (conn.callingMethods (conn.notifyService now server)) := by
  refine ⟨by decide, by decide, ?_⟩
  intro hall
  have hsplit := (hall { ip := ascii "::1", port := 80 } {} 0 {} (by decide) (by decide)).split
  exact absurd hsplit (by decide)

end CoroutineRpc.Registry
