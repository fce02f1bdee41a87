import CoroutineRpc.Library.Segments
import CoroutineRpc.Registry.Slot

/-! What the registry does for one connection: the rounds of `handleClient`, and what the
messages ask for, each of which starts with its own length. -/
namespace CoroutineRpc.Registry
open Rpc Text

/-- What a connection sees of a message that was handled. -/
inductive Outcome where
  | register (key endpoint : ByteString)
  | reply (back : ByteString)
  deriving DecidableEq, Repr

def RpcConn.Processed.outcome (p : RpcConn.Processed) : Option Outcome :=
  if p.result then
    match p.sent with
    | none => some (.register p.conn.key p.conn.endpoint)
    | some back => some (.reply back)
  else none

/-- `Rpc_server::handleClient` on what its `recv` calls return, each with the time at which
the round runs. -/
def handleClient (codec : HeaderCodec) (server : RpcServer) (conn : RpcConn) :
    List (Int × ByteString) → Except OutOfBounds (List Outcome)
  | [] => .ok []
  | (now, bytes) :: rest => do
    let p ← conn.turn codec now server (.got bytes)
    match p.outcome with
    | none => pure []
    | some outcome =>
      let later ← handleClient codec p.server p.conn rest
      pure (outcome :: later)

/-- `htonl` as the bytes lie in memory. -/
def htonl (n : Nat) : ByteString :=
  [UInt8.ofNat (n / 2 ^ 24), UInt8.ofNat (n / 2 ^ 16), UInt8.ofNat (n / 2 ^ 8), UInt8.ofNat n]

/-- A message for the registry: a header behind its length. -/
structure Frame (codec : HeaderCodec) where
  header : RpcHeader
  data : ByteString
  serialized : codec.serializeToString header = some data
  fits : 4 + data.length < readBufferSize

def Frame.bytes {codec : HeaderCodec} (f : Frame codec) : ByteString :=
  htonl f.data.length ++ f.data

/-- The registry as the messages mean it: where each method is served. -/
abbrev Services := ByteString → Option ByteString

/-- What one message asks for. -/
def perform (services : Services) (h : RpcHeader) : Outcome × Services :=
  let key := h.serviceName ++ h.methodName
  if h.messageType = 1 then
    let endpoint := h.ip ++ colon :: intText h.port.toInt32.toInt
    (.register key endpoint, Function.update services key (some endpoint))
  else (.reply ((services key).getD (ascii "error")), services)

/-- What the messages ask for, one after the other. -/
def performAll (services : Services) : List RpcHeader → List Outcome
  | [] => []
  | h :: hs => (perform services h).1 :: performAll (perform services h).2 hs

theorem performAll_length (services : Services) (hs : List RpcHeader) :
    (performAll services hs).length = hs.length := by
  induction hs generalizing services with
  | nil => rfl
  | cons h hs ih => exact congrArg (· + 1) (ih _)

private theorem ntohl_htonl {n : Nat} (h : n < 2 ^ 32) (rest : ByteString) :
    ∃ b0 b1 b2 b3, htonl n ++ rest = b0 :: b1 :: b2 :: b3 :: rest ∧
      RpcConn.ntohl b0 b1 b2 b3 = n := by
  refine ⟨_, _, _, _, rfl, ?_⟩
  simp only [RpcConn.ntohl, UInt8.toNat_ofNat']
  omega

theorem dataSize_cons {conn : RpcConn} {b0 b1 b2 b3 : UInt8} {rest : ByteString}
    (hbytes : conn.readBuf.bytes = b0 :: b1 :: b2 :: b3 :: rest) :
    conn.dataSize = .ok (RpcConn.ntohl b0 b1 b2 b3) := by
  simp only [RpcConn.dataSize, CBuffer.read, hbytes, List.getElem?_cons_zero,
    List.getElem?_cons_succ]
  rfl

/-- The length in front of a message is the one that `process` declares. -/
theorem dataSize_htonl {conn : RpcConn} {n : Nat} {rest : ByteString} (h : n < 2 ^ 32)
    (hbytes : conn.readBuf.bytes = htonl n ++ rest) : conn.dataSize = .ok n := by
  obtain ⟨b0, b1, b2, b3, hcons, hsize⟩ := ntohl_htonl h rest
  rw [dataSize_cons (hbytes.trans hcons), hsize]

/-- What a parsed header makes the registry do is what it asks for. -/
theorem finish_performs (conn : RpcConn) (now : Int) (server : RpcServer) (h : RpcHeader) :
    let p := conn.finish now server (some h)
    p.outcome = some (perform server.serviceMap.lookup h).1 ∧
      (p.server.serviceMap.lookup : Services) = (perform server.serviceMap.lookup h).2 := by
  have hendpoint : (conn.load h).endpoint = h.ip ++ colon :: intText h.port.toInt32.toInt := rfl
  intro p
  by_cases hnotify : h.messageType = 1
  · have hp : p = ⟨true, (conn.load h).reset, (conn.load h).notifyService now server, none⟩ :=
      if_pos hnotify
    rw [hp]
    simp only [perform, if_pos hnotify]
    refine ⟨rfl, funext fun key => ?_⟩
    by_cases hkey : key = h.serviceName ++ h.methodName
    · subst hkey
      rw [Function.update_self, ← hendpoint]
      exact notify_service (conn.load h) now server
    · rw [Function.update_of_ne hkey]
      exact notify_service_ne (conn.load h) now server hkey
  · have hp : p = ⟨true, (conn.load h).reset, server, some ((conn.load h).callingMethods server)⟩ :=
      if_neg hnotify
    rw [hp]
    simp only [perform, if_neg hnotify]
    refine ⟨?_, trivial⟩
    simp only [RpcConn.Processed.outcome, RpcConn.callingMethods, RpcConn.load_key]
    cases server.serviceMap.lookup (h.serviceName ++ h.methodName) with
    | none => rfl
    | some back => rfl

/-- A round on a slot with a cleared front whose message fits into the buffer. -/
theorem turn_cleared (codec : HeaderCodec) {conn : RpcConn} {d : Delivery} {size : Nat} (now : Int)
    (server : RpcServer) (hzero : (0 : UInt8) ∈ (conn.receive d).readBuf.bytes)
    (hsize : (conn.receive d).dataSize = .ok size) (hfit : 4 + size ≤ readBufferSize) :
    conn.turn codec now server (.got d.bytes) =
      .ok ((conn.receive d).finish now server (codec.parseFromString
        (((conn.receive d).readBuf.bytes.drop 4).take size))) := by
  rw [turn_terminated codec now server conn hzero]
  exact process_eq now server hsize hfit

/-- A message that comes in one piece is parsed into the header that was serialized, whatever
the slot held before. -/
theorem turn_message (codec : HeaderCodec) {h : RpcHeader} {data : ByteString}
    (hdata : codec.serializeToString h = some data) (hfits : 4 + data.length ≤ readBufferSize)
    (conn : RpcConn) (now : Int) (server : RpcServer) :
    ∃ received : RpcConn, conn.turn codec now server (.got (htonl data.length ++ data)) =
      .ok (received.finish now server (some h)) := by
  have hlt : data.length < 2 ^ 12 := Nat.lt_of_le_of_lt (by omega) (show readBufferSize < _ by decide)
  have hlen : (htonl data.length ++ data).length = 4 + data.length := List.length_append
  let d : Delivery := ⟨htonl data.length ++ data, by omega, by omega⟩
  have hbytes : (conn.receive d).readBuf.bytes =
      htonl data.length ++ (data ++ conn.readBuf.bytes.drop d.bytes.length) := by
    rw [← List.append_assoc]
    exact CBuffer.fill_bytes _ d.fits
  have hzero : (0 : UInt8) ∈ (conn.receive d).readBuf.bytes := by
    have hfirst : UInt8.ofNat (data.length / 2 ^ 24) = 0 := by
      rw [Nat.div_eq_of_lt (by omega)]
      rfl
    rw [hbytes]
    exact List.mem_append_left _ (List.mem_cons.mpr (Or.inl hfirst.symm))
  have hturn := turn_cleared codec now server hzero (dataSize_htonl (by omega) hbytes) hfits
  have hdrop : (htonl data.length ++ (data ++ conn.readBuf.bytes.drop d.bytes.length)).drop 4 =
      data ++ conn.readBuf.bytes.drop d.bytes.length := List.drop_left' rfl
  rw [hbytes, hdrop, List.take_left' rfl, codec.parse_serialize _ _ hdata] at hturn
  exact ⟨_, hturn⟩

/-- A message that comes in one piece is handled as it asks. -/
theorem turn_frame {codec : HeaderCodec} (conn : RpcConn) (now : Int) (server : RpcServer)
    (f : Frame codec) :
    ∃ p, conn.turn codec now server (.got f.bytes) = .ok p ∧
      p.outcome = some (perform server.serviceMap.lookup f.header).1 ∧
      (p.server.serviceMap.lookup : Services) = (perform server.serviceMap.lookup f.header).2 := by
  obtain ⟨received, hturn⟩ :=
    turn_message codec f.serialized (Nat.le_of_lt f.fits) conn now server
  obtain ⟨houtcome, hservices⟩ := finish_performs received now server f.header
  exact ⟨_, hturn, houtcome, hservices⟩

/-- A message that is handled, and then the rest of the connection. -/
theorem handleClient_ok {codec : HeaderCodec} {server : RpcServer} {conn : RpcConn} {now : Int}
    {bytes : ByteString} {rest : List (Int × ByteString)} {p : RpcConn.Processed} {outcome : Outcome}
    (hturn : conn.turn codec now server (.got bytes) = .ok p)
    (houtcome : p.outcome = some outcome) :
    handleClient codec server conn ((now, bytes) :: rest) =
      (handleClient codec p.server p.conn rest).map (outcome :: ·) := by
  rw [handleClient, hturn]
  simp only [bind, Except.bind, houtcome]
  cases handleClient codec p.server p.conn rest with
  | error e => rfl
  | ok later => rfl

theorem handleClient_error {codec : HeaderCodec} {server : RpcServer} {conn : RpcConn} {now : Int}
    {bytes : ByteString} {rest : List (Int × ByteString)} {e : OutOfBounds}
    (hturn : conn.turn codec now server (.got bytes) = .error e) :
    handleClient codec server conn ((now, bytes) :: rest) = .error e := by
  rw [handleClient, hturn]
  rfl

/-- One `recv` for each message: the registry does what they ask for. -/
theorem handleClient_frames {codec : HeaderCodec} (server : RpcServer) (conn : RpcConn)
    (frames : List (Int × Frame codec)) :
    handleClient codec server conn (frames.map (fun f => (f.1, f.2.bytes))) =
      .ok (performAll server.serviceMap.lookup (frames.map (fun f => f.2.header))) := by
  induction frames generalizing server conn with
  | nil => rfl
  | cons f frames ih =>
    obtain ⟨p, hturn, houtcome, hservices⟩ := turn_frame conn f.1 server f.2
    rw [List.map_cons, handleClient_ok hturn houtcome, ih, hservices]
    rfl

end CoroutineRpc.Registry
