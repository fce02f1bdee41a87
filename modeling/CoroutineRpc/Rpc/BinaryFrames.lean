import CoroutineRpc.Rpc.RoundTrip

/-! Which calls reach the provider as the channel has made them. A frame is binary data, and
the provider takes it for a C string, so a zero byte anywhere in it ends the message. -/
namespace CoroutineRpc.Rpc
open Text
open HeaderWire (cut cut_append cut_eq cut_append_of_mem)

namespace Provider
variable {Q R : Type}

/-- `OnMessage` gets to the lookup with exactly this call, and from there on the round is what
the registered method makes of exactly these arguments. -/
structure Serves (codec : HeaderCodec) (p : Provider Q R) (frame : ByteString)
    (method : Method Q R) (d : Dispatch) : Prop where
  decodes : p.Decodes codec (.got frame) d
  outcome : ∃ handled, p.turn codec (.got frame) = .ok handled ∧
    handled.result = (method.parseRequest d.args).isSome ∧
    handled.dispatched = (method.parseRequest d.args).map (fun _ => d) ∧
    handled.sent = (method.parseRequest d.args).bind
      (fun request => (method.call request).bind (sendRpcResponse method))

/-- The header string of the message before is a header without names and arguments. -/
def EmptyBefore (codec : HeaderCodec) (p : Provider Q R) : Prop :=
  ∃ h, codec.parseFromString p.rpcHeaderStr = some h ∧ h.serviceName = [] ∧
    h.methodName = [] ∧ h.argsSize = 0

/-- A message that is decoded as a registered call is served as one. -/
theorem serves_of_decodes {codec : HeaderCodec} {p : Provider Q R} {frame : ByteString}
    {d : Dispatch} {methods : AList (fun _ : ByteString => Method Q R)} {method : Method Q R}
    (hservice : p.serviceMap.lookup d.serviceName = some methods)
    (hmethod : methods.lookup d.methodName = some method)
    (h : p.Decodes codec (.got frame) d) : p.Serves codec frame method d := by
  refine ⟨h, ?_⟩
  obtain ⟨p', hread, hzero, read, hdecode, rfl⟩ := h
  have hmap : read.serviceMap = p.serviceMap :=
    (decodeFrame_serviceMap hdecode).trans (readOnce_serviceMap hread)
  rw [← hmap] at hservice
  obtain ⟨hresult, hdispatched, hsent⟩ := dispatch_registered hservice hmethod
  have hscan := p'.readBuf.cString_ok hzero
  simp only [turn, hread, onMessage, hscan, bind, Except.bind, decode, hdecode]
  by_cases hok : read.dispatch.result
  · exact ⟨_, rfl, by simp [hok, ← hresult], by simpa [hok] using hdispatched,
      by simpa [hok] using hsent⟩
  · exact ⟨_, rfl, by simp [hok, ← hresult], by simpa [hok] using hdispatched,
      by simpa [hok] using hsent⟩

/-- In a zeroed buffer the message is the frame up to its first zero byte. -/
theorem decodes_zeroed_iff {codec : HeaderCodec} {p : Provider Q R}
    (hzero : p.readBuf = CBuffer.zeroed _) {frame : ByteString} (hlen : frame.length ≤ 2047)
    (d : Dispatch) :
    p.Decodes codec (.got frame) d ↔ ∃ read,
      ({ p with readBuf := p.readBuf.fill frame } : Provider Q R).decodeFrame codec (cut frame) =
        (true, read) ∧ d = ⟨read.serviceName, read.methodName, read.argsStr⟩ := by
  have hlt : frame.length < readBufferSize := Nat.lt_succ_of_le hlen
  obtain ⟨hmem, hmessage⟩ := message_zeroed hzero hlt rfl
  constructor
  · rintro ⟨p', hread, -, read, hdecode, hd⟩
    obtain ⟨-, rfl⟩ := Prod.mk.inj hread
    rw [hmessage] at hdecode
    exact ⟨read, hdecode, hd⟩
  · rintro ⟨read, hdecode, hd⟩
    exact ⟨_, rfl, hmem, read, by rwa [hmessage], hd⟩

/-- The parts of a frame of the channel that fits into the provider's buffer. -/
theorem frame_parts {codec : HeaderCodec} {ch : Channel} {stub : Stub Q R}
    {args frame : ByteString} (hframe : ch.frame codec stub args = some frame)
    (hlen : frame.length ≤ 2047) :
    ∃ hdr, codec.serializeToString (ch.header stub args) = some hdr ∧
      frame = codec.writeVarint32 hdr.length ++ (hdr ++ args) ∧ hdr.length ≤ 2047 ∧
      args.length ≤ 2047 := by
  obtain ⟨hdr, hs, rfl⟩ := Option.map_eq_some_iff.mp hframe
  have hsum : (codec.writeSized hdr ++ args).length =
      (codec.writeVarint32 (hdr.length % 2 ^ 32)).length + hdr.length + args.length := by
    simp only [CodedStreams.writeSized, List.length_append]
  have hmod : hdr.length % 2 ^ 32 = hdr.length := Nat.mod_eq_of_lt (by omega)
  refine ⟨hdr, hs, ?_, by omega, by omega⟩
  rw [CodedStreams.writeSized, hmod, List.append_assoc]

/-- A header that serializes to nothing has no name and announces no arguments. -/
theorem serialize_nil {rt : Runtime} {h : RpcHeader}
    (hs : HeaderWire.serializeToString rt h = some []) :
    h = {} := by
  have hparse := HeaderWire.parse_serialize rt h [] hs
  exact (Option.some.inj hparse).symm

/-- Without a zero byte the whole frame is the message. -/
theorem frame_decodes {codec : HeaderCodec} {p : Provider Q R} {ch : Channel} {stub : Stub Q R}
    {hdr args : ByteString} (hs : codec.serializeToString (ch.header stub args) = some hdr)
    (hhdr : hdr.length ≤ 2047) (hargs : args.length ≤ 2047) :
    ∃ read, p.decodeFrame codec (codec.writeVarint32 hdr.length ++ (hdr ++ args)) =
      (true, read) ∧ (⟨stub.serviceName, stub.methodName, args⟩ : Dispatch) =
        ⟨read.serviceName, read.methodName, read.argsStr⟩ :=
  ⟨_, decodeFrame_whole codec p hs (by omega) (by omega) rfl, rfl⟩

/-- A frame with a header that is cut at a zero byte is refused: either its header is not
parsed, or the arguments are shorter than the header says. -/
theorem frame_refused {rt : Runtime} {p : Provider Q R} {ch : Channel} {stub : Stub Q R}
    {hdr args : ByteString} (hs : HeaderWire.serializeToString rt (ch.header stub args) = some hdr)
    (hhdr : hdr.length ≤ 2047) (hargs : args.length ≤ 2047) (hne : hdr ≠ [])
    (hzero : (0 : UInt8) ∈ (HeaderWire.codec rt).writeVarint32 hdr.length ++ (hdr ++ args)) :
    (p.decodeFrame (HeaderWire.codec rt)
      (cut ((HeaderWire.codec rt).writeVarint32 hdr.length ++ (hdr ++ args)))).1 = false := by
  have hprefix : (0 : UInt8) ∉ (HeaderWire.codec rt).writeVarint32 hdr.length :=
    (HeaderWire.codec rt).zero_notMem_writeVarint32 (List.length_pos_iff.mpr hne)
  rw [cut_append hprefix, decodeFrame_sized (HeaderWire.codec rt) p
    (show hdr.length < 2 ^ 31 by omega)]
  by_cases hmem : (0 : UInt8) ∈ hdr
  · obtain ⟨heq, hlt⟩ := cut_append_of_mem hmem args
    have hparse : (HeaderWire.codec rt).parseFromString (cut hdr) = none :=
      HeaderWire.parse_cut hs hmem
    rw [heq, List.take_of_length_le (Nat.le_of_lt hlt), hparse]
  · have hmem' : (0 : UInt8) ∈ args :=
      (List.mem_append.mp ((List.mem_append.mp hzero).resolve_left hprefix)).resolve_left hmem
    have hlt := (cut_append_of_mem hmem' []).2
    have hparse : (HeaderWire.codec rt).parseFromString hdr = some (ch.header stub args) :=
      HeaderWire.parse_serialize rt _ hdr hs
    have hsize : (ch.header stub args).argsSize = UInt32.ofNat args.length := rfl
    rw [cut_append hmem, List.take_left, hparse]
    simp only [List.drop_left, hsize, toInt_ofNat (show args.length < 2 ^ 31 by omega),
      (HeaderWire.codec rt).readString_nat, if_neg (Nat.not_le_of_gt hlt)]

/-- From a message of no byte only a string of no byte is read. -/
theorem readString_empty_iff (codec : HeaderCodec) (target : ByteString) (size : Int) :
    (codec.readString { rest := [] } target size).1 = true ↔ size = 0 := by
  rcases lt_or_ge size 0 with hneg | hpos
  · rw [codec.readString_neg _ _ hneg]
    exact ⟨fun h => absurd h Bool.false_ne_true, fun h => absurd h (by omega)⟩
  · obtain ⟨n, rfl⟩ := Int.eq_ofNat_of_zero_le hpos
    rw [codec.readString_nat [] target n]
    cases n with
    | zero => simp
    | succ n =>
      simp
      omega

/-- A frame of one zero byte, which stands for a header of defaults, is a message of no byte. -/
theorem empty_decodes_iff (codec : HeaderCodec) (p : Provider Q R) :
    (∃ read, p.decodeFrame codec [] = (true, read) ∧
      (⟨[], [], []⟩ : Dispatch) = ⟨read.serviceName, read.methodName, read.argsStr⟩) ↔
        p.EmptyBefore codec := by
  rw [decodeFrame_empty, EmptyBefore]
  rcases hparse : codec.parseFromString p.rpcHeaderStr with _ | h
  · constructor
    · rintro ⟨read, hread, -⟩
      cases hread
    · rintro ⟨h, hh, -⟩
      cases hh
  · constructor
    · rintro ⟨read, hread, hd⟩
      obtain ⟨hok, rfl⟩ := Prod.mk.inj hread
      obtain ⟨hservice, hmethod, -⟩ := Dispatch.mk.inj hd
      have hnull := (readString_empty_iff codec p.argsStr h.argsSize.toInt32.toInt).mp hok
      have hsame : h.argsSize.toInt32 = (0 : UInt32).toInt32 := Int32.toInt_inj.mp hnull
      exact ⟨h, rfl, hservice.symm, hmethod.symm, congrArg Int32.toUInt32 hsame⟩
    · rintro ⟨h', hh, hservice, hmethod, hsize⟩
      obtain rfl : h = h' := Option.some.inj hh
      have hread : codec.readString { rest := [] } p.argsStr h.argsSize.toInt32.toInt =
          (true, [], { rest := [] }) := by
        rw [hsize]
        exact codec.readString_nat [] p.argsStr 0
      dsimp only
      rw [hread]
      exact ⟨_, rfl, by simp only [loaded, hservice, hmethod]⟩

/-- A header that is nothing on the wire belongs to a call without names and arguments. -/
theorem empty_header {rt : Runtime} {ch : Channel} {stub : Stub Q R} {args : ByteString}
    (hargs : args.length ≤ 2047)
    (hs : HeaderWire.serializeToString rt (ch.header stub args) = some []) :
    stub.serviceName = [] ∧ stub.methodName = [] ∧ args = [] := by
  have hdefault := serialize_nil hs
  refine ⟨congrArg RpcHeader.serviceName hdefault, congrArg RpcHeader.methodName hdefault, ?_⟩
  have hsize : UInt32.ofNat args.length = 0 := congrArg RpcHeader.argsSize hdefault
  have hnat := congrArg UInt32.toNat hsize
  rw [UInt32.toNat_ofNat', Nat.mod_eq_of_lt (by omega)] at hnat
  exact List.length_eq_zero_iff.mp hnat

private theorem frame_ne_zero (codec : HeaderCodec) {hdr args : ByteString} (hne : hdr ≠ [])
    (hhdr : hdr.length ≤ 2047) : codec.writeVarint32 hdr.length ++ (hdr ++ args) ≠ [0] := by
  intro hbyte
  have hlength := congrArg List.length hbyte
  have hsize : 0 < (codec.writeVarint32 hdr.length).length :=
    List.length_pos_iff.mpr (codec.writeVarint32_ne_nil (by omega))
  have hpos := List.length_pos_iff.mpr hne
  simp only [List.length_append, List.length_singleton] at hlength
  omega

/-- A call whose frame arrives whole in a zeroed buffer is served exactly when there is no zero
byte in the frame. A frame that is nothing but one also stands for what was there before. -/
theorem frame_served_iff (rt : Runtime) (p : Provider Q R) (hzero : p.readBuf = CBuffer.zeroed _)
    (ch : Channel) (stub : Stub Q R) (args : ByteString) {frame : ByteString}
    (hframe : ch.frame (HeaderWire.codec rt) stub args = some frame) (hlen : frame.length ≤ 2047)
    {methods : AList (fun _ : ByteString => Method Q R)} {method : Method Q R}
    (hservice : p.serviceMap.lookup stub.serviceName = some methods)
    (hmethod : methods.lookup stub.methodName = some method) :
    p.Serves (HeaderWire.codec rt) frame method ⟨stub.serviceName, stub.methodName, args⟩ ↔
      ((0 : UInt8) ∉ frame ∨ frame = [0] ∧ p.EmptyBefore (HeaderWire.codec rt)) := by
  obtain ⟨hdr, hs, hparts, hhdr, hargs⟩ := frame_parts hframe hlen
  have hserves : p.Serves (HeaderWire.codec rt) frame method
      ⟨stub.serviceName, stub.methodName, args⟩ ↔ p.Decodes (HeaderWire.codec rt) (.got frame)
        ⟨stub.serviceName, stub.methodName, args⟩ :=
    ⟨fun h => h.decodes, serves_of_decodes hservice hmethod⟩
  rw [hserves, decodes_zeroed_iff hzero hlen]
  by_cases hmem : (0 : UInt8) ∈ frame
  · by_cases hne : hdr = []
    · subst hne
      obtain ⟨hservice', hmethod', rfl⟩ := empty_header hargs hs
      have hbyte : frame = [0] := by
        rw [hparts, List.nil_append, List.append_nil]
        exact rt.writeVarint32_zero
      have hcut : cut frame = [] := by
        rw [hbyte]
        rfl
      rw [hcut, hservice', hmethod', empty_decodes_iff]
      exact ⟨fun h => Or.inr ⟨hbyte, h⟩, fun h => (h.resolve_left (fun hno => hno hmem)).2⟩
    · have hrefused := frame_refused (p := { p with readBuf := p.readBuf.fill frame }) hs hhdr hargs
        hne (hparts ▸ hmem)
      rw [← hparts] at hrefused
      constructor
      · rintro ⟨read, hdecode, -⟩
        rw [hdecode] at hrefused
        cases hrefused
      · rintro (hno | ⟨hbyte, -⟩)
        · exact absurd hmem hno
        · exact absurd (hparts.symm.trans hbyte) (frame_ne_zero _ hne hhdr)
  · rw [cut_eq hmem]
    refine ⟨fun _ => Or.inl hmem, fun _ => ?_⟩
    rw [hparts]
    exact frame_decodes hs hhdr hargs

/-- A service with one method that gives its request back. -/
def echoStub : Stub ByteString ByteString where
  serviceName := ascii "Echo"
  methodName := ascii "say"
  serializeRequest := some
  parseResponse := some

def echoMethod : Method ByteString ByteString := ⟨some, some, some⟩

def echoProvider : Provider ByteString ByteString where
  serviceMap := AList.insert (ascii "Echo")
    (AList.insert (ascii "say") echoMethod ∅) ∅

def echoChannel : Channel where
  type := 0
  port := 8000
  ip := ascii "10.0.0.1"

theorem text_call_served :
    ∃ frame, echoChannel.frame (HeaderWire.codec .protobuf) echoStub (ascii "hi") = some frame ∧
      echoProvider.Serves (HeaderWire.codec .protobuf) frame echoMethod
        ⟨ascii "Echo", ascii "say", ascii "hi"⟩ :=
  ⟨_, rfl, (frame_served_iff .protobuf echoProvider rfl echoChannel echoStub (ascii "hi") rfl
    (by decide) rfl rfl).mpr (Or.inl (by decide))⟩

/-- The argument bytes 1, 0, 2: the header that announces three of them is read, but `strlen`
has left only one, and the call is refused. -/
theorem zero_byte_call_refused :
    ∃ frame, echoChannel.frame (HeaderWire.codec .protobuf) echoStub [1, 0, 2] = some frame ∧
      frame.length ≤ 2047 ∧ echoProvider.readBuf = CBuffer.zeroed _ ∧
      ¬ echoProvider.Serves (HeaderWire.codec .protobuf) frame echoMethod
        ⟨ascii "Echo", ascii "say", [1, 0, 2]⟩ := by
  refine ⟨_, rfl, by decide, rfl, ?_⟩
  intro hserves
  obtain ⟨read, hdecode, -⟩ := (decodes_zeroed_iff rfl (by decide) _).mp hserves.decodes
  have htrue : _ = true := congrArg Prod.fst hdecode
  exact absurd htrue (by decide)

end Provider
end CoroutineRpc.Rpc
