import CoroutineRpc.Registry.Segmentation
import CoroutineRpc.Rpc.BinaryFrames

/-! What the provider makes of a stream of calls. It takes each `recv` for a frame, so a piece
that holds no more than the length of a header is a call of a service without a name. -/
namespace CoroutineRpc.Rpc
open Text
open HeaderWire (cut cut_eq)

abbrev ServiceMap (Q R : Type) :=
  AList (fun _ : ByteString => AList (fun _ : ByteString => Method Q R))

/-- A call of a registered method, as the frame that the channel builds for it. -/
structure Call {Q R : Type} (codec : HeaderCodec) (services : ServiceMap Q R) where
  channel : Channel
  stub : Stub Q R
  args : ByteString
  frame : ByteString
  built : channel.frame codec stub args = some frame
  fits : frame.length < readBufferSize
  methods : AList (fun _ : ByteString => Method Q R)
  method : Method Q R
  service : services.lookup stub.serviceName = some methods
  registered : methods.lookup stub.methodName = some method
  parses : (method.parseRequest args).isSome = true

variable {Q R : Type} {codec : HeaderCodec}

def Call.dispatch {services : ServiceMap Q R} (c : Call codec services) : Dispatch :=
  ⟨c.stub.serviceName, c.stub.methodName, c.args⟩

namespace Provider

/-- `provider::handleClient` on what its `recv` calls return. -/
def handleClient (codec : HeaderCodec) (p : Provider Q R) :
    List ByteString → Except OutOfBounds (List Dispatch)
  | [] => .ok []
  | bytes :: rest => do
    let handled ← p.turn codec (.got bytes)
    if handled.result then
      let later ← handleClient codec handled.provider rest
      pure (handled.dispatched.toList ++ later)
    else pure []

/-- However the stream is cut, each call is dispatched once and in order. -/
def Insensitive (p : Provider Q R) (calls : List (Call codec p.serviceMap)) : Prop :=
  ∀ segments segments', Cuts readBufferSize (calls.map Call.frame).flatten segments →
    Cuts readBufferSize (calls.map Call.frame).flatten segments' →
      p.handleClient codec segments = p.handleClient codec segments' ∧
        p.handleClient codec segments = .ok (calls.map Call.dispatch)

private theorem reset_zeroed (p : Provider Q R) : p.reset.readBuf = CBuffer.zeroed _ := by
  have hlen : (List.replicate readBufferSize (0 : UInt8)).length = readBufferSize :=
    List.length_replicate
  have hbytes := p.readBuf.fill_bytes hlen.le
  rw [List.drop_of_length_le (by rw [p.readBuf.length_eq, hlen]), List.append_nil] at hbytes
  exact CBuffer.eq_of_bytes hbytes

/-- After a round that served its message the buffer is zeroed, and the map is as it was. -/
theorem turn_served {p : Provider Q R} {r : Recv} {handled : Handled Q R}
    (h : p.turn codec r = .ok handled) (hresult : handled.result = true) :
    handled.provider.readBuf = CBuffer.zeroed _ ∧
      handled.provider.serviceMap = p.serviceMap := by
  rcases hread : p.readOnce r with ⟨more, p'⟩
  cases more with
  | false =>
    simp only [turn, hread] at h
    cases h
    cases hresult
  | true =>
    simp only [turn, hread] at h
    obtain ⟨inner, hmessage, hrest⟩ := bind_eq_ok.mp h
    obtain ⟨recvBuf, -, hdecode⟩ := bind_eq_ok.mp hmessage
    cases hdecode
    by_cases hok : (p'.decode codec recvBuf).result = true
    · rw [if_pos hok] at hrest
      cases hrest
      refine ⟨reset_zeroed _, ?_⟩
      change (p'.decode codec recvBuf).provider.serviceMap = p.serviceMap
      rw [← readOnce_serviceMap hread]
      unfold decode
      rcases hframe : p'.decodeFrame codec recvBuf with ⟨ok, read⟩
      cases ok with
      | false => exact decodeFrame_serviceMap hframe
      | true =>
        change read.dispatch.provider.serviceMap = p'.serviceMap
        rw [dispatch_provider]
        exact decodeFrame_serviceMap hframe
    · rw [if_neg hok] at hrest
      cases hrest
      exact absurd hresult hok

/-- A call whose frame holds no zero byte and comes in one piece is dispatched. -/
theorem turn_call {services : ServiceMap Q R} {p : Provider Q R} (hmap : p.serviceMap = services)
    (hzero : p.readBuf = CBuffer.zeroed _) (c : Call codec services)
    (htext : (0 : UInt8) ∉ c.frame) :
    ∃ handled, p.turn codec (.got c.frame) = .ok handled ∧ handled.result = true ∧
      handled.dispatched = some c.dispatch := by
  have hlen : c.frame.length ≤ 2047 := Nat.le_of_lt_succ c.fits
  obtain ⟨hdr, hs, hparts, hhdr, hargs⟩ := frame_parts c.built hlen
  have hdecodes : p.Decodes codec (.got c.frame) c.dispatch := by
    rw [decodes_zeroed_iff hzero hlen, cut_eq htext, hparts]
    exact frame_decodes hs hhdr hargs
  obtain ⟨handled, hturn, hresult, hdispatched, -⟩ :=
    (serves_of_decodes (hmap ▸ c.service) c.registered hdecodes).outcome
  obtain ⟨request, hrequest⟩ := Option.isSome_iff_exists.mp c.parses
  have hparse : c.method.parseRequest c.dispatch.args = some request := hrequest
  rw [hparse] at hresult hdispatched
  exact ⟨handled, hturn, hresult, hdispatched⟩

/-- One `recv` for each frame, and no zero byte in them: every call is dispatched. -/
theorem handleClient_calls {services : ServiceMap Q R} {p : Provider Q R}
    (hmap : p.serviceMap = services) (hzero : p.readBuf = CBuffer.zeroed _)
    (calls : List (Call codec services)) (htext : ∀ c ∈ calls, (0 : UInt8) ∉ c.frame) :
    p.handleClient codec (calls.map Call.frame) = .ok (calls.map Call.dispatch) := by
  induction calls generalizing p with
  | nil => rfl
  | cons c calls ih =>
    obtain ⟨handled, hturn, hresult, hdispatched⟩ :=
      turn_call hmap hzero c (htext c List.mem_cons_self)
    obtain ⟨hzero', hmap'⟩ := turn_served hturn hresult
    have hrest := ih (hmap'.trans hmap) hzero' (fun c hc => htext c (List.mem_cons_of_mem _ hc))
    simp only [List.map_cons, handleClient, hturn, bind, Except.bind, hresult, if_true, hrest,
      hdispatched]
    rfl

/-- The length of a header in a piece of its own is a header of defaults, and no service has
an empty name. -/
theorem turn_prefix (rt : Runtime) {p : Provider Q R} (hzero : p.readBuf = CBuffer.zeroed _)
    (hnames : p.serviceMap.lookup [] = none) {n : Nat} (hpos : 0 < n) (hn : n < 2 ^ 31) :
    ∃ handled, p.turn (HeaderWire.codec rt) (.got (rt.writeVarint32 n)) = .ok handled ∧
      handled.result = false := by
  have hfits : (rt.writeVarint32 n).length < readBufferSize :=
    Nat.lt_of_le_of_lt (rt.length_writeVarint32 n) (by decide)
  have hread : p.readOnce (.got (rt.writeVarint32 n)) =
      (true, { p with readBuf := p.readBuf.fill (rt.writeVarint32 n) }) := rfl
  obtain ⟨hmem, hmessage⟩ := message_zeroed hzero hfits hread
  rw [cut_eq (rt.zero_notMem_writeVarint32 hpos)] at hmessage
  have hscan := CBuffer.cString_ok _ hmem
  rw [hmessage] at hscan
  have hdecode := decodeFrame_sized (HeaderWire.codec rt)
    { p with readBuf := p.readBuf.fill (rt.writeVarint32 n) } hn []
  have hdefault : (HeaderWire.codec rt).parseFromString (([] : ByteString).take n) = some {} := by
    rw [List.take_nil]
    exact HeaderWire.parse_serialize rt {} [] rfl
  rw [hdefault] at hdecode
  dsimp only at hdecode
  have hargs : (({} : RpcHeader).argsSize.toInt32.toInt) = ((0 : Nat) : Int) := rfl
  rw [hargs, (HeaderWire.codec rt).readString_nat, if_pos (Nat.zero_le _), List.append_nil,
    List.drop_nil] at hdecode
  let read := { p with readBuf := p.readBuf.fill (rt.writeVarint32 n) }.loaded
    (rt.writeVarint32 n) (([] : ByteString).take n) [] {}
  have hframe : { p with readBuf := p.readBuf.fill (rt.writeVarint32 n) }.decodeFrame
      (HeaderWire.codec rt) (rt.writeVarint32 n) = (true, read) := hdecode
  have hrejected : read.dispatch = read.rejected := by
    have hlookup : read.serviceMap.lookup read.serviceName = none := hnames
    unfold dispatch
    rw [hlookup]
  refine ⟨read.rejected, ?_, rfl⟩
  simp only [turn, hread, onMessage, hscan, bind, Except.bind, pure, Except.pure, decode, hframe,
    hrejected]
  rfl

/-- No nonempty stream of calls is handled in the same way for all its cuttings. -/
theorem insensitive_iff {rt : Runtime} {p : Provider Q R} (hzero : p.readBuf = CBuffer.zeroed _)
    (hnames : p.serviceMap.lookup [] = none)
    (calls : List (Call (HeaderWire.codec rt) p.serviceMap)) :
    p.Insensitive calls ↔ calls = [] := by
  constructor
  · intro h
    cases calls with
    | nil => rfl
    | cons c calls =>
      have hlen : c.frame.length ≤ 2047 := Nat.le_of_lt_succ c.fits
      obtain ⟨hdr, hs, hparts, hhdr, -⟩ := frame_parts c.built hlen
      change c.frame = rt.writeVarint32 hdr.length ++ (hdr ++ c.args) at hparts
      have hne : hdr ≠ [] := by
        rintro rfl
        have hname : c.stub.serviceName = [] :=
          congrArg RpcHeader.serviceName (serialize_nil hs)
        have hservice := c.service
        rw [hname, hnames] at hservice
        cases hservice
      obtain ⟨handled, hturn, hresult⟩ := turn_prefix rt hzero hnames
        (List.length_pos_iff.mpr hne) (show hdr.length < 2 ^ 31 by omega)
      have hfits : (rt.writeVarint32 hdr.length).length ≤ readBufferSize :=
        (rt.length_writeVarint32 _).trans (by decide)
      have hcuts := Cuts.cons_singles (rt.writeVarint32_ne_nil (show hdr.length < 2 ^ 32 by omega))
        hfits (hdr ++ c.args ++ (calls.map Call.frame).flatten)
      rw [← List.append_assoc, ← hparts] at hcuts
      have hrun := (h _ _ hcuts hcuts).2
      simp only [handleClient, hturn, bind, Except.bind, hresult] at hrun
      cases hrun
  · rintro rfl segments segments' hcuts hcuts'
    rw [hcuts.eq_nil, hcuts'.eq_nil]
    exact ⟨rfl, rfl⟩

/-- Both servers take each `recv` for a message. They do what a stream asks for when it comes
message by message (for the provider: and without a zero byte), but except for the stream
without messages there is always a cutting for which they do not. -/
theorem segmentation_iff (rt : Runtime) (server : Registry.RpcServer) {conn : Registry.RpcConn}
    (hcleared : conn.Cleared (HeaderWire.codec rt))
    (frames : List (Registry.Frame (HeaderWire.codec rt))) {p : Provider Q R}
    (hzero : p.readBuf = CBuffer.zeroed _) (hnames : p.serviceMap.lookup [] = none)
    (calls : List (Call (HeaderWire.codec rt) p.serviceMap)) :
    (Registry.Insensitive server conn frames ↔ frames = []) ∧ (p.Insensitive calls ↔ calls = []) ∧
      (∀ now : List Int, now.length = frames.length →
        Registry.handleClient (HeaderWire.codec rt) server conn
            (now.zip (frames.map Registry.Frame.bytes)) =
          .ok (Registry.performAll server.serviceMap.lookup (frames.map Registry.Frame.header))) ∧
      ((∀ c ∈ calls, (0 : UInt8) ∉ c.frame) →
        p.handleClient (HeaderWire.codec rt) (calls.map Call.frame) =
          .ok (calls.map Call.dispatch)) := by
  refine ⟨Registry.insensitive_iff (Registry.cleared_front hcleared) frames,
    insensitive_iff hzero hnames calls, fun now hlen => ?_, handleClient_calls rfl hzero calls⟩
  have hrun := Registry.handleClient_frames server conn (now.zip frames)
  have hsegments : (now.zip frames).map (fun f => (f.1, f.2.bytes)) =
      now.zip (frames.map Registry.Frame.bytes) := by
    rw [List.zip_map_right]
    rfl
  have hheaders : (now.zip frames).map (fun f => f.2.header) =
      frames.map Registry.Frame.header := by
    have hsnd : (now.zip frames).map Prod.snd = frames := List.map_snd_zip hlen.ge
    calc (now.zip frames).map (fun f => f.2.header)
        = ((now.zip frames).map Prod.snd).map Registry.Frame.header := by rw [List.map_map]; rfl
      _ = frames.map Registry.Frame.header := by rw [hsnd]
  rwa [hsegments, hheaders] at hrun

/-- A query for `Echo.say`. -/
def query : Registry.Frame (HeaderWire.codec .protobuf) where
  header := { serviceName := ascii "Echo", methodName := ascii "say" }
  data := HeaderWire.internalSerialize .protobuf
    { serviceName := ascii "Echo", methodName := ascii "say" }
  serialized := by decide
  fits := by decide

/-- The call of `Echo.say` with two letters as its argument. -/
def textCall : Call (HeaderWire.codec .protobuf) echoProvider.serviceMap where
  channel := echoChannel
  stub := echoStub
  args := ascii "hi"
  frame := [26, 10, 4, 69, 99, 104, 111, 18, 3, 115, 97, 121, 24, 2, 42, 8, 49, 48, 46, 48, 46,
    48, 46, 49, 48, 192, 62, 104, 105]
  built := by decide
  fits := by decide
  methods := _
  method := echoMethod
  service := rfl
  registered := rfl
  parses := rfl

private theorem cleared_new : (Registry.RpcConn.reset {}).Cleared (HeaderWire.codec .protobuf) :=
  ⟨{}, ⟨{}, [], rfl, rfl⟩, Or.inl rfl⟩

theorem whole_messages_served :
    Registry.handleClient (HeaderWire.codec .protobuf) {} (Registry.RpcConn.reset {})
        [(0, query.bytes), (30, query.bytes)] =
        .ok [.reply (ascii "error"), .reply (ascii "error")] ∧
      echoProvider.handleClient (HeaderWire.codec .protobuf) [textCall.frame] =
        .ok [textCall.dispatch] := by
  have hstreams := segmentation_iff .protobuf {} cleared_new [query, query] (p := echoProvider) rfl rfl
    [textCall]
  refine ⟨hstreams.2.2.1 [0, 30] rfl, hstreams.2.2.2 (fun c hc => ?_)⟩
  obtain rfl := List.mem_singleton.mp hc
  decide

/-- What is left of the query declares 2826 bytes. -/
theorem query_rest_overruns (server : Registry.RpcServer) {conn : Registry.RpcConn}
    (hfront : conn.readBuf.bytes.take Registry.sizeofString =
      List.replicate Registry.sizeofString 0) :
    conn.turn (HeaderWire.codec .protobuf) 0 server (.got (query.bytes.drop 1)) =
      .error ⟨readBufferSize⟩ := by
  let d : Registry.Delivery := ⟨query.bytes.drop 1, by decide, by decide⟩
  have hbytes := Registry.receive_bytes hfront d
  have hknown : Registry.known d = 0 :: 0 :: 11 :: 10 :: (Registry.known d).drop 4 := by
    decide +kernel
  have hsize : (conn.receive d).dataSize = .ok 2826 := by
    rw [hknown] at hbytes
    rw [Registry.dataSize_cons hbytes]
    decide
  have hzero : (0 : UInt8) ∈ (conn.receive d).readBuf.bytes := by
    rw [hbytes]
    exact List.mem_append_left _ (by decide +kernel)
  have hturn := Registry.turn_terminated (HeaderWire.codec .protobuf) 0 server conn hzero
  exact hturn.trans (Registry.process_error 0 server
    (Registry.decode_error (HeaderWire.codec .protobuf) hsize (by decide)))

/-- The same query and the same call with their first byte in a piece of its own. -/
theorem cut_messages_lost :
    Cuts readBufferSize query.bytes [query.bytes.take 1, query.bytes.drop 1] ∧
      Registry.handleClient (HeaderWire.codec .protobuf) {} (Registry.RpcConn.reset {})
        [(0, query.bytes.take 1), (0, query.bytes.drop 1)] = .error ⟨readBufferSize⟩ ∧
      ¬ Registry.Insensitive {} (Registry.RpcConn.reset {}) [query] ∧
      Cuts readBufferSize textCall.frame [textCall.frame.take 1, textCall.frame.drop 1] ∧
      echoProvider.handleClient (HeaderWire.codec .protobuf)
        [textCall.frame.take 1, textCall.frame.drop 1] = .ok [] ∧
      ¬ echoProvider.Insensitive [textCall] := by
  have hquery : Cuts readBufferSize query.bytes [query.bytes.take 1, query.bytes.drop 1] :=
    ⟨by decide, by decide, by decide⟩
  have hcall : Cuts readBufferSize textCall.frame
      [textCall.frame.take 1, textCall.frame.drop 1] := ⟨by decide, by decide, by decide⟩
  have hregistry : Registry.handleClient (HeaderWire.codec .protobuf) {} (Registry.RpcConn.reset {})
      [(0, query.bytes.take 1), (0, query.bytes.drop 1)] = .error ⟨readBufferSize⟩ := by
    obtain ⟨p, hturn, houtcome, hfront⟩ :=
      Registry.turn_zero .protobuf (Registry.cleared_front cleared_new) 0 {}
    obtain ⟨outcome, hsome⟩ := Option.ne_none_iff_exists'.mp houtcome
    have hfirst : query.bytes.take 1 = [0] := rfl
    rw [hfirst, Registry.handleClient_ok hturn hsome,
      Registry.handleClient_error (query_rest_overruns p.server hfront)]
    rfl
  have hprovider : echoProvider.handleClient (HeaderWire.codec .protobuf)
      [textCall.frame.take 1, textCall.frame.drop 1] = .ok [] := by
    obtain ⟨handled, hturn, hresult⟩ := turn_prefix .protobuf (p := echoProvider) rfl rfl
      (show 0 < 26 by decide) (by decide)
    have hfirst : textCall.frame.take 1 = Runtime.protobuf.writeVarint32 26 := by decide
    simp only [handleClient, hfirst, hturn, bind, Except.bind, hresult]
    rfl
  refine ⟨hquery, hregistry, fun h => ?_, hcall, hprovider, fun h => ?_⟩
  · have hcuts : Cuts Registry.readBufferSize ([query].map Registry.Frame.bytes).flatten
        ([((0 : Int), query.bytes.take 1), (0, query.bytes.drop 1)].map (·.2)) := hquery
    have hrun := (h _ _ hcuts hcuts).2
    cases hregistry.symm.trans hrun
  · have hrun := (h _ _ hcall hcall).2
    cases hprovider.symm.trans hrun

end Provider
end CoroutineRpc.Rpc
