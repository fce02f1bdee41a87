import CoroutineRpc.Rpc.Channel
import CoroutineRpc.Rpc.FrameOrder
import CoroutineRpc.Rpc.HeaderWire

/-! When a call that reports no failure has delivered the provider's answer. The client
takes a short write and a short read for complete, and no bytes at all for a message. -/
namespace CoroutineRpc.Rpc
open Channel
open HeaderWire (cut cut_append cut_eq cut_append_of_mem)

/-- The network could open the connection. -/
def Connect.Ok : Connect → Prop
  | .connected _ => True
  | _ => False

/-- The call came to its `recv`: it had a connection and each reconnection worked. -/
def Connects (ch : Channel) (net : Network) : Prop :=
  (ch.clientFd = -1 → net.connect.Ok) ∧ ∀ c ∈ net.reconnects, c.Ok

/-- A round of the provider: the state that its other clients left it in, what `recv` returned, whether
it received on the connection of the call, whether it answers there, and how much of the answer
`send` took. -/
structure Round (Q R : Type) where
  provider : Provider Q R
  recv : Recv
  own : Bool
  here : Bool
  taken : Nat

namespace Round
variable {Q R : Type}

def turn (codec : HeaderCodec) (round : Round Q R) : Except OutOfBounds (Handled Q R) :=
  round.provider.turn codec round.recv

/-- What the round puts on the connection of the call. -/
def put (codec : HeaderCodec) (round : Round Q R) : ByteString :=
  match round.here, round.turn codec with
  | true, .ok handled => (handled.sent.getD []).take round.taken
  | _, _ => []

end Round

/-- One call and the provider's rounds on both ends of one connection. What the last `send` took of
the frame arrives, in pieces, until a round ends the connection; what the rounds put on it is what
the one `recv` of the call reads, or the start of that. -/
structure Exchange (Q R Q' R' : Type) where
  codec : HeaderCodec
  stub : Stub Q R
  channel : Channel
  request : Q
  net : Network
  rounds : List (Round Q' R')
  fits : ∀ round ∈ rounds, round.recv.bytes.length ≤ readBufferSize
  arrives : ((rounds.filter Round.own).map (fun round => round.recv.bytes)).flatten <+:
    ((channel.requestFrame codec stub request).getD []).take net.written
  goesOn : ∀ round ∈ (rounds.filter Round.own).dropLast,
    ∃ handled, round.turn codec = .ok handled ∧ handled.result = true
  reads : ∀ bytes, net.reply = .got bytes →
    bytes.length ≤ recvBufSize ∧ bytes <+: (rounds.map (Round.put codec)).flatten

namespace Exchange
variable {Q R Q' R' : Type} (x : Exchange Q R Q' R')

def call : Except OutOfBounds (Called R) := x.channel.callMethod x.codec x.stub x.request x.net

/-- In a round on the connection the provider dispatched this request, and `str` is the whole string
that it then passed to `send`. -/
def AnsweredBy (str : ByteString) : Prop :=
  ∃ round ∈ x.rounds, round.own = true ∧ ∃ args, x.stub.serializeRequest x.request = some args ∧
    ∃ handled, round.turn x.codec = .ok handled ∧ handled.sent = some str ∧
      handled.dispatched = some ⟨x.stub.serviceName, x.stub.methodName, args⟩

/-- A call without a failure wrote its whole frame to the connection that it read from, and
its response is the parse of a complete answer. -/
def Delivers : Prop :=
  ∀ called, x.call = .ok called → called.failed = none →
    (∃ frame fd before, x.channel.requestFrame x.codec x.stub x.request = some frame ∧
      called.ops = before ++
        [.sent fd frame (some frame.length), .received fd x.net.reply, .closed fd]) ∧
    ∃ str, x.AnsweredBy str ∧ called.response = x.stub.parseResponse str

/-- If the call comes to its `recv` and gets a message, be it an empty one, then the last `send` took
the whole frame, the frame came in one `recv` of the provider, with no zero byte in it but one behind
it, its method is registered and answers, and the one `recv` of the call brought all of the answer. -/
def Carried : Prop :=
  ∀ args frame bytes response, x.stub.serializeRequest x.request = some args →
    x.channel.frame x.codec x.stub args = some frame → Connects x.channel x.net →
    x.net.reply = .got bytes → x.stub.parseResponse bytes = some response →
      x.net.written = frame.length ∧ ∃ round ∈ x.rounds, round.own = true ∧
        round.recv = .got frame ∧ (0 : UInt8) ∉ frame ∧
        (0 : UInt8) ∈ (round.provider.readBuf.fill frame).bytes ∧
        round.provider.answer ⟨x.stub.serviceName, x.stub.methodName, args⟩ = some bytes

/-- Nothing but the frame and the answer is taken for them: the frame is shorter than what protobuf
can make, no round on the connection calls a method but for a whole frame, none of another connection
answers on it, and no other start of an answer means the same as the whole. -/
structure Orderly : Prop where
  short : ∀ frame, x.channel.requestFrame x.codec x.stub x.request = some frame →
    frame.length < 2 ^ 31
  inOrder : ∀ round ∈ x.rounds, round.own = true → round.provider.InOrder x.codec round.recv
  alone : ∀ round ∈ x.rounds, round.own = false → round.here = false
  distinct : ∀ str, x.AnsweredBy str → ∀ bytes, bytes <+: str →
    x.stub.parseResponse bytes = x.stub.parseResponse str → bytes = str

private theorem answeredBy_iff (str : ByteString) :
    x.AnsweredBy str ↔ ∃ round ∈ x.rounds, round.own = true ∧
      ∃ args, x.stub.serializeRequest x.request = some args ∧
        round.provider.Decodes x.codec round.recv ⟨x.stub.serviceName, x.stub.methodName, args⟩ ∧
        round.provider.answer ⟨x.stub.serviceName, x.stub.methodName, args⟩ = some str := by
  simp only [AnsweredBy, Round.turn, Provider.turn_answers_iff]

end Exchange

namespace Channel
variable {Q R : Type}

private theorem newConnect_ok (ch : Channel) {c : Connect} (h : c.Ok) :
    ∃ fd ops, ch.newConnect c = ⟨{ ch with clientFd := fd }, ops, none⟩ := by
  cases c with
  | connected fd => exact ⟨fd, _, rfl⟩
  | noSocket errno => exact h.elim
  | refused fd errno reason => exact h.elim

private theorem newConnect_failed (ch : Channel) {c : Connect} (h : ¬ c.Ok) :
    (ch.newConnect c).failed ≠ none := by
  cases c with
  | connected fd => exact absurd trivial h
  | noSocket errno => exact Option.some_ne_none _
  | refused fd errno reason => exact Option.some_ne_none _

private theorem ensure_ok (ch : Channel) {c : Connect} (h : ch.clientFd = -1 → c.Ok) :
    ∃ fd ops, ch.ensure c = ⟨{ ch with clientFd := fd }, ops, none⟩ := by
  by_cases hfd : ch.clientFd = -1
  · rw [ensure, if_pos hfd]
    exact ch.newConnect_ok (h hfd)
  · rw [ensure, if_neg hfd]
    exact ⟨ch.clientFd, [], rfl⟩

private theorem ensure_failed (ch : Channel) {c : Connect} (h : ¬ (ch.clientFd = -1 → c.Ok)) :
    (ch.ensure c).failed ≠ none := by
  obtain ⟨hfd, hc⟩ := Classical.not_imp.mp h
  rw [ensure, if_pos hfd]
  exact ch.newConnect_failed hc

/-- When every reconnection works, the loop ends with one completed `send`. -/
theorem sendLoop_ok (frame : ByteString) (written : Nat) (ch : Channel) {cs : List Connect}
    (h : ∀ c ∈ cs, c.Ok) :
    ∃ fd before, ch.sendLoop frame written cs =
      ⟨{ ch with clientFd := fd }, before ++ [.sent fd frame (some written)], none⟩ := by
  induction cs generalizing ch with
  | nil => exact ⟨ch.clientFd, [], rfl⟩
  | cons c cs ih =>
    obtain ⟨fd, ops, hnew⟩ := { ch with clientFd := -1 : Channel }.newConnect_ok
      (h c List.mem_cons_self)
    obtain ⟨fd', before, hrest⟩ := ih { ch with clientFd := fd }
      (fun c' hc' => h c' (List.mem_cons_of_mem _ hc'))
    simp only [sendLoop, hnew, hrest]
    refine ⟨fd', .sent ch.clientFd frame none :: .closed ch.clientFd :: (ops ++ before), ?_⟩
    simp

/-- One reconnection that fails ends the call. -/
theorem sendLoop_failed (frame : ByteString) (written : Nat) (ch : Channel) {cs : List Connect}
    (h : ¬ ∀ c ∈ cs, c.Ok) : (ch.sendLoop frame written cs).failed ≠ none := by
  induction cs generalizing ch with
  | nil => simp at h
  | cons c cs ih =>
    by_cases hc : c.Ok
    · obtain ⟨fd, ops, hnew⟩ := { ch with clientFd := -1 : Channel }.newConnect_ok hc
      simp only [sendLoop, hnew]
      apply ih
      intro hrest
      exact h (List.forall_mem_cons.mpr ⟨hc, hrest⟩)
    · have hfailed := { ch with clientFd := -1 : Channel }.newConnect_failed hc
      obtain ⟨text, htext⟩ := Option.ne_none_iff_exists'.mp hfailed
      simp only [sendLoop, htext]
      exact Option.some_ne_none _

/-- A call that comes to its `recv` and gets a message reports no failure; its last two
uses of a socket are one `send` of the frame and this `recv`. -/
theorem callMethod_reads {codec : HeaderCodec} {stub : Stub Q R} {ch : Channel} {request : Q}
    {net : Network} {frame bytes : ByteString} {response : R} (hnet : Connects ch net)
    (hframe : ch.requestFrame codec stub request = some frame) (hreply : net.reply = .got bytes)
    (hparse : stub.parseResponse bytes = some response) :
    ∃ called, ch.callMethod codec stub request net = .ok called ∧ called.failed = none ∧
      called.response = some response ∧ ∃ fd before, called.ops = before ++
        [.sent fd frame (some net.written), .received fd net.reply, .closed fd] := by
  obtain ⟨args, hargs, hframe⟩ := Option.bind_eq_some_iff.mp hframe
  obtain ⟨fd, ops, hfirst⟩ := ch.ensure_ok hnet.1
  have hframe' : { ch with clientFd := fd : Channel }.frame codec stub args = some frame := hframe
  obtain ⟨fd', before, hsend⟩ :=
    { ch with clientFd := fd : Channel }.sendLoop_ok frame net.written hnet.2
  refine ⟨⟨{ ch with clientFd := -1 }, ops ++ (before ++ [.sent fd' frame (some net.written)]) ++
    [.received fd' net.reply, .closed fd'], none, some response⟩, ?_, rfl, rfl, fd',
    ops ++ before, ?_⟩
  · simp only [callMethod, hfirst, hargs, hframe', hsend, receive, hreply, hparse]
    rfl
  · simp

/-- Only a `recv` that gives a message ends without a failure. -/
theorem receive_succeeded {stub : Stub Q R} {ch : Channel} {reply : Reply} {called : Called R}
    (h : ch.receive stub reply = .ok called) (hok : called.failed = none) :
    ∃ bytes response, reply = .got bytes ∧ stub.parseResponse bytes = some response := by
  cases reply with
  | failed errno =>
    cases h
    cases hok
  | got bytes =>
    cases hparse : stub.parseResponse bytes with
    | some response => exact ⟨bytes, response, rfl, hparse⟩
    | none =>
      simp only [receive, hparse] at h
      obtain ⟨shown, -, hrest⟩ := bind_eq_ok.mp h
      cases hrest
      cases hok

/-- A call that reports no failure came to its `recv` and got a message. -/
theorem callMethod_succeeded {codec : HeaderCodec} {stub : Stub Q R} {ch : Channel} {request : Q}
    {net : Network} {called : Called R} (hcall : ch.callMethod codec stub request net = .ok called)
    (hok : called.failed = none) :
    Connects ch net ∧ ∃ frame bytes response, ch.requestFrame codec stub request = some frame ∧
      net.reply = .got bytes ∧ stub.parseResponse bytes = some response := by
  simp only [callMethod] at hcall
  by_cases hconnect : ch.clientFd = -1 → net.connect.Ok
  · obtain ⟨fd, ops, hfirst⟩ := ch.ensure_ok hconnect
    simp only [hfirst] at hcall
    cases hargs : stub.serializeRequest request with
    | none =>
      simp only [hargs] at hcall
      cases hcall
      cases hok
    | some args =>
      simp only [hargs] at hcall
      cases hframe : { ch with clientFd := fd : Channel }.frame codec stub args with
      | none =>
        simp only [hframe] at hcall
        cases hcall
        cases hok
      | some frame =>
        simp only [hframe] at hcall
        have hrequest : ch.requestFrame codec stub request = some frame := by
          rw [requestFrame, hargs]
          exact hframe
        by_cases hagain : ∀ c ∈ net.reconnects, c.Ok
        · obtain ⟨fd', before, hsend⟩ :=
            { ch with clientFd := fd : Channel }.sendLoop_ok frame net.written hagain
          simp only [hsend] at hcall
          obtain ⟨received, hreceived, hrest⟩ := bind_eq_ok.mp hcall
          cases hrest
          obtain ⟨bytes, response, hreply, hparse⟩ := receive_succeeded hreceived hok
          exact ⟨⟨hconnect, hagain⟩, frame, bytes, response, hrequest, hreply, hparse⟩
        · have hfailed := { ch with clientFd := fd : Channel }.sendLoop_failed frame net.written
            hagain
          obtain ⟨text, htext⟩ := Option.ne_none_iff_exists'.mp hfailed
          simp only [htext] at hcall
          cases hcall
          cases hok
  · obtain ⟨text, htext⟩ := Option.ne_none_iff_exists'.mp (ch.ensure_failed hconnect)
    simp only [htext] at hcall
    cases hcall
    cases hok

end Channel

namespace Provider
variable {Q R Q' R' : Type}

/-- A frame that has come in one piece is read as it was written, whatever stands behind it. -/
theorem frame_decodes_tail {codec : HeaderCodec} {p : Provider Q R} {ch : Channel}
    {stub : Stub Q' R'} {args frame : ByteString} (hframe : ch.frame codec stub args = some frame)
    (hlen : frame.length ≤ readBufferSize) (htext : (0 : UInt8) ∉ frame)
    (hend : (0 : UInt8) ∈ (p.readBuf.fill frame).bytes) :
    p.Decodes codec (.got frame) ⟨stub.serviceName, stub.methodName, args⟩ := by
  obtain ⟨hdr, hs, hparts⟩ := Option.map_eq_some_iff.mp hframe
  have hsum : frame.length =
      (codec.writeVarint32 (hdr.length % 2 ^ 32)).length + hdr.length + args.length := by
    rw [← hparts]
    simp only [CodedStreams.writeSized, List.length_append]
  have hsmall : readBufferSize < 2 ^ 31 := by decide
  have hmod : hdr.length % 2 ^ 32 = hdr.length := Nat.mod_eq_of_lt (by omega)
  obtain ⟨tail, htail⟩ := received_prefix (p := p) (r := .got frame) hlen rfl
  have hmessage : (p.readBuf.fill frame).bytes.takeWhile (· ≠ 0) =
      codec.writeVarint32 hdr.length ++ (hdr ++ (args ++ tail)) := by
    have hcut : cut (p.readBuf.fill frame).bytes = cut frame ++ tail := htail
    have hwhole : frame = codec.writeVarint32 hdr.length ++ hdr ++ args := by
      rw [← hparts, CodedStreams.writeSized, hmod]
    calc (p.readBuf.fill frame).bytes.takeWhile (· ≠ 0) = cut frame ++ tail := hcut
      _ = codec.writeVarint32 hdr.length ++ hdr ++ args ++ tail := by rw [cut_eq htext, hwhole]
      _ = codec.writeVarint32 hdr.length ++ (hdr ++ (args ++ tail)) := by
        simp only [List.append_assoc]
  refine ⟨_, rfl, hend, ?_⟩
  have hsize : (ch.header stub args).argsSize = UInt32.ofNat args.length := rfl
  rw [hmessage, decodeFrame_sized codec _ (by omega), List.take_left, codec.parse_serialize _ hdr hs]
  simp only [List.drop_left, hsize, toInt_ofNat (show args.length < 2 ^ 31 by omega),
    codec.readString_nat, List.length_append, Nat.le_add_right, if_true, List.take_left]
  exact ⟨_, rfl, rfl⟩

/-- The start of a frame is a frame only if it is all of it. -/
theorem whole_of_prefix {codec : HeaderCodec} {p : Provider Q R} {ch : Channel}
    {stub : Stub Q' R'} {args frame bytes : ByteString} {d : Dispatch}
    (hframe : ch.frame codec stub args = some frame) (hlen : frame.length < 2 ^ 31)
    (hstart : bytes <+: frame) (h : p.Whole codec (cut bytes) d) :
    bytes = frame ∧ (0 : UInt8) ∉ frame := by
  obtain ⟨hdr, hs, hparts⟩ := Option.map_eq_some_iff.mp hframe
  have hcut : cut bytes <+: bytes := List.takeWhile_prefix _
  obtain ⟨tail, htail⟩ := hcut.trans hstart
  have hsum : frame.length =
      (codec.writeVarint32 (hdr.length % 2 ^ 32)).length + hdr.length + args.length := by
    rw [← hparts]
    simp only [CodedStreams.writeSized, List.length_append]
  have hmod : hdr.length % 2 ^ 32 = hdr.length := Nat.mod_eq_of_lt (by omega)
  obtain ⟨n, rest, hdecode, hsize, h', hparse, hargs, -⟩ := h
  obtain ⟨used, hused, hfollow⟩ := Varint.decode_split hdecode
  -- the length that is read is that of the header
  have hread := hfollow (rest ++ tail)
  rw [← List.append_assoc, ← hused, htail, ← hparts, CodedStreams.writeSized, hmod,
    List.append_assoc, codec.decode_writeVarint32 _ (by omega)] at hread
  obtain ⟨rfl, hrest⟩ := Prod.mk.inj (Option.some.inj hread)
  have hnat : (UInt32.ofNat hdr.length).toNat = hdr.length := by
    rw [UInt32.toNat_ofNat']
    exact hmod
  rw [hnat] at hsize hparse hargs
  have htake : rest.take hdr.length = hdr := by
    have hleft := congrArg (List.take hdr.length) hrest
    rw [List.take_left, List.take_append_of_le_length hsize] at hleft
    exact hleft.symm
  rw [htake, codec.parse_serialize _ hdr hs] at hparse
  obtain rfl := Option.some.inj hparse
  have hargsSize : (ch.header stub args).argsSize.toNat = args.length := by
    have hsame : (ch.header stub args).argsSize = UInt32.ofNat args.length := rfl
    rw [hsame, UInt32.toNat_ofNat']
    exact Nat.mod_eq_of_lt (by omega)
  rw [hargsSize, List.length_drop] at hargs
  have hlength := congrArg List.length hrest
  simp only [List.length_append] at hlength
  have hnone : tail = [] := List.eq_nil_of_length_eq_zero (by omega)
  rw [hnone, List.append_nil] at htail
  have hall : bytes = frame := hstart.eq_of_length
    (le_antisymm hstart.length_le (htail ▸ hcut.length_le))
  refine ⟨hall, fun hmem => ?_⟩
  have hless := (cut_append_of_mem hmem []).2
  rw [← hall, htail, hall] at hless
  exact lt_irrefl _ hless

/-- No frame comes without bytes. -/
theorem not_whole_nil {codec : HeaderCodec} {p : Provider Q R} {d : Dispatch} :
    ¬ p.Whole codec (cut []) d := by
  rintro ⟨n, rest, hdecode, -⟩
  cases hdecode

private theorem got_of_whole {codec : HeaderCodec} {p : Provider Q R} {r : Recv} {d : Dispatch}
    (h : p.Whole codec (cut r.bytes) d) : r = .got r.bytes := by
  cases r with
  | failed wouldBlock => exact absurd h not_whole_nil
  | closed => exact absurd h not_whole_nil
  | got bytes => rfl

/-- A round that is in order calls a method for a whole frame only. -/
theorem whole_of_dispatched {codec : HeaderCodec} {p : Provider Q R} {r : Recv}
    (hfits : r.bytes.length ≤ readBufferSize) (horder : p.InOrder codec r) {handled : Handled Q R}
    (hturn : p.turn codec r = .ok handled) {d : Dispatch} (hd : handled.dispatched = some d) :
    p.Whole codec (cut r.bytes) d := by
  obtain ⟨handled', hturn', hwhole, -⟩ := (honest_iff_inOrder codec p r hfits).1.mpr horder
  obtain rfl : handled = handled' := Except.ok.inj (hturn.symm.trans hturn')
  exact hwhole d hd

/-- A round that is in order goes on for a whole frame only. -/
theorem whole_of_result {codec : HeaderCodec} {p : Provider Q R} {r : Recv}
    (hfits : r.bytes.length ≤ readBufferSize) (horder : p.InOrder codec r) {handled : Handled Q R}
    (hturn : p.turn codec r = .ok handled) (hresult : handled.result = true) :
    ∃ d, p.Whole codec (cut r.bytes) d := by
  obtain ⟨handled', hturn', -, hnone⟩ := (honest_iff_inOrder codec p r hfits).1.mpr horder
  obtain rfl : handled = handled' := Except.ok.inj (hturn.symm.trans hturn')
  by_contra hno
  have hfalse := (hnone (fun d hd => hno ⟨d, hd⟩)).1
  rw [hresult] at hfalse
  cases hfalse

private theorem turn_dispatched {codec : HeaderCodec} {p : Provider Q R} {r : Recv}
    {handled : Handled Q R}
    {str : ByteString} (hturn : p.turn codec r = .ok handled) (hsent : handled.sent = some str) :
    ∃ d, handled.dispatched = some d := by
  obtain ⟨p', -, -, read, -, hsent', hd⟩ := turn_sent hturn hsent
  exact ⟨_, hd.trans (dispatched_of_sent (hsent'.symm.trans hsent))⟩

end Provider

namespace Round
variable {Q R Q' R' : Type}

/-- If the bytes that come are those of one frame, the round that has a whole frame has this one, no
round that goes on was before it, and nothing comes after it. -/
theorem first_whole {codec : HeaderCodec} {ch : Channel} {stub : Stub Q R} {args frame : ByteString}
    (hframe : ch.frame codec stub args = some frame) (hlen : frame.length < 2 ^ 31)
    {rounds : List (Round Q' R')} {round : Round Q' R'} (hround : round ∈ rounds)
    (harrives : (rounds.map (fun round => round.recv.bytes)).flatten <+: frame)
    (hwhole : ∃ d, round.provider.Whole codec (cut round.recv.bytes) d)
    (hbefore : ∀ before ∈ rounds.dropLast,
      ∃ d, before.provider.Whole codec (cut before.recv.bytes) d) :
    round.recv.bytes = frame ∧ (0 : UInt8) ∉ frame ∧
      ∃ after, rounds = round :: after ∧ ∀ other ∈ after, other.recv.bytes = [] := by
  cases rounds with
  | nil => cases hround
  | cons first after =>
    have hstart : first.recv.bytes ++ (after.map (fun round => round.recv.bytes)).flatten <+: frame :=
      harrives
    have hfirst : ∃ d, first.provider.Whole codec (cut first.recv.bytes) d := by
      rcases List.mem_cons.mp hround with rfl | hafter
      · exact hwhole
      · refine hbefore first ?_
        rw [List.dropLast_cons_of_ne_nil (List.ne_nil_of_mem hafter)]
        exact List.mem_cons_self
    obtain ⟨d, hd⟩ := hfirst
    obtain ⟨hall, htext⟩ :=
      Provider.whole_of_prefix hframe hlen ((List.prefix_append _ _).trans hstart) hd
    have hnone : (after.map (fun round => round.recv.bytes)).flatten = [] := by
      have hle := hstart.length_le
      rw [List.length_append, hall] at hle
      exact List.eq_nil_of_length_eq_zero (by omega)
    have hempty : ∀ other ∈ after, other.recv.bytes = [] := fun other hother =>
      List.flatten_eq_nil_iff.mp hnone _ (List.mem_map_of_mem hother)
    rcases List.mem_cons.mp hround with rfl | hafter
    · exact ⟨hall, htext, after, rfl, hempty⟩
    · obtain ⟨d', hd'⟩ := hwhole
      rw [hempty round hafter] at hd'
      exact absurd hd' Provider.not_whole_nil

/-- Rounds that put nothing on the connection do not count. -/
theorem flatten_put_filter (codec : HeaderCodec) {rounds : List (Round Q R)}
    (h : ∀ round ∈ rounds, round.own = false → round.put codec = []) :
    (rounds.map (put codec)).flatten = ((rounds.filter own).map (put codec)).flatten := by
  induction rounds with
  | nil => rfl
  | cons round rounds ih =>
    have hrest := ih (fun other hother => h other (List.mem_cons_of_mem _ hother))
    cases hown : round.own with
    | true =>
      rw [List.filter_cons_of_pos hown, List.map_cons, List.map_cons, List.flatten_cons,
        List.flatten_cons, hrest]
    | false =>
      rw [List.filter_cons_of_neg (by simp [hown]), List.map_cons, List.flatten_cons,
        h round List.mem_cons_self hown, hrest, List.nil_append]

/-- A round that is in order and received nothing answers nothing. -/
theorem put_nil {codec : HeaderCodec} {round : Round Q R}
    (horder : round.provider.InOrder codec round.recv) (hnone : round.recv.bytes = []) :
    round.put codec = [] := by
  rw [put]
  split
  · next handled _ hturn =>
    cases hsent : handled.sent with
    | none => exact List.take_nil
    | some str =>
      obtain ⟨d, hd⟩ := Provider.turn_dispatched hturn hsent
      have hwhole := Provider.whole_of_dispatched (by rw [hnone]; exact Nat.zero_le _) horder hturn hd
      rw [hnone] at hwhole
      exact absurd hwhole Provider.not_whole_nil
  · rfl

/-- What a round puts on the connection is the start of its answer. -/
theorem put_prefix {codec : HeaderCodec} {round : Round Q R} {handled : Handled Q R}
    {str : ByteString} (hturn : round.turn codec = .ok handled) (hsent : handled.sent = some str) :
    round.put codec <+: str := by
  rw [put, hturn]
  cases round.here with
  | true =>
    change (handled.sent.getD []).take round.taken <+: str
    rw [hsent]
    exact List.take_prefix _ _
  | false => exact List.nil_prefix

end Round

namespace Exchange
variable {Q R Q' R' : Type} {x : Exchange Q R Q' R'}

/-- In an orderly exchange whose frame was sent whole, the answering round had the frame in its one
`recv`, and only its answer is on the connection. -/
theorem Orderly.answered (h : x.Orderly) {args frame str : ByteString}
    (hargs : x.stub.serializeRequest x.request = some args)
    (hframe : x.channel.frame x.codec x.stub args = some frame)
    (hwritten : x.net.written = frame.length) {round : Round Q' R'} (hround : round ∈ x.rounds)
    (hown : round.own = true) {handled : Handled Q' R'} (hturn : round.turn x.codec = .ok handled)
    (hsent : handled.sent = some str) :
    round.recv = .got frame ∧ (0 : UInt8) ∉ frame ∧
      (x.rounds.map (Round.put x.codec)).flatten <+: str := by
  have hrequest : x.channel.requestFrame x.codec x.stub x.request = some frame := by
    rw [requestFrame, hargs]
    exact hframe
  have harrives := x.arrives
  rw [hrequest, hwritten, Option.getD_some, List.take_length] at harrives
  obtain ⟨d, hd⟩ := Provider.turn_dispatched hturn hsent
  have hwhole := Provider.whole_of_dispatched (x.fits round hround) (h.inOrder round hround hown)
    hturn hd
  obtain ⟨hbytes, htext, after, hrounds, hempty⟩ := Round.first_whole hframe
    (h.short frame hrequest) (List.mem_filter.mpr ⟨hround, hown⟩) harrives ⟨d, hwhole⟩ (by
      intro before hbefore
      obtain ⟨hmem, hown'⟩ := List.mem_filter.mp (List.mem_of_mem_dropLast hbefore)
      obtain ⟨handled', hturn', hresult⟩ := x.goesOn before hbefore
      exact Provider.whole_of_result (x.fits before hmem) (h.inOrder before hmem hown') hturn' hresult)
  refine ⟨hbytes ▸ Provider.got_of_whole hwhole, htext, ?_⟩
  have hothers : ∀ other ∈ x.rounds, other.own = false → other.put x.codec = [] := by
    intro other hother hnot
    rw [Round.put, h.alone other hother hnot]
  have hafter : (after.map (Round.put x.codec)).flatten = [] := by
    rw [List.flatten_eq_nil_iff]
    intro put hput
    obtain ⟨other, hother, rfl⟩ := List.mem_map.mp hput
    have hmem : other ∈ x.rounds.filter Round.own := hrounds ▸ List.mem_cons_of_mem _ hother
    obtain ⟨hin, hown'⟩ := List.mem_filter.mp hmem
    exact Round.put_nil (h.inOrder other hin hown') (hempty other hother)
  rw [Round.flatten_put_filter x.codec hothers, hrounds, List.map_cons, List.flatten_cons, hafter,
    List.append_nil]
  exact Round.put_prefix hturn hsent

/-- A call whose frame and whose answer are carried whole delivers the answer, and in an orderly
exchange no other call does. -/
theorem delivers_of_carried (x : Exchange Q R Q' R') :
    (x.Carried → x.Delivers) ∧ (x.Orderly → x.Delivers → x.Carried) := by
  constructor
  · intro h called hcall hok
    obtain ⟨hnet, frame, bytes, response, hrequest, hreply, hparse⟩ :=
      callMethod_succeeded hcall hok
    obtain ⟨args, hargs, hframe⟩ := Option.bind_eq_some_iff.mp hrequest
    obtain ⟨hwritten, round, hround, hown, hrecv, htext, hend, hanswer⟩ :=
      h args frame bytes response hargs hframe hnet hreply hparse
    obtain ⟨called', hcall', -, hresponse, fd, before, hops⟩ :=
      callMethod_reads hnet hrequest hreply hparse
    obtain rfl : called = called' := Except.ok.inj (hcall.symm.trans hcall')
    have hfits := x.fits round hround
    rw [hrecv] at hfits
    refine ⟨⟨frame, fd, before, hrequest, ?_⟩, bytes, ?_, hresponse.trans hparse.symm⟩
    · rw [hops, hwritten]
    · refine (x.answeredBy_iff bytes).mpr ⟨round, hround, hown, args, hargs, ?_, hanswer⟩
      rw [hrecv]
      exact Provider.frame_decodes_tail hframe hfits htext hend
  · intro horder h args frame bytes response hargs hframe hnet hreply hparse
    have hrequest : x.channel.requestFrame x.codec x.stub x.request = some frame := by
      rw [requestFrame, hargs]
      exact hframe
    obtain ⟨called, hcall, hok, hresponse, fd, before, hops⟩ :=
      callMethod_reads hnet hrequest hreply hparse
    obtain ⟨⟨frame', fd', before', hframe', hops'⟩, str, hanswered, hstr⟩ := h called hcall hok
    obtain rfl : frame = frame' := Option.some.inj (hrequest.symm.trans hframe')
    have htail := (List.append_inj' (hops.symm.trans hops') rfl).2
    simp only [List.cons.injEq, SocketOp.sent.injEq, Option.some.injEq] at htail
    have hwritten := htail.1.2.2
    obtain ⟨round, hround, hown, args', hargs', hdecodes, hanswer⟩ :=
      (x.answeredBy_iff str).mp hanswered
    obtain rfl : args = args' := Option.some.inj (hargs.symm.trans hargs')
    obtain ⟨handled, hturn, hsent, -⟩ :=
      (Provider.turn_answers_iff x.codec round.provider round.recv _ str).mpr ⟨hdecodes, hanswer⟩
    obtain ⟨hrecv, htext, hputs⟩ := horder.answered hargs hframe hwritten hround hown hturn hsent
    obtain ⟨p', hread, hend, -⟩ := hdecodes
    rw [hrecv] at hread
    obtain ⟨-, rfl⟩ := Prod.mk.inj hread
    have hsame : bytes = str := by
      refine horder.distinct str hanswered bytes (((x.reads bytes hreply).2).trans hputs) ?_
      rw [hparse, ← hresponse, hstr]
    refine ⟨hwritten, round, hround, hown, hrecv, htext, hend, ?_⟩
    rw [hsame]
    exact hanswer

def sayFrame : ByteString :=
  26 :: Provider.sayHeader [24, 2, 42, 8, 49, 48, 46, 48, 46, 48, 46, 49, 48, 192, 62] ++ [104, 105]

/-- A call of `Echo.say` whose frame comes in one `recv` and whose answer goes back in one. -/
def said : Exchange ByteString ByteString ByteString ByteString where
  codec := HeaderWire.codec .protobuf
  stub := Provider.echoStub
  channel := Provider.echoChannel
  request := [104, 105]
  net := ⟨.connected 5, [], 29, .got [104, 105]⟩
  rounds := [⟨Provider.echoProvider, .got sayFrame, true, true, 2⟩]
  fits := by decide
  arrives := by decide
  goesOn := by
    rintro round ⟨⟩
  reads := by
    rintro bytes ⟨⟩
    decide

theorem said_delivers : said.Carried ∧ said.Orderly ∧ said.Delivers := by
  have hframe : said.channel.requestFrame said.codec said.stub said.request = some sayFrame := by
    decide
  have hcarried : said.Carried := by
    rintro args frame bytes response ⟨⟩ hframe' hnet ⟨⟩ hparse
    obtain rfl : sayFrame = frame := Option.some.inj (hframe.symm.trans hframe')
    exact ⟨rfl, _, List.mem_singleton.mpr rfl, rfl, rfl, by decide, by decide, by decide⟩
  have horderly : said.Orderly := by
    refine ⟨?_, ?_, ?_, ?_⟩
    · intro frame hframe'
      obtain rfl : sayFrame = frame := Option.some.inj (hframe.symm.trans hframe')
      decide
    · intro round hround _
      obtain rfl := List.mem_singleton.mp hround
      exact Provider.inOrder_of_header (n := 26) rfl (by decide) rfl (by decide) (by decide)
    · intro round hround hown
      obtain rfl := List.mem_singleton.mp hround
      cases hown
    · rintro str - bytes - hsame
      exact Option.some.inj hsame
  exact ⟨hcarried, horderly, said.delivers_of_carried.1 hcarried⟩

end Exchange

/-- A call of a method that the provider does not have. The provider takes the whole frame,
rejects it and closes the connection. -/
def unknownService : Exchange RpcHeader RpcHeader RpcHeader RpcHeader where
  codec := HeaderWire.codec .protobuf
  stub := ⟨[83], [77], HeaderWire.serializeToString .protobuf, HeaderWire.parseFromString .protobuf⟩
  channel := { type := 0, port := 80, ip := [49] }
  request := {}
  net := ⟨.connected 5, [], 12, .got []⟩
  rounds := [⟨{}, .got [11, 10, 1, 83, 18, 1, 77, 42, 1, 49, 48, 80], true, true, 0⟩]
  fits := by decide
  arrives := by decide
  goesOn := by
    rintro round ⟨⟩
  reads := by
    rintro bytes ⟨⟩
    exact ⟨by decide, List.nil_prefix⟩

/-- The rejected call reports no failure and an empty message. -/
theorem rejected_call_succeeds :
    (∃ called, unknownService.call = .ok called ∧ called.failed = none ∧
        called.response = some {}) ∧
      (∀ round ∈ unknownService.rounds, ∃ handled,
        round.turn unknownService.codec = .ok handled ∧ handled.result = false) ∧
      ¬ unknownService.Delivers := by
  have hframe : unknownService.channel.requestFrame unknownService.codec unknownService.stub
      unknownService.request = some [11, 10, 1, 83, 18, 1, 77, 42, 1, 49, 48, 80] := by decide
  have hparse : unknownService.stub.parseResponse [] = some {} := by decide
  have hnet : Connects unknownService.channel unknownService.net :=
    ⟨fun _ => trivial, fun c hc => by cases hc⟩
  obtain ⟨called, hcall, hok, hresponse, -⟩ := callMethod_reads hnet hframe rfl hparse
  have hrejected : ∀ round ∈ unknownService.rounds, ∃ handled,
      round.turn unknownService.codec = .ok handled ∧ handled.result = false ∧
        handled.sent = none := by
    intro round hround
    obtain rfl := List.mem_singleton.mp hround
    exact ⟨_, rfl, rfl, rfl⟩
  refine ⟨⟨called, hcall, hok, hresponse⟩, ?_, ?_⟩
  · intro round hround
    obtain ⟨handled, hturn, hresult, -⟩ := hrejected round hround
    exact ⟨handled, hturn, hresult⟩
  · intro h
    obtain ⟨-, str, ⟨round, hround, -, args, -, handled, hturn, hsent, -⟩, -⟩ := h called hcall hok
    obtain ⟨handled', hturn', -, hsent'⟩ := hrejected round hround
    obtain rfl : handled = handled' := Except.ok.inj (hturn.symm.trans hturn')
    cases hsent.symm.trans hsent'

end CoroutineRpc.Rpc
