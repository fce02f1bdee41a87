import CoroutineRpc.Rpc.BinaryFrames
import CoroutineRpc.Rpc.WholeFrames

/-! When the provider calls methods for whole frames only: exactly when no other bytes make a call
in the place of a header, and no arguments come from behind the received bytes. -/
namespace CoroutineRpc.Rpc.Provider
open HeaderWire (cut)
variable {Q R : Type}

/-- A round whose `recv` goes on does what `OnMessage` makes of the bytes before the first zero. -/
theorem turn_message (codec : HeaderCodec) {p p' : Provider Q R} {r : Recv}
    (hread : p.readOnce r = (true, p')) (hzero : (0 : UInt8) ∈ p'.readBuf.bytes) :
    ∃ handled, p.turn codec r = .ok handled ∧
      handled.result = (p'.decode codec (cut p'.readBuf.bytes)).result ∧
      handled.dispatched = (p'.decode codec (cut p'.readBuf.bytes)).dispatched := by
  have hscan := p'.readBuf.cString_ok hzero
  simp only [turn, hread, onMessage, hscan, bind, Except.bind, pure, Except.pure]
  by_cases hresult : (p'.decode codec (cut p'.readBuf.bytes)).result = true
  · exact ⟨_, rfl, by rw [if_pos hresult], by rw [if_pos hresult]⟩
  · exact ⟨_, rfl, by rw [if_neg hresult], by rw [if_neg hresult]⟩

/-- Without a zero byte in the buffer `strlen` leaves it. -/
theorem turn_overrun {codec : HeaderCodec} {p p' : Provider Q R} {r : Recv}
    (hread : p.readOnce r = (true, p')) (hzero : (0 : UInt8) ∉ p'.readBuf.bytes) :
    p.turn codec r = .error ⟨readBufferSize⟩ := by
  have hscan := p'.readBuf.cString_error hzero
  simp only [turn, hread, onMessage, hscan]
  rfl

/-- What has been received comes first in the message. -/
theorem received_prefix {p p' : Provider Q R} {r : Recv} (hfits : r.bytes.length ≤ readBufferSize)
    (hread : p.readOnce r = (true, p')) : ∃ tail, cut p'.readBuf.bytes = cut r.bytes ++ tail := by
  cases r with
  | failed wouldBlock => exact ⟨_, rfl⟩
  | closed => cases hread
  | got bytes =>
    cases hread
    change ∃ tail, cut (p.readBuf.fill bytes).bytes = cut bytes ++ tail
    have hbytes : (p.readBuf.fill bytes).bytes = bytes ++ p.readBuf.bytes.drop bytes.length :=
      p.readBuf.fill_bytes hfits
    rw [hbytes]
    by_cases hzero : (0 : UInt8) ∈ bytes
    · refine ⟨[], ?_⟩
      rw [List.append_nil]
      exact (HeaderWire.cut_append_of_mem hzero _).1
    · rw [HeaderWire.cut_eq hzero]
      exact ⟨_, HeaderWire.cut_append hzero⟩

/-- A frame at the start of a prefix is one at the start of the whole. -/
theorem whole_append {codec : HeaderCodec} {p : Provider Q R} {bytes : ByteString} {d : Dispatch}
    (h : p.Whole codec bytes d) (tail : ByteString) : p.Whole codec (bytes ++ tail) d := by
  obtain ⟨n, rest, hdecode, hsize, hdr, hparse, hargs, hd, haccepts⟩ := h
  obtain ⟨used, rfl, hused⟩ := Varint.decode_split hdecode
  refine ⟨n, rest ++ tail, ?_, ?_, hdr, ?_, ?_, ?_, haccepts⟩
  · rw [List.append_assoc]
    exact hused _
  · rw [List.length_append]
    omega
  · rwa [List.take_append_of_le_length hsize]
  · rw [List.drop_append_of_le_length hsize, List.length_append]
    omega
  · rw [List.drop_append_of_le_length hsize, List.take_append_of_le_length hargs]
    exact hd

section Orderly
variable {codec : HeaderCodec} {p : Provider Q R} {message received tail rest : ByteString}
  {n : Nat}

/-- The length that a whole frame starts with is the one that is read. -/
theorem whole_decode (hmessage : message = received ++ tail) {d : Dispatch}
    (h : p.Whole codec received d) : ∃ n rest, Varint.decode 10 message = some (n, rest) ∧
      (UInt32.ofNat n).toNat ≤ rest.length := by
  subst hmessage
  obtain ⟨n, rest, hdecode, hsize, -⟩ := whole_append h tail
  exact ⟨n, rest, hdecode, hsize⟩

/-- Whatever else is taken for a header must not make a call. -/
theorem no_call_iff {header behind : ByteString}
    (hno : ∀ d, ¬ p.Whole codec received d) :
    (∀ d, p.Reaches codec header behind d → p.Whole codec received d) ↔
      ∀ d, ¬ p.Reaches codec header behind d :=
  ⟨fun h d hd => hno d (h d hd), fun h d hd => absurd hd (h d)⟩

/-- A frame of the message is one of its prefix exactly when it ends there. -/
theorem whole_prefix_iff (hmessage : message = received ++ tail)
    (hdecode : Varint.decode 10 message = some (n, rest))
    (hsize : (UInt32.ofNat n).toNat ≤ rest.length) {d : Dispatch}
    (h : p.Reaches codec (rest.take (UInt32.ofNat n).toNat) (rest.drop (UInt32.ofNat n).toNat) d) :
    p.Whole codec received d ↔
      message.length - rest.length + (UInt32.ofNat n).toNat + d.args.length ≤ received.length := by
  obtain ⟨used, hused, hagain⟩ := Varint.decode_split hdecode
  constructor
  · rintro ⟨m, rest', hdecode', hsize', hdr, hparse, hargs, rfl, -⟩
    obtain ⟨used', rfl, hagain'⟩ := Varint.decode_split hdecode'
    have hsame := hagain' (rest' ++ tail)
    rw [← List.append_assoc, ← hmessage, hdecode] at hsame
    cases hsame
    rw [List.length_drop] at hargs
    simp only [hmessage, List.length_append, List.length_take, List.length_drop]
    omega
  · intro hend
    obtain ⟨hdr, hparse, hargs, rfl, haccepts⟩ := h
    have hlength := congrArg List.length hused
    simp only [List.length_append] at hlength
    have hprefix : used <+: received := by
      refine List.prefix_of_prefix_length_le (hused ▸ List.prefix_append used rest)
        (hmessage ▸ List.prefix_append received tail) ?_
      omega
    obtain ⟨rest', rfl⟩ := hprefix
    rw [hmessage, List.append_assoc] at hused
    obtain rfl := List.append_cancel_left hused
    simp only [hmessage, List.length_append, List.length_take, List.length_drop] at hargs hend
    have hsize' : (UInt32.ofNat n).toNat ≤ rest'.length := by omega
    have hargs' : hdr.argsSize.toNat ≤ (rest'.drop (UInt32.ofNat n).toNat).length := by
      rw [List.length_drop]
      omega
    rw [List.take_append_of_le_length hsize'] at hparse
    rw [List.drop_append_of_le_length hsize', List.take_append_of_le_length hargs'] at haccepts ⊢
    exact ⟨n, rest', hagain rest', hsize', hdr, hparse, hargs', rfl, haccepts⟩

/-- A message without a readable length. -/
theorem unread_iff (hmessage : message = received ++ tail)
    (hdecode : Varint.decode 10 message = none) (hlen : message.length < 2 ^ 31) :
    (∀ d, (p.decode codec message).dispatched = some d → p.Whole codec received d) ↔
      p.Orderly codec message received := by
  obtain ⟨k, hread⟩ := codec.readVarint32_none hdecode
  have hrest : (message.drop k).length < 2 ^ 31 := by
    rw [List.length_drop]
    omega
  have hno : ∀ d, ¬ p.Whole codec received d := by
    intro d hwhole
    obtain ⟨n, rest, hsome, -⟩ := whole_decode hmessage hwhole
    rw [hdecode] at hsome
    cases hsome
  have hpart : p.headerPart 0xFFFFFFFF (message.drop k) = (p.rpcHeaderStr, message.drop k) :=
    if_neg (by decide)
  have hskipped : (codec.readVarint32 { rest := message }).2.2.rest = message.drop k := by
    rw [hread]
  simp only [decode_dispatched_iff hread hrest, hpart]
  rw [no_call_iff hno, ← hskipped]
  have hnone : ∀ n rest, Varint.decode 10 message ≠ some (n, rest) := by
    intro n rest hsome
    rw [hdecode] at hsome
    cases hsome
  exact ⟨fun h => ⟨fun _ => h, fun n rest hsome => absurd hsome (hnone n rest),
    fun n rest hsome => absurd hsome (hnone n rest),
    fun n rest hsome => absurd hsome (hnone n rest)⟩, fun h => h.unread hdecode⟩

private theorem orderly_some_iff (hdecode : Varint.decode 10 message = some (n, rest)) :
    p.Orderly codec message received ↔
      (2 ^ 31 ≤ (UInt32.ofNat n).toNat → ∀ d, ¬ p.Reaches codec p.rpcHeaderStr rest d) ∧
      ((UInt32.ofNat n).toNat < 2 ^ 31 → rest.length < (UInt32.ofNat n).toNat →
        ∀ d, ¬ p.Reaches codec rest [] d) ∧
      ((UInt32.ofNat n).toNat ≤ rest.length → ∀ d,
        p.Reaches codec (rest.take (UInt32.ofNat n).toNat) (rest.drop (UInt32.ofNat n).toNat) d →
          message.length - rest.length + (UInt32.ofNat n).toNat + d.args.length ≤
            received.length) := by
  constructor
  · intro h
    exact ⟨h.negative n rest hdecode, h.short n rest hdecode, h.received n rest hdecode⟩
  · rintro ⟨hnegative, hshort, hreceived⟩
    have hsome : ∀ m rest', Varint.decode 10 message = some (m, rest') → m = n ∧ rest' = rest := by
      intro m rest' h
      rw [hdecode] at h
      cases h
      exact ⟨rfl, rfl⟩
    refine ⟨fun hnone => ?_, fun m rest' h => ?_, fun m rest' h => ?_, fun m rest' h => ?_⟩
    · rw [hdecode] at hnone
      cases hnone
    · obtain ⟨rfl, rfl⟩ := hsome m rest' h
      exact hnegative
    · obtain ⟨rfl, rfl⟩ := hsome m rest' h
      exact hshort
    · obtain ⟨rfl, rfl⟩ := hsome m rest' h
      exact hreceived

/-- A message with a readable length. -/
theorem read_iff (hmessage : message = received ++ tail)
    (hdecode : Varint.decode 10 message = some (n, rest)) (hlen : message.length < 2 ^ 31) :
    (∀ d, (p.decode codec message).dispatched = some d → p.Whole codec received d) ↔
      p.Orderly codec message received := by
  have hrest : rest.length < 2 ^ 31 := by
    obtain ⟨used, rfl, -⟩ := Varint.decode_split hdecode
    rw [List.length_append] at hlen
    omega
  have hno : rest.length < (UInt32.ofNat n).toNat → ∀ d, ¬ p.Whole codec received d := by
    intro hlong d hwhole
    obtain ⟨m, rest', h, hsize⟩ := whole_decode hmessage hwhole
    rw [hdecode] at h
    cases h
    omega
  simp only [decode_dispatched_iff (codec.readVarint32_some hdecode) hrest]
  rw [orderly_some_iff hdecode, headerPart]
  by_cases hsize : (UInt32.ofNat n).toNat < 2 ^ 31
  · rw [if_pos hsize]
    by_cases hfits : (UInt32.ofNat n).toNat ≤ rest.length
    · constructor
      · intro h
        refine ⟨fun hge => by omega, fun _ hlt => by omega, fun _ d hd => ?_⟩
        exact (whole_prefix_iff hmessage hdecode hfits hd).mp (h d hd)
      · rintro ⟨-, -, h⟩ d hd
        exact (whole_prefix_iff hmessage hdecode hfits hd).mpr (h hfits d hd)
    · have hlt := Nat.lt_of_not_le hfits
      rw [List.take_of_length_le hlt.le, List.drop_of_length_le hlt.le, no_call_iff (hno hlt)]
      exact ⟨fun h => ⟨fun hge => by omega, fun _ _ => h, fun hle => absurd hle hfits⟩,
        fun h => h.2.1 hsize hlt⟩
  · have hge := Nat.le_of_not_lt hsize
    rw [if_neg hsize, no_call_iff (hno (by omega))]
    exact ⟨fun h => ⟨fun _ => h, fun hlt => absurd hlt hsize, fun hle => by omega⟩,
      fun h => h.1 hge⟩

end Orderly

private theorem message_iff {codec : HeaderCodec} {p : Provider Q R}
    {message received tail : ByteString}
    (hmessage : message = received ++ tail) (hlen : message.length < 2 ^ 31) :
    (∀ d, (p.decode codec message).dispatched = some d → p.Whole codec received d) ↔
      p.Orderly codec message received := by
  cases hdecode : Varint.decode 10 message with
  | none => exact unread_iff hmessage hdecode hlen
  | some read => exact read_iff hmessage hdecode hlen

private theorem whole_congr {codec : HeaderCodec} {p p' : Provider Q R}
    (h : p'.serviceMap = p.serviceMap) {bytes : ByteString} {d : Dispatch} :
    p'.Whole codec bytes d ↔ p.Whole codec bytes d := by
  simp only [Whole, reaches_congr h]

/-- A round that gets to `OnMessage` is honest if each call it makes has its frame. -/
theorem honest_message_iff {codec : HeaderCodec} {p p' : Provider Q R} {r : Recv}
    (hread : p.readOnce r = (true, p')) (hzero : (0 : UInt8) ∈ p'.readBuf.bytes) :
    p.Honest codec r ↔ ∀ d, (p'.decode codec (cut p'.readBuf.bytes)).dispatched = some d →
      p'.Whole codec (cut r.bytes) d := by
  obtain ⟨handled, hturn, hresult, hdispatched⟩ := turn_message codec hread hzero
  rw [decode_result, ← hdispatched] at hresult
  simp only [whole_congr (readOnce_serviceMap hread), ← hdispatched]
  constructor
  · rintro ⟨other, hother, hwhole, -⟩
    rw [hturn] at hother
    cases hother
    exact hwhole
  · intro hwhole
    refine ⟨handled, hturn, hwhole, fun hno => ?_⟩
    have hnone : handled.dispatched = none := by
      cases hd : handled.dispatched with
      | none => rfl
      | some d => exact absurd (hwhole d hd) (hno d)
    rw [hresult, hnone]
    exact ⟨rfl, rfl⟩

private theorem message_length {buf : CBuffer readBufferSize} :
    (cut buf.bytes).length < 2 ^ 31 := by
  have hcut := (List.takeWhile_prefix (l := buf.bytes) (· ≠ 0)).length_le
  rw [buf.length_eq] at hcut
  exact Nat.lt_of_le_of_lt hcut (by decide)

/-- In a zeroed buffer a message with a header of its own is in order. -/
theorem inOrder_of_header {codec : HeaderCodec} {p : Provider Q R} {bytes rest : ByteString}
    {n : Nat} (hzero : p.readBuf = CBuffer.zeroed _) (hlen : bytes.length < readBufferSize)
    (hdecode : Varint.decode 10 (cut bytes) = some (n, rest))
    (hsize : (UInt32.ofNat n).toNat ≤ rest.length) (hlt : (UInt32.ofNat n).toNat < 2 ^ 31) :
    p.InOrder codec (.got bytes) := by
  intro p' hread
  obtain ⟨hmem, hmessage⟩ := message_zeroed hzero hlen hread
  refine ⟨hmem, ?_⟩
  have hsame : cut p'.readBuf.bytes = cut bytes := hmessage
  rw [hsame]
  refine (orderly_some_iff hdecode).mpr ⟨fun hge => by omega, fun _ hlong => by omega, ?_⟩
  rintro - d ⟨hdr, -, hargs, rfl, -⟩
  obtain ⟨used, hused, -⟩ := Varint.decode_split hdecode
  rw [Recv.bytes, hused]
  rw [List.length_drop] at hargs
  simp only [List.length_append, List.length_take, List.length_drop]
  omega

/-- Where the `recv` ends the connection nothing is called and nothing is asked for. -/
theorem honest_ended {codec : HeaderCodec} {p p' : Provider Q R} {r : Recv}
    (hread : p.readOnce r = (false, p')) : p.Honest codec r ∧ p.InOrder codec r := by
  constructor
  · refine ⟨p'.rejected, ?_, ?_, fun _ => ⟨rfl, rfl⟩⟩
    · simp only [turn, hread]
      rfl
    · intro d hd
      cases hd
  · intro p'' hread'
    rw [hread] at hread'
    cases hread'

private theorem inOrder_iff {codec : HeaderCodec} {p p' : Provider Q R} {r : Recv}
    (hread : p.readOnce r = (true, p')) : p.InOrder codec r ↔ (0 : UInt8) ∈ p'.readBuf.bytes ∧
      p'.Orderly codec (cut p'.readBuf.bytes) (cut r.bytes) := by
  constructor
  · exact fun h => h p' hread
  · intro h p'' hread'
    rw [hread] at hread'
    cases hread'
    exact h

/-- The provider calls a method only for a whole frame at the start of what it has received, if
and only if nothing else can take the place of a header or of arguments. A frame that ends before
the first zero byte is a frame of all that has been received. -/
theorem honest_iff_inOrder (codec : HeaderCodec) (p : Provider Q R) (r : Recv)
    (hfits : r.bytes.length ≤ readBufferSize) :
    (p.Honest codec r ↔ p.InOrder codec r) ∧
      ∀ d, p.Whole codec (cut r.bytes) d → p.Whole codec r.bytes d := by
  constructor
  · rcases hread : p.readOnce r with ⟨more, p'⟩
    cases more with
    | false => exact iff_of_true (honest_ended hread).1 (honest_ended hread).2
    | true =>
      rw [inOrder_iff hread]
      by_cases hzero : (0 : UInt8) ∈ p'.readBuf.bytes
      · obtain ⟨tail, hmessage⟩ := received_prefix hfits hread
        rw [honest_message_iff hread hzero, message_iff hmessage message_length]
        exact ⟨fun h => ⟨hzero, h⟩, fun h => h.2⟩
      · refine iff_of_false ?_ (fun h => hzero h.1)
        rintro ⟨handled, hturn, -⟩
        rw [turn_overrun hread hzero] at hturn
        cases hturn
  · intro d h
    have hall := whole_append h (r.bytes.dropWhile (· ≠ 0))
    rwa [List.takeWhile_append_dropWhile] at hall

/-- The header of a call of `Echo.say` with as many bytes of arguments as the field says, and
without one. -/
def sayHeader (argsSize : ByteString) : ByteString :=
  [10, 4, 69, 99, 104, 111, 18, 3, 115, 97, 121] ++ argsSize

theorem whole_call_honest :
    echoProvider.Honest (HeaderWire.codec .protobuf) (.got (13 :: sayHeader [24, 2] ++ [104, 105])) :=
  (honest_iff_inOrder (HeaderWire.codec .protobuf) echoProvider _ (by decide)).1.mpr
    (inOrder_of_header (n := 13) rfl (by decide) rfl (by decide) (by decide))

/-- After a call of `Echo.say`, ten bytes that are no length call it again, with two of them as its
arguments. Eleven bytes of a header that should have thirty call it without arguments. -/
theorem malformed_dispatched :
    let codec := HeaderWire.codec .protobuf
    (((echoProvider.turn codec (.got (13 :: sayHeader [24, 2] ++ [104, 105]))).bind
        (fun handled => handled.provider.turn codec (.got (List.replicate 10 255)))).map
      Handled.dispatched = .ok (some ⟨Text.ascii "Echo", Text.ascii "say", [255, 255]⟩) ∧
      ∀ d, ¬ echoProvider.Whole codec (List.replicate 10 255) d) ∧
    ((echoProvider.turn codec (.got (30 :: sayHeader []))).map Handled.dispatched =
        .ok (some ⟨Text.ascii "Echo", Text.ascii "say", []⟩) ∧
      ∀ d, ¬ echoProvider.Whole codec (30 :: sayHeader []) d) := by
  refine ⟨⟨by decide +kernel, ?_⟩, by decide +kernel, ?_⟩
  · rintro d ⟨n, rest, hdecode, -⟩
    cases hdecode
  · rintro d ⟨n, rest, hdecode, hsize, -⟩
    cases hdecode
    exact absurd hsize (by decide)

end CoroutineRpc.Rpc.Provider
