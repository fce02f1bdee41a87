import CoroutineRpc.Registry.Slot

/-! When the past of a slot shows in the next message. What an earlier message left behind the
reset part is read as soon as the declared length reaches it. -/
namespace CoroutineRpc.Registry
open Rpc

/-- Neither the registration nor the reply looks at anything but the decoded members. -/
theorem finish_congr (conn conn' : RpcConn) (now : Int) (server : RpcServer) {h h' : RpcHeader}
    (heq : decoded h = decoded h') :
    (conn.finish now server (some h)).server = (conn'.finish now server (some h')).server ∧
      (conn.finish now server (some h)).sent = (conn'.finish now server (some h')).sent := by
  simp only [decoded, Prod.mk.injEq] at heq
  obtain ⟨hservice, hmethod, hip, hport, htype⟩ := heq
  have hkey : (conn.load h).key = (conn'.load h').key := by
    rw [RpcConn.load_key, RpcConn.load_key, hservice, hmethod]
  have hendpoint : (conn.load h).endpoint = (conn'.load h').endpoint := by
    simp only [RpcConn.endpoint, RpcConn.load, hip, hport]
  by_cases hnotify : h.messageType = 1
  · simp only [RpcConn.finish, if_pos hnotify, if_pos (htype ▸ hnotify)]
    simp only [RpcConn.notifyService, hkey, hendpoint, and_self]
  · have hreply : (conn.load h).callingMethods server = (conn'.load h').callingMethods server := by
      unfold RpcConn.callingMethods
      rw [hkey]
    simp only [RpcConn.finish, if_neg hnotify, if_neg (htype ▸ hnotify), hreply, and_self]

/-- Two messages are handled alike when their headers decide the same. -/
theorem agree_finish_iff (conn conn' : RpcConn) (now : Int) (server : RpcServer)
    (x y : Option RpcHeader) :
    Agree (conn.finish now server x) (conn'.finish now server y) ↔
      x.map decoded = y.map decoded := by
  constructor
  · intro h
    have hresult := h.result
    rw [finish_result, finish_result] at hresult
    cases x with
    | none =>
      cases y with
      | none => rfl
      | some h' => cases hresult
    | some header =>
      cases y with
      | none => cases hresult
      | some header' =>
        have hdecoded := h.decoded (finish_result ..)
        rw [finish_conn, finish_conn] at hdecoded
        obtain ⟨hservice, hmethod, hip, hport, htype⟩ := hdecoded
        exact congrArg some (Prod.ext hservice (Prod.ext hmethod (Prod.ext hip
          (Prod.ext hport htype))))
  · intro heq
    cases x with
    | none =>
      cases y with
      | none => exact ⟨rfl, fun h => (by cases h), rfl, rfl⟩
      | some h' => cases heq
    | some header =>
      cases y with
      | none => cases heq
      | some header' =>
        have hsame : decoded header = decoded header' := Option.some.inj heq
        obtain ⟨hserver, hsent⟩ := finish_congr conn conn' now server hsame
        refine ⟨by rw [finish_result, finish_result]; rfl, fun _ => ?_, hserver, hsent⟩
        simp only [decoded, Prod.mk.injEq] at hsame
        rw [finish_conn, finish_conn]
        exact hsame

/-- A slot with a cleared front, behind its first `n` bytes. -/
theorem cleared_drop {conn : RpcConn}
    (hfront : conn.readBuf.bytes.take sizeofString = List.replicate sizeofString 0) (n : Nat) :
    conn.readBuf.bytes.drop n =
      List.replicate (sizeofString - n) 0 ++ conn.readBuf.bytes.drop (max sizeofString n) := by
  have hlen : (conn.readBuf.bytes.take sizeofString).length = sizeofString := by
    rw [hfront, List.length_replicate]
  by_cases hn : n ≤ sizeofString
  · rw [Nat.max_eq_left hn]
    calc conn.readBuf.bytes.drop n
        = (conn.readBuf.bytes.take sizeofString ++ conn.readBuf.bytes.drop sizeofString).drop n := by
          rw [List.take_append_drop]
      _ = (conn.readBuf.bytes.take sizeofString).drop n ++ conn.readBuf.bytes.drop sizeofString :=
          List.drop_append_of_le_length (by omega)
      _ = _ := by rw [hfront, List.drop_replicate]
  · rw [Nat.max_eq_right (by omega), Nat.sub_eq_zero_of_le (by omega)]
    rfl

/-- Receiving into such a slot: the certain bytes, then what the slot held there. -/
theorem receive_bytes {conn : RpcConn}
    (hfront : conn.readBuf.bytes.take sizeofString = List.replicate sizeofString 0)
    (d : Delivery) : (conn.receive d).readBuf.bytes =
      known d ++ conn.readBuf.bytes.drop (known d).length := by
  rw [known_length, known, List.append_assoc, ← cleared_drop hfront]
  exact CBuffer.fill_bytes _ d.fits

private theorem dataSize_congr {conn conn' : RpcConn}
    (h : conn.readBuf.bytes.take 4 = conn'.readBuf.bytes.take 4) :
    conn.dataSize = conn'.dataSize := by
  have hread : ∀ i, i < 4 → conn.readBuf.read i = conn'.readBuf.read i := by
    intro i hi
    have hbyte : conn.readBuf.bytes[i]? = conn'.readBuf.bytes[i]? := by
      rw [← List.getElem?_take_of_lt hi, h, List.getElem?_take_of_lt hi]
    simp only [CBuffer.read, hbyte]
  simp only [RpcConn.dataSize, hread 0 (by decide), hread 1 (by decide), hread 2 (by decide),
    hread 3 (by decide)]

/-- The declared length is among the certain bytes. -/
theorem receive_declared {codec : HeaderCodec} {conn : RpcConn} (h : conn.Cleared codec)
    (d : Delivery) : (conn.receive d).dataSize = declared (d.into (CBuffer.zeroed _)) := by
  have hknown : 4 ≤ (known d).length := by
    rw [known_length]
    exact Nat.le_trans (by decide) (Nat.le_max_left ..)
  have hzeroed : (RpcConn.receive {} d).readBuf.bytes.take 4 = (known d).take 4 := by
    rw [receive_bytes List.take_replicate d, List.take_append_of_le_length hknown]
  have hconn : (conn.receive d).readBuf.bytes.take 4 = (known d).take 4 := by
    rw [receive_bytes (cleared_front h) d, List.take_append_of_le_length hknown]
  exact dataSize_congr (hconn.trans hzeroed.symm)

/-- What the parser is given: certain bytes first, then what the slot held behind them. -/
theorem receive_data {codec : HeaderCodec} {conn : RpcConn} (h : conn.Cleared codec)
    (d : Delivery) (size : Nat) : ((conn.receive d).readBuf.bytes.drop 4).take size =
      ((known d).drop 4).take size ++
        (conn.readBuf.bytes.drop (known d).length).take (4 + size - (known d).length) := by
  have hknown : 4 ≤ (known d).length := by
    rw [known_length]
    exact Nat.le_trans (by decide) (Nat.le_max_left ..)
  rw [receive_bytes (cleared_front h) d, List.drop_append_of_le_length hknown, List.take_append,
    List.length_drop]
  congr 2
  omega

private theorem dataSize_of_front {conn : RpcConn}
    (hfront : conn.readBuf.bytes.take sizeofString = List.replicate sizeofString 0) :
    conn.dataSize = .ok 0 := by
  have hshort : conn.readBuf.bytes.take 4 = List.replicate 4 0 := by
    calc conn.readBuf.bytes.take 4
        = (conn.readBuf.bytes.take sizeofString).take 4 := by rw [List.take_take]; rfl
      _ = List.replicate 4 0 := by rw [hfront, List.take_replicate]; rfl
  have hsize : conn.dataSize = RpcConn.dataSize {} := dataSize_congr hshort
  exact hsize.trans rfl

/-- A message of zeros with anything behind the reset part is handled, whatever the parser
makes of it, and stays in the slot. -/
theorem turn_keeps (codec : HeaderCodec) (conn : RpcConn) {d : Delivery} {stale : ByteString}
    (hd : d.bytes = List.replicate sizeofString 0 ++ stale)
    (hlen : d.bytes.length = readBufferSize) :
    ∃ p, conn.turn codec 0 {} (.got d.bytes) = .ok p ∧ p.conn.readBuf.bytes = d.bytes := by
  let received : RpcConn := conn.receive d
  have hbytes : received.readBuf.bytes = d.bytes := by
    have hfill : received.readBuf.bytes = _ := conn.readBuf.fill_bytes d.fits
    rw [hfill, List.drop_of_length_le (by rw [conn.readBuf.length_eq, hlen]), List.append_nil]
  have hfront : received.readBuf.bytes.take sizeofString = List.replicate sizeofString 0 := by
    rw [hbytes, hd, List.take_left' List.length_replicate]
  have hzero : (0 : UInt8) ∈ received.readBuf.bytes := by
    rw [hbytes, hd]
    exact List.mem_append_left _ (List.mem_replicate.mpr ⟨by decide, rfl⟩)
  have hturn : conn.turn codec 0 {} (.got d.bytes) = received.process codec 0 {} :=
    turn_terminated codec 0 {} conn hzero
  rw [process_eq 0 {} (dataSize_of_front hfront) (by decide)] at hturn
  refine ⟨_, hturn, ?_⟩
  cases codec.parseFromString ((received.readBuf.bytes.drop 4).take 0) with
  | none => exact hbytes
  | some header =>
    rw [finish_conn, reset_bytes]
    change _ ++ received.readBuf.bytes.drop sizeofString = _
    rw [← hfront, List.take_append_drop, hbytes]

private theorem known_whole {d : Delivery} {size : Nat} (h : ¬ 4 + size ≤ (known d).length) :
    ((known d).drop 4).take size = (known d).drop 4 := by
  apply List.take_of_length_le
  rw [List.length_drop]
  omega

/-- Everything behind the reset part can be left over from an earlier connection. -/
theorem exists_cleared (codec : HeaderCodec) {stale : ByteString}
    (h : stale.length = readBufferSize - sizeofString) :
    ∃ conn : RpcConn, conn.Cleared codec ∧
      conn.readBuf.bytes = List.replicate sizeofString 0 ++ stale := by
  have hlen : (List.replicate sizeofString (0 : UInt8) ++ stale).length = readBufferSize := by
    rw [List.length_append, List.length_replicate, h]
    decide
  let d : Delivery := ⟨List.replicate sizeofString 0 ++ stale, by rw [hlen]; decide, hlen.le⟩
  obtain ⟨p, hturn, hbytes⟩ := turn_keeps codec (RpcConn.reset {}) (d := d) rfl hlen
  refine ⟨p.conn.reset, ⟨p.conn, ⟨{}, [.init, .turn (.got d.bytes) {} 0], rfl, ?_⟩, Or.inl rfl⟩, ?_⟩
  · simp only [Transition.run_cons, Transition.run_nil, slotStep, Option.bind_some, hturn]
  · rw [reset_bytes, hbytes, List.drop_left' List.length_replicate]

/-- Whatever lies behind the certain bytes of a message can be there. -/
theorem exists_stale (codec : HeaderCodec) (d : Delivery) {stale : ByteString}
    (h : (known d).length + stale.length ≤ readBufferSize) :
    ∃ conn : RpcConn, conn.Cleared codec ∧
      (conn.readBuf.bytes.drop (known d).length).take stale.length = stale := by
  have hknown : sizeofString ≤ (known d).length := by
    rw [known_length]
    exact Nat.le_max_left ..
  let gap : ByteString := List.replicate ((known d).length - sizeofString) 0
  let rest : ByteString := List.replicate (readBufferSize - (known d).length - stale.length) 0
  have hlen : (gap ++ (stale ++ rest)).length = readBufferSize - sizeofString := by
    simp only [gap, rest, List.length_append, List.length_replicate]
    omega
  obtain ⟨conn, hcleared, hbytes⟩ := exists_cleared codec hlen
  refine ⟨conn, hcleared, ?_⟩
  have hfront : (List.replicate sizeofString 0 ++ gap).length = (known d).length := by
    simp only [gap, List.length_append, List.length_replicate]
    omega
  rw [hbytes, ← List.append_assoc, List.drop_left' hfront, List.take_left' rfl]

/-- A message that fits is handled in the same way after two pasts when the two headers that
the parser finds decide the same. -/
theorem agree_iff {codec : HeaderCodec} {conn conn' : RpcConn} {d : Delivery} {size : Nat}
    (h : conn.Cleared codec) (h' : conn'.Cleared codec) (now : Int) (server : RpcServer)
    (hsize : declared (d.into (CBuffer.zeroed _)) = .ok size) (hfit : 4 + size ≤ readBufferSize) :
    (∃ p q, (conn.receive d).process codec now server = .ok p ∧
        (conn'.receive d).process codec now server = .ok q ∧ Agree p q) ↔
      (codec.parseFromString (((conn.receive d).readBuf.bytes.drop 4).take size)).map decoded =
        (codec.parseFromString (((conn'.receive d).readBuf.bytes.drop 4).take size)).map decoded := by
  rw [process_eq now server ((receive_declared h d).trans hsize) hfit,
    process_eq now server ((receive_declared h' d).trans hsize) hfit]
  constructor
  · rintro ⟨p, q, hp, hq, hagree⟩
    cases hp
    cases hq
    exact (agree_finish_iff ..).mp hagree
  · intro heq
    exact ⟨_, _, rfl, rfl, (agree_finish_iff ..).mpr heq⟩

private theorem noninterfering_of_selfContained {codec : HeaderCodec} {d : Delivery}
    (h : SelfContained codec d) : Noninterfering codec d := by
  intro conn conn' hconn hconn' now server
  obtain ⟨size, hsize⟩ := dataSize_ok { readBuf := d.into (CBuffer.zeroed _) }
  obtain ⟨hfit, hcertain⟩ := h size hsize
  refine (agree_iff hconn hconn' now server hsize hfit).mpr ?_
  rw [receive_data hconn d size, receive_data hconn' d size]
  by_cases hshort : 4 + size ≤ (known d).length
  · rw [Nat.sub_eq_zero_of_le hshort]
    rfl
  · have hwhole : ((known d).drop 4).take size = (known d).drop 4 := by
      apply List.take_of_length_le
      rw [List.length_drop]
      omega
    have hstale : ∀ conn : RpcConn, ((conn.readBuf.bytes.drop (known d).length).take
        (4 + size - (known d).length)).length = 4 + size - (known d).length := by
      intro conn
      rw [List.length_take, List.length_drop, conn.readBuf.length_eq]
      omega
    rw [known_whole hshort]
    exact hcertain.resolve_left hshort _ _ (hstale conn) (hstale conn')

private theorem selfContained_of_noninterfering {codec : HeaderCodec} {d : Delivery}
    (h : Noninterfering codec d) : SelfContained codec d := by
  intro size hsize
  have hfit : 4 + size ≤ readBufferSize := by
    by_contra hover
    have hnothing : (known d).length + ([] : ByteString).length ≤ readBufferSize := by
      rw [known_length]
      exact Nat.max_le.mpr ⟨by decide, d.fits⟩
    obtain ⟨conn, hconn, -⟩ := exists_stale codec d hnothing
    obtain ⟨p, -, hp, -⟩ := h conn conn hconn hconn 0 {}
    rw [process_error 0 {} (decode_error codec ((receive_declared hconn d).trans hsize)
      (by omega))] at hp
    cases hp
  refine ⟨hfit, ?_⟩
  by_cases hshort : 4 + size ≤ (known d).length
  · exact Or.inl hshort
  · refine Or.inr fun stale stale' hstale hstale' => ?_
    have hroom : (known d).length + stale.length ≤ readBufferSize := by omega
    have hroom' : (known d).length + stale'.length ≤ readBufferSize := by omega
    obtain ⟨conn, hconn, hbytes⟩ := exists_stale codec d hroom
    obtain ⟨conn', hconn', hbytes'⟩ := exists_stale codec d hroom'
    have heq := (agree_iff hconn hconn' 0 {} hsize hfit).mp (h conn conn' hconn hconn' 0 {})
    rw [receive_data hconn d size, receive_data hconn' d size, known_whole hshort] at heq
    rw [hstale] at hbytes
    rw [hstale'] at hbytes'
    rwa [hbytes, hbytes'] at heq

/-- Exactly the messages whose handling does not depend on the past of the slot: those that
declare no more than is certain, or nothing that the parser would take notice of. -/
theorem noninterfering_iff (codec : HeaderCodec) (d : Delivery) :
    Noninterfering codec d ↔ SelfContained codec d :=
  ⟨selfContained_of_noninterfering, noninterfering_of_selfContained⟩

/-- Six bytes of a message of 34; the service name is declared to fill the rest. -/
def cutOff : Delivery where
  bytes := [0, 0, 0, 30, 10, 28]
  nonempty := by decide
  fits := by decide

/-- An empty query with two more bytes behind the part that a reset clears. -/
def stain : Delivery where
  bytes := List.replicate sizeofString 0 ++ [97, 97]
  nonempty := by decide
  fits := by decide

/-- The slot of a new connection and one that has answered the query decode two different
service names from the same six bytes. -/
theorem stale_bytes_decoded :
    ∃ p q r,
      RpcConn.turn (HeaderWire.codec .protobuf) 0 {} (RpcConn.reset {}) (.got stain.bytes) = .ok r ∧
      r.result = true ∧
      ((RpcConn.reset {}).receive cutOff).process (HeaderWire.codec .protobuf) 0 {} = .ok p ∧
      (r.conn.receive cutOff).process (HeaderWire.codec .protobuf) 0 {} = .ok q ∧
      p.conn.serviceName ≠ q.conn.serviceName ∧
      ¬ Noninterfering (HeaderWire.codec .protobuf) cutOff := by
  refine ⟨_, _, _, rfl, rfl, rfl, rfl, by decide +kernel, fun h => ?_⟩
  have hself := selfContained_of_noninterfering h
  obtain ⟨-, hlong | hstale⟩ := hself 30 rfl
  · exact absurd hlong (by decide)
  · have hsame := hstale [97, 97] [98, 98] (by decide) (by decide)
    exact absurd hsame (by decide +kernel)

end CoroutineRpc.Registry
