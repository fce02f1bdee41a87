import CoroutineRpc.Registry.Connection
import CoroutineRpc.Registry.Noninterference

/-! What the registry makes of messages that are cut somewhere else than between them. Each
`recv` is taken for a message, so pieces of one byte are answered, or read past the buffer. -/
namespace CoroutineRpc.Registry
open Rpc

/-- However the stream is cut, each message is handled once and in order. -/
def Insensitive {codec : HeaderCodec} (server : RpcServer) (conn : RpcConn)
    (frames : List (Frame codec)) : Prop :=
  ∀ segments segments' : List (Int × ByteString),
    Cuts readBufferSize (frames.map Frame.bytes).flatten (segments.map (·.2)) →
    Cuts readBufferSize (frames.map Frame.bytes).flatten (segments'.map (·.2)) →
      handleClient codec server conn segments = handleClient codec server conn segments' ∧
        handleClient codec server conn segments =
          .ok (performAll server.serviceMap.lookup (frames.map Frame.header))

/-- A single byte in a slot with a cleared front declares that many times 2 ^ 24 bytes. -/
theorem dataSize_single {conn : RpcConn}
    (hfront : conn.readBuf.bytes.take sizeofString = List.replicate sizeofString 0)
    {d : Delivery} {b : UInt8} (hd : d.bytes = [b]) :
    (0 : UInt8) ∈ (conn.receive d).readBuf.bytes ∧
      (conn.receive d).dataSize = .ok (b.toNat * 2 ^ 24) := by
  have hbytes := receive_bytes hfront d
  have hknown : known d = b :: 0 :: 0 :: 0 :: List.replicate 28 0 := by
    rw [known, hd]
    rfl
  rw [hknown] at hbytes
  refine ⟨?_, ?_⟩
  · rw [hbytes]
    exact List.mem_append_left _ (List.mem_cons_of_mem _ List.mem_cons_self)
  · rw [dataSize_cons hbytes]
    simp only [RpcConn.ntohl, UInt8.toNat_zero, Nat.zero_mul, Nat.add_zero]

/-- A zero byte is taken for a query without names. -/
theorem turn_zero (rt : Runtime) {conn : RpcConn}
    (hfront : conn.readBuf.bytes.take sizeofString = List.replicate sizeofString 0)
    (now : Int) (server : RpcServer) :
    ∃ p, conn.turn (HeaderWire.codec rt) now server (.got [0]) = .ok p ∧ p.outcome ≠ none ∧
      p.conn.readBuf.bytes.take sizeofString = List.replicate sizeofString 0 := by
  let d : Delivery := ⟨[0], by decide, by decide⟩
  obtain ⟨hzero, hsize⟩ := dataSize_single hfront (d := d) rfl
  have hturn := turn_cleared (HeaderWire.codec rt) now server hzero hsize (by decide)
  have hparse : (HeaderWire.codec rt).parseFromString [] = some {} := rfl
  rw [show (0 : UInt8).toNat * 2 ^ 24 = 0 from rfl, List.take_zero, hparse] at hturn
  refine ⟨_, hturn, ?_, finish_front (finish_result ..)⟩
  rw [(finish_performs ..).1]
  exact Option.some_ne_none _

/-- Any other byte declares more than the buffer holds. -/
theorem turn_nonzero (codec : HeaderCodec) {conn : RpcConn}
    (hfront : conn.readBuf.bytes.take sizeofString = List.replicate sizeofString 0)
    (now : Int) (server : RpcServer) {b : UInt8} (hb : b ≠ 0) :
    conn.turn codec now server (.got [b]) = .error ⟨readBufferSize⟩ := by
  let d : Delivery := ⟨[b], Nat.one_pos, (by decide : 1 ≤ readBufferSize)⟩
  obtain ⟨hzero, hsize⟩ := dataSize_single hfront (d := d) rfl
  have hpos : 0 < b.toNat := Nat.pos_of_ne_zero (fun h => hb (UInt8.toNat_inj.mp h))
  have hover : readBufferSize < 4 + b.toNat * 2 ^ 24 := by
    change 2048 < _
    omega
  have hturn := turn_terminated codec now server conn hzero
  exact hturn.trans (process_error now server (decode_error codec hsize hover))

/-- Byte by byte there is an answer to each byte, if the registry gets through at all. -/
theorem handleClient_singles {rt : Runtime} {server : RpcServer} {conn : RpcConn}
    (hfront : conn.readBuf.bytes.take sizeofString = List.replicate sizeofString 0)
    {stream : ByteString} {outcomes : List Outcome}
    (h : handleClient (HeaderWire.codec rt) server conn (stream.map (fun b => (0, [b]))) =
      .ok outcomes) :
    outcomes.length = stream.length := by
  induction stream generalizing server conn outcomes with
  | nil =>
    cases h
    rfl
  | cons b stream ih =>
    rw [List.map_cons] at h
    by_cases hb : b = 0
    · subst hb
      obtain ⟨p, hturn, houtcome, hcleared⟩ := turn_zero rt hfront 0 server
      obtain ⟨outcome, hsome⟩ := Option.ne_none_iff_exists'.mp houtcome
      rw [handleClient_ok hturn hsome] at h
      cases hlater : handleClient (HeaderWire.codec rt) p.server p.conn
          (stream.map (fun b => (0, [b]))) with
      | error e =>
        rw [hlater] at h
        cases h
      | ok later =>
        rw [hlater] at h
        cases h
        exact congrArg (· + 1) (ih hcleared hlater)
    · rw [handleClient_error (turn_nonzero _ hfront 0 server hb)] at h
      cases h

private theorem frames_longer {codec : HeaderCodec} (frames : List (Frame codec)) :
    4 * frames.length ≤ (frames.map Frame.bytes).flatten.length := by
  induction frames with
  | nil => exact Nat.le_refl 0
  | cons f frames ih =>
    have hlen : f.bytes.length = 4 + f.data.length := List.length_append
    simp only [List.map_cons, List.flatten_cons, List.length_append, List.length_cons]
    omega

/-- No stream of messages is handled in the same way for all its cuttings. -/
theorem insensitive_iff {rt : Runtime} {server : RpcServer} {conn : RpcConn}
    (hfront : conn.readBuf.bytes.take sizeofString = List.replicate sizeofString 0)
    (frames : List (Frame (HeaderWire.codec rt))) : Insensitive server conn frames ↔ frames = [] := by
  constructor
  · intro h
    let stream := (frames.map Frame.bytes).flatten
    have hsegments : (stream.map (fun b => ((0 : Int), [b]))).map (·.2) = singles stream := by
      rw [List.map_map]
      rfl
    have hcuts : Cuts readBufferSize stream
        ((stream.map (fun b => ((0 : Int), [b]))).map (·.2)) := by
      rw [hsegments]
      exact cuts_singles (by decide) stream
    have hrun := (h _ _ hcuts hcuts).2
    have hlong := handleClient_singles hfront hrun
    rw [performAll_length, List.length_map] at hlong
    have hframes : 4 * frames.length ≤ stream.length := frames_longer frames
    exact List.length_eq_zero_iff.mp (by omega)
  · rintro rfl segments segments' hcuts hcuts'
    rw [List.map_eq_nil_iff.mp hcuts.eq_nil, List.map_eq_nil_iff.mp hcuts'.eq_nil]
    exact ⟨rfl, rfl⟩

end CoroutineRpc.Registry
