import CoroutineRpc.Library.Varint

/-! The streams of the protobuf runtime that the two ends of a call use, and what the ends rely on:
an array is read once from the front, a limit hides the bytes behind it, and lengths are varints. -/
namespace CoroutineRpc.Rpc

/-- The unread bytes; the last `hidden` of them lie beyond the current limit. -/
structure CodedInputStream where
  rest : ByteString
  hidden : Nat := 0
  deriving DecidableEq, Repr

/-- `CodedInputStream` and `CodedOutputStream`. A limit is undone with the stream as it was before
`PushLimit`. A varint that cannot be read is reported as -1, with some of its bytes consumed; a
string that is too short takes what there is, and one of negative size nothing. -/
structure CodedStreams where
  readVarint32 : CodedInputStream → Bool × UInt32 × CodedInputStream
  pushLimit : CodedInputStream → Int → CodedInputStream
  popLimit : CodedInputStream → CodedInputStream → CodedInputStream
  readString : CodedInputStream → ByteString → Int → Bool × ByteString × CodedInputStream
  writeVarint32 : Nat → ByteString
  readVarint32_some : ∀ {bs rest : ByteString} {n : Nat}, Varint.decode 10 bs = some (n, rest) →
    readVarint32 { rest := bs } = (true, UInt32.ofNat n, { rest := rest })
  readVarint32_none : ∀ {bs : ByteString}, Varint.decode 10 bs = none →
    ∃ k, readVarint32 { rest := bs } = (false, 0xFFFFFFFF, { rest := bs.drop k })
  pushLimit_neg : ∀ (s : CodedInputStream) {size : Int}, size < 0 → pushLimit s size = s
  popLimit_self : ∀ s : CodedInputStream, popLimit s s = s
  readString_neg : ∀ (s : CodedInputStream) (target : ByteString) {size : Int}, size < 0 →
    readString s target size = (false, target, s)
  readString_nat : ∀ (bs target : ByteString) (n : Nat), readString { rest := bs } target n =
    if n ≤ bs.length then (true, bs.take n, { rest := bs.drop n }) else (false, bs, { rest := [] })
  readString_limited : ∀ (bs target : ByteString) (n : Nat),
    (readString (pushLimit { rest := bs } n) target n).2.1 = bs.take n ∧
      popLimit (readString (pushLimit { rest := bs } n) target n).2.2 { rest := bs } =
        { rest := bs.drop n }
  decode_writeVarint32 : ∀ {n : Nat} (rest : ByteString), n < 2 ^ 32 →
    Varint.decode 10 (writeVarint32 n ++ rest) = some (n, rest)
  length_writeVarint32 : ∀ n : Nat, (writeVarint32 n).length ≤ 5
  zero_notMem_writeVarint32 : ∀ {n : Nat}, 0 < n → (0 : UInt8) ∉ writeVarint32 n
  writeVarint32_zero : writeVarint32 0 = [0]

namespace CodedStreams
variable (streams : CodedStreams)

/-- `WriteVarint32` followed by `WriteString`. -/
def writeSized (s : ByteString) : ByteString := streams.writeVarint32 (s.length % 2 ^ 32) ++ s

theorem writeVarint32_ne_nil {n : Nat} (h : n < 2 ^ 32) : streams.writeVarint32 n ≠ [] := by
  intro hnil
  have hdecode := streams.decode_writeVarint32 [] h
  rw [hnil] at hdecode
  cases hdecode

/-- A length that was written is read. -/
theorem readVarint32_written {n : Nat} (h : n < 2 ^ 32) (rest : ByteString) :
    streams.readVarint32 { rest := streams.writeVarint32 n ++ rest } =
      (true, UInt32.ofNat n, { rest := rest }) :=
  streams.readVarint32_some (streams.decode_writeVarint32 rest h)

/-- What is read or skipped for a varint comes first. -/
theorem readVarint32_rest (bs : ByteString) : ∃ k, k ≤ bs.length ∧
    (streams.readVarint32 { rest := bs }).2.2 = { rest := bs.drop k } := by
  cases hdecode : Varint.decode 10 bs with
  | some read =>
    obtain ⟨used, rfl, -⟩ := Varint.decode_split hdecode
    refine ⟨used.length, by simp, ?_⟩
    rw [streams.readVarint32_some hdecode, List.drop_left]
  | none =>
    obtain ⟨k, hread⟩ := streams.readVarint32_none hdecode
    refine ⟨min k bs.length, Nat.min_le_right _ _, ?_⟩
    rw [hread]
    rcases Nat.le_total k bs.length with hle | hge
    · rw [Nat.min_eq_left hle]
    · rw [Nat.min_eq_right hge, List.drop_of_length_le hge, List.drop_length]

end CodedStreams
end CoroutineRpc.Rpc
