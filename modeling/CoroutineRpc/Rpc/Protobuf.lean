import CoroutineRpc.Rpc.Runtime

/-! A runtime that behaves as protobuf 3 does, with which examples are computed. -/
namespace CoroutineRpc.Rpc

namespace CodedInputStream

def available (s : CodedInputStream) : ByteString := s.rest.take (s.rest.length - s.hidden)

/-- A failed read has consumed the bytes it saw, unless ten continuation bytes were there to be
inspected at once. -/
def readVarint32 (s : CodedInputStream) : Bool × UInt32 × CodedInputStream :=
  match Varint.decode 10 s.available with
  | some (n, tail) =>
    (true, UInt32.ofNat n, { s with rest := s.rest.drop (s.available.length - tail.length) })
  | none =>
    let seen := if 10 ≤ s.available.length then 0 else s.available.length
    (false, 0xFFFFFFFF, { s with rest := s.rest.drop seen })

/-- Only a non-negative limit inside the current one takes effect. -/
def pushLimit (s : CodedInputStream) (size : Int) : CodedInputStream :=
  if 0 ≤ size then { s with hidden := max s.hidden (s.rest.length - size.toNat) } else s

def popLimit (s old : CodedInputStream) : CodedInputStream := { s with hidden := old.hidden }

def readString (s : CodedInputStream) (target : ByteString) (size : Int) :
    Bool × ByteString × CodedInputStream :=
  if size < 0 then (false, target, s)
  else if size.toNat ≤ s.available.length then
    (true, s.rest.take size.toNat, { s with rest := s.rest.drop size.toNat })
  else (false, s.available, { s with rest := s.rest.drop s.available.length })

private theorem available_all (bs : ByteString) :
    ({ rest := bs } : CodedInputStream).available = bs := by
  simp [available]

theorem readVarint32_some {bs rest : ByteString} {n : Nat}
    (h : Varint.decode 10 bs = some (n, rest)) :
    ({ rest := bs } : CodedInputStream).readVarint32 = (true, UInt32.ofNat n, { rest := rest }) := by
  obtain ⟨used, rfl, -⟩ := Varint.decode_split h
  rw [readVarint32, available_all, h]
  simp

theorem readVarint32_none {bs : ByteString} (h : Varint.decode 10 bs = none) :
    ∃ k, ({ rest := bs } : CodedInputStream).readVarint32 =
      (false, 0xFFFFFFFF, { rest := bs.drop k }) := by
  refine ⟨if 10 ≤ bs.length then 0 else bs.length, ?_⟩
  rw [readVarint32, available_all, h]

theorem readString_nat (bs target : ByteString) (n : Nat) :
    ({ rest := bs } : CodedInputStream).readString target n =
      if n ≤ bs.length then (true, bs.take n, { rest := bs.drop n })
      else (false, bs, { rest := [] }) := by
  unfold readString
  rw [available_all, if_neg (by omega), Int.toNat_natCast]
  split
  · rfl
  · simp

/-- Under a limit of the same size a string is read as far as the stream goes. -/
theorem readString_limited (bs target : ByteString) (n : Nat) :
    ((({ rest := bs } : CodedInputStream).pushLimit n).readString target n).2.1 = bs.take n ∧
      ((({ rest := bs } : CodedInputStream).pushLimit n).readString target n).2.2.popLimit
        { rest := bs } = { rest := bs.drop n } := by
  have havailable : (({ rest := bs } : CodedInputStream).pushLimit n).available = bs.take n := by
    simp only [pushLimit, if_pos (Int.natCast_nonneg n), Int.toNat_natCast, available]
    rw [Nat.zero_max]
    by_cases h : n ≤ bs.length
    · rw [Nat.sub_sub_self h]
    · have hall : bs.length - (bs.length - n) = bs.length := by omega
      rw [hall, List.take_length, List.take_of_length_le (by omega)]
  have hrest : (({ rest := bs } : CodedInputStream).pushLimit n).rest = bs := by
    unfold pushLimit
    split <;> rfl
  unfold readString
  rw [havailable, hrest, if_neg (by omega), Int.toNat_natCast]
  split
  · exact ⟨rfl, rfl⟩
  · next h =>
    have hlong : bs.length ≤ n := by
      rw [List.length_take] at h
      omega
    refine ⟨rfl, ?_⟩
    simp only [popLimit, List.length_take, Nat.min_eq_right hlong, List.drop_length,
      List.drop_of_length_le hlong]

end CodedInputStream

namespace WireFormat

/-- A tag has at most five bytes and is cut to 32 bits. -/
def readTag (bs : ByteString) : Option (Nat × ByteString) :=
  (Varint.decode 5 bs).map (fun r => (r.1 % 2 ^ 32, r.2))

def readBytes (bs : ByteString) : Option (ByteString × ByteString) := do
  let (len, rest) ← Varint.decode 5 bs
  if len ≤ rest.length then some (rest.take len, rest.drop len) else none

/-- A varint of up to ten bytes, cut to 32 bits. -/
def readUInt32 (bs : ByteString) : Option (UInt32 × ByteString) :=
  (Varint.decode 10 bs).map (fun r => (UInt32.ofNat r.1, r.2))

def readUInt64 (bs : ByteString) : Option (UInt64 × ByteString) :=
  (Varint.decode 10 bs).map (fun r => (UInt64.ofNat r.1, r.2))

/-- Skip the payload of an unknown field that is not a group. -/
def skipScalar (wireType : Nat) (bs : ByteString) : Option ByteString :=
  match wireType with
  | 0 => (Varint.decode 10 bs).map (·.2)
  | 1 => if 8 ≤ bs.length then some (bs.drop 8) else none
  | 2 => (readBytes bs).map (·.2)
  | 5 => if 4 ≤ bs.length then some (bs.drop 4) else none
  | _ => none

/-- The groups that may be open at a time. -/
def recursionLimit : Nat := 100

/-- Skip up to the end tags of the groups that are open, innermost first. -/
def skipGroups : (fuel : Nat) → List Nat → ByteString → Option ByteString
  | _, [], bs => some bs
  | 0, _ :: _, _ => none
  | fuel + 1, number :: outer, bs => do
    let (tag, rest) ← readTag bs
    if tag / 8 = 0 then none
    else if tag % 8 = 4 then
      if tag / 8 = number then skipGroups fuel outer rest else none
    else if tag % 8 = 3 then
      if outer.length + 1 < recursionLimit then skipGroups fuel (tag / 8 :: number :: outer) rest
      else none
    else
      let rest ← skipScalar (tag % 8) rest
      skipGroups fuel (number :: outer) rest

def unknownField (tag : Nat) (bs : ByteString) : Option ByteString :=
  if tag / 8 = 0 then none
  else if tag % 8 = 3 then skipGroups bs.length [tag / 8] bs
  else skipScalar (tag % 8) bs

theorem readTag_byte {tag : UInt8} (rest : ByteString) (h : tag.toNat < 128) :
    readTag (tag :: rest) = some (tag.toNat, rest) := by
  have hmod : tag.toNat % 2 ^ 32 = tag.toNat := Nat.mod_eq_of_lt (by omega)
  rw [readTag, Varint.decode, if_pos h, Option.map_some, hmod]

theorem readBytes_written {value : ByteString} (rest : ByteString) (hlen : value.length < 2 ^ 31) :
    readBytes ((Varint.encode 5 value.length ++ value) ++ rest) = some (value, rest) := by
  have hfit : value.length < 128 ^ (4 + 1) := by omega
  rw [List.append_assoc, readBytes, Varint.decode_encode hfit (by omega)]
  simp

theorem readBytes_short {n : Nat} {short : ByteString} (hn : n < 2 ^ 31) (hlt : short.length < n) :
    readBytes (Varint.encode 5 n ++ short) = none := by
  have hfit : n < 128 ^ (4 + 1) := by omega
  rw [readBytes, Varint.decode_encode hfit (by omega)]
  simp only [Option.bind_eq_bind, Option.bind_some, if_neg (Nat.not_le_of_gt hlt)]

theorem readUInt32_written (value : UInt32) (rest : ByteString) :
    readUInt32 (Varint.encode 5 value.toNat ++ rest) = some (value, rest) := by
  have hlt := value.toNat_lt
  have hfit : value.toNat < 128 ^ (4 + 1) := by omega
  rw [readUInt32, Varint.decode_encode hfit (by omega)]
  simp

theorem readUInt64_written (value : UInt64) (rest : ByteString) :
    readUInt64 (Varint.encode 10 value.toNat ++ rest) = some (value, rest) := by
  have hlt := value.toNat_lt
  have hfit : value.toNat < 128 ^ (9 + 1) := by omega
  rw [readUInt64, Varint.decode_encode hfit (by omega)]
  simp

end WireFormat

def Runtime.protobuf : Runtime where
  readVarint32 := CodedInputStream.readVarint32
  pushLimit := CodedInputStream.pushLimit
  popLimit := CodedInputStream.popLimit
  readString := CodedInputStream.readString
  writeVarint32 := Varint.encode 5
  readVarint32_some := CodedInputStream.readVarint32_some
  readVarint32_none := CodedInputStream.readVarint32_none
  pushLimit_neg s _ h := if_neg (Int.not_le.mpr h)
  popLimit_self _ := rfl
  readString_neg s _ _ h := if_pos h
  readString_nat := CodedInputStream.readString_nat
  readString_limited := CodedInputStream.readString_limited
  decode_writeVarint32 rest h := Varint.decode_encode (by omega) (by omega) rest
  length_writeVarint32 := Varint.length_encode_le 5
  zero_notMem_writeVarint32 := Varint.zero_notMem_encode
  writeVarint32_zero := rfl
  readTag := WireFormat.readTag
  readBytes := WireFormat.readBytes
  readUInt32 := WireFormat.readUInt32
  readUInt64 := WireFormat.readUInt64
  unknownField := WireFormat.unknownField
  writeVarint64 value := Varint.encode 10 value.toNat
  readTag_byte := WireFormat.readTag_byte
  readBytes_written := WireFormat.readBytes_written
  readBytes_short := WireFormat.readBytes_short
  readUInt32_written := WireFormat.readUInt32_written
  readUInt64_written := WireFormat.readUInt64_written

end CoroutineRpc.Rpc
